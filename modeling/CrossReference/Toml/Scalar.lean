import CrossReference.Toml.Reader
import CrossReference.Toml.Table

/-!
# TOML scalars

Strings, numbers, dates and booleans, and what may stand between values.
-/

namespace CrossReference.Toml

open Reader

/-! ## Blanks, line ends and comments -/

def isSpace (c : Char) : Bool := c == ' ' || c == '\t'

def spaces : Reader Unit := do let _ ← span isSpace

/-- A line end: a line feed, with or without a carriage return. -/
def newline : Reader Unit := word "\n" <|> word "\r\n"

/-- Characters of a text that are neither control characters nor from the given list. -/
def isPrintable (except : List Char) (c : Char) : Bool :=
  (c == '\t' || (0x20 ≤ c.toNat && c.toNat ≠ 0x7F)) && !except.contains c

/-- A comment, up to the end of its line. -/
def comment : Reader Unit := do
  word "#"
  let _ ← span (isPrintable [])

/-- What may follow on the line of an expression, and the end of that line or of the text. -/
def lineRest : Reader Unit := do
  spaces
  let _ ← maybe comment
  newline <|> atEnd

/-- Blanks, line ends and comments. -/
def gap : Reader Unit := do
  spaces
  let _ ← many (do (newline <|> (do comment; newline)); spaces)

/-! ## Strings -/

/-- Whether a character is a hexadecimal digit. -/
def isHexDigit (c : Char) : Bool :=
  c.isDigit || ('a' ≤ c && c ≤ 'f') || ('A' ≤ c && c ≤ 'F')

/-- The value of a digit, also of one above nine. -/
def digitValue (c : Char) : Nat :=
  if c.isDigit then c.toNat - '0'.toNat
  else if 'a' ≤ c then c.toNat - 'a'.toNat + 10
  else c.toNat - 'A'.toNat + 10

/-- The number that digits of a base spell. -/
def valueIn (base : Nat) (digits : List Char) : Nat :=
  digits.foldl (fun n c => base * n + digitValue c) 0

/-- A character given by its number in hexadecimal digits; the number has to be that
of a character. -/
def numberedChar (digits : Nat) : Reader Char := do
  let n := valueIn 16 (← exactly isHexDigit digits)
  if n.isValidChar then return Char.ofNat n else failure

/-- An escape inside a basic string. -/
def escape : Reader Char := do
  word "\\"
  match ← one fun _ => true with
  | 'b' => return '\x08'
  | 't' => return '\t'
  | 'n' => return '\n'
  | 'f' => return '\x0c'
  | 'r' => return '\r'
  | '"' => return '"'
  | '\\' => return '\\'
  | 'u' => numberedChar 4
  | 'U' => numberedChar 8
  | _ => failure

/-- A string in quotes, with escapes, on one line. -/
def basicString : Reader String := do
  word "\""
  let parts ← many (span1 (isPrintable ['"', '\\']) <|> ([·]) <$> escape)
  word "\""
  return String.ofList parts.flatten

/-- A string in apostrophes, without escapes, on one line. -/
def literalString : Reader String := do
  word "'"
  let cs ← span (isPrintable ['\''])
  word "'"
  return String.ofList cs

/-- A backslash at the end of a line, with the blanks and line ends after it: nothing. -/
def foldedLine : Reader (List Char) := do
  word "\\"
  spaces
  newline
  let _ ← many ((do let _ ← span1 isSpace) <|> newline)
  return []

/-- One or two quotes that are followed by something else. -/
def looseQuotes (quote : Char) : Reader (List Char) := do
  let quotes ← span (· == quote)
  if quotes.length = 1 ∨ quotes.length = 2 then return quotes else failure

/-- The end of a string over several lines; up to two quotes in front of the closing three belong to
the string. -/
def closingQuotes (quote : Char) : Reader (List Char) := do
  let quotes ← span (· == quote)
  if 3 ≤ quotes.length ∧ quotes.length ≤ 5 then return quotes.drop 3 else failure

/-- The contents of a string over several lines, which start after an immediate line end. -/
def multiline (quote : Char) (content : Reader (List Char)) : Reader String := do
  let _ ← maybe newline
  let parts ← many (content <|> looseQuotes quote)
  let last ← closingQuotes quote
  return String.ofList (parts.flatten ++ last)

/-- A line end inside a string, which is a line feed however it is spelled. -/
def innerNewline : Reader (List Char) := do
  newline
  return ['\n']

/-- A string over several lines with escapes. -/
def multilineBasicString : Reader String := do
  word "\"\"\""
  multiline '"'
    (span1 (isPrintable ['"', '\\']) <|> foldedLine <|> (([·]) <$> escape) <|> innerNewline)

/-- A string over several lines without escapes. -/
def multilineLiteralString : Reader String := do
  word "'''"
  multiline '\'' (span1 (isPrintable ['\'']) <|> innerNewline)

def string : Reader String :=
  multilineBasicString <|> basicString <|> multilineLiteralString <|> literalString

/-! ## Numbers -/

/-- A run of digits, with single underscores allowed between them; the digits. -/
def digitRun (isDigit : Char → Bool) : Reader (List Char) := do
  let first ← one isDigit
  return first :: (← many (one isDigit <|> (do word "_"; one isDigit)))

/-- A sign, if there is one: whether it is a minus. -/
def sign : Reader Bool := do
  match ← maybe (one fun c => c == '+' || c == '-') with
  | some c => return c == '-'
  | none => return false

/-- Decimal digits without a superfluous zero in front. -/
def wholeDigits : Reader (List Char) :=
  (do let first ← one fun c => '1' ≤ c && c ≤ '9'
      return first :: (← many (one Char.isDigit <|> (do word "_"; one Char.isDigit))))
  <|> ([·]) <$> one Char.isDigit

/-- A number in the digits of a base after its mark. -/
def basedNumber (mark : String) (base : Nat) (isDigit : Char → Bool) : Reader Int := do
  word mark
  return valueIn base (← digitRun isDigit)

def decimalInteger : Reader Int := do
  let negative ← sign
  let n := valueIn 10 (← wholeDigits)
  return if negative then -(n : Int) else n

/-- An integer, which has to fit into 64 bits. -/
def integer : Reader Int := do
  let n ← basedNumber "0x" 16 isHexDigit
    <|> basedNumber "0o" 8 (fun c => '0' ≤ c && c ≤ '7')
    <|> basedNumber "0b" 2 (fun c => c == '0' || c == '1')
    <|> decimalInteger
  if -9223372036854775808 ≤ n ∧ n ≤ 9223372036854775807 then return n else failure

/-- Whether `mantissa · 10 ^ exponent` rounds to infinity in double precision. Only the case that
the number of digits does not decide is worked out. -/
def overflows (mantissa : Nat) (exponent : Int) : Bool :=
  let limit := Nat.pow 2 1024 - Nat.pow 2 970
  let digits : Int := (Nat.toDigits 10 mantissa).length
  if mantissa = 0 then false
  else if digits + exponent < 309 then false
  else if digits + exponent > 309 then true
  else if exponent < 0 then limit * Nat.pow 10 exponent.natAbs ≤ mantissa
  else limit ≤ mantissa * Nat.pow 10 exponent.natAbs

def exponent : Reader Int := do
  let _ ← one fun c => c == 'e' || c == 'E'
  let negative ← sign
  let n := valueIn 10 (← digitRun Char.isDigit)
  return if negative then -(n : Int) else n

def fraction : Reader (List Char) := do
  word "."
  digitRun Char.isDigit

/-- A float with a fraction, an exponent or both. One too large to be told from infinity is refused;
one too small is not. -/
def finiteFloat : Reader Unit := do
  let negative ← sign
  let whole ← wholeDigits
  let (places, power) ← (([], ·) <$> exponent)
    <|> (do let places ← fraction
            return (places, (← maybe exponent).getD 0))
  let mantissa := valueIn 10 (whole ++ places)
  if !negative && overflows mantissa (power - places.length) then failure

/-- Infinity or not a number. -/
def specialFloat : Reader Unit := do
  let _ ← sign
  word "inf" <|> word "nan"

def float : Reader Unit := finiteFloat <|> specialFloat

/-! ## Dates and times -/

/-- A number of exactly so many digits. -/
def fixedNumber (digits : Nat) : Reader Nat := do
  return valueIn 10 (← exactly Char.isDigit digits)

/-- A number of two digits within bounds. -/
def twoDigits (least most : Nat) : Reader Nat := do
  let n ← fixedNumber 2
  if least ≤ n ∧ n ≤ most then return n else failure

def daysIn (year month : Nat) : Nat :=
  if month = 2 then
    if year % 4 = 0 ∧ (year % 100 ≠ 0 ∨ year % 400 = 0) then 29 else 28
  else if [4, 6, 9, 11].contains month then 30
  else 31

def date : Reader Unit := do
  let year ← fixedNumber 4
  word "-"
  let month ← twoDigits 1 12
  word "-"
  let _ ← twoDigits 1 (daysIn year month)

/-- A time of day; a minute may have a leap second. -/
def time : Reader Unit := do
  let _ ← twoDigits 0 23
  word ":"
  let _ ← twoDigits 0 59
  word ":"
  let _ ← twoDigits 0 60
  let _ ← maybe (do word "."; span1 Char.isDigit)

/-- A distance from universal time. -/
def zone : Reader Unit := do
  let mark ← one fun c => c == 'Z' || c == 'z' || c == '+' || c == '-'
  if mark == '+' || mark == '-' then
    let _ ← twoDigits 0 23
    word ":"
    let _ ← twoDigits 0 59

/-- A date, a time or both; a time after a date may have a zone. -/
def datetime : Reader Unit :=
  (do date
      let _ ← maybe do
        let _ ← one fun c => c == 'T' || c == 't' || c == ' '
        time
        maybe zone)
  <|> time

/-! ## All scalars -/

/-- A value that holds no other values. -/
def scalar : Reader Node :=
  (.text <$> string)
  <|> (.datetime <$> spelling datetime)
  <|> (.float <$> spelling float)
  <|> (.integer <$> integer)
  <|> (do word "true"; return .boolean true)
  <|> (do word "false"; return .boolean false)

end CrossReference.Toml
