/-!
# Readers

A reader takes something from the front of a text, or fails. Of two alternatives the second is tried
on the same text if the first one fails.
-/

namespace CrossReference.Toml

/-- Takes something from the front of a text. -/
abbrev Reader (α : Type) := StateT (List Char) Option α

namespace Reader

/-- Succeeds at the end of the text. -/
def atEnd : Reader Unit := do
  if (← get).isEmpty then return () else failure

def one (p : Char → Bool) : Reader Char := do
  match ← get with
  | c :: rest => if p c then set rest; return c else failure
  | [] => failure

/-- Takes all characters up to the first that does not satisfy `p`. -/
def span (p : Char → Bool) : Reader (List Char) := do
  let cs ← get
  set (cs.dropWhile p)
  return cs.takeWhile p

/-- Like `span`, but takes one character at least. -/
def span1 (p : Char → Bool) : Reader (List Char) := do
  let cs ← span p
  if cs.isEmpty then failure else return cs

/-- Takes exactly the given number of characters that satisfy `p`. -/
def exactly (p : Char → Bool) : Nat → Reader (List Char)
  | 0 => return []
  | n + 1 => do
    let c ← one p
    return c :: (← exactly p n)

def word (w : String) : Reader Unit := do
  let cs ← get
  if w.toList.isPrefixOf cs then set (cs.drop w.length) else failure

/-- Takes what `r` takes, or nothing. -/
def maybe {α : Type} (r : Reader α) : Reader (Option α) := (some <$> r) <|> pure none

/-- Repeats a reader until it fails, for a bounded number of times. -/
def upTo {α : Type} (r : Reader α) : Nat → Reader (List α)
  | 0 => return []
  | n + 1 => do
    match ← maybe r with
    | some a => return a :: (← upTo r n)
    | none => return []

/-- Repeats a reader that takes something each time until it fails. -/
def many {α : Type} (r : Reader α) : Reader (List α) := do upTo r (← get).length

/-- Repeats a reader with separators between, once at least. -/
def separated {α : Type} (r : Reader α) (separator : Reader Unit) : Reader (List α) := do
  let first ← r
  return first :: (← many (do separator; r))

/-- The text that a reader takes. -/
def spelling {α : Type} (r : Reader α) : Reader String := do
  let before ← get
  let _ ← r
  let after ← get
  return String.ofList (before.take (before.length - after.length))

/-- What a reader makes of a whole text. -/
def readAll? {α : Type} (r : Reader α) (text : String) : Option α := do
  let (a, rest) ← StateT.run r text.toList
  if rest.isEmpty then return a else none

end Reader

end CrossReference.Toml
