/-!
# Settings

What a user can configure, with its defaults, and which settings are refused.
-/

namespace CrossReference

/-- When the records of a class become visible. -/
inductive Publication where
  /-- All together, once the whole class has been processed. -/
  | buffered
  /-- Each one as soon as it is found. -/
  | streaming
deriving DecidableEq

/-- The word for a way of publishing. -/
def Publication.word : Publication → String
  | buffered => "buffered"
  | streaming => "streaming"

/-- The way of publishing that a word stands for. -/
def Publication.ofWord? : String → Option Publication
  | "buffered" => some buffered
  | "streaming" => some streaming
  | _ => none

@[simp] theorem Publication.ofWord?_word (m : Publication) : ofWord? m.word = some m := by
  cases m <;> rfl

/-- Settings of the usage index. -/
structure UsageSettings where
  /-- Lines that start with this text hold no usages. -/
  importMark : String := "import "
  /-- Whether using a constructor is using its class as well. -/
  constructorUsesClass : Bool := true
  publication : Publication := .buffered
deriving DecidableEq

/-- Settings of batches. -/
structure BatchSettings where
  /-- Number of workers; 0 leaves the number open. -/
  threads : UInt64 := 0
  showProgress : Bool := false
deriving DecidableEq

/-- Settings of comments in generated text. -/
structure CommentSettings where
  /-- The text that opens a comment. -/
  commentMark : String := "// "
deriving DecidableEq

/-- All settings. -/
structure Settings where
  usage : UsageSettings := {}
  batch : BatchSettings := {}
  comments : CommentSettings := {}
deriving DecidableEq

instance : Inhabited UsageSettings := ⟨{}⟩

instance : Inhabited Settings := ⟨{}⟩

/-- Why settings are not accepted. -/
inductive SettingsError where
  /-- There is no readable file at the path. -/
  | notFound (path : String)
  /-- The values cannot be used. -/
  | invalid (reason : String)
  /-- The text is not a settings document. -/
  | malformed (reason : String)
deriving DecidableEq

def SettingsError.message : SettingsError → String
  | notFound path => "Config file not found: " ++ path
  | invalid reason => "Invalid config: " ++ reason
  | malformed reason => "Parse error: " ++ reason

/-- Refuses settings under which every line would count as an import. -/
def Settings.validate (s : Settings) : Except SettingsError Unit :=
  if s.usage.importMark.isEmpty then .error (.invalid "usage.import_prefix must not be empty")
  else .ok ()

end CrossReference
