import CrossReference.Log

/-!
# Comments

User comments are attached to an instruction of a method: to the symbol of the method and the offset
of the instruction. The store is replaced as a whole. Beside the list of comments it keeps a table
from method and instruction to the places of their comments in the list.
-/

namespace CrossReference

/-- A comment on one instruction. -/
structure Comment where
  /-- The method. -/
  target : Symbol
  /-- The instruction. -/
  instruction : UInt32
  text : String
deriving DecidableEq

/-- Where the comments on each instruction stand in a list of comments. -/
abbrev CommentTable := OrderedMap Symbol (OrderedMap UInt32 (List Nat))

namespace CommentTable

/-- Notes that the comment at a place of the list is attached to an instruction. -/
def note (table : CommentTable) (comment : Comment) (place : Nat) : CommentTable :=
  table.alter comment.target fun byInstruction =>
    some <| (byInstruction.getD ∅).alter comment.instruction fun places =>
      some (places.getD [] ++ [place])

/-- Adds comments that stand in the list from the given place on. -/
def noteFrom (table : CommentTable) : Nat → List Comment → CommentTable
  | _, [] => table
  | place, comment :: rest => noteFrom (table.note comment place) (place + 1) rest

/-- The table of a list of comments. -/
def ofList (comments : List Comment) : CommentTable := noteFrom (∅ : CommentTable) 0 comments

/-- The places of the comments on an instruction. -/
def places (table : CommentTable) (target : Symbol) (instruction : UInt32) : List Nat :=
  (do (← table.get? target).get? instruction).getD []

end CommentTable

/-- The comments that are attached at present. -/
structure CommentStore where
  /-- How many times the store was replaced; the number wraps around. -/
  generation : UInt64
  /-- The comments in the order given. -/
  comments : Array Comment
  table : CommentTable

namespace CommentStore

def empty : CommentStore := ⟨0, #[], ∅⟩

instance : Inhabited CommentStore := ⟨empty⟩

/-- Replaces all comments. Several comments on one instruction are all kept. -/
def setAll (s : CommentStore) (comments : List Comment) : CommentStore :=
  ⟨s.generation + 1, comments.toArray, .ofList comments⟩

def setAllLog (s : CommentStore) (comments : List Comment) : List LogEvent :=
  [⟨.debug, "Replaced annotation store",
    [("generation", toString (s.generation + 1)), ("comments", toString comments.length)]⟩]

/-- The comments on an instruction, in the order given. -/
def lookup (s : CommentStore) (target : Symbol) (instruction : UInt32) : List Comment :=
  (s.table.places target instruction).filterMap fun place => s.comments[place]?

/-- The comments on a method, in the order given. -/
def commentsFor (s : CommentStore) (target : Symbol) : List Comment :=
  s.comments.toList.filter (·.target = target)

/-- All comments, in the order given. -/
def toList (s : CommentStore) : List Comment := s.comments.toList

def size (s : CommentStore) : Nat := s.comments.size

def isEmpty (s : CommentStore) : Bool := s.comments.isEmpty

end CommentStore

end CrossReference
