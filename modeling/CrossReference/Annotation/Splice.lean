import CrossReference.Annotation.Store

/-!
# Splicing

Comments go to the end of the lines that were emitted for their instructions.
-/

namespace CrossReference

/-- A line of a method body and the instructions that it was emitted for. -/
structure EmittedLine where
  text : String
  instructions : List UInt32 := []
deriving DecidableEq

/-- Appends comments to a line, each after a blank and the mark that opens a comment. -/
def appendComments (line : String) (comments : List Comment) (mark : String) : String :=
  comments.foldl (fun line comment => line ++ " " ++ mark ++ comment.text) line

namespace CommentStore

/-- A line with the comments on its instructions, instruction by instruction. -/
def spliceLine (s : CommentStore) (method : Symbol) (mark : String) (line : EmittedLine) : String :=
  line.instructions.foldl
    (fun text instruction => appendComments text (s.lookup method instruction) mark) line.text

/-- The lines of a method with the comments on their instructions. -/
def splice (s : CommentStore) (method : Symbol) (lines : List EmittedLine) (mark : String) :
    List String :=
  lines.map (s.spliceLine method mark)

end CommentStore

end CrossReference
