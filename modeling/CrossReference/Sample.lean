import CrossReference.Annotation.Splice
import CrossReference.Program.Edit
import CrossReference.Text.Locate

/-!
# Sample programs

Small decompiled programs with their generated text, to try the library on.

- `Sample.demo` — three classes that refer to each other
- `Sample.fanIn` — any number of classes that call one method
- `Sample.pair` — a class and another one that uses it
- `Sample.nest` — a class with a nested class, and two others that make instances of the nested one
- `Sample.alike` — a class with two methods whose signatures read the same
- `Sample.Door` — a class with a method that has a body and one that has none
- `Sample.methodBody` — the emitted lines of one method
-/

namespace CrossReference.Sample

/-- A program and the texts of its classes. -/
structure SampleProgram where
  program : Program
  texts : List ClassText

/-- A text made of lines that each end with a line feed. -/
def codeOf (lines : List String) : String := lines.foldl (fun code line => code ++ line ++ "\n") ""

/-- Something to be found in a text: its line, how it reads, and what it declares or refers to. -/
abbrev Mention := UInt32 × String × Handle

/-- The positions of what a text mentions. -/
def positions (code : String) (mentions : List Mention) : List (Position × Handle) :=
  mentions.filterMap fun (line, needle, h) => (Text.locate code line needle).map (·, h)

/-- Places declarations where a text mentions them. -/
def placements (code : String) (mentions : List Mention) : List Edit :=
  (positions code mentions).map fun (position, h) => .place h position

/-- The text of a class that refers to what it mentions, with the layout that the
program gives it. -/
def classText (p : Program) (subject : Handle) (code : String) (mentions : List Mention)
    (instructions : List (UInt64 × UInt32)) : ClassText :=
  let layout := (Layout.ofClass p subject).toOption.getD ∅
  .ofCode subject code (.ofList (positions code mentions)) (layout.addInstructions instructions)

/-- Instructions that start a line. -/
def lineInstructions (code : String) (instructions : List (UInt32 × UInt32)) :
    List (UInt64 × UInt32) :=
  instructions.filterMap fun (line, instruction) =>
    (Text.lineStart code line).map (·.offset, instruction)

/-! ## Three classes -/

def testClsCode : String := codeOf
  ["package demo;",
   "",
   "import demo.Foo;",
   "",
   "public class TestCls \x7b",
   "    private Foo foo;",
   "",
   "    public int test(boolean z) \x7b",
   "        if (z) \x7b",
   "            System.out.println(\"z\");",
   "            return 1;",
   "        \x7d",
   "        return 3;",
   "    \x7d",
   "",
   "    public void make() \x7b",
   "        this.foo = new Foo();",
   "        test(true);",
   "    \x7d",
   "\x7d"]

def fooCode : String := codeOf
  ["package demo;",
   "",
   "public class Foo \x7b",
   "    public Foo() \x7b",
   "    \x7d",
   "",
   "    public int size() \x7b",
   "        return 0;",
   "    \x7d",
   "\x7d"]

def callerCode : String := codeOf
  ["package demo;",
   "",
   "public class Caller \x7b",
   "    private static final Foo SHARED = new Foo();",
   "",
   "    public int call() \x7b",
   "        return SHARED.size();",
   "    \x7d",
   "\x7d"]

def testCls : Handle := ⟨0⟩
def fooField : Handle := ⟨1⟩
def testMethod : Handle := ⟨2⟩
def makeMethod : Handle := ⟨3⟩
def foo : Handle := ⟨4⟩
def fooConstructor : Handle := ⟨5⟩
def fooSize : Handle := ⟨6⟩
def caller : Handle := ⟨7⟩
def sharedField : Handle := ⟨8⟩
def callMethod : Handle := ⟨9⟩

/-- How the three classes are built; handles count the additions. -/
def demoEdits : List Edit :=
  [.addClass "demo.TestCls",
   .addField testCls "foo" "Ldemo/Foo;",
   .addMethod testCls "test" "(Z)I",
   .addMethod testCls "make" "()V",
   .addClass "demo.Foo",
   .addConstructor foo "()V",
   .addMethod foo "size" "()I",
   .addClass "demo.Caller",
   .addField caller "SHARED" "Ldemo/Foo;",
   .addMethod caller "call" "()I"]
  ++ placements testClsCode
    [(5, "TestCls", testCls), (6, "foo", fooField), (8, "test", testMethod),
     (16, "make", makeMethod)]
  ++ placements fooCode [(3, "Foo", foo), (4, "Foo", fooConstructor), (7, "size", fooSize)]
  ++ placements callerCode
    [(3, "Caller", caller), (4, "SHARED", sharedField), (6, "call", callMethod)]

def demoProgram : Program := Program.empty.afterEdits demoEdits

/-- The declarations of the three classes, in the order of addition. -/
def demoHandles : List Handle :=
  [testCls, fooField, testMethod, makeMethod, foo, fooConstructor, fooSize, caller, sharedField,
   callMethod]

/-- The class `TestCls` has a field of type `Foo`, calls `new Foo()` and its own `test`. -/
def testClsText : ClassText :=
  classText demoProgram testCls testClsCode
    [(3, "Foo", foo), (5, "TestCls", testCls), (6, "Foo", foo), (6, "foo", fooField),
     (8, "test", testMethod), (16, "make", makeMethod), (17, "foo", fooField),
     (17, "Foo", fooConstructor), (18, "test", testMethod)]
    (lineInstructions testClsCode [(9, 0), (10, 3), (11, 13), (13, 10)])

/-- The class `Foo` has a constructor and `size`. -/
def fooText : ClassText :=
  classText demoProgram foo fooCode
    [(3, "Foo", foo), (4, "Foo", fooConstructor), (7, "size", fooSize)] []

/-- The class `Caller` keeps a `Foo` in a static field and calls `size` on it. -/
def callerText : ClassText :=
  classText demoProgram caller callerCode
    [(3, "Caller", caller), (4, "Foo", foo), (4, "SHARED", sharedField),
     (4, "Foo()", fooConstructor), (7, "SHARED", sharedField), (7, "size", fooSize)] []

def demo : SampleProgram := ⟨demoProgram, [testClsText, fooText, callerText]⟩

/-- The method `TestCls.test` as emitted, each line with the instructions on it. -/
def methodBody : List EmittedLine :=
  [⟨"    public int test(boolean z) \x7b", []⟩,
   ⟨"        if (z) \x7b", [0, 1]⟩,
   ⟨"            System.out.println(\"z\");", [3, 5, 8]⟩,
   ⟨"            return 1;", [13]⟩,
   ⟨"        \x7d", []⟩,
   ⟨"        return 3;", [10]⟩,
   ⟨"    \x7d", []⟩]

/-! ## Many callers of one method -/

/-- The method that all callers call. -/
def hit : Handle := ⟨1⟩

/-- The text of the caller with the given number. -/
def fanInCode (number : Nat) : String := codeOf
  ["package demo;",
   "",
   "public class Caller" ++ toString number ++ " \x7b",
   "    void run() \x7b",
   "        Target.hit();",
   "    \x7d",
   "\x7d"]

/-- Adds the caller with the given number. -/
def addCaller (s : SampleProgram) (number : Nat) : SampleProgram :=
  let code := fanInCode number
  let subject := Handle.ofCount s.program.size
  let run := Handle.ofCount (s.program.size + 1)
  let program := s.program.afterEdits <|
    [.addClass ("demo.Caller" ++ toString number), .addMethod subject "run" "()V"]
    ++ placements code [(3, "Caller", subject), (4, "run", run)]
  ⟨program, s.texts ++ [classText program subject code [(5, "hit", hit)] []]⟩

/-- A method `demo.Target.hit` and the given number of classes that call it. -/
def fanIn (callers : Nat) : SampleProgram :=
  let target := Program.empty.afterEdits [.addClass "demo.Target", .addMethod ⟨0⟩ "hit" "()V"]
  (List.range callers).foldl addCaller ⟨target, []⟩

/-! ## A class and its user -/

namespace Pair

def callee : Handle := ⟨0⟩
def calleeConstructor : Handle := ⟨1⟩
def calleeHit : Handle := ⟨2⟩
def client : Handle := ⟨3⟩
def clientRun : Handle := ⟨4⟩

/-- The class `Callee` with a constructor and `hit`, and the class `Client` with `run`. -/
def program : Program := Program.empty.afterEdits
  [.addClass "demo.Callee",
   .addConstructor callee "()V",
   .addMethod callee "hit" "()V",
   .addClass "demo.Client",
   .addMethod client "run" "()V",
   .place clientRun ⟨20, 2⟩]

def calleeText : ClassText := ⟨callee, ["class Callee"], ∅, ∅⟩

def clientLines : List String := ["import demo.Callee;", "void run() \x7b", " new Callee().hit();"]

/-- The class `Client` imports `Callee`, declares `run`, makes a `Callee` and calls `hit`; the last
mention of `hit` is on a line that the text does not have. -/
def clientOccurrences : List (Position × Handle) :=
  [(⟨7, 1⟩, callee), (⟨20, 2⟩, clientRun), (⟨38, 3⟩, calleeConstructor), (⟨47, 3⟩, calleeHit),
   (⟨60, 9⟩, calleeHit)]

def clientLayout : Layout := (Layout.ofClass program client).toOption.getD ∅

def clientText : ClassText := ⟨client, clientLines, .ofList clientOccurrences, clientLayout⟩

/-- The same text with a mention in its midst of something that the program does not know. -/
def brokenText : ClassText :=
  { clientText with occurrences := .ofList (clientOccurrences ++ [(⟨42, 3⟩, ⟨9⟩)]) }

/-- The same declarations, added in another order. -/
def shuffledProgram : Program := Program.empty.afterEdits
  [.addClass "demo.Client",
   .addClass "demo.Callee",
   .addMethod ⟨0⟩ "run" "()V",
   .addMethod ⟨1⟩ "hit" "()V",
   .addConstructor ⟨1⟩ "()V",
   .place ⟨2⟩ ⟨20, 2⟩]

/-- The handle in the other order. -/
def shuffle (h : Handle) : Handle :=
  if h = client then ⟨0⟩
  else if h = callee then ⟨1⟩
  else if h = clientRun then ⟨2⟩
  else if h = calleeHit then ⟨3⟩
  else ⟨4⟩

end Pair

def pair : SampleProgram := ⟨Pair.program, [Pair.calleeText, Pair.clientText]⟩

/-! ## A nested class -/

namespace Nest

def shop : Handle := ⟨0⟩
def item : Handle := ⟨1⟩
def itemConstructor : Handle := ⟨2⟩
def itemCopy : Handle := ⟨3⟩
def till : Handle := ⟨4⟩
def tillSell : Handle := ⟨5⟩
def bag : Handle := ⟨6⟩
def bagFill : Handle := ⟨7⟩

/-- The class `Shop` with the nested class `Item`, which has a constructor and `copy`, the class
`Till` with `sell`, and the class `Bag` with `fill`. -/
def program : Program := Program.empty.afterEdits
  [.addClass "demo.Shop",
   .addNestedClass shop "demo.Shop$Item",
   .addConstructor item "()V",
   .addMethod item "copy" "()Ldemo/Shop$Item;",
   .addClass "demo.Till",
   .addMethod till "sell" "()V",
   .addClass "demo.Bag",
   .addMethod bag "fill" "()Ldemo/Shop$Item;",
   .place shop ⟨6, 1⟩,
   .place item ⟨20, 2⟩,
   .place itemCopy ⟨34, 3⟩,
   .place till ⟨6, 1⟩,
   .place tillSell ⟨19, 2⟩,
   .place bag ⟨6, 1⟩,
   .place bagFill ⟨18, 2⟩]

/-- The class `Shop`, whose nested class returns and makes an `Item`. -/
def shopText : ClassText where
  subject := shop
  lines := ["class Shop \x7b", " class Item \x7b", "  Item copy() \x7b", "   return new Item();"]
  occurrences := .ofList
    [(⟨6, 1⟩, shop), (⟨20, 2⟩, item), (⟨29, 3⟩, item), (⟨34, 3⟩, itemCopy),
     (⟨57, 4⟩, itemConstructor)]
  layout := (Layout.ofClass program shop).toOption.getD ∅

/-- The class `Till`, whose `sell` makes an `Item`. -/
def tillText : ClassText where
  subject := till
  lines := ["class Till \x7b", " void sell() \x7b", "  new Shop.Item();"]
  occurrences := .ofList
    [(⟨6, 1⟩, till), (⟨19, 2⟩, tillSell), (⟨34, 3⟩, shop), (⟨39, 3⟩, itemConstructor)]
  layout := (Layout.ofClass program till).toOption.getD ∅

/-- The class `Bag`, whose `fill` makes an `Item` and copies it. -/
def bagText : ClassText where
  subject := bag
  lines := ["class Bag \x7b", " Item fill() \x7b", "  return new Shop.Item().copy();"]
  occurrences := .ofList
    [(⟨6, 1⟩, bag), (⟨13, 2⟩, item), (⟨18, 2⟩, bagFill), (⟨40, 3⟩, shop),
     (⟨45, 3⟩, itemConstructor), (⟨52, 3⟩, itemCopy)]
  layout := (Layout.ofClass program bag).toOption.getD ∅

end Nest

def nest : SampleProgram := ⟨Nest.program, [Nest.shopText, Nest.tillText, Nest.bagText]⟩

/-! ## Signatures that read the same -/

/-- A class with two methods that differ in name and descriptor, but not in what the
two make together. -/
def alike : Program := Program.empty.afterEdits
  [.addClass "demo.Alike",
   .addMethod ⟨0⟩ "run" "()V",
   .addMethod ⟨0⟩ "run(" ")V"]

/-! ## A method without a body -/

namespace Door

def door : Handle := ⟨0⟩
def unlock : Handle := ⟨1⟩
def lock : Handle := ⟨2⟩

/-- The class `Door` with `unlock`, and behind it `lock`, which has no body. -/
def program : Program := Program.empty.afterEdits
  [.addClass "demo.Door",
   .addMethod door "unlock" "()V",
   .addMethod door "lock" "()V",
   .place door ⟨15, 1⟩,
   .place unlock ⟨28, 2⟩,
   .place lock ⟨72, 5⟩]

/-- Where the instructions of `unlock` stand in the text: they are all that `Door` has. -/
def instructions : List (UInt64 × UInt32) := [(41, 0), (46, 3)]

/-- Which declaration a line of `Door` belongs to, and which instruction a byte. -/
def locator : Locator :=
  (((Layout.ofClass program door).toOption.getD ∅).addInstructions instructions).locator

end Door

end CrossReference.Sample
