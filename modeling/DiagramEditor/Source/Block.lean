import DiagramEditor.Source.Basic

/-!
# Blocks

Each kind of diagram has lines that open a block and lines that close the innermost open one; the
two predicates (`BlockRules`) look at the line without the blanks around it, and a line that
satisfies both opens. Three readings of the same nesting are given. `blockAt?` follows one block
by counting depth, `blocks` lists all blocks, outer ones first, and `checkBalance` says whether
every opener and every closer has its partner.
-/

namespace DiagramEditor

/-- Which lines open and which close a block. -/
structure BlockRules where
  /-- The trimmed line opens a block. -/
  opens : Text → Bool
  /-- The trimmed line closes a block. -/
  closes : Text → Bool

/-- The lines of a block, from its opener to its closer, both included. -/
structure BlockSpan where
  start : Nat
  stop : Nat
deriving DecidableEq, Repr

namespace BlockSpan

/-- The line belongs to the block. -/
def contains (b : BlockSpan) (index : Nat) : Bool :=
  b.start ≤ index && index ≤ b.stop

/-- The number of lines. -/
def length (b : BlockSpan) : Nat :=
  b.stop - b.start + 1

/-- The lines strictly between opener and closer, as a half open range. -/
def inner (b : BlockSpan) : Nat × Nat :=
  (b.start + 1, b.stop)

/-- The span of a single line. -/
def single (index : Nat) : BlockSpan :=
  ⟨index, index⟩

end BlockSpan

namespace Source

/-- What a line does to the nesting. -/
inductive BlockStep where
  | enter
  | leave
  | stay
deriving DecidableEq, Repr

/-- What `line` does to the nesting under the rules. -/
def blockStep (rules : BlockRules) (line : Text) : BlockStep :=
  let trimmed := Text.trim line
  if rules.opens trimmed then .enter else if rules.closes trimmed then .leave else .stay

/-- How many lines further the depth comes down to zero, starting from `depth`. -/
def linesToClose? (rules : BlockRules) : (depth : Nat) → List Text → Option Nat
  | _, [] => none
  | depth, line :: rest =>
    match blockStep rules line with
    | .enter => (linesToClose? rules (depth + 1) rest).map (· + 1)
    | .stay => (linesToClose? rules depth rest).map (· + 1)
    | .leave =>
      if depth - 1 = 0 then some 0 else (linesToClose? rules (depth - 1) rest).map (· + 1)

/-- The block that the line `start` opens. -/
def blockAt? (rules : BlockRules) (start : Nat) (s : Source) : Option BlockSpan := do
  let opener ← s.line? start
  guard (rules.opens (Text.trim opener))
  -- The opener itself is the first line read, and takes the depth from zero to one.
  let n ← linesToClose? rules 0 (s.lines.drop start)
  return ⟨start, start + n⟩

/-- The block that the first line opens whose trimmed form satisfies `p`. -/
def findBlock? (rules : BlockRules) (p : Text → Bool) (s : Source) : Option BlockSpan := do
  let start ← s.find? fun line => p (Text.trim line)
  s.blockAt? rules start

/-- The blocks closed in the lines from number `index` on, in the order of their closers, where
`openers` are the lines of the blocks open so far, the innermost first. -/
def closedBlocks (rules : BlockRules) : (index : Nat) → (openers : List Nat) → List Text →
    List BlockSpan
  | _, _, [] => []
  | index, openers, line :: rest =>
    match blockStep rules line, openers with
    | .enter, _ => closedBlocks rules (index + 1) (index :: openers) rest
    | .leave, start :: outer => ⟨start, index⟩ :: closedBlocks rules (index + 1) outer rest
    | _, _ => closedBlocks rules (index + 1) openers rest

/-- All blocks, in the order of their openers. -/
def blocks (rules : BlockRules) (s : Source) : List BlockSpan :=
  (closedBlocks rules 0 [] s.lines).mergeSort fun a b => a.start ≤ b.start

/-- The first block error in the lines from number `index` on, where `openers` are the lines of the
blocks open so far, the innermost first. -/
def checkBalanceFrom (rules : BlockRules) : (index : Nat) → (openers : List Nat) → List Text →
    Except SourceError Unit
  | _, [], [] => .ok ()
  | _, start :: _, [] => .error (.unterminatedBlock (start + 1))
  | index, openers, line :: rest =>
    match blockStep rules line, openers with
    | .enter, _ => checkBalanceFrom rules (index + 1) (index :: openers) rest
    | .leave, _ :: outer => checkBalanceFrom rules (index + 1) outer rest
    | .leave, [] => .error (.unexpectedBlockEnd (index + 1))
    | .stay, _ => checkBalanceFrom rules (index + 1) openers rest

/-- Every opener has a closer and every closer an opener. -/
def checkBalance (rules : BlockRules) (s : Source) : Except SourceError Unit :=
  checkBalanceFrom rules 0 [] s.lines

end Source

end DiagramEditor
