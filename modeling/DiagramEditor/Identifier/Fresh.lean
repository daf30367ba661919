import DiagramEditor.Text.Numeral

/-!
# Fresh identifiers

New parts of a diagram get a name with a serial number. The number is the first one, counting up
from a start, whose name is not taken yet (`firstFree`). It is enough to try once for each taken
name: the candidates are distinct, so one of the first `taken.length + 1` of them is free. Serial
numbers end at `lastSerial`, where counting stops.

An `IdAllocator` remembers the last number it gave for each kind of name and only counts forward,
so it gives no name twice, also when the first one has been deleted from the source since.
-/

namespace DiagramEditor

namespace Fresh

/-- The last serial number, the greatest of 32 bits. -/
def lastSerial : Nat :=
  0xFFFF_FFFF

/-- The serial number after `n`. -/
def next (n : Nat) : Nat :=
  min (n + 1) lastSerial

/-- The first serial number from `n` on whose name is not taken; after `tries` taken names the
next number is returned unseen. -/
def firstFreeIn (name : Nat → Text) (taken : List Text) : (tries n : Nat) → Nat
  | 0, n => n
  | tries + 1, n =>
    if taken.contains (name n) then firstFreeIn name taken tries (next n) else n

/-- The first serial number from `n` on whose name is not taken. -/
def firstFree (name : Nat → Text) (taken : List Text) (n : Nat) : Nat :=
  firstFreeIn name taken taken.length n

/-- The name made of `stem` and the serial number. -/
def numberedName (stem : Text) (n : Nat) : Text :=
  stem ++ Text.ofNat n

/-- The name made of `base`, an underscore and the serial number. -/
def suffixedName (base : Text) (n : Nat) : Text :=
  base ++ '_' :: Text.ofNat n

/-- `stem` followed by the first positive number that makes a free name. -/
def numbered (stem : Text) (taken : List Text) : Text :=
  numberedName stem (firstFree (numberedName stem) taken 1)

/-- `base` with the first suffix `_1`, `_2`, … that makes a free name. -/
def suffixed (base : Text) (taken : List Text) : Text :=
  suffixedName base (firstFree (suffixedName base) taken 1)

end Fresh

/-- The last serial number given for each kind of name. -/
structure IdAllocator where
  nodes : Nat := 0
  subgraphs : Nat := 0
  entities : Nat := 0
deriving DecidableEq, Repr

namespace IdAllocator

/-- The first number after `counter` whose name is free. -/
def advance (stem : Text) (counter : Nat) (taken : List Text) : Nat :=
  Fresh.firstFree (Fresh.numberedName stem) taken (Fresh.next counter)

/-- What node names begin with. -/
def nodeStem : Text :=
  "N".toList

/-- What subgraph names begin with. -/
def subgraphStem : Text :=
  "subGraph".toList

/-- What entity names begin with. -/
def entityStem : Text :=
  "ENTITY".toList

/-- A free node name. -/
def freshNode (taken : List Text) (ids : IdAllocator) : Text × IdAllocator :=
  let n := advance nodeStem ids.nodes taken
  (Fresh.numberedName nodeStem n, { ids with nodes := n })

/-- A free subgraph name. -/
def freshSubgraph (taken : List Text) (ids : IdAllocator) : Text × IdAllocator :=
  let n := advance subgraphStem ids.subgraphs taken
  (Fresh.numberedName subgraphStem n, { ids with subgraphs := n })

/-- A free entity name. -/
def freshEntity (taken : List Text) (ids : IdAllocator) : Text × IdAllocator :=
  let n := advance entityStem ids.entities taken
  (Fresh.numberedName entityStem n, { ids with entities := n })

end IdAllocator

end DiagramEditor
