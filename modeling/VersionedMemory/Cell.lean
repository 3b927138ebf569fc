import VersionedMemory.Chain

/-!
# Cells

A cell is a chain of values with an identity. Its newest version is kept beside the chain as well,
where validation looks it up without walking the chain. A cell also counts the handles that callers
hold on it.
-/

namespace VersionedMemory

structure Cell (V : Type) where
  id : CellId
  type : ContentType
  chain : Chain V
  latest : Version
  /-- How many handles callers hold. -/
  handles : Nat

namespace Cell

variable {V : Type}

/-- A new cell, with one handle on it. -/
def create (id : CellId) (type : ContentType) (value : V) : Cell V :=
  ⟨id, type, .single value genesis, genesis, 1⟩

def value (c : Cell V) : V := c.chain.head.value

/-- What a snapshot sees. -/
def readAt (c : Cell V) (snapshot : Version) : Except Error (Record V) :=
  match c.chain.asOf snapshot with
  | some r => .ok r
  | none => .error (.internal (.underrun c.id snapshot c.chain.tail.version))

def assign (c : Cell V) (value : V) (version : Version) : Except Error (Cell V) :=
  (c.chain.push value version).map fun chain => { c with chain, latest := version }

def update (c : Cell V) (version : Version) (f : V → V) : Except Error (Cell V) :=
  (c.chain.update version f).map fun chain => { c with chain, latest := version }

/-- Give up the values that no snapshot from `floor` on can see. -/
def compact (c : Cell V) (floor : Version) : Cell V := { c with chain := c.chain.compact floor }

end Cell

end VersionedMemory
