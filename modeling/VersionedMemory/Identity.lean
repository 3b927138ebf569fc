/-!
# Identities and versions

Cells, transactions, engines and threads are told apart by number. A version counts the read-write
commits of an engine: each such commit publishes the next version, and version 0 holds what every
cell was created with.
-/

namespace VersionedMemory

/-- A number of read-write commits. A snapshot sees what was committed up to its version. -/
abbrev Version := Nat

def genesis : Version := 0

/-- The identity of a cell, unique in the whole memory. -/
structure CellId where
  number : Nat
  deriving DecidableEq, Repr, Inhabited

instance : ToString CellId := ⟨fun c => s!"cell#{c.number}"⟩

/-- The identity of a top-level transaction on its engine. Its child contexts share it. -/
structure TxnId where
  number : Nat
  deriving DecidableEq, Repr, Inhabited

instance : ToString TxnId := ⟨fun t => s!"txn#{t.number}"⟩

abbrev EngineId := Nat

abbrev ThreadId := Nat

/-- What a caller holds an open top-level transaction by. -/
abbrev Handle := Nat

/-- The type of the values that a cell holds. Values are never inspected: two buffered changes
agree on the type of their value when the cells they target do. -/
abbrev ContentType := Nat

end VersionedMemory
