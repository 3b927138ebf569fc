import VersionedMemory.Engine

/-!
# Hooks by rule

The hooks that a script installs follow simple rules: an observer that vetoes by the number of
cells, by transaction or by cell, and a choice of the modes of children by their kind.
-/

namespace VersionedMemory.Script

/-- When the observer refuses a commit. -/
structure VetoRule where
  /-- More cells than this are refused. -/
  limit : Option Nat
  txns : List Nat
  /-- Cells whose change is refused. -/
  cells : List Nat
  reason : String
  deriving Repr

def VetoRule.refuse (rule : VetoRule) (txn : TxnId) (written : List CellId) : Option String :=
  if rule.limit.any (· < written.length) || rule.txns.contains txn.number ||
      written.any (rule.cells.contains ·.number) then some rule.reason
  else none

/-- The modes of children of some kinds; those of other kinds keep the mode they are opened in. -/
def chooseMode (modes : List (ChildKind × Mode)) (kind : ChildKind) (mode : Mode) : Mode :=
  (modes.lookup kind).getD mode

end VersionedMemory.Script
