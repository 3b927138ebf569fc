/-!
# Modes, statuses and kinds of contexts

A transaction runs in a mode that says whether it may write and whether its reads are recorded, and
has a status that ends as committed or aborted. A child context is of one of four kinds.
-/

namespace VersionedMemory

inductive Mode where
  /-- Writes are illegal and reads are not recorded. -/
  | readOnly
  /-- Taken to be read-only until the first write; reads are recorded. -/
  | speculative
  /-- Reads are recorded and writes are buffered. -/
  | readWrite
  deriving DecidableEq, Repr, Inhabited

namespace Mode

/-- The mode a transaction begins in when all that is said is whether it is meant to only read. -/
def initial (readOnly : Bool) : Mode := if readOnly then speculative else readWrite

/-- The mode after a write, `none` where the mode forbids it. -/
def onWrite : Mode → Option Mode
  | readOnly => none
  | speculative | readWrite => some readWrite

def recordsReads (m : Mode) : Bool := m ≠ readOnly

/-- Whether the transaction has not yet asked to write. -/
def isReadOnly (m : Mode) : Bool := m ≠ readWrite

instance : ToString Mode where
  toString
    | readOnly => "read-only"
    | speculative => "speculative"
    | readWrite => "read-write"

theorem onWrite_eq_none_iff {m : Mode} : m.onWrite = none ↔ m = readOnly := by
  cases m <;> simp [onWrite]

theorem eq_readWrite_of_onWrite {m n : Mode} (h : m.onWrite = some n) : n = readWrite := by
  cases m <;> simp_all [onWrite]

end Mode

inductive Status where
  | active
  | committed
  | aborted (reason : String)
  deriving DecidableEq, Repr, Inhabited

namespace Status

def isFinal (s : Status) : Bool := s ≠ active

instance : ToString Status where
  toString
    | active => "active"
    | committed => "committed"
    | aborted reason => s!"aborted: {reason}"

end Status

/-- How a task of a batch is kept apart from the tasks beside it. -/
inductive TaskMode where
  /-- Checked against the tasks before it and run again where it overlaps them. -/
  | checked
  /-- Promised to be disjoint from the others, and never checked. -/
  | disjoint
  /-- Writes go into one buffer that all such tasks of the batch see at once. -/
  | shared
  deriving DecidableEq, Repr, Inhabited

/-- What a child context was made for: sequential nesting, or a task of a batch. -/
inductive ChildKind where
  | nested
  | task (mode : TaskMode)
  deriving DecidableEq, Repr, Inhabited

end VersionedMemory
