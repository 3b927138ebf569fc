import VersionedMemory.Identity

/-!
# Errors

An operation fails for one of six groups of causes. A conflict means that the same body may succeed
when it runs again; an internal error means that an invariant of the engine did not hold. The
wording of each cause is given once, by the `message` function of its type. A caller outside a
transaction sees a `Failure`, which words two of the groups otherwise and may also come from the
system.
-/

namespace VersionedMemory

/-- Why a commit lost. -/
inductive Conflict where
  /-- A recorded read was superseded: read at `read`, now committed at `committed`. -/
  | staleRead (cell : CellId) (read committed : Version)
  | vetoed (reason : String)
  deriving DecidableEq, Repr

def Conflict.message : Conflict → String
  | staleRead cell read committed => s!"stale read of {cell}: read v{read}, committed v{committed}"
  | vetoed reason => s!"commit vetoed: {reason}"

/-- What was asked for although the rules forbid it. -/
inductive Misuse where
  | writeInReadOnly (txn : TxnId)
  | childCommit
  | childSuspend
  | notParked (txn : TxnId)
  | alreadyBound (txn : TxnId)
  | threadOccupied
  | nothingBound
  /-- A body's own complaint. -/
  | other (text : String)
  deriving DecidableEq, Repr

def Misuse.message : Misuse → String
  | writeInReadOnly txn => s!"write inside read-only transaction {txn}"
  | childCommit => "nested transactions finish into their parent, not the commit sequence"
  | childSuspend => "nested transactions cannot be suspended"
  | notParked txn => s!"no suspended transaction for {txn}"
  | alreadyBound txn => s!"{txn} is already bound to this thread"
  | threadOccupied => "a transaction is already bound to this thread"
  | nothingBound => "no transaction is bound to this thread"
  | other text => text

/-- Which setting can never work. -/
inductive BadSetting where
  | noThreads
  | noReclaimInterval
  | noAttempts
  | noWorkerInterval
  | other (text : String)
  deriving DecidableEq, Repr

def BadSetting.message : BadSetting → String
  | noThreads => "parallelism must be at least 1 thread"
  | noReclaimInterval => "reclaim_every_commits must be at least 1"
  | noAttempts => "max_retries must be at least 1"
  | noWorkerInterval => "reclaim interval must be non-zero"
  | other text => text

/-- Which invariant of the engine did not hold. -/
inductive Fault where
  | outOfOrder (version head : Version)
  | underrun (cell : CellId) (snapshot tail : Version)
  | pendingWriteType (cell : CellId)
  /-- What is pending as a delta is none, or has another type of value. -/
  | pendingDeltaType (cell : CellId)
  | writeTypeChanged (cell : CellId)
  | deltaTypeChanged (cell : CellId)
  /-- A cell to be written already holds the version about to be published, or a newer one. -/
  | aheadOfHead (cell : CellId) (held head : Version)
  | other (text : String)
  deriving DecidableEq, Repr

def Fault.message : Fault → String
  | outOfOrder version head => s!"version {version} published after head version {head}"
  | underrun cell snapshot tail =>
    s!"reclamation underrun on {cell}: snapshot {snapshot} precedes tail {tail}"
  | pendingWriteType cell => s!"pending write for {cell} holds a different value type"
  | pendingDeltaType cell => s!"pending delta for {cell} holds a different value type"
  | writeTypeChanged cell => s!"write-set entry for {cell} changed value type"
  | deltaTypeChanged cell => s!"delta for {cell} changed value type"
  | aheadOfHead cell held head =>
    s!"{cell} already holds version {held} but the sequence head is {head}"
  | other text => text

inductive Error where
  /-- The transaction lost at commit; its writes are discarded. -/
  | conflict (txn : TxnId) (cause : Conflict)
  | illegal (cause : Misuse)
  /-- The transaction has already come to the end that `state` describes. -/
  | notActive (txn : TxnId) (state : String)
  /-- The body asked to give up. -/
  | aborted (txn : TxnId) (reason : String)
  | config (cause : BadSetting)
  | internal (cause : Fault)
  deriving DecidableEq, Repr

namespace Error

def message : Error → String
  | conflict txn cause => s!"{txn} conflict: {cause.message}"
  | illegal cause => s!"illegal operation: {cause.message}"
  | notActive txn state => s!"{txn} is not active ({state})"
  | aborted txn reason => s!"{txn} aborted: {reason}"
  | config cause => s!"invalid configuration: {cause.message}"
  | internal cause => s!"internal error: {cause.message}"

def isConflict : Error → Bool
  | conflict .. => true
  | _ => false

def isInternal : Error → Bool
  | internal _ => true
  | _ => false

def conflict? : Error → Option Conflict
  | conflict _ cause => some cause
  | _ => none

end Error

/-- Why a call from outside any transaction failed. -/
inductive Failure where
  | engine (error : Error)
  /-- The system refused. -/
  | io (text : String)
  deriving DecidableEq, Repr

namespace Failure

def message : Failure → String
  | engine (.notActive txn state) => s!"transaction not active: {txn} is {state}"
  | engine (.aborted txn reason) => s!"aborted: {txn}: {reason}"
  | engine e => e.message
  | io text => s!"I/O error: {text}"

def isConflict : Failure → Bool
  | engine e => e.isConflict
  | io _ => false

def isInternal : Failure → Bool
  | engine e => e.isInternal
  | io _ => false

end Failure

theorem map_eq_ok_iff {ε α β : Type} {f : α → β} {r : Except ε α} {b : β} :
    r.map f = .ok b ↔ ∃ a, r = .ok a ∧ f a = b := by
  cases r <;> simp [Except.map]

theorem map_eq_error_iff {ε α β : Type} {f : α → β} {r : Except ε α} {err : ε} :
    r.map f = .error err ↔ r = .error err := by
  cases r <;> simp [Except.map]

theorem ok_of_toOption {ε α : Type} {r : Except ε α} {a : α} (h : r.toOption = some a) :
    r = .ok a := by
  cases r <;> cases h
  rfl

theorem eq_of_toOption {ε α β : Type} {o : Except ε α × β} {a : α} (h : o.1.toOption = some a) :
    o = (.ok a, o.2) :=
  Prod.ext (ok_of_toOption h) rfl

theorem bind_eq_ok_iff {ε α β : Type} {f : α → Except ε β} {r : Except ε α} {b : β} :
    r.bind f = .ok b ↔ ∃ a, r = .ok a ∧ f a = .ok b := by
  cases r <;> simp [Except.bind]

end VersionedMemory
