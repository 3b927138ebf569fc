import VersionedMemory.Mode
import VersionedMemory.Script.Value

/-!
# Scripts

A script is a list of steps. Some steps run a body, a list of elements: statements on the
transaction at hand, and further steps, which happen beside it. Cells, accumulators, transactions,
tokens of parked transactions and weak handles are named by the number of the slot that they were
put into.
-/

namespace VersionedMemory.Script

abbrev Slot := Nat

inductive Comparison where
  | less
  | equal
  | greater
  deriving DecidableEq, Repr

def Comparison.holds : Comparison → Int64 → Int64 → Bool
  | less, n, bound => n < bound
  | equal, n, bound => n = bound
  | greater, n, bound => bound < n

inductive FailKind where
  | aborted
  | illegal
  | internal
  | config
  | notActive
  | vetoed
  deriving DecidableEq, Repr

/-- The attempts in which an element of a body runs. -/
structure Attempts where
  first : Nat := 0
  last : Option Nat := none
  deriving DecidableEq, Repr

def Attempts.contains (a : Attempts) (n : Nat) : Bool := a.first ≤ n && a.last.all (n ≤ ·)

/-- A step that works on a transaction slot as a whole. -/
inductive SlotStep where
  | commit
  | abort
  | drop
  | suspend
  | bind
  | commitChild
  deriving DecidableEq, Repr

/-- A plain write with a slot whose identity it is buffered under. -/
structure StagedWrite where
  under : Slot
  cell : Slot
  value : Value
  deriving Repr

/-- A step on an engine that runs no body. -/
inductive SimpleStep where
  | cell (value : Value) (announced : Bool)
  | cloneCell (cell : Slot)
  | dropCell (cell : Slot)
  | same (cell other : Slot)
  | load (cell : Slot)
  | report (cell : Slot)
  | readAt (cell : Slot) (snapshot : Version)
  | assign (cell : Slot) (value : Value) (version : Version)
  | update (cell : Slot) (version : Version) (op : Operation) (arg : Value)
  | compact (cell : Slot) (floor : Version)
  | erased (cell : Slot)
  | weak (cell : Slot)
  | upgrade (weak : Slot)
  | change (cell : Slot) (value : Value) (later : List (Slot × Value)) (version : Option Version)
  | accumulator (value : Value) (op : Operation) (announced : Bool)
  | wrap (cell : Slot) (op : Operation)
  | base (acc : Slot)
  | dropAccumulator (acc : Slot)
  | loadAccumulator (acc : Slot)
  | inspectCell (cell : Slot)
  | inspectAccumulator (acc : Slot)
  | inspectEngine
  | begin (mode : Mode)
  | resume (token : Slot)
  | abortParked (token : Slot)
  | beginBound (mode : Mode)
  | unbind
  | boundId
  | commitBound
  | abortBound
  | parkBound
  | resumeBound (token : Slot)
  | reclaim
  | versions
  | state
  | worker (interval : Nat) (cell : Option Slot) (count : Option Nat)
  | global (value : Value)
  deriving Repr

mutual

/-- A statement on the transaction at hand. -/
inductive Statement where
  | read (cell : Slot)
  | write (cell : Slot) (value : Value)
  | modify (cell : Slot) (op : Operation) (arg : Value)
  | copy (source target : Slot) (op : Operation)
  | get (acc : Slot)
  | put (acc : Slot) (delta : Value)
  | newCell (value : Value)
  | stage (write : StagedWrite)
  | visit (cell : Slot)
  | overlay (groups : List (List StagedWrite)) (probes : List Slot)
  | info
  | inspect
  | fail (kind : FailKind) (text : String)
  | nested (body : List Element)
  /-- Run a body on the same transaction and swallow its error. -/
  | attempt (body : List Element)
  /-- Compare what a cell holds and run one of two bodies; the comparison may be missing. -/
  | branch (cell : Slot) (test : Option Comparison) (bound : Int64) (yes no : List Element)
  | parallel (tasks : List TaskScript)

inductive TaskScript where
  | mk (mode : TaskMode) (body : List Element)

/-- An element of a body. -/
inductive Element where
  | statement (attempts : Attempts) (statement : Statement)
  | step (attempts : Attempts) (step : Step)
  | malformed (attempts : Attempts)

/-- A step. One that names no engine is on the engine of the construct it stands in. -/
inductive Step where
  | simple (engine : Option EngineId) (step : SimpleStep)
  | onSlot (engine : Option EngineId) (txn : Slot) (step : SlotStep)
  | statement (txn : Slot) (statement : Statement)
  /-- Attempts of a body; `inside` tells in which voice errors are reported. -/
  | atomically (engine : Option EngineId) (mode : Mode) (inside : Bool) (body : List Element)
  | withBound (engine : Option EngineId) (body : List Element)
  | thread (engine : Option EngineId) (steps : List Step)
  | malformed

end

def TaskScript.mode : TaskScript → TaskMode
  | mk mode _ => mode

end VersionedMemory.Script
