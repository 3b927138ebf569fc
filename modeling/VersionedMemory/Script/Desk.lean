import VersionedMemory.Script.Report
import VersionedMemory.Script.Statement
import VersionedMemory.Session

/-!
# The desk of a script

While a script runs, its desk holds the slots that it has filled, the thread it is on and the traces
of its bodies. The slots for transactions are handles of the world itself.

`Work` is what a script does beside any transaction, `Act` what it does on one.
-/

namespace VersionedMemory.Script

structure Desk where
  /-- Whether the wording of errors is left out of reports. -/
  masked : Bool := false
  thread : ThreadId := 0
  threads : Nat := 1
  cells : Array (Option CellId) := #[]
  accumulators : Array (Option (CellId × Operation)) := #[]
  tokens : Array TxnId := #[]
  weaks : Array CellId := #[]
  /-- What is to be reported of each engine. -/
  engines : Array Watch := #[]
  /-- Engines on which a worker ran in its own time. -/
  timed : List EngineId := []
  /-- The answers of the body that ended last. -/
  trace : List Report := []
  /-- The traces of the attempts of the innermost transaction. -/
  traces : List Report := []
  /-- The traces of the runs of each task of the innermost batch. -/
  runs : Array (List Report) := #[]
  deriving Inhabited

abbrev Work (α : Type) := StateM (Host Value Desk) α

abbrev Act (α : Type) := Body Value Desk α

/-- An answer, with the error if the body around it fails with it. -/
structure Answer where
  report : Report
  error : Option Error := none
  deriving Inhabited

namespace Answer

def malformed : Answer := ⟨.malformed, none⟩

def nothing : Answer := ⟨.null, none⟩

/-- An answer or an error that the body around it fails with. -/
def ofInside (masked : Bool) : Except Error Report → Answer
  | .ok r => ⟨r, none⟩
  | .error e => ⟨e.report masked, some e⟩

/-- An answer or an error that is only reported. -/
def ofOutside (masked : Bool) : Except Error Report → Answer
  | .ok r => ⟨r, none⟩
  | .error e => ⟨e.reportOutside masked, none⟩

end Answer

namespace Desk

def cell? (d : Desk) (i : Slot) : Option CellId := (d.cells[i]?).join

def accumulator? (d : Desk) (i : Slot) : Option (CellId × Operation) := (d.accumulators[i]?).join

/-- A thread of the pool that runs the tasks of an engine's transactions. An engine without a pool
of its own uses the pool that the current thread belongs to, or else one that all share. -/
def poolThread (d : Desk) (w : World Value) (e : EngineId) : ThreadId :=
  let pools := 1000000000
  match (w.engine e).config.parallelism with
  | some _ => pools + 1 + e
  | none => if pools ≤ d.thread then d.thread else pools

end Desk

namespace Work

def world : Work (World Value) := fun h => (h.world, h)

def desk : Work Desk := fun h => (h.client, h)

def setWorld (w : World Value) : Work Unit := fun h => ((), { h with world := w })

def on {α : Type} (f : World Value → α × World Value) : Work α := fun h =>
  let (a, w) := f h.world
  (a, { h with world := w })

def onDesk (f : Desk → Desk) : Work Unit := fun h => ((), { h with client := f h.client })

def slot (x : Context Value) : Work Report := do
  return .nat (← on (·.hold x))

def retain (c : CellId) : Work Unit :=
  on fun w => ((), { w with store := w.store.retain c })

def cellSlot (c : CellId) : Work Report := do
  let n := (← desk).cells.size
  onDesk fun d => { d with cells := d.cells.push (some c) }
  return .nat n

def accumulatorSlot (c : CellId) (op : Operation) : Work Report := do
  let n := (← desk).accumulators.size
  onDesk fun d => { d with accumulators := d.accumulators.push (some (c, op)) }
  return .nat n

def tokenSlot (txn : TxnId) : Work Report := do
  let n := (← desk).tokens.size
  onDesk fun d => { d with tokens := d.tokens.push txn }
  return .fields [("token", .nat n), ("txn", .nat txn.number)]

end Work

namespace Act

def world : Act (World Value) := fun s => (.ok s.host.world, s)

def desk : Act Desk := fun s => (.ok s.host.client, s)

def onDesk (f : Desk → Desk) : Act Unit := fun s =>
  (.ok (), { s with host := { s.host with client := f s.host.client } })

/-- Do work beside the transaction. -/
def beside {α : Type} (work : Work α) : Act α := Body.aside work.run

/-- The answer of an access that may fail. -/
def answer (b : Act Report) : Act Answer := do
  return .ofInside (← desk).masked (← Body.attempt b)

/-- The trace of a body, left on the desk, and its value or failure. -/
def leave (trace : List Report) (r : Except Error Report) : Act Report := do
  onDesk fun d => { d with trace }
  match r with
  | .ok v => return v
  | .error e => throw e

end Act

def typeIn (w : World Value) (c : CellId) : ValueType := .ofCode (w.store.cell c).type

def reportState (h : Host Value Desk) : Report :=
  let d := h.client
  let s := h.world.store
  .fields [
    ("engines", .list (d.engines.toList.zipIdx.map fun (watch, e) =>
      h.world.reportEngine e watch (d.timed.contains e))),
    ("cells", .list (d.cells.toList.map (.option fun c => (s.cell c).report))),
    ("accs", .list (d.accumulators.toList.map (.option fun a => (s.cell a.1).value.report)))]

end VersionedMemory.Script
