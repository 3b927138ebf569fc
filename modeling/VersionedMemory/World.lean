import VersionedMemory.Engine

/-!
# Worlds

A world is a store, the engines over it, and the top-level transactions that are alive: held by a
caller, parked with an engine, or bound to a thread. A transaction belongs to the engine that began
it, wherever it is parked. A cell is alive while a caller has a handle on it, a live transaction
has read it or is going to change it, or a computation in progress has pinned it.

## Main definitions

* `World.begin`, `World.commit`, `World.abort` act on one top-level transaction.
* `World.reclaim` is a reclamation pass of one engine over the cells that are alive.
* `World.park`, `World.unpark` and `World.abortParked` move transactions in and out of parking.
* `World.hold` and `World.take` move transactions in and out of the hands of a caller.
-/

namespace VersionedMemory

structure World (V : Type) where
  store : Store V
  engines : Table EngineId Engine
  held : Table Handle (Context V)
  /-- How many handles were given out; they are numbered from 0. -/
  handles : Nat
  /-- Parked transactions, by the engine they are parked with and their identity. -/
  parked : Table (EngineId × TxnId) (Context V)
  bound : Table ThreadId (Context V)
  /-- Cells that computations in progress hold. -/
  pinned : List CellId

namespace World

variable {V : Type} [Inhabited V]

/-- No cells and no transactions; the engines are numbered from 0. -/
def create (engines : List Engine) : World V where
  store := .empty
  engines := engines.zipIdx.foldl (fun t e => t.insert e.2 e.1) ∅
  held := ∅
  handles := 0
  parked := ∅
  bound := ∅
  pinned := []

instance : Inhabited (World V) := ⟨create []⟩

omit [Inhabited V] in
/-- The engine of a number; one that was never built stands for an engine with default settings. -/
def engine (w : World V) (e : EngineId) : Engine := (w.engines.get? e).getD default

def setEngine (w : World V) (e : EngineId) (g : Engine) : World V :=
  { w with engines := w.engines.insert e g }

omit [Inhabited V] in
@[simp] theorem engine_setEngine (w : World V) (e d : EngineId) (g : Engine) :
    (w.setEngine e g).engine d = if d = e then g else w.engine d := by
  unfold setEngine engine
  by_cases h : d = e <;> simp [h]

def alive (w : World V) : List (Context V) := w.held.values ++ w.parked.values ++ w.bound.values

def isLive (w : World V) (c : CellId) : Bool :=
  0 < (w.store.cell c).handles || w.pinned.contains c || w.alive.any (·.holds.contains c)

def parkedCount (w : World V) (e : EngineId) : Nat := (w.parked.keys.filter (·.1 = e)).length

def createCell (w : World V) (e : EngineId) (type : ContentType) (value : V) : CellId × World V :=
  let (c, store) := w.store.create type value
  (c, { w with store }.setEngine e ((w.engine e).announce c))

/-- Create a cell that no engine hears of. -/
def createDetached (w : World V) (type : ContentType) (value : V) : CellId × World V :=
  let (c, store) := w.store.create type value
  (c, { w with store })

def reclaim (w : World V) (e : EngineId) : Reclaimed × World V :=
  let (r, g, store) := (w.engine e).reclaim w.isLive w.store
  (r, { w with store }.setEngine e g)

/-- One reclamation pass of an engine that spares what `cells` need. -/
def reclaimHolding (w : World V) (cells : List CellId) (e : EngineId) : World V :=
  let w' := ({ w with pinned := cells ++ w.pinned }.reclaim e).2
  { w' with pinned := w.pinned }

def countRerun (w : World V) (e : EngineId) : World V :=
  let g := w.engine e
  w.setEngine e { g with metrics.reruns := g.metrics.reruns + 1 }

def begin (w : World V) (e : EngineId) (mode : Mode) : Context V × World V :=
  let (x, g) := (w.engine e).begin e mode
  (x, w.setEngine e g)

/-- Abort a transaction that is still active. -/
def abort (w : World V) (x : Context V) (reason : String) : World V :=
  w.setEngine x.engine ((w.engine x.engine).abort x reason).2

/-- What becomes of a transaction that nobody holds any more. -/
def discard (w : World V) (x : Context V) : World V := w.abort x "dropped while active"

/-- Commit a transaction, which is used up whatever the answer. Its read-set still holds cells while
the inline reclamation pass runs that may follow. -/
def commit (w : World V) (x : Context V) : Except Error Receipt × World V :=
  match x.checkActive with
  | .error e => (.error e, w)
  | .ok () =>
    if x.isChild then (.error (.illegal .childCommit), w.discard x)
    else
      let done := (w.engine x.engine).commit x w.store
      let w := { w with store := done.store }.setEngine x.engine done.engine
      match done.result with
      | .error e => (.error e, w)
      | .ok receipt =>
        if !receipt.readOnly && done.engine.reclaimDue then
          (.ok receipt, w.reclaimHolding done.context.holds x.engine)
        else (.ok receipt, w)

/-- An active top-level transaction commits as its engine says; only after a read-write commit may a
reclamation pass follow. -/
theorem commit_eq (w : World V) {x : Context V} (ha : x.isActive = true)
    (ht : x.isChild = false) :
    let done := (w.engine x.engine).commit x w.store
    let w' := { w with store := done.store }.setEngine x.engine done.engine
    (w.commit x).1 = done.result ∧
      ((w.commit x).2 = w' ∨
        ∃ receipt, done.result = .ok receipt ∧ receipt.readOnly = false ∧
          (w.commit x).2 = w'.reclaimHolding done.context.holds x.engine) := by
  have hc : x.checkActive = .ok () := by simp [Context.checkActive, ha]
  unfold commit
  simp only [hc, ht, Bool.false_eq_true, if_false]
  split
  · next e he => exact ⟨he.symm, .inl rfl⟩
  · next receipt hr =>
    split
    · next hd =>
      simp only [Bool.and_eq_true, Bool.not_eq_true'] at hd
      exact ⟨hr.symm, .inr ⟨receipt, hr, hd.1, rfl⟩⟩
    · exact ⟨hr.symm, .inl rfl⟩

omit [Inhabited V] in
@[simp] theorem version_abort (w : World V) (x : Context V) (reason : String) (e : EngineId) :
    ((w.abort x reason).engine e).version = (w.engine e).version := by
  unfold abort Engine.abort
  by_cases he : e = x.engine
  · split <;> simp [he, Engine.finish, Engine.version]
  · split <;> simp [he]

@[simp] theorem version_reclaim (w : World V) (e : EngineId) :
    ((w.reclaim e).2.engine e).version = (w.engine e).version := by
  unfold reclaim
  simp only [engine_setEngine, if_true]
  rfl

def hold (w : World V) (x : Context V) : Handle × World V :=
  (w.handles, { w with held := w.held.insert w.handles x, handles := w.handles + 1 })

def take (w : World V) (h : Handle) : Option (Context V × World V) :=
  (w.held.get? h).map fun x => (x, { w with held := w.held.erase h })

/-- Give a transaction back under the handle it was taken from. -/
def giveBack (w : World V) (h : Handle) (x : Context V) : World V :=
  { w with held := w.held.insert h x }

/-- Park a transaction with an engine. It stays anchored. What was parked there under the same
identity is discarded. -/
def park (w : World V) (e : EngineId) (x : Context V) : Except Error TxnId × World V :=
  match x.checkActive with
  | .error err => (.error err, w)
  | .ok () =>
    if x.isChild then (.error (.illegal .childSuspend), w.discard x)
    else
      let before := w.parked.get? (e, x.id)
      let w := { w with parked := w.parked.insert (e, x.id) x }
      (.ok x.id, match before with
        | some y => w.discard y
        | none => w)

omit [Inhabited V] in
@[simp] theorem version_park (w : World V) (x : Context V) (e d : EngineId) :
    ((w.park e x).2.engine d).version = (w.engine d).version := by
  unfold park
  split
  · rfl
  · split
    · exact version_abort w x _ d
    · dsimp only
      split
      · exact version_abort _ _ _ d
      · rfl

omit [Inhabited V] in
theorem store_park (w : World V) (x : Context V) (e : EngineId) :
    (w.park e x).2.store = w.store := by
  unfold park
  split
  · rfl
  · split
    · rfl
    · dsimp only
      split <;> rfl

omit [Inhabited V] in
theorem mem_alive_park {w : World V} {x y : Context V} {e : EngineId}
    (h : y ∈ (w.park e x).2.alive) : y = x ∨ y ∈ w.alive := by
  have hput : y ∈ { w with parked := w.parked.insert (e, x.id) x }.alive → y = x ∨ y ∈ w.alive := by
    intro hy
    simp only [alive, List.mem_append, Table.mem_values, Table.get?_insert] at hy ⊢
    rcases hy with (hy | ⟨k, hk⟩) | hy
    · exact .inr (.inl (.inl hy))
    · split at hk
      · exact .inl (Option.some.inj hk).symm
      · exact .inr (.inl (.inr ⟨k, hk⟩))
    · exact .inr (.inr hy)
  unfold park at h
  split at h
  · exact .inr h
  · split at h
    · exact .inr h
    · dsimp only at h
      split at h <;> exact hput h

omit [Inhabited V] in
theorem mem_alive_of_park (w : World V) {x : Context V} (e : EngineId) (ha : x.isActive = true)
    (ht : x.isChild = false) : x ∈ (w.park e x).2.alive := by
  have hput : x ∈ { w with parked := w.parked.insert (e, x.id) x }.alive := by
    simp only [alive, List.mem_append, Table.mem_values]
    exact .inl (.inr ⟨(e, x.id), by simp⟩)
  have hc : x.checkActive = .ok () := by simp [Context.checkActive, ha]
  unfold park
  simp only [hc, ht, Bool.false_eq_true, if_false]
  split <;> exact hput

def unpark (w : World V) (e : EngineId) (txn : TxnId) : Except Error (Context V) × World V :=
  match w.parked.get? (e, txn) with
  | some x => (.ok x, { w with parked := w.parked.erase (e, txn) })
  | none => (.error (.illegal (.notParked txn)), w)

omit [Inhabited V] in
theorem unpark_eq_ok {w w' : World V} {e : EngineId} {txn : TxnId} {x : Context V}
    (h : w.unpark e txn = (.ok x, w')) : w.parked.get? (e, txn) = some x ∧
      w' = { w with parked := w.parked.erase (e, txn) } := by
  unfold unpark at h
  split at h
  · next y hy =>
    cases h
    exact ⟨hy, rfl⟩
  · cases h

omit [Inhabited V] in
theorem eq_of_unpark_eq_error {w w' : World V} {e : EngineId} {txn : TxnId} {err : Error}
    (h : w.unpark e txn = (.error err, w')) : w' = w := by
  unfold unpark at h
  split at h <;> cases h
  rfl

def callerAbort : String := "aborted by caller"

def abortParked (w : World V) (e : EngineId) (txn : TxnId) : Except Error Unit × World V :=
  match w.unpark e txn with
  | (.ok x, w) => (.ok (), w.abort x callerAbort)
  | (.error err, w) => (.error err, w)

end World

end VersionedMemory
