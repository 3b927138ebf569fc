import VersionedMemory.Ambient
import VersionedMemory.Batch

/-!
# Bodies

A body is a computation that runs on one context. It accesses cells through that context, may open
children of it, and may do other work in the same world in between: what such work commits is seen
by validation, not by the body's own snapshot. A body that fails leaves the changes that it made to
its context behind; whoever ran the body decides what becomes of them.

The parameter `σ` is a state of the caller's own that runs along with the world.

## Main definitions

* `Body` is the type of bodies, with `read`, `write`, `put`, `get` and `stage` as its accesses.
* `Body.nested` runs a body on a child and takes over what it did if it succeeds.
* `Body.parallel` runs the tasks of a batch on children and takes over what they did if all of them
  succeed.
* `Body.aside` runs work that is none of the context's own.
-/

namespace VersionedMemory

structure Host (V σ : Type) where
  world : World V
  client : σ

structure Session (V σ : Type) where
  context : Context V
  host : Host V σ

/-- A computation on a context that may fail. -/
abbrev Body (V σ α : Type) := ExceptT Error (StateM (Session V σ)) α

/-- Run `f` while more cells are pinned. -/
def Host.pinning {V σ α : Type} (h : Host V σ) (cells : List CellId)
    (f : Host V σ → α × Host V σ) : α × Host V σ :=
  let before := h.world.pinned
  let (a, h) := f { h with world.pinned := cells ++ before }
  (a, { h with world.pinned := before })

/-- One task of a batch. The body is told which of its runs this is, from 1. -/
structure Task (V σ α : Type) where
  mode : TaskMode
  body : Nat → Body V σ α

namespace Body

variable {V σ α : Type}

def runOn (body : Body V σ α) (x : Context V) (h : Host V σ) :
    (Except Error α × Context V) × Host V σ :=
  let (r, s) := body.run ⟨x, h⟩
  ((r, s.context), s.host)

def context : Body V σ (Context V) := fun s => (.ok s.context, s)

/-- Apply an operation of contexts to the context the body runs on. -/
def access (f : World V → Context V → Except Error α × Context V) : Body V σ α := fun s =>
  let (r, x) := f s.host.world s.context
  (r, { s with context := x })

/-- Run work that is none of the context's own, which keeps its cells meanwhile. -/
def aside (f : Host V σ → α × Host V σ) : Body V σ α := fun s =>
  let (a, h) := s.host.pinning s.context.holds f
  (.ok a, { s with host := h })

/-- Go on with the error that a body ends in, if it does. -/
def attempt (body : Body V σ α) : Body V σ (Except Error α) := fun s =>
  let (r, s) := body.run s
  (.ok r, s)

theorem run_bind {β : Type} (body : Body V σ α) (f : α → Body V σ β) (s : Session V σ) :
    (body >>= f).run s =
      match body.run s with
      | (.ok a, s') => (f a).run s'
      | (.error e, s') => (.error e, s') := by
  change ExceptT.bindCont (m := StateM (Session V σ)) f (body.run s).1 (body.run s).2 = _
  rcases body.run s with ⟨e | a, s'⟩ <;> rfl

theorem run_attempt_bind {β : Type} (body : Body V σ α) (f : Except Error α → Body V σ β)
    (s : Session V σ) : (body.attempt >>= f).run s = (f (body.run s).1).run (body.run s).2 := rfl

variable [Inhabited V]

def read (c : CellId) : Body V σ V := access fun w x => x.read (w.store.cell c)

def write (c : CellId) (value : V) : Body V σ Unit :=
  access fun w x => x.write (w.store.cell c) value

theorem run_read (c : CellId) (x : Context V) (h : Host V σ) : (read c : Body V σ V).run ⟨x, h⟩ =
    ((x.read (h.world.store.cell c)).1, ⟨(x.read (h.world.store.cell c)).2, h⟩) := rfl

theorem run_write (c : CellId) (value : V) (x : Context V) (h : Host V σ) :
    (write c value : Body V σ Unit).run ⟨x, h⟩ =
      ((x.write (h.world.store.cell c) value).1, ⟨(x.write (h.world.store.cell c) value).2, h⟩) :=
  rfl

/-- Read a cell, and write `f` of what was read. -/
def modify (c : CellId) (f : V → V) : Body V σ V := do
  let value ← read c
  write c (f value)
  return f value

def put (a : Accumulator V) (delta : V) : Body V σ Unit :=
  access fun w x => x.put (w.store.cell a.base) a.op delta

def get (a : Accumulator V) : Body V σ V :=
  access fun w x => x.get (w.store.cell a.base) a.op

/-- Stage a plain write of `target` among the deltas, under the identity of `under`. -/
def stage (under target : CellId) (value : V) : Body V σ Unit :=
  access fun w x => x.stage under ⟨target, (w.store.cell target).type, .assign value⟩

/-- Create a cell through the engine of the transaction. It is there whatever becomes of the
transaction. -/
def newCell (type : ContentType) (value : V) : Body V σ CellId := fun s =>
  let (c, world) := s.host.world.createCell s.context.engine type value
  (.ok c, { s with host := { s.host with world } })

def openChild (x : Context V) (kind : ChildKind) (below : List (Layer V))
    (shared : Option (WriteSet V)) (h : Host V σ) : Context V × Host V σ :=
  let (mode, g) := (h.world.engine x.engine).openChild kind x.mode
  (x.child kind mode below shared, { h with world := h.world.setEngine x.engine g })

def inChild (body : Body V σ α) (x : Context V) (kind : ChildKind) (below : List (Layer V))
    (shared : Option (WriteSet V)) (h : Host V σ) : (Except Error α × Context V) × Host V σ :=
  let (y, h) := openChild x kind below shared h
  body.runOn y h

omit [Inhabited V] in
/-- What the child hands over that a body ended on, with the result, if the body succeeded. -/
def handOver (o : Except Error α × Context V) : Except Error (α × Contribution V) :=
  o.1.bind fun a => o.2.contribution?.map fun e => (a, e)

/-- Run a body on a child and take over what it did; a child that fails leaves no trace in the
context. -/
def nested (body : Body V σ α) : Body V σ α := fun s =>
  match s.context.checkActive with
  | .error e => (.error e, s)
  | .ok () =>
    let x := s.context
    let (o, h) := s.host.pinning x.holds (body.inChild x .nested x.layers none)
    match handOver o with
    | .error e => (.error e, ⟨x, h⟩)
    | .ok (a, e) =>
      let (r, x) := x.adopt e
      (r.map fun () => a, ⟨x, h⟩)

/-- Run a task on a child of `x` that reads through `below`. The buffer that shared tasks write to
comes back as the task left it, also where the task failed. -/
def performTask (x : Context V) (below : List (Layer V)) (task : Task V σ α) (run : Nat)
    (shared : WriteSet V) (h : Host V σ) :
    Except Error (α × Contribution V) × WriteSet V × Host V σ :=
  let (o, h) := (task.body run).inChild x (.task task.mode) below
    (if task.mode = .shared then some shared else none) h
  (handOver o, o.2.shared.getD shared, h)

def outcomeHolds (o : Except Error (α × Contribution V)) : List CellId :=
  match o with
  | .ok (_, e) => e.holds
  | .error _ => []

/-- Run every task once, in order, on children of `x` that see nothing of each other but what shared
tasks write. -/
def firstRuns (x : Context V) : List (Task V σ α) → WriteSet V → Host V σ →
    (List (Except Error (α × Contribution V)) × WriteSet V) × Host V σ
  | [], shared, h => (([], shared), h)
  | task :: rest, shared, h =>
    let (o, shared, h) := performTask x x.layers task 1 shared h
    let ((os, shared), h) := h.pinning (outcomeHolds o ++ shared.targets) fun h =>
      firstRuns x rest shared h
    ((o :: os, shared), h)

/-- What is merged for a task whose first run gave `a` and `e`. A checked task that overlaps what is
merged before it runs again, over that. The first shared task brings in what all of them wrote. -/
def settle (x : Context V) (task : Task V σ α) (a : α) (e : Contribution V) (b : Batch V)
    (shared : Option (WriteSet V)) (h : Host V σ) :
    Except Error (α × Contribution V × Batch V) × Host V σ :=
  match task.mode with
  | .disjoint => (.ok (a, e, b), h)
  | .shared =>
    match shared with
    | some ws =>
      let (r, b) := b.addWrites ws
      (r.map fun () => (a, e, b), h)
    | none => (.ok (a, e, b), h)
  | .checked =>
    match b.clash e with
    | none => (.ok (a, e, b), h)
    | some _ =>
      let h := { h with world := h.world.countRerun x.engine }
      let (o, _, h) := performTask x (b.layers x.layers) task 2 ∅ h
      (o.map fun (a, e) => (a, e, b), h)

def mergeRuns (x : Context V) : List (Task V σ α × Except Error (α × Contribution V)) → Batch V →
    Option (WriteSet V) → Host V σ → Except Error (List α × Batch V) × Host V σ
  | [], b, _, h => (.ok ([], b), h)
  | (_, .error err) :: _, _, _, h => (.error err, h)
  | (task, .ok (a, e)) :: rest, b, shared, h =>
    let waiting := rest.flatMap fun o => outcomeHolds o.2
    let (r, h) := h.pinning
      (b.merged.holds ++ e.holds ++ (shared.map WriteSet.targets).getD [] ++ waiting)
      (settle x task a e b shared)
    match r with
    | .error err => (.error err, h)
    | .ok (a, e, b) =>
      match b.add e with
      | (.error err, _) => (.error err, h)
      | (.ok (), b) =>
        let (r, h) := mergeRuns x rest b (if task.mode = .shared then none else shared) h
        (r.map fun (as, b) => (a :: as, b), h)

/-- Run the tasks of a batch and take over what they did. The results come in the order of the
tasks; where a task fails, the first failure in that order is the answer and nothing is taken
over. -/
def parallel (tasks : List (Task V σ α)) : Body V σ (List α) := fun s =>
  match s.context.checkActive with
  | .error e => (.error e, s)
  | .ok () =>
    let x := s.context
    let (r, h) := s.host.pinning x.holds fun h =>
      let ((outcomes, shared), h) := firstRuns x tasks ∅ h
      mergeRuns x (tasks.zip outcomes) {} (some shared) h
    match r with
    | .error e => (.error e, ⟨x, h⟩)
    | .ok (as, b) =>
      let (r, x) := x.adopt b.merged
      (r.map fun () => as, ⟨x, h⟩)

end Body

namespace Host

variable {V σ α : Type} [Inhabited V]

/-- Run a body in a fresh transaction, and commit it if it succeeds. -/
def attempt (h : Host V σ) (e : EngineId) (mode : Mode) (body : Body V σ α) :
    Except Error α × Host V σ :=
  let (x, world) := h.world.begin e mode
  let ((r, x), h) := body.runOn x { h with world }
  match r with
  | .ok a =>
    let (c, world) := h.world.commit x
    (c.map fun _ => a, { h with world })
  | .error err => (.error err, { h with world := h.world.abort x World.callerAbort })

/-- Attempt a body, with `left` more attempts while it ends in conflicts; `n` attempts have been
made before. The number of the last attempt comes with the answer. -/
def attempts (e : EngineId) (mode : Mode) (body : Nat → Body V σ α) :
    (left n : Nat) → Host V σ → (Except Error α × Nat) × Host V σ
  | left, n, h =>
    let (r, h) := h.attempt e mode (body (n + 1))
    match left, r with
    | left + 1, .error err =>
      if err.isConflict then attempts e mode body left (n + 1) h
      else ((.error err, n + 1), h)
    | _, r => ((r, n + 1), h)

/-- Run a body in a fresh transaction of an engine, again and again while it ends in a conflict, as
often as the settings of the engine allow. -/
def atomically (h : Host V σ) (e : EngineId) (mode : Mode) (body : Nat → Body V σ α) :
    (Except Error α × Nat) × Host V σ :=
  attempts e mode body ((h.world.engine e).config.maxAttempts - 1) 0 h

/-- Run a body on a transaction in the hands of a caller, if there is one under the handle. -/
def onHeld (h : Host V σ) (k : Handle) (body : Body V σ α) :
    Option (Except Error α × Host V σ) :=
  (h.world.take k).map fun (x, world) =>
    let ((r, x), h) := body.runOn x { h with world }
    (r, { h with world := h.world.giveBack k x })

/-- Run a body on the transaction bound to a thread, which is detached meanwhile. -/
def withBound (h : Host V σ) (t : ThreadId) (body : Body V σ α) : Except Error α × Host V σ :=
  match h.world.detach t with
  | (.error e, world) => (.error e, { h with world })
  | (.ok x, world) =>
    let ((r, x), h) := body.runOn x { h with world }
    (r, { h with world := h.world.rebind t x })

end Host

end VersionedMemory
