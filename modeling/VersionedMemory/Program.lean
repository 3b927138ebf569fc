import VersionedMemory.Session

/-!
# Programs

Bodies as data. A program is a tree of accesses in which each next step is chosen by the outcome of
the last one, errors included. It may open children and batches of them, go on after they failed,
and have other transactions act in between. `Program.run` makes a body of a program; `Action.run`
lets one actor other than the running body act on a world.

Programs serve to say what holds of every body, and actions to say what holds after every run.
-/

namespace VersionedMemory

mutual

/-- A body with results in `R`; programs nested in it have results in `R` too. -/
inductive Program (V R : Type) where
  | done (result : R)
  | fail (error : Error)
  | read (cell : CellId) (next : Except Error V → Program V R)
  | write (cell : CellId) (value : V) (next : Except Error Unit → Program V R)
  | put (acc : Accumulator V) (delta : V) (next : Except Error Unit → Program V R)
  | get (acc : Accumulator V) (next : Except Error V → Program V R)
  /-- Stage a plain write of `target` among the deltas, under the identity of `under`. -/
  | stage (under target : CellId) (value : V) (next : Except Error Unit → Program V R)
  | nested (body : Program V R) (next : Except Error R → Program V R)
  | parallel (size : Nat) (mode : Fin size → TaskMode) (body : Fin size → Program V R)
      (next : Except Error (List R) → Program V R)
  | aside (action : Action V R) (next : Program V R)

/-- What can be done to a world by someone who does not stand inside a transaction, or who stands in
a transaction of their own. -/
inductive Action (V R : Type) where
  | create (engine : EngineId) (type : ContentType) (value : V)
  | begin (engine : EngineId) (mode : Mode)
  | perform (txn : Handle) (program : Program V R)
  | commit (txn : Handle)
  | abort (txn : Handle)
  | discard (txn : Handle)
  | park (engine : EngineId) (txn : Handle)
  | unpark (engine : EngineId) (txn : TxnId)
  | abortParked (engine : EngineId) (txn : TxnId)
  | bind (thread : ThreadId) (txn : Handle)
  | unbind (thread : ThreadId)
  | beginBound (thread : ThreadId) (engine : EngineId) (mode : Mode)
  | withBound (thread : ThreadId) (program : Program V R)
  | commitBound (thread : ThreadId)
  | abortBound (thread : ThreadId)
  | parkBound (thread : ThreadId) (engine : EngineId)
  | unparkBound (thread : ThreadId) (engine : EngineId) (txn : TxnId)
  | atomically (engine : EngineId) (mode : Mode) (program : Program V R)
  | reclaim (engine : EngineId)

end

variable {V σ R : Type} [Inhabited V]

/-- Use up a transaction in the hands of a caller, if there is one under the handle. -/
def World.consume (w : World V) (h : Handle) (f : Context V → World V → World V) : World V :=
  match w.take h with
  | some (x, w) => f x w
  | none => w

/-- Give what an operation handed out to a caller. -/
def World.holdResult (r : Except Error (Context V) × World V) : World V :=
  match r with
  | (.ok x, w) => (w.hold x).2
  | (.error _, w) => w

mutual

def Program.run : Program V R → Body V σ R
  | .done result => pure result
  | .fail error => throw error
  | .read c next => do (next (← Body.attempt (Body.read c))).run
  | .write c value next => do (next (← Body.attempt (Body.write c value))).run
  | .put a delta next => do (next (← Body.attempt (Body.put a delta))).run
  | .get a next => do (next (← Body.attempt (Body.get a))).run
  | .stage under target value next => do
    (next (← Body.attempt (Body.stage under target value))).run
  | .nested body next => do (next (← Body.attempt (Body.nested body.run))).run
  | .parallel _ mode body next => do
    let tasks := List.ofFn fun i => ({ mode := mode i, body := fun _ => (body i).run } : Task V σ R)
    (next (← Body.attempt (Body.parallel tasks))).run
  | .aside action next => do
    Body.aside fun h => ((), action.run h)
    next.run

/-- What an action does. Its outcome is not looked at, but transactions that it hands out are held
under the next handle. -/
def Action.run : Action V R → Host V σ → Host V σ
  | .create e type value, h => { h with world := (h.world.createCell e type value).2 }
  | .begin e mode, h =>
    let (x, world) := h.world.begin e mode
    { h with world := (world.hold x).2 }
  | .perform k program, h =>
    match h.onHeld k program.run with
    | some (_, h) => h
    | none => h
  | .commit k, h => { h with world := h.world.consume k fun x w => (w.commit x).2 }
  | .abort k, h => { h with world := h.world.consume k fun x w => w.abort x World.callerAbort }
  | .discard k, h => { h with world := h.world.consume k fun x w => w.discard x }
  | .park e k, h => { h with world := h.world.consume k fun x w => (w.park e x).2 }
  | .unpark e txn, h => { h with world := .holdResult (h.world.unpark e txn) }
  | .abortParked e txn, h => { h with world := (h.world.abortParked e txn).2 }
  | .bind t k, h => { h with world := h.world.consume k fun x w => (w.bind t x).2 }
  | .unbind t, h => { h with world := .holdResult (h.world.detach t) }
  | .beginBound t e mode, h => { h with world := (h.world.beginBound t e mode).2 }
  | .withBound t program, h => (h.withBound t program.run).2
  | .commitBound t, h => { h with world := (h.world.commitBound t).2 }
  | .abortBound t, h => { h with world := (h.world.abortBound t).2 }
  | .parkBound t e, h => { h with world := (h.world.parkBound t e).2 }
  | .unparkBound t e txn, h => { h with world := (h.world.unparkBound t e txn).2 }
  | .atomically e mode program, h => (h.atomically e mode fun _ => program.run).2
  | .reclaim e, h => { h with world := (h.world.reclaim e).2 }

end

end VersionedMemory
