import VersionedMemory.Proofs.Snapshot

/-!
# Runs of open transactions, and their replay

A run is a list of moves, made one after the other by whoever holds the open transactions of one
engine. It is logged: what each transaction accessed and was answered, and when it began and
committed. A replay takes the log of one transaction after the other to a plain store, which keeps
one value of each cell and knows of no versions.

## Main definitions

* `Move` is one step of a run, `Run.after` is where a list of moves leads.
* `Draft` is what a transaction has pending while it is replayed, `Draft.apply` is its end.
* `Explains` says that a replay gives the answers of the log.
* `Run.order` is the order in which the committed transactions are replayed.
-/

namespace VersionedMemory

variable {V : Type}

/-- An access of a transaction, with the answer to it. -/
inductive Event (V : Type) where
  | read (cell : CellId) (answer : Except Error V)
  | get (acc : Accumulator V) (answer : Except Error V)
  | write (cell : CellId) (value : V)
  | put (acc : Accumulator V) (delta : V)

/-- A store of one value for each cell. -/
abbrev Plain (V : Type) := CellId → V

/-- The writes and deltas of a transaction that is replayed, before they reach the plain store. A
delta is kept with the operation that combines it. -/
structure Draft (V : Type) where
  writes : CellId → Option V := fun _ => none
  deltas : CellId → Option ((V → V → V) × V) := fun _ => none

namespace Draft

/-- What a read gives: the pending write, else the value in the store. -/
def read (d : Draft V) (m : Plain V) (c : CellId) : V := (d.writes c).getD (m c)

/-- What an accumulator gives: what its cell gives, with the pending delta. -/
def get (d : Draft V) (m : Plain V) (a : Accumulator V) : V :=
  match d.deltas a.base with
  | some (_, delta) => a.op (d.read m a.base) delta
  | none => d.read m a.base

def write (d : Draft V) (c : CellId) (value : V) : Draft V :=
  { d with writes := fun c' => if c' = c then some value else d.writes c' }

/-- The draft with one more delta, combined with the pending one. -/
def put (d : Draft V) (a : Accumulator V) (delta : V) : Draft V :=
  { d with
    deltas := fun c => if c = a.base then
      match d.deltas c with
      | some (op, earlier) => some (op, op earlier delta)
      | none => some (a.op, delta)
    else d.deltas c }

def after (d : Draft V) : Event V → Draft V
  | .write c value => d.write c value
  | .put a delta => d.put a delta
  | .read .. | .get .. => d

/-- The access was answered as it is on a plain store. -/
def Answers (d : Draft V) (m : Plain V) : Event V → Prop
  | .read c answer => answer = .ok (d.read m c)
  | .get a answer => answer = .ok (d.get m a)
  | .write .. | .put .. => True

/-- The plain store after the writes, and then the deltas folded into what they give. -/
def apply (d : Draft V) (m : Plain V) : Plain V := fun c =>
  match d.deltas c with
  | some (op, delta) => op (d.read m c) delta
  | none => d.read m c

def Changes (d : Draft V) (c : CellId) : Prop := (d.writes c).isSome ∨ (d.deltas c).isSome

theorem apply_of_not_changes {d : Draft V} {c : CellId} (h : ¬ d.Changes c) (m : Plain V) :
    d.apply m c = m c := by
  simp only [Changes, not_or, Bool.not_eq_true, Option.isSome_eq_false_iff,
    Option.isNone_iff_eq_none] at h
  simp [apply, read, h.1, h.2]

end Draft

def draftOf (events : List (Event V)) : Draft V := events.foldl Draft.after {}

/-- A transaction with these accesses, run alone on the plain store with `d` pending already, is
given the same answers. -/
def Explains (m : Plain V) : Draft V → List (Event V) → Prop
  | _, [] => True
  | d, e :: rest => d.Answers m e ∧ Explains m (d.after e) rest

theorem explains_append {m : Plain V} {d : Draft V} {es es' : List (Event V)} :
    Explains m d (es ++ es') ↔ Explains m d es ∧ Explains m (es.foldl Draft.after d) es' := by
  induction es generalizing d with
  | nil => simp [Explains]
  | cons e rest ih => simp [Explains, ih, and_assoc]

structure Commitment (V : Type) where
  receipt : Receipt
  /-- The version it read at. -/
  snapshot : Version
  /-- The step at which it was begun. -/
  begun : Nat
  /-- The step at which its commit returned. -/
  ended : Nat
  /-- What the transaction accessed, oldest access first. -/
  events : List (Event V)

/-- What a committed transaction makes of a plain store. -/
def Commitment.apply (m : Plain V) (t : Commitment V) : Plain V := (draftOf t.events).apply m

/-- Committed transactions, replayed one after the other from the plain store, are given the answers
that they were given in the run. -/
def Replays : Plain V → List (Commitment V) → Prop
  | _, [] => True
  | m, t :: rest => Explains m {} t.events ∧ Replays (t.apply m) rest

theorem replays_append {m : Plain V} {ts ts' : List (Commitment V)} :
    Replays m (ts ++ ts') ↔ Replays m ts ∧ Replays (ts.foldl Commitment.apply m) ts' := by
  induction ts generalizing m with
  | nil => simp [Replays]
  | cons t rest ih => simp [Replays, ih, and_assoc]

/-! ### Runs -/

inductive Request (V : Type) where
  | read (cell : CellId)
  | get (acc : Accumulator V)
  | write (cell : CellId) (value : V)
  | put (acc : Accumulator V) (delta : V)
  | modify (cell : CellId) (f : V → V)

/-- One step of a run. Transactions are named by the handles under which they are held, and parked
ones by their identity. -/
inductive Move (V : Type) where
  | create (type : ContentType) (value : V)
  | begin (mode : Mode)
  | access (txn : Handle) (request : Request V)
  | commit (txn : Handle)
  | abort (txn : Handle)
  | discard (txn : Handle)
  | park (txn : Handle)
  | unpark (txn : TxnId)
  | abortParked (txn : TxnId)
  | reclaim

variable [Inhabited V]

namespace Request

def cell : Request V → CellId
  | read c | write c _ | modify c _ => c
  | get a | put a _ => a.base

/-- What an access makes of a context, and what is logged of it. A write or a put that is refused
leaves nothing to log. -/
def serve (s : Store V) : Request V → Context V → List (Event V) × Context V
  | read c, x =>
    let (answer, x) := x.read (s.cell c)
    ([.read c answer], x)
  | get a, x =>
    let (answer, x) := x.get (s.cell a.base) a.op
    ([.get a answer], x)
  | write c value, x =>
    let (answer, x) := x.write (s.cell c) value
    (if answer.isOk then [.write c value] else [], x)
  | put a delta, x =>
    let (answer, x) := x.put (s.cell a.base) a.op delta
    (if answer.isOk then [.put a delta] else [], x)
  | modify c f, x =>
    match x.read (s.cell c) with
    | (.error e, x) => ([.read c (.error e)], x)
    | (.ok value, x) =>
      let (answer, x) := x.write (s.cell c) (f value)
      (.read c (.ok value) :: if answer.isOk then [.write c (f value)] else [], x)

def body {σ : Type} : Request V → Body V σ Unit
  | read c => do let _ ← Body.read c
  | get a => do let _ ← Body.get a
  | write c value => Body.write c value
  | put a delta => Body.put a delta
  | modify c f => do let _ ← Body.modify c f

/-- What is made of the context is what the body makes of it, and the body touches nothing else. -/
theorem run_body {σ : Type} (q : Request V) (x : Context V) (h : Host V σ) :
    (q.body.run ⟨x, h⟩).2 = ⟨(q.serve h.world.store x).2, h⟩ := by
  have hdone : ∀ {α : Type} (b : Body V σ α),
      ((do let _ ← b : Body V σ Unit).run ⟨x, h⟩).2 = (b.run ⟨x, h⟩).2 := by
    intro α b
    rw [Body.run_bind]
    rcases b.run ⟨x, h⟩ with ⟨e | a, s⟩ <;> rfl
  cases q with
  | read c => exact hdone _
  | get a => exact hdone _
  | write c value => rfl
  | put a delta => rfl
  | modify c f =>
    refine (hdone _).trans ?_
    simp only [serve]
    rw [Body.modify, Body.run_bind, Body.run_read]
    rcases x.read (h.world.store.cell c) with ⟨e | value, y⟩
    · rfl
    · dsimp only
      rw [Body.run_bind, Body.run_write]
      rcases y.write (h.world.store.cell c) (f value) with ⟨e | _, z⟩ <;> rfl

end Request

/-- A run and its log. -/
structure Run (V : Type) where
  world : World V
  /-- How many steps were made. -/
  clock : Nat
  /-- What each cell was created with. -/
  initial : Plain V
  /-- The step at which each transaction was begun. -/
  begun : TxnId → Nat
  /-- What each transaction accessed so far, oldest access first. -/
  events : TxnId → List (Event V)
  /-- The transactions that committed, in the order of their commits. -/
  committed : List (Commitment V)

namespace Run

def start (config : Config) (hooks : Hooks) : Run V :=
  ⟨World.create [Engine.create config hooks], 0, fun _ => default, fun _ => 0, fun _ => [], []⟩

/-- What a move makes of the world and of the log. A move that names no transaction in hand, or a
cell that was not created, makes nothing. -/
def act (r : Run V) : Move V → Run V
  | .create type value =>
    let (c, world) := r.world.createCell sole type value
    { r with world, initial := fun d => if d = c then value else r.initial d }
  | .begin mode =>
    let (x, world) := r.world.begin sole mode
    { r with
      world := (world.hold x).2
      begun := fun i => if i = x.id then r.clock else r.begun i
      events := fun i => if i = x.id then [] else r.events i }
  | .access k q =>
    if r.world.store.Has q.cell then
      match r.world.take k with
      | some (x, world) =>
        let (es, y) := q.serve world.store x
        { r with
          world := world.giveBack k y
          events := fun i => if i = x.id then r.events i ++ es else r.events i }
      | none => r
    else r
  | .commit k =>
    match r.world.take k with
    | some (x, world) =>
      match world.commit x with
      | (.ok receipt, world) =>
        let t : Commitment V := ⟨receipt, x.snapshot, r.begun x.id, r.clock, r.events x.id⟩
        { r with world, committed := r.committed ++ [t] }
      | (.error _, world) => { r with world }
    | none => r
  | .abort k => { r with world := r.world.consume k fun x w => w.abort x World.callerAbort }
  | .discard k => { r with world := r.world.consume k fun x w => w.discard x }
  | .park k => { r with world := r.world.consume k fun x w => (w.park sole x).2 }
  | .unpark txn => { r with world := .holdResult (r.world.unpark sole txn) }
  | .abortParked txn => { r with world := (r.world.abortParked sole txn).2 }
  | .reclaim => { r with world := (r.world.reclaim sole).2 }

def step (r : Run V) (move : Move V) : Run V := { r.act move with clock := r.clock + 1 }

def after (config : Config) (hooks : Hooks) (moves : List (Move V)) : Run V :=
  moves.foldl step (start config hooks)

omit [Inhabited V] in
def version (r : Run V) : Version := (r.world.engine sole).version

omit [Inhabited V] in
def writers (r : Run V) : List (Commitment V) := r.committed.filter (!·.receipt.readOnly)

omit [Inhabited V] in
def readers (r : Run V) : List (Commitment V) := r.committed.filter (·.receipt.readOnly)

omit [Inhabited V] in
/-- The committed transactions in the order of replay: by the version that they published, and right
after it those that published nothing and had it for their snapshot, in the order of their
commits. -/
def order (r : Run V) : List (Commitment V) :=
  (List.range (r.version + 1)).flatMap fun v =>
    r.writers.filter (·.receipt.version = v) ++ r.readers.filter (·.snapshot = v)

end Run

end VersionedMemory
