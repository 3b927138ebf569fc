import Mathlib.Logic.Relation
import VersionedMemory.Program

/-!
# Runs of one engine

A scene is what there is at one point of a run: the world, and the top-level transactions that
bodies run on at that point, which are in nobody's hands meanwhile. A step is one access of a body,
or one operation on a whole transaction, and any number of transactions may be under way between
any two steps. Beside them a scene remembers every value that a cell has ever had, also those that
reclamation has given up since.

All steps belong to one engine, and no cell is changed but by its commits.

## Main definitions

* `Context.Access` is what one access of a body, or the merge of a child, makes of a context.
* `Scene.Step` is one step of a run, `Reachable` is every scene that some run comes to.
* `Context.Under` is the contexts that bodies of a transaction run on, its children included.
* `Scene.lives` is what stays the same of the live transactions while bodies run on them.
-/

namespace VersionedMemory

variable {V : Type}

/-- What stays the same of a context while bodies run on it. -/
structure Life where
  id : TxnId
  engine : EngineId
  anchor : Option Anchor
  snapshot : Version
  kind : Option ChildKind
  status : Status
  deriving DecidableEq

def Context.life (x : Context V) : Life :=
  ⟨x.id, x.engine, x.anchor, x.snapshot, x.kind, x.status⟩

/-- The values that each cell has had, newest first, with the versions that published them. -/
abbrev History (V : Type) := CellId → List (Record V)

/-- The only engine of the world. -/
def sole : EngineId := 0

variable [Inhabited V]

/-- Add what is new in a store. -/
def History.note (past : History V) (s : Store V) : History V := fun c =>
  if s.Has c ∧ ∀ r ∈ past c, r.version < (s.cell c).chain.head.version then
    (s.cell c).chain.head :: past c
  else past c

/-- What one access of a body makes of the context that it runs on. The merge of what a child, or a
batch of children, hands over counts as one. -/
inductive Context.Access (s : Store V) (x : Context V) : Context V → Prop
  | read (c : CellId) : Access s x (x.read (s.cell c)).2
  | get (a : Accumulator V) : Access s x (x.get (s.cell a.base) a.op).2
  | write (c : CellId) (value : V) : Access s x (x.write (s.cell c) value).2
  | put (a : Accumulator V) (delta : V) : Access s x (x.put (s.cell a.base) a.op delta).2
  | stage (under target : CellId) (value : V) :
    Access s x (x.stage under ⟨target, (s.cell target).type, .assign value⟩).2
  | adopt (e : Contribution V) : Access s x (x.adopt e).2

/-- The contexts that bodies of `x` run on: the transaction itself, after any number of accesses,
and children at any depth. -/
inductive Context.Under (x : Context V) : Context V → Prop
  | self : Under x x
  | access {y z : Context V} (s : Store V) : Under x y → y.Access s z → Under x z
  | child {y : Context V} (kind : ChildKind) (mode : Mode) (below : List (Layer V))
    (shared : Option (WriteSet V)) : Under x y → Under x (y.child kind mode below shared)

/-- One point of a run. -/
structure Scene (V : Type) where
  world : World V
  /-- The top-level transactions that bodies run on. -/
  running : List (Context V)
  past : History V

namespace Scene

def engine (s : Scene V) : Engine := s.world.engine sole

def store (s : Scene V) : Store V := s.world.store

def timeline (s : Scene V) : Timeline := s.engine.timeline

/-- The top-level transactions that have not come to their end. -/
def live (s : Scene V) : List (Context V) := s.world.alive ++ s.running

def lives (s : Scene V) : List Life := s.live.map Context.life

def start (config : Config) (hooks : Hooks) : Scene V :=
  ⟨World.create [Engine.create config hooks], [], fun _ => []⟩

/-- The scene with another world and other running transactions. -/
def next (s : Scene V) (w : World V) (running : List (Context V)) : Scene V :=
  ⟨w, running, s.past.note w.store⟩

@[simp] theorem world_next (s : Scene V) (w : World V) (running : List (Context V)) :
    (s.next w running).world = w := rfl

/-- One step of a run. -/
inductive Step : Scene V → Scene V → Prop
  | create {s} (type : ContentType) (value : V) :
    Step s (s.next (s.world.createCell sole type value).2 s.running)
  | createDetached {s} (type : ContentType) (value : V) :
    Step s (s.next (s.world.createDetached type value).2 s.running)
  | retain {s} (c : CellId) :
    Step s (s.next { s.world with store := s.store.retain c } s.running)
  | release {s} (c : CellId) :
    Step s (s.next { s.world with store := s.store.release c } s.running)
  | begin {s} (mode : Mode) :
    Step s (s.next (s.world.begin sole mode).2 ((s.world.begin sole mode).1 :: s.running))
  | hold {s x rest} : s.running.Perm (x :: rest) → Step s (s.next (s.world.hold x).2 rest)
  | take {s x w} {k : Handle} :
    s.world.take k = some (x, w) → Step s (s.next w (x :: s.running))
  | giveBack {s x rest} {k : Handle} :
    s.running.Perm (x :: rest) → s.world.held.get? k = none → k < s.world.handles →
      Step s (s.next (s.world.giveBack k x) rest)
  | access {s x y rest} :
    s.running.Perm (x :: rest) → x.Access s.store y → Step s (s.next s.world (y :: rest))
  | openChild {s} (kind : ChildKind) (mode : Mode) :
    Step s (s.next (s.world.setEngine sole (s.engine.openChild kind mode).2) s.running)
  | countRerun {s} : Step s (s.next (s.world.countRerun sole) s.running)
  | pin {s} (cells : List CellId) :
    Step s (s.next { s.world with pinned := cells } s.running)
  | bind {s x rest} (t : ThreadId) :
    s.running.Perm (x :: rest) → Step s (s.next (s.world.bind t x).2 rest)
  | unbind {s x w} {t : ThreadId} :
    s.world.unbind t = (some x, w) → Step s (s.next w (x :: s.running))
  | park {s x rest} :
    s.running.Perm (x :: rest) → Step s (s.next (s.world.park sole x).2 rest)
  | unpark {s x w} {txn : TxnId} :
    s.world.unpark sole txn = (.ok x, w) → Step s (s.next w (x :: s.running))
  | commit {s x rest} :
    s.running.Perm (x :: rest) → Step s (s.next (s.world.commit x).2 rest)
  | abort {s x rest} (reason : String) :
    s.running.Perm (x :: rest) → Step s (s.next (s.world.abort x reason) rest)
  | reclaim {s} : Step s (s.next (s.world.reclaim sole).2 s.running)

/-- The second scene comes after the first in some run. -/
def Later : Scene V → Scene V → Prop := Relation.ReflTransGen Step

/-- Some run of one engine comes to the scene. -/
def Reachable (s : Scene V) : Prop := ∃ config hooks, Later (start config hooks) s

end Scene

/-! ### Accesses leave a context its life -/

namespace Context

omit [Inhabited V] in
@[simp] theorem life_touch (x : Context V) (c : CellId) : (x.touch c).life = x.life := by
  unfold touch
  split <;> rfl

omit [Inhabited V] in
@[simp] theorem life_observe (x : Context V) (c : CellId) (v : Version) :
    (x.observe c v).life = x.life := by
  unfold observe
  split <;> rfl

omit [Inhabited V] in
@[simp] theorem life_read (x : Context V) (cell : Cell V) : (x.read cell).2.life = x.life := by
  unfold read
  split
  · rfl
  · dsimp only
    split
    · exact x.life_touch _
    · exact x.life_touch _
    · split
      · exact x.life_touch _
      · rw [life_observe, life_touch]

omit [Inhabited V] in
theorem life_forWriting {x y : Context V} (h : x.forWriting = .ok y) : y.life = x.life := by
  unfold forWriting at h
  split at h <;> cases h
  rfl

omit [Inhabited V] in
theorem life_bufferWrite {x y : Context V} {c : CellId} {a : Change V}
    (h : x.bufferWrite c a = .ok y) : y.life = x.life := by
  unfold bufferWrite at h
  split at h <;> obtain ⟨_, -, rfl⟩ := map_eq_ok_iff.1 h <;> rfl

omit [Inhabited V] in
theorem life_bufferDelta {x y : Context V} {c : CellId} {a : Change V}
    (h : x.bufferDelta c a = .ok y) : y.life = x.life := by
  obtain ⟨_, -, rfl⟩ := map_eq_ok_iff.1 h
  rfl

omit [Inhabited V] in
@[simp] theorem life_write (x : Context V) (cell : Cell V) (value : V) :
    (x.write cell value).2.life = x.life := by
  unfold write
  split
  · rfl
  · split
    · rfl
    · next y hy =>
      split
      · exact life_forWriting hy
      · next z hz => exact (life_bufferWrite hz).trans (life_forWriting hy)

omit [Inhabited V] in
@[simp] theorem life_stage (x : Context V) (c : CellId) (a : Change V) :
    (x.stage c a).2.life = x.life := by
  unfold stage
  split
  · rfl
  · split
    · rfl
    · next y hy =>
      split
      · exact life_forWriting hy
      · next z hz => exact (life_bufferDelta hz).trans (life_forWriting hy)

omit [Inhabited V] in
@[simp] theorem life_adoptReads (x : Context V) (e : Contribution V) :
    (x.adoptReads e).life = x.life := by
  unfold adoptReads
  dsimp only
  split <;> split <;> rfl

omit [Inhabited V] in
@[simp] theorem life_bufferWrites (x : Context V) (ws : WriteSet V) :
    (x.bufferWrites ws).2.life = x.life := by
  unfold bufferWrites
  split <;> rfl

omit [Inhabited V] in
@[simp] theorem life_adopt (x : Context V) (e : Contribution V) :
    (x.adopt e).2.life = x.life := by
  unfold adopt
  split
  · rfl
  · next y hy =>
    have hl : y.life = x.life := by
      split at hy
      · exact life_forWriting hy
      · cases hy
        rfl
    have hb : ((y.adoptReads e).bufferWrites e.writes).2.life = x.life := by simp [hl]
    split <;> next hz =>
      rw [hz] at hb
      exact hb

theorem Access.life_eq {s : Store V} {x y : Context V} (h : x.Access s y) : y.life = x.life := by
  cases h with
  | put a delta => exact life_stage _ _ _
  | stage under target value => exact life_stage _ _ _
  | _ => simp

/-- A context of a transaction reads at the snapshot of the transaction. -/
theorem Under.snapshot_eq {x y : Context V} (h : x.Under y) :
    y.snapshot = x.snapshot ∧ (x.status = .active → y.status = .active) := by
  induction h with
  | self => exact ⟨rfl, fun h => h⟩
  | access s _ ha ih =>
    have hl := ha.life_eq
    exact ⟨(congrArg Life.snapshot hl).trans ih.1,
      fun hx => (congrArg Life.status hl).trans (ih.2 hx)⟩
  | child kind mode below shared _ ih => exact ⟨ih.1, fun _ => rfl⟩

/-- Every context of an active transaction reads, and records, what the cell answers the snapshot,
unless a write is pending there. -/
theorem Under.read_eq {x y : Context V} (h : x.Under y) (hx : x.status = .active) {s : Store V}
    {c : CellId} (hw : y.writeFor c = none) {r : Record V}
    (hr : (s.cell c).readAt x.snapshot = .ok r) :
    y.read (s.cell c) = (.ok r.value, (y.touch c).observe c r.version) := by
  obtain ⟨hs, hst⟩ := h.snapshot_eq
  have hread := read_of_writeFor_eq_none (s.cell c) (hst hx) (by rwa [Store.id_cell])
    (by rw [hs]; exact hr)
  rwa [Store.id_cell] at hread

end Context

end VersionedMemory
