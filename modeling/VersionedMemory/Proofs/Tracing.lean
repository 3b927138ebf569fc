import VersionedMemory.Proofs.Clients

/-!
# Traces of what bodies see

A traced program does what the program does, and notes every access that it makes to a cell: which
record it read from the committed ones, in what contexts, and whether what these contexts did was
given up. A context is given up when the call that opened it fails, and the run of a task when the
task runs again.

## Main definitions

* `Visit` is one access to a cell, `VisitLog` is what is noted of them.
* `Program.traced` is the body of a program that notes its accesses.

## Main statements

* `Program.traced_eq_run`: tracing changes nothing but the notes.
-/

namespace VersionedMemory

variable {V σ τ α β R : Type}

/-- One access of a body to a cell. -/
structure Visit (V : Type) where
  cell : CellId
  /-- Whether the value of the cell was asked for. -/
  asks : Bool
  /-- The type of the cell, if there was one. -/
  type : Option ContentType
  /-- The record that was read from the committed ones, unless a pending write covered them. -/
  record : Option (Record V)
  /-- The modes of the contexts that the access was made in, outermost first. -/
  modes : List Mode
  /-- Whether one of these contexts was given up. -/
  lost : Bool
  deriving DecidableEq

namespace Visit

/-- The visit as a context in the given mode sees it, which opened the contexts that it was made in.
-/
def within (v : Visit V) (mode : Mode) (failed : Bool) : Visit V :=
  { v with modes := mode :: v.modes, lost := v.lost || failed }

/-- The visit in a context that is given up. -/
def dropped (v : Visit V) : Visit V := { v with lost := true }

/-- What the access came to, whatever became of it. -/
def sight (v : Visit V) : CellId × Option ContentType × Option (Record V) :=
  (v.cell, v.type, v.record)

end Visit

/-- What is noted of the accesses that were made through one context. -/
structure VisitLog (V : Type) where
  visits : List (Visit V) := []
  /-- The visits of the batch that is under way, with the numbers of their tasks. -/
  batch : List (Nat × Visit V) := []

namespace VisitLog

def all (log : VisitLog V) : List (Visit V) := log.visits ++ log.batch.map Prod.snd

def add (log : VisitLog V) (v : Visit V) : VisitLog V := { log with visits := log.visits ++ [v] }

/-- Add what was noted during a call from a context in the given mode. -/
def enclose (log inner : VisitLog V) (mode : Mode) (failed : Bool) : VisitLog V :=
  { log with visits := log.visits ++ inner.all.map fun v => v.within mode failed }

/-- Add what was noted during a run of a task; earlier runs of the task are given up. -/
def addRun (log inner : VisitLog V) (task : Nat) : VisitLog V :=
  { log with
    batch := log.batch.map (fun e => if e.1 = task then (e.1, e.2.dropped) else e) ++
      inner.all.map fun v => (task, v) }

variable {log inner : VisitLog V} {u v : Visit V} {mode : Mode} {failed : Bool} {task : Nat}

theorem mem_all_add : v ∈ (log.add u).all ↔ v = u ∨ v ∈ log.all := by
  simp only [all, add, List.mem_append, List.mem_singleton]
  rw [or_comm (a := v ∈ log.visits), or_assoc]

theorem mem_all_enclose : v ∈ (log.enclose inner mode failed).all ↔
    v ∈ log.all ∨ ∃ u ∈ inner.all, v = u.within mode failed := by
  unfold enclose
  rw [all, List.mem_append, List.mem_append, List.mem_map, or_right_comm, ← List.mem_append]
  simp only [eq_comm (b := v)]
  rfl

theorem mem_all_addRun (h : v ∈ (log.addRun inner task).all) :
    v ∈ inner.all ∨ ∃ u ∈ log.all, v = u ∨ v = u.dropped := by
  rcases List.mem_append.1 h with h | h
  · exact .inr ⟨v, List.mem_append_left _ h, .inl rfl⟩
  · obtain ⟨p, hp, rfl⟩ := List.mem_map.1 h
    rcases List.mem_append.1 hp with hp | hp
    · obtain ⟨q, hq, rfl⟩ := List.mem_map.1 hp
      refine .inr ⟨q.2, List.mem_append_right _ (List.mem_map_of_mem hq), ?_⟩
      split
      · exact .inr rfl
      · exact .inl rfl
    · obtain ⟨u, hu, rfl⟩ := List.mem_map.1 hp
      exact .inl hu

theorem exists_mem_addRun (h : u ∈ log.all ∨ u ∈ inner.all) :
    ∃ v ∈ (log.addRun inner task).all, v.sight = u.sight := by
  rcases h with h | h
  · rcases List.mem_append.1 h with h | h
    · exact ⟨u, List.mem_append_left _ h, rfl⟩
    · obtain ⟨p, hp, rfl⟩ := List.mem_map.1 h
      refine ⟨_, List.mem_append_right _ (List.mem_map_of_mem
        (List.mem_append_left _ (List.mem_map_of_mem hp))), ?_⟩
      split <;> rfl
  · refine ⟨u, List.mem_append_right _ (List.mem_map.2 ⟨(task, u), ?_, rfl⟩), rfl⟩
    exact List.mem_append_right _ (List.mem_map_of_mem h)

end VisitLog

variable [Inhabited V]

/-- The committed record that a read of a cell comes to, unless a pending write covers it. -/
def Context.sighted (x : Context V) (s : Store V) (c : CellId) : Option (Record V) :=
  let cell := s.cell c
  match x.checkActive, x.valueFor cell.id cell.type with
  | .ok (), .ok none => if s.Has c then (cell.readAt x.snapshot).toOption else none
  | _, _ => none

namespace Body

/-- Note an access to a cell, which reads it or does not, and make it. -/
def noting (c : CellId) (reads : Bool) (body : Body V (VisitLog V) α) : Body V (VisitLog V) α :=
  fun s =>
    let store := s.host.world.store
    let visit : Visit V :=
      { cell := c
        asks := reads && s.context.isActive
        type := if store.Has c then some (store.cell c).type else none
        record := if reads then s.context.sighted store c else none
        modes := [s.context.mode]
        lost := false }
    body.run { s with host.client := s.host.client.add visit }

omit [Inhabited V] in
/-- Run a body with a log of its own, and enter that in the log of before. -/
def logged (enter : Context V → Bool → VisitLog V → VisitLog V → VisitLog V)
    (body : Body V (VisitLog V) α) : Body V (VisitLog V) α := fun s =>
  let (r, t) := body.run { s with host.client := {} }
  (r, { t with host.client := enter s.context (!r.isOk) s.host.client t.host.client })

omit [Inhabited V] in
/-- A call from a context to contexts that it opens. -/
def calling (body : Body V (VisitLog V) α) : Body V (VisitLog V) α :=
  body.logged fun x failed log inner => log.enclose inner x.mode failed

omit [Inhabited V] in
def asRun (task : Nat) (body : Body V (VisitLog V) α) : Body V (VisitLog V) α :=
  body.logged fun _ _ log inner => log.addRun inner task

end Body

/-- The body of a program, which notes every access to a cell. -/
def Program.traced : Program V R → Body V (VisitLog V) R
  | .done result => pure result
  | .fail error => throw error
  | .read c next => do (next (← Body.attempt ((Body.read c).noting c true))).traced
  | .write c value next => do (next (← Body.attempt ((Body.write c value).noting c false))).traced
  | .put a delta next => do (next (← Body.attempt ((Body.put a delta).noting a.base false))).traced
  | .get a next => do (next (← Body.attempt ((Body.get a).noting a.base true))).traced
  | .stage under target value next => do
    (next (← Body.attempt ((Body.stage under target value).noting target false))).traced
  | .nested body next => do (next (← Body.attempt (Body.nested body.traced).calling)).traced
  | .parallel _ mode body next => do
    let tasks := List.ofFn fun i =>
      ({ mode := mode i, body := fun _ => (body i).traced.asRun i } : Task V (VisitLog V) R)
    (next (← Body.attempt (Body.parallel tasks).calling)).traced
  | .aside action next => do
    Body.aside fun h => ((), action.run h)
    next.traced

/-! ### Tracing changes nothing -/

namespace Coupling

variable {Q : τ → Prop} {body : Body V (VisitLog V) α} {body' : Body V τ α}

theorem Bodies.noting (h : (oneWorld (fun _ => True) Q).Bodies body body') (c : CellId)
    (reads : Bool) : (oneWorld (fun _ => True) Q).Bodies (body.noting c reads) body' where
  meets := fun _ _ _ => ⟨trivial, trivial⟩
  parted := fun _ _ hp => hp.elim
  agree {x g g'} hx hr := by
    obtain ⟨hw, -, hQ⟩ := hr
    exact h.agree (h := { g with client := g.client.add _ }) hx ⟨hw, trivial, hQ⟩

omit [Inhabited V] in
theorem Bodies.logged (h : (oneWorld (fun _ => True) Q).Bodies body body')
    (enter : Context V → Bool → VisitLog V → VisitLog V → VisitLog V) :
    (oneWorld (fun _ => True) Q).Bodies (body.logged enter) body' where
  meets := fun _ _ _ => ⟨trivial, trivial⟩
  parted := fun _ _ hp => hp.elim
  agree {x g g'} hx hr := by
    obtain ⟨hw, -, hQ⟩ := hr
    rcases h.agree (h := { g with client := {} }) hx ⟨hw, trivial, hQ⟩ with hp | ⟨ho, hw', -, hQ'⟩
    · exact hp.elim
    · exact .inr ⟨ho, hw', trivial, hQ'⟩

end Coupling

/-- A traced program goes together with the program. -/
theorem Program.traced_bodies {Q : τ → Prop} (p : Program V R) :
    (Coupling.oneWorld (fun _ => True) Q).Bodies p.traced (p.run : Body V τ R) := by
  cases p with
  | done result => exact Coupling.bodies_pure result
  | fail error => exact Coupling.bodies_throw error
  | read _ next =>
    exact ((Coupling.bodies_access _).noting _ _).attempt_bind fun r => (next r).traced_bodies
  | write _ _ next =>
    exact ((Coupling.bodies_access _).noting _ _).attempt_bind fun r => (next r).traced_bodies
  | put _ _ next =>
    exact ((Coupling.bodies_access _).noting _ _).attempt_bind fun r => (next r).traced_bodies
  | get _ next =>
    exact ((Coupling.bodies_access _).noting _ _).attempt_bind fun r => (next r).traced_bodies
  | stage _ _ _ next =>
    exact ((Coupling.bodies_access _).noting _ _).attempt_bind fun r => (next r).traced_bodies
  | nested body next =>
    exact ((body.traced_bodies.nested Coupling.lawful_oneWorld).logged _).attempt_bind
      fun r => (next r).traced_bodies
  | parallel size mode body next =>
    have htasks := Coupling.bodies_parallel (C := Coupling.oneWorld (fun _ => True) Q)
      Coupling.lawful_oneWorld
      (List.ofFn fun i : Fin size =>
        (⟨mode i, fun _ => (body i).traced.asRun i⟩, ⟨mode i, fun _ => (body i).run⟩))
      fun p hp => by
        obtain ⟨i, rfl⟩ := List.mem_ofFn.1 hp
        exact ⟨rfl, fun _ => (body i).traced_bodies.logged fun _ _ log inner => log.addRun inner i⟩
    rw [List.map_ofFn, List.map_ofFn] at htasks
    exact (htasks.logged _).attempt_bind fun r => (next r).traced_bodies
  | aside action next => exact next.traced_bodies.after_aside fun hr => action.run_blind hr

/-- Tracing changes nothing but the notes: on one world, a traced program comes to the result, the
context and the world that the program comes to. -/
theorem Program.traced_eq_run (p : Program V R) (x : Context V) (h : Host V (VisitLog V))
    (h' : Host V τ) (hw : h'.world = h.world) :
    (p.run.runOn x h').1 = (p.traced.runOn x h).1 ∧
      (p.run.runOn x h').2.world = (p.traced.runOn x h).2.world := by
  obtain ⟨ho, hw', -⟩ := (p.traced_bodies (Q := fun _ => True)).runOn_eq ⟨hw, trivial, trivial⟩ x
  exact ⟨ho, hw'⟩

end VersionedMemory
