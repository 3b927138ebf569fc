import VersionedMemory.Program

/-!
# What a transaction has buffered

The buffers of a context fill along three ways: an access of the body, the merge of a child, and the
merge of a batch. A discipline says which changes may stand under which identity. It has to survive
merging, and then it survives all three: whatever body runs on a context, and whatever children and
batches it opens, the buffers stay within the discipline as long as its own accesses do.

## Main definitions

* `WriteSet.All` says that every buffered change satisfies a predicate.
* `Discipline` is a pair of such predicates, for writes and for deltas, that merging keeps.
* `Program.Obeys` says that every access of a program buffers what a discipline allows.
* `Discipline.plain` is what writes and puts obey: a change stands under the cell that it changes,
  writes assign and deltas combine.

## Main statements

* `Program.run_keeps`: a program that obeys a discipline keeps the buffers of its context within it.
-/

namespace VersionedMemory

variable {V σ α β R : Type}

namespace WriteSet

/-- Every buffered change satisfies `P`, with the identity that it stands under. -/
def All (P : CellId → Change V → Prop) (ws : WriteSet V) : Prop :=
  ∀ c x, ws.get? c = some x → P c x

variable {P : CellId → Change V → Prop}

@[simp] theorem all_empty : All P (∅ : WriteSet V) := fun _ _ h => nomatch h

theorem All.insert {ws : WriteSet V} (h : ws.All P) {c : CellId} {x : Change V} (hx : P c x) :
    All P (Table.insert ws c x) := by
  intro d y hy
  rw [Table.get?_insert] at hy
  split at hy
  · next hd =>
    cases hy
    exact hd ▸ hx
  · exact h d y hy

/-- Merging two changes that satisfy `P` gives one that does. -/
def MergeClosed (P : CellId → Change V → Prop) : Prop :=
  ∀ {c : CellId} {a b d : Change V}, P c a → P c b → a.merge b = .ok d → P c d

/-- A change that was buffered stands where there was none, or is merged into the earlier one. -/
theorem stage_eq_ok_iff {ws ws' : WriteSet V} {c : CellId} {x : Change V} :
    ws.stage c x = .ok ws' ↔
      (ws.get? c = none ∧ ws' = Table.insert ws c x) ∨
        ∃ earlier y, ws.get? c = some earlier ∧ earlier.merge x = .ok y ∧
          ws' = Table.insert ws c y := by
  unfold stage
  cases hc : ws.get? c with
  | none => simp [eq_comm]
  | some earlier =>
    simp only [map_eq_ok_iff, reduceCtorEq, false_and, Option.some.injEq, false_or]
    grind

theorem All.stage {ws ws' : WriteSet V} (h : ws.All P) (hm : MergeClosed P) {c : CellId}
    {x : Change V} (hx : P c x) (hs : ws.stage c x = .ok ws') : ws'.All P := by
  rcases stage_eq_ok_iff.1 hs with ⟨-, rfl⟩ | ⟨earlier, y, he, hy, rfl⟩
  · exact h.insert hx
  · exact h.insert (hm (h c earlier he) hx hy)

theorem All.stageAll {ws : WriteSet V} (h : ws.All P) (hm : MergeClosed P)
    {l : List (CellId × Change V)} (hl : ∀ e ∈ l, P e.1 e.2) : (ws.stageAll l).2.All P := by
  induction l generalizing ws with
  | nil => exact h
  | cons e rest ih =>
    simp only [List.forall_mem_cons] at hl
    unfold WriteSet.stageAll
    cases hs : ws.stage e.1 e.2 with
    | error err => exact h
    | ok ws' => exact ih (h.stage hm hl.1 hs) hl.2

theorem All.mem_entries {ws : WriteSet V} (h : ws.All P) : ∀ e ∈ ws.entries, P e.1 e.2 :=
  fun e he => h e.1 e.2 (Table.get?_eq_some_iff.2 he)

end WriteSet

/-- Which changes may be buffered under which identity; merging has to keep to it. -/
structure Discipline (V : Type) where
  write : CellId → Change V → Prop
  delta : CellId → Change V → Prop
  write_merge : WriteSet.MergeClosed write
  delta_merge : WriteSet.MergeClosed delta

/-- A change stands under the cell that it changes; writes assign and deltas combine. -/
def Discipline.plain (V : Type) : Discipline V where
  write c x := x.target = c ∧ ∃ value, x.effect = .assign value
  delta c x := x.target = c ∧ ∃ op delta, x.effect = .combine op delta
  write_merge := by
    rintro c a b d ⟨ha, v, hv⟩ ⟨-, w, hw⟩ hm
    exact ⟨(Change.target_of_merge hm).1.trans ha, w, Change.effect_of_merge_assign hv hw hm⟩
  delta_merge := by
    rintro c a b d ⟨ha, op, v, hv⟩ ⟨-, op', w, hw⟩ hm
    exact ⟨(Change.target_of_merge hm).1.trans ha, op, op v w,
      Change.effect_of_merge_combine hv hw hm⟩

variable (D : Discipline V)

/-- The buffers of a context are within a discipline. -/
structure Context.Within (x : Context V) : Prop where
  writes : x.writes.All D.write
  deltas : x.deltas.All D.delta
  shared : ∀ ws, x.shared = some ws → ws.All D.write

/-- What a child hands over is within a discipline. -/
structure Contribution.Within (e : Contribution V) : Prop where
  writes : e.writes.All D.write
  deltas : e.deltas.All D.delta

variable {D}

namespace Context

theorem within_begin (id : TxnId) (engine : EngineId) (anchor : Anchor) (mode : Mode) :
    (begin id engine anchor mode : Context V).Within D :=
  ⟨WriteSet.all_empty, WriteSet.all_empty, fun _ h => nomatch h⟩

theorem within_child (x : Context V) (kind : ChildKind) (mode : Mode) (below : List (Layer V))
    {shared : Option (WriteSet V)} (h : ∀ ws, shared = some ws → ws.All D.write) :
    (x.child kind mode below shared).Within D :=
  ⟨WriteSet.all_empty, WriteSet.all_empty, h⟩

theorem read_frame (x : Context V) (cell : Cell V) :
    (x.read cell).2.writes = x.writes ∧ (x.read cell).2.deltas = x.deltas ∧
      (x.read cell).2.shared = x.shared := by
  unfold read
  split
  · simp
  · have ht : (x.touch cell.id).writes = x.writes ∧ (x.touch cell.id).deltas = x.deltas ∧
        (x.touch cell.id).shared = x.shared := by
      unfold touch
      split <;> simp
    dsimp only
    split
    · exact ht
    · exact ht
    · split
      · exact ht
      · unfold observe
        split <;> exact ht

theorem Within.read {x : Context V} (h : x.Within D) (cell : Cell V) :
    (x.read cell).2.Within D := by
  obtain ⟨hw, hd, hs⟩ := x.read_frame cell
  exact ⟨hw ▸ h.writes, hd ▸ h.deltas, hs ▸ h.shared⟩

theorem Within.get {x : Context V} (h : x.Within D) (cell : Cell V) (op : V → V → V) :
    (x.get cell op).2.Within D := by
  rw [snd_get]
  exact h.read cell

theorem Within.forWriting {x y : Context V} (h : x.Within D) (hy : x.forWriting = .ok y) :
    y.Within D := by
  unfold Context.forWriting at hy
  split at hy
  · cases hy
    exact ⟨h.writes, h.deltas, h.shared⟩
  · cases hy

theorem Within.bufferWrite {x y : Context V} (h : x.Within D) {c : CellId} {a : Change V}
    (ha : D.write c a) (hy : x.bufferWrite c a = .ok y) : y.Within D := by
  unfold Context.bufferWrite at hy
  split at hy
  · next ws hws =>
    obtain ⟨b, hb, rfl⟩ := map_eq_ok_iff.1 hy
    refine ⟨h.writes, h.deltas, fun ws' hws' => ?_⟩
    cases hws'
    exact (h.shared ws hws).stage D.write_merge ha hb
  · next hn =>
    obtain ⟨b, hb, rfl⟩ := map_eq_ok_iff.1 hy
    exact ⟨h.writes.stage D.write_merge ha hb, h.deltas, h.shared⟩

theorem Within.bufferDelta {x y : Context V} (h : x.Within D) {c : CellId} {a : Change V}
    (ha : D.delta c a) (hy : x.bufferDelta c a = .ok y) : y.Within D := by
  unfold Context.bufferDelta at hy
  obtain ⟨b, hb, rfl⟩ := map_eq_ok_iff.1 hy
  exact ⟨h.writes, h.deltas.stage D.delta_merge ha hb, h.shared⟩

theorem Within.write {x : Context V} (h : x.Within D) {cell : Cell V} {value : V}
    (ha : D.write cell.id ⟨cell.id, cell.type, .assign value⟩) :
    (x.write cell value).2.Within D := by
  unfold Context.write
  split
  · exact h
  · split
    · exact h
    · next y hy =>
      split
      · exact h.forWriting hy
      · next z hz => exact (h.forWriting hy).bufferWrite ha hz

theorem Within.stage {x : Context V} (h : x.Within D) {c : CellId} {a : Change V}
    (ha : D.delta c a) : (x.stage c a).2.Within D := by
  unfold Context.stage
  split
  · exact h
  · split
    · exact h
    · next y hy =>
      split
      · exact h.forWriting hy
      · next z hz => exact (h.forWriting hy).bufferDelta ha hz

theorem Within.contribution {x : Context V} (h : x.Within D) {e : Contribution V}
    (he : x.contribution? = .ok e) : e.Within D := by
  unfold Context.contribution? at he
  split at he
  · cases he
  · cases he
    exact ⟨h.writes, h.deltas⟩

theorem Within.adoptReads {x : Context V} (h : x.Within D) (e : Contribution V) :
    (x.adoptReads e).Within D := by
  unfold Context.adoptReads
  dsimp only
  split <;> split <;> exact ⟨h.writes, h.deltas, h.shared⟩

theorem Within.bufferWrites {x : Context V} (h : x.Within D) {ws : WriteSet V}
    (hw : ws.All D.write) : (x.bufferWrites ws).2.Within D := by
  unfold Context.bufferWrites
  split
  · next b hb =>
    refine ⟨h.writes, h.deltas, fun ws' hws' => ?_⟩
    cases hws'
    exact (h.shared b hb).stageAll D.write_merge hw.mem_entries
  · exact ⟨h.writes.stageAll D.write_merge hw.mem_entries, h.deltas, h.shared⟩

theorem Within.bufferDeltas {x : Context V} (h : x.Within D) {ws : WriteSet V}
    (hw : ws.All D.delta) : (x.bufferDeltas ws).2.Within D :=
  ⟨h.writes, h.deltas.stageAll D.delta_merge hw.mem_entries, h.shared⟩

/-- Taking over what a child hands over keeps to the discipline, also where it fails midway. -/
theorem Within.adopt {x : Context V} (h : x.Within D) {e : Contribution V} (he : e.Within D) :
    (x.adopt e).2.Within D := by
  unfold Context.adopt
  split
  · exact h
  · next y hy =>
    have hy' : y.Within D := by
      split at hy
      · exact h.forWriting hy
      · cases hy
        exact h
    have hw := (hy'.adoptReads e).bufferWrites he.writes
    split
    · next err z hz =>
      rw [hz] at hw
      exact hw
    · next z hz =>
      rw [hz] at hw
      exact hw.bufferDeltas he.deltas

end Context

namespace Batch

theorem within_addWrites {b : Batch V} (h : b.merged.Within D) {ws : WriteSet V}
    (hw : ws.All D.write) : (b.addWrites ws).2.merged.Within D :=
  ⟨h.writes.stageAll D.write_merge hw.mem_entries, h.deltas⟩

theorem within_add {b : Batch V} (h : b.merged.Within D) {e : Contribution V} (he : e.Within D) :
    (b.add e).2.merged.Within D := by
  have hr : (b.addReads e).merged.Within D := ⟨h.writes, h.deltas⟩
  have hw := within_addWrites hr he.writes
  unfold add
  split
  · next err z hz =>
    rw [hz] at hw
    exact hw
  · next z hz =>
    rw [hz] at hw
    exact ⟨hw.writes, hw.deltas.stageAll D.delta_merge he.deltas.mem_entries⟩

end Batch

/-- Every access of the program, children included, buffers what the discipline allows. Other actors
that it lets act do as they like. -/
def Program.Obeys (D : Discipline V) : Program V R → Prop
  | .done _ => True
  | .fail _ => True
  | .read _ next => ∀ r, (next r).Obeys D
  | .write c value next =>
    (∀ type, D.write c ⟨c, type, .assign value⟩) ∧ ∀ r, (next r).Obeys D
  | .put a delta next =>
    (∀ type, D.delta a.base ⟨a.base, type, .combine a.op delta⟩) ∧ ∀ r, (next r).Obeys D
  | .get _ next => ∀ r, (next r).Obeys D
  | .stage under target value next =>
    (∀ type, D.delta under ⟨target, type, .assign value⟩) ∧ ∀ r, (next r).Obeys D
  | .nested body next => body.Obeys D ∧ ∀ r, (next r).Obeys D
  | .parallel _ _ body next => (∀ i, (body i).Obeys D) ∧ ∀ r, (next r).Obeys D
  | .aside _ next => next.Obeys D

/-- The body ends on a context within the discipline when it starts on one. -/
def Body.Keeps (D : Discipline V) (body : Body V σ α) : Prop :=
  ∀ s : Session V σ, s.context.Within D → (body.run s).2.context.Within D

namespace Body

theorem Keeps.attempt_bind {body : Body V σ α} {f : Except Error α → Body V σ β}
    (h : body.Keeps D) (hf : ∀ r, (f r).Keeps D) : (body.attempt >>= f).Keeps D := by
  intro s hs
  rw [run_attempt_bind]
  exact hf _ _ (h s hs)

theorem keeps_access {f : World V → Context V → Except Error α × Context V}
    (h : ∀ w x, x.Within D → (f w x).2.Within D) : Keeps D (access f : Body V σ α) :=
  fun s hs => h s.host.world s.context hs

theorem Keeps.inChild {body : Body V σ α} (hb : body.Keeps D) (x : Context V) (kind : ChildKind)
    (below : List (Layer V)) (shared : Option (WriteSet V))
    (hs : ∀ ws, shared = some ws → ws.All D.write) (h : Host V σ) :
    (body.inChild x kind below shared h).1.2.Within D :=
  hb _ (x.within_child kind _ below hs)

theorem within_handOver {o : Except Error α × Context V} (ho : o.2.Within D) {a : α}
    {e : Contribution V} (h : handOver o = .ok (a, e)) : e.Within D := by
  obtain ⟨_, _, h⟩ := bind_eq_ok_iff.1 h
  obtain ⟨e', he', h⟩ := map_eq_ok_iff.1 h
  cases h
  exact ho.contribution he'

/-- A child that is merged keeps the context that opened it within the discipline. -/
theorem Keeps.nested {body : Body V σ α} (hb : body.Keeps D) : (nested body).Keeps D := by
  intro s hs
  change (Body.nested body s).2.context.Within D
  unfold Body.nested
  split
  · exact hs
  · dsimp only
    have hy := hb.inChild s.context .nested s.context.layers none (fun _ h => nomatch h)
      { s.host with world.pinned := s.context.holds ++ s.host.world.pinned }
    split
    · exact hs
    · next a e he => exact hs.adopt (within_handOver hy he)

/-- Where the body of a task keeps to the discipline, its outcome does, and so does the shared
buffer that it leaves. -/
theorem within_performTask {task : Task V σ α} {run : Nat} (hb : (task.body run).Keeps D)
    (x : Context V) (below : List (Layer V)) {shared : WriteSet V} (hs : shared.All D.write)
    (h : Host V σ) :
    (∀ a e, (performTask x below task run shared h).1 = .ok (a, e) → e.Within D) ∧
      (performTask x below task run shared h).2.1.All D.write := by
  have hy := hb.inChild x (.task task.mode) below
    (if task.mode = .shared then some shared else none)
    (fun ws hws => by
      split at hws
      · cases hws
        exact hs
      · cases hws) h
  refine ⟨fun a e he => within_handOver hy he, ?_⟩
  unfold performTask
  dsimp only
  cases hn : (inChild _ x _ below _ h).1.2.shared with
  | none => exact hs
  | some ws => exact hy.shared ws hn

theorem within_firstRuns (x : Context V) {tasks : List (Task V σ α)}
    (ht : ∀ task ∈ tasks, ∀ run, (task.body run).Keeps D) {shared : WriteSet V}
    (hs : shared.All D.write) (h : Host V σ) :
    (∀ o ∈ (firstRuns x tasks shared h).1.1, ∀ a e, o = .ok (a, e) → e.Within D) ∧
      (firstRuns x tasks shared h).1.2.All D.write := by
  induction tasks generalizing shared h with
  | nil => exact ⟨fun o ho => (nomatch ho), hs⟩
  | cons task rest ih =>
    simp only [List.forall_mem_cons] at ht
    obtain ⟨ho, hs'⟩ := within_performTask (ht.1 1) x x.layers hs h
    unfold firstRuns
    rcases hp : performTask x x.layers task 1 shared h with ⟨o, shared', h'⟩
    rw [hp] at ho hs'
    have := ih ht.2 hs' { h' with
      world.pinned := (outcomeHolds o ++ shared'.targets) ++ h'.world.pinned }
    exact ⟨List.forall_mem_cons.2 ⟨ho, this.1⟩, this.2⟩

/-- What is merged for a task keeps to the discipline, and so does the batch that it is merged into.
-/
theorem within_settle (x : Context V) {task : Task V σ α}
    (ht : ∀ run, (task.body run).Keeps D) {a : α} {e : Contribution V} (he : e.Within D)
    {b : Batch V} (hb : b.merged.Within D) {shared : Option (WriteSet V)}
    (hs : ∀ ws, shared = some ws → ws.All D.write) (h : Host V σ) {a' : α} {e' : Contribution V}
    {b' : Batch V} (hr : (settle x task a e b shared h).1 = .ok (a', e', b')) :
    e'.Within D ∧ b'.merged.Within D := by
  unfold settle at hr
  split at hr
  · cases hr
    exact ⟨he, hb⟩
  · split at hr
    · next ws =>
      have hw := Batch.within_addWrites hb (hs ws rfl)
      obtain ⟨_, _, hr⟩ := map_eq_ok_iff.1 hr
      cases hr
      exact ⟨he, hw⟩
    · cases hr
      exact ⟨he, hb⟩
  · split at hr
    · cases hr
      exact ⟨he, hb⟩
    · dsimp only at hr
      have ho := (within_performTask (ht 2) x (b.layers x.layers) WriteSet.all_empty
        { h with world := h.world.countRerun x.engine }).1
      obtain ⟨⟨a₁, e₁⟩, ho₁, hr⟩ := map_eq_ok_iff.1 hr
      cases hr
      exact ⟨ho _ _ ho₁, hb⟩

theorem within_mergeRuns (x : Context V)
    {outcomes : List (Task V σ α × Except Error (α × Contribution V))}
    (ht : ∀ o ∈ outcomes, ∀ run, (o.1.body run).Keeps D)
    (ho : ∀ o ∈ outcomes, ∀ a e, o.2 = .ok (a, e) → e.Within D) {b : Batch V}
    (hb : b.merged.Within D) {shared : Option (WriteSet V)}
    (hs : ∀ ws, shared = some ws → ws.All D.write) (h : Host V σ) {as : List α} {b' : Batch V}
    (hr : (mergeRuns x outcomes b shared h).1 = .ok (as, b')) : b'.merged.Within D := by
  induction outcomes generalizing b shared h as b' with
  | nil =>
    cases hr
    exact hb
  | cons o rest ih =>
    obtain ⟨task, o⟩ := o
    simp only [List.forall_mem_cons] at ht ho
    cases o with
    | error err => cases hr
    | ok r =>
      obtain ⟨a, e⟩ := r
      unfold mergeRuns at hr
      dsimp only at hr
      split at hr
      · cases hr
      · next a' e' b₁ hset =>
        obtain ⟨he', hb₁⟩ := within_settle x ht.1 (ho.1 a e rfl) hb hs _ hset
        have hadd := Batch.within_add hb₁ he'
        split at hr
        · cases hr
        · next b₂ hb₂ =>
          rw [hb₂] at hadd
          obtain ⟨⟨as', b₃⟩, hm, h₃⟩ := map_eq_ok_iff.1 hr
          cases h₃
          refine ih ht.2 ho.2 hadd (fun ws hws => hs ws ?_) _ hm
          split at hws
          · cases hws
          · exact hws

/-- A batch that is merged keeps the context that submitted it within the discipline. -/
theorem keeps_parallel {tasks : List (Task V σ α)}
    (ht : ∀ task ∈ tasks, ∀ run, (task.body run).Keeps D) : Keeps D (parallel tasks) := by
  intro s hs
  change (Body.parallel tasks s).2.context.Within D
  unfold parallel
  split
  · exact hs
  · dsimp only
    split
    · exact hs
    · next as b hr => 
      refine hs.adopt ?_
      have hf := within_firstRuns s.context ht (WriteSet.all_empty (P := D.write))
        { s.host with world.pinned := s.context.holds ++ s.host.world.pinned }
      refine within_mergeRuns s.context (fun o ho => ht o.1 (List.of_mem_zip ho).1)
        (fun o ho => hf.1 o.2 (List.of_mem_zip ho).2) (b := {})
        ⟨WriteSet.all_empty, WriteSet.all_empty⟩ (fun ws hws => ?_) _ hr
      cases hws
      exact hf.2

end Body

open Body in
/-- A program that obeys a discipline keeps the buffers of its context within it. -/
theorem Program.run_keeps [Inhabited V] : (p : Program V R) → p.Obeys D →
    Body.Keeps (σ := σ) D p.run
  | .done _, _ => fun _ hs => hs
  | .fail _, _ => fun _ hs => hs
  | .read c next, hp =>
    Keeps.attempt_bind (keeps_access fun _ _ hx => hx.read _) fun r => (next r).run_keeps (hp r)
  | .write c value next, hp =>
    Keeps.attempt_bind (keeps_access fun w _ hx => hx.write (by simpa using hp.1 _))
      fun r => (next r).run_keeps (hp.2 r)
  | .put a delta next, hp =>
    Keeps.attempt_bind (keeps_access fun w _ hx => hx.stage (by simpa using hp.1 _))
      fun r => (next r).run_keeps (hp.2 r)
  | .get a next, hp =>
    Keeps.attempt_bind (keeps_access fun _ _ hx => hx.get _ _) fun r => (next r).run_keeps (hp r)
  | .stage under target value next, hp =>
    Keeps.attempt_bind (keeps_access fun _ _ hx => hx.stage (hp.1 _))
      fun r => (next r).run_keeps (hp.2 r)
  | .nested body next, hp =>
    Keeps.attempt_bind (Keeps.nested (body.run_keeps hp.1)) fun r => (next r).run_keeps (hp.2 r)
  | .parallel size mode body next, hp =>
    Keeps.attempt_bind (keeps_parallel fun task ht run => by
      obtain ⟨i, rfl⟩ := List.mem_ofFn.1 ht
      exact (body i).run_keeps (hp.1 i)) fun r => (next r).run_keeps (hp.2 r)
  | .aside action next, hp => fun s hs => next.run_keeps hp _ hs

end VersionedMemory
