import VersionedMemory.Proofs.EngineInvariant
import VersionedMemory.Proofs.ProgramSteps
import VersionedMemory.Proofs.ReadSets
import VersionedMemory.Proofs.Refusals

/-!
# Contexts that may not write

A context that is read-only from the start stays so. Changes come to a context along five ways: a
write, a put, the merge of a child, the merge of a batch, and the buffer that tasks share. The mode
is looked at before any of them, so nothing gets past it, whatever modes are chosen for the children
and whatever these do. What such a context hands over are reads, and a transaction that begins
read-only commits with nothing to publish.

## Main definitions

* `Context.Strict` is a context that may not write and holds no changes.
* `Context.Seals` says that every attempt to change something in a context fails and leaves it as
  it is.
* `Context.Unwritable` says that nothing that runs on a context makes it write, and
  `World.CommitsBare` that a commit publishes nothing.

## Main statements

* `Context.Access.strict`: no access takes a context out of this state.
* `Body.idle_of_mergeRuns`: if a batch merges to no changes, then no task of it wrote anything.
* `Scene.Turn.mem_live`: who is live after a turn was live before, or is new.
* `strictly_read_only`: read-only contexts, of whatever transaction, cannot be made to write.
-/

namespace VersionedMemory

variable {V σ α R : Type}

/-! ### What has no changes to hand over -/

namespace WriteSet

theorem isEmpty_of_get? {ws : WriteSet V} (h : ws.isEmpty = true) : ws = ∅ :=
  Table.ext (List.isEmpty_iff.1 h)

theorem eq_nil_of_stageAll {ws ws' : WriteSet V} {l : List (CellId × Change V)}
    (h : ws.stageAll l = (.ok (), ws')) (hn : ws' = ∅) : ws = ∅ ∧ l = [] := by
  induction l generalizing ws with
  | nil =>
    obtain rfl : ws = ws' := congrArg Prod.snd h
    exact ⟨hn, rfl⟩
  | cons e rest ih =>
    unfold stageAll at h
    cases hs : ws.stage e.1 e.2 with
    | error err => simp [hs] at h
    | ok ws₁ =>
      rw [hs] at h
      have hthere := isSome_get?_stage hs
      rw [(ih h).1] at hthere
      cases hthere

end WriteSet

theorem Contribution.eq_empty_of_idle {e : Contribution V} (h : e.hasWrites = false) :
    e.writes = ∅ ∧ e.deltas = ∅ := by
  simp only [hasWrites, Bool.or_eq_false_iff, Bool.not_eq_false'] at h
  exact ⟨WriteSet.isEmpty_of_get? h.1, WriteSet.isEmpty_of_get? h.2⟩

theorem Contribution.idle_of_empty {e : Contribution V} (hw : e.writes = ∅) (hd : e.deltas = ∅) :
    e.hasWrites = false := by
  unfold hasWrites
  rw [hw, hd]
  rfl

/-! ### One context -/

namespace Context

/-- The context may not write, and has nothing to hand over but reads. -/
structure Strict (x : Context V) : Prop where
  mode : x.mode = .readOnly
  writes : x.writes = ∅
  deltas : x.deltas = ∅

/-- The error of an attempt to write where the mode forbids it. -/
def writeRefused (x : Context V) : Error := .illegal (.writeInReadOnly x.id)

variable {x y : Context V} {e : Contribution V}

theorem forWriting_of_readOnly (h : x.mode = .readOnly) : x.forWriting = .error x.writeRefused := by
  simp [forWriting, h, Mode.onWrite, writeRefused]

theorem write_of_readOnly (h : x.mode = .readOnly) (ha : x.status = .active) (cell : Cell V)
    (value : V) : x.write cell value = (.error x.writeRefused, x) := by
  have hc : x.checkActive = .ok () := by simp [checkActive, isActive, ha]
  simp [write, hc, forWriting_of_readOnly h]

theorem stage_of_readOnly (h : x.mode = .readOnly) (ha : x.status = .active) (c : CellId)
    (a : Change V) : x.stage c a = (.error x.writeRefused, x) := by
  have hc : x.checkActive = .ok () := by simp [checkActive, isActive, ha]
  simp [stage, hc, forWriting_of_readOnly h]

/-- What a child wrote is not taken over, and neither is anything that comes with it. -/
theorem adopt_of_readOnly (h : x.mode = .readOnly) (he : e.hasWrites = true) :
    x.adopt e = (.error x.writeRefused, x) := by
  simp [adopt, he, forWriting_of_readOnly h]

/-- Of a child that wrote nothing, the reads are taken over. -/
theorem adopt_of_idle (x : Context V) (he : e.hasWrites = false) :
    x.adopt e = (.ok (), x.adoptReads e) := by
  obtain ⟨hw, hd⟩ := Contribution.eq_empty_of_idle he
  have hwrites : ∀ y : Context V, y.bufferWrites ∅ = (.ok (), y) := by
    intro y
    unfold bufferWrites
    split
    · next ws hws =>
      change (_, { y with shared := some ws }) = _
      rw [← hws]
      rfl
    · rfl
  simp only [adopt, he, hw, hd, hwrites]
  rfl

/-- No access takes a context out of this state, or adds to the buffer that it shares. -/
theorem Access.strict [Inhabited V] {s : Store V} (h : x.Access s y) (hx : x.Strict) :
    y.Strict ∧ y.shared = x.shared := by
  have hread : ∀ cell : Cell V, (x.read cell).2.Strict ∧ (x.read cell).2.shared = x.shared := by
    intro cell
    obtain ⟨hw, hd, hs⟩ := x.read_frame cell
    exact ⟨⟨(x.mode_read cell).trans hx.mode, hw.trans hx.writes, hd.trans hx.deltas⟩, hs⟩
  have hstage : ∀ c a, (x.stage c a).2.Strict ∧ (x.stage c a).2.shared = x.shared := by
    intro c a
    rcases x.stage_changes c a with hsame | ⟨hne, -⟩
    · rw [hsame]
      exact ⟨hx, rfl⟩
    · exact absurd hx.mode hne
  cases h with
  | read c => exact hread _
  | get a =>
    rw [snd_get]
    exact hread _
  | write c value =>
    rcases x.write_changes (s.cell c) value with hsame | ⟨hne, -⟩
    · rw [hsame]
      exact ⟨hx, rfl⟩
    · exact absurd hx.mode hne
  | put a delta => exact hstage _ _
  | stage under target value => exact hstage _ _
  | adopt e =>
    cases he : e.hasWrites with
    | true =>
      rw [adopt_of_readOnly hx.mode he]
      exact ⟨hx, rfl⟩
    | false =>
      obtain ⟨-, hs, hw, hd, hm⟩ := x.adoptReads_frame e
      rw [x.adopt_of_idle he]
      exact ⟨⟨hm.trans hx.mode, hw.trans hx.writes, hd.trans hx.deltas⟩, hs⟩

/-- A context of a transaction that is read-only has been so all along. -/
theorem Under.strict [Inhabited V] (h : x.Under y) (hx : x.mode = .readOnly → x.Strict)
    (hy : y.mode = .readOnly) : y.Strict := by
  induction h with
  | self => exact hx hy
  | access s _ ha ih =>
    refine (ha.strict (ih ?_)).1
    have hrec := ha.keeps.recordsReads
    rw [hy] at hrec
    simpa [Mode.recordsReads] using hrec
  | child => exact ⟨hy, rfl, rfl⟩

/-- What is handed over by a context that may not write are reads. -/
theorem Strict.contribution (h : x.Strict) (he : x.contribution? = .ok e) :
    e.hasWrites = false := by
  unfold contribution? at he
  split at he
  · cases he
  · cases he
    exact Contribution.idle_of_empty h.writes h.deltas

end Context

/-! ### Batches -/

namespace Batch

variable {b b' : Batch V} {e : Contribution V}

/-- What has taken writes in and has no changes took none in. -/
theorem idle_of_addWrites {ws : WriteSet V} (h : b.addWrites ws = (.ok (), b'))
    (hb : b'.merged.hasWrites = false) :
    b.merged.hasWrites = false ∧ ws = ∅ ∧ b'.written = b.written := by
  obtain ⟨hr, rfl⟩ := Prod.mk.inj h
  obtain ⟨hw, hd⟩ := Contribution.eq_empty_of_idle hb
  obtain ⟨hw, hn⟩ := WriteSet.eq_nil_of_stageAll (Prod.ext hr rfl) hw
  obtain rfl : ws = ∅ := Table.ext hn
  exact ⟨Contribution.idle_of_empty hw hd, rfl, List.append_nil _⟩

theorem idle_of_addDeltas {ds : WriteSet V} (h : b.addDeltas ds = (.ok (), b'))
    (hb : b'.merged.hasWrites = false) :
    b.merged.hasWrites = false ∧ ds = ∅ ∧ b'.written = b.written := by
  obtain ⟨hr, rfl⟩ := Prod.mk.inj h
  obtain ⟨hw, hd⟩ := Contribution.eq_empty_of_idle hb
  obtain ⟨hd, hn⟩ := WriteSet.eq_nil_of_stageAll (Prod.ext hr rfl) hd
  obtain rfl : ds = ∅ := Table.ext hn
  exact ⟨Contribution.idle_of_empty hw hd, rfl, List.append_nil _⟩

/-- What has taken a contribution in and has no changes took none in. -/
theorem idle_of_add (h : b.add e = (.ok (), b')) (hb : b'.merged.hasWrites = false) :
    b.merged.hasWrites = false ∧ e.hasWrites = false ∧ b'.written = b.written := by
  unfold add at h
  split at h
  · cases h
  · next b₁ hb₁ =>
    obtain ⟨hidle, hd, hwritten⟩ := idle_of_addDeltas h hb
    obtain ⟨hidle, hw, hwritten₁⟩ := idle_of_addWrites hb₁ hidle
    exact ⟨hidle, Contribution.idle_of_empty hw hd, hwritten.trans hwritten₁⟩

end Batch

namespace Body

variable {x : Context V} {b b' : Batch V} {shared : Option (WriteSet V)}

theorem length_firstRuns (x : Context V) (tasks : List (Task V σ α)) (shared : WriteSet V)
    (h : Host V σ) : (firstRuns x tasks shared h).1.1.length = tasks.length := by
  induction tasks generalizing shared h with
  | nil => rfl
  | cons task rest ih => exact congrArg (· + 1) (ih _ _)

/-- Where a task was settled on and there are no changes, there were none before. A batch that has
changed nothing under any identity takes the task as it first ran, and what shared tasks wrote is
nothing. -/
theorem idle_of_settle {task : Task V σ α} {a a' : α} {e e' : Contribution V} {h : Host V σ}
    (hs : (settle x task a e b shared h).1 = .ok (a', e', b'))
    (hb : b'.merged.hasWrites = false) :
    b.merged.hasWrites = false ∧ b'.written = b.written ∧
      (b.written = [] →
        e' = e ∧ (task.mode = .shared → ∀ ws, shared = some ws → ws = ∅)) := by
  unfold settle at hs
  split at hs
  · next hmode =>
    cases hs
    exact ⟨hb, rfl, fun _ => ⟨rfl, fun hm => by rw [hmode] at hm; cases hm⟩⟩
  · split at hs
    · next ws =>
      obtain ⟨u, hadd, hs⟩ := map_eq_ok_iff.1 hs
      cases hs
      obtain ⟨hidle, hws, hwritten⟩ := Batch.idle_of_addWrites (Prod.ext hadd rfl) hb
      exact ⟨hidle, hwritten, fun _ => ⟨rfl, fun _ ws' hws' => by cases hws'; exact hws⟩⟩
    · cases hs
      exact ⟨hb, rfl, fun _ => ⟨rfl, fun _ ws hws => nomatch hws⟩⟩
  · next hmode =>
    have hm : task.mode ≠ .shared := by simp [hmode]
    split at hs
    · cases hs
      exact ⟨hb, rfl, fun _ => ⟨rfl, fun h => absurd h hm⟩⟩
    · next c hc =>
      obtain ⟨_, -, hs⟩ := map_eq_ok_iff.1 hs
      cases hs
      refine ⟨hb, rfl, fun hn => ?_⟩
      -- Nothing overlaps a batch that has changed nothing.
      have hmem := List.find?_some hc
      simp [hn] at hmem

/-- If the outcomes of tasks merge to no changes, there were none before. -/
theorem merged_idle_of_mergeRuns {outcomes : List (Task V σ α × Except Error (α × Contribution V))}
    {h h' : Host V σ} {as : List α} (hm : mergeRuns x outcomes b shared h = (.ok (as, b'), h'))
    (hb : b'.merged.hasWrites = false) : b.merged.hasWrites = false := by
  induction outcomes generalizing b shared h as with
  | nil =>
    cases hm
    exact hb
  | cons o rest ih =>
    obtain ⟨a, e, cells, a', e', b₁, g, b₂, as', -, -, hset, hadd, hrest⟩ := mergeRuns_cons_eq_ok hm
    exact (idle_of_settle (congrArg Prod.fst hset) (Batch.idle_of_add hadd (ih hrest)).1).1

/-- If the outcomes of tasks merge to no changes, then no first run wrote anything, and neither did
the tasks that share a buffer, if there are any. -/
theorem idle_of_mergeRuns {outcomes : List (Task V σ α × Except Error (α × Contribution V))}
    {h h' : Host V σ} {as : List α} (hm : mergeRuns x outcomes b shared h = (.ok (as, b'), h'))
    (hb : b'.merged.hasWrites = false) (hn : b.written = []) :
    (∀ o ∈ outcomes, ∀ a e, o.2 = .ok (a, e) → e.hasWrites = false) ∧
      ∀ o ∈ outcomes, o.1.mode = .shared → ∀ ws, shared = some ws → ws = ∅ := by
  induction outcomes generalizing b shared h as with
  | nil => exact ⟨fun _ ho => (nomatch ho), fun _ ho => (nomatch ho)⟩
  | cons o rest ih =>
    obtain ⟨task, o⟩ := o
    obtain ⟨a, e, cells, a', e', b₁, g, b₂, as', rfl, -, hset, hadd, hrest⟩ :=
      mergeRuns_cons_eq_ok hm
    obtain ⟨hidle₁, hidle, hwritten⟩ :=
      Batch.idle_of_add hadd (merged_idle_of_mergeRuns hrest hb)
    obtain ⟨-, hwritten₁, hfirst⟩ := idle_of_settle (congrArg Prod.fst hset) hidle₁
    obtain ⟨rfl, hshared⟩ := hfirst hn
    obtain ⟨hruns, hbuffer⟩ := ih hrest (hwritten.trans (hwritten₁.trans hn))
    refine ⟨List.forall_mem_cons.2 ⟨?_, hruns⟩, List.forall_mem_cons.2 ⟨hshared, ?_⟩⟩
    · rintro _ _ ⟨⟩
      exact hidle
    · intro o ho hmode ws hws
      by_cases htask : task.mode = .shared
      · exact hshared htask ws hws
      · exact hbuffer o ho hmode ws (by rw [if_neg htask]; exact hws)

end Body

/-! ### Attempts to change something -/

/-- What a batch of a context comes to before the context takes it over: the outcomes of the first
runs with the buffer that the tasks shared, and what is merged of them. -/
def Body.batchOf (x : Context V) (tasks : List (Task V σ α)) (h : Host V σ) :
    (List (Except Error (α × Contribution V)) × WriteSet V) ×
      Except Error (List α × Batch V) :=
  let ((outcomes, shared), h) := firstRuns x tasks ∅ { h with
    world.pinned := x.holds ++ h.world.pinned }
  ((outcomes, shared), (mergeRuns x (tasks.zip outcomes) {} (some shared) h).1)

/-- Every attempt to change something in the context fails, and leaves the context as it is: an
access, the merge of a child that wrote, and the merge of a batch that comes to changes, as it does
if a task wrote in its first run or if tasks that share a buffer wrote there. -/
structure Context.Seals (σ α : Type) (x : Context V) : Prop where
  write : ∀ cell value, x.write cell value = (.error x.writeRefused, x)
  put : ∀ cell op delta, x.put cell op delta = (.error x.writeRefused, x)
  stage : ∀ c a, x.stage c a = (.error x.writeRefused, x)
  adopt : ∀ e : Contribution V, e.hasWrites = true → x.adopt e = (.error x.writeRefused, x)
  nested : ∀ (body : Body V σ α) (h : Host V σ) a e,
    Body.handOver (h.pinning x.holds (body.inChild x .nested x.layers none)).1 = .ok (a, e) →
      e.hasWrites = true →
        ((Body.nested body).run ⟨x, h⟩).1 = .error x.writeRefused ∧
          ((Body.nested body).run ⟨x, h⟩).2.context = x
  parallel : ∀ (tasks : List (Task V σ α)) (h : Host V σ) as b,
    (Body.batchOf x tasks h).2 = .ok (as, b) →
      b.merged.hasWrites = true ∨
          (∃ o ∈ (Body.batchOf x tasks h).1.1, ∃ a e, o = .ok (a, e) ∧ e.hasWrites = true) ∨
          (Body.batchOf x tasks h).1.2 ≠ ∅ ∧ (∃ task ∈ tasks, task.mode = .shared) →
        ((Body.parallel tasks).run ⟨x, h⟩).1 = .error x.writeRefused ∧
          ((Body.parallel tasks).run ⟨x, h⟩).2.context = x

namespace Body

variable {x : Context V}

theorem run_parallel_batchOf (ha : x.status = .active) (tasks : List (Task V σ α)) (h : Host V σ) :
    ∃ h', (parallel tasks).run ⟨x, h⟩ =
      match (batchOf x tasks h).2 with
      | .error e => (.error e, ⟨x, h'⟩)
      | .ok (as, b) => ((x.adopt b.merged).1.map fun () => as, ⟨(x.adopt b.merged).2, h'⟩) := by
  have hc : x.checkActive = .ok () := by simp [Context.checkActive, Context.isActive, ha]
  refine ⟨(h.pinning x.holds fun h =>
    let ((outcomes, shared), h) := firstRuns x tasks ∅ h
    mergeRuns x (tasks.zip outcomes) {} (some shared) h).2, ?_⟩
  rw [run_parallel]
  simp only [hc]
  rfl

/-- A batch with a task that wrote merges to changes. -/
theorem hasWrites_of_batchOf {tasks : List (Task V σ α)} {h : Host V σ} {as : List α} {b : Batch V}
    (hb : (batchOf x tasks h).2 = .ok (as, b))
    (hw : (∃ o ∈ (batchOf x tasks h).1.1, ∃ a e, o = .ok (a, e) ∧ e.hasWrites = true) ∨
      (batchOf x tasks h).1.2 ≠ ∅ ∧ ∃ task ∈ tasks, task.mode = .shared) :
    b.merged.hasWrites = true := by
  refine Bool.not_eq_false _ ▸ fun hidle => ?_
  obtain ⟨hruns, hshared⟩ := idle_of_mergeRuns (Prod.ext hb rfl) hidle rfl
  have hlength : (batchOf x tasks h).1.1.length = tasks.length := length_firstRuns ..
  rcases hw with ⟨o, ho, a, e, rfl, hwrote⟩ | ⟨hne, task, htask, hmode⟩
  · obtain ⟨i, hi, ho⟩ := List.mem_iff_getElem.1 ho
    have hi' : i < tasks.length := hlength ▸ hi
    have hmem : (tasks[i], .ok (a, e)) ∈ tasks.zip (batchOf x tasks h).1.1 :=
      List.mem_iff_getElem.2 ⟨i, by simpa [hlength] using hi, by simp [ho]⟩
    have hnot := hruns _ hmem a e rfl
    rw [hwrote] at hnot
    cases hnot
  · obtain ⟨i, hi, rfl⟩ := List.mem_iff_getElem.1 htask
    have hi' : i < (batchOf x tasks h).1.1.length := hlength.symm ▸ hi
    have hmem : (tasks[i], (batchOf x tasks h).1.1[i]) ∈
        tasks.zip (batchOf x tasks h).1.1 :=
      List.mem_iff_getElem.2 ⟨i, by simpa [hlength] using hi, by simp⟩
    exact hne (hshared _ hmem hmode _ rfl)

end Body

/-- A context that may not write takes nothing in but reads. -/
theorem Context.seals_of_readOnly {x : Context V} (h : x.mode = .readOnly)
    (ha : x.status = .active) : x.Seals σ α where
  write := write_of_readOnly h ha
  put cell op delta := stage_of_readOnly h ha _ _
  stage := stage_of_readOnly h ha
  adopt e := adopt_of_readOnly h
  nested body g a e hchild hwrote := by
    have hc : x.checkActive = .ok () := by simp [checkActive, isActive, ha]
    rw [Body.run_nested]
    simp only [hc]
    rw [hchild]
    dsimp only
    rw [adopt_of_readOnly h hwrote]
    exact ⟨rfl, rfl⟩
  parallel tasks g as b hb hw := by
    obtain ⟨g', hrun⟩ := Body.run_parallel_batchOf ha tasks g
    rw [hrun, hb]
    dsimp only
    rw [adopt_of_readOnly h (hw.elim (fun hwrote => hwrote) (Body.hasWrites_of_batchOf hb))]
    exact ⟨rfl, rfl⟩

/-! ### Runs -/

variable [Inhabited V]

/-- What one turn may make of a transaction that stays live. -/
inductive Context.Becomes (x : Context V) : Context V → Prop
  | same : Becomes x x
  | access (s : Store V) {y : Context V} : x.Access s y → Becomes x y
  | stage (c : CellId) (a : Change V) : Becomes x (x.stage c a).2

theorem Context.Becomes.strict {x y : Context V} (h : x.Becomes y) (hx : x.Strict) : y.Strict := by
  cases h with
  | same => exact hx
  | access s ha => exact (ha.strict hx).1
  | stage c a =>
    rcases x.stage_changes c a with hsame | ⟨hne, -⟩
    · rwa [hsame]
    · exact absurd hx.mode hne

theorem Context.Becomes.life_eq {x y : Context V} (h : x.Becomes y) : y.life = x.life := by
  cases h with
  | same => rfl
  | access s ha => exact ha.life_eq
  | stage c a => exact x.life_stage c a

namespace World

variable {w : World V} {x y : Context V}

omit [Inhabited V] in
/-- Nobody is alive in the hands of a caller who was not before, but for the one handed over. -/
theorem mem_alive_held {k : Handle} {n : Nat}
    (h : y ∈ ({ w with held := w.held.insert k x, handles := n } : World V).alive) :
    y = x ∨ y ∈ w.alive := by
  simp only [alive, List.mem_append] at h ⊢
  rcases h with (h | h) | h
  · exact (Table.mem_values_insert h).imp_right fun h => .inl (.inl h)
  · exact .inr (.inl (.inr h))
  · exact .inr (.inr h)

omit [Inhabited V] in
theorem mem_alive_bind {t : ThreadId} (h : y ∈ (w.bind t x).2.alive) : y = x ∨ y ∈ w.alive := by
  unfold bind at h
  split at h
  · exact .inr h
  · simp only [alive, List.mem_append] at h ⊢
    rcases h with h | h
    · exact .inr (.inl h)
    · exact (Table.mem_values_insert h).imp_right .inr

end World

namespace Scene

variable {s s' : Scene V} {e : EngineId} {own : CellId → Prop} {x y : Context V} {d : Deal}

/-- Whoever is live after a turn was live before, but for an access, or has just begun. -/
theorem Turn.mem_live (h : Turn d s s') (hy : y ∈ s'.live) :
    (∃ x ∈ s.live, x.Becomes y) ∨ ∃ e mode, y = (s.world.begin e mode).1 := by
  have hstays : y ∈ s.live → (∃ x ∈ s.live, x.Becomes y) ∨
      ∃ e mode, y = (s.world.begin e mode).1 := fun hm => .inl ⟨y, hm, .same⟩
  -- A transaction that was running is put somewhere, or ends.
  have hput : ∀ {x : Context V} {rest : List (Context V)} {w : World V},
      s.running.Perm (x :: rest) → (∀ {z}, z ∈ w.alive → z = x ∨ z ∈ s.world.alive) →
        y ∈ (s.next w rest).live → y ∈ s.live := by
    intro x rest w hp hw hm
    refine (live_perm_cons hp).mem_iff.2 ?_
    rcases List.mem_append.1 hm with hm | hm
    · rcases hw hm with rfl | hm
      · exact List.mem_cons_self ..
      · exact List.mem_cons_of_mem _ (List.mem_append_left _ hm)
    · exact List.mem_cons_of_mem _ (List.mem_append_right _ hm)
  -- A transaction that was put somewhere runs again.
  have htaken : ∀ {x : Context V} {w : World V}, s.world.alive.Perm (x :: w.alive) →
      y ∈ (s.next w (x :: s.running)).live → y ∈ s.live := by
    intro x w hp hm
    refine ((hp.append_right s.running).trans List.perm_middle.symm).mem_iff.2 ?_
    exact hm
  -- A running transaction becomes another one, or stays.
  have hrun : ∀ {x z : Context V} {rest : List (Context V)}, s.running.Perm (x :: rest) →
      x.Becomes z → y ∈ (s.next s.world (z :: rest)).live → ∃ x ∈ s.live, x.Becomes y := by
    intro x z rest hp hb hm
    have hmem : ∀ u, u ∈ s.live ↔ u ∈ x :: (s.world.alive ++ rest) :=
      fun u => (live_perm_cons hp).mem_iff
    rcases List.mem_cons.1 (List.perm_middle.mem_iff.1 hm) with rfl | hm
    · exact ⟨x, (hmem x).2 (List.mem_cons_self ..), hb⟩
    · exact ⟨y, (hmem y).2 (List.mem_cons_of_mem _ hm), .same⟩
  cases h with
  | meddle t => exact hstays hy
  | create e type value => exact hstays hy
  | begin e mode =>
    rcases List.mem_cons.1 (List.perm_middle.mem_iff.1 hy) with rfl | hy
    · exact .inr ⟨e, mode, rfl⟩
    · exact hstays hy
  | hold hp => exact hstays (hput hp World.mem_alive_held hy)
  | take ht => exact hstays (htaken (World.alive_take ht) hy)
  | giveBack hp => exact hstays (hput hp World.mem_alive_held hy)
  | access hp ha => exact .inl (hrun hp (.access _ ha) hy)
  | stage under change hp => exact .inl (hrun hp (.stage under change) hy)
  | openChild e kind mode => exact hstays hy
  | countRerun e => exact hstays hy
  | pin cells => exact hstays hy
  | bind t hp => exact hstays (hput hp World.mem_alive_bind hy)
  | unbind hu => exact hstays (htaken (World.alive_unbind hu) hy)
  | park e hp => exact hstays (hput hp World.mem_alive_park hy)
  | unpark hu => exact hstays (htaken (World.alive_unpark hu) hy)
  | commit hp => exact hstays (hput hp (fun hz => .inr (World.alive_commit s.world _ ▸ hz)) hy)
  | abort reason hp => exact hstays (hput hp .inr hy)
  | reclaim e => exact hstays hy

/-- The transaction of the identity may not write, wherever it is. -/
def ReadsOnly (s : Scene V) (e : EngineId) (id : TxnId) : Prop :=
  ∀ y ∈ s.live, y.engine = e → y.id = id → y.Strict

/-- No turn lets a read-only transaction write, and nobody else gets its identity. -/
theorem Turn.readsOnly (h : Turn d s s') {id : TxnId} (hs : s.ReadsOnly e id)
    (hid : id.number ≤ (s.world.engine e).begun) : s'.ReadsOnly e id := by
  intro y hy he hyid
  rcases h.mem_live hy with ⟨x, hx, hb⟩ | ⟨e', mode, rfl⟩
  · have hlife := hb.life_eq
    exact hb.strict (hs x hx ((congrArg Life.engine hlife).symm.trans he)
      ((congrArg Life.id hlife).symm.trans hyid))
  · obtain rfl : e' = e := he
    rw [← hyid] at hid
    exact absurd hid (Nat.not_succ_le_self _)

/-- A transaction that begins read-only is the only one of its identity. -/
theorem Settled.readsOnly_begin (hs : s.Settled e own) :
    (s.next (s.world.begin e .readOnly).2
      ((s.world.begin e .readOnly).1 :: s.running)).ReadsOnly e
        (s.world.begin e .readOnly).1.id := by
  intro y hy he hid
  rcases List.mem_cons.1 (List.perm_middle.mem_iff.1 hy) with rfl | hy
  · exact ⟨rfl, rfl, rfl⟩
  · have hle := hs.attends.begun y.life (mem_livesOf.2 ⟨List.mem_map_of_mem hy, he⟩)
    rw [show y.life.id = _ from hid] at hle
    exact absurd hle (Nat.not_succ_le_self _)

/-- A transaction that begins read-only stays so in every run. -/
theorem Attained.readsOnly (h : s.Attained e own)
    (hrun : Ensues e own (s.next (s.world.begin e .readOnly).2
      ((s.world.begin e .readOnly).1 :: s.running)) s') :
    s'.ReadsOnly e (s.world.begin e .readOnly).1.id ∧ s'.Settled e own := by
  obtain ⟨hs, hf⟩ := h.settled
  have hbegin : Round e own s (s.next (s.world.begin e .readOnly).2
      ((s.world.begin e .readOnly).1 :: s.running)) :=
    ⟨_, .begin e .readOnly, fun _ c _ => .of_store (by rfl) c⟩
  obtain ⟨⟨hs₁, hf₁⟩, -⟩ := Ensues.settled (.single hbegin) hs hf
  have hid : (s.world.begin e .readOnly).1.id.number ≤
      ((s.world.begin e .readOnly).2.engine e).begun := by
    simp [World.begin, Engine.begin, Context.begin]
  induction hrun with
  | refl => exact ⟨hs.readsOnly_begin, hs₁⟩
  | tail hlater hr ih =>
    obtain ⟨⟨hs₂, hf₂⟩, hprec⟩ := Ensues.settled hlater hs₁ hf₁
    obtain ⟨d, ht, -⟩ := id hr
    exact ⟨ht.readsOnly ih.1 (Nat.le_trans hid hprec.begun_le),
      (Ensues.settled (.single hr) hs₂ hf₂).1.1⟩

end Scene

/-! ### Read-only transactions -/

/-- The commit of a transaction with no changes goes through. Nothing is published and the observer
is shown nothing: only the anchor is given back, and a read-only commit is counted. -/
theorem World.commit_of_bare (w : World V) {x : Context V} (hactive : x.isActive = true)
    (htop : x.isChild = false) (hx : x.changes = []) :
    w.commit x = (.ok ⟨x.id, x.snapshot, 0, true⟩,
      w.setEngine x.engine { w.engine x.engine with
        timeline := (w.engine x.engine).timeline.leave x.anchor
        metrics := (w.engine x.engine).metrics.accepted true }) := by
  have hc : x.checkActive = .ok () := by simp [Context.checkActive, hactive]
  unfold commit
  simp only [hc, htop, Bool.false_eq_true, if_false]
  rw [Engine.commit_of_bare _ hx]
  simp only [Bool.not_true, Bool.false_and, Bool.false_eq_true, if_false]

/-- One context is as little writable as another, shares what it shared, and hands only reads over.
-/
structure Context.RemainsStrict (z z' : Context V) : Prop where
  strict : z'.Strict
  shared : z'.shared = z.shared
  handed : ∀ e, z'.contribution? = .ok e → e.hasWrites = false

/-- A context that cannot be made to write. It holds no changes, whatever has run on it. While it is
active, every attempt to change something in it fails and changes nothing, and whatever program runs
on it next leaves it so. -/
structure Context.Unwritable (σ R : Type) (z : Context V) : Prop where
  strict : z.Strict
  seals : z.status = .active → z.Seals σ R
  remains : ∀ (p : Program V R) (h : Host V σ), z.RemainsStrict (p.run.run ⟨z, h⟩).2.context

/-- The commit of a transaction goes through with nothing to publish. It is counted as one that is
read-only, no cell and no version changes, and the observer is shown nothing. -/
structure World.CommitsBare (w : World V) (y : Context V) : Prop where
  commit : w.commit y = (.ok ⟨y.id, y.snapshot, 0, true⟩,
    w.setEngine y.engine { w.engine y.engine with
      timeline := (w.engine y.engine).timeline.leave y.anchor
      metrics := (w.engine y.engine).metrics.accepted true })
  version : ((w.commit y).2.engine y.engine).version = (w.engine y.engine).version

/-- In a transaction of any mode, with any modes chosen for the children, a read-only context at any
depth cannot be made to write. A transaction that begins read-only is so in every run, whatever else
happens meanwhile, and commits with nothing to publish. -/
theorem strictly_read_only :
    (∀ (id : TxnId) (engine : EngineId) (anchor : Anchor) (mode : Mode) (z : Context V),
      (Context.begin id engine anchor mode).Under z → z.mode = .readOnly → z.Unwritable σ R) ∧
    ∀ (e : EngineId) (s s' : Scene V), s.Attained e (fun _ => False) →
      let (x, w) := s.world.begin e .readOnly
      Scene.Ensues e (fun _ => False) (s.next w (x :: s.running)) s' →
        ∀ y ∈ s'.live, y.engine = e → y.id = x.id → y.Strict ∧ s'.world.CommitsBare y := by
  refine ⟨fun id engine anchor mode z hunder hmode => ?_, fun e s s' hs hrun y hy he hid => ?_⟩
  · have hstrict : z.Strict := hunder.strict (fun hm => ⟨hm, rfl, rfl⟩) hmode
    refine ⟨hstrict, Context.seals_of_readOnly hmode, fun p h => ?_⟩
    have hrun := p.context_run (P := fun y => y.Strict ∧ y.shared = z.shared)
      (fun _ _ _ ha hy => (ha.strict hy.1).imp_right (·.trans hy.2)) ⟨z, h⟩ ⟨hstrict, rfl⟩
    exact ⟨hrun.1, hrun.2, fun _ he => hrun.1.contribution he⟩
  · obtain ⟨hreads, hsettled⟩ := hs.readsOnly hrun
    have hstrict : y.Strict := hreads y hy he hid
    obtain ⟨hactive, htop⟩ := hsettled.attends.proper hy he
    have hbare : y.changes = [] := by
      unfold Context.changes
      rw [hstrict.writes, hstrict.deltas]
      rfl
    have hcommit := s'.world.commit_of_bare hactive htop hbare
    refine ⟨hstrict, hcommit, ?_⟩
    rw [hcommit]
    simp [Engine.version]

/-- Where every child is made to write, the child of a read-only transaction writes a cell, and is
refused when it is merged. Another transaction has written the cell and committed meanwhile. The
read-only one commits all the same, over the snapshot that it began with. -/
theorem writing_child_refused :
    let s₀ : Scene Nat := .start {} { modeOfChild := some fun _ _ => .readWrite }
    let s₁ := s₀.next (s₀.world.createCell sole 0 5).2 []
    let x := (s₁.world.begin sole .readOnly).1
    let s₂ := s₁.next (s₁.world.begin sole .readOnly).2 [x]
    let y := (s₂.world.begin sole .readWrite).1
    let s₃ := s₂.next (s₂.world.begin sole .readWrite).2 [y, x]
    let y' := (y.write (s₃.store.cell ⟨1⟩) 7).2
    let s₄ := s₃.next s₃.world [y', x]
    let s := s₄.next (s₄.world.commit y').2 [x]
    let body : Body Nat Unit Unit := (Program.write ⟨1⟩ 9 fun _ => .done ()).run
    ((Body.nested body).run ⟨x, ⟨s.world, ()⟩⟩).1 = .error (.illegal (.writeInReadOnly ⟨1⟩)) ∧
      ((Body.nested body).run ⟨x, ⟨s.world, ()⟩⟩).2.context = x ∧
      (s.world.engine sole).version = 1 ∧
      (s.world.commit x).1 = .ok ⟨⟨1⟩, 0, 0, true⟩ ∧
      ((s.world.commit x).2.engine sole).version = 1 := by
  intro s₀ s₁ x s₂ y s₃ y' s₄ s body
  have hall := strictly_read_only (V := Nat) (σ := Unit) (R := Unit)
  have hseals := (hall.1 ⟨1⟩ sole ⟨0, 0⟩ .readOnly x .self rfl).seals rfl
  have hrefused := hseals.nested body ⟨s.world, ()⟩ () _ rfl rfl
  have hcreate : Scene.Round sole (fun _ => False) s₀ s₁ := ⟨_, .create sole 0 5, fun _ _ => nofun⟩
  have hbegin : Scene.Round sole (fun _ => False) s₂ s₃ :=
    ⟨_, .begin sole .readWrite, fun _ _ => nofun⟩
  have hwrite : Scene.Round sole (fun _ => False) s₃ s₄ :=
    ⟨_, .access (.refl _) (.write ⟨1⟩ 7), fun _ _ => nofun⟩
  have hcommit : Scene.Round sole (fun _ => False) s₄ s := ⟨_, .commit (.refl _), fun _ _ => nofun⟩
  have hbare := (hall.2 sole s₁ s ⟨s₀, ⟨[(_, _)], rfl⟩, .single hcreate⟩
    (((Relation.ReflTransGen.single hbegin).tail hwrite).tail hcommit) x
    (List.mem_append_right _ (.head _)) rfl rfl).2
  have hversion : (s.world.engine sole).version = 1 := by decide +kernel
  exact ⟨hrefused.1, hrefused.2, hversion, congrArg Prod.fst hbare.commit,
    hbare.version.trans hversion⟩

end VersionedMemory
