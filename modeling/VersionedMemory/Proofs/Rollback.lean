import VersionedMemory.Proofs.FaithfulPrograms

/-!
# Calls that fail

A child that fails is dropped, and so is a batch of which a task fails: the context below is not
touched before all of them have succeeded. What they did is then taken over step by step, and that
stops where a change does not merge with one that is buffered already. Then the reads, the mode and
the changes before it stay behind. Such a change has to be staged by hand: plain writes and puts are
of the type of their cell, and merge with whatever else is buffered for it. So without changes that
are staged by hand a call that fails leaves its context just as it was.

## Main definitions

* `Error.IsMismatch` says that two changes did not merge.
* `Body.Restores` says that a call which fails leaves its context as it was, or a part of what
  finished children handed over was taken over before two changes did not merge.

## Main statements

* `Body.restores_nested` and `Body.restores_parallel`: children and batches of any bodies, in
  whatever modes they run.
* `Program.nested_restores` and `Program.parallel_restores`: where nothing is staged by hand,
  children and batches that fail leave no trace in the context.
-/

namespace VersionedMemory

variable {V σ α R : Type}

/-- Two changes for one identity did not merge. -/
def Error.IsMismatch (e : Error) : Prop :=
  ∃ c, e = .internal (.writeTypeChanged c) ∨ e = .internal (.deltaTypeChanged c)

/-! ### Where taking over stops -/

theorem Change.isMismatch_of_merge {a b : Change V} {err : Error} (h : a.merge b = .error err) :
    err.IsMismatch := by
  unfold merge at h
  refine ⟨b.target, ?_⟩
  split at h
  · split at h <;> cases h
    exact .inl rfl
  · split at h <;> cases h
    exact .inr rfl
  · cases h
    exact .inl rfl
  · cases h
    exact .inr rfl

namespace WriteSet

variable {ws : WriteSet V} {err : Error}

theorem isMismatch_of_stage {c : CellId} {a : Change V} (h : ws.stage c a = .error err) :
    err.IsMismatch := by
  unfold stage at h
  split at h
  · exact Change.isMismatch_of_merge (map_eq_error_iff.1 h)
  · cases h

theorem isMismatch_of_stageAll {l : List (CellId × Change V)}
    (h : (ws.stageAll l).1 = .error err) : err.IsMismatch := by
  induction l generalizing ws with
  | nil => cases h
  | cons e rest ih =>
    unfold stageAll at h
    split at h
    · exact ih h
    · next hs =>
      cases h
      exact isMismatch_of_stage hs

end WriteSet

namespace Context

variable {x y : Context V} {err : Error}

theorem isMismatch_of_bufferWrites {ws : WriteSet V} (h : (x.bufferWrites ws).1 = .error err) :
    err.IsMismatch := by
  unfold bufferWrites at h
  split at h <;> exact WriteSet.isMismatch_of_stageAll h

/-- A context that may not write takes nothing over; any other one stops where two changes do not
merge. -/
theorem adopt_eq_error {e : Contribution V} (h : x.adopt e = (.error err, y)) :
    y = x ∨ err.IsMismatch := by
  unfold adopt at h
  split at h
  · cases h
    exact .inl rfl
  · next z hz =>
    split at h
    · next err' z' hw =>
      cases h
      exact .inr (isMismatch_of_bufferWrites (congrArg Prod.fst hw))
    · exact .inr (WriteSet.isMismatch_of_stageAll (congrArg Prod.fst h))

end Context

/-! ### Children and batches -/

namespace Body

/-- When the call fails, its context is as it was, or it had begun to take over what finished
children hand over, and two changes did not merge. -/
def Restores (body : Body V σ α) : Prop :=
  ∀ {s t : Session V σ} {err : Error}, body.run s = (.error err, t) →
    t.context = s.context ∨
      err.IsMismatch ∧ ∃ e, s.context.adopt e = (.error err, t.context)

/-- Taking over is the last thing that a call does. -/
theorem restores_of_adopt {x : Context V} {e : Contribution V} {a : α} {h : Host V σ}
    {err : Error} {t : Session V σ}
    (ht : (((x.adopt e).1.map fun () => a, ⟨(x.adopt e).2, h⟩) : Except Error α × Session V σ) =
      (.error err, t)) :
    t.context = x ∨ err.IsMismatch ∧ ∃ e, x.adopt e = (.error err, t.context) := by
  obtain ⟨hr, ht⟩ := Prod.mk.inj ht
  have hadopt : x.adopt e = (.error err, t.context) :=
    Prod.ext (map_eq_error_iff.1 hr) (congrArg Session.context ht)
  exact (Context.adopt_eq_error hadopt).imp_right fun hm => ⟨hm, e, hadopt⟩

/-- A child that fails leaves no trace, unless it had finished. -/
theorem restores_nested [Inhabited V] (body : Body V σ α) : (nested body).Restores := by
  intro s t err h
  rw [run_nested] at h
  split at h
  · cases h
    exact .inl rfl
  · dsimp only at h
    split at h
    · cases h
      exact .inl rfl
    · exact restores_of_adopt h

/-- A batch that fails leaves no trace, unless all its tasks had finished. -/
theorem restores_parallel [Inhabited V] (tasks : List (Task V σ α)) :
    (parallel tasks).Restores := by
  intro s t err h
  rw [run_parallel] at h
  split at h
  · cases h
    exact .inl rfl
  · dsimp only at h
    split at h
    · cases h
      exact .inl rfl
    · exact restores_of_adopt h

end Body

/-! ### Nothing staged by hand -/

variable [Inhabited V] {D : Discipline V} {hooks : Hooks} {F : Error → Prop}
  {run : List (Context V)} {h h' : Host V (Chronicle V)} {x y : Context V} {ds : List (Deed V)}
  {err : Error}

/-- What suits the cells is taken over as a whole, or not at all. -/
theorem Context.Bears.eq_of_adopt_error (hD : D.Within (.plain V))
    (hx : x.Bears D hooks h.world.store ds) {e : Contribution V} {ds' : List (Deed V)}
    (he : e.Bears D h.world.store x.snapshot (x.Validates hooks) ds')
    (hfail : (x.adopt e).1 = .error err) : (x.adopt e).2 = x := by
  rcases hx.adopt hD he with ⟨z, hz, -⟩ | ⟨-, hill⟩
  · rw [hz] at hfail
    cases hfail
  · rw [hill]

namespace Body

variable {body : Body V (Chronicle V) (α × List (Deed V))}
  {tasks : List (Task V (Chronicle V) (α × List (Deed V)))}

/-- A child that fails leaves its context as it was. -/
theorem Honest.nested_restores (hD : D.Within (.plain V)) (hb : body.Honest D hooks F)
    (hg : Session.Goes body.run) (hr : h.Ready D hooks F run) (hx : x.At D hooks run h ds)
    (hs : ((Body.nested body).runOn x h).2.client.strays = [])
    (hfail : ((Body.nested body).runOn x h).1.1 = .error err) :
    ((Body.nested body).runOn x h).1.2 = x := by
  have hf : h.Follows run ((Body.nested body).runOn x h).2 :=
    hg.nested.follows (t := ⟨x, h⟩) hx.engine
  have hstay := hx.follow hr hf
  rw [runOn_nested body hx.active] at hs hstay hfail ⊢
  have hgr := hr.pin (x.holds ++ h.world.pinned)
  have hgx : x.At D hooks run { h with world.pinned := x.holds ++ h.world.pinned } ds := hx.pin _
  generalize ({ h with world.pinned := x.holds ++ h.world.pinned } : Host V _) = g at *
  obtain ⟨-, hhanded, -⟩ := hb.inChild hg hgr hgx .nested hgx.bears.suits.layers (by simp) hs
  generalize body.inChild x .nested x.layers none g = o at *
  obtain ⟨o, g'⟩ := o
  dsimp only at *
  cases ho : handOver o with
  | error e => rfl
  | ok pe =>
    obtain ⟨p, e⟩ := pe
    rw [ho] at hfail
    exact hstay.bears.eq_of_adopt_error hD (hhanded.bears p e ho) (map_eq_error_iff.1 hfail)

/-- A batch that fails leaves its context as it was, whatever the modes of its tasks. -/
theorem parallel_restores (hD : D.Within (.plain V)) (ht : ∀ task ∈ tasks, task.Honest D hooks F)
    (hr : h.Ready D hooks F run) (hx : x.At D hooks run h ds)
    (hs : ((parallel tasks).runOn x h).2.client.strays = [])
    (hfail : ((parallel tasks).runOn x h).1.1 = .error err) :
    ((parallel tasks).runOn x h).1.2 = x := by
  have hf : h.Follows run ((parallel tasks).runOn x h).2 :=
    (Session.Goes.parallel fun task htask => (ht task htask).goes).follows (t := ⟨x, h⟩) hx.engine
  have hstay := hx.follow hr hf
  rw [runOn_parallel tasks hx.active] at hs hstay hfail ⊢
  have hbatch := ready_batched hD ht (hr.pin (x.holds ++ h.world.pinned)) (hx.pin _)
  generalize batched x tasks { h with world.pinned := x.holds ++ h.world.pinned } = o at *
  obtain ⟨r, g⟩ := o
  dsimp only at *
  obtain ⟨-, -, hbears⟩ := hbatch hs
  cases r with
  | error e => rfl
  | ok psb =>
    obtain ⟨ps, b⟩ := psb
    exact hstay.bears.eq_of_adopt_error hD (hbears ps b rfl) (map_eq_error_iff.1 hfail)

end Body

/-! ### Programs -/

/-- In every run of one engine, a child whose program stages nothing by hand leaves its context as
it was if it fails: wherever it fails, and whatever other actors do meanwhile. -/
theorem Program.nested_restores (hD : D.Within (.plain V))
    (hF : ∀ id, F (.illegal (.writeInReadOnly id))) {p : Program V R} (hl : p.Local)
    (ha : p.Abides D F) (hr : h.Ready D hooks F run) (hx : x.At D hooks run h ds)
    (hs : ((Body.nested p.told.ending).runOn x h).2.client.strays = [])
    (hfail : ((Body.nested p.told.ending).runOn x h).1.1 = .error err) :
    ((Body.nested p.told.ending).runOn x h).1.2 = x :=
  (p.told_faithful hD hF hl ha).ending.nested_restores hD (p.told_goes hl).ending hr hx hs hfail

/-- In every run of one engine, a batch of programs that stage nothing by hand leaves its context as
it was if it fails, in whatever modes they run. -/
theorem Program.parallel_restores (hD : D.Within (.plain V))
    (hF : ∀ id, F (.illegal (.writeInReadOnly id))) {ps : List (TaskMode × Program V R)}
    (hl : ∀ p ∈ ps, p.2.Local) (ha : ∀ p ∈ ps, p.2.Abides D F) (hr : h.Ready D hooks F run)
    (hx : x.At D hooks run h ds) {tasks : List (Task V (Chronicle V) (R × List (Deed V)))}
    (htasks : tasks = ps.map fun p => ⟨p.1, fun _ => p.2.told.ending⟩)
    (hs : ((Body.parallel tasks).runOn x h).2.client.strays = [])
    (hfail : ((Body.parallel tasks).runOn x h).1.1 = .error err) :
    ((Body.parallel tasks).runOn x h).1.2 = x := by
  refine Body.parallel_restores hD (fun task ht => ?_) hr hx hs hfail
  rw [htasks] at ht
  obtain ⟨p, hp, rfl⟩ := List.mem_map.1 ht
  exact ⟨fun _ => (p.2.told_goes (hl p hp)).ending,
    fun _ => (p.2.told_faithful hD hF (hl p hp) (ha p hp)).ending⟩

/-! ### Changes staged by hand -/

/-- What a finished child did before a change that does not merge is not taken back. Cell 1 and cell
2 are of different types; a change of each is staged under cell 1, first by the transaction, then by
a child, or a task, which has written cell 3 before. The call fails, and the write of cell 3 stays
with the transaction. -/
theorem left_behind_by_failed_calls :
    let store : Store Nat := (((Store.empty.create 0 0).2.create 1 0).2.create 0 5).2
    let w : World Nat := { World.create [Engine.create {} {}] with store }
    let (x, w) := w.begin sole .readWrite
    let x := (x.stage ⟨1⟩ ⟨⟨1⟩, 0, .assign 1⟩).2
    let body : Body Nat Unit Unit := do Body.write ⟨3⟩ 7; Body.stage ⟨1⟩ ⟨2⟩ 9
    let o := (Body.nested body).runOn x ⟨w, ()⟩
    let o' := (Body.parallel [⟨.disjoint, fun _ => body⟩]).runOn x ⟨w, ()⟩
    (o.1.1 = .error (.internal (.writeTypeChanged ⟨2⟩)) ∧
        x.valueFor ⟨3⟩ 0 = .ok none ∧ o.1.2.valueFor ⟨3⟩ 0 = .ok (some 7)) ∧
      o'.1.1 = .error (.internal (.writeTypeChanged ⟨2⟩)) ∧
        o'.1.2.valueFor ⟨3⟩ 0 = .ok (some 7) := by
  decide +kernel

end VersionedMemory
