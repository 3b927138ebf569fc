import VersionedMemory.Proofs.Scene

/-!
# Handles and hooks

What the operations of a world leave alone: the handles that were given up, and the hooks.

## Main definitions

* `World.Spares` says that no handle is given out twice.

## Main statements

* `World.take_spec`: a handle that was taken holds nothing.
* `World.detach_cases`, `World.unpark_cases` and `World.rebind_cases`: what becomes of bound and
  parked transactions.
* `Scene.Step.hooks_eq`: no step of a run changes the hooks.
-/

namespace VersionedMemory

variable {V : Type}

/-! ### Handles -/

/-- No handle is given out twice: one that held nothing holds nothing later. -/
structure World.Spares (w w' : World V) : Prop where
  handles_le : w.handles ≤ w'.handles
  free : ∀ k < w.handles, w.held.get? k = none → w'.held.get? k = none

namespace World

variable {w w' w'' : World V}

theorem Spares.refl (w : World V) : w.Spares w := ⟨Nat.le_refl _, fun _ _ h => h⟩

theorem Spares.trans (h : w.Spares w') (h' : w'.Spares w'') : w.Spares w'' :=
  ⟨Nat.le_trans h.handles_le h'.handles_le,
    fun k hk hn => h'.free k (Nat.lt_of_lt_of_le hk h.handles_le) (h.free k hk hn)⟩

theorem Spares.of_eq (hh : w'.handles = w.handles) (hd : w'.held = w.held) : w.Spares w' :=
  ⟨Nat.le_of_eq hh.symm, fun _ _ h => hd ▸ h⟩

theorem spares_hold (w : World V) (x : Context V) : w.Spares (w.hold x).2 := by
  refine ⟨Nat.le_succ _, fun k hk hn => ?_⟩
  simpa [hold, Nat.ne_of_lt hk] using hn

theorem spares_take {x : Context V} {k : Handle} (h : w.take k = some (x, w')) : w.Spares w' := by
  obtain ⟨y, -, he⟩ := Option.map_eq_some_iff.1 h
  cases he
  refine ⟨Nat.le_refl _, fun j _ hn => ?_⟩
  simp [hn]

/-- A transaction may be given back under the handle it was taken from. -/
theorem Spares.giveBack {x : Context V} {k : Handle} (h : w.take k = some (x, w'))
    (h' : w'.Spares w'') (y : Context V) : w.Spares (w''.giveBack k y) := by
  refine ⟨((spares_take h).trans h').handles_le, fun j hj hn => ?_⟩
  have hne : j ≠ k := by
    rintro rfl
    simp [take, hn] at h
  simpa [World.giveBack, hne] using ((spares_take h).trans h').free j hj hn

theorem take_spec {x : Context V} {k : Handle} (h : w.take k = some (x, w')) :
    (w.held.get? k).isSome = true ∧ w'.held.get? k = none ∧ w'.handles = w.handles := by
  obtain ⟨y, hy, he⟩ := Option.map_eq_some_iff.1 h
  cases he
  exact ⟨by simp [hy], by simp, rfl⟩

theorem spares_commit [Inhabited V] (w : World V) (x : Context V) : w.Spares (w.commit x).2 := by
  refine .of_eq ?_ ?_ <;>
  · unfold World.commit
    split
    · rfl
    · split
      · rfl
      · dsimp only
        split
        · rfl
        · split <;> rfl

theorem spares_park (w : World V) (e : EngineId) (x : Context V) : w.Spares (w.park e x).2 := by
  refine .of_eq ?_ ?_ <;>
  · unfold World.park
    split
    · rfl
    · split
      · rfl
      · dsimp only
        split <;> rfl

theorem spares_bind (w : World V) (t : ThreadId) (x : Context V) : w.Spares (w.bind t x).2 := by
  refine .of_eq ?_ ?_ <;>
  · unfold World.bind
    split <;> rfl

/-! ### Bound and parked transactions -/

/-- The look for a bound transaction finds none and changes nothing, or takes out the one that is
there. -/
theorem detach_cases (w : World V) (t : ThreadId) :
    (∃ e, w.detach t = (.error e, w)) ∨
      ∃ x w', w.detach t = (.ok x, w') ∧ w.unbind t = (some x, w') ∧ w.Spares w' := by
  unfold detach
  cases hb : w.bound.get? t with
  | none =>
    have hu : w.unbind t = (none, w) := by simp [unbind, hb, Table.erase_of_get?_eq_none hb]
    rw [hu]
    exact .inl ⟨_, rfl⟩
  | some x =>
    have hu : w.unbind t = (some x, { w with bound := w.bound.erase t }) := by simp [unbind, hb]
    rw [hu]
    exact .inr ⟨x, _, rfl, rfl, .of_eq rfl rfl⟩

/-- The look for a parked transaction finds none and changes nothing, or takes out the one that is
there. -/
theorem unpark_cases (w : World V) (e : EngineId) (txn : TxnId) :
    (∃ err, w.unpark e txn = (.error err, w)) ∨
      ∃ x w', w.unpark e txn = (.ok x, w') ∧ w.Spares w' := by
  rcases hu : w.unpark e txn with ⟨err | x, w'⟩
  · exact .inl ⟨err, by rw [eq_of_unpark_eq_error hu]⟩
  · obtain ⟨-, rfl⟩ := unpark_eq_ok hu
    exact .inr ⟨x, _, rfl, .of_eq rfl rfl⟩

/-- Binding a transaction again is binding it, after which what was bound meanwhile is discarded. -/
theorem rebind_cases (w : World V) (t : ThreadId) (x : Context V) :
    w.rebind t x = (w.bind t x).2 ∨
      ∃ y w', w.unbind t = (some y, w') ∧ w.rebind t x = (w'.bind t x).2.discard y := by
  have hput : ∀ w' : World V, w'.bound.get? t = none →
      (w'.bind t x).2 = { w' with bound := w'.bound.insert t x } := fun w' hn => by
    simp [World.bind, hn]
  unfold rebind
  cases hb : w.bound.get? t with
  | none =>
    rw [hput w hb]
    simp [unbind, hb, Table.erase_of_get?_eq_none hb]
  | some y =>
    refine .inr ⟨y, { w with bound := w.bound.erase t }, by simp [unbind, hb], ?_⟩
    rw [hput _ (by simp)]
    simp [unbind, hb]

theorem spares_rebind (w : World V) (t : ThreadId) (x : Context V) : w.Spares (w.rebind t x) := by
  refine .of_eq ?_ ?_ <;>
  · unfold rebind unbind
    dsimp only
    split <;> rfl

end World

/-! ### Hooks -/

variable [Inhabited V]

theorem Engine.hooks_commit (g : Engine) (x : Context V) (s : Store V) :
    (g.commit x s).engine.hooks = g.hooks := by
  unfold commit
  split
  · rfl
  · split
    · next g' ho => exact (congrArg (·.2.hooks) ho).symm
    · next g' ho =>
      have hg : g'.hooks = g.hooks := (congrArg (·.2.hooks) ho).symm
      unfold publish
      split
      · exact hg
      · dsimp only
        split
        · exact hg
        · split <;> exact hg

namespace World

variable {w : World V} {x : Context V}

omit [Inhabited V] in
theorem hooks_setEngine {e : EngineId} {g : Engine} (hg : g.hooks = (w.engine e).hooks)
    (d : EngineId) : ((w.setEngine e g).engine d).hooks = (w.engine d).hooks := by
  rw [engine_setEngine]
  split
  · next hd => rw [hg, hd]
  · rfl

omit [Inhabited V] in
theorem hooks_abort (w : World V) (x : Context V) (reason : String) (d : EngineId) :
    ((w.abort x reason).engine d).hooks = (w.engine d).hooks := by
  refine hooks_setEngine ?_ d
  unfold Engine.abort
  split <;> rfl

theorem hooks_reclaim (w : World V) (e d : EngineId) :
    ((w.reclaim e).2.engine d).hooks = (w.engine d).hooks := by
  simp only [World.reclaim, engine_setEngine]
  split
  · next hd =>
    rw [hd]
    rfl
  · rfl

theorem hooks_commit (w : World V) (x : Context V) (d : EngineId) :
    ((w.commit x).2.engine d).hooks = (w.engine d).hooks := by
  unfold World.commit
  split
  · rfl
  · split
    · exact hooks_abort w x _ d
    · have hg := Engine.hooks_commit (w.engine x.engine) x w.store
      generalize (w.engine x.engine).commit x w.store = done at hg
      have hdone := hooks_setEngine (w := { w with store := done.store }) hg d
      dsimp only
      split
      · exact hdone
      · split
        · exact (hooks_reclaim _ _ d).trans hdone
        · exact hdone

omit [Inhabited V] in
theorem hooks_park (w : World V) (e : EngineId) (x : Context V) (d : EngineId) :
    ((w.park e x).2.engine d).hooks = (w.engine d).hooks := by
  unfold World.park
  split
  · rfl
  · split
    · exact hooks_abort w x _ d
    · dsimp only
      split
      · exact hooks_abort _ _ _ d
      · rfl

omit [Inhabited V] in
theorem hooks_bind (w : World V) (t : ThreadId) (x : Context V) (d : EngineId) :
    ((w.bind t x).2.engine d).hooks = (w.engine d).hooks := by
  unfold World.bind
  split
  · exact hooks_abort w x _ d
  · rfl

end World

namespace Scene

variable {s s' : Scene V}

theorem Step.hooks_eq (h : Step s s') : s'.engine.hooks = s.engine.hooks := by
  cases h with
  | create => simp [engine, World.createCell, Engine.announce]
  | begin => simp [engine, World.begin, Engine.begin]
  | take h =>
    obtain ⟨_, _, he⟩ := Option.map_eq_some_iff.1 h
    cases he
    rfl
  | openChild => simp [engine, Engine.openChild]
  | countRerun => simp [engine, World.countRerun]
  | bind t => exact World.hooks_bind _ t _ sole
  | unbind h =>
    cases (Prod.mk.inj h).2
    rfl
  | park => exact World.hooks_park _ _ _ sole
  | unpark h =>
    obtain ⟨-, rfl⟩ := World.unpark_eq_ok h
    rfl
  | commit => exact World.hooks_commit _ _ sole
  | abort reason => exact World.hooks_abort _ _ reason sole
  | reclaim => exact World.hooks_reclaim _ sole sole
  | _ => rfl

end Scene

end VersionedMemory
