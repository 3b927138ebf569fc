import VersionedMemory.Proofs.SideBySide

/-!
# The state of the caller

The state that a caller has running along with the world is never looked at, neither by programs nor
by actions: on one and the same world they do the same, whatever it is.

## Main definitions

* `Coupling.oneWorld` lets hosts of the same world go together.

## Main statements

* `Program.run_blind` and `Action.run_blind`: programs and actions keep such hosts together.
* `Action.client_run`: an action leaves the state of the caller alone.
-/

namespace VersionedMemory

variable {V σ τ α β R : Type}

namespace Coupling

/-- Hosts of one world. -/
def oneWorld (P : σ → Prop) (Q : τ → Prop) : Coupling V σ τ where
  snapshot v := v
  anchor a := a
  Meets _ := True
  Rel h h' := h'.world = h.world ∧ P h.client ∧ Q h'.client
  Parted _ := False

variable {P : σ → Prop} {Q : τ → Prop}

@[simp] theorem move_oneWorld (x : Context V) :
    (oneWorld P Q : Coupling V σ τ).move x = x := x.shift_self

theorem lawful_oneWorld : (oneWorld P Q : Coupling V σ τ).Lawful where
  meets := ⟨fun _ _ => trivial, fun _ _ _ _ _ => ⟨trivial, trivial⟩, fun _ _ => trivial,
    fun _ _ => trivial⟩
  parted := ⟨fun _ h => h, fun _ _ _ _ h => ⟨trivial, h⟩, fun _ h => h, fun _ _ => trivial⟩
  pin cells hr hg := by
    obtain ⟨hw, hP, hQ⟩ := hg
    exact ⟨by dsimp only; rw [hw, hr.1], hP, hQ⟩
  child {x h h'} kind below shared _ hr := by
    obtain ⟨hw, hP, hQ⟩ := hr
    rw [move_oneWorld]
    unfold Body.openChild
    rw [hw]
    exact ⟨(move_oneWorld _).symm, rfl, hP, hQ⟩
  rerun _ hr := by
    obtain ⟨hw, hP, hQ⟩ := hr
    exact ⟨by dsimp only; rw [hw], hP, hQ⟩

/-- An access of the world and the context comes to the same in both hosts. -/
theorem bodies_access (f : World V → Context V → Except Error α × Context V) :
    (oneWorld P Q : Coupling V σ τ).Bodies (Body.access f) (Body.access f) where
  meets := fun _ _ _ => ⟨trivial, trivial⟩
  parted := fun _ _ hp => hp.elim
  agree {x h h'} _ hr := by
    rw [move_oneWorld]
    change _ ∨ (((f h'.world x).1, (f h'.world x).2) = _ ∧ _)
    rw [hr.1]
    exact .inr ⟨by rw [move_oneWorld]; rfl, hr⟩

variable {body : Body V σ α} {body' : Body V τ α} {h : Host V σ} {h' : Host V τ}

/-- Coupled bodies come to the same in one world. -/
theorem Bodies.runOn_eq (hb : (oneWorld P Q).Bodies body body') (hr : (oneWorld P Q).Rel h h')
    (x : Context V) : (body'.runOn x h').1 = (body.runOn x h).1 ∧
      (oneWorld P Q).Rel (body.runOn x h).2 (body'.runOn x h').2 := by
  rcases hb.agree (x := x) trivial hr with hp | ⟨ho, hr'⟩
  · exact hp.elim
  · simp only [move_oneWorld] at ho hr'
    exact ⟨ho, hr'⟩

/-- Bodies stay coupled where work that is done alike on both sides goes before them. -/
theorem Bodies.after_aside {β : Type} {f : Host V σ → Host V σ} {f' : Host V τ → Host V τ}
    {next : Body V σ β} {next' : Body V τ β}
    (hf : ∀ {h h'}, (oneWorld P Q).Rel h h' → (oneWorld P Q).Rel (f h) (f' h'))
    (hn : (oneWorld P Q).Bodies next next') :
    (oneWorld P Q).Bodies (do Body.aside fun h => ((), f h); next)
      (do Body.aside fun h => ((), f' h); next') where
  meets := fun _ _ _ => ⟨trivial, trivial⟩
  parted := fun _ _ hp => hp.elim
  agree {x h h'} hx hr := by
    have hboth : ∀ g g', (oneWorld P Q).Rel g g' →
        (oneWorld P Q).Agree ((), f g) ((), f' g') fun _ _ => True :=
      fun _ _ hg => .inr ⟨trivial, hf hg⟩
    rcases Agree.pinning lawful_oneWorld hboth hr x.holds with hp | ⟨-, hr'⟩
    · exact hp.elim
    · exact hn.agree hx hr'

theorem Bodies.onHeld (hb : (oneWorld P Q).Bodies body body') (hr : (oneWorld P Q).Rel h h')
    (k : Handle) : (h.onHeld k body = none ∧ h'.onHeld k body' = none) ∨
      ∃ o o', h.onHeld k body = some o ∧ h'.onHeld k body' = some o' ∧
        (oneWorld P Q).Rel o.2 o'.2 := by
  unfold Host.onHeld
  rw [hr.1]
  cases h.world.take k with
  | none => exact .inl ⟨rfl, rfl⟩
  | some xw =>
    obtain ⟨x, w⟩ := xw
    have hr' : (oneWorld P Q).Rel { h with world := w } { h' with world := w } := ⟨rfl, hr.2⟩
    have hrun := hb.runOn_eq hr' x
    refine .inr ⟨_, _, rfl, rfl, ?_⟩
    dsimp only
    generalize body.runOn x { h with world := w } = o at hrun ⊢
    generalize body'.runOn x { h' with world := w } = o' at hrun ⊢
    obtain ⟨o, g⟩ := o
    obtain ⟨o', g'⟩ := o'
    obtain ⟨rfl, hw, hPQ⟩ := hrun
    exact ⟨congrArg (World.giveBack · k o'.2) hw, hPQ⟩

theorem Bodies.withBound (hb : (oneWorld P Q).Bodies body body') (hr : (oneWorld P Q).Rel h h')
    (t : ThreadId) : (oneWorld P Q).Rel (h.withBound t body).2 (h'.withBound t body').2 := by
  unfold Host.withBound
  rw [hr.1]
  rcases h.world.detach t with ⟨e | x, w⟩
  · exact ⟨rfl, hr.2⟩
  · have hr' : (oneWorld P Q).Rel { h with world := w } { h' with world := w } := ⟨rfl, hr.2⟩
    have hrun := hb.runOn_eq hr' x
    dsimp only
    generalize body.runOn x { h with world := w } = o at hrun ⊢
    generalize body'.runOn x { h' with world := w } = o' at hrun ⊢
    obtain ⟨o, g⟩ := o
    obtain ⟨o', g'⟩ := o'
    obtain ⟨rfl, hw, hPQ⟩ := hrun
    exact ⟨congrArg (World.rebind · t o'.2) hw, hPQ⟩

variable [Inhabited V]

theorem Bodies.attempt (hb : (oneWorld P Q).Bodies body body') (hr : (oneWorld P Q).Rel h h')
    (e : EngineId) (mode : Mode) :
    (h'.attempt e mode body').1 = (h.attempt e mode body).1 ∧
      (oneWorld P Q).Rel (h.attempt e mode body).2 (h'.attempt e mode body').2 := by
  unfold Host.attempt
  rw [hr.1]
  obtain ⟨x, w⟩ := h.world.begin e mode
  have hr' : (oneWorld P Q).Rel { h with world := w } { h' with world := w } := ⟨rfl, hr.2⟩
  have hrun := hb.runOn_eq hr' x
  dsimp only
  generalize body.runOn x { h with world := w } = o at hrun ⊢
  generalize body'.runOn x { h' with world := w } = o' at hrun ⊢
  obtain ⟨⟨r, y⟩, g⟩ := o
  obtain ⟨o', g'⟩ := o'
  obtain ⟨rfl, hw, hPQ⟩ := hrun
  cases r with
  | ok a => exact ⟨by dsimp only; rw [hw], by dsimp only; rw [hw], hPQ⟩
  | error err => exact ⟨rfl, by dsimp only; rw [hw], hPQ⟩

theorem Bodies.attempts (hb : (oneWorld P Q).Bodies body body') (e : EngineId) (mode : Mode)
    (left n : Nat) (hr : (oneWorld P Q).Rel h h') :
    (oneWorld P Q).Rel (Host.attempts e mode (fun _ => body) left n h).2
      (Host.attempts e mode (fun _ => body') left n h').2 := by
  induction left generalizing n h h' with
  | zero => exact (hb.attempt hr e mode).2
  | succ left ih =>
    obtain ⟨ho, hr'⟩ := hb.attempt hr e mode
    unfold Host.attempts
    dsimp only
    rw [ho]
    cases (h.attempt e mode body).1 with
    | ok a => exact hr'
    | error err =>
      dsimp only
      split
      · exact ih (n + 1) hr'
      · exact hr'

end Coupling

/-! ### Programs -/

variable [Inhabited V] {P : σ → Prop} {Q : τ → Prop}

mutual

/-- A program does not look at the state of the caller. -/
theorem Program.run_blind : (p : Program V R) →
    (Coupling.oneWorld P Q : Coupling V σ τ).Bodies p.run p.run
  | .done result => Coupling.bodies_pure result
  | .fail error => Coupling.bodies_throw error
  | .read _ next => (Coupling.bodies_access _).attempt_bind fun r => (next r).run_blind
  | .write _ _ next => (Coupling.bodies_access _).attempt_bind fun r => (next r).run_blind
  | .put _ _ next => (Coupling.bodies_access _).attempt_bind fun r => (next r).run_blind
  | .get _ next => (Coupling.bodies_access _).attempt_bind fun r => (next r).run_blind
  | .stage _ _ _ next => (Coupling.bodies_access _).attempt_bind fun r => (next r).run_blind
  | .nested body next =>
    (body.run_blind.nested Coupling.lawful_oneWorld).attempt_bind fun r => (next r).run_blind
  | .parallel size mode body next => by
    have htasks := Coupling.bodies_parallel (C := Coupling.oneWorld P Q) Coupling.lawful_oneWorld
      (List.ofFn fun i : Fin size =>
        (⟨mode i, fun _ => (body i).run⟩, ⟨mode i, fun _ => (body i).run⟩))
      fun p hp => by
        obtain ⟨i, rfl⟩ := List.mem_ofFn.1 hp
        exact ⟨rfl, fun _ => (body i).run_blind⟩
    rw [List.map_ofFn, List.map_ofFn] at htasks
    exact htasks.attempt_bind fun r => (next r).run_blind
  | .aside action next => next.run_blind.after_aside fun hr => action.run_blind hr

/-- An action does not look at the state of the caller. -/
theorem Action.run_blind : (a : Action V R) → ∀ {h : Host V σ} {h' : Host V τ},
    (Coupling.oneWorld P Q).Rel h h' → (Coupling.oneWorld P Q).Rel (a.run h) (a.run h')
  | .perform k program, h, h', hr => by
    unfold Action.run
    rcases program.run_blind.onHeld hr k with ⟨ho, ho'⟩ | ⟨o, o', ho, ho', hr'⟩
    · rw [ho, ho']
      exact hr
    · rw [ho, ho']
      exact hr'
  | .withBound t program, h, h', hr => program.run_blind.withBound hr t
  | .atomically e mode program, h, h', hr => by
    unfold Action.run Host.atomically
    rw [hr.1]
    exact program.run_blind.attempts e mode _ 0 hr
  | .create e type value, h, h', hr
  | .begin e mode, h, h', hr
  | .commit k, h, h', hr
  | .abort k, h, h', hr
  | .discard k, h, h', hr
  | .park e k, h, h', hr
  | .unpark e txn, h, h', hr
  | .abortParked e txn, h, h', hr
  | .bind t k, h, h', hr
  | .unbind t, h, h', hr
  | .beginBound t e mode, h, h', hr
  | .commitBound t, h, h', hr
  | .abortBound t, h, h', hr
  | .parkBound t e, h, h', hr
  | .unparkBound t e txn, h, h', hr
  | .reclaim e, h, h', hr => by
    obtain ⟨hw, hPQ⟩ := hr
    refine ⟨?_, hPQ⟩
    simp only [Action.run, hw]

end

/-- An action leaves the state of the caller alone. -/
theorem Action.client_run (a : Action V R) (h : Host V σ) : (a.run h).client = h.client :=
  have hr : (Coupling.oneWorld (· = h.client) (· = h.client)).Rel h h := ⟨rfl, rfl, rfl⟩
  (a.run_blind hr).2.1

end VersionedMemory
