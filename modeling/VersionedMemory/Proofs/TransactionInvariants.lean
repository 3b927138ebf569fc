import VersionedMemory.Proofs.TransactionMoves
import VersionedMemory.Proofs.ProgramSteps

/-!
# Properties that last as long as a transaction

What is true of every transaction that begins, and stays true over every access and every merge of a
child, is true of all transactions that are alive, whatever programs and other actors do with them:
they only move from hand to hand, run bodies and come to an end.

## Main definitions

* `Lasts` says of a property that it is of this kind.

## Main statements

* `Program.upholds_alive` and `Action.alive_run`: no program and no action makes such a
  property false of a transaction that is alive.
* `alive_foldl`: such a property is true all along a run.
-/

namespace VersionedMemory

variable {V σ R : Type} [Inhabited V] {P : Context V → Prop} {h : Host V σ}

/-- The property is true of every transaction that begins, and stays true over every access. -/
structure Lasts (P : Context V → Prop) : Prop where
  begin : ∀ id engine anchor mode, P (.begin id engine anchor mode)
  access : ∀ (s : Store V) {x y : Context V}, x.Access s y → P x → P y

omit [Inhabited V] in
/-- The property is true of all that are alive, if nobody is put down of whom it is not true. -/
theorem World.Moves.forall_alive {hand : List (Context V)} {w w' : World V} (hm : w.Moves hand w')
    (hhand : ∀ x ∈ hand, P x) (hw : ∀ x ∈ w.alive, P x) : ∀ x ∈ w'.alive, P x :=
  fun x hx => (hm.alive x hx).elim (hhand x) (hw x)

omit [Inhabited V] in
theorem World.Moves.stay_alive {w w' : World V} (hm : w.Moves [] w') (hw : ∀ x ∈ w.alive, P x) :
    ∀ x ∈ w'.alive, P x :=
  hm.forall_alive (fun _ hx => nomatch hx) hw

omit [Inhabited V] in
/-- Children and batches leave all others alone. -/
theorem invariant_alive (P : Context V → Prop) :
    Host.Invariant (fun _ => True) fun h : Host V σ => ∀ x ∈ h.world.alive, P x where
  pin _ hK := hK
  child _ _ _ _ hK := ⟨trivial, hK⟩
  rerun _ hK := hK
  adopt _ _ := trivial

namespace Body

/-- The body leaves the property true of its own context, and of all that are alive. -/
structure Lasting {α : Type} (P : Context V → Prop) (body : Body V σ α) : Prop where
  upholds : body.Upholds (fun _ => True) fun h => ∀ x ∈ h.world.alive, P x
  context : ∀ s : Session V σ, P s.context → P (body.run s).2.context

variable {α : Type} {body : Body V σ α} {x : Context V} {w : World V}

omit [Inhabited V] in
theorem Lasting.runOn (hb : body.Lasting P) (hh : ∀ y ∈ h.world.alive, P y) (hx : P x) :
    (∀ y ∈ (body.runOn x h).2.world.alive, P y) ∧ P (body.runOn x h).1.2 :=
  ⟨(hb.upholds ⟨x, h⟩ trivial hh).2, hb.context ⟨x, h⟩ hx⟩

theorem Lasting.attempts {body : Nat → Body V σ α} (hb : ∀ n, (body n).Lasting P)
    (hP : Lasts P) (mode : Mode) (left n : Nat) (hh : ∀ y ∈ h.world.alive, P y) :
    ∀ y ∈ (Host.attempts sole mode body left n h).2.world.alive, P y := by
  have hone : ∀ (n : Nat) (h : Host V σ), (∀ y ∈ h.world.alive, P y) →
      ∀ y ∈ (h.attempt sole mode (body n)).2.world.alive, P y := by
    intro n h hh
    have hbegun := (h.world.moves_begin mode).stay_alive hh
    obtain ⟨halive, -⟩ := (hb n).runOn (h := { h with world := (h.world.begin sole mode).2 })
      hbegun (hP.begin ..)
    unfold Host.attempt
    dsimp only
    split
    · dsimp only
      rwa [World.alive_commit]
    · exact (World.moves_abort _ _ _).stay_alive halive
  induction left generalizing n h with
  | zero => exact hone (n + 1) h hh
  | succ left ih =>
    have hstep := hone (n + 1) h hh
    unfold Host.attempts
    generalize h.attempt sole mode (body (n + 1)) = o at hstep
    obtain ⟨err | a, h'⟩ := o
    · dsimp only
      split
      · exact ih (n + 1) hstep
      · exact hstep
    · exact hstep

end Body

mutual

/-- No program makes the property false of a transaction that is alive. -/
theorem Program.upholds_alive (hP : Lasts P) : (p : Program V R) → p.Local →
    (p.run : Body V σ R).Upholds (fun _ => True) fun h => ∀ x ∈ h.world.alive, P x
  | .done _, _ => fun _ hx hK => ⟨hx, hK⟩
  | .fail _, _ => fun _ hx hK => ⟨hx, hK⟩
  | .read _ next, hp | .write _ _ next, hp | .put _ _ next, hp | .get _ next, hp
  | .stage _ _ _ next, hp =>
    .attempt_bind (Body.upholds_access fun _ _ _ => trivial)
      fun r => Program.upholds_alive hP (next r) (hp r)
  | .nested body next, hp =>
    .attempt_bind ((Program.upholds_alive hP body hp.1).nested (invariant_alive P))
      fun r => Program.upholds_alive hP (next r) (hp.2 r)
  | .parallel _ _ body next, hp =>
    .attempt_bind (Body.upholds_parallel (invariant_alive P) fun task ht _ => by
      obtain ⟨i, rfl⟩ := List.mem_ofFn.1 ht
      exact Program.upholds_alive hP (body i) (hp.1 i))
      fun r => Program.upholds_alive hP (next r) (hp.2 r)
  | .aside action next, hp => fun t hx hK =>
    have haside := Body.upholds_aside (f := fun h => ((), action.run h)) (invariant_alive P)
      (fun _ hg => Action.alive_run hP action hp.1 hg) t hx hK
    Program.upholds_alive hP next hp.2 _ haside.1 haside.2

/-- No action makes the property false of a transaction that is alive. -/
theorem Action.alive_run (hP : Lasts P) : (a : Action V R) → a.Local → ∀ {h : Host V σ},
    (∀ x ∈ h.world.alive, P x) → ∀ x ∈ (a.run h).world.alive, P x
  | .create e type value, _, h, hh => hh
  | .perform k program, hl, h, hh => by
    unfold Action.run Host.onHeld
    cases ht : h.world.take k with
    | none => exact hh
    | some xw =>
      obtain ⟨x, w⟩ := xw
      obtain ⟨hx, hm⟩ := World.moves_take ht
      have hb : Body.Lasting P (program.run : Body V σ R) :=
        ⟨Program.upholds_alive hP program hl, program.context_run hP.access⟩
      obtain ⟨halive, hown⟩ := hb.runOn (h := { h with world := w }) (hm.stay_alive hh) (hh x hx)
      exact (World.moves_giveBack _ k _).forall_alive (List.forall_mem_singleton.2 hown) halive
  | .withBound t program, hl, h, hh => by
    obtain ⟨hm, hx⟩ := h.world.moves_detach t
    unfold Action.run Host.withBound
    rcases hd : h.world.detach t with ⟨e | x, w⟩
    · rw [hd] at hm
      exact hm.stay_alive hh
    · rw [hd] at hm hx
      have hb : Body.Lasting P (program.run : Body V σ R) :=
        ⟨Program.upholds_alive hP program hl, program.context_run hP.access⟩
      obtain ⟨halive, hown⟩ := hb.runOn (h := { h with world := w }) (hm.stay_alive hh)
        (hh x (hx x rfl))
      exact (World.moves_rebind _ t _).forall_alive (List.forall_mem_singleton.2 hown) halive
  | .commit k, _, h, hh => by
    unfold Action.run World.consume
    cases ht : h.world.take k with
    | none => exact hh
    | some xw =>
      obtain ⟨x, w⟩ := xw
      dsimp only
      rw [World.alive_commit]
      exact (World.moves_take ht).2.stay_alive hh
  | .commitBound t, _, h, hh => by
    obtain ⟨hm, -⟩ := h.world.moves_detach t
    unfold Action.run World.commitBound
    rcases hd : h.world.detach t with ⟨e | x, w⟩
    · rw [hd] at hm
      exact hm.stay_alive hh
    · rw [hd] at hm
      dsimp only
      rw [World.alive_commit]
      exact hm.stay_alive hh
  | .atomically e mode program, hl, h, hh => by
    obtain ⟨rfl, hl⟩ := hl
    exact Body.Lasting.attempts (fun _ => ⟨Program.upholds_alive hP program hl,
      program.context_run hP.access⟩) hP mode _ 0 hh
  | .begin e mode, hl, h, hh => by
    cases hl
    exact (World.moves_hold _ _).forall_alive (List.forall_mem_singleton.2 (hP.begin ..))
      ((h.world.moves_begin mode).stay_alive hh)
  | .beginBound t e mode, hl, h, hh => by
    cases hl
    unfold Action.run World.beginBound
    split
    · exact hh
    · exact (World.moves_bind _ t _).forall_alive (List.forall_mem_singleton.2 (hP.begin ..))
        ((h.world.moves_begin mode).stay_alive hh)
  | .abort k, _, h, hh =>
    (h.world.moves_consume k fun x w => (w.moves_abort x _).weaken [x]).stay_alive hh
  | .discard k, _, h, hh =>
    (h.world.moves_consume k fun x w => (w.moves_abort x _).weaken [x]).stay_alive hh
  | .park e k, _, h, hh => (h.world.moves_consume k fun x w => w.moves_park e x).stay_alive hh
  | .unpark e txn, hl, h, hh => by
    cases hl
    exact (World.moves_holdResult (h.world.moves_unpark txn)).stay_alive hh
  | .abortParked e txn, hl, h, hh => by
    cases hl
    exact (h.world.moves_abortParked txn).stay_alive hh
  | .bind t k, _, h, hh => (h.world.moves_consume k fun x w => w.moves_bind t x).stay_alive hh
  | .unbind t, _, h, hh => (World.moves_holdResult (h.world.moves_detach t)).stay_alive hh
  | .abortBound t, _, h, hh => (h.world.moves_abortBound t).stay_alive hh
  | .parkBound t e, _, h, hh => (h.world.moves_parkBound t e).stay_alive hh
  | .unparkBound t e txn, hl, h, hh => by
    cases hl
    exact (h.world.moves_unparkBound t txn).stay_alive hh
  | .reclaim e, _, h, hh => hh

end

/-- The property stays true over every run. -/
theorem alive_foldl (hP : Lasts P) {actions : List (Action V R)} (hl : ∀ a ∈ actions, a.Local)
    (hh : ∀ x ∈ h.world.alive, P x) :
    ∀ x ∈ (actions.foldl (fun h a => a.run h) h).world.alive, P x := by
  induction actions generalizing h with
  | nil => exact hh
  | cons a rest ih =>
    obtain ⟨ha, hrest⟩ := List.forall_mem_cons.1 hl
    exact ih hrest (a.alive_run hP ha hh)

end VersionedMemory
