import VersionedMemory.Proofs.EngineInvariant
import VersionedMemory.Proofs.ProgramSteps

/-!
# Programs among several engines

A program may begin, park and commit transactions of any engine, and other actors may do so between
its accesses. All of it comes down to turns of a run. So, whatever the programs are, each engine
knows its live transactions before and after them, its versions and its numbering go forward, and a
transaction that was not begun meanwhile was there before.

## Main definitions

* `Scene.Comes` says that a run may come to a world, with given transactions running.
* `Body.Tame` is a body that acts on the world by such turns, and keeps its own transaction.

## Main statements

* `Action.run_stays` and `Program.tame`: every action and every program acts so.
* `Body.Tame.attempt` and `Body.Tame.attempts`: attempts at tame bodies, in transactions of their
  own, act on the world by such turns.
-/

namespace VersionedMemory

variable {V σ R : Type} [Inhabited V]

/-! ### Coming to a world -/

namespace Scene

variable {s : Scene V} {e : EngineId} {own : CellId → Prop} {w w' : World V}
  {run run' : List (Context V)} {past past' : History V} {x y : Context V}

omit [Inhabited V] in
/-- What an engine knows of its transactions is no matter of what was seen before. -/
theorem Attends.of_past (h : (⟨w, run, past⟩ : Scene V).Attends e) :
    (⟨w, run, past'⟩ : Scene V).Attends e :=
  ⟨h.anchors, h.consecutive, h.active, h.ids, h.begun⟩

theorem Precedes.of_past (h : s.Precedes e own ⟨w, run, past⟩) :
    s.Precedes e own ⟨w, run, past'⟩ :=
  ⟨h.version_le, h.begun_le, h.floor_le, h.old_or_new, h.has, h.asOf_eq⟩

/-- The run may come to the world, where the given transactions are running. -/
structure Comes (s : Scene V) (e : EngineId) (w : World V) (run : List (Context V)) : Prop where
  attends : (⟨w, run, s.past⟩ : Scene V).Attends e
  fresh : w.Fresh
  precedes : s.Precedes e (fun _ => False) ⟨w, run, s.past⟩

theorem Attends.comes (ha : s.Attends e) (hf : s.world.Fresh) : s.Comes e s.world s.running :=
  ⟨ha, hf, .refl s⟩

theorem Comes.trans (h : s.Comes e w run)
    (h' : Comes ⟨w, run, s.past⟩ e w' run') : s.Comes e w' run' :=
  ⟨h'.attends, h'.fresh, h.precedes.trans h'.precedes⟩

/-- A run goes on with any turn. -/
theorem Comes.turn (h : s.Comes e w run) {d : Deal}
    (ht : Turn d ⟨w, run, s.past⟩ (Scene.next ⟨w, run, s.past⟩ w' run')) : s.Comes e w' run' := by
  have hrun : Ensues e (fun _ => False) ⟨w, run, s.past⟩ (Scene.next ⟨w, run, s.past⟩ w' run') :=
    .single ⟨d, ht, fun _ _ hc => hc.elim⟩
  obtain ⟨⟨hs, hf⟩, hp⟩ := hrun.settled ⟨h.attends, fun _ hc => hc.elim⟩ h.fresh
  exact ⟨hs.attends.of_past, hf, h.precedes.trans hp.of_past⟩

/-- What a body made of a running transaction takes its place. -/
theorem Comes.become (h : s.Comes e w (x :: run)) (hl : y.life = x.life) :
    s.Comes e w (y :: run) := by
  have hlives : (⟨w, y :: run, s.past⟩ : Scene V).livesOf e =
      (⟨w, x :: run, s.past⟩ : Scene V).livesOf e := by
    simp [livesOf, lives, live, hl]
  have ha := h.attends
  have hp := h.precedes
  exact ⟨⟨hlives ▸ ha.anchors, ha.consecutive, hlives ▸ ha.active, hlives ▸ ha.ids,
      hlives ▸ ha.begun⟩, h.fresh,
    ⟨hp.version_le, hp.begun_le, hp.floor_le, hlives ▸ hp.old_or_new, hp.has, hp.asOf_eq⟩⟩

theorem Comes.hold (h : s.Comes e w (x :: run)) : s.Comes e (w.hold x).2 run :=
  h.turn (.hold (.refl _))

theorem Comes.commit (h : s.Comes e w (x :: run)) : s.Comes e (w.commit x).2 run :=
  h.turn (.commit (.refl _))

theorem Comes.abort (h : s.Comes e w (x :: run)) (reason : String) :
    s.Comes e (w.abort x reason) run :=
  h.turn (.abort reason (.refl _))

theorem Comes.bind (h : s.Comes e w (x :: run)) (t : ThreadId) : s.Comes e (w.bind t x).2 run :=
  h.turn (.bind t (.refl _))

theorem Comes.park (h : s.Comes e w (x :: run)) (d : EngineId) : s.Comes e (w.park d x).2 run :=
  h.turn (.park d (.refl _))

/-! ### Staying with the same transactions -/

/-- The run may come to the world with the same transactions running, and nobody has taken up a
handle that was given up. -/
structure Stays (s : Scene V) (e : EngineId) (w : World V) : Prop where
  comes : s.Comes e w s.running
  spares : s.world.Spares w

theorem Comes.stays (h : s.Comes e w run) : Stays ⟨w, run, s.past⟩ e w :=
  ⟨h.attends.comes h.fresh, .refl w⟩

/-- Whatever else a body does, a run stays with its transactions. -/
theorem invariant_stays (s : Scene V) (e : EngineId) :
    Host.Invariant (fun _ => True) fun h : Host V σ => s.Stays e h.world where
  pin pinned hK := ⟨hK.comes.turn (.pin pinned), hK.spares.trans (.of_eq rfl rfl)⟩
  child {x _} kind _ _ _ hK :=
    ⟨trivial, hK.comes.turn (.openChild x.engine kind x.mode), hK.spares.trans (.of_eq rfl rfl)⟩
  rerun {x _} _ hK :=
    ⟨hK.comes.turn (.countRerun x.engine), hK.spares.trans (.of_eq rfl rfl)⟩
  adopt _ _ := trivial

/-- A run stays with its transactions over an operation on one in the hands of a caller, which takes
it out of them. -/
theorem Stays.consume (h : s.Stays e w) (k : Handle) {f : Context V → World V → World V}
    (hf : ∀ x w, s.Comes e w (x :: s.running) →
      s.Comes e (f x w) s.running ∧ w.Spares (f x w)) : s.Stays e (w.consume k f) := by
  unfold World.consume
  cases ht : w.take k with
  | none => exact h
  | some xw =>
    obtain ⟨x, w'⟩ := xw
    obtain ⟨hcomes, hspares⟩ := hf x w' (h.comes.turn (.take ht))
    exact ⟨hcomes, h.spares.trans ((World.spares_take ht).trans hspares)⟩

theorem Stays.detach (h : s.Stays e w) (t : ThreadId) :
    (∃ err, w.detach t = (.error err, w)) ∨
      ∃ x w', w.detach t = (.ok x, w') ∧ s.Comes e w' (x :: s.running) ∧ s.world.Spares w' := by
  rcases w.detach_cases t with hnone | ⟨x, w', hok, hu, hspares⟩
  · exact .inl hnone
  · exact .inr ⟨x, w', hok, h.comes.turn (.unbind hu), h.spares.trans hspares⟩

theorem Stays.unpark (h : s.Stays e w) (d : EngineId) (txn : TxnId) :
    (∃ err, w.unpark d txn = (.error err, w)) ∨
      ∃ x w', w.unpark d txn = (.ok x, w') ∧ s.Comes e w' (x :: s.running) ∧
        s.world.Spares w' := by
  rcases w.unpark_cases d txn with hnone | ⟨x, w', hok, hspares⟩
  · exact .inl hnone
  · exact .inr ⟨x, w', hok, h.comes.turn (.unpark hok), h.spares.trans hspares⟩

/-- A run goes on when a transaction is bound again and what was bound meanwhile ends. -/
theorem Comes.rebind (h : s.Comes e w (x :: run)) (t : ThreadId) :
    s.Comes e (w.rebind t x) run ∧ w.Spares (w.rebind t x) := by
  refine ⟨?_, w.spares_rebind t x⟩
  rcases w.rebind_cases t x with he | ⟨y, w', hu, he⟩
  · rw [he]
    exact h.bind t
  · -- the running transaction is bound first, then the one found there ends
    have hbind : s.Comes e (w'.bind t x).2 (y :: run) :=
      (h.turn (.unbind hu)).turn (.bind t (List.Perm.swap x y run))
    rw [he]
    exact hbind.abort _

end Scene

/-! ### Bodies -/

namespace Body

/-- Whatever the engines and the transactions, the body stays with them, and it keeps its own. -/
structure Tame {α : Type} (body : Body V σ α) : Prop where
  upholds : ∀ (s : Scene V) (e : EngineId),
    body.Upholds (fun _ => True) fun h => s.Stays e h.world
  life : ∀ s : Session V σ, (body.run s).2.context.life = s.context.life

variable {α : Type} {body : Body V σ α} {s : Scene V} {e : EngineId}

/-- A body runs on a transaction that is running. -/
theorem Tame.runOn (hb : body.Tame) {x : Context V} {run : List (Context V)} {h : Host V σ}
    (hc : s.Comes e h.world (x :: run)) :
    s.Comes e (body.runOn x h).2.world ((body.runOn x h).1.2 :: run) ∧
      h.world.Spares (body.runOn x h).2.world := by
  have hk := (hb.upholds ⟨h.world, x :: run, s.past⟩ e ⟨x, h⟩ trivial hc.stays).2
  exact ⟨(hc.trans hk.comes).become (hb.life ⟨x, h⟩), hk.spares⟩

variable {h : Host V σ}

theorem Tame.onHeld (hb : body.Tame) (hs : s.Stays e h.world) {k : Handle}
    {o : Except Error α × Host V σ} (ho : h.onHeld k body = some o) : s.Stays e o.2.world := by
  unfold Host.onHeld at ho
  obtain ⟨⟨x, w⟩, ht, rfl⟩ := Option.map_eq_some_iff.1 ho
  obtain ⟨hsome, hnone, hhandles⟩ := World.take_spec ht
  have hlt : k < h.world.handles := Nat.lt_of_not_le fun hle => by
    simp [hs.comes.fresh k hle] at hsome
  obtain ⟨hcomes, hspares⟩ := hb.runOn (h := { h with world := w }) (hs.comes.turn (.take ht))
  have hfree := hspares.free k (hhandles.symm ▸ hlt) hnone
  exact ⟨hcomes.turn (.giveBack (.refl _) hfree
      (Nat.lt_of_lt_of_le hlt (hhandles ▸ hspares.handles_le))),
    hs.spares.trans (hspares.giveBack ht _)⟩

theorem Tame.withBound (hb : body.Tame) (hs : s.Stays e h.world) (t : ThreadId) :
    s.Stays e (h.withBound t body).2.world := by
  unfold Host.withBound
  rcases hs.detach t with ⟨err, hd⟩ | ⟨x, w, hd, hcomes, hspares⟩
  · rw [hd]
    exact hs
  · rw [hd]
    obtain ⟨hcomes', hspares'⟩ := hb.runOn (h := { h with world := w }) hcomes
    obtain ⟨hcomes'', hspares''⟩ := hcomes'.rebind t
    exact ⟨hcomes'', (hspares.trans hspares').trans hspares''⟩

theorem Tame.attempt (hb : body.Tame) (hs : s.Stays e h.world) (d : EngineId) (mode : Mode) :
    s.Stays e (h.attempt d mode body).2.world := by
  have hspares : s.world.Spares (h.world.begin d mode).2 := hs.spares.trans (.of_eq rfl rfl)
  obtain ⟨hcomes, hspares'⟩ := hb.runOn (h := { h with world := (h.world.begin d mode).2 })
    (hs.comes.turn (.begin d mode))
  unfold Host.attempt
  dsimp only
  split
  · exact ⟨hcomes.commit, (hspares.trans hspares').trans (World.spares_commit _ _)⟩
  · exact ⟨hcomes.abort _, (hspares.trans hspares').trans (.of_eq rfl rfl)⟩

theorem Tame.attempts {body : Nat → Body V σ α} (hb : ∀ n, (body n).Tame) (d : EngineId)
    (mode : Mode) (left n : Nat) (hs : s.Stays e h.world) :
    s.Stays e (Host.attempts d mode body left n h).2.world := by
  induction left generalizing n h with
  | zero => exact (hb (n + 1)).attempt hs d mode
  | succ left ih =>
    have hstep := (hb (n + 1)).attempt hs d mode
    unfold Host.attempts
    generalize h.attempt d mode (body (n + 1)) = o at hstep
    obtain ⟨err | a, h'⟩ := o
    · dsimp only
      split
      · exact ih (n + 1) hstep
      · exact hstep
    · exact hstep

end Body

/-! ### Programs -/

mutual

/-- Whatever a program does and lets others do, a run stays with its transactions. -/
theorem Program.upholds_stays (s : Scene V) (e : EngineId) : (p : Program V R) →
    (p.run : Body V σ R).Upholds (fun _ => True) fun h => s.Stays e h.world
  | .done _ => fun _ hx hK => ⟨hx, hK⟩
  | .fail _ => fun _ hx hK => ⟨hx, hK⟩
  | .read _ next | .write _ _ next | .put _ _ next | .get _ next | .stage _ _ _ next =>
    .attempt_bind (Body.upholds_access fun _ _ _ => trivial) fun r => (next r).upholds_stays s e
  | .nested body next =>
    .attempt_bind ((body.upholds_stays s e).nested (s.invariant_stays e))
      fun r => (next r).upholds_stays s e
  | .parallel _ _ body next =>
    .attempt_bind (Body.upholds_parallel (s.invariant_stays e) fun task ht _ => by
      obtain ⟨i, rfl⟩ := List.mem_ofFn.1 ht
      exact (body i).upholds_stays s e) fun r => (next r).upholds_stays s e
  | .aside action next => fun t hx hK =>
    have haside := Body.upholds_aside (f := fun h => ((), action.run h)) (s.invariant_stays e)
      (fun _ hg => action.run_stays s e hg) t hx hK
    next.upholds_stays s e _ haside.1 haside.2

/-- Whatever an action does, a run stays with its transactions. -/
theorem Action.run_stays (s : Scene V) (e : EngineId) : (a : Action V R) → ∀ {h : Host V σ},
    s.Stays e h.world → s.Stays e (a.run h).world
  | .create d type value, h, hs =>
    ⟨hs.comes.turn (.create d type value), hs.spares.trans (.of_eq rfl rfl)⟩
  | .begin d mode, h, hs => by
    have hbegin : h.world.Spares (h.world.begin d mode).2 := .of_eq rfl rfl
    exact ⟨(hs.comes.turn (.begin d mode)).hold,
      hs.spares.trans (hbegin.trans (World.spares_hold _ _))⟩
  | .perform k program, h, hs => by
    unfold Action.run
    cases ho : h.onHeld k (program.run : Body V σ R) with
    | none => exact hs
    | some o =>
      exact Body.Tame.onHeld ⟨fun s e => program.upholds_stays s e, program.life_run⟩ hs ho
  | .commit k, h, hs => hs.consume k fun x w hc => ⟨hc.commit, w.spares_commit x⟩
  | .abort k, h, hs => hs.consume k fun _ _ hc => ⟨hc.abort _, .of_eq rfl rfl⟩
  | .discard k, h, hs => hs.consume k fun _ _ hc => ⟨hc.abort _, .of_eq rfl rfl⟩
  | .park d k, h, hs => hs.consume k fun x w hc => ⟨hc.park d, w.spares_park d x⟩
  | .unpark d txn, h, hs => by
    unfold Action.run
    rcases hs.unpark d txn with ⟨err, hu⟩ | ⟨x, w, hu, hcomes, hspares⟩
    · rw [hu]
      exact hs
    · rw [hu]
      exact ⟨hcomes.hold, hspares.trans (w.spares_hold x)⟩
  | .abortParked d txn, h, hs => by
    unfold Action.run World.abortParked
    rcases hs.unpark d txn with ⟨err, hu⟩ | ⟨x, w, hu, hcomes, hspares⟩
    · rw [hu]
      exact hs
    · rw [hu]
      exact ⟨hcomes.abort _, hspares.trans (.of_eq rfl rfl)⟩
  | .bind t k, h, hs => hs.consume k fun x w hc => ⟨hc.bind t, w.spares_bind t x⟩
  | .unbind t, h, hs => by
    unfold Action.run
    rcases hs.detach t with ⟨err, hd⟩ | ⟨x, w, hd, hcomes, hspares⟩
    · rw [hd]
      exact hs
    · rw [hd]
      exact ⟨hcomes.hold, hspares.trans (w.spares_hold x)⟩
  | .beginBound t d mode, h, hs => by
    unfold Action.run World.beginBound
    split
    · exact hs
    · have hbegin : h.world.Spares (h.world.begin d mode).2 := .of_eq rfl rfl
      exact ⟨(hs.comes.turn (.begin d mode)).bind t,
        hs.spares.trans (hbegin.trans (World.spares_bind _ t _))⟩
  | .withBound t program, h, hs =>
    Body.Tame.withBound ⟨fun s e => program.upholds_stays s e, program.life_run⟩ hs t
  | .commitBound t, h, hs => by
    unfold Action.run World.commitBound
    rcases hs.detach t with ⟨err, hd⟩ | ⟨x, w, hd, hcomes, hspares⟩
    · rw [hd]
      exact hs
    · rw [hd]
      exact ⟨hcomes.commit, hspares.trans (w.spares_commit x)⟩
  | .abortBound t, h, hs => by
    unfold Action.run World.abortBound
    rcases hs.detach t with ⟨err, hd⟩ | ⟨x, w, hd, hcomes, hspares⟩
    · rw [hd]
      exact hs
    · rw [hd]
      exact ⟨hcomes.abort _, hspares.trans (.of_eq rfl rfl)⟩
  | .parkBound t d, h, hs => by
    unfold Action.run World.parkBound
    rcases hs.detach t with ⟨err, hd⟩ | ⟨x, w, hd, hcomes, hspares⟩
    · rw [hd]
      exact hs
    · rw [hd]
      exact ⟨hcomes.park d, hspares.trans (w.spares_park d x)⟩
  | .unparkBound t d txn, h, hs => by
    unfold Action.run World.unparkBound
    split
    · exact hs
    · rcases hs.unpark d txn with ⟨err, hu⟩ | ⟨x, w, hu, hcomes, hspares⟩
      · rw [hu]
        exact hs
      · rw [hu]
        exact ⟨hcomes.bind t, hspares.trans (w.spares_bind t x)⟩
  | .atomically d mode program, h, hs =>
    Body.Tame.attempts (fun _ => ⟨fun s e => program.upholds_stays s e, program.life_run⟩) d mode
      _ 0 hs
  | .reclaim d, h, hs =>
    ⟨hs.comes.turn (.reclaim d), hs.spares.trans (.of_eq rfl rfl)⟩

end

/-- Every program is tame. -/
theorem Program.tame (p : Program V R) : (p.run : Body V σ R).Tame :=
  ⟨fun s e => p.upholds_stays s e, p.life_run⟩

namespace Body

variable {α β : Type}

/-- A body may look at the state of its caller, and change it. -/
theorem tame_client (f : σ → α × σ) : (aside fun h => ((f h.client).1,
    { h with client := (f h.client).2 }) : Body V σ α).Tame where
  upholds s e := upholds_aside (s.invariant_stays e) fun _ hg => hg
  life _ := rfl

/-- What a body does next may depend on what it found. -/
theorem Tame.bind {body : Body V σ α} {f : α → Body V σ β} (hb : body.Tame)
    (hf : ∀ a, (f a).Tame) : (body >>= f).Tame where
  upholds s e t hx hK := by
    have hk := hb.upholds s e t hx hK
    rw [run_bind]
    generalize body.run t = o at *
    obtain ⟨err | a, t'⟩ := o
    · exact hk
    · exact (hf a).upholds s e t' hk.1 hk.2
  life t := by
    have hlife := hb.life t
    rw [run_bind]
    generalize body.run t = o at *
    obtain ⟨err | a, t'⟩ := o
    · exact hlife
    · exact ((hf a).life t').trans hlife

end Body

end VersionedMemory
