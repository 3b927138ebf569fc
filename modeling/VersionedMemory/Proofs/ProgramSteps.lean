import VersionedMemory.Proofs.Handles
import VersionedMemory.Proofs.HostInvariants
import VersionedMemory.Proofs.Snapshot

/-!
# Programs in a run of one engine

Whatever a program does beside the accesses to its own context, and whatever other actors do between
two of these, comes down to steps of a run of the engine. So the engine serves all along, what old
snapshots see stays, and nobody finds a transaction under a handle that was given up before.

## Main definitions

* `Program.Local` and `Action.Local` say that all transactions belong to the only engine.
* `Scene.Onward` says that a run may go on to a world, with given transactions running.

## Main statements

* `Action.run_onward` and `Program.upholds_onward`: a run goes on over every action, and over every
  body.
* `Program.context_run`: what every access leaves true of a context, a program leaves true.
-/

namespace VersionedMemory

variable {V σ R : Type}

mutual

/-- All that the program lets others do belongs to the only engine. -/
def Program.Local : Program V R → Prop
  | .done _ => True
  | .fail _ => True
  | .read _ next => ∀ r, (next r).Local
  | .write _ _ next => ∀ r, (next r).Local
  | .put _ _ next => ∀ r, (next r).Local
  | .get _ next => ∀ r, (next r).Local
  | .stage _ _ _ next => ∀ r, (next r).Local
  | .nested body next => body.Local ∧ ∀ r, (next r).Local
  | .parallel _ _ body next => (∀ i, (body i).Local) ∧ ∀ r, (next r).Local
  | .aside action next => action.Local ∧ next.Local

/-- The action belongs to the only engine. -/
def Action.Local : Action V R → Prop
  | .create e _ _ => e = sole
  | .begin e _ => e = sole
  | .perform _ program => program.Local
  | .commit _ => True
  | .abort _ => True
  | .discard _ => True
  | .park e _ => e = sole
  | .unpark e _ => e = sole
  | .abortParked e _ => e = sole
  | .bind _ _ => True
  | .unbind _ => True
  | .beginBound _ e _ => e = sole
  | .withBound _ program => program.Local
  | .commitBound _ => True
  | .abortBound _ => True
  | .parkBound _ e => e = sole
  | .unparkBound _ e _ => e = sole
  | .atomically e _ program => e = sole ∧ program.Local
  | .reclaim e => e = sole

end

/-! ### Going on -/

variable [Inhabited V]

namespace Scene

variable {s s' s'' : Scene V} {w w' : World V} {run run' : List (Context V)} {x y : Context V}

/-- The second scene is in order and follows the first. -/
structure Leads (s s' : Scene V) : Prop where
  sound : s'.Sound
  precedes : s.world.Precedes s.lives s.past s'.world s'.lives s'.past
  hooks : s'.engine.hooks = s.engine.hooks

theorem Leads.trans (h : s.Leads s') (h' : s'.Leads s'') : s.Leads s'' :=
  ⟨h'.sound, h.precedes.trans h'.precedes, h'.hooks.trans h.hooks⟩

/-- The run may go on to the world, where the given transactions are running. -/
def Onward (s : Scene V) (w : World V) (run : List (Context V)) : Prop :=
  ∃ past, s.Leads ⟨w, run, past⟩

theorem Sound.refl (h : s.Sound) : s.Onward s.world s.running :=
  ⟨s.past, h, .refl _ _ _, rfl⟩

theorem Sound.step (h : s.Sound) (hst : Step s (s.next w run)) : s.Onward w run := by
  obtain ⟨hp, -⟩ := hst.passes h
  exact ⟨s.past.note w.store, hp.serves, hp.precedes, hst.hooks_eq⟩

theorem Onward.trans (h : s.Onward w run)
    (hnext : ∀ past, (⟨w, run, past⟩ : Scene V).Sound → Onward ⟨w, run, past⟩ w' run') :
    s.Onward w' run' := by
  obtain ⟨past, hl⟩ := h
  obtain ⟨past', hl'⟩ := hnext past hl.sound
  exact ⟨past', hl.trans hl'⟩

theorem Onward.step (h : s.Onward w run)
    (hst : ∀ past, Step ⟨w, run, past⟩ (Scene.next ⟨w, run, past⟩ w' run')) : s.Onward w' run' :=
  h.trans fun past hs => hs.step (hst past)

/-- What a body made of a running transaction takes its place. -/
theorem Onward.become (h : s.Onward w (x :: run)) (hl : y.life = x.life) :
    s.Onward w (y :: run) := by
  obtain ⟨past, hl'⟩ := h
  have hlives : (⟨w, y :: run, past⟩ : Scene V).lives = (⟨w, x :: run, past⟩ : Scene V).lives := by
    simp [lives, live, hl]
  refine ⟨past, ?_, ?_, hl'.hooks⟩
  · unfold Sound
    rw [hlives]
    exact hl'.sound
  · rw [hlives]
    exact hl'.precedes

theorem Sound.engine_eq (h : s.Sound) (hx : x ∈ s.live) : x.engine = sole :=
  (h.active x.life (List.mem_map_of_mem hx)).1

end Scene

/-! ### Programs -/

namespace Body

omit [Inhabited V] in
/-- A context is left alone by a child of it, or takes over what the child hands over. -/
theorem context_nested {α : Type} {P : Context V → Prop} (body : Body V σ α) {s : Session V σ}
    (hs : P s.context) (ha : ∀ e, P (s.context.adopt e).2) :
    P ((nested body).run s).2.context := by
  rw [run_nested]
  split
  · exact hs
  · dsimp only
    split
    · exact hs
    · exact ha _

omit [Inhabited V] in
/-- A context is left alone by a batch, or takes over what the batch merges to. -/
theorem context_parallel {α : Type} {P : Context V → Prop} (tasks : List (Task V σ α))
    {s : Session V σ} (hs : P s.context) (ha : ∀ e, P (s.context.adopt e).2) :
    P ((parallel tasks).run s).2.context := by
  rw [run_parallel]
  split
  · exact hs
  · dsimp only
    split
    · exact hs
    · exact ha _

end Body

/-- What every access leaves true of a context, a program leaves true of it. -/
theorem Program.context_run {P : Context V → Prop}
    (hP : ∀ (s : Store V) {x y : Context V}, x.Access s y → P x → P y) :
    (p : Program V R) → ∀ s : Session V σ, P s.context → P (p.run.run s).2.context
  | .done _, _, hs => hs
  | .fail _, _, hs => hs
  | .read c next, s, hs =>
    (next _).context_run hP _ (hP s.host.world.store (.read c) hs)
  | .write c value next, s, hs =>
    (next _).context_run hP _ (hP s.host.world.store (.write c value) hs)
  | .put a delta next, s, hs =>
    (next _).context_run hP _ (hP s.host.world.store (.put a delta) hs)
  | .get a next, s, hs =>
    (next _).context_run hP _ (hP s.host.world.store (.get a) hs)
  | .stage under target value next, s, hs =>
    (next _).context_run hP _ (hP s.host.world.store (.stage under target value) hs)
  | .nested body next, s, hs =>
    (next _).context_run hP _
      (Body.context_nested body.run hs fun e => hP s.host.world.store (.adopt e) hs)
  | .parallel _ mode body next, s, hs =>
    (next _).context_run hP _
      (Body.context_parallel (List.ofFn fun i => ⟨mode i, fun _ => (body i).run⟩) hs
        fun e => hP s.host.world.store (.adopt e) hs)
  | .aside _ next, _, hs => next.context_run hP _ hs

theorem Program.life_run (p : Program V R) (s : Session V σ) :
    (p.run.run s).2.context.life = s.context.life :=
  p.context_run (P := fun x => x.life = s.context.life) (fun _ _ _ h hx => h.life_eq.trans hx) s rfl

/-! ### What a body keeps going -/

namespace Scene

variable {s : Scene V} {w : World V} {run : List (Context V)}

/-- The run may go on to the world with the same transactions running, and nobody has taken up a
handle that was given up. -/
structure Continues (s : Scene V) (w : World V) : Prop where
  onward : s.Onward w s.running
  spares : s.world.Spares w

theorem Sound.continues (h : s.Sound) : s.Continues s.world := ⟨h.refl, .refl _⟩

theorem Continues.trans {w' : World V} (h : s.Continues w)
    (hnext : ∀ past, (⟨w, s.running, past⟩ : Scene V).Sound →
      Continues ⟨w, s.running, past⟩ w') : s.Continues w' := by
  obtain ⟨past, hl⟩ := h.onward
  have hc := hnext past hl.sound
  exact ⟨h.onward.trans fun past hs => (hnext past hs).onward, h.spares.trans hc.spares⟩

/-- A body on a context of the only engine keeps the run going. -/
theorem invariant_continues (s : Scene V) :
    Host.Invariant (fun x => x.engine = sole) fun h : Host V σ => s.Continues h.world where
  pin pinned hK := ⟨hK.onward.step fun _ => .pin pinned, hK.spares.trans (.of_eq rfl rfl)⟩
  child {x h} kind below shared hx hK := by
    refine ⟨hx, ?_, hK.spares.trans (.of_eq rfl rfl)⟩
    unfold Body.openChild
    rw [hx]
    exact hK.onward.step fun _ => .openChild kind x.mode
  rerun {x h} hx hK := by
    refine ⟨?_, hK.spares.trans (.of_eq rfl rfl)⟩
    rw [hx]
    exact hK.onward.step fun _ => .countRerun
  adopt e hx := (congrArg Life.engine (Context.life_adopt _ e)).trans hx

/-- A run goes on over an operation on a transaction in the hands of a caller, which takes it out of
them. -/
theorem Sound.consume (h : s.Sound) (k : Handle) {f : Context V → World V → World V}
    (hf : ∀ x w past, (⟨w, x :: s.running, past⟩ : Scene V).Sound →
      Onward ⟨w, x :: s.running, past⟩ (f x w) s.running ∧ w.Spares (f x w)) :
    s.Continues (s.world.consume k f) := by
  unfold World.consume
  cases ht : s.world.take k with
  | none => exact h.continues
  | some xw =>
    obtain ⟨x, w⟩ := xw
    have htake : s.Onward w (x :: s.running) := h.step (.take ht)
    refine ⟨htake.trans fun past hs => (hf x w past hs).1, ?_⟩
    obtain ⟨past, hl⟩ := htake
    exact (World.spares_take ht).trans (hf x w past hl.sound).2

theorem Onward.hold {x : Context V} (h : s.Onward w (x :: run)) : s.Onward (w.hold x).2 run :=
  h.step fun _ => .hold (.refl _)

theorem Onward.commit {x : Context V} (h : s.Onward w (x :: run)) : s.Onward (w.commit x).2 run :=
  h.step fun _ => .commit (.refl _)

theorem Onward.abort {x : Context V} (h : s.Onward w (x :: run)) (reason : String) :
    s.Onward (w.abort x reason) run :=
  h.step fun _ => .abort reason (.refl _)

theorem Onward.bind {x : Context V} (h : s.Onward w (x :: run)) (t : ThreadId) :
    s.Onward (w.bind t x).2 run :=
  h.step fun _ => .bind t (.refl _)

theorem Onward.park {x : Context V} (h : s.Onward w (x :: run)) :
    s.Onward (w.park sole x).2 run :=
  h.step fun _ => .park (.refl _)

theorem Sound.detach (h : s.Sound) (t : ThreadId) :
    (∃ e, s.world.detach t = (.error e, s.world)) ∨
      ∃ x w, s.world.detach t = (.ok x, w) ∧ s.Onward w (x :: s.running) ∧ s.world.Spares w := by
  rcases s.world.detach_cases t with hnone | ⟨x, w, hok, hu, hspares⟩
  · exact .inl hnone
  · exact .inr ⟨x, w, hok, h.step (.unbind hu), hspares⟩

theorem Sound.unpark (h : s.Sound) (txn : TxnId) :
    (∃ e, s.world.unpark sole txn = (.error e, s.world)) ∨
      ∃ x w, s.world.unpark sole txn = (.ok x, w) ∧ s.Onward w (x :: s.running) ∧
        s.world.Spares w := by
  rcases s.world.unpark_cases sole txn with hnone | ⟨x, w, hok, hspares⟩
  · exact .inl hnone
  · exact .inr ⟨x, w, hok, h.step (.unpark hok), hspares⟩

/-- A run goes on when a transaction is bound again and what was bound meanwhile ends. -/
theorem Sound.rebind {x : Context V} {past : History V}
    (h : (⟨w, x :: run, past⟩ : Scene V).Sound) (t : ThreadId) :
    Onward ⟨w, x :: run, past⟩ (w.rebind t x) run ∧ w.Spares (w.rebind t x) := by
  refine ⟨?_, w.spares_rebind t x⟩
  rcases w.rebind_cases t x with he | ⟨y, w', hu, he⟩
  · rw [he]
    exact h.refl.bind t
  · -- the running transaction is bound first, then the one found there ends
    have hbind : Onward ⟨w, x :: run, past⟩ (w'.bind t x).2 (y :: run) :=
      (h.step (.unbind hu)).step fun _ => .bind t (List.Perm.swap x y run)
    rw [he]
    exact hbind.abort _

end Scene

namespace Body

/-- The body keeps every run of the engine going, and its context alive. -/
structure Persists {α : Type} (body : Body V σ α) : Prop where
  upholds : ∀ s : Scene V,
    body.Upholds (fun x => x.engine = sole) fun h => s.Continues h.world
  life : ∀ s : Session V σ, (body.run s).2.context.life = s.context.life

variable {α : Type} {body : Body V σ α}

/-- A body runs on a transaction that is running. -/
theorem Persists.runOn (hb : body.Persists) {x : Context V} {run : List (Context V)}
    {past : History V} {h : Host V σ} (hs : (⟨h.world, x :: run, past⟩ : Scene V).Sound) :
    Scene.Onward ⟨h.world, x :: run, past⟩ (body.runOn x h).2.world
      ((body.runOn x h).1.2 :: run) ∧ h.world.Spares (body.runOn x h).2.world := by
  have hx : x.engine = sole := hs.engine_eq (List.mem_append_right _ (List.mem_cons_self ..))
  have hk := (hb.upholds ⟨h.world, x :: run, past⟩ ⟨x, h⟩ hx hs.continues).2
  exact ⟨hk.onward.become (hb.life ⟨x, h⟩), hk.spares⟩

variable {run : List (Context V)} {past : History V} {h : Host V σ}

theorem Persists.onHeld (hb : body.Persists) (hs : (⟨h.world, run, past⟩ : Scene V).Sound)
    {k : Handle} {o : Except Error α × Host V σ} (ho : h.onHeld k body = some o) :
    Scene.Continues ⟨h.world, run, past⟩ o.2.world := by
  unfold Host.onHeld at ho
  obtain ⟨⟨x, w⟩, ht, rfl⟩ := Option.map_eq_some_iff.1 ho
  obtain ⟨hsome, hnone, hhandles⟩ := World.take_spec ht
  have hlt : k < h.world.handles := Nat.lt_of_not_le fun hle => by
    simp [hs.handles k hle] at hsome
  obtain ⟨past₁, hl⟩ : Scene.Onward ⟨h.world, run, past⟩ w (x :: run) := hs.step (.take ht)
  obtain ⟨⟨past₂, hl'⟩, hspares⟩ := hb.runOn (h := { h with world := w }) hl.sound
  have hfree := hspares.free k (hhandles.symm ▸ hlt) hnone
  refine ⟨Scene.Onward.step ⟨past₂, hl.trans hl'⟩ fun _ => .giveBack (.refl _) hfree ?_,
    hspares.giveBack ht _⟩
  exact Nat.lt_of_lt_of_le hlt (hhandles ▸ hspares.handles_le)

theorem Persists.withBound (hb : body.Persists) (hs : (⟨h.world, run, past⟩ : Scene V).Sound)
    (t : ThreadId) : Scene.Continues ⟨h.world, run, past⟩ (h.withBound t body).2.world := by
  unfold Host.withBound
  rcases hs.detach t with ⟨e, hd⟩ | ⟨x, w, hd, ⟨past, hl⟩, hspares⟩
  · rw [hd]
    exact hs.continues
  · rw [hd]
    obtain ⟨⟨past', hl'⟩, hspares'⟩ := hb.runOn (h := { h with world := w }) hl.sound
    obtain ⟨⟨past'', hl''⟩, hspares''⟩ := hl'.sound.rebind t
    exact ⟨⟨past'', (hl.trans hl').trans hl''⟩, (hspares.trans hspares').trans hspares''⟩

theorem Persists.attempt (hb : body.Persists) (hs : (⟨h.world, run, past⟩ : Scene V).Sound)
    (mode : Mode) : Scene.Continues ⟨h.world, run, past⟩ (h.attempt sole mode body).2.world := by
  obtain ⟨past₁, hl⟩ : Scene.Onward ⟨h.world, run, past⟩ (h.world.begin sole mode).2
    ((h.world.begin sole mode).1 :: run) := hs.step (.begin mode)
  have hspares : h.world.Spares (h.world.begin sole mode).2 := .of_eq rfl rfl
  obtain ⟨⟨past₂, hl'⟩, hspares'⟩ :=
    hb.runOn (h := { h with world := (h.world.begin sole mode).2 }) hl.sound
  have hrun : Scene.Onward ⟨h.world, run, past⟩ _ _ := ⟨past₂, hl.trans hl'⟩
  unfold Host.attempt
  dsimp only
  split
  · exact ⟨hrun.commit, (hspares.trans hspares').trans (World.spares_commit _ _)⟩
  · exact ⟨hrun.abort _, (hspares.trans hspares').trans (.of_eq rfl rfl)⟩

theorem Persists.attempts {body : Nat → Body V σ α} (hb : ∀ n, (body n).Persists) (mode : Mode)
    (left n : Nat) {s : Scene V} (hc : s.Continues h.world) :
    s.Continues (Host.attempts sole mode body left n h).2.world := by
  induction left generalizing n h with
  | zero =>
    exact hc.trans fun past hs => (hb (n + 1)).attempt hs mode
  | succ left ih =>
    have hstep : s.Continues (h.attempt sole mode (body (n + 1))).2.world :=
      hc.trans fun past hs => (hb (n + 1)).attempt hs mode
    unfold Host.attempts
    generalize h.attempt sole mode (body (n + 1)) = o at hstep
    obtain ⟨err | a, h'⟩ := o
    · dsimp only
      split
      · exact ih (n + 1) hstep
      · exact hstep
    · exact hstep

theorem upholds_onward {f : World V → Context V → Except Error α × Context V}
    (hf : ∀ (w : World V) (x : Context V), x.Access w.store (f w x).2) (s : Scene V) :
    (Body.access f : Body V σ α).Upholds (fun x => x.engine = sole) fun h => s.Continues h.world :=
  upholds_access fun w x hx => (congrArg Life.engine (hf w x).life_eq).trans hx

end Body

mutual

/-- A program keeps every run of the engine going, whatever it lets others do. -/
theorem Program.upholds_onward : (p : Program V R) → p.Local → ∀ s : Scene V,
    (p.run : Body V σ R).Upholds (fun x => x.engine = sole) fun h => s.Continues h.world
  | .done _, _, _ => fun _ hx hK => ⟨hx, hK⟩
  | .fail _, _, _ => fun _ hx hK => ⟨hx, hK⟩
  | .read c next, hp, s =>
    .attempt_bind (Body.upholds_onward (fun _ _ => .read c) s)
      fun r => (next r).upholds_onward (hp r) s
  | .write c value next, hp, s =>
    .attempt_bind (Body.upholds_onward (fun _ _ => .write c value) s)
      fun r => (next r).upholds_onward (hp r) s
  | .put a delta next, hp, s =>
    .attempt_bind (Body.upholds_onward (fun _ _ => .put a delta) s)
      fun r => (next r).upholds_onward (hp r) s
  | .get a next, hp, s =>
    .attempt_bind (Body.upholds_onward (fun _ _ => .get a) s)
      fun r => (next r).upholds_onward (hp r) s
  | .stage under target value next, hp, s =>
    .attempt_bind (Body.upholds_onward (fun _ _ => .stage under target value) s)
      fun r => (next r).upholds_onward (hp r) s
  | .nested body next, hp, s =>
    .attempt_bind ((body.upholds_onward hp.1 s).nested s.invariant_continues)
      fun r => (next r).upholds_onward (hp.2 r) s
  | .parallel size mode body next, hp, s =>
    .attempt_bind (Body.upholds_parallel s.invariant_continues fun task ht run => by
      obtain ⟨i, rfl⟩ := List.mem_ofFn.1 ht
      exact (body i).upholds_onward (hp.1 i) s) fun r => (next r).upholds_onward (hp.2 r) s
  | .aside action next, hp, s => fun t hx hK =>
    have haside := Body.upholds_aside (f := fun h => ((), action.run h)) s.invariant_continues
      (fun g hg => hg.trans fun past hs => action.run_onward hp.1 hs) t hx hK
    next.upholds_onward hp.2 s _ haside.1 haside.2

/-- Every run of the engine goes on over an action. -/
theorem Action.run_onward : (a : Action V R) → a.Local → ∀ {run : List (Context V)}
    {past : History V} {h : Host V σ}, (⟨h.world, run, past⟩ : Scene V).Sound →
      Scene.Continues ⟨h.world, run, past⟩ (a.run h).world
  | .create e type value, ha, run, past, h, hs => by
    cases ha
    exact ⟨hs.step (.create type value), .of_eq rfl rfl⟩
  | .begin e mode, ha, run, past, h, hs => by
    cases ha
    have hbegin : h.world.Spares (h.world.begin sole mode).2 := .of_eq rfl rfl
    exact ⟨(hs.step (.begin mode)).hold, hbegin.trans (World.spares_hold _ _)⟩
  | .perform k program, ha, run, past, h, hs => by
    unfold Action.run
    cases ho : h.onHeld k (program.run : Body V σ R) with
    | none => exact hs.continues
    | some o =>
      exact Body.Persists.onHeld ⟨program.upholds_onward ha, program.life_run⟩ hs ho
  | .commit k, _, run, past, h, hs => by
    exact hs.consume k fun x w past hs' => ⟨hs'.refl.commit, w.spares_commit x⟩
  | .abort k, _, run, past, h, hs => by
    exact hs.consume k fun x w past hs' => ⟨hs'.refl.abort _, .of_eq rfl rfl⟩
  | .discard k, _, run, past, h, hs => by
    exact hs.consume k fun x w past hs' => ⟨hs'.refl.abort _, .of_eq rfl rfl⟩
  | .park e k, ha, run, past, h, hs => by
    cases ha
    exact hs.consume k fun x w past hs' => ⟨hs'.refl.park, w.spares_park sole x⟩
  | .unpark e txn, ha, run, past, h, hs => by
    cases ha
    unfold Action.run
    rcases hs.unpark txn with ⟨err, hu⟩ | ⟨x, w, hu, hon, hspares⟩
    · rw [hu]
      exact hs.continues
    · rw [hu]
      exact ⟨hon.hold, hspares.trans (w.spares_hold x)⟩
  | .abortParked e txn, ha, run, past, h, hs => by
    cases ha
    unfold Action.run World.abortParked
    rcases hs.unpark txn with ⟨err, hu⟩ | ⟨x, w, hu, hon, hspares⟩
    · rw [hu]
      exact hs.continues
    · rw [hu]
      exact ⟨hon.abort _, hspares.trans (.of_eq rfl rfl)⟩
  | .bind t k, _, run, past, h, hs => by
    exact hs.consume k fun x w past hs' => ⟨hs'.refl.bind t, w.spares_bind t x⟩
  | .unbind t, _, run, past, h, hs => by
    unfold Action.run
    rcases hs.detach t with ⟨err, hd⟩ | ⟨x, w, hd, hon, hspares⟩
    · rw [hd]
      exact hs.continues
    · rw [hd]
      exact ⟨hon.hold, hspares.trans (w.spares_hold x)⟩
  | .beginBound t e mode, ha, run, past, h, hs => by
    cases ha
    unfold Action.run World.beginBound
    split
    · exact hs.continues
    · have hbegin : h.world.Spares (h.world.begin sole mode).2 := .of_eq rfl rfl
      exact ⟨(hs.step (.begin mode)).bind t, hbegin.trans (World.spares_bind _ t _)⟩
  | .withBound t program, ha, run, past, h, hs =>
    Body.Persists.withBound ⟨program.upholds_onward ha, program.life_run⟩ hs t
  | .commitBound t, _, run, past, h, hs => by
    unfold Action.run World.commitBound
    rcases hs.detach t with ⟨err, hd⟩ | ⟨x, w, hd, hon, hspares⟩
    · rw [hd]
      exact hs.continues
    · rw [hd]
      exact ⟨hon.commit, hspares.trans (w.spares_commit x)⟩
  | .abortBound t, _, run, past, h, hs => by
    unfold Action.run World.abortBound
    rcases hs.detach t with ⟨err, hd⟩ | ⟨x, w, hd, hon, hspares⟩
    · rw [hd]
      exact hs.continues
    · rw [hd]
      exact ⟨hon.abort _, hspares.trans (.of_eq rfl rfl)⟩
  | .parkBound t e, ha, run, past, h, hs => by
    cases ha
    unfold Action.run World.parkBound
    rcases hs.detach t with ⟨err, hd⟩ | ⟨x, w, hd, hon, hspares⟩
    · rw [hd]
      exact hs.continues
    · rw [hd]
      exact ⟨hon.park, hspares.trans (w.spares_park sole x)⟩
  | .unparkBound t e txn, ha, run, past, h, hs => by
    cases ha
    unfold Action.run World.unparkBound
    split
    · exact hs.continues
    · rcases hs.unpark txn with ⟨err, hu⟩ | ⟨x, w, hu, hon, hspares⟩
      · rw [hu]
        exact hs.continues
      · rw [hu]
        exact ⟨hon.bind t, hspares.trans (w.spares_bind t x)⟩
  | .atomically e mode program, ha, run, past, h, hs => by
    obtain ⟨rfl, hp⟩ := ha
    exact Body.Persists.attempts (fun _ => ⟨program.upholds_onward hp, program.life_run⟩) mode _ 0
      (hs.continues)
  | .reclaim e, ha, run, past, h, hs => by
    cases ha
    exact ⟨hs.step .reclaim, .of_eq rfl rfl⟩

end

end VersionedMemory
