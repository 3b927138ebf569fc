import VersionedMemory.Proofs.ProgramSteps
import VersionedMemory.Proofs.ReadSets
import VersionedMemory.Proofs.Tracing

/-!
# The chronicle of a run

A run with a chronicle does what the run does, and keeps beside the world what the transactions did
to cells: which committed records they read and what they put, themselves or in children that were
merged. What a child did that failed is forgotten, and so is the first run of a task that ran again.
The chronicle also has every commit that was asked for, and every failure.

## Main definitions

* `Deed` is one thing that a transaction did, `Bid` is a commit that was asked for.
* `Chronicle` is what is kept of a run.
* `Program.told` and `Action.told` run a program and an action, and add to the chronicle.
* `Program.Abides` and `Action.Abides` say that bodies keep to a discipline, and raise no errors of
  their own but those of a given kind.

## Main statements

* `Program.told_goes` and `Action.told_goes`: runs of the engine go on over what is told of.
-/

namespace VersionedMemory

variable {V σ α R : Type}

/-- What a transaction did to a cell, as far as its commit depends on it. -/
inductive Deed (V : Type) where
  /-- Read a committed record, where no pending write covered the cell. -/
  | read (cell : CellId) (record : Record V)
  | put (acc : Accumulator V) (delta : V)

/-- A commit that was asked for: the world and the transaction before it, and what that did. -/
structure Bid (V : Type) where
  world : World V
  context : Context V
  deeds : List (Deed V)

/-- What is kept of a run. -/
structure Chronicle (V : Type) where
  /-- What each transaction has done. -/
  deeds : TxnId → List (Deed V) := fun _ => []
  bids : List (Bid V) := []
  /-- The errors that accesses, children and batches ended in. -/
  failures : List Error := []
  /-- Cells that were asked for before there were any. -/
  strays : List CellId := []
  /-- The cells, with the values that they were created with. -/
  births : List (CellId × V) := []

namespace Chronicle

def fail (k : Chronicle V) (r : Except Error α) : Chronicle V :=
  match r with
  | .ok _ => k
  | .error e => { k with failures := k.failures ++ [e] }

def stray (k : Chronicle V) (s : Store V) (c : CellId) : Chronicle V :=
  if s.Has c then k else { k with strays := k.strays ++ [c] }

def credit (k : Chronicle V) (id : TxnId) (ds : List (Deed V)) : Chronicle V :=
  { k with deeds := fun i => if i = id then ds else k.deeds i }

def bid (k : Chronicle V) (world : World V) (context : Context V) (ds : List (Deed V)) :
    Chronicle V :=
  { k with bids := k.bids ++ [⟨world, context, ds⟩] }

def birth (k : Chronicle V) (c : CellId) (value : V) : Chronicle V :=
  { k with births := k.births ++ [(c, value)] }

end Chronicle

/-- A run that gives what it came to and what was done, and goes on from failures. -/
abbrev Telling (V R : Type) :=
  Session V (Chronicle V) → (Except Error R × List (Deed V)) × Session V (Chronicle V)

/-- What was done in a call, which is forgotten where the call failed. -/
def deedsOf (r : Except Error (α × List (Deed V))) : List (Deed V) :=
  match r with
  | .ok (_, ds) => ds
  | .error _ => []

namespace Body

/-- An access to a cell, with what it does to the cell. -/
def telling (c : CellId) (does : Store V → Context V → List (Deed V))
    (body : Body V (Chronicle V) α) : Body V (Chronicle V) (α × List (Deed V)) := fun s =>
  let store := s.host.world.store
  let (r, t) := body.run s
  (r.map fun a => (a, does store s.context),
    { t with host.client := t.host.client.stray store c })

/-- What the tasks of a batch did is what the batch did. -/
def gathered (body : Body V σ (List (R × List (Deed V)))) :
    Body V σ (List R × List (Deed V)) := fun s =>
  let (r, t) := body.run s
  (r.map fun l => (l.map Prod.fst, l.flatMap Prod.snd), t)

/-- A call, and what comes after it. -/
def andTell (body : Body V (Chronicle V) (α × List (Deed V)))
    (next : Except Error α → Telling V R) : Telling V R := fun s =>
  let (r, s) := body.run s
  let ((o, ds), s) := next (r.map Prod.fst) { s with host.client := s.host.client.fail r }
  ((o, deedsOf r ++ ds), s)

end Body

namespace Telling

/-- A telling as the body of a child. -/
def ending (f : Telling V R) : Body V (Chronicle V) (R × List (Deed V)) := fun s =>
  let ((o, ds), s) := f s
  (o.map fun a => (a, ds), s)

/-- A telling on a transaction that is not at its end, which is credited with what it did. -/
def crediting (f : Telling V R) : Body V (Chronicle V) R := fun s =>
  let before := s.host.client.deeds s.context.id
  let ((o, ds), s) := f s
  (o, { s with host.client := s.host.client.credit s.context.id (before ++ ds) })

/-- A telling on a transaction that is committed next, if the telling succeeds. -/
def bidding (f : Telling V R) : Body V (Chronicle V) R := fun s =>
  let ((o, ds), s) := f s
  match o with
  | .ok a => (.ok a, { s with host.client := s.host.client.bid s.host.world s.context ds })
  | .error e => (.error e, s)

end Telling

variable [Inhabited V]

def Bid.answer (b : Bid V) : Except Error Receipt := (b.world.commit b.context).1

mutual

/-- Run a program, and tell what it does. -/
def Program.told : Program V R → Telling V R
  | .done result => fun s => ((.ok result, []), s)
  | .fail error => fun s => ((.error error, []), s)
  | .read c next =>
    ((Body.read c).telling c fun s x => (x.sighted s c).toList.map (.read c)).andTell
      fun r => (next r).told
  | .write c value next =>
    ((Body.write c value).telling c fun _ _ => []).andTell fun r => (next r).told
  | .put a delta next =>
    ((Body.put a delta).telling a.base fun _ _ => [.put a delta]).andTell fun r => (next r).told
  | .get a next =>
    ((Body.get a).telling a.base fun s x => (x.sighted s a.base).toList.map (.read a.base)).andTell
      fun r => (next r).told
  | .stage under target value next =>
    ((Body.stage under target value).telling target fun _ _ => []).andTell fun r => (next r).told
  | .nested body next => (Body.nested body.told.ending).andTell fun r => (next r).told
  | .parallel _ mode body next =>
    let tasks := List.ofFn fun i =>
      ({ mode := mode i, body := fun _ => (body i).told.ending } :
        Task V (Chronicle V) (R × List (Deed V)))
    (Body.parallel tasks).gathered.andTell fun r => (next r).told
  | .aside action next => fun s =>
    next.told ((Body.aside fun h => ((), action.told h)).run s).2

/-- Do what an action does, and tell of it. -/
def Action.told : Action V R → Host V (Chronicle V) → Host V (Chronicle V)
  | .create e type value, h =>
    let (c, world) := h.world.createCell e type value
    ⟨world, h.client.birth c value⟩
  | .perform k program, h =>
    match h.onHeld k program.told.crediting with
    | some (_, h) => h
    | none => h
  | .withBound t program, h => (h.withBound t program.told.crediting).2
  | .commit k, h =>
    match h.world.take k with
    | some (x, w) => ⟨(w.commit x).2, h.client.bid w x (h.client.deeds x.id)⟩
    | none => h
  | .commitBound t, h =>
    match h.world.detach t with
    | (.ok x, w) => ⟨(w.commit x).2, h.client.bid w x (h.client.deeds x.id)⟩
    | (.error _, w) => { h with world := w }
  | .atomically e mode program, h =>
    (h.atomically e mode fun _ => program.told.bidding).2
  | action, h => action.run h

end

/-- A new engine after actions, one after the other, with what they did. -/
def chronicled (config : Config) (hooks : Hooks) (actions : List (Action V R)) :
    Host V (Chronicle V) :=
  actions.foldl (fun h a => a.told h) ⟨World.create [Engine.create config hooks], {}⟩

/-- If the result is an error, it is one of the given kind. -/
def FailsIn (F : Error → Prop) (r : Except Error α) : Prop := ∀ e, r = .error e → F e

mutual

/-- The accesses of the program, children included, keep to the discipline, and nothing is staged by
hand. The errors that bodies raise are of the given kind, as long as those that they meet are. -/
def Program.Abides (D : Discipline V) (F : Error → Prop) : Program V R → Prop
  | .done _ => True
  | .fail error => F error
  | .read _ next => ∀ r, FailsIn F r → (next r).Abides D F
  | .write c value next =>
    (∀ type, D.write c ⟨c, type, .assign value⟩) ∧ ∀ r, FailsIn F r → (next r).Abides D F
  | .put a delta next =>
    (∀ type, D.delta a.base ⟨a.base, type, .combine a.op delta⟩) ∧
      ∀ r, FailsIn F r → (next r).Abides D F
  | .get _ next => ∀ r, FailsIn F r → (next r).Abides D F
  | .stage _ _ _ _ => False
  | .nested body next => body.Abides D F ∧ ∀ r, FailsIn F r → (next r).Abides D F
  | .parallel _ _ body next =>
    (∀ i, (body i).Abides D F) ∧ ∀ r, FailsIn F r → (next r).Abides D F
  | .aside action next => action.Abides D F ∧ next.Abides D F

/-- The bodies that the action runs keep to the discipline. -/
def Action.Abides (D : Discipline V) (F : Error → Prop) : Action V R → Prop
  | .perform _ program => program.Abides D F
  | .withBound _ program => program.Abides D F
  | .atomically _ _ program => program.Abides D F
  | _ => True

end

/-! ### What goes on -/

/-- A computation keeps every run of the engine going, and its context alive and in a mode that
records reads if it did. It forgets no access to a cell that was not there. -/
structure Session.Goes {τ : Type} (f : Session V (Chronicle V) → τ × Session V (Chronicle V)) :
    Prop where
  continues : ∀ (s : Scene V) (t : Session V (Chronicle V)),
    t.context.engine = sole → s.Continues t.host.world → s.Continues (f t).2.host.world
  life : ∀ t, (f t).2.context.life = t.context.life
  records : ∀ t, (f t).2.context.mode.recordsReads = t.context.mode.recordsReads
  strays : ∀ t, t.host.client.strays ⊆ (f t).2.host.client.strays

omit [Inhabited V] in
theorem Chronicle.strays_fail (k : Chronicle V) (r : Except Error α) :
    (k.fail r).strays = k.strays := by
  unfold fail
  split <;> rfl

omit [Inhabited V] in
theorem Chronicle.subset_strays_stray (k : Chronicle V) (s : Store V) (c : CellId) :
    k.strays ⊆ (k.stray s c).strays := by
  unfold stray
  split
  · exact fun _ hc => hc
  · exact fun _ hc => List.mem_append_left _ hc

omit [Inhabited V] in
theorem invariant_strays (strays : List CellId) :
    Host.Invariant (fun _ : Context V => True)
      fun h : Host V (Chronicle V) => strays ⊆ h.client.strays where
  pin _ hK := hK
  child _ _ _ _ hK := ⟨trivial, hK⟩
  rerun _ hK := hK
  adopt _ _ := trivial

namespace Session.Goes

variable {body : Body V (Chronicle V) α} {f : Telling V R}

theorem persists (h : Goes body.run) : body.Persists where
  upholds s t hx hK := ⟨(congrArg Life.engine (h.life t)).trans hx, h.continues s t hx hK⟩
  life := h.life

theorem upholds_strays (h : Goes body.run) (strays : List CellId) :
    body.Upholds (fun _ => True) fun g => strays ⊆ g.client.strays :=
  fun t _ hK => ⟨trivial, fun _ hc => h.strays t (hK hc)⟩

theorem nested (h : Goes body.run) : Goes (Body.nested body).run where
  continues s t hx hK := ((h.persists.upholds s).nested s.invariant_continues t hx hK).2
  life t := Body.context_nested (P := fun x => x.life = t.context.life) body rfl
    fun e => t.context.life_adopt e
  records t := Body.context_nested
    (P := fun x => x.mode.recordsReads = t.context.mode.recordsReads) body rfl
    fun e => (t.context.keeps_adopt e).recordsReads
  strays t :=
    ((h.upholds_strays _).nested (invariant_strays _) t trivial fun _ hc => hc).2

theorem parallel {tasks : List (Task V (Chronicle V) α)}
    (h : ∀ task ∈ tasks, ∀ run, Goes (task.body run).run) : Goes (Body.parallel tasks).run where
  continues s t hx hK :=
    (Body.upholds_parallel s.invariant_continues
      (fun task ht run => (h task ht run).persists.upholds s) t hx hK).2
  life t := Body.context_parallel (P := fun x => x.life = t.context.life) tasks rfl
    fun e => t.context.life_adopt e
  records t := Body.context_parallel
    (P := fun x => x.mode.recordsReads = t.context.mode.recordsReads) tasks rfl
    fun e => (t.context.keeps_adopt e).recordsReads
  strays t :=
    (Body.upholds_parallel (invariant_strays _)
      (fun task ht run => (h task ht run).upholds_strays _) t trivial fun _ hc => hc).2

theorem access {f : World V → Context V → Except Error α × Context V}
    (hf : ∀ (w : World V) (x : Context V), x.Access w.store (f w x).2) :
    Goes (Body.access f : Body V (Chronicle V) α).run where
  continues _ _ _ hK := hK
  life t := (hf t.host.world t.context).life_eq
  records t := (hf t.host.world t.context).keeps.recordsReads
  strays _ := fun _ hc => hc

theorem telling (h : Goes body.run) (c : CellId) (does : Store V → Context V → List (Deed V)) :
    Goes (body.telling c does).run where
  continues := h.continues
  life := h.life
  records := h.records
  strays t := fun _ hc => Chronicle.subset_strays_stray _ _ _ (h.strays t hc)

theorem gathered {body : Body V (Chronicle V) (List (R × List (Deed V)))} (h : Goes body.run) :
    Goes body.gathered.run :=
  ⟨h.continues, h.life, h.records, h.strays⟩

theorem andTell {body : Body V (Chronicle V) (α × List (Deed V))}
    {next : Except Error α → Telling V R} (h : Goes body.run) (hnext : ∀ r, Goes (next r)) :
    Goes (body.andTell next) where
  continues s t hx hK :=
    (hnext _).continues s _ ((congrArg Life.engine (h.life t)).trans hx) (h.continues s t hx hK)
  life t := ((hnext _).life _).trans (h.life t)
  records t := ((hnext _).records _).trans (h.records t)
  strays t := by
    refine fun c hc => (hnext ((body.run t).1.map Prod.fst)).strays _ ?_
    rw [Chronicle.strays_fail]
    exact h.strays t hc

theorem ending (h : Goes f) : Goes f.ending.run := ⟨h.continues, h.life, h.records, h.strays⟩

theorem crediting (h : Goes f) : Goes f.crediting.run := ⟨h.continues, h.life, h.records, h.strays⟩

theorem bidding (h : Goes f) : Goes f.bidding.run := by
  have hworld : ∀ t, (f.bidding.run t).2.host.world = (f t).2.host.world ∧
      (f.bidding.run t).2.context = (f t).2.context ∧
      (f.bidding.run t).2.host.client.strays = (f t).2.host.client.strays := by
    intro t
    change (f.bidding t).2.host.world = _ ∧ (f.bidding t).2.context = _ ∧
      (f.bidding t).2.host.client.strays = _
    unfold Telling.bidding
    dsimp only
    split <;> exact ⟨rfl, rfl, rfl⟩
  refine ⟨fun s t hx hK => ?_, fun t => ?_, fun t => ?_, fun t => ?_⟩
  · rw [(hworld t).1]
    exact h.continues s t hx hK
  · rw [(hworld t).2.1]
    exact h.life t
  · rw [(hworld t).2.1]
    exact h.records t
  · rw [(hworld t).2.2]
    exact h.strays t

end Session.Goes

/-- Attempts at a body forget no access to a cell that was not there. -/
theorem Session.Goes.strays_attempts {body : Nat → Body V (Chronicle V) α}
    (hb : ∀ n, Session.Goes (body n).run) (e : EngineId) (mode : Mode) (left n : Nat)
    (h : Host V (Chronicle V)) :
    h.client.strays ⊆ (Host.attempts e mode body left n h).2.client.strays := by
  have hattempt : ∀ (n : Nat) (h : Host V (Chronicle V)),
      h.client.strays ⊆ (h.attempt e mode (body n)).2.client.strays := by
    intro n h
    have hrun := (hb n).strays
      ⟨(h.world.begin e mode).1, { h with world := (h.world.begin e mode).2 }⟩
    unfold Host.attempt
    dsimp only
    split <;> exact hrun
  induction left generalizing n h with
  | zero => exact hattempt (n + 1) h
  | succ left ih =>
    have hstep := hattempt (n + 1) h
    unfold Host.attempts
    generalize h.attempt e mode (body (n + 1)) = o at hstep
    obtain ⟨err | a, g⟩ := o
    · dsimp only
      split
      · exact fun _ hc => ih (n + 1) g (hstep hc)
      · exact hstep
    · exact hstep

mutual

/-- A program that is told of keeps runs going. -/
theorem Program.told_goes : (p : Program V R) → p.Local → Session.Goes p.told
  | .done _, _ => ⟨fun _ _ _ hK => hK, fun _ => rfl, fun _ => rfl, fun _ _ hc => hc⟩
  | .fail _, _ => ⟨fun _ _ _ hK => hK, fun _ => rfl, fun _ => rfl, fun _ _ hc => hc⟩
  | .read c next, hp =>
    .andTell (.telling (.access fun _ _ => .read c) c _) fun r => (next r).told_goes (hp r)
  | .write c value next, hp =>
    .andTell (.telling (.access fun _ _ => .write c value) c _) fun r => (next r).told_goes (hp r)
  | .put a delta next, hp =>
    .andTell (.telling (.access fun _ _ => .put a delta) a.base _)
      fun r => (next r).told_goes (hp r)
  | .get a next, hp =>
    .andTell (.telling (.access fun _ _ => .get a) a.base _) fun r => (next r).told_goes (hp r)
  | .stage under target value next, hp =>
    .andTell (.telling (.access fun _ _ => .stage under target value) target _)
      fun r => (next r).told_goes (hp r)
  | .nested body next, hp =>
    .andTell (.nested (body.told_goes hp.1).ending) fun r => (next r).told_goes (hp.2 r)
  | .parallel size mode body next, hp =>
    .andTell (.gathered (.parallel fun task ht run => by
      obtain ⟨i, rfl⟩ := List.mem_ofFn.1 ht
      exact ((body i).told_goes (hp.1 i)).ending)) fun r => (next r).told_goes (hp.2 r)
  | .aside action next, hp =>
    have hnext := next.told_goes hp.2
    { continues := fun s t hx hK => hnext.continues s _ hx
        (Body.upholds_aside (f := fun h => ((), action.told h)) s.invariant_continues
          (fun g hg => hg.trans fun past hs => (action.told_goes hp.1 g).1 hs) t hx hK).2
      life := fun _ => hnext.life _
      records := fun _ => hnext.records _
      strays := fun t _ hc => hnext.strays _ ((action.told_goes hp.1 _).2 hc) }

/-- Every run of the engine goes on over an action that is told of. -/
theorem Action.told_goes : (a : Action V R) → a.Local → ∀ h : Host V (Chronicle V),
    (∀ {run : List (Context V)} {past : History V}, (⟨h.world, run, past⟩ : Scene V).Sound →
      Scene.Continues ⟨h.world, run, past⟩ (a.told h).world) ∧
      h.client.strays ⊆ (a.told h).client.strays
  | .create e type value, ha, h =>
    ⟨fun hs => (Action.create e type value : Action V R).run_onward ha hs, fun _ hc => hc⟩
  | .perform k program, ha, h => by
    have hgoes := (program.told_goes ha).crediting
    unfold Action.told
    cases ho : h.onHeld k program.told.crediting with
    | none => exact ⟨fun hs => hs.continues, fun _ hc => hc⟩
    | some o =>
      refine ⟨fun hs => hgoes.persists.onHeld hs ho, ?_⟩
      obtain ⟨⟨x, w⟩, -, rfl⟩ := Option.map_eq_some_iff.1 ho
      exact hgoes.strays ⟨x, { h with world := w }⟩
  | .withBound t program, ha, h => by
    have hgoes := (program.told_goes ha).crediting
    refine ⟨fun hs => hgoes.persists.withBound hs t, ?_⟩
    unfold Action.told Host.withBound
    rcases h.world.detach t with ⟨e | x, w⟩
    · exact fun _ hc => hc
    · exact hgoes.strays ⟨x, { h with world := w }⟩
  | .commit k, ha, h => by
    have hrun : ∀ {run past}, (⟨h.world, run, past⟩ : Scene V).Sound →
        Scene.Continues ⟨h.world, run, past⟩ ((Action.commit k : Action V R).run h).world :=
      fun hs => (Action.commit k : Action V R).run_onward ha hs
    unfold Action.run World.consume at hrun
    unfold Action.told
    split
    · next x w ht =>
      rw [ht] at hrun
      exact ⟨hrun, fun _ hc => hc⟩
    · next ht =>
      rw [ht] at hrun
      exact ⟨hrun, fun _ hc => hc⟩
  | .commitBound t, ha, h => by
    have hrun : ∀ {run past}, (⟨h.world, run, past⟩ : Scene V).Sound →
        Scene.Continues ⟨h.world, run, past⟩ ((Action.commitBound t : Action V R).run h).world :=
      fun hs => (Action.commitBound t : Action V R).run_onward ha hs
    unfold Action.run World.commitBound at hrun
    unfold Action.told
    split
    · next x w hd =>
      rw [hd] at hrun
      exact ⟨hrun, fun _ hc => hc⟩
    · next e w hd =>
      rw [hd] at hrun
      exact ⟨hrun, fun _ hc => hc⟩
  | .atomically e mode program, ha, h => by
    obtain ⟨rfl, hp⟩ := ha
    have hgoes := (program.told_goes hp).bidding
    exact ⟨fun hs => Body.Persists.attempts (fun _ => hgoes.persists) mode _ 0 hs.continues,
      Session.Goes.strays_attempts (fun _ => hgoes) sole mode _ 0 h⟩
  | .begin e mode, ha, h =>
    ⟨fun hs => (Action.begin e mode : Action V R).run_onward ha hs, fun _ hc => hc⟩
  | .abort k, ha, h =>
    ⟨fun hs => (Action.abort k : Action V R).run_onward ha hs, fun _ hc => hc⟩
  | .discard k, ha, h =>
    ⟨fun hs => (Action.discard k : Action V R).run_onward ha hs, fun _ hc => hc⟩
  | .park e k, ha, h =>
    ⟨fun hs => (Action.park e k : Action V R).run_onward ha hs, fun _ hc => hc⟩
  | .unpark e txn, ha, h =>
    ⟨fun hs => (Action.unpark e txn : Action V R).run_onward ha hs, fun _ hc => hc⟩
  | .abortParked e txn, ha, h =>
    ⟨fun hs => (Action.abortParked e txn : Action V R).run_onward ha hs, fun _ hc => hc⟩
  | .bind t k, ha, h =>
    ⟨fun hs => (Action.bind t k : Action V R).run_onward ha hs, fun _ hc => hc⟩
  | .unbind t, ha, h =>
    ⟨fun hs => (Action.unbind t : Action V R).run_onward ha hs, fun _ hc => hc⟩
  | .beginBound t e mode, ha, h =>
    ⟨fun hs => (Action.beginBound t e mode : Action V R).run_onward ha hs, fun _ hc => hc⟩
  | .abortBound t, ha, h =>
    ⟨fun hs => (Action.abortBound t : Action V R).run_onward ha hs, fun _ hc => hc⟩
  | .parkBound t e, ha, h =>
    ⟨fun hs => (Action.parkBound t e : Action V R).run_onward ha hs, fun _ hc => hc⟩
  | .unparkBound t e txn, ha, h =>
    ⟨fun hs => (Action.unparkBound t e txn : Action V R).run_onward ha hs, fun _ hc => hc⟩
  | .reclaim e, ha, h =>
    ⟨fun hs => (Action.reclaim e : Action V R).run_onward ha hs, fun _ hc => hc⟩

end

end VersionedMemory
