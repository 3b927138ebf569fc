import VersionedMemory.Proofs.Chronicle

/-!
# Keeping a chronicle changes nothing

A run with a chronicle comes to the world that the run comes to. Programs that are told of end on
the same context and with the same result. What they tell stands beside that result, where children
and batches pass it on and never look at it.

## Main definitions

* `Body.mapped` is a body with another form of result.
* `Telling.outcome` is what is told of, without what it tells.

## Main statements

* `Body.nested_mapped` and `Body.parallel_mapped`: children and batches do not look at results.
* `Action.world_told`: an action that is told of does to the world what the action does.
* `world_chronicled`: a run with a chronicle comes to the world that the run comes to.
-/

namespace VersionedMemory

variable {V σ τ α β R : Type}

/-- A telling without what it tells. -/
def Telling.outcome (f : Telling V R) : Body V (Chronicle V) R := fun s =>
  let ((o, _), s) := f s
  (o, s)

namespace Body

/-- A body with another form of result. -/
def mapped (g : α → β) (body : Body V σ α) : Body V σ β := fun s =>
  let (r, s) := body.run s
  (r.map g, s)

end Body

theorem Telling.ending_mapped (f : Telling V R) : f.ending.mapped Prod.fst = f.outcome := by
  funext s
  unfold Body.mapped Telling.ending Telling.outcome
  dsimp only [ExceptT.run]
  rcases f s with ⟨⟨e | a, ds⟩, t⟩ <;> rfl

theorem Body.gathered_mapped (body : Body V σ (List (R × List (Deed V)))) :
    body.gathered.mapped Prod.fst = body.mapped (List.map Prod.fst) := by
  funext s
  unfold Body.mapped Body.gathered
  dsimp only [ExceptT.run]
  rcases body s with ⟨e | l, t⟩ <;> rfl

def Task.mapped (g : α → β) (task : Task V σ α) : Task V σ β :=
  ⟨task.mode, fun run => (task.body run).mapped g⟩

/-! ### Results are passed on -/

namespace Body

def recast (g : α → β) (o : Except Error (α × Contribution V)) :
    Except Error (β × Contribution V) :=
  o.map fun p => (g p.1, p.2)

theorem handOver_map (g : α → β) (o : Except Error α × Context V) :
    handOver (o.1.map g, o.2) = recast g (handOver o) := by
  unfold handOver recast
  cases o.1 with
  | error e => rfl
  | ok a => cases h : o.2.contribution? <;> simp [Except.bind, Except.map]

@[simp] theorem outcomeHolds_recast (g : α → β) (o : Except Error (α × Contribution V)) :
    outcomeHolds (recast g o) = outcomeHolds o := by
  cases o <;> rfl

variable (g : α → β)

theorem inChild_mapped (body : Body V σ α) (x : Context V) (kind : ChildKind)
    (below : List (Layer V)) (shared : Option (WriteSet V)) (h : Host V σ) :
    (body.mapped g).inChild x kind below shared h =
      (((body.inChild x kind below shared h).1.1.map g, (body.inChild x kind below shared h).1.2),
        (body.inChild x kind below shared h).2) := rfl

theorem nested_mapped (body : Body V σ α) : nested (body.mapped g) = (nested body).mapped g := by
  funext s
  change (nested (body.mapped g)).run s = (((nested body).run s).1.map g, ((nested body).run s).2)
  rw [run_nested, run_nested]
  cases s.context.checkActive with
  | error e => rfl
  | ok =>
    have hchild : s.host.pinning s.context.holds
          ((body.mapped g).inChild s.context .nested s.context.layers none) =
        let o := s.host.pinning s.context.holds
          (body.inChild s.context .nested s.context.layers none)
        ((o.1.1.map g, o.1.2), o.2) := rfl
    dsimp only
    rw [hchild]
    dsimp only
    rw [handOver_map]
    cases handOver (s.host.pinning s.context.holds
      (body.inChild s.context .nested s.context.layers none)).1 with
    | error e => rfl
    | ok ae =>
      dsimp only [recast, Except.map]
      cases (s.context.adopt ae.2).1 <;> simp

theorem performTask_mapped (x : Context V) (below : List (Layer V)) (task : Task V σ α) (run : Nat)
    (shared : WriteSet V) (h : Host V σ) :
    performTask x below (task.mapped g) run shared h =
      (recast g (performTask x below task run shared h).1,
        (performTask x below task run shared h).2) := by
  unfold performTask Task.mapped
  dsimp only
  rw [inChild_mapped]
  dsimp only
  rw [handOver_map]

theorem firstRuns_mapped (x : Context V) (tasks : List (Task V σ α)) (shared : WriteSet V)
    (h : Host V σ) : firstRuns x (tasks.map (·.mapped g)) shared h =
      (((firstRuns x tasks shared h).1.1.map (recast g), (firstRuns x tasks shared h).1.2),
        (firstRuns x tasks shared h).2) := by
  induction tasks generalizing shared h with
  | nil => rfl
  | cons task rest ih =>
    simp only [List.map_cons, firstRuns, performTask_mapped, outcomeHolds_recast, Host.pinning, ih]

theorem settle_mapped (x : Context V) (task : Task V σ α) (a : α) (e : Contribution V)
    (b : Batch V) (shared : Option (WriteSet V)) (h : Host V σ) :
    settle x (task.mapped g) (g a) e b shared h =
      ((settle x task a e b shared h).1.map fun p => (g p.1, p.2),
        (settle x task a e b shared h).2) := by
  have hmode : (task.mapped g).mode = task.mode := rfl
  unfold settle
  rw [hmode]
  cases task.mode with
  | disjoint => rfl
  | shared =>
    cases shared with
    | none => rfl
    | some ws =>
      dsimp only
      cases (b.addWrites ws).1 <;> rfl
  | checked =>
    dsimp only
    cases b.clash e with
    | none => rfl
    | some c =>
      dsimp only
      rw [performTask_mapped]
      dsimp only [recast]
      cases (performTask x (b.layers x.layers) task 2 ∅ _).1 <;> rfl

theorem mergeRuns_mapped (x : Context V)
    (outcomes : List (Task V σ α × Except Error (α × Contribution V))) (b : Batch V)
    (shared : Option (WriteSet V)) (h : Host V σ) :
    mergeRuns x (outcomes.map (Prod.map (·.mapped g) (recast g))) b shared h =
      ((mergeRuns x outcomes b shared h).1.map fun p => (p.1.map g, p.2),
        (mergeRuns x outcomes b shared h).2) := by
  induction outcomes generalizing b shared h with
  | nil => rfl
  | cons o rest ih =>
    obtain ⟨task, err | ⟨a, e⟩⟩ := o
    · rfl
    · have hwaiting : (rest.map (Prod.map (·.mapped g) (recast g))).flatMap
            (fun o => outcomeHolds o.2) = rest.flatMap fun o => outcomeHolds o.2 := by
        simp [List.flatMap_map]
      have hset : ∀ cells, h.pinning cells (settle x (task.mapped g) (g a) e b shared) =
          ((h.pinning cells (settle x task a e b shared)).1.map fun p => (g p.1, p.2),
            (h.pinning cells (settle x task a e b shared)).2) := by
        intro cells
        simp only [Host.pinning, settle_mapped]
      have hmode : (task.mapped g).mode = task.mode := rfl
      change mergeRuns x ((task.mapped g, .ok (g a, e)) ::
        rest.map (Prod.map (·.mapped g) (recast g))) b shared h = _
      unfold mergeRuns
      dsimp only
      rw [hwaiting, hset, hmode]
      generalize h.pinning _ (settle x task a e b shared) = o
      obtain ⟨err | ⟨a', e', b'⟩, h'⟩ := o
      · rfl
      · dsimp only [Except.map]
        rcases b'.add e' with ⟨err | u, b''⟩
        · rfl
        · dsimp only
          rw [ih]
          cases (mergeRuns x rest b'' _ h').1 <;> rfl

theorem parallel_mapped (tasks : List (Task V σ α)) :
    parallel (tasks.map (·.mapped g)) = (parallel tasks).mapped (List.map g) := by
  funext s
  change (parallel (tasks.map (·.mapped g))).run s =
    (((parallel tasks).run s).1.map (List.map g), ((parallel tasks).run s).2)
  rw [run_parallel, run_parallel]
  cases s.context.checkActive with
  | error e => rfl
  | ok =>
    simp only [Host.pinning, firstRuns_mapped, List.zip_map, mergeRuns_mapped]
    generalize mergeRuns s.context _ _ _ _ = o
    obtain ⟨err | ⟨as, b⟩, h⟩ := o
    · rfl
    · dsimp only [Except.map]
      cases (s.context.adopt b.merged).1 <;> rfl

end Body

/-! ### Programs and actions -/

/-- Bodies that run with a chronicle, and bodies that run without one. -/
abbrev Coupling.telling (V τ : Type) : Coupling V (Chronicle V) τ :=
  oneWorld (fun _ => True) fun _ => True

namespace Coupling

/-- On one world, bodies come to the same wherever they run. -/
theorem bodies_of_runOn {body : Body V (Chronicle V) α} {body' : Body V τ α}
    (hb : ∀ x (h : Host V (Chronicle V)) (h' : Host V τ), h'.world = h.world →
      (body'.runOn x h').1 = (body.runOn x h).1 ∧
        (body'.runOn x h').2.world = (body.runOn x h).2.world) :
    (telling V τ).Bodies body body' where
  meets _ _ _ := ⟨trivial, trivial⟩
  parted _ _ hp := hp.elim
  agree {x h h'} _ hr := by
    obtain ⟨ho, hw⟩ := hb x h h' hr.1
    rw [move_oneWorld]
    exact .inr ⟨ho.trans (by rw [move_oneWorld]), hw, trivial, trivial⟩

theorem Bodies.same {body : Body V (Chronicle V) α} {body' : Body V τ α}
    (hb : (telling V τ).Bodies body body') (x : Context V) {h : Host V (Chronicle V)}
    {h' : Host V τ} (hw : h'.world = h.world) :
    (body'.runOn x h').1 = (body.runOn x h).1 ∧
      (body'.runOn x h').2.world = (body.runOn x h).2.world := by
  obtain ⟨ho, hw', -⟩ := hb.runOn_eq ⟨hw, trivial, trivial⟩ x
  exact ⟨ho, hw'⟩

variable {body : Body V (Chronicle V) (α × List (Deed V))} {body' : Body V τ α}
  {f : Telling V R} {p : Body V τ R}

/-- An access does not show that it is told of. -/
theorem bodies_telling (c : CellId) (does : Store V → Context V → List (Deed V))
    (g : World V → Context V → Except Error α × Context V) :
    (telling V τ).Bodies (((Body.access g).telling c does).mapped Prod.fst) (Body.access g) := by
  refine bodies_of_runOn fun x h h' hw => ?_
  change ((g h'.world x).1, (g h'.world x).2) =
    (((g h.world x).1.map fun a => (a, does h.world.store x)).map Prod.fst, (g h.world x).2) ∧ _
  rw [hw]
  refine ⟨?_, hw⟩
  cases (g h.world x).1 <;> rfl

/-- Neither a call nor what comes after it shows that it is told of. -/
theorem Bodies.andTell {next : Except Error α → Telling V R} {next' : Except Error α → Body V τ R}
    (hb : (telling V τ).Bodies (body.mapped Prod.fst) body')
    (hn : ∀ r, (telling V τ).Bodies (next r).outcome (next' r)) :
    (telling V τ).Bodies (body.andTell next).outcome (body'.attempt >>= next') := by
  refine bodies_of_runOn fun x h h' hw => ?_
  obtain ⟨ho, hw'⟩ := hb.same x hw
  have hrun : (body'.attempt >>= next').runOn x h' =
    (next' (body'.runOn x h').1.1).runOn (body'.runOn x h').1.2 (body'.runOn x h').2 := rfl
  rw [hrun, ho]
  exact (hn _).same (h := { (body.runOn x h).2 with
    client := (body.runOn x h).2.client.fail (body.runOn x h).1.1 }) _ hw'

theorem Bodies.crediting (hb : (telling V τ).Bodies f.outcome p) :
    (telling V τ).Bodies f.crediting p :=
  bodies_of_runOn fun x _ _ hw => hb.same x hw

theorem Bodies.bidding (hb : (telling V τ).Bodies f.outcome p) :
    (telling V τ).Bodies f.bidding p := by
  refine bodies_of_runOn fun x h h' hw => ?_
  have hbid : (f.bidding.runOn x h).1 = (f.outcome.runOn x h).1 ∧
      (f.bidding.runOn x h).2.world = (f.outcome.runOn x h).2.world := by
    change ((f.bidding ⟨x, h⟩).1, (f.bidding ⟨x, h⟩).2.context) =
        ((f.outcome ⟨x, h⟩).1, (f.outcome ⟨x, h⟩).2.context) ∧
      (f.bidding ⟨x, h⟩).2.host.world = (f.outcome ⟨x, h⟩).2.host.world
    unfold Telling.bidding Telling.outcome
    rcases f ⟨x, h⟩ with ⟨⟨e | a, ds⟩, t⟩ <;> exact ⟨rfl, rfl⟩
  rw [hbid.1, hbid.2]
  exact hb.same x hw

end Coupling

open Coupling

variable [Inhabited V]

mutual

/-- A program that is told of comes to what the program comes to. -/
theorem Program.told_bodies : (p : Program V R) →
    (telling V τ).Bodies p.told.outcome (p.run : Body V τ R)
  | .done _ => bodies_of_runOn fun _ _ _ hw => ⟨rfl, hw⟩
  | .fail _ => bodies_of_runOn fun _ _ _ hw => ⟨rfl, hw⟩
  | .read _ next => (bodies_telling _ _ _).andTell fun r => (next r).told_bodies
  | .write _ _ next => (bodies_telling _ _ _).andTell fun r => (next r).told_bodies
  | .put _ _ next => (bodies_telling _ _ _).andTell fun r => (next r).told_bodies
  | .get _ next => (bodies_telling _ _ _).andTell fun r => (next r).told_bodies
  | .stage _ _ _ next => (bodies_telling _ _ _).andTell fun r => (next r).told_bodies
  | .nested body next => by
    refine Bodies.andTell ?_ fun r => (next r).told_bodies
    rw [← Body.nested_mapped, Telling.ending_mapped]
    exact body.told_bodies.nested lawful_oneWorld
  | .parallel size mode body next => by
    have htasks := bodies_parallel (C := telling V τ) lawful_oneWorld
      (List.ofFn fun i : Fin size =>
        (⟨mode i, fun _ => (body i).told.outcome⟩, ⟨mode i, fun _ => (body i).run⟩))
      fun p hp => by
        obtain ⟨i, rfl⟩ := List.mem_ofFn.1 hp
        exact ⟨rfl, fun _ => (body i).told_bodies⟩
    have hbatch : (telling V τ).Bodies
        ((Body.parallel (List.ofFn fun i : Fin size =>
          (⟨mode i, fun _ => (body i).told.ending⟩ :
            Task V (Chronicle V) (R × List (Deed V))))).gathered.mapped Prod.fst)
        (Body.parallel (List.ofFn fun i : Fin size =>
          (⟨mode i, fun _ => (body i).run⟩ : Task V τ R))) := by
      rw [List.map_ofFn, List.map_ofFn] at htasks
      rw [Body.gathered_mapped, ← Body.parallel_mapped, List.map_ofFn]
      simpa only [Function.comp_def, Task.mapped, Telling.ending_mapped] using htasks
    exact hbatch.andTell fun r => (next r).told_bodies
  | .aside action next => by
    refine bodies_of_runOn fun x h h' hw => ?_
    have hpin : ({ h' with world.pinned := x.holds ++ h'.world.pinned } : Host V τ).world =
        ({ h with world.pinned := x.holds ++ h.world.pinned } : Host V (Chronicle V)).world := by
      dsimp only
      rw [hw]
    have haside : (h'.pinning x.holds fun h => ((), action.run h)).2.world =
        (h.pinning x.holds fun h => ((), action.told h)).2.world := by
      unfold Host.pinning
      dsimp only
      rw [action.world_told hpin, hw]
    exact next.told_bodies.same x haside

/-- An action that is told of does to the world what the action does. -/
theorem Action.world_told : (a : Action V R) → ∀ {h : Host V (Chronicle V)} {h' : Host V τ},
    h'.world = h.world → (a.run h').world = (a.told h).world
  | .perform k program, h, h', hw => by
    unfold Action.told Action.run
    rcases program.told_bodies.crediting.onHeld ⟨hw, trivial, trivial⟩ k with
      ⟨ho, ho'⟩ | ⟨o, o', ho, ho', hr⟩
    · rw [ho, ho']
      exact hw
    · rw [ho, ho']
      exact hr.1
  | .withBound t program, h, h', hw =>
    (program.told_bodies.crediting.withBound ⟨hw, trivial, trivial⟩ t).1
  | .atomically e mode program, h, h', hw => by
    unfold Action.told Action.run Host.atomically
    rw [hw]
    exact (program.told_bodies.bidding.attempts e mode _ 0 ⟨hw, trivial, trivial⟩).1
  | .create e type value, h, h', hw => by
    simp only [Action.told, Action.run, hw]
  | .commit k, h, h', hw => by
    unfold Action.told Action.run World.consume
    rw [hw]
    cases h.world.take k <;> rfl
  | .commitBound t, h, h', hw => by
    unfold Action.told Action.run World.commitBound
    rw [hw]
    rcases h.world.detach t with ⟨_ | _, _⟩ <;> rfl
  | .begin e mode, h, h', hw
  | .abort k, h, h', hw
  | .discard k, h, h', hw
  | .park e k, h, h', hw
  | .unpark e txn, h, h', hw
  | .abortParked e txn, h, h', hw
  | .bind t k, h, h', hw
  | .unbind t, h, h', hw
  | .beginBound t e mode, h, h', hw
  | .abortBound t, h, h', hw
  | .parkBound t e, h, h', hw
  | .unparkBound t e txn, h, h', hw
  | .reclaim e, h, h', hw => by
    simp only [Action.told, Action.run, hw]

end

/-- A run with a chronicle comes to the world that the run comes to, whatever the state of the
caller. -/
theorem world_chronicled (config : Config) (hooks : Hooks) (actions : List (Action V R)) (c : τ) :
    (actions.foldl (fun h a => a.run h)
      (⟨World.create [Engine.create config hooks], c⟩ : Host V τ)).world =
        (chronicled config hooks actions).world := by
  have hrun : ∀ (actions : List (Action V R)) (h : Host V (Chronicle V)) (h' : Host V τ),
      h'.world = h.world → (actions.foldl (fun h a => a.run h) h').world =
        (actions.foldl (fun h a => a.told h) h).world := by
    intro actions
    induction actions with
    | nil => exact fun _ _ hw => hw
    | cons a rest ih => exact fun h h' hw => ih _ _ (a.world_told hw)
  exact hrun actions _ _ rfl

end VersionedMemory
