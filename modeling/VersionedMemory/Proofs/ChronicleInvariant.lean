import VersionedMemory.Proofs.BufferContents
import VersionedMemory.Proofs.TransactionMoves

/-!
# The chronicle is true

All along a run, what the chronicle has of a transaction is what its buffers show, every commit that
was asked for found a transaction in order, every failure is one that may be, and the value of every
cell is what the published commits make of its first value. A body that is told of keeps this, and
what it tells is what its context shows in the end. It is proved here for each construct of bodies;
none of the cells that they access may be missing.

## Main definitions

* `Host.InOrder` is what a chronicle keeps true of the world beside it.
* `Host.Follows` says that a run goes on from one host to another one.
* `Telling.Faithful` says that what is told is what the context shows; `Body.Faithful` and
  `Body.Honest` say so of a call and of the body of a child.

## Main statements

* `Body.Honest.nested` and `Body.faithful_parallel`: calls of children and of batches are faithful.
-/

namespace VersionedMemory

variable {V α R : Type} [Inhabited V]

/-! ### What is kept true -/

/-- What the commit reports, if it published anything. -/
def Bid.receipt? (b : Bid V) : Option Receipt := b.answer.toOption.filter fun r => !r.readOnly

/-- The commits that published, in their order. -/
def Chronicle.published (k : Chronicle V) : List (Bid V) := k.bids.filter (·.receipt?.isSome)

/-- What the published commits make of the first value of a cell. -/
def Chronicle.worth (k : Chronicle V) (c : CellId) (value : V) : V :=
  k.published.foldl (fun v b => b.context.resultAt c v) value

section

variable (D : Discipline V) (hooks : Hooks) (F : Error → Prop)

/-- The commit found a live transaction, whose buffers show what it did. -/
structure Bid.Fair (b : Bid V) : Prop where
  bears : b.context.Bears D hooks b.world.store b.deeds
  serves : ∃ lives past, b.world.Serves (b.context.life :: lives) past
  hooks_eq : (b.world.engine sole).hooks = hooks

/-- What a chronicle keeps true of the world beside it. -/
structure Host.InOrder (h : Host V (Chronicle V)) : Prop where
  hooks_eq : (h.world.engine sole).hooks = hooks
  alive : ∀ x ∈ h.world.alive, x.Bears D hooks h.world.store (h.client.deeds x.id)
  unbegun : ∀ id : TxnId, (h.world.engine sole).begun < id.number → h.client.deeds id = []
  failures : ∀ e ∈ h.client.failures, F e
  fair : ∀ b ∈ h.client.bids, b.Fair D hooks ∧ b.world.store.created ≤ h.world.store.created
  versions : h.client.bids.filterMap (·.receipt?.map Receipt.version) =
    List.range' 1 (h.world.engine sole).version
  worth : ∀ p ∈ h.client.births, h.world.store.Has p.1 ∧
    (h.world.store.cell p.1).value = h.client.worth p.1 p.2

/-- The engine serves the transactions that run, and the chronicle is true. -/
structure Host.Ready (run : List (Context V)) (h : Host V (Chronicle V)) : Prop where
  sound : ∃ past, (⟨h.world, run, past⟩ : Scene V).Sound
  order : h.InOrder D hooks F

/-- A context of a running transaction, which shows what was done. -/
structure Context.At (run : List (Context V)) (h : Host V (Chronicle V)) (ds : List (Deed V))
    (x : Context V) : Prop where
  engine : x.engine = sole
  active : x.status = .active
  served : ∃ y ∈ run, y.snapshot = x.snapshot
  bears : x.Bears D hooks h.world.store ds

/-- Where a body has ended: the chronicle is true, and the context shows what was done. -/
structure Ends (h : Host V (Chronicle V)) (x : Context V) (ds : List (Deed V))
    (r : Except Error α) : Prop where
  order : h.InOrder D hooks F
  bears : x.Bears D hooks h.world.store ds
  fails : FailsIn F r

/-- What is told is what the context shows, as long as no cell is missing. -/
structure Telling.Faithful (f : Telling V R) : Prop where
  ends : ∀ {run ds x h}, h.Ready D hooks F run → x.At D hooks run h ds →
    (f ⟨x, h⟩).2.host.client.strays = [] →
      Ends D hooks F (f ⟨x, h⟩).2.host (f ⟨x, h⟩).2.context (ds ++ (f ⟨x, h⟩).1.2) (f ⟨x, h⟩).1.1

/-- A call after which the context shows what the call tells; one that failed did nothing. -/
structure Body.Faithful (body : Body V (Chronicle V) (α × List (Deed V))) : Prop where
  ends : ∀ {run ds x h}, h.Ready D hooks F run → x.At D hooks run h ds →
    (body.runOn x h).2.client.strays = [] →
      Ends D hooks F (body.runOn x h).2 (body.runOn x h).1.2 (ds ++ deedsOf (body.runOn x h).1.1)
        (body.runOn x h).1.1

/-- The body of a child, which tells what the child shows if it succeeds. -/
structure Body.Honest (body : Body V (Chronicle V) (α × List (Deed V))) : Prop where
  ends : ∀ {run x h}, h.Ready D hooks F run → x.At D hooks run h [] →
    (body.runOn x h).2.client.strays = [] →
      ∃ ds, Ends D hooks F (body.runOn x h).2 (body.runOn x h).1.2 ds (body.runOn x h).1.1 ∧
        ∀ p, (body.runOn x h).1.1 = .ok p → p.2 = ds

/-- A task whose runs tell what their children show. -/
structure Task.Honest (task : Task V (Chronicle V) (α × List (Deed V))) : Prop where
  goes : ∀ n, Session.Goes (task.body n).run
  honest : ∀ n, (task.body n).Honest D hooks F

/-- What a child of `x` hands over, if it succeeded, shows what it tells. -/
structure Handed (s : Store V) (x : Context V)
    (o : Except Error ((α × List (Deed V)) × Contribution V)) : Prop where
  fails : FailsIn F o
  bears : ∀ p e, o = .ok (p, e) → e.Bears D s x.snapshot (x.Validates hooks) p.2

end

/-- The run goes on from one host to the other, and no missing cell is forgotten. -/
structure Host.Follows (run : List (Context V)) (h h' : Host V (Chronicle V)) : Prop where
  continues : ∀ past, (⟨h.world, run, past⟩ : Scene V).Sound →
    Scene.Continues ⟨h.world, run, past⟩ h'.world
  strays : h.client.strays ⊆ h'.client.strays

variable {D : Discipline V} {hooks : Hooks} {F : Error → Prop} {run : List (Context V)}
  {h h' g g' : Host V (Chronicle V)} {x : Context V} {ds : List (Deed V)}

/-! ### Going on -/

namespace Host.Follows

theorem refl (run : List (Context V)) (h : Host V (Chronicle V)) : h.Follows run h :=
  ⟨fun _ hs => hs.continues, fun _ hc => hc⟩

theorem trans (hf : h.Follows run h') (hf' : h'.Follows run g) : h.Follows run g :=
  ⟨fun past hs => (hf.continues past hs).trans fun past' hs' => hf'.continues past' hs',
    fun _ hc => hf'.strays (hf.strays hc)⟩

theorem sound (hf : h.Follows run h') (hs : ∃ past, (⟨h.world, run, past⟩ : Scene V).Sound) :
    ∃ past, (⟨h'.world, run, past⟩ : Scene V).Sound := by
  obtain ⟨past, hs⟩ := hs
  obtain ⟨past', hl⟩ := (hf.continues past hs).onward
  exact ⟨past', hl.sound⟩

theorem store_extends (hf : h.Follows run h') (hs : ∃ past, (⟨h.world, run, past⟩ : Scene V).Sound)
    {y : Context V} (hy : y ∈ run) : h.world.store.Extends y.snapshot h'.world.store := by
  obtain ⟨past, hs⟩ := hs
  obtain ⟨past', hl⟩ := (hf.continues past hs).onward
  have hlive : ∀ w past, y.life ∈ (⟨w, run, past⟩ : Scene V).lives := fun w _ =>
    List.mem_map_of_mem (List.mem_append_right _ hy)
  exact hl.store_extends hs (hlive _ _) (hlive _ _)

theorem strays_eq_nil (hf : h.Follows run h') (hn : h'.client.strays = []) :
    h.client.strays = [] :=
  List.eq_nil_of_subset_nil fun _ hc => hn ▸ hf.strays hc

end Host.Follows

/-- Children and batches let a run go on. -/
theorem invariant_follows (run : List (Context V)) (h : Host V (Chronicle V)) :
    Host.Invariant (fun x => x.engine = sole) fun g => h.Follows run g where
  pin pinned hK :=
    ⟨fun past hs => (⟨h.world, run, past⟩ : Scene V).invariant_continues.pin pinned
      (hK.continues past hs), hK.strays⟩
  child kind below shared hx hK :=
    ⟨hx, fun past hs => ((⟨h.world, run, past⟩ : Scene V).invariant_continues.child kind below
      shared hx (hK.continues past hs)).2, hK.strays⟩
  rerun hx hK :=
    ⟨fun past hs => (⟨h.world, run, past⟩ : Scene V).invariant_continues.rerun hx
      (hK.continues past hs), hK.strays⟩
  adopt e hx := (congrArg Life.engine (Context.life_adopt _ e)).trans hx

theorem Session.Goes.follows {τ : Type} {f : Session V (Chronicle V) → τ × Session V (Chronicle V)}
    (hf : Goes f) {t : Session V (Chronicle V)} (hx : t.context.engine = sole) :
    t.host.Follows run (f t).2.host :=
  ⟨fun _ hs => hf.continues _ t hx hs.continues, hf.strays t⟩

theorem Session.Goes.upholds_follows {body : Body V (Chronicle V) α} (hf : Goes body.run)
    (run : List (Context V)) (h : Host V (Chronicle V)) :
    body.Upholds (fun x => x.engine = sole) fun g => h.Follows run g :=
  fun t hx hK => ⟨(congrArg Life.engine (hf.life t)).trans hx, hK.trans (hf.follows hx)⟩

theorem Task.Honest.upholds_follows {task : Task V (Chronicle V) (α × List (Deed V))}
    (ht : task.Honest D hooks F) (n : Nat) (run : List (Context V)) (h : Host V (Chronicle V)) :
    (task.body n).Upholds (fun x => x.engine = sole) fun g => h.Follows run g :=
  (ht.goes n).upholds_follows run h

/-! ### What makes no difference -/

/-- The chronicle stays true when transactions are put down that show what was done. -/
theorem Host.InOrder.moves (ho : h.InOrder D hooks F) {hand : List (Context V)}
    (hm : h.world.Moves hand h'.world)
    (hhand : ∀ x ∈ hand, x.Bears D hooks h.world.store (h.client.deeds x.id))
    (hc : h'.client = h.client) : h'.InOrder D hooks F := by
  obtain ⟨hstore, hhooks, hbegun, hversion, halive⟩ := hm
  refine ⟨hhooks.trans ho.hooks_eq, fun x hx => ?_, fun id hid => ?_, ?_, ?_, ?_, ?_⟩
  · rw [hstore, hc]
    exact (halive x hx).elim (hhand x) (ho.alive x)
  · rw [hc]
    exact ho.unbegun id (Nat.lt_of_le_of_lt hbegun hid)
  · rw [hc]
    exact ho.failures
  · rw [hstore, hc]
    exact ho.fair
  · rw [hversion, hc]
    exact ho.versions
  · rw [hstore, hc]
    exact ho.worth

/-- The chronicle stays true where nothing is put down. -/
theorem Host.InOrder.stay (ho : h.InOrder D hooks F) (hm : h.world.Moves [] h'.world)
    (hc : h'.client = h.client) : h'.InOrder D hooks F :=
  ho.moves hm (fun _ hx => nomatch hx) hc

theorem Host.InOrder.pin (ho : h.InOrder D hooks F) (pinned : List CellId) :
    Host.InOrder D hooks F { h with world.pinned := pinned } :=
  ho.stay ⟨rfl, rfl, Nat.le_refl _, rfl, fun _ hy => .inr hy⟩ rfl

theorem Host.InOrder.openChild (ho : h.InOrder D hooks F) (hx : x.engine = sole)
    (kind : ChildKind) (below : List (Layer V)) (shared : Option (WriteSet V)) :
    Host.InOrder D hooks F (Body.openChild x kind below shared h).2 := by
  refine ho.stay ⟨rfl, ?_, ?_, ?_, fun _ hy => .inr hy⟩ rfl <;>
    simp [Body.openChild, Engine.openChild, Engine.version, hx]

theorem Host.InOrder.countRerun (ho : h.InOrder D hooks F) (hx : x.engine = sole) :
    Host.InOrder D hooks F { h with world := h.world.countRerun x.engine } := by
  refine ho.stay ⟨rfl, ?_, ?_, ?_, fun _ hy => .inr hy⟩ rfl <;>
    simp [World.countRerun, Engine.version, hx]

theorem Host.InOrder.fail (ho : h.InOrder D hooks F) {r : Except Error α} (hr : FailsIn F r) :
    Host.InOrder D hooks F { h with client := h.client.fail r } := by
  cases r with
  | ok a => exact ho
  | error e =>
    refine ⟨ho.hooks_eq, ho.alive, ho.unbegun, fun e' he' => ?_, ho.fair, ho.versions, ho.worth⟩
    rcases List.mem_append.1 he' with he' | he'
    · exact ho.failures e' he'
    · rw [List.mem_singleton.1 he']
      exact hr e rfl

theorem Host.Ready.pin (hr : h.Ready D hooks F run) (pinned : List CellId) :
    Host.Ready D hooks F run { h with world.pinned := pinned } :=
  ⟨((invariant_follows run h).pin pinned (.refl run h)).sound hr.sound, hr.order.pin pinned⟩

/-- A host that follows one with a true chronicle serves the transactions that run, if its own
chronicle is true. -/
theorem Host.Ready.follow (hr : h.Ready D hooks F run) (hf : h.Follows run h')
    (ho : h'.InOrder D hooks F) : h'.Ready D hooks F run :=
  ⟨hf.sound hr.sound, ho⟩

namespace Context.At

theorem pin (hx : x.At D hooks run h ds) (pinned : List CellId) :
    x.At D hooks run { h with world.pinned := pinned } ds :=
  ⟨hx.engine, hx.active, hx.served, hx.bears⟩

theorem follow (hx : x.At D hooks run h ds) (hr : h.Ready D hooks F run)
    (hf : h.Follows run h') : x.At D hooks run h' ds := by
  obtain ⟨y, hy, hsnap⟩ := hx.served
  exact ⟨hx.engine, hx.active, hx.served, hx.bears.mono (hsnap ▸ hf.store_extends hr.sound hy)⟩

theorem store_extends (hx : x.At D hooks run h ds) (hr : h.Ready D hooks F run)
    (hf : h.Follows run h') : h.world.store.Extends x.snapshot h'.world.store := by
  obtain ⟨y, hy, hsnap⟩ := hx.served
  exact hsnap ▸ hf.store_extends hr.sound hy

/-- The snapshot of a running transaction sees every cell that is there. -/
theorem readAt (hx : x.At D hooks run h ds) (hr : h.Ready D hooks F run) {c : CellId}
    (hc : h.world.store.Has c) : ∃ r, (h.world.store.cell c).readAt x.snapshot = .ok r := by
  obtain ⟨y, hy, hsnap⟩ := hx.served
  obtain ⟨past, hs⟩ := hr.sound
  obtain ⟨r, -, hat⟩ := World.Serves.readAt hs
    (List.mem_map_of_mem (List.mem_append_right _ hy)) hc
  exact ⟨r, hsnap ▸ hat⟩

end Context.At

theorem Handed.mono {s s' : Store V} {o : Except Error ((α × List (Deed V)) × Contribution V)}
    (ho : Handed D hooks F s x o) (hs : s.Extends x.snapshot s') : Handed D hooks F s' x o :=
  ⟨ho.fails, fun p e he => (ho.bears p e he).mono hs⟩

/-! ### Children -/

theorem ends_error (ho : h.InOrder D hooks F) (hx : x.Bears D hooks h.world.store ds) {e : Error}
    (he : F e) :
    let r : Except Error (α × List (Deed V)) := .error e
    Ends D hooks F h x (ds ++ deedsOf r) r := by
  intro r
  have hnone : ds ++ deedsOf r = ds := List.append_nil ds
  exact ⟨ho, hnone.symm ▸ hx, fun e' he' => Except.error.inj he' ▸ he⟩

/-- What is handed over to a context shows in it, if it may have it. -/
theorem ends_adopt (hD : D.Within (.plain V)) (hF : ∀ id, F (.illegal (.writeInReadOnly id)))
    (ho : h.InOrder D hooks F) (hx : x.Bears D hooks h.world.store ds) {e : Contribution V}
    {p : α × List (Deed V)} (he : e.Bears D h.world.store x.snapshot (x.Validates hooks) p.2) :
    let r := (x.adopt e).1.map fun () => p
    Ends D hooks F h (x.adopt e).2 (ds ++ deedsOf r) r := by
  rcases hx.adopt hD he with ⟨y, hy, hbears⟩ | ⟨-, hill⟩
  · rw [hy]
    exact ⟨ho, hbears, nofun⟩
  · rw [hill]
    exact ends_error ho hx (hF x.id)

namespace Body

variable {body : Body V (Chronicle V) (α × List (Deed V))}

/-- A child leaves the chronicle true, and what it hands over shows what it tells. -/
theorem Honest.inChild (hb : body.Honest D hooks F) (hg : Session.Goes body.run)
    (hr : h.Ready D hooks F run) (hx : x.At D hooks run h ds) (kind : ChildKind)
    {below : List (Layer V)} {shared : Option (WriteSet V)}
    (hbelow : ∀ l ∈ below, l.Within (D.on h.world.store))
    (hshared : ∀ ws, shared = some ws → ws.All (D.on h.world.store).write)
    (hs : (body.inChild x kind below shared h).2.client.strays = []) :
    let o := body.inChild x kind below shared h
    o.2.InOrder D hooks F ∧ Handed D hooks F o.2.world.store x (handOver o.1) ∧
      o.1.2.Within (D.on o.2.world.store) := by
  intro o
  have hopen : h.Follows run (openChild x kind below shared h).2 :=
    ((invariant_follows run h).child kind below shared hx.engine (.refl run h)).2
  obtain ⟨ds', hends, hds⟩ := hb.ends
    (hr.follow hopen (hr.order.openChild hx.engine kind below shared))
    (x := (openChild x kind below shared h).1)
    ⟨hx.engine, rfl, hx.served, Context.bears_child hooks x kind _ hbelow hshared⟩ hs
  have hlife : o.1.2.life = (openChild x kind below shared h).1.life := hg.life ⟨_, _⟩
  have hrec : o.1.2.mode.recordsReads = (openChild x kind below shared h).1.mode.recordsReads :=
    hg.records ⟨_, _⟩
  refine ⟨hends.order, ?_, hends.bears.suits.within⟩
  rw [handOver_eq (congrArg Life.status hlife)]
  refine ⟨fun e he => hends.fails e (map_eq_error_iff.1 he), fun p e he => ?_⟩
  obtain ⟨a, ha, hpe⟩ := map_eq_ok_iff.1 he
  cases hpe
  have hbears := hends.bears.handed
  have hsnap : o.1.2.snapshot = x.snapshot := congrArg Life.snapshot hlife
  rw [hds p ha, ← hsnap]
  -- the child records its reads if the context does, where nobody chooses its mode
  refine { hbears with recorded := fun hv => hbears.recorded ⟨hv.1, hrec.trans ?_⟩ }
  have hnone : (h.world.engine sole).hooks.modeOfChild = none := by
    rw [hr.order.hooks_eq]
    exact hv.1
  simpa [openChild, Engine.openChild, hx.engine, hnone, Context.child] using hv.2

omit [Inhabited V] in
theorem runOn_nested {σ : Type} (body : Body V σ α) {x : Context V} (ha : x.status = .active)
    (h : Host V σ) : (Body.nested body).runOn x h =
      let (o, h') := body.inChild x .nested x.layers none
        { h with world.pinned := x.holds ++ h.world.pinned }
      (match handOver o with
        | .error e => (.error e, x)
        | .ok (a, e) => ((x.adopt e).1.map fun () => a, (x.adopt e).2),
        { h' with world.pinned := h.world.pinned }) := by
  unfold runOn
  rw [run_nested, Context.checkActive_eq_ok ha]
  dsimp only [Host.pinning]
  cases handOver _ <;> rfl

/-- A child that is merged shows in the context, and one that failed does not. -/
theorem Honest.nested (hD : D.Within (.plain V))
    (hF : ∀ id, F (.illegal (.writeInReadOnly id))) (hb : body.Honest D hooks F)
    (hg : Session.Goes body.run) : (Body.nested body).Faithful D hooks F := by
  refine ⟨fun {run ds x h} hr hx hs => ?_⟩
  have hf : h.Follows run ((Body.nested body).runOn x h).2 :=
    hg.nested.follows (t := ⟨x, h⟩) hx.engine
  have hstay := hx.follow hr hf
  rw [runOn_nested body hx.active] at hs hstay ⊢
  have hgr := hr.pin (x.holds ++ h.world.pinned)
  have hgx : x.At D hooks run { h with world.pinned := x.holds ++ h.world.pinned } ds := hx.pin _
  generalize ({ h with world.pinned := x.holds ++ h.world.pinned } : Host V _) = g at *
  obtain ⟨horder, hhanded, -⟩ := hb.inChild hg hgr hgx .nested hgx.bears.suits.layers (by simp) hs
  generalize body.inChild x .nested x.layers none g = o at *
  obtain ⟨o, g'⟩ := o
  dsimp only at *
  cases ho : handOver o with
  | error e => exact ends_error (horder.pin _) hstay.bears (hhanded.fails e ho)
  | ok pe =>
    obtain ⟨p, e⟩ := pe
    exact ends_adopt hD hF (horder.pin _) hstay.bears (hhanded.bears p e ho)

/-! ### Batches -/

variable {tasks : List (Task V (Chronicle V) (α × List (Deed V)))}
  {task : Task V (Chronicle V) (α × List (Deed V))}

section

variable (hx : x.engine = sole) (run : List (Context V)) (h : Host V (Chronicle V))

include hx

theorem follows_performTask (ht : task.Honest D hooks F) (below : List (Layer V)) (n : Nat)
    (shared : WriteSet V) : h.Follows run (Body.performTask x below task n shared h).2.2 :=
  (ht.upholds_follows n run h).performTask (invariant_follows run h) hx (.refl run h) below shared

theorem follows_firstRuns (ht : ∀ task ∈ tasks, task.Honest D hooks F) (shared : WriteSet V) :
    h.Follows run (firstRuns x tasks shared h).2 :=
  upholds_firstRuns (invariant_follows run h)
    (fun task htask n => (ht task htask).upholds_follows n run h) hx (.refl run h) shared

theorem follows_settle (ht : task.Honest D hooks F) (p : α × List (Deed V)) (e : Contribution V)
    (b : Batch V) (shared : Option (WriteSet V)) (cells : List CellId) :
    h.Follows run (h.pinning cells (settle x task p e b shared)).2 :=
  (invariant_follows run h).pinning (.refl run h) cells fun _ hg =>
    upholds_settle (invariant_follows run h) (fun n => ht.upholds_follows n run h) hx hg p e b
      shared

theorem follows_mergeRuns {outcomes : List (Task V (Chronicle V) (α × List (Deed V)) ×
      Except Error ((α × List (Deed V)) × Contribution V))}
    (ht : ∀ o ∈ outcomes, o.1.Honest D hooks F) (b : Batch V) (shared : Option (WriteSet V)) :
    h.Follows run (mergeRuns x outcomes b shared h).2 :=
  upholds_mergeRuns (invariant_follows run h) hx
    (fun o ho n => (ht o ho).upholds_follows n run h) (.refl run h) b shared

end

/-- The run of a task leaves the chronicle true. What it hands over shows what it tells, and the
shared buffer suits the cells. -/
theorem honest_performTask {n : Nat} (ht : task.Honest D hooks F) (hr : h.Ready D hooks F run)
    (hx : x.At D hooks run h ds) {below : List (Layer V)}
    (hbelow : ∀ l ∈ below, l.Within (D.on h.world.store)) {shared : WriteSet V}
    (hshared : shared.All (D.on h.world.store).write)
    (hs : (Body.performTask x below task n shared h).2.2.client.strays = []) :
    let o := Body.performTask x below task n shared h
    o.2.2.InOrder D hooks F ∧ Handed D hooks F o.2.2.world.store x o.1 ∧
      o.2.1.All (D.on o.2.2.world.store).write := by
  intro o
  have hf : h.Follows run o.2.2 := follows_performTask hx.engine run h ht below n shared
  have hstay : (D.on h.world.store).Within (D.on o.2.2.world.store) :=
    (hx.store_extends hr hf).within D
  have hown : ∀ ws, (if task.mode = .shared then some shared else none) = some ws →
      ws.All (D.on h.world.store).write := by
    intro ws hws
    split at hws
    · cases hws
      exact hshared
    · cases hws
  obtain ⟨horder, hhanded, hwithin⟩ :=
    (ht.honest n).inChild (ht.goes n) hr hx (.task task.mode) hbelow hown hs
  refine ⟨horder, hhanded, fun c a ha => ?_⟩
  cases hn : ((task.body n).inChild x (.task task.mode) below
    (if task.mode = .shared then some shared else none) h).1.2.shared with
  | none =>
    have ho : o.2.1 = shared := congrArg (Option.getD · shared) hn
    exact hstay.write c a (hshared c a (ho ▸ ha))
  | some ws =>
    have ho : o.2.1 = ws := congrArg (Option.getD · shared) hn
    exact hwithin.shared ws hn c a (ho ▸ ha)

/-- The first runs of the tasks leave the chronicle true, and what they hand over shows what they
tell. -/
theorem ready_firstRuns (ht : ∀ task ∈ tasks, task.Honest D hooks F)
    (hr : h.Ready D hooks F run) (hx : x.At D hooks run h ds) {shared : WriteSet V}
    (hshared : shared.All (D.on h.world.store).write)
    (hs : (firstRuns x tasks shared h).2.client.strays = []) :
    let o := firstRuns x tasks shared h
    o.2.InOrder D hooks F ∧ (∀ r ∈ o.1.1, Handed D hooks F o.2.world.store x r) ∧
      o.1.2.All (D.on o.2.world.store).write := by
  induction tasks generalizing h shared with
  | nil => exact ⟨hr.order, nofun, hshared⟩
  | cons task rest ih =>
    obtain ⟨htask, hrest⟩ := List.forall_mem_cons.1 ht
    have hf := follows_performTask hx.engine run h htask x.layers 1 shared
    have hfirst := honest_performTask (n := 1) htask hr hx hx.bears.suits.layers hshared
    unfold firstRuns at hs ⊢
    generalize Body.performTask x x.layers task 1 shared h = o at hf hfirst hs ⊢
    obtain ⟨r, ws, h₁⟩ := o
    dsimp only [Host.pinning] at hf hfirst hs ⊢
    have hx₁ := (hx.follow hr hf).pin (outcomeHolds r ++ ws.targets ++ h₁.world.pinned)
    have hpin := fun ho => (hr.follow hf ho).pin (outcomeHolds r ++ ws.targets ++ h₁.world.pinned)
    obtain ⟨g, hg⟩ : ∃ g : Host V (Chronicle V), g = { h₁ with
      world.pinned := outcomeHolds r ++ ws.targets ++ h₁.world.pinned } := ⟨_, rfl⟩
    rw [← hg] at hs hx₁ hpin ⊢
    have hf₁ := follows_firstRuns hx.engine run g hrest ws
    have hs₁ : h₁.client.strays = [] := by
      have hgs := hf₁.strays_eq_nil hs
      rwa [hg] at hgs
    obtain ⟨horder, hhanded, hws⟩ := hfirst hs₁
    have hgr := hpin horder
    have hstore : h₁.world.store = g.world.store := by rw [hg]
    rw [hstore] at hhanded hws
    obtain ⟨horder', hhanded', hws'⟩ := ih hrest hgr hx₁ hws hs
    exact ⟨horder'.pin _, List.forall_mem_cons.2
      ⟨hhanded.mono (hx₁.store_extends hgr hf₁), hhanded'⟩, hws'⟩

/-- Settling a task leaves the chronicle true. What is merged for the task shows what it tells, and
the batch still shows what it showed. -/
theorem ready_settle (hD : D.Within (.plain V))
    (ht : task.Honest D hooks F) (hr : h.Ready D hooks F run) (hx : x.At D hooks run h ds)
    {p : α × List (Deed V)}
    {e : Contribution V} {b : Batch V} {ds' : List (Deed V)}
    (he : e.Bears D h.world.store x.snapshot (x.Validates hooks) p.2)
    (hb : b.merged.Bears D h.world.store x.snapshot (x.Validates hooks) ds')
    {shared : Option (WriteSet V)}
    (hshared : ∀ ws, shared = some ws → ws.All (D.on h.world.store).write)
    (hs : (settle x task p e b shared h).2.client.strays = []) :
    let o := settle x task p e b shared h
    o.2.InOrder D hooks F ∧ FailsIn F o.1 ∧ ∀ p' e' b', o.1 = .ok (p', e', b') →
      e'.Bears D o.2.world.store x.snapshot (x.Validates hooks) p'.2 ∧
        b'.merged.Bears D o.2.world.store x.snapshot (x.Validates hooks) ds' := by
  have hkept : FailsIn F (.ok (p, e, b) : Except Error ((α × List (Deed V)) × _ × _)) ∧
      ∀ p' e' b', (.ok (p, e, b) : Except Error _) = .ok (p', e', b') →
        e'.Bears D h.world.store x.snapshot (x.Validates hooks) p'.2 ∧
          b'.merged.Bears D h.world.store x.snapshot (x.Validates hooks) ds' := by
    refine ⟨nofun, fun p' e' b' heq => ?_⟩
    cases heq
    exact ⟨he, hb⟩
  unfold settle at hs ⊢
  split
  · exact ⟨hr.order, hkept⟩
  · cases shared with
    | none => exact ⟨hr.order, hkept⟩
    | some ws =>
      obtain ⟨b', hb', hreads, hdeltas, hwithin⟩ :=
        Batch.addWrites_of_within hD hb.within (hshared ws rfl)
      dsimp only
      rw [hb']
      refine ⟨hr.order, nofun, fun p' e' b'' heq => ?_⟩
      cases heq
      exact ⟨he, hb.congr hwithin hreads hdeltas⟩
  · next hmode =>
    rw [hmode] at hs
    dsimp only at hs
    split at hs
    · exact ⟨hr.order, hkept⟩
    · dsimp only at hs ⊢
      have hagain := (invariant_follows run h).rerun hx.engine (.refl run h)
      have hr₁ := hr.follow hagain (hr.order.countRerun hx.engine)
      have hx₁ : x.At D hooks run { h with world := h.world.countRerun x.engine } ds :=
        ⟨hx.engine, hx.active, hx.served, hx.bears⟩
      have hbelow : ∀ l ∈ b.layers x.layers, l.Within (D.on h.world.store) :=
        List.forall_mem_cons.2 ⟨Batch.within_layer hb.within, hx.bears.suits.layers⟩
      have hf := follows_performTask hx.engine run
        { h with world := h.world.countRerun x.engine } ht (b.layers x.layers) 2 ∅
      obtain ⟨horder, hhanded, -⟩ := honest_performTask ht hr₁ hx₁ hbelow WriteSet.all_empty hs
      refine ⟨horder, fun err herr => hhanded.fails err (map_eq_error_iff.1 herr),
        fun p' e' b' heq => ?_⟩
      obtain ⟨⟨p₁, e₁⟩, ho, hpe⟩ := map_eq_ok_iff.1 heq
      cases hpe
      exact ⟨hhanded.bears _ _ ho, hb.mono (hx₁.store_extends hr₁ hf)⟩

/-- A step of the merge pins cells while a task is settled, which makes no difference. -/
theorem ready_step (hD : D.Within (.plain V)) (ht : task.Honest D hooks F)
    (hr : h.Ready D hooks F run) (hx : x.At D hooks run h ds) {p : α × List (Deed V)}
    {e : Contribution V} {b : Batch V} {ds' : List (Deed V)}
    (he : e.Bears D h.world.store x.snapshot (x.Validates hooks) p.2)
    (hb : b.merged.Bears D h.world.store x.snapshot (x.Validates hooks) ds')
    {shared : Option (WriteSet V)}
    (hshared : ∀ ws, shared = some ws → ws.All (D.on h.world.store).write) (cells : List CellId)
    (hs : (h.pinning cells (settle x task p e b shared)).2.client.strays = []) :
    let o := h.pinning cells (settle x task p e b shared)
    o.2.InOrder D hooks F ∧ FailsIn F o.1 ∧ ∀ p' e' b', o.1 = .ok (p', e', b') →
      e'.Bears D o.2.world.store x.snapshot (x.Validates hooks) p'.2 ∧
        b'.merged.Bears D o.2.world.store x.snapshot (x.Validates hooks) ds' := by
  intro o
  obtain ⟨horder, hfails, hgood⟩ :=
    ready_settle hD ht (hr.pin (cells ++ h.world.pinned)) (hx.pin _) he hb hshared hs
  exact ⟨horder.pin h.world.pinned, hfails, hgood⟩

/-- The batch that tasks were merged into shows what it showed, and what these tasks tell. -/
theorem ready_mergeRuns (hD : D.Within (.plain V))
    {outcomes : List (Task V (Chronicle V) (α × List (Deed V)) ×
      Except Error ((α × List (Deed V)) × Contribution V))}
    (ht : ∀ o ∈ outcomes, o.1.Honest D hooks F)
    (ho : ∀ o ∈ outcomes, Handed D hooks F h.world.store x o.2) (hr : h.Ready D hooks F run)
    (hx : x.At D hooks run h ds) {b : Batch V} {ds' : List (Deed V)}
    (hb : b.merged.Bears D h.world.store x.snapshot (x.Validates hooks) ds')
    {shared : Option (WriteSet V)}
    (hshared : ∀ ws, shared = some ws → ws.All (D.on h.world.store).write)
    (hs : (mergeRuns x outcomes b shared h).2.client.strays = []) :
    let o := mergeRuns x outcomes b shared h
    o.2.InOrder D hooks F ∧ FailsIn F o.1 ∧ ∀ ps b', o.1 = .ok (ps, b') →
      b'.merged.Bears D o.2.world.store x.snapshot (x.Validates hooks)
        (ds' ++ ps.flatMap Prod.snd) := by
  induction outcomes generalizing h b shared ds' with
  | nil =>
    refine ⟨hr.order, nofun, fun ps b' heq => ?_⟩
    cases heq
    have hnone : ds' ++ ([] : List (α × List (Deed V))).flatMap Prod.snd = ds' := by simp
    rw [hnone]
    exact hb
  | cons o rest ih =>
    obtain ⟨task, err | ⟨p, e⟩⟩ := o
    · obtain ⟨hfirst, -⟩ := List.forall_mem_cons.1 ho
      exact ⟨hr.order, fun e he => hfirst.fails e (by cases he; rfl), nofun⟩
    · obtain ⟨htask, htrest⟩ := List.forall_mem_cons.1 ht
      obtain ⟨hfirst, horest⟩ := List.forall_mem_cons.1 ho
      unfold mergeRuns at hs ⊢
      dsimp only at hs ⊢
      generalize b.merged.holds ++ e.holds ++ (shared.map WriteSet.targets).getD [] ++
        (rest.flatMap fun o => outcomeHolds o.2) = cells at hs ⊢
      have hstep := ready_step hD htask hr hx (hfirst.bears p e rfl) hb hshared cells
      have hf := follows_settle hx.engine run h htask p e b shared cells
      generalize h.pinning cells (settle x task p e b shared) = o at hs hstep hf ⊢
      obtain ⟨err | ⟨p', e', b'⟩, g⟩ := o
      · obtain ⟨horder, hfails, -⟩ := hstep hs
        exact ⟨horder, fun e he => hfails e (by cases he; rfl), fun ps b' heq => by cases heq⟩
      · dsimp only at hs hstep hf ⊢
        have hrest := follows_mergeRuns hx.engine run g htrest
        have hs₁ : g.client.strays = [] := by
          split at hs
          · exact hs
          · exact (hrest _ _).strays_eq_nil hs
        obtain ⟨horder, -, hgood⟩ := hstep hs₁
        obtain ⟨he', hb'⟩ := hgood p' e' b' rfl
        obtain ⟨b'', hadd, -, hb''⟩ := Batch.add_of_bears hD hb' he'
        rw [hadd] at hs ⊢
        dsimp only at hs ⊢
        have hstay := hx.store_extends hr hf
        have hleft : ∀ ws, (if task.mode = .shared then none else shared) = some ws →
            ws.All (D.on g.world.store).write := by
          intro ws hws c a ha
          split at hws
          · cases hws
          · exact (hstay.within D).write c a (hshared ws hws c a ha)
        obtain ⟨horder', hfails', hgood'⟩ := ih htrest
          (fun o hmem => (horest o hmem).mono hstay) (hr.follow hf horder) (hx.follow hr hf)
          hb'' hleft hs
        refine ⟨horder', fun e he => hfails' e (map_eq_error_iff.1 he), fun ps b₁ heq => ?_⟩
        obtain ⟨⟨ps', b₂⟩, hmerge, hpe⟩ := map_eq_ok_iff.1 heq
        cases hpe
        simpa using hgood' ps' b₂ hmerge

def batched {σ : Type} (x : Context V) (tasks : List (Task V σ α)) (h : Host V σ) :
    Except Error (List α × Batch V) × Host V σ :=
  let ((outcomes, shared), h) := firstRuns x tasks ∅ h
  mergeRuns x (tasks.zip outcomes) {} (some shared) h

omit [Inhabited V] in
theorem runOn_parallel {σ : Type} (tasks : List (Task V σ α)) {x : Context V}
    (ha : x.status = .active) (h : Host V σ) : (Body.parallel tasks).runOn x h =
      let (r, h') := batched x tasks { h with world.pinned := x.holds ++ h.world.pinned }
      (match r with
        | .error e => (.error e, x)
        | .ok (as, b) => ((x.adopt b.merged).1.map fun () => as, (x.adopt b.merged).2),
        { h' with world.pinned := h.world.pinned }) := by
  unfold runOn
  rw [run_parallel, Context.checkActive_eq_ok ha]
  dsimp only [Host.pinning, batched]
  generalize mergeRuns x _ _ _ _ = o
  obtain ⟨err | ⟨as, b⟩, h'⟩ := o <;> rfl

/-- A batch leaves the chronicle true, and shows what its tasks tell. -/
theorem ready_batched (hD : D.Within (.plain V))
    (ht : ∀ task ∈ tasks, task.Honest D hooks F)
    (hr : h.Ready D hooks F run) (hx : x.At D hooks run h ds)
    (hs : (batched x tasks h).2.client.strays = []) :
    let o := batched x tasks h
    o.2.InOrder D hooks F ∧ FailsIn F o.1 ∧ ∀ ps b, o.1 = .ok (ps, b) →
      b.merged.Bears D o.2.world.store x.snapshot (x.Validates hooks) (ps.flatMap Prod.snd) := by
  have hfirst := ready_firstRuns ht hr hx WriteSet.all_empty
  have hf := follows_firstRuns hx.engine run h ht ∅
  unfold batched at hs ⊢
  generalize firstRuns x tasks ∅ h = o at hs hfirst hf ⊢
  obtain ⟨⟨outcomes, shared⟩, g⟩ := o
  dsimp only at hs hfirst hf ⊢
  have hzip : ∀ o ∈ tasks.zip outcomes, o.1.Honest D hooks F := fun o ho =>
    ht o.1 (List.of_mem_zip ho).1
  have hmerge := follows_mergeRuns hx.engine run g hzip {} (some shared)
  obtain ⟨horder, hhanded, hshared⟩ := hfirst (hmerge.strays_eq_nil hs)
  exact ready_mergeRuns hD hzip
    (fun o ho => hhanded o.2 (List.of_mem_zip ho).2) (hr.follow hf horder) (hx.follow hr hf)
    (Contribution.bears_empty ..) (fun ws hws => by cases hws; exact hshared) hs

/-- A batch that is merged shows in the context, and one that failed does not. -/
theorem faithful_parallel (hD : D.Within (.plain V))
    (hF : ∀ id, F (.illegal (.writeInReadOnly id)))
    (ht : ∀ task ∈ tasks, task.Honest D hooks F) :
    (Body.parallel tasks).gathered.Faithful D hooks F := by
  refine ⟨fun {run ds x h} hr hx hs => ?_⟩
  have hgather : ∀ g : Host V (Chronicle V), (Body.parallel tasks).gathered.runOn x g =
      ((((Body.parallel tasks).runOn x g).1.1.map fun l => (l.map Prod.fst, l.flatMap Prod.snd),
        ((Body.parallel tasks).runOn x g).1.2), ((Body.parallel tasks).runOn x g).2) := fun _ => rfl
  rw [hgather] at hs ⊢
  have hf : h.Follows run ((Body.parallel tasks).runOn x h).2 :=
    (Session.Goes.parallel fun task htask => (ht task htask).goes).follows (t := ⟨x, h⟩) hx.engine
  have hstay := hx.follow hr hf
  rw [runOn_parallel tasks hx.active] at hs hstay ⊢
  have hbatch := ready_batched hD ht (hr.pin (x.holds ++ h.world.pinned)) (hx.pin _)
  generalize batched x tasks { h with world.pinned := x.holds ++ h.world.pinned } = o at *
  obtain ⟨r, g⟩ := o
  dsimp only at *
  obtain ⟨horder, hfails, hbears⟩ := hbatch hs
  cases r with
  | error e => exact ends_error (horder.pin _) hstay.bears (hfails e rfl)
  | ok psb =>
    obtain ⟨ps, b⟩ := psb
    have hends := ends_adopt (p := (ps.map Prod.fst, ps.flatMap Prod.snd)) hD hF
      (horder.pin h.world.pinned) hstay.bears (hbears ps b rfl)
    dsimp only at hends ⊢
    cases hadopt : (x.adopt b.merged).1 <;> rw [hadopt] at hends <;> exact hends

end Body

end VersionedMemory
