import VersionedMemory.Proofs.RunningAlone
import VersionedMemory.Proofs.FanOut
import VersionedMemory.Proofs.ReachedContexts
import VersionedMemory.Proofs.StrictReading

/-!
# What accumulators show is what is kept

A read of an accumulator folds the deltas of its context, and of all buffers below it, over the
pending write or over the value in the snapshot. A commit folds one merged delta over the pending
write or over the newest value. The two agree where nothing is written by hand and the commit goes
through: what was read last is what is committed.

A child that reads the accumulator in the end, and is merged, leaves to its parent what it showed.
For a nested child this is so because the parent takes over all that the child holds. For the last
task of a batch of checked tasks it is so because the task asked for the base when it read it: if a
task before it changed the base, it runs again over what those have come to, and if none did, what
they have come to holds nothing for the base. In both cases what the tasks come to shows what the
task showed. Deltas are merged where they were folded, so the operation has to be associative.

## Main definitions

* `Contribution.Foretells` says of a contribution that it shows a value over the buffers below it.
* `Body.Shows` and `Task.Shows` say that the result of a child is what it foretells.
* `Context.KeepsShown` says that what is shown last of an accumulator is what becomes of it.

## Main statements

* `Reached.committed`: what a transaction showed last is what its commit leaves.
* `Body.Shows.nested` and `Context.Stands.get_of_parallel`: what children showed last their parent
  shows.
* `shown_is_kept`: both of them, for all that programs come to.
-/

namespace VersionedMemory

variable {V α R : Type} [Inhabited V]

/-! ### Commits -/

section

variable {D : Discipline V} {hooks : Hooks} {a : Accumulator V} {b : Bid V}

omit [Inhabited V] in
/-- Where writes replace each other, a pending write settles what a commit makes of a cell. -/
theorem Context.resultAt_of_assign {x : Context V} {c : CellId} {b : Change V}
    (hw : x.writes.get? c = some b) {value : V} (hb : b.effect = .assign value) (u v : V) :
    x.resultAt c u = x.resultAt c v := by
  simp [resultAt, hw, hb, Effect.apply]

/-- A commit that goes through makes of the base of an accumulator what the transaction shows of it,
if it changes the base, and has written it or recorded a read of it. -/
theorem Bid.Fair.shown_of_answer (hb : b.Fair D hooks) (hD : D.Within (.plain V))
    (ha : D.Combines a) (hl : b.context.Lies [] false) (hc : b.context.Changes a.base)
    (hread : b.context.writes.get? a.base = none → b.context.reads.contains a.base = true)
    {receipt : Receipt} (hok : b.answer = .ok receipt) :
    (b.world.store.cell a.base).shown a.op b.context.snapshot b.context.layers =
      some ((b.world.commit b.context).2.store.cell a.base).value := by
  obtain ⟨lives, past, hs⟩ := hb.serves
  obtain ⟨r, -, hat⟩ := World.Serves.readAt hs (List.mem_cons_self ..) (hb.bears.suits.has hc)
  change (b.world.store.cell a.base).readAt b.context.snapshot = .ok r at hat
  have hne : b.context.changes ≠ [] := fun hnone =>
    Context.changes_eq_nil_iff_forall.1 hnone a.base hc
  obtain ⟨hsup, hpub⟩ : b.context.superseded? b.world.store = none ∧ b.receipt? ≠ none := by
    unfold Bid.receipt?
    rcases hb.answer_cases hD with
      ⟨hnone, -⟩ | ⟨-, ⟨_, -, hveto⟩ | ⟨-, ⟨_, -, hlost⟩ | ⟨hsup, hans⟩⟩⟩
    · exact absurd hnone hne
    · cases hveto.symm.trans hok
    · cases hlost.symm.trans hok
    · rw [hans]
      exact ⟨hsup, nofun⟩
  obtain ⟨-, ⟨hnone, -⟩ | ⟨_, -, -, -, hvalue⟩⟩ := hb.lands hD
  · exact absurd hnone hpub
  rw [hvalue, hb.bears.suits.shown_of_alone hD ha hl hat]
  congr 1
  -- what is left is that the snapshot and the newest value come to the same
  cases hw : b.context.writes.get? a.base with
  | some d =>
    obtain ⟨-, value, hd⟩ := hD.write _ d (hb.bears.suits.within.writes _ d hw).1
    exact Context.resultAt_of_assign hw hd _ _
  | none =>
    -- the read is not stale, so the snapshot sees the newest value
    obtain ⟨v, hv⟩ := Option.isSome_iff_exists.1 (hread hw)
    obtain ⟨r', hr', rfl⟩ := hb.bears.handed.backed _ v hv
    have hle := Nat.le_trans (Context.latest_le_of_superseded? hsup hv) (hb.seen hr').1
    rw [hb.mirrored] at hle
    rw [Cell.readAt_of_head_le hle] at hat
    cases hat
    rfl

end

variable {a : Accumulator V} {config : Config} {hooks : Hooks} {x y top : Context V}
  {h : Host V (Chronicle V)} {ds : List (Deed V)}

/-- A transaction that reads an accumulator has written the base, or records that it read it. -/
theorem Context.contains_reads_get (ha : x.status = .active) (hl : x.Lies [] false)
    (hm : x.mode.recordsReads = true) {s : Store V} {c : CellId} {r : Record V}
    (hr : (s.cell c).readAt x.snapshot = .ok r) (hw : x.writes.get? c = none) (op : V → V → V) :
    (x.get (s.cell c) op).2.reads.contains c = true := by
  have hshared : x.shared = none := by simpa using hl.shared
  have hnone : x.writeFor (s.cell c).id = none := by
    simp [writeFor, Context.layers, hl.enclosing, writeThrough, Layer.write?, layer, hw, hshared]
  rw [snd_get, read_of_writeFor_eq_none _ ha hnone hr]
  simp [observe, hm, Table.contains, Table.get?_insertNew]

/-- What a transaction shows of an accumulator is what its commit leaves there, if nothing comes
between but what others do, and the commit goes through and changes the base. -/
theorem Reached.committed (hx : Reached R a config hooks x h) (hk : x.kind = none) {value : V}
    (hget : x.get (h.world.store.cell a.base) a.op = (.ok value, y)) {q : Program V R}
    (hq : q.Minds a) (hlast : (q.told ⟨y, h⟩).2.context = y)
    (hn : (q.told ⟨y, h⟩).2.host.client.strays = []) {receipt : Receipt}
    (hok : ((q.told ⟨y, h⟩).2.host.world.commit y).1 = .ok receipt) (hc : y.Changes a.base) :
    (((q.told ⟨y, h⟩).2.host.world.commit y).2.store.cell a.base).value = value := by
  obtain ⟨top, ds, hs⟩ := hx.stands (List.eq_nil_of_subset_nil
    (hn ▸ hq.told_goes.strays ⟨y, h⟩))
  have hy : y = (x.get (h.world.store.cell a.base) a.op).2 := (congrArg Prod.snd hget).symm
  have hlife : y.life = x.life := hy ▸ Context.Access.life_eq (.get a)
  obtain ⟨hwrites, hdeltas, -⟩ := x.read_frame (h.world.store.cell a.base)
  have hmode := x.mode_read (h.world.store.cell a.base)
  have hlayers := x.layers_get (h.world.store.cell a.base) a.op
  rw [← Context.snd_get _ _ a.op, ← hy] at hwrites hdeltas hmode
  rw [← hy] at hlayers
  have hsnap : y.snapshot = x.snapshot := congrArg Life.snapshot hlife
  have hky : y.kind = none := (congrArg Life.kind hlife).trans hk
  have hhas := hs.at_top.bears.suits.has (c := a.base) (by
    unfold Context.Changes at hc ⊢
    rwa [hwrites, hdeltas] at hc)
  obtain ⟨r, hat⟩ := hs.at_top.readAt hs.ready hhas
  -- the transaction stands after the read, and while others act
  obtain ⟨ds', hys⟩ := hs.get hhas
  rw [← hy] at hys
  have hts := hys.after hq hn
  rw [hlast] at hts
  have hrecords : x.mode.recordsReads = true :=
    hmode ▸ hys.at_top.bears.allowed (Context.hasWrites_of_changes fun hnone =>
      Context.changes_eq_nil_iff_forall.1 hnone a.base hc)
  have hread : y.writes.get? a.base = none → y.reads.contains a.base = true := fun hw => by
    rw [hwrites] at hw
    rw [hy]
    exact Context.contains_reads_get hs.at_top.active (hs.alone hk).2 hrecords hat hw a.op
  have hshown := (hts.fair hky).shown_of_answer (Discipline.combining_within a)
    (Discipline.combining_combines a) (hts.alone hky).2 hc hread hok
  -- what the snapshot shows stays as it is
  have hstay := (hys.at_top.store_extends hys.ready
    (hq.told_goes.follows (t := ⟨y, h⟩) hys.at_top.engine)).shown_eq hhas a.op x.layers
  have hfirst := (Context.get_eq_ok_iff hs.at_top.active).1 (congrArg Prod.fst hget)
  rw [hsnap, hfirst] at hstay
  dsimp only at hshown
  rw [hsnap, hlayers, hstay] at hshown
  exact (Option.some.inj hshown).symm

/-! ### Children -/

/-- The contribution over the buffers shows the value of the accumulator, and it is one of a child
that asked for the base. -/
structure Contribution.Foretells (a : Accumulator V) (s : Store V) (n : Version)
    (below : List (Layer V)) (value : V) (e : Contribution V) : Prop where
  has : s.Has a.base
  asked : a.base ∈ e.asked
  shown : (s.cell a.base).shown a.op n (e.layer :: below) = some value

theorem Contribution.Foretells.mono {s s' : Store V} {n : Version} {below : List (Layer V)}
    {value : V} {e : Contribution V} (he : e.Foretells a s n below value) (hs : s.Extends n s') :
    e.Foretells a s' n below value :=
  ⟨hs.has _ he.has, he.asked, (hs.shown_eq he.has a.op _).trans he.shown⟩

variable {give : V → R} {below : List (Layer V)}

/-- A body that gives, where it succeeds, what its child shows of the accumulator in the end. -/
structure Body.Shows (a : Accumulator V) (give : V → R)
    (body : Body V (Chronicle V) (R × List (Deed V))) : Prop where
  ends : ∀ {x : Context V} {h : Host V (Chronicle V)} {below : List (Layer V)},
    x.status = .active → x.kind.isSome = true → x.Lies below false →
      (body.runOn x h).2.client.strays = [] →
        ∀ p, (body.runOn x h).1.1 = .ok p → ∃ value, p.1 = give value ∧
          (body.runOn x h).1.2.handed.Foretells a (body.runOn x h).2.world.store x.snapshot below
            value

omit [Inhabited V] in
theorem Context.Lies.layers_eq (hl : x.Lies below false) : x.layers = x.handed.layer :: below := by
  have hshared : x.shared = none := by simpa using hl.shared
  simp [Context.layers, layer, Contribution.layer, handed, hl.enclosing, hshared]

/-- A program that reads the accumulator in the end shows it, as the body of a child. -/
theorem Program.Minds.shows {p : Program V R} (hp : p.Minds a) (give : V → R) :
    (p.thenShowing a give).told.ending.Shows a give := by
  refine ⟨fun {x h below} ha hk hl hn q hok => ?_⟩
  obtain ⟨r, hr, rfl⟩ := map_eq_ok_iff.1 hok
  obtain ⟨⟨value, hget, hvalue⟩, hend⟩ := told_thenShowing hr
  have hlife : (p.told ⟨x, h⟩).2.context.life = x.life := hp.told_goes.life ⟨x, h⟩
  have hlies : (p.told ⟨x, h⟩).2.context.Lies below false :=
    p.context_told (P := Context.Lies _ _) (fun _ _ _ hacc => hacc.lies) ⟨x, h⟩ hl
  change ((p.thenShowing a give).told ⟨x, h⟩).2.host.client.strays = [] at hn
  refine ⟨value, hvalue, ?_⟩
  change ((p.thenShowing a give).told ⟨x, h⟩).2.context.handed.Foretells a
      ((p.thenShowing a give).told ⟨x, h⟩).2.host.world.store x.snapshot below value
  rw [hend] at hn ⊢
  dsimp only at hn ⊢
  generalize p.told ⟨x, h⟩ = o at *
  obtain ⟨_, y, g⟩ := o
  dsimp only at *
  have hactive : y.status = .active := (congrArg Life.status hlife).trans ha
  have hchild : y.kind.isSome = true := (congrArg (·.kind.isSome) hlife).trans hk
  have hlast : (y.get (g.world.store.cell a.base) a.op).2.Lies below false :=
    Context.Access.lies (.get a) hlies
  refine ⟨(Chronicle.stray_eq_nil hn).1, ?_, ?_⟩
  · have hasked := Context.mem_asked_read hchild hactive (g.world.store.cell a.base)
    rwa [← Context.snd_get _ _ a.op, Store.id_cell] at hasked
  · rw [← hlast.layers_eq, y.layers_get, ← show y.snapshot = x.snapshot from
      congrArg Life.snapshot hlife]
    exact (Context.get_eq_ok_iff hactive).1 hget

variable {D : Discipline V} {F : Error → Prop} {run : List (Context V)} {e : Contribution V}
  {body : Body V (Chronicle V) (R × List (Deed V))} {p : R × List (Deed V)}

/-- What is handed over, if anything is, shows over the buffers what the child gave. -/
def Foretold (a : Accumulator V) (give : V → R) (s : Store V) (n : Version)
    (below : List (Layer V)) (o : Except Error ((R × List (Deed V)) × Contribution V)) : Prop :=
  ∀ p e, o = .ok (p, e) → ∃ value, p.1 = give value ∧ e.Foretells a s n below value

theorem Foretold.mono {s s' : Store V} {n : Version}
    {o : Except Error ((R × List (Deed V)) × Contribution V)}
    (ho : Foretold a give s n below o) (hs : s.Extends n s') : Foretold a give s' n below o :=
  fun p e he =>
    let ⟨value, hgive, hv⟩ := ho p e he
    ⟨value, hgive, hv.mono hs⟩

/-- A child that gives what it shows hands over what shows the same over the buffers below it. -/
theorem Body.Shows.inChild (hb : body.Shows a give) (hg : Session.Goes body.run) (kind : ChildKind)
    (hn : (body.inChild x kind below none h).2.client.strays = []) :
    Foretold a give (body.inChild x kind below none h).2.world.store x.snapshot below
      (handOver (body.inChild x kind below none h).1) := by
  intro p e ho
  have hlife : (body.inChild x kind below none h).1.2.life =
      (openChild x kind below none h).1.life := hg.life ⟨_, _⟩
  rw [handOver_eq (congrArg Life.status hlife)] at ho
  obtain ⟨q, hq, hpe⟩ := map_eq_ok_iff.1 ho
  cases hpe
  exact hb.ends rfl rfl (Context.lies_child x kind _ below none) hn p hq

section

variable (hop : ∀ u v w, a.op (a.op u v) w = a.op u (a.op v w))

include hop

/-- A context that takes over what shows a value over it shows the value. -/
theorem Context.At.get_of_adopt (hD : D.Within (.plain V)) (ha : D.Combines a)
    (hx : x.At D hooks run h ds) {shares : Bool} (hl : x.Lies below shares)
    (he : e.Within (D.on h.world.store)) {value : V}
    (hv : (h.world.store.cell a.base).shown a.op x.snapshot (e.layer :: x.layers) = some value)
    (hy : x.adopt e = (.ok (), y)) :
    (y.get (h.world.store.cell a.base) a.op).1 = .ok value := by
  rcases hx.bears.suits.adopt hD he with ⟨z, hz, hadopted, -⟩ | ⟨-, hill⟩
  · obtain rfl : z = y := congrArg Prod.snd (hz.symm.trans hy)
    have hsnap : z.snapshot = x.snapshot := congrArg Life.snapshot hadopted.life
    have hactive : z.status = .active := (congrArg Life.status hadopted.life).trans hx.active
    rw [get_eq_ok_iff hactive, hsnap,
      ← (hadopted.shows hD ha hop hx.bears.suits hl he).shown_eq x.snapshot]
    exact hv
  · cases hill.symm.trans hy

/-- What a child shows in the end the context shows after it took the child over. -/
theorem Body.Shows.nested (hb : body.Shows a give)
    (hh : body.Honest (.combining a) hooks fun _ => True) (hg : Session.Goes body.run)
    (hx : x.Stands a hooks h top ds) {t : Session V (Chronicle V)}
    (hrun : (Body.nested body).run ⟨x, h⟩ = (.ok p, t)) (hn : t.host.client.strays = []) :
    ∃ value, ((Body.get a).run t).1 = .ok value ∧ p.1 = give value := by
  obtain ⟨e, ho, hy, hhost⟩ := nested_eq_ok hrun
  obtain ⟨y, g⟩ := t
  dsimp only at ho hy hhost hn
  subst hhost
  have hgr := hx.ready.pin (x.holds ++ h.world.pinned)
  have hgx := hx.at_top.pin (x.holds ++ h.world.pinned)
  generalize ({ h with world.pinned := x.holds ++ h.world.pinned } : Host V _) = g at *
  obtain ⟨-, hgood, -⟩ := hh.inChild hg hgr hgx .nested hgx.bears.suits.layers (by simp) hn
  have hf : g.Follows [top] (body.inChild x .nested x.layers none g).2 :=
    ((hg.upholds_follows [top] g).inChild (invariant_follows [top] g) hgx.engine (.refl _ _) _ _
      _).2
  obtain ⟨value, hgive, hv⟩ := hb.inChild hg .nested hn p e ho
  obtain ⟨below, shares, hl⟩ := hx.lies
  exact ⟨value, (hgx.follow hgr hf).get_of_adopt hop (Discipline.combining_within a)
    (Discipline.combining_combines a) hl (hgood.bears p e ho).within hv.shown hy,
    hgive⟩

end

/-! ### Batches -/

variable {task : Task V (Chronicle V) (R × List (Deed V))}
  {tasks : List (Task V (Chronicle V) (R × List (Deed V)))} {b b' : Batch V}

/-- A checked task whose runs give what they show. -/
structure Task.Shows (a : Accumulator V) (give : V → R)
    (task : Task V (Chronicle V) (R × List (Deed V))) : Prop where
  checked : task.mode = .checked
  goes : ∀ n, Session.Goes (task.body n).run
  shows : ∀ n, (task.body n).Shows a give

theorem Task.Shows.performTask (ht : task.Shows a give) {n : Nat} {shared ws : WriteSet V}
    {o : Except Error ((R × List (Deed V)) × Contribution V)} {h' : Host V (Chronicle V)}
    (hrun : Body.performTask x below task n shared h = (o, ws, h')) (hn : h'.client.strays = []) :
    Foretold a give h'.world.store x.snapshot below o := by
  have hnone : (if task.mode = .shared then some shared else none) = none := by simp [ht.checked]
  unfold Body.performTask at hrun
  rw [hnone] at hrun
  cases hrun
  exact (ht.shows n).inChild (ht.goes n) _ hn

/-- The first runs of a batch hand over what shows, over the context, what they gave. -/
theorem foretold_firstRuns (give : V → R) (ht : ∀ task ∈ tasks, task.Honest D hooks F)
    (hs : ∃ past, (⟨h.world, run, past⟩ : Scene V).Sound) (hx : x.engine = sole)
    (hserved : ∃ y ∈ run, y.snapshot = x.snapshot) {shared : WriteSet V}
    (hn : (Body.firstRuns x tasks shared h).2.client.strays = []) :
    ∀ o ∈ tasks.zip (Body.firstRuns x tasks shared h).1.1, o.1.Shows a give →
      Foretold a give (Body.firstRuns x tasks shared h).2.world.store x.snapshot x.layers o.2 := by
  induction tasks generalizing h shared with
  | nil => exact fun _ ho => nomatch ho
  | cons task rest ih =>
    obtain ⟨htask, hrest⟩ := List.forall_mem_cons.1 ht
    have hf := Body.follows_performTask hx run h htask x.layers 1 shared
    unfold Body.firstRuns at hn ⊢
    generalize ho : Body.performTask x x.layers task 1 shared h = o at hf hn ⊢
    obtain ⟨r, ws, h₁⟩ := o
    dsimp only [Host.pinning] at hf hn ⊢
    obtain ⟨g, hg⟩ : ∃ g : Host V (Chronicle V), g = { h₁ with
      world.pinned := Body.outcomeHolds r ++ ws.targets ++ h₁.world.pinned } := ⟨_, rfl⟩
    rw [← hg] at hn ⊢
    have hpin : h₁.Follows run g := hg ▸ (invariant_follows run h₁).pin _ (.refl run h₁)
    have hlater := hpin.trans (Body.follows_firstRuns hx run g hrest ws)
    rw [List.zip_cons_cons]
    refine List.forall_mem_cons.2 ⟨fun hts => ?_, ih hrest (hpin.sound (hf.sound hs)) hn⟩
    obtain ⟨y, hy, hsnap⟩ := hserved
    exact (hts.performTask ho (hlater.strays_eq_nil hn)).mono
      (hsnap ▸ hlater.store_extends (hf.sound hs) hy)

/-- What is merged for a task shows over the batch what the task gave, whether it was kept as it
first ran or ran again. -/
theorem Task.Shows.settle (ht : task.Shows a give)
    (ho : Foretold a give h.world.store x.snapshot x.layers (.ok (p, e))) (hb : b.Marks)
    {shared : Option (WriteSet V)} (hn : (Body.settle x task p e b shared h).2.client.strays = [])
    {p' : R × List (Deed V)} {e' : Contribution V}
    (hset : (Body.settle x task p e b shared h).1 = .ok (p', e', b')) :
    Foretold a give (Body.settle x task p e b shared h).2.world.store x.snapshot
      (b.layers x.layers) (.ok (p', e')) := by
  obtain ⟨-, ⟨hc, rfl, rfl, hh⟩ | ⟨-, ws, hagain⟩⟩ := Body.settle_eq_ok ht.checked hset
  · rw [hh]
    intro q d hq
    cases hq
    obtain ⟨value, hgive, hv⟩ := ho p' e' rfl
    refine ⟨value, hgive, hv.has, hv.asked, ?_⟩
    -- the batch holds nothing for the base, which the task asked for
    obtain ⟨hw, hd⟩ := hb a.base
      (Batch.clash_eq_none_iff.1 hc _ (List.mem_append_left _ hv.asked))
    rw [← hv.shown]
    refine SeenAlike.shown_eq (.cons (seenAlike_cons_of_none ?_ ?_ _ _) _) _
    · rw [Store.id_cell]
      exact (b.merged.write?_layer a.base).trans hw
    · rwa [Store.id_cell]
  · exact ht.performTask hagain hn

section

variable (hop : ∀ u v w, a.op (a.op u v) w = a.op u (a.op v w))

include hop

/-- The batch that tasks were merged into shows, over the context, what the last task gave. -/
theorem shown_of_mergeRuns (hD : D.Within (.plain V)) (ha : D.Combines a)
    {outcomes : List (Task V (Chronicle V) (R × List (Deed V)) ×
      Except Error ((R × List (Deed V)) × Contribution V))} (hne : outcomes ≠ [])
    (ht : ∀ o ∈ outcomes, o.1.Honest D hooks F) (hchecked : ∀ o ∈ outcomes, o.1.mode = .checked)
    (ho : ∀ o ∈ outcomes, Handed D hooks F h.world.store x o.2)
    (hlast : ∀ o, outcomes.getLast? = some o → o.1.Shows a give ∧
      Foretold a give h.world.store x.snapshot x.layers o.2)
    (hr : h.Ready D hooks F run) (hx : x.At D hooks run h ds) {ds' : List (Deed V)}
    (hb : b.merged.Bears D h.world.store x.snapshot (x.Validates hooks) ds') (hmarks : b.Marks)
    {shared : Option (WriteSet V)}
    (hshared : ∀ ws, shared = some ws → ws.All (D.on h.world.store).write)
    {h' : Host V (Chronicle V)} {ps : List (R × List (Deed V))}
    (hm : Body.mergeRuns x outcomes b shared h = (.ok (ps, b'), h')) (hn : h'.client.strays = []) :
    ∃ p value, ps.getLast? = some p ∧ p.1 = give value ∧
      (h'.world.store.cell a.base).shown a.op x.snapshot (b'.layer :: x.layers) = some value := by
  -- every task that is merged leaves a batch that is in order and marks all that it holds
  induction outcomes generalizing h b shared ds' ps with
  | nil => exact absurd rfl hne
  | cons o rest ih =>
    obtain ⟨task, o⟩ := o
    obtain ⟨htask, htrest⟩ := List.forall_mem_cons.1 ht
    obtain ⟨hmode, hmrest⟩ := List.forall_mem_cons.1 hchecked
    change task.mode = .checked at hmode
    obtain ⟨hhanded, horest⟩ := List.forall_mem_cons.1 ho
    obtain ⟨p, e, cells, p', e', b₁, g, b₂, ps', rfl, rfl, hset, hadd, hrest⟩ :=
      Body.mergeRuns_cons_eq_ok hm
    have hstep := Body.ready_step hD htask hr hx (hhanded.bears p e rfl) hb hshared cells
    have hf := Body.follows_settle hx.engine run h htask p e b shared cells
    have hf' := Body.follows_mergeRuns hx.engine run g htrest b₂
      (if task.mode = .shared then none else shared)
    rw [hset] at hstep hf
    rw [hrest] at hf'
    have hng := hf'.strays_eq_nil hn
    obtain ⟨horder, -, hgood⟩ := hstep hng
    obtain ⟨he', hb₁⟩ := hgood p' e' b₁ rfl
    obtain rfl : b₁ = b := (Body.settle_eq_ok hmode (congrArg Prod.fst hset)).1
    obtain ⟨b₃, hadd₃, hj, hb₂⟩ := Batch.add_of_bears hD hb₁ he'
    obtain rfl : b₃ = b₂ := congrArg Prod.snd (hadd₃.symm.trans hadd)
    have hstay := hx.store_extends hr hf
    cases rest with
    | nil =>
      -- the last task was settled for the batch, and the batch shows what it showed over the batch
      cases hrest
      obtain ⟨hshows, hfore⟩ := hlast _ rfl
      have hsettled := hshows.settle hfore hmarks (h := { h with
        world.pinned := cells ++ h.world.pinned })
        ((congrArg (fun o => o.2.client.strays) hset).trans hng) (congrArg Prod.fst hset)
      obtain ⟨value, hgive, hv⟩ := hsettled p' e' rfl
      refine ⟨p', value, rfl, hgive, ?_⟩
      have hg : h'.world.store = (Body.settle x task p e b₁ shared { h with
          world.pinned := cells ++ h.world.pinned }).2.world.store :=
        (congrArg (fun o => o.2.world.store) hset).symm
      rw [← (hj.shows hD ha hop hb₁.within he'.within x.layers).shown_eq, hg]
      exact hv.shown
    | cons o' rest =>
      -- what the last task foretold in its first run it foretells as the store goes on
      have hlater : ∀ o, (o' :: rest).getLast? = some o → o.1.Shows a give ∧
          Foretold a give g.world.store x.snapshot x.layers o.2 := fun o ho =>
        (hlast o (by rwa [List.getLast?_cons_cons])).imp_right (·.mono hstay)
      have hleft : ∀ ws, (if task.mode = .shared then none else shared) = some ws →
          ws.All (D.on g.world.store).write := fun ws hws c d hd => by
        rw [if_neg (show task.mode ≠ .shared by simp [hmode])] at hws
        exact (hstay.within D).write c d (hshared ws hws c d hd)
      obtain ⟨q, value, hq, hgive, hv⟩ := ih (List.cons_ne_nil _ _) htrest hmrest
        (fun o ho => (horest o ho).mono hstay) hlater (hr.follow hf horder) (hx.follow hr hf) hb₂
        (hj.marks hmarks) hleft hrest
      exact ⟨q, value, by rw [List.getLast?_cons, hq]; rfl, hgive, hv⟩

/-- What the tasks of a batch come to shows, over the context, what the last task gave. -/
theorem shown_of_batched (hD : D.Within (.plain V)) (ha : D.Combines a) (hne : tasks ≠ [])
    (ht : ∀ task ∈ tasks, task.Honest D hooks F) (hchecked : ∀ task ∈ tasks, task.mode = .checked)
    (hlast : ∀ task, tasks.getLast? = some task → task.Shows a give)
    (hr : h.Ready D hooks F run) (hx : x.At D hooks run h ds) {rs : List (R × List (Deed V))}
    {h' : Host V (Chronicle V)} (hb : Body.batched x tasks h = (.ok (rs, b), h'))
    (hn : h'.client.strays = []) :
    h.Follows run h' ∧ ∃ p value, rs.getLast? = some p ∧ p.1 = give value ∧
      (h'.world.store.cell a.base).shown a.op x.snapshot (b.layer :: x.layers) = some value := by
  have hfirst := Body.ready_firstRuns ht hr hx WriteSet.all_empty
  have hfore := fun (hn : (Body.firstRuns x tasks ∅ h).2.client.strays = []) =>
    foretold_firstRuns (a := a) give ht hr.sound hx.engine hx.served hn
  have hf := Body.follows_firstRuns hx.engine run h ht ∅
  have hlen := Body.length_firstRuns x tasks ∅ h
  unfold Body.batched at hb
  generalize Body.firstRuns x tasks ∅ h = o at *
  obtain ⟨⟨outcomes, shared⟩, g⟩ := o
  dsimp only at *
  -- the tasks and their outcomes, in their order
  have hfst : (tasks.zip outcomes).map Prod.fst = tasks := List.map_fst_zip hlen.ge
  have hmem : ∀ o ∈ tasks.zip outcomes, o.1 ∈ tasks := fun o ho => (List.of_mem_zip ho).1
  have hf' := Body.follows_mergeRuns hx.engine run g (fun o ho => ht o.1 (hmem o ho)) {}
    (some shared)
  rw [hb] at hf'
  have hng := hf'.strays_eq_nil hn
  obtain ⟨horder, hhanded, hshared⟩ := hfirst hng
  refine ⟨hf.trans hf', shown_of_mergeRuns hop hD ha (fun hnil => hne ?_)
    (fun o ho => ht o.1 (hmem o ho)) (fun o ho => hchecked o.1 (hmem o ho))
    (fun o ho => hhanded o.2 (List.of_mem_zip ho).2) (fun o ho => ?_) (hr.follow hf horder)
    (hx.follow hr hf) (Contribution.bears_empty ..) (fun _ _ => ⟨rfl, rfl⟩)
    (fun ws hws => by cases hws; exact hshared) hb hn⟩
  · rw [← hfst, hnil]
    rfl
  · have hshows := hlast o.1 (by rw [← hfst, List.getLast?_map, ho]; rfl)
    exact ⟨hshows, hfore hng o (List.mem_of_getLast? ho) hshows⟩

/-- What the last task of a batch shows in the end the context shows after it took the batch over.
-/
theorem Context.Stands.get_of_parallel (give : V → R) (hx : x.Stands a hooks h top ds)
    (hne : tasks ≠ [])
    (ht : ∀ task ∈ tasks, task.Honest (.combining a) hooks fun _ => True)
    (hchecked : ∀ task ∈ tasks, task.mode = .checked)
    (hlast : ∀ task, tasks.getLast? = some task → task.Shows a give)
    {rs : List (R × List (Deed V))} {t : Session V (Chronicle V)}
    (hrun : (Body.parallel tasks).run ⟨x, h⟩ = (.ok rs, t)) (hn : t.host.client.strays = []) :
    ∃ p value, ((Body.get a).run t).1 = .ok value ∧ rs.getLast? = some p ∧ p.1 = give value := by
  obtain ⟨b, hb, hy, hhost⟩ := Body.parallel_eq_ok hrun
  obtain ⟨y, g⟩ := t
  dsimp only at hb hy hhost hn
  subst hhost
  have hgr := hx.ready.pin (x.holds ++ h.world.pinned)
  have hgx := hx.at_top.pin (x.holds ++ h.world.pinned)
  generalize ({ h with world.pinned := x.holds ++ h.world.pinned } : Host V _) = g at *
  obtain ⟨-, -, hbears⟩ := Body.ready_batched (Discipline.combining_within a) ht hgr hgx hn
  obtain ⟨hf, p, value, hp, hgive, hv⟩ := shown_of_batched hop (Discipline.combining_within a)
    (Discipline.combining_combines a) hne ht hchecked hlast hgr hgx (Prod.ext hb rfl) hn
  obtain ⟨below, shares, hl⟩ := hx.lies
  exact ⟨p, value, (hgx.follow hgr hf).get_of_adopt hop (Discipline.combining_within a)
    (Discipline.combining_combines a) hl (hbears rs b hb).within hv hy, hp, hgive⟩

end

/-! ### What is kept -/

/-- Programs that are told of as a checked task, one for each run of it. -/
def Program.toldTask (p : Nat → Program V R) : Task V (Chronicle V) (R × List (Deed V)) where
  mode := .checked
  body n := (p n).told.ending

namespace Program.Minds

theorem honest {p : Program V R} (hp : p.Minds a) (hooks : Hooks) :
    p.told.ending.Honest (.combining a) hooks fun _ => True :=
  (hp.told_faithful hooks).ending

variable {p : Nat → Program V R}

theorem toldTask_honest (hp : ∀ n, (p n).Minds a) (hooks : Hooks) :
    (toldTask p).Honest (.combining a) hooks fun _ => True :=
  ⟨fun n => (hp n).told_goes.ending, fun n => (hp n).honest hooks⟩

theorem toldTask_shows (hp : ∀ n, (p n).Minds a) (give : V → R) :
    (toldTask fun n => (p n).thenShowing a give).Shows a give :=
  ⟨rfl, fun n => ((hp n).thenShowing give).told_goes.ending, fun n => (hp n).shows give⟩

end Program.Minds

/-- What a context shows of an accumulator in the end is what becomes of it, where no access is to a
cell that is not there. -/
structure Context.KeepsShown (a : Accumulator V) (give : V → R) (x : Context V)
    (h : Host V (Chronicle V)) : Prop where
  /-- If the transaction does nothing after it has read the accumulator, changes the base, and its
  commit succeeds, then the value of the base is what was read. -/
  committed : x.kind = none → ∀ value y,
    x.get (h.world.store.cell a.base) a.op = (.ok value, y) → ∀ q : Program V R, q.Minds a →
      let t := (q.told ⟨y, h⟩).2
      t.context = y → t.host.client.strays = [] →
        ∀ receipt, (t.host.world.commit y).1 = .ok receipt → y.Changes a.base →
          ((t.host.world.commit y).2.store.cell a.base).value = value
  /-- If the operation is associative, what a nested child shows last the context shows once it has
  taken the child over. -/
  nested : (∀ u v w, a.op (a.op u v) w = a.op u (a.op v w)) → ∀ p : Program V R, p.Minds a →
    ∀ result ds t,
      (Body.nested (p.thenShowing a give).told.ending).run ⟨x, h⟩ = (.ok (result, ds), t) →
        t.host.client.strays = [] →
          ∃ value, ((Body.get a).run t).1 = .ok value ∧ result = give value
  /-- If the operation is associative, what the last of a batch of checked tasks shows last the
  context shows once it has taken the batch over, whether the tasks ran once or twice. -/
  parallel : (∀ u v w, a.op (a.op u v) w = a.op u (a.op v w)) →
    ∀ (ps : List (Nat → Program V R)) (q : Nat → Program V R),
      (∀ p ∈ ps, ∀ n, (p n).Minds a) → (∀ n, (q n).Minds a) → ∀ results t,
        (Body.parallel ((ps ++ [fun n => (q n).thenShowing a give]).map Program.toldTask)).run
            ⟨x, h⟩ = (.ok results, t) →
          t.host.client.strays = [] →
            ∃ value ds, ((Body.get a).run t).1 = .ok value ∧
              results.getLast? = some (give value, ds)

/-- Over every run of one engine, for every accumulator and for every context that programs come to,
by any writes of the base, any deltas and any children, and with anything that others do, what is
shown last is kept. The context may be a child itself, at any depth. -/
theorem shown_is_kept (give : V → R) (hx : Reached R a config hooks x h) :
    x.KeepsShown a give h := by
  refine ⟨fun hk value y hget q hq hlast hn receipt hok hc =>
    hx.committed hk hget hq hlast hn hok hc, fun hop p hp result ds t hrun hn => ?_,
      fun hop ps q hps hq results t hrun hn => ?_⟩
  · have hgoes := (hp.thenShowing give).told_goes.ending
    obtain ⟨top, ds', hs⟩ := hx.stands_before hgoes.nested (by rw [hrun]; exact hn)
    exact (hp.shows give).nested hop ((hp.thenShowing give).honest hooks) hgoes hs hrun hn
  · let last := fun n => (q n).thenShowing a give
    have hall : ∀ p ∈ ps ++ [last], ∀ n, (p n).Minds a := by
      intro p hp
      rcases List.mem_append.1 hp with hp | hp
      · exact hps p hp
      · rw [List.mem_singleton.1 hp]
        exact fun n => (hq n).thenShowing give
    have hhonest := List.forall_mem_map.2 fun p hp =>
      Program.Minds.toldTask_honest (hall p hp) hooks
    have hgoes := Session.Goes.parallel fun task ht => (hhonest task ht).goes
    obtain ⟨top, ds', hs⟩ := hx.stands_before hgoes (by rw [hrun]; exact hn)
    obtain ⟨⟨_, ds⟩, value, hget, hp, rfl⟩ := hs.get_of_parallel hop give (by simp) hhonest
      (List.forall_mem_map.2 fun _ _ => rfl) (fun task ht => by
        rw [List.map_append, List.map_cons, List.map_nil, List.getLast?_concat] at ht
        cases ht
        exact Program.Minds.toldTask_shows hq give) hrun hn
    exact ⟨value, ds, hget, hp⟩

/-- A journal, to which entries are put in their order. The transaction puts an entry, writes the
journal anew, puts another one and has a child put a third, while somebody else commits. It is to
commit what it shows; or it has a child that writes the journal anew before it puts an entry; or it
has two tasks, of which the second one runs again. -/
theorem shown_is_kept_journal :
    let journal : Accumulator (List Nat) := ⟨⟨1⟩, fun u v => u ++ v⟩
    let actions : List (Action (List Nat) (List Nat)) :=
      [.create sole 0 [0], .create sole 0 []]
    let p : Program (List Nat) (List Nat) := .put journal [1] fun _ => .write ⟨1⟩ [5] fun _ =>
      .nested (.put journal [2] fun _ => .done []) fun _ => .done []
    let q : Program (List Nat) (List Nat) :=
      .aside (.atomically sole .readWrite (.write ⟨2⟩ [7] fun _ => .done [])) (.done [])
    let inner : Program (List Nat) (List Nat) :=
      .write ⟨1⟩ [6] fun _ => .put journal [3] fun _ => .done []
    let first : Nat → Program (List Nat) (List Nat) := fun _ => .put journal [4] fun _ => .done []
    let last : Nat → Program (List Nat) (List Nat) := fun n => .put journal [n] fun _ => .done []
    let made := chronicled {} {} actions
    let begun := made.world.begin sole .readWrite
    let s := (p.told ⟨begun.1, { made with world := begun.2 }⟩).2
    let y := (s.context.get (s.host.world.store.cell journal.base) journal.op).2
    let w := (q.told ⟨y, s.host⟩).2.host.world
    ((w.commit y).2.store.cell journal.base).value = [5, 1, 2] ∧
      (∃ ds t, (Body.nested (inner.thenShowing journal id).told.ending).run s =
          (.ok ([6, 1, 2, 3], ds), t) ∧
        ((Body.get journal).run t).1 = .ok [6, 1, 2, 3]) ∧
      ∃ results ds t,
        (Body.parallel ([first, fun n => (last n).thenShowing journal id].map
            Program.toldTask)).run s = (.ok results, t) ∧
          results.getLast? = some ([5, 1, 2, 4, 2], ds) ∧
            ((Body.get journal).run t).1 = .ok [5, 1, 2, 4, 2] := by
  intro journal actions p q inner first last made begun s y w
  let tasks := [first, fun n => (last n).thenShowing journal id].map Program.toldTask
  have hget : (s.context.get (s.host.world.store.cell journal.base) journal.op).1 =
      .ok [5, 1, 2] := by decide +kernel
  have hn : (q.told ⟨y, s.host⟩).2.host.client.strays = [] := by decide +kernel
  have hcommit : (w.commit y).1.toOption.isSome = true := by decide +kernel
  have hc : y.Changes journal.base := by decide +kernel
  have hk : s.context.kind = none := by decide +kernel
  have hnested : ((Body.nested (inner.thenShowing journal id).told.ending).run s).1.toOption.map
      Prod.fst = some [6, 1, 2, 3] := by decide +kernel
  have hnn : ((Body.nested (inner.thenShowing journal id).told.ending).run
      s).2.host.client.strays = [] := by decide +kernel
  have hbatch : ((Body.parallel tasks).run s).1.toOption.map (·.map Prod.fst) =
      some [[], [5, 1, 2, 4, 2]] := by decide +kernel
  have hnb : ((Body.parallel tasks).run s).2.host.client.strays = [] := by decide +kernel
  have hlast : ∀ z g, (q.told ⟨z, g⟩).2.context = z := fun z g => by
    simp only [q, Program.told]
    rfl
  have hacts : ∀ act ∈ actions, act.Minds journal := fun act hact => by
    have hl : ∀ act ∈ actions, act.Local := by simp [actions, Action.Local]
    have ha : ∀ act ∈ actions, act.Abides (.combining journal) fun _ => True := by
      simp [actions, Action.Abides]
    exact ⟨hl act hact, ha act hact⟩
  have hminds : p.Minds journal ∧ q.Minds journal ∧ inner.Minds journal ∧
      (∀ n, (first n).Minds journal) ∧ ∀ n, (last n).Minds journal := by
    refine ⟨⟨?_, ?_⟩, ⟨?_, ?_⟩, ⟨?_, ?_⟩, fun n => ⟨?_, ?_⟩, fun n => ⟨?_, ?_⟩⟩ <;>
      simp [p, q, inner, first, last, journal, Program.Local, Action.Local, Program.Abides,
        Action.Abides, Discipline.combining, Discipline.plain, Discipline.accumulating]
  have hassoc : ∀ u v w, journal.op (journal.op u v) w = journal.op u (journal.op v w) :=
    List.append_assoc
  have hreached : Reached (List Nat) journal {} {} s.context s.host :=
    .after p (.start actions hacts (.begun .readWrite)) hminds.1
  -- all that has to be computed is settled
  clear_value s begun made
  have hkeeps := shown_is_kept id hreached
  refine ⟨?_, ?_, ?_⟩
  · obtain ⟨receipt, hok⟩ : ∃ receipt, (w.commit y).1 = .ok receipt := by
      rcases hr : (w.commit y).1 with e | receipt
      · rw [hr] at hcommit
        cases hcommit
      · exact ⟨receipt, rfl⟩
    exact hkeeps.committed hk _ y (Prod.ext hget rfl) q hminds.2.1 (hlast y s.host) hn receipt hok
      hc
  · rcases hrun : (Body.nested (inner.thenShowing journal id).told.ending).run s with
      ⟨e | ⟨result, ds⟩, t⟩
    · rw [hrun] at hnested
      cases hnested
    · rw [hrun] at hnested hnn
      obtain rfl : result = [6, 1, 2, 3] := Option.some.inj hnested
      obtain ⟨value, hvalue, rfl⟩ := hkeeps.nested hassoc inner hminds.2.2.1 _ ds t hrun hnn
      exact ⟨ds, t, rfl, hvalue⟩
  · rcases hrun : (Body.parallel tasks).run s with ⟨e | results, t⟩
    · rw [hrun] at hbatch
      cases hbatch
    · rw [hrun] at hbatch hnb
      obtain ⟨value, ds, hvalue, hres⟩ := hkeeps.parallel hassoc [first] last
        (List.forall_mem_singleton.2 hminds.2.2.2.1) hminds.2.2.2.2 results t hrun hnb
      have hall : results.map Prod.fst = [[], [5, 1, 2, 4, 2]] := Option.some.inj hbatch
      obtain rfl : value = [5, 1, 2, 4, 2] := by
        have hend := congrArg List.getLast? hall
        rw [List.getLast?_map, hres] at hend
        exact Option.some.inj hend
      exact ⟨results, ds, t, rfl, hres, hvalue⟩

end VersionedMemory
