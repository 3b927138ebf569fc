import VersionedMemory.Proofs.CommitOutcomes

/-!
# Programs tell what they do

A program that keeps to a discipline is faithful: what it tells is what its context shows when it
has ended, whatever other actors did in between. An action keeps the chronicle true, the bodies that
it runs included: it only moves transactions about, or it begins one, or it publishes what the
commit of one makes of the newest values. So the chronicle of every run of the engine is true.

## Main statements

* `Body.Faithful.andTell`: a faithful call with something faithful after it is faithful.
* `Host.InOrder.commit`: the chronicle stays true when a commit is entered.
* `Program.told_faithful` and `Action.told_inOrder`: programs are faithful, and actions keep the
  chronicle true.
* `chronicled_ready`: after every run the chronicle is true.
-/

namespace VersionedMemory

variable {V α R : Type} [Inhabited V]
  {D : Discipline V} {hooks : Hooks} {F : Error → Prop} {run : List (Context V)}
  {h h' : Host V (Chronicle V)} {w w' : World V} {x y : Context V} {ds : List (Deed V)}
  {past : History V}

/-! ### Accesses and what comes after them -/

omit [Inhabited V] in
theorem FailsIn.map {β : Type} {r : Except Error α} (hr : FailsIn F r) (f : α → β) :
    FailsIn F (r.map f) :=
  fun e he => hr e (map_eq_error_iff.1 he)

omit [Inhabited V] in
/-- A cell that was asked for was there, if none was missing. -/
theorem Chronicle.stray_eq_nil {k : Chronicle V} {s : Store V} {c : CellId}
    (hn : (k.stray s c).strays = []) : s.Has c ∧ k.stray s c = k := by
  unfold stray at hn ⊢
  split at hn
  · next hc => exact ⟨hc, if_pos hc⟩
  · simp at hn

namespace Body

/-- An access is faithful if what it tells shows in the context where its cell is there. -/
theorem faithful_telling {f : World V → Context V → Except Error α × Context V} {c : CellId}
    {does : Store V → Context V → List (Deed V)}
    (hf : ∀ {run ds x h}, h.Ready D hooks F run → x.At D hooks run h ds → h.world.store.Has c →
      FailsIn F (f h.world x).1 ∧ (f h.world x).2.Bears D hooks h.world.store
        (ds ++ deedsOf ((f h.world x).1.map fun a => (a, does h.world.store x)))) :
    ((access f : Body V (Chronicle V) α).telling c does).Faithful D hooks F := by
  refine ⟨fun {run ds x h} hr hx hs => ?_⟩
  obtain ⟨hc, hclient⟩ := Chronicle.stray_eq_nil hs
  obtain ⟨hfails, hbears⟩ := hf hr hx hc
  refine ⟨?_, hbears, hfails.map _⟩
  have horder : Host.InOrder D hooks F { h with client := h.client.stray h.world.store c } := by
    rw [hclient]
    exact hr.order
  exact horder

theorem faithful_read (hD : D.Within (.plain V)) (c : CellId) :
    ((read c).telling c fun s x => (x.sighted s c).toList.map (.read c)).Faithful D hooks F := by
  refine faithful_telling fun {run ds x h} hr hx hc => ?_
  obtain ⟨r, hat⟩ := hx.readAt hr hc
  have hbears := hx.bears.read hD hx.active hc hat
  obtain ⟨v, hv⟩ := hx.bears.suits.read_ok hD hx.active hat
  rw [hv]
  exact ⟨nofun, hbears⟩

theorem faithful_get (hD : D.Within (.plain V)) (a : Accumulator V) :
    ((get a).telling a.base fun s x =>
      (x.sighted s a.base).toList.map (.read a.base)).Faithful D hooks F := by
  refine faithful_telling fun {run ds x h} hr hx hc => ?_
  obtain ⟨r, hat⟩ := hx.readAt hr hc
  have hbears := hx.bears.read hD hx.active hc hat
  rw [← Context.snd_get x _ a.op] at hbears
  obtain ⟨v, hv⟩ := hx.bears.suits.get_ok hD hx.active hat a.op
  rw [hv]
  exact ⟨nofun, hbears⟩

theorem faithful_write (hD : D.Within (.plain V)) (hF : ∀ id, F (.illegal (.writeInReadOnly id)))
    {c : CellId} {value : V} (hw : ∀ type, D.write c ⟨c, type, .assign value⟩) :
    ((write c value).telling c fun _ _ => []).Faithful D hooks F := by
  refine faithful_telling fun {run ds x h} hr hx hc => ?_
  obtain ⟨hok, hbears⟩ := hx.bears.write hD hx.active hc (hw _)
  rcases hok with hok | hill
  · rw [hok]
    exact ⟨nofun, by simpa [deedsOf, Except.map] using hbears⟩
  · rw [hill]
    exact ⟨fun e he => by cases he; exact hF x.id, by simpa [deedsOf, Except.map] using hbears⟩

theorem faithful_put (hD : D.Within (.plain V)) (hF : ∀ id, F (.illegal (.writeInReadOnly id)))
    {a : Accumulator V} {delta : V}
    (hd : ∀ type, D.delta a.base ⟨a.base, type, .combine a.op delta⟩) :
    ((put a delta).telling a.base fun _ _ => [.put a delta]).Faithful D hooks F := by
  refine faithful_telling fun {run ds x h} hr hx hc => ?_
  rcases hx.bears.put hD hx.active hc (hd _) with ⟨y, hy, hbears⟩ | hill
  · rw [hy]
    exact ⟨nofun, hbears⟩
  · rw [hill]
    exact ⟨fun e he => by cases he; exact hF x.id,
      by simpa [deedsOf, Except.map] using hx.bears⟩

/-- A faithful call with something faithful after it is faithful. -/
theorem Faithful.andTell {body : Body V (Chronicle V) (α × List (Deed V))}
    {next : Except Error α → Telling V R} (hb : body.Faithful D hooks F)
    (hg : Session.Goes body.run) (hn : ∀ r, FailsIn F r → (next r).Faithful D hooks F)
    (hgn : ∀ r, Session.Goes (next r)) : (body.andTell next).Faithful D hooks F := by
  refine ⟨fun {run ds x h} hr hx hs => ?_⟩
  have hf : h.Follows run (body.run ⟨x, h⟩).2.host :=
    hg.follows (t := ⟨x, h⟩) hx.engine
  have hlife : (body.run ⟨x, h⟩).2.context.life = x.life := hg.life ⟨x, h⟩
  have hcall : (body.run ⟨x, h⟩).2.host.client.strays = [] →
      Ends D hooks F (body.run ⟨x, h⟩).2.host (body.run ⟨x, h⟩).2.context
        (ds ++ deedsOf (body.run ⟨x, h⟩).1) (body.run ⟨x, h⟩).1 := hb.ends hr hx
  unfold Body.andTell at hs ⊢
  generalize body.run ⟨x, h⟩ = o at hs hf hlife hcall ⊢
  obtain ⟨r, y, g⟩ := o
  dsimp only at hs hf hlife hcall ⊢
  obtain ⟨g', hg'⟩ : ∃ g' : Host V (Chronicle V), g' = { g with client := g.client.fail r } :=
    ⟨_, rfl⟩
  rw [← hg'] at hs ⊢
  have hfail : g.Follows run g' := by
    rw [hg']
    exact ⟨fun past hs => hs.continues, fun c hc => by rwa [Chronicle.strays_fail]⟩
  have hy : y.engine = sole := (congrArg Life.engine hlife).trans hx.engine
  have hrest : g'.Follows run (next (r.map Prod.fst) ⟨y, g'⟩).2.host :=
    (hgn _).follows (t := ⟨y, g'⟩) hy
  have hends := hcall ((hfail.trans hrest).strays_eq_nil hs)
  have hr' : g'.Ready D hooks F run :=
    hr.follow (hf.trans hfail) (hg' ▸ hends.order.fail hends.fails)
  obtain ⟨z, hz, hsnap⟩ := hx.served
  have hx' : y.At D hooks run g' (ds ++ deedsOf r) :=
    ⟨hy, (congrArg Life.status hlife).trans hx.active,
      ⟨z, hz, hsnap.trans (congrArg Life.snapshot hlife).symm⟩, hg' ▸ hends.bears⟩
  have hnext := (hn _ (hends.fails.map Prod.fst)).ends hr' hx' hs
  rwa [List.append_assoc] at hnext

end Body

theorem Telling.faithful_still {r : Except Error R} (hr : FailsIn F r) :
    Telling.Faithful D hooks F (fun s => ((r, []), s) : Telling V R) := by
  refine ⟨fun {run ds x h} hready hx _ => ⟨hready.order, ?_, hr⟩⟩
  rw [List.append_nil]
  exact hx.bears

/-- A body that goes on after others have acted is faithful. -/
theorem Telling.Faithful.afterAside {f : Host V (Chronicle V) → Host V (Chronicle V)}
    {next : Telling V R} (hn : next.Faithful D hooks F) (hgn : Session.Goes next)
    (hgf : ∀ {run} (h : Host V (Chronicle V)), h.Follows run (f h))
    (hf : ∀ {run h}, h.Ready D hooks F run → (f h).client.strays = [] → (f h).InOrder D hooks F) :
    Telling.Faithful D hooks F fun s => next ((Body.aside fun h => ((), f h)).run s).2 := by
  refine ⟨fun {run ds x h} hr hx hs => ?_⟩
  obtain ⟨g, hg⟩ : ∃ g : Host V (Chronicle V),
      g = f { h with world.pinned := x.holds ++ h.world.pinned } := ⟨_, rfl⟩
  have haside : ((Body.aside fun h => ((), f h)).run ⟨x, h⟩).2 =
      ⟨x, { g with world.pinned := h.world.pinned }⟩ := by
    rw [hg]
    rfl
  rw [haside] at hs ⊢
  have hpin := (invariant_follows run h).pin (x.holds ++ h.world.pinned) (.refl run h)
  have hgo : Host.Follows run { h with world.pinned := x.holds ++ h.world.pinned } g := hg ▸ hgf _
  have hfol := (hpin.trans hgo).trans ((invariant_follows run g).pin h.world.pinned (.refl run g))
  have hstrays : g.client.strays = [] :=
    List.eq_nil_of_subset_nil (hs ▸ hgn.strays ⟨x, { g with world.pinned := h.world.pinned }⟩)
  have horder : g.InOrder D hooks F := hg ▸ hf (hr.pin _) (hg ▸ hstrays)
  exact hn.ends (hr.follow hfol (horder.pin h.world.pinned)) (hx.follow hr hfol) hs

/-- What a body tells of a child, it tells when it ends. -/
theorem Telling.Faithful.ending {f : Telling V R} (hf : f.Faithful D hooks F) :
    f.ending.Honest D hooks F := by
  refine ⟨fun {run x h} hr hx hs => ?_⟩
  have hends := hf.ends hr hx hs
  refine ⟨(f ⟨x, h⟩).1.2, ⟨hends.order, hends.bears, hends.fails.map _⟩, fun p hp => ?_⟩
  obtain ⟨a, -, rfl⟩ := map_eq_ok_iff.1 hp
  rfl

/-! ### What actions do -/

namespace Host.InOrder

/-- What is alive in the next world was alive, and the store goes on. -/
theorem advance (ho : h.InOrder D hooks F) (hs : (⟨h.world, run, past⟩ : Scene V).Sound)
    {run' : List (Context V)} {past' : History V}
    (hl : Scene.Leads ⟨h.world, run, past⟩ ⟨w, run', past'⟩)
    (ha : ∀ y ∈ w.alive, y ∈ h.world.alive) :
    ∀ y ∈ w.alive, y.Bears D hooks w.store (h.client.deeds y.id) := fun y hy =>
  (ho.alive y (ha y hy)).mono (hl.store_extends hs
    (List.mem_map_of_mem (List.mem_append_left _ (ha y hy)))
    (List.mem_map_of_mem (List.mem_append_left _ hy)))

theorem reclaim (ho : h.InOrder D hooks F) (hs : (⟨h.world, run, past⟩ : Scene V).Sound) :
    Host.InOrder D hooks F { h with world := (h.world.reclaim sole).2 } := by
  obtain ⟨past', hl⟩ : Scene.Onward ⟨h.world, run, past⟩ (h.world.reclaim sole).2 run :=
    hs.step .reclaim
  have hcreated : (h.world.reclaim sole).2.store.created = h.world.store.created :=
    created_compactAll _ _ _
  refine ⟨(h.world.hooks_reclaim sole sole).trans ho.hooks_eq, ho.advance hs hl fun _ hy => hy,
    fun id hid => ho.unbegun id (Nat.lt_of_le_of_lt hl.precedes.begun_le hid), ho.failures,
    fun b hb => ?_, ?_, fun p hp => ?_⟩
  · obtain ⟨hfair, hle⟩ := ho.fair b hb
    exact ⟨hfair, Nat.le_trans hle hl.precedes.created_le⟩
  · rw [World.version_reclaim]
    exact ho.versions
  · obtain ⟨hc, hvalue⟩ := ho.worth p hp
    refine ⟨⟨hc.1, Nat.le_trans hc.2 hl.precedes.created_le⟩, Eq.trans ?_ hvalue⟩
    exact congrArg Record.value (head_compactAll _ _ _ _)

/-- No commit so far has changed a cell that is new. -/
theorem worth_of_not_has (ho : h.InOrder D hooks F) {c : CellId} (hc : ¬ h.world.store.Has c)
    (v : V) : h.client.worth c v = v := by
  have hsame : ∀ b ∈ h.client.published, b.context.resultAt c v = v := by
    intro b hb
    obtain ⟨hfair, hle⟩ := ho.fair b (List.mem_filter.1 hb).1
    exact hfair.resultAt_of_not_has (fun hb => hc ⟨hb.1, Nat.le_trans hb.2 hle⟩) v
  unfold Chronicle.worth
  generalize h.client.published = l at hsame
  induction l with
  | nil => rfl
  | cons b rest ih =>
    obtain ⟨hb, hrest⟩ := List.forall_mem_cons.1 hsame
    rw [List.foldl_cons, hb]
    exact ih hrest

theorem create (ho : h.InOrder D hooks F) (hs : (⟨h.world, run, past⟩ : Scene V).Sound)
    (type : ContentType) (value : V) :
    Host.InOrder D hooks F ⟨(h.world.createCell sole type value).2,
      h.client.birth (h.world.createCell sole type value).1 value⟩ := by
  obtain ⟨past', hl⟩ : Scene.Onward ⟨h.world, run, past⟩
      (h.world.createCell sole type value).2 run := hs.step (.create type value)
  have hstore : (h.world.createCell sole type value).2.store =
      (h.world.store.create type value).2 := rfl
  refine ⟨hl.hooks.trans ho.hooks_eq, ho.advance hs hl fun _ hy => hy,
    fun id hid => ho.unbegun id (Nat.lt_of_le_of_lt hl.precedes.begun_le hid), ho.failures,
    fun b hb => ?_, ?_, fun p hp => ?_⟩
  · obtain ⟨hfair, hle⟩ := ho.fair b hb
    exact ⟨hfair, Nat.le_trans hle hl.precedes.created_le⟩
  · have hversion : ((h.world.createCell sole type value).2.engine sole).version =
        (h.world.engine sole).version := by
      simp [World.createCell, Engine.announce, Engine.version]
    rw [hversion]
    exact ho.versions
  · rw [hstore]
    rcases List.mem_append.1 hp with hp | hp
    · obtain ⟨hc, hvalue⟩ := ho.worth p hp
      refine ⟨⟨hc.1, Nat.le_trans hc.2 hl.precedes.created_le⟩, Eq.trans ?_ hvalue⟩
      rw [Store.Recalls.cell_create_of_has type value hc]
    · rw [List.mem_singleton.1 hp]
      have hnew : ¬ h.world.store.Has (h.world.createCell sole type value).1 :=
        fun hc => Nat.not_succ_le_self _ hc.2
      have hhas := (h.world.store.has_create type value _).2 (.inr rfl)
      refine ⟨hhas, ?_⟩
      have hworth := ho.worth_of_not_has hnew value
      change _ = h.client.worth _ value
      rw [hworth, Store.cell_create]
      exact congrArg Cell.value (if_pos rfl)

/-- The chronicle stays true when what a transaction did in hand is entered. -/
theorem credit (ho : h.InOrder D hooks F) (hs : (⟨h.world, x :: run, past⟩ : Scene V).Sound)
    (ds : List (Deed V)) :
    Host.InOrder D hooks F { h with client := h.client.credit x.id ds } := by
  have hmem : x.life ∈ (⟨h.world, x :: run, past⟩ : Scene V).lives :=
    List.mem_map_of_mem (List.mem_append_right _ (List.mem_cons_self ..))
  have hother : ∀ y ∈ h.world.alive, y.id ≠ x.id := by
    intro y hy
    have hids := hs.ids
    unfold Scene.lives Scene.live at hids
    rw [List.pairwise_map] at hids
    exact (List.pairwise_append.1 hids).2.2 y hy x (List.mem_cons_self ..)
  refine ⟨ho.hooks_eq, fun y hy => ?_, fun id hid => ?_, ho.failures, ho.fair, ho.versions,
    ho.worth⟩
  · change y.Bears D hooks h.world.store (if y.id = x.id then ds else h.client.deeds y.id)
    rw [if_neg (hother y hy)]
    exact ho.alive y hy
  · have hne : id ≠ x.id := by
      rintro rfl
      exact Nat.not_lt.2 (hs.begun x.life hmem) hid
    exact (if_neg hne).trans (ho.unbegun id hid)

/-- The chronicle stays true when a commit is entered, with what it published. -/
theorem commit (ho : h.InOrder D hooks F) (hD : D.Within (.plain V))
    (hs : (⟨h.world, x :: run, past⟩ : Scene V).Sound) (hx : x.Bears D hooks h.world.store ds) :
    Host.InOrder D hooks F ⟨(h.world.commit x).2, h.client.bid h.world x ds⟩ := by
  obtain ⟨past', hl⟩ : Scene.Onward ⟨h.world, x :: run, past⟩ (h.world.commit x).2 run :=
    hs.refl.commit
  have hfair : Bid.Fair D hooks ⟨h.world, x, ds⟩ := by
    have hperm : (⟨h.world, x :: run, past⟩ : Scene V).lives.Perm
        (x.life :: (h.world.alive ++ run).map Context.life) := List.perm_middle.map Context.life
    exact ⟨hx, ⟨_, past, World.Serves.perm hs hperm⟩, ho.hooks_eq⟩
  obtain ⟨hcreated, hlands⟩ := hfair.lands hD
  have hhas : ∀ c, (h.world.commit x).2.store.Has c ↔ h.world.store.Has c := fun c => by
    simp only [Store.Has, hcreated]
  refine ⟨hl.hooks.trans ho.hooks_eq,
    ho.advance hs hl fun y hy => by rwa [World.alive_commit] at hy,
    fun id hid => ho.unbegun id (Nat.lt_of_le_of_lt hl.precedes.begun_le hid), ho.failures,
    fun b hb => ?_, ?_, fun p hp => ?_⟩
  · rcases List.mem_append.1 hb with hb | hb
    · obtain ⟨hold, hle⟩ := ho.fair b hb
      exact ⟨hold, Nat.le_trans hle hl.precedes.created_le⟩
    · rw [List.mem_singleton.1 hb]
      exact ⟨hfair, hl.precedes.created_le⟩
  · have hversions := ho.versions
    unfold Chronicle.bid
    rw [List.filterMap_append, hversions]
    rcases hlands with ⟨hnone, hversion, -⟩ | ⟨r, hr, hrv, hversion, -⟩
    · simp [hnone, hversion]
    · rw [hversion, List.range'_1_concat, Nat.add_comm 1]
      simp [hr, hrv]
  · obtain ⟨hc, hvalue⟩ := ho.worth p hp
    refine ⟨(hhas _).2 hc, ?_⟩
    unfold Chronicle.worth Chronicle.published Chronicle.bid
    rw [List.filter_append, List.foldl_append]
    change _ = List.foldl _ (h.client.worth p.1 p.2) _
    rw [← hvalue]
    rcases hlands with ⟨hnone, -, hsame⟩ | ⟨r, hr, -, -, hresult⟩
    · simp [hnone, hsame]
    · simp [hr, hresult]

end Host.InOrder

/-! ### Bodies of transactions in hand -/

variable {f : Telling V R}

/-- A transaction that a body is to run on is a running one, which shows what was done. -/
theorem Context.at_of_sound (hs : (⟨h.world, x :: run, past⟩ : Scene V).Sound)
    (hx : x.Bears D hooks h.world.store ds) : x.At D hooks (x :: run) h ds := by
  have hmem : x ∈ (⟨h.world, x :: run, past⟩ : Scene V).live :=
    List.mem_append_right _ (List.mem_cons_self ..)
  exact ⟨hs.engine_eq hmem, (hs.active x.life (List.mem_map_of_mem hmem)).2.2,
    ⟨x, List.mem_cons_self .., rfl⟩, hx⟩

/-- The chronicle stays true when a transaction is credited with what a faithful body did on it. -/
theorem Telling.Faithful.crediting (hf : f.Faithful D hooks F) (hg : Session.Goes f)
    (hs : (⟨h.world, x :: run, past⟩ : Scene V).Sound) (ho : h.InOrder D hooks F)
    (hx : x.Bears D hooks h.world.store (h.client.deeds x.id))
    (hn : (f.crediting.runOn x h).2.client.strays = []) :
    let o := f.crediting.runOn x h
    o.2.InOrder D hooks F ∧ o.1.2.Bears D hooks o.2.world.store (o.2.client.deeds o.1.2.id) := by
  intro o
  have hat := Context.at_of_sound hs hx
  have hends := hf.ends ⟨⟨past, hs⟩, ho⟩ hat hn
  have hfollows : h.Follows (x :: run) (f ⟨x, h⟩).2.host := hg.follows (t := ⟨x, h⟩) hat.engine
  obtain ⟨past', hs'⟩ := hfollows.sound ⟨past, hs⟩
  have hid : (f ⟨x, h⟩).2.context.id = x.id := congrArg Life.id (hg.life ⟨x, h⟩)
  have hcredit : o.2.InOrder D hooks F := by
    change Host.InOrder D hooks F ⟨_, Chronicle.credit _ (f ⟨x, h⟩).2.context.id _⟩
    rw [hid]
    exact hends.order.credit hs' _
  have hdeeds : o.2.client.deeds o.1.2.id = h.client.deeds x.id ++ (f ⟨x, h⟩).1.2 := if_pos rfl
  refine ⟨hcredit, ?_⟩
  rw [hdeeds]
  exact hends.bears

omit [Inhabited V] in
theorem Telling.runOn_bidding_ok {a : R} {g : Host V (Chronicle V)}
    (hf : f ⟨x, h⟩ = ((.ok a, ds), ⟨y, g⟩)) :
    f.bidding.runOn x h = ((.ok a, y), { g with client := g.client.bid g.world y ds }) := by
  simp only [Body.runOn, ExceptT.run, Telling.bidding, hf]

omit [Inhabited V] in
theorem Telling.runOn_bidding_error {e : Error} {g : Host V (Chronicle V)}
    (hf : f ⟨x, h⟩ = ((.error e, ds), ⟨y, g⟩)) :
    f.bidding.runOn x h = ((.error e, y), g) := by
  simp only [Body.runOn, ExceptT.run, Telling.bidding, hf]

/-- One attempt at a faithful body, with its commit, keeps the chronicle true. -/
theorem Telling.Faithful.attempt (hf : f.Faithful D hooks F) (hg : Session.Goes f)
    (hD : D.Within (.plain V)) (hr : h.Ready D hooks F run) (mode : Mode)
    (hn : (h.attempt sole mode f.bidding).2.client.strays = []) :
    (h.attempt sole mode f.bidding).2.InOrder D hooks F := by
  obtain ⟨past, hs⟩ := hr.sound
  obtain ⟨past₁, hl⟩ : Scene.Onward ⟨h.world, run, past⟩ (h.world.begin sole mode).2
    ((h.world.begin sole mode).1 :: run) := hs.step (.begin mode)
  have hx : (h.world.begin sole mode).1.Bears D hooks (h.world.begin sole mode).2.store [] :=
    Context.bears_begin ..
  have ho : Host.InOrder D hooks F { h with world := (h.world.begin sole mode).2 } :=
    hr.order.stay (h.world.moves_begin mode) rfl
  unfold Host.attempt at hn ⊢
  generalize h.world.begin sole mode = o at *
  obtain ⟨x, w⟩ := o
  dsimp only at *
  have hends := hf.ends ⟨⟨past₁, hl.sound⟩, ho⟩ (Context.at_of_sound hl.sound hx)
  obtain ⟨⟨past₂, hl'⟩, -⟩ := hg.ending.persists.runOn (h := { h with world := w }) hl.sound
  change Scene.Leads _ ⟨(f ⟨x, { h with world := w }⟩).2.host.world,
    (f ⟨x, { h with world := w }⟩).2.context :: run, past₂⟩ at hl'
  rcases hbody : f ⟨x, { h with world := w }⟩ with ⟨⟨e | a, ds⟩, y, g⟩
  · rw [hbody] at hends
    rw [runOn_bidding_error hbody] at hn ⊢
    exact (hends hn).order.stay (g.world.moves_abort y _) rfl
  · rw [hbody] at hends hl'
    rw [runOn_bidding_ok hbody] at hn ⊢
    exact (hends hn).order.commit hD hl'.sound (hends hn).bears

/-- All attempts at a faithful body together keep the chronicle true. -/
theorem Telling.Faithful.attempts (hf : f.Faithful D hooks F) (hg : Session.Goes f)
    (hD : D.Within (.plain V)) (mode : Mode) (left n : Nat) (hr : h.Ready D hooks F run)
    (hn : (Host.attempts sole mode (fun _ => f.bidding) left n h).2.client.strays = []) :
    (Host.attempts sole mode (fun _ => f.bidding) left n h).2.InOrder D hooks F := by
  induction left generalizing n h with
  | zero => exact hf.attempt hg hD hr mode hn
  | succ left ih =>
    have hone := hf.attempt hg hD hr mode
    have hsound : ∃ past,
        (⟨(h.attempt sole mode f.bidding).2.world, run, past⟩ : Scene V).Sound := by
      obtain ⟨past, hs⟩ := hr.sound
      obtain ⟨past', hl⟩ := (hg.bidding.persists.attempt hs mode).onward
      exact ⟨past', hl.sound⟩
    have hrest := fun g =>
      Session.Goes.strays_attempts (fun _ => hg.bidding) sole mode left (n + 1) g
    unfold Host.attempts at hn ⊢
    generalize h.attempt sole mode f.bidding = o at *
    obtain ⟨e | a, g⟩ := o
    · dsimp only at *
      split at hn
      · next hconflict =>
        rw [if_pos hconflict]
        have hs : g.client.strays = [] := List.eq_nil_of_subset_nil (hn ▸ hrest g)
        exact ih (n + 1) ⟨hsound, hone hs⟩ hn
      · next hconflict =>
        rw [if_neg hconflict]
        exact hone hn
    · exact hone hn

section

variable (ho : h.InOrder D hooks F) (hm : h.world.Moves [] w) (hx : x ∈ h.world.alive)
  (hs : (⟨w, x :: run, past⟩ : Scene V).Sound)

include ho hm hx

theorem Host.InOrder.taken : Host.InOrder D hooks F { h with world := w } ∧
    x.Bears D hooks w.store (h.client.deeds x.id) :=
  ⟨ho.stay hm rfl, hm.store ▸ ho.alive x hx⟩

include hs

/-- A transaction that was taken may be put down after a faithful body ran on it. -/
theorem Telling.Faithful.onTaken (hf : f.Faithful D hooks F) (hg : Session.Goes f)
    {put : World V → Context V → World V}
    (hput : ∀ (w : World V) (x : Context V), w.Moves [x] (put w x))
    (hn : (f.crediting.runOn x { h with world := w }).2.client.strays = []) :
    let o := f.crediting.runOn x { h with world := w }
    Host.InOrder D hooks F { o.2 with world := put o.2.world o.1.2 } := by
  obtain ⟨ho', hx'⟩ := ho.taken hm hx
  obtain ⟨horder, hbears⟩ := hf.crediting hg hs ho' hx' hn
  refine horder.moves (hput _ _) (fun y hy => ?_) rfl
  rw [List.mem_singleton.1 hy]
  exact hbears

/-- A transaction that was taken may be committed. -/
theorem Host.InOrder.commitTaken (hD : D.Within (.plain V)) :
    Host.InOrder D hooks F ⟨(w.commit x).2, h.client.bid w x (h.client.deeds x.id)⟩ := by
  obtain ⟨ho', hx'⟩ := ho.taken hm hx
  exact Host.InOrder.commit (h := { h with world := w }) ho' hD hs hx'

end

/-- A transaction that was just begun may be put down. -/
theorem Host.InOrder.begin (ho : h.InOrder D hooks F) (mode : Mode)
    (hm : (h.world.begin sole mode).2.Moves [(h.world.begin sole mode).1] w) :
    Host.InOrder D hooks F { h with world := w } := by
  refine ho.moves ((h.world.moves_begin mode).trans hm) (fun y hy => ?_) rfl
  rw [List.mem_singleton.1 hy]
  have hnew : h.client.deeds (h.world.begin sole mode).1.id = [] :=
    ho.unbegun _ (Nat.lt_succ_self _)
  rw [hnew]
  exact Context.bears_begin ..

/-! ### Programs and actions -/

mutual

/-- What a program that keeps to the discipline tells is what its context shows. -/
theorem Program.told_faithful (hD : D.Within (.plain V))
    (hF : ∀ id, F (.illegal (.writeInReadOnly id))) : (p : Program V R) → p.Local →
      p.Abides D F → p.told.Faithful D hooks F
  | .done _, _, _ => Telling.faithful_still nofun
  | .fail e, _, he => Telling.faithful_still fun e' he' => by cases he'; exact he
  | .read c next, hl, ha =>
    (Body.faithful_read hD c).andTell (.telling (.access fun _ _ => .read c) c _)
      (fun r hr => (next r).told_faithful hD hF (hl r) (ha r hr))
      fun r => (next r).told_goes (hl r)
  | .write c value next, hl, ha =>
    (Body.faithful_write hD hF ha.1).andTell (.telling (.access fun _ _ => .write c value) c _)
      (fun r hr => (next r).told_faithful hD hF (hl r) (ha.2 r hr))
      fun r => (next r).told_goes (hl r)
  | .put a delta next, hl, ha =>
    (Body.faithful_put hD hF ha.1).andTell (.telling (.access fun _ _ => .put a delta) a.base _)
      (fun r hr => (next r).told_faithful hD hF (hl r) (ha.2 r hr))
      fun r => (next r).told_goes (hl r)
  | .get a next, hl, ha =>
    (Body.faithful_get hD a).andTell (.telling (.access fun _ _ => .get a) a.base _)
      (fun r hr => (next r).told_faithful hD hF (hl r) (ha r hr))
      fun r => (next r).told_goes (hl r)
  | .stage _ _ _ _, _, ha => ha.elim
  | .nested body next, hl, ha =>
    ((body.told_faithful hD hF hl.1 ha.1).ending.nested hD hF
      (body.told_goes hl.1).ending).andTell (.nested (body.told_goes hl.1).ending)
      (fun r hr => (next r).told_faithful hD hF (hl.2 r) (ha.2 r hr))
      fun r => (next r).told_goes (hl.2 r)
  | .parallel size mode body next, hl, ha => by
    have htasks : ∀ task ∈ List.ofFn fun i =>
        ({ mode := mode i, body := fun _ => (body i).told.ending } :
          Task V (Chronicle V) (R × List (Deed V))), task.Honest D hooks F := by
      intro task ht
      obtain ⟨i, rfl⟩ := List.mem_ofFn.1 ht
      exact ⟨fun _ => ((body i).told_goes (hl.1 i)).ending,
        fun _ => ((body i).told_faithful hD hF (hl.1 i) (ha.1 i)).ending⟩
    exact (Body.faithful_parallel hD hF htasks).andTell
      (.gathered (.parallel fun task ht => (htasks task ht).goes))
      (fun r hr => (next r).told_faithful hD hF (hl.2 r) (ha.2 r hr))
      fun r => (next r).told_goes (hl.2 r)
  | .aside action next, hl, ha =>
    (next.told_faithful hD hF hl.2 ha.2).afterAside (next.told_goes hl.2)
      (fun h => ⟨fun past hs => (action.told_goes hl.1 h).1 hs, (action.told_goes hl.1 h).2⟩)
      fun hr hs => action.told_inOrder hD hF hl.1 ha.1 hr hs

/-- An action keeps the chronicle true. -/
theorem Action.told_inOrder (hD : D.Within (.plain V))
    (hF : ∀ id, F (.illegal (.writeInReadOnly id))) : (a : Action V R) → a.Local → a.Abides D F →
    ∀ {run : List (Context V)} {h : Host V (Chronicle V)}, h.Ready D hooks F run →
      (a.told h).client.strays = [] → (a.told h).InOrder D hooks F
  | .create e type value, ha, _, run, h, hr, _ => by
    cases ha
    obtain ⟨past, hs⟩ := hr.sound
    exact hr.order.create hs type value
  | .perform k program, hl, ha, run, h, hr, hn => by
    obtain ⟨past, hs⟩ := hr.sound
    unfold Action.told Host.onHeld at hn ⊢
    cases ht : h.world.take k with
    | none => exact hr.order
    | some xw =>
      obtain ⟨x, w⟩ := xw
      rw [ht] at hn
      obtain ⟨hx, hm⟩ := World.moves_take ht
      obtain ⟨past', hlead⟩ : Scene.Onward ⟨h.world, run, past⟩ w (x :: run) := hs.step (.take ht)
      exact Telling.Faithful.onTaken hr.order hm hx hlead.sound (program.told_faithful hD hF hl ha)
        (program.told_goes hl) (fun w x => w.moves_giveBack k x) hn
  | .withBound t program, hl, ha, run, h, hr, hn => by
    obtain ⟨past, hs⟩ := hr.sound
    obtain ⟨hm, hx⟩ := h.world.moves_detach t
    unfold Action.told Host.withBound at hn ⊢
    rcases hs.detach t with ⟨e, hd⟩ | ⟨x, w, hd, ⟨past', hlead⟩, -⟩
    · rw [hd]
      exact hr.order
    · rw [hd] at hn hm hx ⊢
      exact Telling.Faithful.onTaken hr.order hm (hx x rfl) hlead.sound
        (program.told_faithful hD hF hl ha) (program.told_goes hl)
        (fun w x => w.moves_rebind t x) hn
  | .commit k, _, _, run, h, hr, _ => by
    obtain ⟨past, hs⟩ := hr.sound
    unfold Action.told
    split
    · next x w ht =>
      obtain ⟨hx, hm⟩ := World.moves_take ht
      obtain ⟨past', hl⟩ : Scene.Onward ⟨h.world, run, past⟩ w (x :: run) := hs.step (.take ht)
      exact hr.order.commitTaken hm hx hl.sound hD
    · exact hr.order
  | .commitBound t, _, _, run, h, hr, _ => by
    obtain ⟨past, hs⟩ := hr.sound
    obtain ⟨hm, hx⟩ := h.world.moves_detach t
    unfold Action.told
    rcases hs.detach t with ⟨e, hd⟩ | ⟨x, w, hd, ⟨past', hlead⟩, -⟩
    · rw [hd]
      exact hr.order
    · rw [hd] at hm hx ⊢
      exact hr.order.commitTaken hm (hx x rfl) hlead.sound hD
  | .atomically e mode program, hl, ha, run, h, hr, hn => by
    obtain ⟨rfl, hl⟩ := hl
    exact (program.told_faithful hD hF hl ha).attempts (program.told_goes hl) hD mode _ 0 hr hn
  | .begin e mode, hl, _, run, h, hr, _ => by
    cases hl
    exact hr.order.begin mode (World.moves_hold _ _)
  | .abort k, _, _, run, h, hr, _ =>
    hr.order.stay (h.world.moves_consume k fun x w => (w.moves_abort x _).weaken [x]) rfl
  | .discard k, _, _, run, h, hr, _ =>
    hr.order.stay (h.world.moves_consume k fun x w => (w.moves_abort x _).weaken [x]) rfl
  | .park e k, _, _, run, h, hr, _ =>
    hr.order.stay (h.world.moves_consume k fun x w => w.moves_park e x) rfl
  | .unpark e txn, hl, _, run, h, hr, _ => by
    cases hl
    exact hr.order.stay (World.moves_holdResult (h.world.moves_unpark txn)) rfl
  | .abortParked e txn, hl, _, run, h, hr, _ => by
    cases hl
    exact hr.order.stay (h.world.moves_abortParked txn) rfl
  | .bind t k, _, _, run, h, hr, _ =>
    hr.order.stay (h.world.moves_consume k fun x w => w.moves_bind t x) rfl
  | .unbind t, _, _, run, h, hr, _ =>
    hr.order.stay (World.moves_holdResult (h.world.moves_detach t)) rfl
  | .beginBound t e mode, hl, _, run, h, hr, _ => by
    cases hl
    unfold Action.told Action.run World.beginBound
    split
    · exact hr.order
    · exact hr.order.begin mode (World.moves_bind _ t _)
  | .abortBound t, _, _, run, h, hr, _ => hr.order.stay (h.world.moves_abortBound t) rfl
  | .parkBound t e, _, _, run, h, hr, _ => hr.order.stay (h.world.moves_parkBound t e) rfl
  | .unparkBound t e txn, hl, _, run, h, hr, _ => by
    cases hl
    exact hr.order.stay (h.world.moves_unparkBound t txn) rfl
  | .reclaim e, hl, _, run, h, hr, _ => by
    cases hl
    obtain ⟨past, hs⟩ := hr.sound
    exact hr.order.reclaim hs

end

/-! ### Runs -/

theorem inOrder_create (D : Discipline V) (config : Config) (hooks : Hooks) (F : Error → Prop) :
    Host.InOrder D hooks F
      (⟨World.create [Engine.create config hooks], {}⟩ : Host V (Chronicle V)) :=
  ⟨rfl, nofun, fun _ _ => rfl, nofun, nofun, rfl, nofun⟩

theorem Host.strays_subset_foldl {actions : List (Action V R)} (hl : ∀ a ∈ actions, a.Local)
    (h : Host V (Chronicle V)) :
    h.client.strays ⊆ (actions.foldl (fun h a => a.told h) h).client.strays := by
  induction actions generalizing h with
  | nil => exact fun _ hc => hc
  | cons a rest ih =>
    obtain ⟨hla, hlrest⟩ := List.forall_mem_cons.1 hl
    exact fun _ hc => ih hlrest _ ((a.told_goes hla h).2 hc)

/-- After every run of actions that keep to a discipline, the chronicle is true. -/
theorem chronicled_ready (config : Config) (hooks : Hooks) (hD : D.Within (.plain V))
    (hF : ∀ id, F (.illegal (.writeInReadOnly id))) {actions : List (Action V R)}
    (hl : ∀ a ∈ actions, a.Local) (ha : ∀ a ∈ actions, a.Abides D F)
    (hn : (chronicled config hooks actions).client.strays = []) :
    (chronicled config hooks actions).Ready D hooks F [] := by
  have hstart : Host.Ready D hooks F [] (⟨World.create [Engine.create config hooks], {}⟩ :
      Host V (Chronicle V)) :=
    ⟨⟨_, Scene.sound_start config hooks⟩, inOrder_create D config hooks F⟩
  unfold chronicled at hn ⊢
  generalize (⟨World.create [Engine.create config hooks], {}⟩ : Host V (Chronicle V)) = h at *
  induction actions generalizing h with
  | nil => exact hstart
  | cons a rest ih =>
    obtain ⟨hla, hlrest⟩ := List.forall_mem_cons.1 hl
    obtain ⟨haa, harest⟩ := List.forall_mem_cons.1 ha
    have hgoes := a.told_goes hla h
    have hs : (a.told h).client.strays = [] :=
      List.eq_nil_of_subset_nil (hn ▸ Host.strays_subset_foldl hlrest (a.told h))
    have hf : h.Follows [] (a.told h) := ⟨fun past hs => hgoes.1 hs, hgoes.2⟩
    exact ih hlrest harest _ hn (hstart.follow hf (a.told_inOrder hD hF hla haa hstart hs))

end VersionedMemory
