import VersionedMemory.Proofs.ProgramSteps
import VersionedMemory.Proofs.Tracing

/-!
# The same body later and alone

A body reads at the snapshot that its transaction began with. If all that it read is still the
newest, it comes to the same on a snapshot taken now, with nobody acting in between.

## Main definitions

* `Program.alone` is the program without what others do in between.
* `Visit.Current` says that an access would have the same answer on a snapshot taken now.
* `Coupling.later` takes a body in a run together with the same body alone on a store.

## Main statements

* `Program.alone_bodies`: a program that has seen only what is current comes to what it comes to
  alone.
* `Program.upholds_alone`: alone, a program keeps whatever its accesses and its children keep.
-/

namespace VersionedMemory

variable {V σ τ α R : Type}

/-- The program without what others do in between. -/
def Program.alone : Program V R → Program V R
  | .done result => .done result
  | .fail error => .fail error
  | .read c next => .read c fun r => (next r).alone
  | .write c value next => .write c value fun r => (next r).alone
  | .put a delta next => .put a delta fun r => (next r).alone
  | .get a next => .get a fun r => (next r).alone
  | .stage under target value next => .stage under target value fun r => (next r).alone
  | .nested body next => .nested body.alone fun r => (next r).alone
  | .parallel size mode body next =>
    .parallel size mode (fun i => (body i).alone) fun r => (next r).alone
  | .aside _ next => next.alone

/-! ### Accesses elsewhere in time -/

theorem Cell.readAt_of_head_le {c : Cell V} {v : Version} (h : c.chain.head.version ≤ v) :
    c.readAt v = .ok c.chain.head := by
  simp [readAt, Chain.asOf, Chain.records, h]

namespace Context

variable (x : Context V) (f : Version → Version) (g : Anchor → Anchor)

theorem touch_shift (c : CellId) : (x.shift f g).touch c = (x.touch c).shift f g := by
  unfold touch isChild
  cases hk : x.kind.isSome <;> simp [shift, hk]

theorem observe_shift (c : CellId) (v : Version) :
    (x.shift f g).observe c v = (x.observe c v).shift f g := by
  unfold observe
  cases hm : x.mode.recordsReads <;> simp [shift, hm]

/-- A read comes to the same where the snapshot sees the same record. -/
theorem read_shift {cell cell' : Cell V} {r : Record V} (hid : cell'.id = cell.id)
    (ht : cell'.type = cell.type) (hr : cell.readAt x.snapshot = .ok r)
    (hr' : x.checkActive = .ok () → x.valueFor cell.id cell.type = .ok none →
      cell'.readAt (f x.snapshot) = .ok r) :
    (x.shift f g).read cell' = ((x.read cell).1, (x.read cell).2.shift f g) := by
  have hs : (x.touch cell.id).snapshot = x.snapshot := by
    unfold touch
    split <;> rfl
  have hv : (x.touch cell.id).valueFor cell.id cell.type = x.valueFor cell.id cell.type := by
    unfold valueFor
    rw [writeFor_touch]
  have hvs : ((x.touch cell.id).shift f g).valueFor cell.id cell.type =
      x.valueFor cell.id cell.type := hv
  have hsnap : ((x.touch cell.id).shift f g).snapshot = f x.snapshot := congrArg f hs
  have hcheck : (x.shift f g).checkActive = x.checkActive := rfl
  unfold read
  rw [hcheck, hid, ht, touch_shift]
  cases hactive : x.checkActive with
  | error e => rfl
  | ok u =>
    dsimp only
    rw [hvs, hv, hsnap, hs, hr]
    cases hval : x.valueFor cell.id cell.type with
    | error e => rfl
    | ok o =>
      cases o with
      | some value => rfl
      | none =>
        dsimp only
        rw [hr' hactive hval]
        simp only [observe_shift]

theorem get_shift {cell cell' : Cell V} {r : Record V} (op : V → V → V) (hid : cell'.id = cell.id)
    (ht : cell'.type = cell.type) (hr : cell.readAt x.snapshot = .ok r)
    (hr' : x.checkActive = .ok () → x.valueFor cell.id cell.type = .ok none →
      cell'.readAt (f x.snapshot) = .ok r) :
    (x.shift f g).get cell' op = ((x.get cell op).1, (x.get cell op).2.shift f g) := by
  unfold get
  rw [x.read_shift f g hid ht hr hr', hid, ht]
  rcases x.read cell with ⟨e | base, y⟩
  · rfl
  · have hd : (y.shift f g).deltasFor cell.id = y.deltasFor cell.id := rfl
    dsimp only
    rw [hd]
    split <;> rfl

theorem bufferWrite_shift (c : CellId) (a : Change V) :
    (x.shift f g).bufferWrite c a = (x.bufferWrite c a).map (·.shift f g) := by
  unfold bufferWrite
  cases hs : x.shared with
  | some ws =>
    simp only [shift, hs]
    cases ws.stage c a <;> rfl
  | none =>
    simp only [shift, hs]
    cases x.writes.stage c a <;> rfl

theorem bufferDelta_shift (c : CellId) (a : Change V) :
    (x.shift f g).bufferDelta c a = (x.bufferDelta c a).map (·.shift f g) := by
  unfold bufferDelta
  simp only [shift]
  cases x.deltas.stage c a <;> rfl

theorem write_shift {cell cell' : Cell V} (value : V) (hid : cell'.id = cell.id)
    (ht : cell'.type = cell.type) :
    (x.shift f g).write cell' value =
      ((x.write cell value).1, (x.write cell value).2.shift f g) := by
  have hcheck : (x.shift f g).checkActive = x.checkActive := rfl
  unfold write
  rw [hcheck, hid, ht, forWriting_shift]
  cases x.checkActive with
  | error e => rfl
  | ok u =>
    cases x.forWriting with
    | error e => rfl
    | ok y =>
      simp only [Except.map, bufferWrite_shift]
      cases y.bufferWrite cell.id ⟨cell.id, cell.type, .assign value⟩ <;> rfl

theorem stage_shift (c : CellId) (a : Change V) :
    (x.shift f g).stage c a = ((x.stage c a).1, (x.stage c a).2.shift f g) := by
  have hcheck : (x.shift f g).checkActive = x.checkActive := rfl
  unfold stage
  rw [hcheck, forWriting_shift]
  cases x.checkActive with
  | error e => rfl
  | ok u =>
    cases x.forWriting with
    | error e => rfl
    | ok y =>
      simp only [Except.map, bufferDelta_shift]
      cases y.bufferDelta c a <;> rfl

end Context

variable [Inhabited V]

/-! ### The body alone -/

/-- A snapshot taken of the store has the same answer: the cell is of the type noted, and the record
noted is its newest. -/
structure Visit.Current (v : Visit V) (s : Store V) : Prop where
  type : v.type = some (s.cell v.cell).type
  record : ∀ r, v.record = some r → (s.cell v.cell).chain.head = r

/-- The world has the cells, the hooks and the newest version of another one. -/
structure World.Resembles (w w' : World V) : Prop where
  store : w.store = w'.store
  hooks : (w.engine sole).hooks = (w'.engine sole).hooks
  version : (w.engine sole).version = (w'.engine sole).version

namespace World.Resembles

variable {w w' : World V}

omit [Inhabited V] in
theorem setEngine (h : w.Resembles w') {g : Engine} (hh : g.hooks = (w.engine sole).hooks)
    (hv : g.version = (w.engine sole).version) : (w.setEngine sole g).Resembles w' := by
  refine ⟨h.store, ?_, ?_⟩
  · rw [engine_setEngine, if_pos rfl, hh, h.hooks]
  · rw [engine_setEngine, if_pos rfl, hv, h.version]

end World.Resembles

/-- An active context sees the record that it reads of a cell that was created, where it has nothing
pending that settles the value. -/
theorem Context.sighted_of_readAt {x : Context V} {s : Store V} {c : CellId} {r : Record V}
    (hhas : s.Has c) (hactive : x.checkActive = .ok ())
    (hval : x.valueFor c (s.cell c).type = .ok none)
    (hat : (s.cell c).readAt x.snapshot = .ok r) : x.sighted s c = some r := by
  unfold sighted
  dsimp only
  rw [Store.id_cell, hactive, hval, hat]
  exact if_pos hhas

namespace Coupling

/-- A body in the run from `s` on, at snapshot `n`, together with the same body that has the cells
of `final` to itself, at the newest version. They are apart when something noted is not current
there. -/
def later (s : Scene V) (n : Version) (final : World V) (a : Anchor) (before : List (Visit V)) :
    Coupling V (VisitLog V) τ where
  snapshot _ := (final.engine sole).version
  anchor _ := a
  Meets x := x.engine = sole ∧ x.snapshot = n
  Rel h h' := s.Continues h.world ∧ h'.world.Resembles final
  Parted h := ∃ v ∈ before ++ h.client.all, ¬ v.Current final.store

variable {s : Scene V} {n : Version} {final : World V} {a : Anchor} {before : List (Visit V)}

theorem meets_later : Host.Invariant (later s n final a before : Coupling V (VisitLog V) τ).Meets
    fun _ : Host V (VisitLog V) => True where
  pin _ _ := trivial
  child _ _ _ hx _ := ⟨hx, trivial⟩
  rerun _ _ := trivial
  adopt {x} e hx := ⟨(congrArg Life.engine (x.life_adopt e)).trans hx.1,
    (congrArg Life.snapshot (x.life_adopt e)).trans hx.2⟩

theorem lawful_later (hf : (final.engine sole).hooks = s.engine.hooks) :
    (later s n final a before : Coupling V (VisitLog V) τ).Lawful where
  meets := meets_later
  parted := ⟨fun _ h => h, fun _ _ _ hx h => ⟨hx, h⟩, fun _ h => h, meets_later.adopt⟩
  pin {h g h' g'} cells _ hg :=
    ⟨s.invariant_continues.pin (h := g) (cells ++ h.world.pinned) hg.1,
      hg.2.store, hg.2.hooks, hg.2.version⟩
  child {x h h'} kind below shared hx hr := by
    obtain ⟨hc, hw⟩ := hr
    obtain ⟨past, hl⟩ := hc.onward
    have hhooks : (h'.world.engine sole).hooks = (h.world.engine sole).hooks :=
      hw.hooks.trans (hf.trans hl.hooks.symm)
    have he : ((later s n final a before : Coupling V (VisitLog V) τ).move x).engine = sole := hx.1
    have hm : ((h'.world.engine sole).openChild kind x.mode).1 =
        ((h.world.engine sole).openChild kind x.mode).1 := by
      simp only [Engine.openChild, hhooks]
    refine ⟨?_, (s.invariant_continues.child kind below shared hx.1 hc).2, ?_⟩
    · unfold Body.openChild
      rw [he, hx.1]
      exact congrArg (fun m => ((later s n final a before : Coupling V (VisitLog V) τ).move x).child
        kind m below shared) hm
    · unfold Body.openChild
      rw [he]
      exact hw.setEngine rfl rfl
  rerun {x h h'} hx hr := by
    refine ⟨s.invariant_continues.rerun hx.1 hr.1, ?_⟩
    rw [hx.1]
    exact hr.2.setEngine rfl rfl

/-- What the first body has seen it does not forget. -/
theorem parted_of_noting {body : Body V (VisitLog V) α} {c : CellId} {reads : Bool}
    (hb : body.Upholds (later s n final a before : Coupling V (VisitLog V) τ).Meets
      (later s n final a before : Coupling V (VisitLog V) τ).Parted) :
    (body.noting c reads).Upholds (later s n final a before : Coupling V (VisitLog V) τ).Meets
      (later s n final a before : Coupling V (VisitLog V) τ).Parted := by
  rintro ⟨x, h⟩ hx ⟨v, hv, hcur⟩
  refine hb ⟨x, { h with client := h.client.add _ }⟩ hx ⟨v, ?_, hcur⟩
  rcases List.mem_append.1 hv with hv | hv
  · exact List.mem_append_left _ hv
  · exact List.mem_append_right _ (VisitLog.mem_all_add.2 (.inr hv))

/-- An access that comes to the same where the cell is of the same type and, if a record is read,
the same record is found. -/
theorem bodies_noting (hn : ∃ y ∈ s.running, y.snapshot = n)
    (hbehind : ∀ c, (final.store.cell c).chain.head.version ≤ (final.engine sole).version)
    {f : World V → Context V → Except Error α × Context V} {c : CellId} {reads : Bool}
    (hacc : ∀ (w : World V) (x : Context V), x.Access w.store (f w x).2)
    (hf : ∀ (w w' : World V) (x : Context V) (r : Record V) (k : Version → Version)
      (g : Anchor → Anchor), (w'.store.cell c).type = (w.store.cell c).type →
        (w.store.cell c).readAt x.snapshot = .ok r →
        (reads = true → x.checkActive = .ok () →
          x.valueFor c (w.store.cell c).type = .ok none →
            (w'.store.cell c).readAt (k x.snapshot) = .ok r) →
        f w' (x.shift k g) = ((f w x).1, (f w x).2.shift k g)) :
    (later s n final a before : Coupling V (VisitLog V) τ).Bodies
      (Body.noting c reads (Body.access f)) (Body.access f) where
  meets _ hx _ := ⟨⟨(congrArg Life.engine (hacc _ _).life_eq).trans hx.1,
    (congrArg Life.snapshot (hacc _ _).life_eq).trans hx.2⟩, trivial⟩
  parted := parted_of_noting (Body.upholds_access fun w x hx =>
    ⟨(congrArg Life.engine (hacc w x).life_eq).trans hx.1,
      (congrArg Life.snapshot (hacc w x).life_eq).trans hx.2⟩)
  agree {x h h'} hx hr := by
    obtain ⟨hc, hw⟩ := hr
    let visit : Visit V := ⟨c, reads && x.isActive,
      if h.world.store.Has c then some (h.world.store.cell c).type else none,
      if reads then x.sighted h.world.store c else none, [x.mode], false⟩
    by_cases hcur : visit.Current final.store
    · right
      obtain ⟨htype, hrecord⟩ := hcur
      dsimp only [visit] at htype hrecord
      by_cases hhas : h.world.store.Has c
      · rw [if_pos hhas] at htype
        obtain ⟨y, hy, rfl⟩ := hn
        obtain ⟨past, hl⟩ := hc.onward
        have hlive : y.life ∈ (⟨h.world, s.running, past⟩ : Scene V).lives :=
          List.mem_map_of_mem (List.mem_append_right _ hy)
        obtain ⟨r, -, hat⟩ := World.Serves.readAt hl.sound hlive hhas
        have hat' : (h.world.store.cell c).readAt x.snapshot = .ok r := by rw [hx.2]; exact hat
        have heq := hf h.world h'.world x r (fun _ => (final.engine sole).version) (fun _ => a)
          (by rw [hw.store]; exact (Option.some.inj htype).symm) hat' fun hreads hactive hval => by
            have hsight := Context.sighted_of_readAt hhas hactive hval hat'
            have hhead := hrecord r (by rw [if_pos hreads]; exact hsight)
            rw [hw.store, Cell.readAt_of_head_le (hbehind c), hhead]
        refine ⟨?_, hc, hw⟩
        exact heq
      · rw [if_neg hhas] at htype
        cases htype
    · left
      exact ⟨visit, List.mem_append_right _ (VisitLog.mem_all_add.2 (.inl rfl)), hcur⟩

/-- A log of its own is entered with all that was seen. -/
theorem Bodies.logged_later {body : Body V (VisitLog V) α} {body' : Body V τ α}
    (hb : ∀ before, (later s n final a before).Bodies body body')
    {enter : Context V → Bool → VisitLog V → VisitLog V → VisitLog V}
    (he : ∀ x failed log inner u, u ∈ log.all ∨ u ∈ inner.all →
      ∃ v ∈ (enter x failed log inner).all, v.sight = u.sight) :
    (later s n final a before).Bodies (body.logged enter) body' := by
  -- what is not current for the body on its own is not current when its log was entered
  have hparted : ∀ (x : Context V) (failed : Bool) (log : VisitLog V) (t : Host V (VisitLog V)),
      (later s n final a (before ++ log.all) : Coupling V (VisitLog V) τ).Parted t →
        (later s n final a before : Coupling V (VisitLog V) τ).Parted
          { t with client := enter x failed log t.client } := by
    rintro x failed log t ⟨u, hu, hcur⟩
    rw [List.append_assoc, List.mem_append] at hu
    rcases hu with hu | hu
    · exact ⟨u, List.mem_append_left _ hu, hcur⟩
    · obtain ⟨v, hv, hsight⟩ := he x failed log t.client u (List.mem_append.1 hu)
      refine ⟨v, List.mem_append_right _ hv, fun hc => hcur ?_⟩
      obtain ⟨hcell, htype, hrecord⟩ : v.cell = u.cell ∧ v.type = u.type ∧ v.record = u.record := by
        simpa [Visit.sight] using hsight
      exact ⟨hcell ▸ htype ▸ hc.type, hcell ▸ hrecord ▸ hc.record⟩
  refine ⟨fun t hx _ => ((hb (before ++ t.host.client.all)).meets
    ⟨t.context, { t.host with client := {} }⟩ hx trivial), ?_, ?_⟩
  · rintro ⟨x, h⟩ hx ⟨v, hv, hcur⟩
    obtain ⟨hx', hp⟩ := (hb (before ++ h.client.all)).parted ⟨x, { h with client := {} }⟩ hx
      ⟨v, List.mem_append_left _ hv, hcur⟩
    exact ⟨hx', hparted x _ h.client _ hp⟩
  · intro x h h' hx hr
    rcases (hb (before ++ h.client.all)).agree (h := { h with client := {} }) hx hr with hp | ho
    · exact .inl (hparted x _ h.client _ hp)
    · exact .inr ho

/-- What others do in between goes on in the run, and nobody does it alone. -/
theorem Bodies.after_aside_later {next : Body V (VisitLog V) α} {next' : Body V τ α}
    {f : Host V (VisitLog V) → Host V (VisitLog V)} (hclient : ∀ h, (f h).client = h.client)
    (hf : ∀ h, s.Continues h.world → s.Continues (f h).world)
    (hb : (later s n final a before).Bodies next next') :
    (later s n final a before).Bodies (do Body.aside fun h => ((), f h); next) next' where
  meets _ hx _ := hb.meets ⟨_, _⟩ hx trivial
  parted := by
    rintro ⟨x, h⟩ hx ⟨v, hv, hcur⟩
    have hrun := hb.parted ⟨x, (h.pinning x.holds fun h => ((), f h)).2⟩ hx
    refine hrun ⟨v, ?_, hcur⟩
    dsimp only [Host.pinning]
    rw [hclient]
    exact hv
  agree {x h h'} hx hr := by
    have hc : s.Continues (h.pinning x.holds fun h => ((), f h)).2.world :=
      s.invariant_continues.pin (h := f { h with world.pinned := x.holds ++ h.world.pinned })
        h.world.pinned (hf _ (s.invariant_continues.pin (h := h) _ hr.1))
    exact hb.agree (h := (h.pinning x.holds fun h => ((), f h)).2) hx ⟨hc, hr.2⟩

end Coupling

/-- A traced program comes to what the program comes to alone, as long as all that it sees is
current. -/
theorem Program.alone_bodies {s : Scene V} {n : Version} {final : World V} {a : Anchor}
    (hn : ∃ y ∈ s.running, y.snapshot = n)
    (hbehind : ∀ c, (final.store.cell c).chain.head.version ≤ (final.engine sole).version)
    (hf : (final.engine sole).hooks = s.engine.hooks) :
    (p : Program V R) → p.Local → ∀ before,
      (Coupling.later s n final a before).Bodies p.traced (p.alone.run : Body V τ R)
  | .done result, _, _ => Coupling.bodies_pure result
  | .fail error, _, _ => Coupling.bodies_throw error
  | .read c next, hp, before =>
    (Coupling.bodies_noting hn hbehind (fun _ _ => .read c) fun w w' x r k g ht hr hr' =>
      x.read_shift k g (by simp) ht hr (by simpa using hr' rfl)).attempt_bind
        fun r => (next r).alone_bodies hn hbehind hf (hp r) before
  | .write c value next, hp, before =>
    (Coupling.bodies_noting hn hbehind (fun _ _ => .write c value) fun w w' x r k g ht _ _ =>
      x.write_shift k g value (by simp) ht).attempt_bind
        fun r => (next r).alone_bodies hn hbehind hf (hp r) before
  | .put acc delta next, hp, before =>
    (Coupling.bodies_noting hn hbehind (fun _ _ => .put acc delta) fun w w' x r k g ht _ _ => by
      unfold Context.put
      rw [Store.id_cell, Store.id_cell, ht]
      exact x.stage_shift k g _ _).attempt_bind
        fun r => (next r).alone_bodies hn hbehind hf (hp r) before
  | .get acc next, hp, before =>
    (Coupling.bodies_noting hn hbehind (fun _ _ => .get acc) fun w w' x r k g ht hr hr' =>
      x.get_shift k g acc.op (by simp) ht hr (by simpa using hr' rfl)).attempt_bind
        fun r => (next r).alone_bodies hn hbehind hf (hp r) before
  | .stage under target value next, hp, before =>
    (Coupling.bodies_noting hn hbehind (fun _ _ => .stage under target value)
      fun w w' x r k g ht _ _ => by
        rw [ht]
        exact x.stage_shift k g _ _).attempt_bind
          fun r => (next r).alone_bodies hn hbehind hf (hp r) before
  | .nested body next, hp, before =>
    (Coupling.Bodies.logged_later (fun before =>
      (body.alone_bodies hn hbehind hf hp.1 before).nested (Coupling.lawful_later hf))
      fun x failed log inner u hu => by
        rcases hu with hu | hu
        · exact ⟨u, VisitLog.mem_all_enclose.2 (.inl hu), rfl⟩
        · exact ⟨_, VisitLog.mem_all_enclose.2 (.inr ⟨u, hu, rfl⟩), rfl⟩).attempt_bind
          fun r => (next r).alone_bodies hn hbehind hf (hp.2 r) before
  | .parallel size mode body next, hp, before => by
    have htasks := fun before => Coupling.bodies_parallel
      (C := Coupling.later s n final a before) (Coupling.lawful_later hf)
      (List.ofFn fun i : Fin size =>
        (⟨mode i, fun _ => (body i).traced.asRun i⟩, ⟨mode i, fun _ => (body i).alone.run⟩))
      fun p hpair => by
        obtain ⟨i, rfl⟩ := List.mem_ofFn.1 hpair
        exact ⟨rfl, fun _ => Coupling.Bodies.logged_later
          (fun before => (body i).alone_bodies hn hbehind hf (hp.1 i) before)
          fun x failed log inner u hu => VisitLog.exists_mem_addRun hu⟩
    simp only [List.map_ofFn] at htasks
    exact (Coupling.Bodies.logged_later htasks fun x failed log inner u hu => by
      rcases hu with hu | hu
      · exact ⟨u, VisitLog.mem_all_enclose.2 (.inl hu), rfl⟩
      · exact ⟨_, VisitLog.mem_all_enclose.2 (.inr ⟨u, hu, rfl⟩), rfl⟩).attempt_bind
        fun r => (next r).alone_bodies hn hbehind hf (hp.2 r) before
  | .aside action next, hp, before =>
    (next.alone_bodies hn hbehind hf hp.2 before).after_aside_later action.client_run
      fun h hc => hc.trans fun past hs => action.run_onward hp.1 hs

/-- By itself a program keeps whatever its accesses and its children keep. -/
theorem Program.upholds_alone {P : Context V → Prop} {K : Host V σ → Prop}
    (hI : Host.Invariant P K) (hP : ∀ (s : Store V) (x y : Context V), x.Access s y → P x → P y)
    (p : Program V R) : (p.alone.run : Body V σ R).Upholds P K := by
  cases p with
  | done _ => exact fun _ hx hK => ⟨hx, hK⟩
  | fail _ => exact fun _ hx hK => ⟨hx, hK⟩
  | read c next =>
    exact .attempt_bind (Body.upholds_access fun w x => hP w.store x _ (.read c))
      fun r => (next r).upholds_alone hI hP
  | write c value next =>
    exact .attempt_bind (Body.upholds_access fun w x => hP w.store x _ (.write c value))
      fun r => (next r).upholds_alone hI hP
  | put a delta next =>
    exact .attempt_bind (Body.upholds_access fun w x => hP w.store x _ (.put a delta))
      fun r => (next r).upholds_alone hI hP
  | get a next =>
    exact .attempt_bind (Body.upholds_access fun w x => hP w.store x _ (.get a))
      fun r => (next r).upholds_alone hI hP
  | stage under target value next =>
    exact .attempt_bind (Body.upholds_access fun w x => hP w.store x _ (.stage under target value))
      fun r => (next r).upholds_alone hI hP
  | nested body next =>
    exact .attempt_bind ((body.upholds_alone hI hP).nested hI)
      fun r => (next r).upholds_alone hI hP
  | parallel _ _ body next =>
    exact .attempt_bind (Body.upholds_parallel hI fun task ht run => by
      obtain ⟨i, rfl⟩ := List.mem_ofFn.1 ht
      exact (body i).upholds_alone hI hP) fun r => (next r).upholds_alone hI hP
  | aside _ next => exact next.upholds_alone hI hP

end VersionedMemory
