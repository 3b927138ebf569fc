import VersionedMemory.Proofs.Listings
import VersionedMemory.Proofs.Snapshot
import VersionedMemory.Proofs.Turns

/-!
# What an engine keeps in every run

In every run that leaves the own cells of an engine to that engine, the engine knows its live
transactions, and its marks track its cells. Any notice that the engine takes keeps this, so every
turn does, and so every run.

## Main definitions

* `Scene.Settled` is what every run keeps.
* `Scene.Precedes` says what a later scene has to do with an earlier one: versions, floor and
  transactions go forward, and no snapshot that is in use both times sees another value.

## Main statements

* `Scene.Notice.settled`, `Scene.Ensues.settled`, `Scene.Attained.settled`: a notice, and with it
  every run, keeps what an engine has settled.
* `Scene.Reachable.attained`: the runs of one engine, in which no cell is changed but by its
  commits, are among these runs.
-/

namespace VersionedMemory

variable {V : Type} [Inhabited V]

namespace World

omit [Inhabited V] in
theorem get?_foldl_insert {gs : List (Engine × Nat)} {t : Table EngineId Engine} {e : EngineId}
    {g : Engine} (h : (gs.foldl (fun t p => t.insert p.2 p.1) t).get? e = some g) :
    t.get? e = some g ∨ ∃ p ∈ gs, p.1 = g := by
  induction gs generalizing t with
  | nil => exact .inl h
  | cons p rest ih =>
    rcases ih h with h | ⟨q, hq, rfl⟩
    · rw [Table.get?_insert] at h
      split at h
      · exact .inr ⟨p, List.mem_cons_self .., Option.some.inj h⟩
      · exact .inl h
    · exact .inr ⟨q, List.mem_cons_of_mem _ hq, rfl⟩

omit [Inhabited V] in
theorem engine_create (gs : List Engine) (e : EngineId) :
    (create gs : World V).engine e ∈ gs ∨ (create gs : World V).engine e = default := by
  unfold engine
  cases h : (create gs : World V).engines.get? e with
  | none => exact .inr rfl
  | some g =>
    rcases get?_foldl_insert h with h | ⟨p, hp, rfl⟩
    · cases h
    · exact .inl (List.fst_mem_of_mem_zipIdx hp)

end World

namespace Scene

variable {s s' s'' : Scene V} {e : EngineId} {own tended : CellId → Prop} {c : CellId}

/-- The marks of the engine track the cell, whose newest version is kept beside its chain. -/
structure Follows (s : Scene V) (e : EngineId) (c : CellId) : Prop where
  mirrored : s.store.latest c = (s.store.cell c).chain.head.version
  tracks : (s.world.engine e).timeline.Tracks c (s.store.cell c).chain

/-- The engine knows its transactions and follows its own cells. -/
structure Settled (e : EngineId) (own : CellId → Prop) (s : Scene V) : Prop where
  attends : s.Attends e
  follows : ∀ c, own c → s.Follows e c

/-- What a later scene has to do with an earlier one: own cells go on, and live transactions were
live before or are new. -/
structure Precedes (e : EngineId) (own : CellId → Prop) (s s' : Scene V) : Prop where
  version_le : (s.world.engine e).version ≤ (s'.world.engine e).version
  begun_le : (s.world.engine e).begun ≤ (s'.world.engine e).begun
  floor_le : (s.world.engine e).timeline.floor ≤ (s'.world.engine e).timeline.floor
  old_or_new : ∀ l ∈ s'.livesOf e, l ∈ s.livesOf e ∨
    ((s.world.engine e).begun < l.id.number ∧ (s.world.engine e).version ≤ l.snapshot)
  has : ∀ c, own c → s.store.Has c → s'.store.Has c
  asOf_eq : ∀ c, own c → s.store.Has c → ∀ v, (s'.world.engine e).timeline.floor ≤ v →
    v ≤ (s.world.engine e).version →
      (s'.store.cell c).chain.asOf v = (s.store.cell c).chain.asOf v

theorem Precedes.refl (s : Scene V) : s.Precedes e own s :=
  ⟨Nat.le_refl _, Nat.le_refl _, Nat.le_refl _, fun _ hl => .inl hl, fun _ _ hc => hc,
    fun _ _ _ _ _ _ => rfl⟩

theorem Precedes.trans (h : s.Precedes e own s') (h' : s'.Precedes e own s'') :
    s.Precedes e own s'' where
  version_le := Nat.le_trans h.version_le h'.version_le
  begun_le := Nat.le_trans h.begun_le h'.begun_le
  floor_le := Nat.le_trans h.floor_le h'.floor_le
  old_or_new l hl := by
    rcases h'.old_or_new l hl with hl | ⟨hid, hv⟩
    · exact h.old_or_new l hl
    · exact .inr ⟨Nat.lt_of_le_of_lt h.begun_le hid, Nat.le_trans h.version_le hv⟩
  has c hown hc := h'.has c hown (h.has c hown hc)
  asOf_eq c hown hc v hf hv := by
    rw [h'.asOf_eq c hown (h.has c hown hc) v hf (Nat.le_trans hv h.version_le)]
    exact h.asOf_eq c hown hc v (Nat.le_trans h'.floor_le hf) hv

/-! ### One notice -/

theorem Keeps.follows (h : Keeps s s' c) (hf : s.Follows e c)
    (ht : (s.world.engine e).timeline.Tracks c (s.store.cell c).chain →
      (s'.world.engine e).timeline.Tracks c (s.store.cell c).chain) : s'.Follows e c := by
  cases h with
  | same _ hchain hlatest =>
    refine ⟨?_, hchain ▸ ht hf.tracks⟩
    unfold Store.latest
    rw [hlatest, hchain]
    exact hf.mirrored
  | born value _ _ hchain hlatest =>
    refine ⟨?_, hchain ▸ Timeline.tracks_single _ _ _⟩
    unfold Store.latest
    rw [hlatest, hchain]
    rfl

theorem Notice.follows (h : Notice e own tended s s') (ha : s.Attends e) (hc : own c)
    (hf : s.Follows e c) : s'.Follows e c := by
  cases h with
  | nothing ht _ _ hk => exact (hk c hc).follows hf fun h => ht ▸ h
  | entry l ht _ _ _ _ _ _ _ hk => exact (hk c hc).follows hf fun h => ht ▸ h.anchor
  | exit l ht _ _ hk => exact (hk c hc).follows hf fun h => ht ▸ h.leave _
  | publication l changed ht _ _ _ hcell =>
    rcases hcell c with ⟨-, hs⟩ | ⟨hm, f, hs⟩
    · refine ⟨?_, ?_⟩
      · unfold Store.latest
        rw [hs]
        exact hf.mirrored
      · rw [ht, hs]
        exact (hf.tracks.publish (Nat.le_succ _) changed).leave _
    · refine ⟨?_, ?_⟩
      · unfold Store.latest
        rw [hs]
        rfl
      · rw [ht, hs]
        exact (hf.tracks.advance (Nat.lt_succ_self _) hm f).leave _
  | retirement live ht _ _ _ _ hcell =>
    have hkept := hf.tracks.retire ha.anchors
    refine ⟨?_, ?_⟩
    · unfold Store.latest
      rw [hcell]
      split
      · exact hf.mirrored.trans (congrArg Record.version (Chain.head_compact _ _).symm)
      · exact hf.mirrored
    · rw [ht, hcell]
      split
      · exact hkept.compact
      · exact hkept

omit [Inhabited V] in
/-- An engine knows its transactions over other marks, if the same ones live. -/
theorem Attends.of_perm (ha : s.Attends e) (hl : (s.livesOf e).Perm (s'.livesOf e))
    (ht : (s'.world.engine e).timeline.Anchors (s.livesOf e))
    (hc : (s'.world.engine e).timeline.Consecutive)
    (hb : (s'.world.engine e).begun = (s.world.engine e).begun) : s'.Attends e where
  anchors := ht.perm hl
  consecutive := hc
  active l hm := ha.active l (hl.mem_iff.2 hm)
  ids := (hl.pairwise_iff fun hne he => hne he.symm).1 ha.ids
  begun l hm := hb ▸ ha.begun l (hl.mem_iff.2 hm)

omit [Inhabited V] in
/-- An engine knows its transactions when one of them lives no more. -/
theorem Attends.of_exit {l : Life} (ha : s.Attends e)
    (hl : (s.livesOf e).Perm (l :: s'.livesOf e))
    (ht : (s'.world.engine e).timeline.Anchors (s'.livesOf e))
    (hc : (s'.world.engine e).timeline.Consecutive)
    (hb : (s'.world.engine e).begun = (s.world.engine e).begun) : s'.Attends e where
  anchors := ht
  consecutive := hc
  active l' hm := ha.active l' (hl.mem_iff.2 (List.mem_cons_of_mem _ hm))
  ids := (List.pairwise_cons.1 ((hl.pairwise_iff fun hne he => hne he.symm).1 ha.ids)).2
  begun l' hm := hb ▸ ha.begun l' (hl.mem_iff.2 (List.mem_cons_of_mem _ hm))

omit [Inhabited V] in
/-- An engine knows its transactions when one more of them lives, under the next identity. -/
theorem Attends.of_entry {l : Life} (ha : s.Attends e)
    (hl : (l :: s.livesOf e).Perm (s'.livesOf e)) (hlife : l.kind = none ∧ l.status = .active)
    (hid : l.id = ⟨(s.world.engine e).begun + 1⟩)
    (ht : (s'.world.engine e).timeline.Anchors (l :: s.livesOf e))
    (hc : (s'.world.engine e).timeline.Consecutive)
    (hb : (s'.world.engine e).begun = (s.world.engine e).begun + 1) : s'.Attends e where
  anchors := ht.perm hl
  consecutive := hc
  active l' hm := by
    rcases List.mem_cons.1 (hl.mem_iff.2 hm) with rfl | hm
    · exact hlife
    · exact ha.active l' hm
  ids := by
    refine (hl.pairwise_iff fun hne he => hne he.symm).1
      (List.pairwise_cons.2 ⟨fun l' hm he => ?_, ha.ids⟩)
    have hle := ha.begun l' hm
    rw [← he, hid] at hle
    exact Nat.not_succ_le_self _ hle
  begun l' hm := by
    rw [hb]
    rcases List.mem_cons.1 (hl.mem_iff.2 hm) with rfl | hm
    · exact Nat.le_of_eq (congrArg TxnId.number hid)
    · exact Nat.le_succ_of_le (ha.begun l' hm)

theorem Notice.attends (h : Notice e own tended s s') (ha : s.Attends e) : s'.Attends e := by
  cases h with
  | nothing ht hb hl _ => exact ha.of_perm hl (ht ▸ ha.anchors) (ht ▸ ha.consecutive) hb
  | entry l ht hb hid hk hst hanchor hsnap hl _ =>
    exact ha.of_entry hl ⟨hk, hst⟩ hid (ht ▸ ha.anchors.anchor hanchor hsnap)
      (ht ▸ ha.consecutive.anchor) hb
  | exit l ht hb hl _ =>
    exact ha.of_exit hl (ht ▸ (ha.anchors.perm hl).leave) (ht ▸ ha.consecutive.leave _) hb
  | publication l changed ht hb hl _ _ =>
    exact ha.of_exit hl (ht ▸ ((ha.anchors.publish (Nat.lt_succ_self _) changed).perm hl).leave)
      (ht ▸ (ha.consecutive.publish changed).leave _) hb
  | retirement live ht hb hl _ _ _ =>
    exact ha.of_perm hl (ht ▸ ha.anchors.retire) (ht ▸ ha.consecutive.retire) hb

theorem Notice.settled (h : Notice e own tended s s') (hs : s.Settled e own) :
    s'.Settled e own :=
  ⟨h.attends hs.attends, fun c hc => h.follows hs.attends hc (hs.follows c hc)⟩

theorem Keeps.of_has (h : Keeps s s' c) (hc : s.store.Has c) :
    s'.store.Has c ∧ (s'.store.cell c).chain = (s.store.cell c).chain := by
  cases h with
  | same hhas hchain _ => exact ⟨hhas.2 hc, hchain⟩
  | born _ hn => exact absurd hc hn

/-- The own cells are as they were, and the transactions are those of before or new ones. -/
theorem Precedes.of_keeps (hc : ∀ c, own c → Keeps s s' c)
    (hv : (s'.world.engine e).version = (s.world.engine e).version)
    (hf : (s'.world.engine e).timeline.floor = (s.world.engine e).timeline.floor)
    (hb : (s.world.engine e).begun ≤ (s'.world.engine e).begun)
    (hl : ∀ l ∈ s'.livesOf e, l ∈ s.livesOf e ∨
      ((s.world.engine e).begun < l.id.number ∧ (s.world.engine e).version ≤ l.snapshot)) :
    s.Precedes e own s' where
  version_le := Nat.le_of_eq hv.symm
  begun_le := hb
  floor_le := Nat.le_of_eq hf.symm
  old_or_new := hl
  has c hown hhas := ((hc c hown).of_has hhas).1
  asOf_eq c hown hhas v _ _ := by rw [((hc c hown).of_has hhas).2]

theorem Notice.precedes (h : Notice e own tended s s') (hs : s.Settled e own) :
    s.Precedes e own s' := by
  cases h with
  | nothing ht hb hl hc =>
    exact .of_keeps hc (congrArg (·.head.version) ht) (congrArg Timeline.floor ht)
      (Nat.le_of_eq hb.symm) fun l hm => .inl (hl.mem_iff.2 hm)
  | entry l ht hb hid _ _ _ hsnap hl hc =>
    refine .of_keeps hc (congrArg (·.head.version) ht)
      ((congrArg Timeline.floor ht).trans (Timeline.floor_anchor _))
      (Nat.le_of_lt (hb ▸ Nat.lt_succ_self _)) fun l' hm => ?_
    rcases List.mem_cons.1 (hl.mem_iff.2 hm) with rfl | hm
    · exact .inr ⟨hid ▸ Nat.lt_succ_self _, Nat.le_of_eq hsnap.symm⟩
    · exact .inl hm
  | exit l ht hb hl hc =>
    exact .of_keeps hc ((congrArg (·.head.version) ht).trans (Timeline.version_head_leave _ _))
      ((congrArg Timeline.floor ht).trans (Timeline.floor_leave _ _)) (Nat.le_of_eq hb.symm)
      fun l' hm => .inl (hl.mem_iff.2 (List.mem_cons_of_mem _ hm))
  | publication l changed ht hb hl hcreated hcell =>
    have hv : (s'.world.engine e).version = (s.world.engine e).version + 1 :=
      (congrArg (·.head.version) ht).trans (Timeline.version_head_leave _ _)
    refine ⟨hv ▸ Nat.le_succ _, Nat.le_of_eq hb.symm, ?_,
      fun l' hm => .inl (hl.mem_iff.2 (List.mem_cons_of_mem _ hm)), fun c _ hhas => ?_,
      fun c hown _ v _ hle => ?_⟩
    · rw [ht, Timeline.floor_leave, Timeline.floor_publish]
    · simpa only [Store.Has, hcreated] using hhas
    · rcases hcell c with ⟨-, he⟩ | ⟨-, f, he⟩
      · rw [he]
      · -- What is published is newer than all that the snapshot may see.
        have hlt : (s.store.cell c).chain.head.version < (s.world.engine e).version + 1 :=
          Nat.lt_succ_of_le (hs.follows c hown).tracks.behind
        have hnot : ¬ (s.world.engine e).version + 1 ≤ v := Nat.not_le.2 (Nat.lt_succ_of_le hle)
        rw [he]
        unfold Chain.asOf Cell.advance
        dsimp only
        rw [Chain.records_advance hlt, List.find?_cons_of_neg (by simpa using hnot)]
  | retirement live ht hb hl hcreated _ hcell =>
    refine ⟨Nat.le_of_eq (congrArg (·.head.version) ht).symm, Nat.le_of_eq hb.symm, ?_,
      fun l hm => .inl (hl.mem_iff.2 hm), fun c _ hhas => ?_, fun c _ _ v hf _ => ?_⟩
    · rw [ht]
      exact hs.attends.anchors.floor_le_retire
    · simpa only [Store.Has, hcreated] using hhas
    · rw [ht] at hf
      rw [hcell]
      split
      · exact Chain.asOf_compact hf _
      · rfl

/-! ### Runs -/

theorem Notices.settled (h : Relation.ReflTransGen (Notice e own tended) s s')
    (hs : s.Settled e own) : s'.Settled e own ∧ s.Precedes e own s' := by
  induction h with
  | refl => exact ⟨hs, .refl s⟩
  | tail _ hn ih => exact ⟨hn.settled ih.1, ih.2.trans (hn.precedes ih.1)⟩

theorem Round.notices (h : Round e own s s') (hs : s.Settled e own) (hf : s.world.Fresh) :
    Relation.ReflTransGen (Notice e own fun c => s.world.isLive c = true) s s' := by
  obtain ⟨d, ht, hc⟩ := h
  exact ht.notices hs.attends hf hc fun _ _ h => h

/-- Every run keeps what an engine has settled, and goes forward. -/
theorem Ensues.settled (h : Ensues e own s s') (hs : s.Settled e own) (hf : s.world.Fresh) :
    (s'.Settled e own ∧ s'.world.Fresh) ∧ s.Precedes e own s' := by
  induction h with
  | refl => exact ⟨⟨hs, hf⟩, .refl s⟩
  | tail _ hr ih =>
    obtain ⟨⟨hs, hf⟩, hprec⟩ := ih
    obtain ⟨hs', hprec'⟩ := Notices.settled (hr.notices hs hf) hs
    obtain ⟨d, ht, -⟩ := hr
    exact ⟨⟨hs', ht.fresh hf⟩, hprec.trans hprec'⟩

omit [Inhabited V] in
theorem Opening.engine_eq (h : Opening s) (e : EngineId) :
    ∃ config hooks, s.world.engine e = Engine.create config hooks := by
  obtain ⟨settings, rfl⟩ := h
  rcases World.engine_create (V := V) (settings.map fun p => Engine.create p.1 p.2) e with h | h
  · obtain ⟨p, -, hp⟩ := List.mem_map.1 h
    exact ⟨p.1, p.2, hp.symm⟩
  · exact ⟨{}, {}, h⟩

/-- New engines have nothing to keep track of. -/
theorem Opening.settled (h : Opening s) : s.Settled e own ∧ s.world.Fresh := by
  obtain ⟨config, hooks, hg⟩ := h.engine_eq e
  obtain ⟨settings, rfl⟩ := h
  refine ⟨⟨?_, fun c _ => ⟨rfl, ?_⟩⟩, fun _ _ => rfl⟩
  · refine ⟨?_, ?_, fun _ hl => (nomatch hl), .nil, fun _ hl => (nomatch hl)⟩
    · rw [hg]
      exact Timeline.anchors_startingAt genesis
    · rw [hg]
      exact Timeline.consecutive_startingAt genesis
  · rw [hg]
    exact Timeline.tracks_single _ _ _

theorem Attained.settled (h : s.Attained e own) : s.Settled e own ∧ s.world.Fresh := by
  obtain ⟨s₀, h₀, hrun⟩ := h
  obtain ⟨hs, hf⟩ : s₀.Settled e own ∧ s₀.world.Fresh := h₀.settled
  exact (hrun.settled hs hf).1

/-! ### Runs of one engine -/

theorem keeps_create {w : World V} {running : List (Context V)} (type : ContentType) (value : V)
    (hw : w.store = (s.world.store.create type value).2) (c : CellId) :
    Keeps s (s.next w running) c := by
  have hstore : (s.next w running).store = (s.store.create type value).2 := hw
  have hcell := s.store.cell_create type value c
  have hhas := s.store.has_create type value c
  by_cases hc : c = ⟨s.store.created + 1⟩
  · rw [if_pos hc] at hcell
    refine .born value ?_ ?_ ?_ ?_
    · rintro ⟨-, hle⟩
      rw [hc] at hle
      exact Nat.not_succ_le_self _ hle
    · rw [hstore]
      exact hhas.2 (.inr hc)
    · rw [hstore, hcell]
      rfl
    · rw [hstore, hcell]
      rfl
  · rw [if_neg hc] at hcell
    refine .same ?_ ?_ ?_
    · rw [hstore, hhas]
      simp [hc]
    · rw [hstore, hcell]
    · rw [hstore, hcell]

theorem keeps_handles {w : World V} {running : List (Context V)} (d : CellId) (n : Nat)
    (hw : w.store = s.world.store.set d { s.world.store.cell d with handles := n }) (c : CellId) :
    Keeps s (s.next w running) c := by
  have hstore : (s.next w running).store = s.store.set d { s.store.cell d with handles := n } := hw
  obtain ⟨hchain, hlatest, -⟩ := s.store.cell_set_handles d n c
  refine .same ?_ ?_ ?_ <;> rw [hstore]
  · exact .rfl
  · exact hchain
  · exact hlatest

/-- A step of a run of one engine, in which no cell is changed but by its commits, is a turn that
leaves every cell to that engine. Nobody is parked with another engine. -/
theorem Step.turn (h : Step s s') (hs : s.Sound) :
    ∃ d, Turn d s s' ∧ (d ≠ .serves sole → ∀ c, Keeps s s' c) ∧ ((∀ k, d ≠ .parks k) ∨
      ∃ x rest, s.running.Perm (x :: rest) ∧ s' = s.next (s.world.park sole x).2 rest) := by
  cases h with
  | create type value =>
    exact ⟨_, .create sole type value, fun _ => keeps_create _ _ rfl, .inl nofun⟩
  | createDetached type value =>
    exact ⟨_, .meddle (s.world.store.create type value).2, fun _ => keeps_create _ _ rfl,
      .inl nofun⟩
  | retain c => exact ⟨_, .meddle (s.store.retain c), fun _ => keeps_handles c _ rfl, .inl nofun⟩
  | release c => exact ⟨_, .meddle (s.store.release c), fun _ => keeps_handles c _ rfl, .inl nofun⟩
  | begin mode => exact ⟨_, .begin sole mode, fun _ => .of_store (by rfl), .inl nofun⟩
  | hold hp => exact ⟨_, .hold hp, fun _ => .of_store (by rfl), .inl nofun⟩
  | take ht =>
    refine ⟨_, .take ht, fun _ => .of_store ?_, .inl nofun⟩
    obtain ⟨_, -, he⟩ := Option.map_eq_some_iff.1 ht
    cases he
    rfl
  | giveBack hp hk hlt =>
    exact ⟨_, .giveBack hp hk hlt, fun _ => .of_store (by rfl), .inl nofun⟩
  | access hp ha => exact ⟨_, .access hp ha, fun _ => .of_store (by rfl), .inl nofun⟩
  | openChild kind mode =>
    exact ⟨_, .openChild sole kind mode, fun _ => .of_store (by rfl), .inl nofun⟩
  | countRerun => exact ⟨_, .countRerun sole, fun _ => .of_store (by rfl), .inl nofun⟩
  | pin cells => exact ⟨_, .pin cells, fun _ => .of_store (by rfl), .inl nofun⟩
  | bind t hp =>
    refine ⟨_, .bind t hp, fun _ => .of_store ?_, .inl nofun⟩
    change (s.world.bind t _).2.store = _
    unfold World.bind
    split <;> rfl
  | unbind hu =>
    refine ⟨_, .unbind hu, fun _ => .of_store ?_, .inl nofun⟩
    cases (Prod.mk.inj hu).2
    rfl
  | park hp =>
    exact ⟨_, .park sole hp, fun _ => .of_store (World.store_park _ _ _), .inr ⟨_, _, hp, rfl⟩⟩
  | unpark hu =>
    refine ⟨_, .unpark hu, fun _ => .of_store ?_, .inl nofun⟩
    obtain ⟨-, rfl⟩ := World.unpark_eq_ok hu
    rfl
  | commit hp =>
    rename_i x rest
    have hx : x.life ∈ s.lives :=
      List.mem_map_of_mem ((live_perm_cons hp).mem_iff.2 (List.mem_cons_self ..))
    exact ⟨_, .commit hp, fun hne => absurd (congrArg Deal.serves (hs.active _ hx).1) hne,
      .inl nofun⟩
  | abort reason hp => exact ⟨_, .abort reason hp, fun _ => .of_store (by rfl), .inl nofun⟩
  | reclaim => exact ⟨_, .reclaim sole, fun hne => absurd rfl hne, .inl nofun⟩

theorem Later.ensues (h : s.Later s') (hs : s.Sound) : Ensues sole (fun _ => True) s s' := by
  induction h with
  | refl => exact .refl
  | tail hrun hst ih =>
    obtain ⟨d, ht, hk, -⟩ := hst.turn (sound_of_later hs hrun).1
    exact .tail ih ⟨d, ht, fun hd c _ => hk hd c⟩

/-- A run of one engine leaves every cell to that engine. -/
theorem Reachable.attained (h : s.Reachable) : s.Attained sole fun _ => True := by
  obtain ⟨config, hooks, hrun⟩ := h
  exact ⟨start config hooks, ⟨[(config, hooks)], rfl⟩, hrun.ensues (sound_start config hooks)⟩

end Scene

end VersionedMemory
