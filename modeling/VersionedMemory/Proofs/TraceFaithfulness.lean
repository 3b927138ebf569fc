import VersionedMemory.Proofs.ProgramSteps
import VersionedMemory.Proofs.ReadSets
import VersionedMemory.Proofs.Tracing

/-!
# What is noted is true

In a run of one engine the record that a body reads of a cell is the newest that the snapshot of its
transaction has to see, and this stays true of the history of the cell whatever happens later.

## Main definitions

* `Visit.Faithful` says that a noted access is true to a store and its history.
* `Scene.Noted` says that a run has gone on to a host, and that all that was noted is true there.

## Main statements

* `Program.traced_noted`: what a traced program notes is true.
-/

namespace VersionedMemory

variable {V α β R : Type}

/-- The cell is there and is of the type noted, and the record noted is the newest that the snapshot
has to see. -/
structure Visit.Faithful [Inhabited V] (v : Visit V) (n : Version) (s : Store V)
    (past : History V) : Prop where
  type : ∀ t, v.type = some t → s.Has v.cell ∧ (s.cell v.cell).type = t
  record : ∀ r, v.record = some r → s.Has v.cell ∧ newestAt (past v.cell) n = some r

variable [Inhabited V]

namespace Scene

variable {s : Scene V} {n : Version}

/-- A context that runs in the engine at the snapshot. Where nobody chooses the modes of children,
it records its reads. -/
structure Hosts (s : Scene V) (n : Version) (x : Context V) : Prop where
  engine : x.engine = sole
  snapshot : x.snapshot = n
  records : s.engine.hooks.modeOfChild = none → x.mode.recordsReads = true

/-- What is noted of an access is true. -/
structure Vouches (s : Scene V) (n : Version) (w : World V) (past : History V) (v : Visit V) :
    Prop where
  faithful : v.Faithful n w.store past
  records : s.engine.hooks.modeOfChild = none → ∀ m ∈ v.modes, m.recordsReads = true

/-- The run has gone on to the host, and what was noted there, and before, is true. -/
def Noted (s : Scene V) (n : Version) (before : List (Visit V)) (h : Host V (VisitLog V)) : Prop :=
  ∃ past, s.Leads ⟨h.world, s.running, past⟩ ∧ s.world.Spares h.world ∧
    ∀ v ∈ before ++ h.client.all, s.Vouches n h.world past v

/-- What is true of a snapshot that is served stays true. -/
theorem Vouches.of_precedes {w w' : World V} {lives lives' : List Life} {past past' : History V}
    {v : Visit V} (h : s.Vouches n w past v) (hp : w.Precedes lives past w' lives' past')
    (hn : n ≤ (w.engine sole).version) : s.Vouches n w' past' v := by
  have hhas : ∀ c, w.store.Has c → w'.store.Has c :=
    fun c hc => ⟨hc.1, Nat.le_trans hc.2 hp.created_le⟩
  refine ⟨⟨fun t ht => ?_, fun r hr => ?_⟩, h.records⟩
  · obtain ⟨hc, ht⟩ := h.faithful.type t ht
    exact ⟨hhas _ hc, (hp.type_eq _ hc).trans ht⟩
  · obtain ⟨hc, hr⟩ := h.faithful.record r hr
    exact ⟨hhas _ hc, (hp.newestAt_eq _ hc n hn).trans hr⟩

variable {before : List (Visit V)}

/-- What goes on in the run keeps what was noted. -/
theorem Noted.onward (hn : ∃ y ∈ s.running, y.snapshot = n) {h : Host V (VisitLog V)}
    (hK : s.Noted n before h) {w : World V}
    (hw : ∀ past, (⟨h.world, s.running, past⟩ : Scene V).Sound →
      Continues ⟨h.world, s.running, past⟩ w) : s.Noted n before { h with world := w } := by
  obtain ⟨past, hl, hspares, hv⟩ := hK
  obtain ⟨⟨past', hl'⟩, hspares'⟩ := hw past hl.sound
  obtain ⟨y, hy, rfl⟩ := hn
  have hlive : y.life ∈ (⟨h.world, s.running, past⟩ : Scene V).lives :=
    List.mem_map_of_mem (List.mem_append_right _ hy)
  exact ⟨past', hl.trans hl', hspares.trans hspares', fun v hmem =>
    (hv v hmem).of_precedes hl'.precedes (hl.sound.anchors.snapshot_bounds hlive).2⟩

/-- A body on a context that runs in the engine keeps what was noted. -/
theorem invariant_noted (hn : ∃ y ∈ s.running, y.snapshot = n) (before : List (Visit V)) :
    Host.Invariant (s.Hosts n) (s.Noted n before) where
  pin pinned hK := hK.onward hn fun past hs =>
    (⟨_, s.running, past⟩ : Scene V).invariant_continues.pin pinned hs.continues
  child {x h} kind below shared hx hK := by
    refine ⟨⟨hx.engine, hx.snapshot, fun hd => ?_⟩, hK.onward hn fun past hs =>
      ((⟨_, s.running, past⟩ : Scene V).invariant_continues.child kind below shared hx.engine
        hs.continues).2⟩
    obtain ⟨past, hl, -⟩ := hK
    have hhooks : (h.world.engine sole).hooks.modeOfChild = none :=
      (congrArg Hooks.modeOfChild hl.hooks).trans hd
    simp only [Body.openChild, Engine.openChild, hx.engine, hhooks]
    exact hx.records hd
  rerun hx hK := hK.onward hn fun past hs =>
    (⟨_, s.running, past⟩ : Scene V).invariant_continues.rerun hx.engine hs.continues
  adopt {x} e hx :=
    ⟨(congrArg Life.engine (x.life_adopt e)).trans hx.engine,
      (congrArg Life.snapshot (x.life_adopt e)).trans hx.snapshot,
      fun hd => (x.keeps_adopt e).recordsReads.trans (hx.records hd)⟩

theorem Hosts.access {x y : Context V} {t : Store V} (hx : s.Hosts n x) (ha : x.Access t y) :
    s.Hosts n y :=
  ⟨(congrArg Life.engine ha.life_eq).trans hx.engine,
    (congrArg Life.snapshot ha.life_eq).trans hx.snapshot,
    fun hd => ha.keeps.recordsReads.trans (hx.records hd)⟩

end Scene

/-- What is sighted is what the cell answers the snapshot. -/
theorem Context.readAt_of_sighted {x : Context V} {s : Store V} {c : CellId} {r : Record V}
    (h : x.sighted s c = some r) : s.Has c ∧ (s.cell c).readAt x.snapshot = .ok r := by
  unfold sighted at h
  dsimp only at h
  split at h
  · split at h
    · next hc =>
      refine ⟨hc, ?_⟩
      cases hr : (s.cell c).readAt x.snapshot with
      | error e => simp [hr, Except.toOption] at h
      | ok r' => simpa [hr, Except.toOption] using h
    · cases h
  · cases h

namespace Body

variable {s : Scene V} {n : Version} {before : List (Visit V)}

/-- What is noted of an access is true when it is noted. -/
theorem upholds_noting (hn : ∃ y ∈ s.running, y.snapshot = n)
    {f : World V → Context V → Except Error α × Context V}
    (hf : ∀ (w : World V) (x : Context V), x.Access w.store (f w x).2) (c : CellId) (reads : Bool) :
    (noting c reads (access f)).Upholds (s.Hosts n) (s.Noted n before) := by
  rintro ⟨x, h⟩ hx ⟨past, hl, hspares, hv⟩
  refine ⟨hx.access (hf h.world x), past, hl, hspares, fun v hmem => ?_⟩
  rcases List.mem_append.1 hmem with hmem | hmem
  · exact hv v (List.mem_append_left _ hmem)
  · rcases VisitLog.mem_all_add.1 hmem with rfl | hmem
    · refine ⟨⟨fun t ht => ?_, fun r hr => ?_⟩, fun hd m hm => ?_⟩
      · dsimp only at ht ⊢
        split at ht
        · next hc => exact ⟨hc, Option.some.inj ht⟩
        · cases ht
      · dsimp only at hr ⊢
        split at hr
        · obtain ⟨hc, hat⟩ := Context.readAt_of_sighted hr
          obtain ⟨y, hy, rfl⟩ := hn
          have hlive : y.life ∈ (⟨h.world, s.running, past⟩ : Scene V).lives :=
            List.mem_map_of_mem (List.mem_append_right _ hy)
          obtain ⟨r', hnew, hat'⟩ := World.Serves.readAt hl.sound hlive hc
          rw [hx.snapshot] at hat
          obtain rfl := Except.ok.inj (hat'.symm.trans hat)
          exact ⟨hc, hnew⟩
        · cases hr
      · obtain rfl := List.mem_singleton.1 hm
        exact hx.records hd
    · exact hv v (List.mem_append_right _ hmem)

/-- What is noted in a log of its own and then entered stays true, if entering it notes nothing
else. -/
theorem upholds_logged {body : Body V (VisitLog V) α}
    {enter : Context V → Bool → VisitLog V → VisitLog V → VisitLog V}
    (hb : ∀ before, body.Upholds (s.Hosts n) (s.Noted n before))
    (he : ∀ (x : Context V) (failed : Bool) (log inner : VisitLog V) (w : World V)
      (past : History V), s.Hosts n x → (∀ v ∈ log.all, s.Vouches n w past v) →
        (∀ v ∈ inner.all, s.Vouches n w past v) →
          ∀ v ∈ (enter x failed log inner).all, s.Vouches n w past v) :
    (body.logged enter).Upholds (s.Hosts n) (s.Noted n before) := by
  rintro ⟨x, h⟩ hx ⟨past, hl, hspares, hv⟩
  obtain ⟨hx', past', hl', hspares', hv'⟩ :=
    hb (before ++ h.client.all) ⟨x, { h with client := {} }⟩ hx
      ⟨past, hl, hspares, by simpa [VisitLog.all] using hv⟩
  refine ⟨hx', past', hl', hspares', fun v hmem => ?_⟩
  rcases List.mem_append.1 hmem with hmem | hmem
  · exact hv' v (List.mem_append_left _ (List.mem_append_left _ hmem))
  · exact he x _ h.client _ _ _ hx
      (fun v hmem => hv' v (List.mem_append_left _ (List.mem_append_right _ hmem)))
      (fun v hmem => hv' v (List.mem_append_right _ hmem)) v hmem

theorem upholds_calling {body : Body V (VisitLog V) α}
    (hb : ∀ before, body.Upholds (s.Hosts n) (s.Noted n before)) :
    body.calling.Upholds (s.Hosts n) (s.Noted n before) := by
  refine upholds_logged hb fun x failed log inner w past hx hlog hinner v hv => ?_
  rcases VisitLog.mem_all_enclose.1 hv with hv | ⟨u, hu, rfl⟩
  · exact hlog v hv
  · have h := hinner u hu
    exact ⟨⟨h.faithful.type, h.faithful.record⟩, fun hd =>
      List.forall_mem_cons.2 ⟨hx.records hd, h.records hd⟩⟩

theorem upholds_asRun {body : Body V (VisitLog V) α}
    (hb : ∀ before, body.Upholds (s.Hosts n) (s.Noted n before)) (task : Nat) :
    (body.asRun task).Upholds (s.Hosts n) (s.Noted n before) := by
  refine upholds_logged hb fun x failed log inner w past hx hlog hinner v hv => ?_
  rcases VisitLog.mem_all_addRun hv with hv | ⟨u, hu, rfl | rfl⟩
  · exact hinner v hv
  · exact hlog _ hu
  · have h := hlog u hu
    exact ⟨⟨h.faithful.type, h.faithful.record⟩, h.records⟩

end Body

/-- What a traced program notes is true. -/
theorem Program.traced_noted {s : Scene V} {n : Version} (hn : ∃ y ∈ s.running, y.snapshot = n) :
    (p : Program V R) → p.Local → ∀ before,
      p.traced.Upholds (s.Hosts n) (s.Noted n before)
  | .done _, _, _ => fun _ hx hK => ⟨hx, hK⟩
  | .fail _, _, _ => fun _ hx hK => ⟨hx, hK⟩
  | .read c next, hp, before =>
    (Body.upholds_noting hn (fun _ _ => .read c) _ _).attempt_bind
      fun r => (next r).traced_noted hn (hp r) before
  | .write c value next, hp, before =>
    (Body.upholds_noting hn (fun _ _ => .write c value) _ _).attempt_bind
      fun r => (next r).traced_noted hn (hp r) before
  | .put a delta next, hp, before =>
    (Body.upholds_noting hn (fun _ _ => .put a delta) _ _).attempt_bind
      fun r => (next r).traced_noted hn (hp r) before
  | .get a next, hp, before =>
    (Body.upholds_noting hn (fun _ _ => .get a) _ _).attempt_bind
      fun r => (next r).traced_noted hn (hp r) before
  | .stage under target value next, hp, before =>
    (Body.upholds_noting hn (fun _ _ => .stage under target value) _ _).attempt_bind
      fun r => (next r).traced_noted hn (hp r) before
  | .nested body next, hp, before =>
    (Body.upholds_calling fun before =>
      (body.traced_noted hn hp.1 before).nested (s.invariant_noted hn before)).attempt_bind
        fun r => (next r).traced_noted hn (hp.2 r) before
  | .parallel size mode body next, hp, before =>
    (Body.upholds_calling fun before =>
      Body.upholds_parallel (s.invariant_noted hn before) fun task ht run => by
        obtain ⟨i, rfl⟩ := List.mem_ofFn.1 ht
        exact Body.upholds_asRun ((body i).traced_noted hn (hp.1 i)) i).attempt_bind
          fun r => (next r).traced_noted hn (hp.2 r) before
  | .aside action next, hp, before => fun t hx hK => by
    have haside := Body.upholds_aside (f := fun h => ((), action.run h))
      (s.invariant_noted hn before) (fun g hg => ?_) t hx hK
    · exact next.traced_noted hn hp.2 before _ haside.1 haside.2
    · have hnext := hg.onward hn fun past hs => action.run_onward hp.1 hs
      rwa [← action.client_run g] at hnext

end VersionedMemory
