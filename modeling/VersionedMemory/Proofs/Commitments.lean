import VersionedMemory.Proofs.Validation

/-!
# The invariant of runs

The logs of the committed transactions fit between the committed states of a run, and those of the
open ones are on the way to: every move of a run keeps this.

## Main definitions

* `Run.Sound` is the invariant of runs.

## Main statements

* `Run.Sound.commit`: every way a commit may end keeps the invariant.
* `Run.Sound.step`: every move keeps it.
* `Run.sound_after`: every run does.
-/

namespace VersionedMemory

variable {V : Type} [Inhabited V]

/-- What is true at every point of a run. -/
structure Run.Sound (r : Run V) (past : History V) : Prop where
  serves : r.world.Serves (r.world.alive.map Context.life) past
  initial : Shows r.world.store past genesis r.initial
  tracks : ∀ x ∈ r.world.alive, Tracks r.world.store past x (r.events x.id)
  fits : ∀ t ∈ r.committed, t.Fits r.world.store past r.version
  versions : r.writers.map (·.receipt.version) = List.range' 1 r.version
  ended : r.committed.Pairwise fun a b => a.ended < b.ended
  clock : ∀ t ∈ r.committed, t.ended < r.clock
  recent : ∀ x ∈ r.world.alive, r.begun x.id < r.clock ∧
    ∀ b ∈ r.committed, b.ended < r.begun x.id → b.place ≤ x.snapshot
  realTime : ∀ a ∈ r.committed, a.begun < a.ended ∧
    ∀ b ∈ r.committed, b.ended < a.begun → b.place ≤ a.base

namespace Run

variable {r r' : Run V} {past past' : History V} {w w' : World V}

theorem sound_start (config : Config) (hooks : Hooks) :
    (start config hooks : Run V).Sound fun _ => [] where
  serves := Scene.sound_start config hooks
  initial _ hc := absurd (Nat.lt_of_lt_of_le hc.1 hc.2) (Nat.lt_irrefl 0)
  tracks _ hx := nomatch hx
  fits _ ht := nomatch ht
  versions := rfl
  ended := .nil
  clock _ ht := nomatch ht
  recent _ hx := nomatch hx
  realTime _ ht := nomatch ht

theorem Sound.snapshot_le (h : r.Sound past) {x : Context V} (hx : x ∈ r.world.alive) :
    x.snapshot ≤ r.version :=
  (h.serves.anchors.snapshot_bounds (List.mem_map_of_mem hx)).2

theorem Sound.initial_of_precedes (h : r.Sound past) {lives lives' : List Life}
    (hp : r.world.Precedes lives past w lives' past')
    (hc : w.store.created = r.world.store.created) : Shows w.store past' genesis r.initial := by
  intro c hc'
  have hold : r.world.store.Has c := ⟨hc'.1, hc ▸ hc'.2⟩
  rw [hp.newestAt_eq c hold genesis (Nat.zero_le _)]
  exact h.initial c hold

/-- A step at which nothing commits keeps the invariant, if the engine goes on to serve. -/
theorem Sound.next {lives : List Life} (h : r.Sound past) (r' : Run V)
    (hs : r'.world.Serves (r'.world.alive.map Context.life) past')
    (hp : r.world.Precedes lives past r'.world (r'.world.alive.map Context.life) past')
    (hv : r'.version = r.version) (hc : r'.committed = r.committed)
    (hk : r'.clock = r.clock + 1) (hi : Shows r'.world.store past' genesis r'.initial)
    (ht : ∀ x ∈ r'.world.alive, Tracks r'.world.store past' x (r'.events x.id))
    (hr : ∀ x ∈ r'.world.alive, r'.begun x.id ≤ r.clock ∧
      ∀ b ∈ r.committed, b.ended < r'.begun x.id → b.place ≤ x.snapshot) :
    r'.Sound past' where
  serves := hs
  initial := hi
  tracks := ht
  fits t hmem := (h.fits t (hc ▸ hmem)).mono hp
  versions := by
    rw [hv, writers, hc]
    exact h.versions
  ended := hc ▸ h.ended
  clock t hmem := by
    rw [hk]
    exact Nat.lt_succ_of_lt (h.clock t (hc ▸ hmem))
  recent x hx := by
    rw [hk, hc]
    exact ⟨Nat.lt_succ_of_le (hr x hx).1, (hr x hx).2⟩
  realTime := hc ▸ h.realTime

/-- What holds of a live transaction still holds of it after a step that ends nothing. -/
theorem Sound.recent_le (h : r.Sound past) {x : Context V} (hx : x ∈ r.world.alive) :
    r.begun x.id ≤ r.clock ∧ ∀ b ∈ r.committed, b.ended < r.begun x.id → b.place ≤ x.snapshot :=
  ⟨Nat.le_of_lt (h.recent x hx).1, (h.recent x hx).2⟩

/-- A step at which live transactions change hands or end, and nothing else, keeps the invariant. -/
theorem Sound.keep (h : r.Sound past) {lives : List Life}
    (hs : w.Serves (w.alive.map Context.life) past')
    (hp : r.world.Precedes lives past w (w.alive.map Context.life) past')
    (hv : (w.engine sole).version = r.version) (hc : w.store.created = r.world.store.created)
    (ha : ∀ x ∈ w.alive, x ∈ r.world.alive) :
    { r with world := w, clock := r.clock + 1 }.Sound past' := by
  refine h.next _ hs hp hv rfl rfl (h.initial_of_precedes hp hc) (fun x hx => ?_) fun x hx => ?_
  · exact (h.tracks x (ha x hx)).mono hp (h.snapshot_le (ha x hx))
  · exact h.recent_le (ha x hx)

theorem Sound.idle (h : r.Sound past) : { r with clock := r.clock + 1 }.Sound past :=
  h.keep h.serves (.refl ..) rfl rfl fun _ hx => hx

/-! ### One step -/

/-- The transaction was taken out of the world of a run, which is `w` without it. -/
structure InHand (r : Run V) (past : History V) (x : Context V) (w : World V) : Prop where
  serves : w.Serves ((x :: w.alive).map Context.life) past
  precedes : r.world.Precedes (r.world.alive.map Context.life) past w
    ((x :: w.alive).map Context.life) past
  store : w.store = r.world.store
  version : (w.engine sole).version = r.version
  alive : ∀ y ∈ x :: w.alive, y ∈ r.world.alive

theorem Sound.take (h : r.Sound past) {k : Handle} {x : Context V}
    (ht : r.world.take k = some (x, w)) :
    InHand r past x w ∧ w.held.get? k = none ∧ k < w.handles := by
  have ha := World.alive_take ht
  obtain ⟨y, hy, he⟩ := Option.map_eq_some_iff.1 ht
  cases he
  have hk : k < r.world.handles := by
    refine Nat.lt_of_not_le fun hle => ?_
    rw [h.serves.handles k hle] at hy
    cases hy
  obtain ⟨hs, hp⟩ := h.serves.handOver { r.world with held := r.world.held.erase k } rfl rfl
    (fun j hj => by simp [h.serves.handles j hj]) (ha.map Context.life)
  exact ⟨⟨hs, hp, rfl, rfl, fun y hy => ha.mem_iff.2 hy⟩, by simp, hk⟩

theorem Sound.unpark (h : r.Sound past) {txn : TxnId} {x : Context V}
    (hu : r.world.unpark sole txn = (.ok x, w)) : InHand r past x w := by
  have ha := World.alive_unpark hu
  obtain ⟨-, rfl⟩ := World.unpark_eq_ok hu
  obtain ⟨hs, hp⟩ := h.serves.handOver
    { r.world with parked := r.world.parked.erase (sole, txn) } rfl rfl h.serves.handles
    (ha.map Context.life)
  exact ⟨hs, hp, rfl, rfl, fun y hy => ha.mem_iff.2 hy⟩

/-- A step at which the transaction in hand changes hands or ends, and nothing else, keeps the
invariant. -/
theorem Sound.keepInHand (h : r.Sound past) {x : Context V} (hx : InHand r past x w)
    (hs : w'.Serves (w'.alive.map Context.life) past')
    (hp : w.Precedes ((x :: w.alive).map Context.life) past w' (w'.alive.map Context.life) past')
    (hv : (w'.engine sole).version = (w.engine sole).version) (hst : w'.store = w.store)
    (ha : ∀ y ∈ w'.alive, y ∈ x :: w.alive) :
    { r with world := w', clock := r.clock + 1 }.Sound past' :=
  h.keep hs (hx.precedes.trans hp) (hv.trans hx.version)
    (congrArg Store.created (hst.trans hx.store)) fun y hy => hx.alive y (ha y hy)

theorem Sound.abort (h : r.Sound past) {x : Context V} (hx : InHand r past x w) (reason : String) :
    ∃ past', { r with world := w.abort x reason, clock := r.clock + 1 }.Sound past' := by
  have hp := World.Serves.abort hx.serves reason
  exact ⟨_, h.keepInHand hx hp.serves hp.precedes (World.version_abort ..) rfl
    fun y hy => List.mem_cons_of_mem _ hy⟩

theorem Sound.park (h : r.Sound past) {x : Context V} (hx : InHand r past x w) :
    ∃ past', { r with world := (w.park sole x).2, clock := r.clock + 1 }.Sound past' := by
  have hserves : w.Serves ((x :: (w.alive ++ [])).map Context.life) past := by
    simpa using hx.serves
  have hp := World.Serves.park hserves
  simp only [List.append_nil] at hp
  exact ⟨_, h.keepInHand hx hp.serves hp.precedes (World.version_park ..) (World.store_park ..)
    fun y hy => List.mem_cons.2 (World.mem_alive_park hy)⟩

theorem Sound.hold (h : r.Sound past) {x : Context V} (hx : InHand r past x w) :
    ∃ past', { r with world := (w.hold x).2, clock := r.clock + 1 }.Sound past' := by
  have ha := World.alive_hold (hx.serves.handles _ (Nat.le_refl _)) x
  obtain ⟨hs, hp⟩ := hx.serves.handOver (w.hold x).2 rfl rfl
    (World.held_hold hx.serves.handles x) (ha.symm.map Context.life)
  exact ⟨_, h.keepInHand hx hs hp rfl rfl fun y hy => ha.mem_iff.1 hy⟩

theorem Sound.reclaim (h : r.Sound past) :
    ∃ past', { r with world := (r.world.reclaim sole).2, clock := r.clock + 1 }.Sound past' := by
  have hp := h.serves.reclaim
  refine ⟨_, h.keep hp.serves hp.precedes ?_ ?_ fun y hy => hy⟩
  · rw [World.version_reclaim]
    rfl
  · exact created_compactAll _ _ _

theorem Sound.create (h : r.Sound past) (type : ContentType) (value : V) :
    ∃ past', (r.step (.create type value)).Sound past' := by
  have hp := h.serves.create (r.world.createCell sole type value).2 type value rfl
    (by simp [World.createCell, Engine.announce]) (by simp [World.createCell, Engine.announce])
    h.serves.handles
  refine ⟨_, h.next (r.step (.create type value)) hp.serves hp.precedes ?_ rfl rfl
    (fun c hc => ?_) (fun x hx => ?_) fun x hx => ?_⟩
  · simp [version, step, act, World.createCell, Engine.announce, Engine.version]
  · by_cases hold : r.world.store.Has c
    · have hne : c ≠ ⟨r.world.store.created + 1⟩ := fun he =>
        Nat.not_succ_le_self _ ((congrArg CellId.number he) ▸ hold.2)
      rw [hp.precedes.newestAt_eq c hold genesis (Nat.zero_le _), h.initial c hold]
      exact congrArg some (if_neg hne).symm
    · have he := ((r.world.store.has_create type value c).1 hc).resolve_left hold
      have hn := h.serves.recalls.note_new type value hc hold
      change (newestAt (past.note (r.world.store.create type value).2 c) genesis).map _ = _
      rw [hn]
      exact congrArg some (if_pos he).symm
  · exact (h.tracks x hx).mono hp.precedes (h.snapshot_le hx)
  · exact h.recent_le hx

theorem Sound.begin (h : r.Sound past) (mode : Mode) :
    ∃ past', (r.step (.begin mode)).Sound past' := by
  have hp := h.serves.begin mode
  rcases hb : r.world.begin sole mode with ⟨x, w⟩
  rw [hb] at hp
  have hw : r.step (.begin mode) = { r with
      world := (w.hold x).2
      clock := r.clock + 1
      begun := fun i => if i = x.id then r.clock else r.begun i
      events := fun i => if i = x.id then [] else r.events i } := by
    simp only [step, act, hb]
  have hwalive : w.alive = r.world.alive := (congrArg (·.2.alive) hb).symm
  have hx : x = .begin ⟨(r.world.engine sole).begun + 1⟩ sole
      (r.world.engine sole).timeline.anchor.1 mode := (congrArg Prod.fst hb).symm
  have hv : (w.engine sole).version = r.version := by
    have he := congrArg (fun p => (p.2.engine sole).version) hb
    simpa [World.begin, Engine.begin, Engine.version, Timeline.anchor, version] using he.symm
  -- The new transaction has an identity of its own.
  have hnew : ∀ y ∈ r.world.alive, y.id ≠ x.id := fun y hy he => by
    have hle := h.serves.begun y.life (List.mem_map_of_mem hy)
    have hid : y.life.id = ⟨(r.world.engine sole).begun + 1⟩ := he.trans (congrArg Context.id hx)
    rw [hid] at hle
    exact Nat.not_succ_le_self _ hle
  have ha := World.alive_hold (hp.serves.handles _ (Nat.le_refl _)) x
  rw [hwalive] at ha
  obtain ⟨hs, hp'⟩ := hp.serves.handOver (w.hold x).2 rfl rfl
    (World.held_hold hp.serves.handles x) (ha.symm.map Context.life)
  have hprec := hp.precedes.trans hp'
  have hstore : w.store = r.world.store := (congrArg (·.2.store) hb).symm
  rw [hw]
  refine ⟨_, h.next _ hs hprec hv rfl rfl
    (h.initial_of_precedes hprec (congrArg Store.created hstore))
    (fun y hy => ?_) fun y hy => ?_⟩
  · rcases List.mem_cons.1 (ha.mem_iff.1 hy) with rfl | hy
    · simp only [if_true]
      rw [hx]
      exact tracks_begin ..
    · simp only [if_neg (hnew y hy)]
      exact (h.tracks y hy).mono hprec (h.snapshot_le hy)
  · rcases List.mem_cons.1 (ha.mem_iff.1 hy) with rfl | hy
    · simp only [if_true]
      refine ⟨Nat.le_refl _, fun b hb' _ => ?_⟩
      rw [hx]
      exact (h.fits b hb').place_le
    · simp only [if_neg (hnew y hy)]
      exact h.recent_le hy

theorem Sound.access (h : r.Sound past) {k : Handle} {x : Context V}
    (ht : r.world.take k = some (x, w)) (q : Request V) (hq : r.world.store.Has q.cell) :
    ∃ past', { r with
      world := w.giveBack k (q.serve w.store x).2
      clock := r.clock + 1
      events := fun i => if i = x.id then r.events i ++ (q.serve w.store x).1 else r.events i
      }.Sound past' := by
  obtain ⟨hx, hfree, hlt⟩ := h.take ht
  have hmem : x ∈ r.world.alive := hx.alive x (List.mem_cons_self ..)
  obtain ⟨-, hk, hst⟩ := hx.serves.active x.life (List.mem_cons_self ..)
  obtain ⟨hy, hl⟩ := (h.tracks x hmem).serve hst hk
    (fun _ hc => h.serves.readAt (List.mem_map_of_mem hmem) hc) q hq
  rw [← hx.store] at hy hl
  generalize hserve : q.serve w.store x = served at hy hl ⊢
  obtain ⟨es, y⟩ := served
  have ha := World.alive_giveBack hfree y
  have hother : ∀ z ∈ w.alive, z.id ≠ x.id := fun z hz he =>
    (List.pairwise_cons.1 hx.serves.ids).1 z.life (List.mem_map_of_mem hz) he.symm
  have hid : y.id = x.id := congrArg Life.id hl
  have hsnap : y.snapshot = x.snapshot := congrArg Life.snapshot hl
  obtain ⟨hs, hp⟩ := hx.serves.handOver (w.giveBack k y) rfl rfl
    (World.held_giveBack hx.serves.handles hlt y) (by simpa [hl] using (ha.symm.map Context.life))
  have hprec := hx.precedes.trans hp
  refine ⟨_, h.next _ hs hprec hx.version rfl rfl
    (h.initial_of_precedes hprec (congrArg Store.created hx.store)) (fun z hz => ?_) fun z hz => ?_⟩
  · rcases List.mem_cons.1 (ha.mem_iff.1 hz) with rfl | hz
    · simp only [if_pos hid]
      rw [hid]
      exact hy
    · simp only [if_neg (hother z hz)]
      have hz' := hx.alive z (List.mem_cons_of_mem _ hz)
      exact (h.tracks z hz').mono hprec (h.snapshot_le hz')
  · rcases List.mem_cons.1 (ha.mem_iff.1 hz) with rfl | hz
    · rw [hid, hsnap]
      exact h.recent_le hmem
    · exact h.recent_le (hx.alive z (List.mem_cons_of_mem _ hz))

/-! ### Commits -/

/-- A step at which a transaction commits keeps the invariant. -/
theorem Sound.record (h : r.Sound past) {x : Context V} (hx : InHand r past x w)
    {lives : List Life} (hs : w'.Serves (w'.alive.map Context.life) past')
    (hp : r.world.Precedes lives past w' (w'.alive.map Context.life) past')
    (hc : w'.store.created = r.world.store.created) (ha : ∀ y ∈ w'.alive, y ∈ r.world.alive)
    {receipt : Receipt} {t : Commitment V}
    (ht : t = ⟨receipt, x.snapshot, r.begun x.id, r.clock, r.events x.id⟩)
    (hfit : t.Fits w'.store past' (w'.engine sole).version) (hbase : x.snapshot ≤ t.base)
    (hv : (receipt.readOnly = true ∧ (w'.engine sole).version = r.version) ∨
      (receipt.readOnly = false ∧ receipt.version = r.version + 1 ∧
        (w'.engine sole).version = r.version + 1)) :
    { r with
      world := w', clock := r.clock + 1, committed := r.committed ++ [t] }.Sound past' := by
  have hrec := h.recent x (hx.alive x (List.mem_cons_self ..))
  have hended : t.ended = r.clock := by rw [ht]
  have hbegun : t.begun = r.begun x.id := by rw [ht]
  have hmem : ∀ {a}, a ∈ r.committed ++ [t] → a ∈ r.committed ∨ a = t := fun ha => by simpa using ha
  refine ⟨hs, h.initial_of_precedes hp hc, fun y hy => ?_, fun a ha' => ?_, ?_, ?_, fun a ha' => ?_,
    fun y hy => ?_, fun a ha' => ?_⟩
  · exact (h.tracks y (ha y hy)).mono hp (h.snapshot_le (ha y hy))
  · rcases hmem ha' with ha' | rfl
    · exact (h.fits a ha').mono hp
    · exact hfit
  · have hold := h.versions
    simp only [writers, version, List.filter_append, List.map_append] at hold ⊢
    rw [hold]
    rcases hv with ⟨hro, hv⟩ | ⟨hro, hrv, hv⟩
    · simp [ht, hro, hv, version]
    · rw [hv, List.range'_1_concat]
      simp [ht, hro, hrv, version, Nat.add_comm]
  · refine List.pairwise_append.2 ⟨h.ended, List.pairwise_singleton _ _, fun a ha' b hb => ?_⟩
    rw [List.mem_singleton.1 hb, hended]
    exact h.clock a ha'
  · rcases hmem ha' with ha' | rfl
    · exact Nat.lt_succ_of_lt (h.clock a ha')
    · change a.ended < r.clock + 1
      omega
  · have hry := h.recent y (ha y hy)
    refine ⟨Nat.lt_succ_of_lt hry.1, fun b hb hlt => ?_⟩
    rcases hmem hb with hb | rfl
    · exact hry.2 b hb hlt
    · change b.ended < r.begun y.id at hlt
      have hbefore := hry.1
      omega
  · rcases hmem ha' with hold | rfl
    · obtain ⟨hlt, hall⟩ := h.realTime a hold
      refine ⟨hlt, fun b hb hlt' => ?_⟩
      rcases hmem hb with hb | rfl
      · exact hall b hb hlt'
      · have hbefore := h.clock a hold
        omega
    · rw [hended, hbegun]
      refine ⟨hrec.1, fun b hb hlt => ?_⟩
      rcases hmem hb with hb | rfl
      · exact Nat.le_trans (hrec.2 b hb hlt) hbase
      · have hbefore := hrec.1
        omega

/-- However a commit ends, it keeps the invariant. -/
theorem Sound.commit (h : r.Sound past) {x : Context V} (hx : InHand r past x w) :
    (∀ receipt, (w.commit x).1 = .ok receipt → ∃ past', { r with
        world := (w.commit x).2
        clock := r.clock + 1
        committed := r.committed ++ [(⟨receipt, x.snapshot, r.begun x.id, r.clock,
          r.events x.id⟩ : Commitment V)] }.Sound past') ∧
      ∀ e, (w.commit x).1 = .error e →
        ∃ past', { r with world := (w.commit x).2, clock := r.clock + 1 }.Sound past' := by
  obtain ⟨he, hk, hst⟩ := hx.serves.active x.life (List.mem_cons_self ..)
  have heng : x.engine = sole := he
  have ha : x.isActive = true := decide_eq_true (p := x.status = .active) hst
  have hc : x.isChild = false := by
    have hk' : x.kind = none := hk
    simp [Context.isChild, hk']
  have hmem : x ∈ r.world.alive := hx.alive x (List.mem_cons_self ..)
  have htr := h.tracks x hmem
  rw [← hx.store] at htr
  have hp := World.Serves.commit hx.serves
  have halive := World.alive_commit w x
  obtain ⟨hversion, hcr, hheads⟩ := World.commit_newest ha hc
  have hres := (w.commit_eq ha hc).1
  rw [heng] at hversion hheads hres
  have hold : ∀ y ∈ (w.commit x).2.alive, y ∈ r.world.alive := fun y hy =>
    hx.alive y (List.mem_cons_of_mem _ (halive ▸ hy))
  have hserves : (w.commit x).2.Serves ((w.commit x).2.alive.map Context.life)
      (past.note (w.commit x).2.store) := by
    rw [halive]
    exact hp.serves
  have hprec := hx.precedes.trans hp.precedes
  rw [← halive] at hprec
  rw [hres]
  have hwithin := htr.within
  have hmirrored := hx.serves.recalls.mirrored
  have hversion' := hx.version
  have hle : x.snapshot ≤ (w.engine sole).version := hversion' ▸ h.snapshot_le hmem
  refine ⟨fun receipt hok => ?_, fun e herr => ?_⟩
  · rcases ((w.engine sole).commit_cases x w.store).2 with ⟨hch, hr, hs, ht⟩ | ⟨e, he', -⟩ |
      ⟨hch, hsup, -, p, -, -, -, hr⟩
    · cases hr.symm.trans hok
      have hv : ((w.commit x).2.engine sole).version = (w.engine sole).version := by
        rw [hversion, Engine.version, ht, Timeline.version_head_leave, ← Engine.version]
      have hfit := (htr.fits_readOnly hle hch (r.begun x.id) r.clock).mono hp.precedes
      exact ⟨_, h.record hx hserves hprec (hcr.trans (congrArg Store.created hx.store)) hold rfl
        hfit (Nat.le_refl _) (.inl ⟨rfl, hv.trans hversion'⟩)⟩
    · cases he'.symm.trans hok
    · have hro : receipt.readOnly = false := by
        cases hf : p.failed <;> rw [hf] at hr <;> cases hr.symm.trans hok
        rfl
      obtain ⟨hrv, hev, -, hs⟩ := Engine.commit_ok hmirrored hwithin hok hro
      have hv : ((w.commit x).2.engine sole).version = (w.engine sole).version + 1 := by
        rw [hversion, hev, hrv]
      rw [hs, hrv] at hheads
      have hfit := htr.fits_publication hx.serves hp hch hsup hv hcr hheads receipt hro hrv
        (r.begun x.id) r.clock
      refine ⟨_, h.record hx hserves hprec (hcr.trans (congrArg Store.created hx.store)) hold rfl
        hfit ?_ (.inr ⟨hro, hrv.trans (congrArg (· + 1) hversion'),
          hv.trans (congrArg (· + 1) hversion')⟩)⟩
      simpa [Commitment.base, hro, hrv] using hle
  · obtain ⟨-, -, ht⟩ := Engine.commit_error hmirrored hwithin herr
    have hv : ((w.commit x).2.engine sole).version = (w.engine sole).version := by
      rw [hversion, Engine.version, ht, Timeline.version_head_leave, ← Engine.version]
    exact ⟨_, h.keep hserves hprec (hv.trans hversion')
      (hcr.trans (congrArg Store.created hx.store)) hold⟩

/-- A step that uses up a transaction in the hands of a caller, if there is one, keeps the
invariant. -/
theorem Sound.consume (h : r.Sound past) (k : Handle) {f : Context V → World V → World V}
    (hf : ∀ x w, InHand r past x w →
      ∃ past', { r with world := f x w, clock := r.clock + 1 }.Sound past') :
    ∃ past', { r with world := r.world.consume k f, clock := r.clock + 1 }.Sound past' := by
  unfold World.consume
  cases ht : r.world.take k with
  | none => exact ⟨past, h.idle⟩
  | some p => exact hf p.1 p.2 (h.take ht).1

/-- Every move keeps the invariant. -/
theorem Sound.step (h : r.Sound past) (move : Move V) : ∃ past', (r.step move).Sound past' := by
  cases move with
  | create type value => exact h.create type value
  | begin mode => exact h.begin mode
  | access k q =>
    by_cases hq : r.world.store.Has q.cell
    · cases ht : r.world.take k with
      | none =>
        simp only [Run.step, act, if_pos hq, ht]
        exact ⟨past, h.idle⟩
      | some p =>
        simp only [Run.step, act, if_pos hq, ht]
        exact h.access ht q hq
    · simp only [Run.step, act, if_neg hq]
      exact ⟨past, h.idle⟩
  | commit k =>
    cases ht : r.world.take k with
    | none =>
      simp only [Run.step, act, ht]
      exact ⟨past, h.idle⟩
    | some p =>
      obtain ⟨x, w⟩ := p
      obtain ⟨hok, herr⟩ := h.commit (h.take ht).1
      simp only [Run.step, act, ht]
      rcases hc : w.commit x with ⟨e | receipt, w'⟩ <;> rw [hc] at hok herr
      · exact herr e rfl
      · exact hok receipt rfl
  | abort k => exact h.consume k fun x w hx => h.abort hx _
  | discard k => exact h.consume k fun x w hx => h.abort hx _
  | park k => exact h.consume k fun x w hx => h.park hx
  | unpark txn =>
    simp only [Run.step, act]
    rcases hu : r.world.unpark sole txn with ⟨e | x, w⟩
    · rw [World.eq_of_unpark_eq_error hu]
      exact ⟨past, h.idle⟩
    · exact h.hold (h.unpark hu)
  | abortParked txn =>
    simp only [Run.step, act, World.abortParked]
    rcases hu : r.world.unpark sole txn with ⟨e | x, w⟩
    · rw [World.eq_of_unpark_eq_error hu]
      exact ⟨past, h.idle⟩
    · exact h.abort (h.unpark hu) _
  | reclaim => exact h.reclaim

theorem sound_after (config : Config) (hooks : Hooks) (moves : List (Move V)) :
    ∃ past, (after config hooks moves).Sound past := by
  have hrun : ∀ (moves : List (Move V)) (r : Run V), (∃ past, r.Sound past) →
      ∃ past, (moves.foldl Run.step r).Sound past := by
    intro moves
    induction moves with
    | nil => exact fun _ h => h
    | cons move rest ih =>
      rintro r ⟨past, h⟩
      exact ih _ (h.step move)
  exact hrun moves _ ⟨_, sound_start config hooks⟩

end Run

end VersionedMemory
