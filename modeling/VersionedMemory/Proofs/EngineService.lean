import VersionedMemory.Proofs.RetainedHistory

/-!
# An engine at the service of transactions

The anchors of the live transactions keep the floor at or below every live snapshot, and from the
floor on every cell answers as its whole history does. Whatever a world does to a transaction or to
its engine keeps this, and leaves what old snapshots see.

## Main definitions

* `World.Serves` says that the engine of a world serves transactions of given lives, over cells of a
  given history.
* `World.Passes` says that a world may become another one: the engine goes on to serve, and old
  snapshots see the same.

## Main statements

* `World.Serves.begin`, `World.Serves.abort`, `World.Serves.commit`, `World.Serves.reclaim`,
  `World.Serves.create`: what may happen keeps `World.Serves`.
-/

namespace VersionedMemory

variable {V : Type} [Inhabited V]

namespace World

/-- The engine serves transactions of the given lives: each is anchored, active and known by its
identity, and the cells recall their history as far back as anybody needs it. -/
structure Serves (w : World V) (lives : List Life) (past : History V) : Prop where
  anchors : (w.engine sole).timeline.Anchors lives
  active : ∀ l ∈ lives, l.engine = sole ∧ l.kind = none ∧ l.status = .active
  ids : lives.Pairwise fun l l' => l.id ≠ l'.id
  begun : ∀ l ∈ lives, l.id.number ≤ (w.engine sole).begun
  recalls : w.store.Recalls (w.engine sole).timeline.floor (w.engine sole).version past
  handles : ∀ k, w.handles ≤ k → w.held.get? k = none

/-- The second world comes after the first: live transactions are those of before or new ones,
snapshots of before see what they saw, and of new cells they see the first value. -/
structure Precedes (w : World V) (lives : List Life) (past : History V) (w' : World V)
    (lives' : List Life) (past' : History V) : Prop where
  version_le : (w.engine sole).version ≤ (w'.engine sole).version
  begun_le : (w.engine sole).begun ≤ (w'.engine sole).begun
  created_le : w.store.created ≤ w'.store.created
  old_or_new : ∀ l ∈ lives', l ∈ lives ∨ (w.engine sole).begun < l.id.number
  type_eq : ∀ c, w.store.Has c → (w'.store.cell c).type = (w.store.cell c).type
  newestAt_eq : ∀ c, w.store.Has c → ∀ v ≤ (w.engine sole).version,
    newestAt (past' c) v = newestAt (past c) v
  born : ∀ c, w'.store.Has c → ¬ w.store.Has c → ∀ v ≤ (w.engine sole).version,
    newestAt (past' c) v = newestAt (past' c) genesis

/-- The first world becomes the second, and the engine goes on to serve. -/
structure Passes (w : World V) (lives : List Life) (past : History V) (w' : World V)
    (lives' : List Life) : Prop where
  serves : w'.Serves lives' (past.note w'.store)
  precedes : w.Precedes lives past w' lives' (past.note w'.store)

variable {w w' w₁ w₂ : World V} {lives lives' lives₁ lives₂ : List Life}
  {past past₁ past₂ : History V}

theorem Precedes.refl (w : World V) (lives : List Life) (past : History V) :
    w.Precedes lives past w lives past :=
  ⟨Nat.le_refl _, Nat.le_refl _, Nat.le_refl _, fun _ hl => .inl hl, fun _ _ => rfl,
    fun _ _ _ _ => rfl, fun _ hc hn => absurd hc hn⟩

theorem Precedes.trans (h₁ : w.Precedes lives past w₁ lives₁ past₁)
    (h₂ : w₁.Precedes lives₁ past₁ w₂ lives₂ past₂) : w.Precedes lives past w₂ lives₂ past₂ := by
  have hhas : ∀ c, w.store.Has c → w₁.store.Has c :=
    fun c hc => ⟨hc.1, Nat.le_trans hc.2 h₁.created_le⟩
  refine ⟨Nat.le_trans h₁.version_le h₂.version_le, Nat.le_trans h₁.begun_le h₂.begun_le,
    Nat.le_trans h₁.created_le h₂.created_le, fun l hl => ?_, fun c hc => ?_, fun c hc v hv => ?_,
    fun c hc hn v hv => ?_⟩
  · rcases h₂.old_or_new l hl with hl | hl
    · exact h₁.old_or_new l hl
    · exact .inr (Nat.lt_of_le_of_lt h₁.begun_le hl)
  · exact (h₂.type_eq c (hhas c hc)).trans (h₁.type_eq c hc)
  · rw [← h₁.newestAt_eq c hc v hv]
    exact h₂.newestAt_eq c (hhas c hc) v (Nat.le_trans hv h₁.version_le)
  · have hv₁ := Nat.le_trans hv h₁.version_le
    by_cases hc₁ : w₁.store.Has c
    · rw [h₂.newestAt_eq c hc₁ v hv₁, h₂.newestAt_eq c hc₁ genesis (Nat.zero_le _)]
      exact h₁.born c hc₁ hn v hv
    · exact h₂.born c hc hc₁ v hv₁

theorem Serves.perm (h : w.Serves lives past) (hp : lives.Perm lives') : w.Serves lives' past where
  anchors := h.anchors.perm hp
  active l hl := h.active l (hp.mem_iff.2 hl)
  ids := (hp.pairwise_iff fun hne he => hne he.symm).1 h.ids
  begun l hl := h.begun l (hp.mem_iff.2 hl)
  recalls := h.recalls
  handles := h.handles

theorem Serves.eq_of_id (h : w.Serves lives past) {l l' : Life} (hl : l ∈ lives)
    (hl' : l' ∈ lives) (he : l.id = l'.id) : l = l' :=
  List.inj_on_of_nodup_map (List.pairwise_map.2 h.ids) hl hl' he

/-- Every cell answers a live snapshot with what its history has there. -/
theorem Serves.readAt (h : w.Serves lives past) {l : Life} (hl : l ∈ lives) {c : CellId}
    (hc : w.store.Has c) : ∃ r, newestAt (past c) l.snapshot = some r ∧
      (w.store.cell c).readAt l.snapshot = .ok r := by
  have hr := h.recalls.cells c hc
  obtain ⟨r, hn⟩ := hr.exists_newestAt l.snapshot
  have ha := hr.asOf_eq l.snapshot (h.anchors.snapshot_bounds hl).1
  exact ⟨r, hn, by simp [Cell.readAt, ha, hn]⟩

theorem Passes.perm (h : w.Passes lives past w' lives₁) (hp : lives₁.Perm lives') :
    w.Passes lives past w' lives' where
  serves := h.serves.perm hp
  precedes := { h.precedes with
    old_or_new := fun l hl => h.precedes.old_or_new l (hp.mem_iff.2 hl) }

theorem Passes.perm_left (h : w.Passes lives₁ past w' lives') (hp : lives₁.Perm lives) :
    w.Passes lives past w' lives' where
  serves := h.serves
  precedes := { h.precedes with
    old_or_new := fun l hl => (h.precedes.old_or_new l hl).imp_left hp.mem_iff.1 }

/-- What passes to a second world passes to a third one, in which no value is newer. -/
theorem Passes.trans (h₁ : w.Passes lives past w₁ lives₁)
    (h₂ : w₁.Passes lives₁ (past.note w₁.store) w₂ lives₂)
    (hc : w₂.store.created = w₁.store.created)
    (hh : ∀ c, (w₂.store.cell c).chain.head = (w₁.store.cell c).chain.head) :
    w.Passes lives past w₂ lives₂ := by
  have hn : (past.note w₁.store).note w₂.store = past.note w₂.store := by
    rw [History.note_congr hc hh, History.note_congr hc hh, h₁.serves.recalls.note_eq]
  have h₁₂ := h₁.precedes.trans h₂.precedes
  rw [hn] at h₁₂
  exact ⟨hn ▸ h₂.serves, h₁₂⟩

/-- An engine goes on to serve where neither the cells nor the marks change. Live transactions may
change hands. -/
theorem Serves.quiet (h : w.Serves lives past)
    (ht : (w'.engine sole).timeline = (w.engine sole).timeline)
    (hb : (w'.engine sole).begun = (w.engine sole).begun)
    (hc : w'.store.created = w.store.created)
    (hs : ∀ c, (w'.store.cell c).chain = (w.store.cell c).chain ∧
      (w'.store.cell c).latest = (w.store.cell c).latest ∧
      (w'.store.cell c).type = (w.store.cell c).type)
    (hh : ∀ k, w'.handles ≤ k → w'.held.get? k = none) (hp : lives.Perm lives') :
    w.Passes lives past w' lives' := by
  have hv : (w'.engine sole).version = (w.engine sole).version := congrArg (·.head.version) ht
  have hr := h.recalls.quiet hc fun c => ⟨(hs c).1, (hs c).2.1⟩
  rw [← ht, ← hv] at hr
  have hn := hr.note_eq
  have hserves : w'.Serves lives past := ⟨ht ▸ h.anchors, h.active, h.ids, hb ▸ h.begun, hr, hh⟩
  refine ⟨hn.symm ▸ hserves.perm hp, Nat.le_of_eq hv.symm, Nat.le_of_eq hb.symm,
    Nat.le_of_eq hc.symm, fun l hl => .inl (hp.mem_iff.2 hl), fun c _ => (hs c).2.2,
    fun c _ v _ => by rw [hn], fun c hc' hn' => absurd ?_ hn'⟩
  simpa only [Store.Has, hc] using hc'

/-- An engine goes on to serve where live transactions change hands, and nothing else happens. -/
theorem Serves.handOver (h : w.Serves lives past) (w' : World V) (hs : w'.store = w.store)
    (hg : w'.engine sole = w.engine sole) (hh : ∀ k, w'.handles ≤ k → w'.held.get? k = none)
    (hp : lives.Perm lives') : w'.Serves lives' past ∧ w.Precedes lives past w' lives' past := by
  have hn : past.note w'.store = past := by rw [hs, h.recalls.note_eq]
  have hq : w.Passes lives past w' lives' :=
    h.quiet (congrArg Engine.timeline hg) (congrArg Engine.begun hg) (congrArg Store.created hs)
      (fun c => by rw [hs]; exact ⟨rfl, rfl, rfl⟩) hh hp
  have hserves := hq.serves
  have hprecedes := hq.precedes
  rw [hn] at hserves hprecedes
  exact ⟨hserves, hprecedes⟩

/-- An engine goes on to serve when a transaction comes to its end and publishes nothing. -/
theorem Serves.leave {l : Life} (h : w.Serves (l :: lives) past)
    (ht : (w'.engine sole).timeline = (w.engine sole).timeline.leave l.anchor)
    (hb : (w'.engine sole).begun = (w.engine sole).begun) (hs : w'.store = w.store)
    (hh : ∀ k, w'.handles ≤ k → w'.held.get? k = none) :
    w.Passes (l :: lives) past w' lives := by
  have hv : (w'.engine sole).version = (w.engine sole).version := by
    rw [Engine.version, ht, Timeline.version_head_leave, ← Engine.version]
  have hn : past.note w'.store = past := by rw [hs, h.recalls.note_eq]
  have hserves : w'.Serves lives past :=
    { anchors := ht ▸ h.anchors.leave
      active := fun l' hl' => h.active l' (List.mem_cons_of_mem _ hl')
      ids := (List.pairwise_cons.1 h.ids).2
      begun := fun l' hl' => hb ▸ h.begun l' (List.mem_cons_of_mem _ hl')
      recalls := by
        rw [ht, hv, hs, Timeline.floor_leave]
        exact h.recalls
      handles := hh }
  exact ⟨hn.symm ▸ hserves, Nat.le_of_eq hv.symm, Nat.le_of_eq hb.symm,
    Nat.le_of_eq (by rw [hs]), fun l' hl' => .inl (List.mem_cons_of_mem _ hl'),
    fun c _ => by rw [hs], fun c _ v _ => by rw [hn], fun c hc hn' => absurd (hs ▸ hc) hn'⟩

theorem Serves.create (h : w.Serves lives past) (w' : World V) (type : ContentType) (value : V)
    (hs : w'.store = (w.store.create type value).2)
    (ht : (w'.engine sole).timeline = (w.engine sole).timeline)
    (hb : (w'.engine sole).begun = (w.engine sole).begun)
    (hh : ∀ k, w'.handles ≤ k → w'.held.get? k = none) : w.Passes lives past w' lives := by
  have hv : (w'.engine sole).version = (w.engine sole).version := congrArg (·.head.version) ht
  refine ⟨⟨ht ▸ h.anchors, h.active, h.ids, hb ▸ h.begun, ?_, hh⟩, Nat.le_of_eq hv.symm,
    Nat.le_of_eq hb.symm, ?_, fun l hl => .inl hl, fun c hc => ?_, fun c hc v _ => ?_,
    fun c hc hn v _ => ?_⟩
  · rw [ht, hv, hs]
    exact h.recalls.create type value
  · rw [hs, Store.created_create]
    exact Nat.le_succ _
  · rw [hs, Store.Recalls.cell_create_of_has type value hc]
  · rw [hs, h.recalls.note_create type value hc]
  · rw [hs] at hc ⊢
    rw [h.recalls.note_new type value hc hn]
    rfl

/-- An engine goes on to serve with a new transaction, which is anchored on the head. -/
theorem Serves.begin (h : w.Serves lives past) (mode : Mode) :
    w.Passes lives past (w.begin sole mode).2 ((w.begin sole mode).1.life :: lives) := by
  have hn : past.note (w.begin sole mode).2.store = past := h.recalls.note_eq
  have hg : (w.begin sole mode).2.engine sole = ((w.engine sole).begin (V := V) sole mode).2 := by
    simp [World.begin]
  have ht : ((w.begin sole mode).2.engine sole).timeline = (w.engine sole).timeline.anchor.2 :=
    congrArg Engine.timeline hg
  have hb : ((w.begin sole mode).2.engine sole).begun = (w.engine sole).begun + 1 :=
    congrArg Engine.begun hg
  have hid : (w.begin sole mode).1.life.id = ⟨(w.engine sole).begun + 1⟩ := rfl
  have hserves : (w.begin sole mode).2.Serves ((w.begin sole mode).1.life :: lives) past := by
    refine ⟨ht ▸ h.anchors.anchor rfl rfl, ?_, ?_, ?_, ?_, h.handles⟩
    · exact List.forall_mem_cons.2 ⟨⟨rfl, rfl, rfl⟩, h.active⟩
    · refine List.pairwise_cons.2 ⟨fun l hl he => ?_, h.ids⟩
      have hl' := h.begun l hl
      rw [← he, hid] at hl'
      exact Nat.not_succ_le_self _ hl'
    · rw [hb]
      refine List.forall_mem_cons.2 ⟨Nat.le_of_eq (congrArg TxnId.number hid), fun l hl => ?_⟩
      exact Nat.le_succ_of_le (h.begun l hl)
    · rw [Engine.version, ht, Timeline.floor_anchor]
      exact h.recalls
  refine ⟨hn.symm ▸ hserves, Nat.le_of_eq ?_, ?_, Nat.le_refl _, ?_, fun _ _ => rfl,
    fun c _ v _ => by rw [hn], fun c hc hn' => absurd hc hn'⟩
  · rw [Engine.version, Engine.version, ht]
    rfl
  · rw [hb]
    exact Nat.le_succ _
  · refine List.forall_mem_cons.2 ⟨.inr ?_, fun l hl => .inl hl⟩
    rw [hid]
    exact Nat.lt_succ_self _

/-- An engine goes on to serve when a transaction is aborted, which leaves. -/
theorem Serves.abort {x : Context V} (h : w.Serves (x.life :: lives) past) (reason : String) :
    w.Passes (x.life :: lives) past (w.abort x reason) lives := by
  obtain ⟨he, hk, hs⟩ := h.active x.life (List.mem_cons_self ..)
  have hx : x.engine = sole := he
  have ha : x.isActive = true := decide_eq_true (p := x.status = .active) hs
  have hg : (w.abort x reason).engine sole =
      ((w.engine sole).finish x (.aborted reason)).2 := by
    simp [World.abort, hx, Engine.abort, ha]
  exact h.leave (congrArg Engine.timeline hg) ((congrArg Engine.begun hg).trans rfl) rfl h.handles

/-- Cells are compacted to the floor that is left when the marks nobody needs are retired. -/
theorem Serves.compact (h : w.Serves lives past) {cells : List CellId}
    (hs : w'.store = (compactAll (w.engine sole).timeline.retire.2.floor cells w.store).2)
    (ht : (w'.engine sole).timeline = (w.engine sole).timeline.retire.2)
    (hb : (w'.engine sole).begun = (w.engine sole).begun)
    (hh : ∀ k, w'.handles ≤ k → w'.held.get? k = none) : w.Passes lives past w' lives := by
  have hv : (w'.engine sole).version = (w.engine sole).version := congrArg (·.head.version) ht
  have hr := (h.recalls.mono h.anchors.floor_le_retire (Nat.le_refl _)).compactAll cells
  rw [← hs] at hr
  have hn := hr.note_eq
  have hc : w'.store.created = w.store.created := by rw [hs, created_compactAll]
  refine ⟨?_, Nat.le_of_eq hv.symm, Nat.le_of_eq hb.symm, Nat.le_of_eq hc.symm,
    fun l hl => .inl hl, fun c _ => ?_, fun c _ v _ => by rw [hn], fun c hc' hn' => absurd ?_ hn'⟩
  · rw [hn]
    exact ⟨ht ▸ h.anchors.retire, h.active, h.ids, hb ▸ h.begun, by rw [ht, hv]; exact hr, hh⟩
  · rw [hs, type_compactAll]
  · simpa only [Store.Has, hc] using hc'

theorem Serves.reclaim (h : w.Serves lives past) :
    w.Passes lives past (w.reclaim sole).2 lives := by
  have hg : (w.reclaim sole).2.engine sole = ((w.engine sole).reclaim w.isLive w.store).2.1 := by
    simp [World.reclaim]
  exact h.compact rfl (congrArg Engine.timeline hg) ((congrArg Engine.begun hg).trans rfl) h.handles

/-- What a commit publishes is newer than everything that a live snapshot sees. -/
theorem Serves.publish {x : Context V} (h : w.Serves (x.life :: lives) past)
    {changes : List (Change V)} {p : Publication V}
    (hp : p = publishAll ((w.engine sole).version + 1) changes w.store) (hs : w'.store = p.store)
    (ht : (w'.engine sole).timeline =
      ((w.engine sole).timeline.publish ((w.engine sole).version + 1) p.changed).leave x.anchor)
    (hb : (w'.engine sole).begun = (w.engine sole).begun)
    (hh : ∀ k, w'.handles ≤ k → w'.held.get? k = none) :
    w.Passes (x.life :: lives) past w' lives := by
  have hlt : (w.engine sole).version < (w.engine sole).version + 1 := Nat.lt_succ_self _
  have hv : (w'.engine sole).version = (w.engine sole).version + 1 := by
    rw [Engine.version, ht]
    simp [Timeline.publish]
  have hcr : w'.store.created = w.store.created := by rw [hs, hp, created_publishAll]
  refine ⟨⟨?_, fun l hl => h.active l (List.mem_cons_of_mem _ hl), (List.pairwise_cons.1 h.ids).2,
    fun l hl => hb ▸ h.begun l (List.mem_cons_of_mem _ hl), ?_, hh⟩, ?_, Nat.le_of_eq hb.symm,
    Nat.le_of_eq hcr.symm, fun l hl => .inl (List.mem_cons_of_mem _ hl), fun c hc => ?_,
    fun c hc v hle => ?_, fun c hc hn => absurd ?_ hn⟩
  · rw [ht]
    exact (h.anchors.publish hlt p.changed).leave
  · rw [ht, hv, hs, hp, Timeline.floor_leave, Timeline.floor_publish]
    exact h.recalls.publishAll hlt changes
  · rw [hv]
    exact Nat.le_succ _
  · rw [hs, hp]
    rcases h.recalls.note_publishAll hlt changes hc with ⟨he, -⟩ | ⟨f, he, -⟩ <;> rw [he]
    rfl
  · rw [hs, hp]
    rcases h.recalls.note_publishAll hlt changes hc with ⟨-, he⟩ | ⟨f, -, he⟩
    · rw [he]
    · have hnot : ¬ (w.engine sole).version + 1 ≤ v := Nat.not_le.2 (Nat.lt_succ_of_le hle)
      rw [he]
      simp [newestAt, hnot]
  · simpa only [Store.Has, hcr] using hc

/-- An engine goes on to serve after a commit, also one that fails or stops midway, and after the
inline reclamation pass that follows. -/
theorem Serves.commit {x : Context V} (h : w.Serves (x.life :: lives) past) :
    w.Passes (x.life :: lives) past (w.commit x).2 lives := by
  obtain ⟨he, hk, hst⟩ := h.active x.life (List.mem_cons_self ..)
  have hx : x.engine = sole := he
  have ha : x.isActive = true := decide_eq_true (p := x.status = .active) hst
  have hc : x.isChild = false := by
    have : x.kind = none := hk
    simp [Context.isChild, this]
  obtain ⟨-, hafter⟩ := w.commit_eq ha hc
  rw [hx] at hafter
  obtain ⟨⟨-, hb⟩, hcases⟩ := (w.engine sole).commit_cases x w.store
  generalize (w.engine sole).commit x w.store = done at *
  have hdone : w.Passes (x.life :: lives) past
      ({ w with store := done.store }.setEngine sole done.engine) lives := by
    have hg : ({ w with store := done.store }.setEngine sole done.engine).engine sole =
        done.engine := by simp
    have hb' := (congrArg Engine.begun hg).trans hb
    rcases hcases with ⟨-, -, hs, ht⟩ | ⟨-, -, -, hs, ht⟩ | ⟨-, -, -, p, hp, hs, ht, -⟩
    · exact h.leave ((congrArg Engine.timeline hg).trans ht) hb' hs h.handles
    · exact h.leave ((congrArg Engine.timeline hg).trans ht) hb' hs h.handles
    · exact h.publish hp hs ((congrArg Engine.timeline hg).trans ht) hb' h.handles
  rcases hafter with hw | ⟨receipt, -, -, hw⟩
  · rw [hw]
    exact hdone
  · rw [hw]
    generalize hw₁ : { w with store := done.store }.setEngine sole done.engine = w₁ at hdone ⊢
    have hg : (w₁.reclaimHolding done.context.holds sole).engine sole =
        ((w₁.engine sole).reclaim
          { w₁ with pinned := done.context.holds ++ w₁.pinned }.isLive w₁.store).2.1 := by
      simp [World.reclaimHolding, World.reclaim, World.engine, World.setEngine]
    refine hdone.trans (hdone.serves.compact rfl (congrArg Engine.timeline hg)
      ((congrArg Engine.begun hg).trans rfl) hdone.serves.handles) ?_ fun c => ?_
    · exact created_compactAll _ _ _
    · exact head_compactAll _ _ _ _

/-! ### Transactions that change hands -/

omit [Inhabited V] in
theorem alive_hold {w : World V} (h : w.held.get? w.handles = none) (x : Context V) :
    (w.hold x).2.alive.Perm (x :: w.alive) :=
  ((Table.values_insert_of_none h x).append_right _).append_right _

omit [Inhabited V] in
theorem held_hold {w : World V} (h : ∀ k, w.handles ≤ k → w.held.get? k = none) (x : Context V) :
    ∀ k, (w.hold x).2.handles ≤ k → (w.hold x).2.held.get? k = none := by
  intro k hk
  have hne : k ≠ w.handles := Nat.ne_of_gt hk
  simpa [hold, hne] using h k (Nat.le_of_succ_le hk)

omit [Inhabited V] in
theorem held_giveBack {w : World V} (h : ∀ k, w.handles ≤ k → w.held.get? k = none) {j : Handle}
    (hj : j < w.handles) (x : Context V) :
    ∀ k, (w.giveBack j x).handles ≤ k → (w.giveBack j x).held.get? k = none := by
  intro k hk
  have hne : k ≠ j := Nat.ne_of_gt (Nat.lt_of_lt_of_le hj hk)
  simpa [giveBack, hne] using h k hk

omit [Inhabited V] in
theorem alive_giveBack {w : World V} {k : Handle} (h : w.held.get? k = none) (x : Context V) :
    (w.giveBack k x).alive.Perm (x :: w.alive) :=
  ((Table.values_insert_of_none h x).append_right _).append_right _

omit [Inhabited V] in
theorem alive_take {w w' : World V} {k : Handle} {x : Context V}
    (h : w.take k = some (x, w')) : w.alive.Perm (x :: w'.alive) := by
  obtain ⟨y, hy, he⟩ := Option.map_eq_some_iff.1 h
  cases he
  exact ((Table.values_perm_erase hy).append_right _).append_right _

omit [Inhabited V] in
theorem alive_unbind {w w' : World V} {t : ThreadId} {x : Context V}
    (h : w.unbind t = (some x, w')) : w.alive.Perm (x :: w'.alive) := by
  obtain ⟨hx, rfl⟩ := Prod.mk.inj h
  exact ((Table.values_perm_erase hx).append_left _).trans List.perm_middle

omit [Inhabited V] in
theorem alive_unpark {w w' : World V} {e : EngineId} {txn : TxnId} {x : Context V}
    (h : w.unpark e txn = (.ok x, w')) : w.alive.Perm (x :: w'.alive) := by
  obtain ⟨hx, rfl⟩ := unpark_eq_ok h
  exact (((Table.values_perm_erase hx).append_left _).trans List.perm_middle).append_right _

theorem alive_commit (w : World V) (x : Context V) : (w.commit x).2.alive = w.alive := by
  unfold World.commit
  split
  · rfl
  · split
    · rfl
    · dsimp only
      split
      · rfl
      · split <;> rfl

/-- The inline reclamation pass after a commit leaves the head and every newest value. -/
theorem commit_newest {w : World V} {x : Context V} (ha : x.isActive = true)
    (ht : x.isChild = false) :
    let done := (w.engine x.engine).commit x w.store
    ((w.commit x).2.engine x.engine).version = done.engine.version ∧
      (w.commit x).2.store.created = w.store.created ∧
      ∀ c, ((w.commit x).2.store.cell c).chain.head = (done.store.cell c).chain.head := by
  intro done
  have hcreated : done.store.created = w.store.created := by
    rcases ((w.engine x.engine).commit_cases x w.store).2 with ⟨-, -, hs, -⟩ | ⟨-, -, -, hs, -⟩ |
      ⟨-, -, -, p, hp, hs, -⟩
    · exact congrArg Store.created hs
    · exact congrArg Store.created hs
    · exact (congrArg Store.created (hs.trans (congrArg Publication.store hp))).trans
        (created_publishAll _ _ _)
  rcases (w.commit_eq ha ht).2 with hw | ⟨receipt, -, -, hw⟩
  · rw [hw]
    exact ⟨by rw [engine_setEngine, if_pos rfl], hcreated, fun _ => rfl⟩
  · rw [hw]
    refine ⟨?_, (created_compactAll _ _ _).trans hcreated, fun c => head_compactAll _ _ _ _⟩
    refine (version_reclaim _ x.engine).trans ?_
    simp [engine, setEngine, done]

/-- Binding puts the transaction in place, or discards it where another one is bound. -/
theorem Serves.bind {x : Context V} {rest : List (Context V)}
    (h : w.Serves ((x :: (w.alive ++ rest)).map Context.life) past) (t : ThreadId) :
    w.Passes ((x :: (w.alive ++ rest)).map Context.life) past (w.bind t x).2
      (((w.bind t x).2.alive ++ rest).map Context.life) := by
  unfold World.bind
  split
  · exact h.abort _
  · next hn =>
    have hp : ({ w with bound := w.bound.insert t x } : World V).alive.Perm (x :: w.alive) :=
      ((Table.values_insert_of_none hn x).append_left _).trans List.perm_middle
    exact h.quiet rfl rfl rfl (fun _ => ⟨rfl, rfl, rfl⟩) h.handles
      ((hp.append_right rest).symm.map Context.life)

/-- Parking puts the transaction in place, and discards what was parked in its place. -/
theorem Serves.park {x : Context V} {rest : List (Context V)}
    (h : w.Serves ((x :: (w.alive ++ rest)).map Context.life) past) :
    w.Passes ((x :: (w.alive ++ rest)).map Context.life) past (w.park sole x).2
      (((w.park sole x).2.alive ++ rest).map Context.life) := by
  obtain ⟨-, hk, hst⟩ := h.active x.life (List.mem_cons_self ..)
  have ha : x.checkActive = .ok () := by
    have hst' : x.status = .active := hst
    simp [Context.checkActive, Context.isActive, hst']
  have hc : x.isChild = false := by
    have hk' : x.kind = none := hk
    simp [Context.isChild, hk']
  unfold World.park
  rw [ha]
  simp only [hc, Bool.false_eq_true, if_false]
  have hins : ({ w with parked := w.parked.insert (sole, x.id) x } : World V).alive.Perm
      (x :: { w with parked := w.parked.erase (sole, x.id) }.alive) :=
    (((w.parked.values_insert_perm (sole, x.id) x).append_left _).trans
      List.perm_middle).append_right _
  cases hb : w.parked.get? (sole, x.id) with
  | none =>
    rw [Table.erase_of_get?_eq_none hb] at hins
    exact h.quiet rfl rfl rfl (fun _ => ⟨rfl, rfl, rfl⟩) h.handles
      ((hins.append_right rest).symm.map Context.life)
  | some y =>
    have hold : w.alive.Perm (y :: { w with parked := w.parked.erase (sole, x.id) }.alive) :=
      (((Table.values_perm_erase hb).append_left _).trans List.perm_middle).append_right _
    have hp : (x :: w.alive).Perm
        (y :: { w with parked := w.parked.insert (sole, x.id) x }.alive) :=
      ((hold.cons x).trans (.swap ..)).trans (hins.symm.cons y)
    have hput : w.Passes ((x :: (w.alive ++ rest)).map Context.life) past
        { w with parked := w.parked.insert (sole, x.id) x }
        ((y :: ({ w with parked := w.parked.insert (sole, x.id) x }.alive ++ rest)).map
          Context.life) :=
      h.quiet rfl rfl rfl (fun _ => ⟨rfl, rfl, rfl⟩) h.handles
        ((hp.append_right rest).map Context.life)
    exact hput.trans (hput.serves.abort _) rfl fun _ => rfl

end World

end VersionedMemory
