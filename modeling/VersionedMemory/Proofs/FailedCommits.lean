import VersionedMemory.Proofs.EngineInvariant

/-!
# Commits that fail midway

Publication is stopped midway where a change is staged under an identity that is not that of its
target: two changes of one commit then meet in one cell, and the cell refuses the second. What was
carried out before stays. The engine goes on nevertheless: it marks the timeline as if the commit
had gone through, with the cells that were changed, so no cell is ahead of the head afterwards, and
nobody is kept from writing to it.

## Main definitions

* `Scene.InStep` says that no own cell is ahead of the head, and that the marks run up to the head
  and list what was published.
* `Scene.Reads` says which record a transaction reads, through every context of it.
* `Context.Blind` is a transaction that read nothing, and writes or puts to own cells.
* `Scene.AfterCommit` is what a commit leaves, and `Scene.StillServes` what comes after it.

## Main statements

* `Engine.commit_failed`: a transaction whose commit fails is aborted and counted once.
* `Scene.commit_never_wedges`: whatever becomes of a commit, the engine is in step, the others read
  what they read before, and blind writes commit.
-/

namespace VersionedMemory

variable {V : Type} [Inhabited V]

namespace Engine

variable {g : Engine} {x : Context V} {s : Store V}

/-- Whatever stops a commit, the transaction is finished as one that is aborted. -/
theorem commit_error_eq_finish {err : Error} (he : (g.commit x s).result = .error err) :
    ∃ reason, ∃ g' : Engine,
      ((g.commit x s).context, (g.commit x s).engine) = g'.finish x (.aborted reason) ∧
        g'.metrics.aborted = g.metrics.aborted ∧ g'.metrics.committed = g.metrics.committed := by
  revert he
  unfold commit
  split
  · exact nofun
  · split
    · next g' ho =>
      have ha : g'.metrics.aborted = g.metrics.aborted :=
        (congrArg (·.2.metrics.aborted) ho).symm
      have hc : g'.metrics.committed = g.metrics.committed :=
        (congrArg (·.2.metrics.committed) ho).symm
      exact fun _ => ⟨_, _, rfl, ha, hc⟩
    · next g' ho =>
      have ha : g'.metrics.aborted = g.metrics.aborted :=
        (congrArg (·.2.metrics.aborted) ho).symm
      have hc : g'.metrics.committed = g.metrics.committed :=
        (congrArg (·.2.metrics.committed) ho).symm
      unfold publish
      split
      · exact fun _ => ⟨_, _, rfl, ha, hc⟩
      · dsimp only
        split
        · exact fun _ => ⟨_, _, rfl, ha, hc⟩
        · split
          · exact fun _ => ⟨_, _, rfl, ha, hc⟩
          · exact nofun

/-- A transaction whose commit fails is aborted, gives its anchor back and is counted once. -/
theorem commit_failed (hk : x.kind = none) {err : Error} (he : (g.commit x s).result = .error err) :
    let done := g.commit x s
    ((∃ reason, done.context.status = .aborted reason) ∧ done.context.anchor = none) ∧
      done.engine.metrics.aborted = g.metrics.aborted + 1 ∧
      done.engine.metrics.committed = g.metrics.committed := by
  obtain ⟨reason, g', hf, ha, hc⟩ := commit_error_eq_finish he
  obtain ⟨hx, hg⟩ := Prod.mk.inj hf
  intro done
  refine ⟨⟨⟨reason, congrArg Context.status hx⟩, congrArg Context.anchor hx⟩, ?_, ?_⟩
  · rw [hg]
    simp [hk, ha]
  · rw [hg]
    simp [hk, hc]

end Engine

/-- The transaction read nothing, and is going to write or put to cells of `own` only. -/
structure Context.Blind (own : CellId → Prop) (x : Context V) : Prop where
  reads : x.reads = ∅
  plain : x.Within (.plain V)
  targets : ∀ a ∈ x.changes, own a.target

namespace Scene

variable {s s' : Scene V} {e : EngineId} {own : CellId → Prop} {x : Context V} {c : CellId}

/-- No own cell is ahead of the head; the versions of the marks follow one after the other up to the
head; and what was published in an own cell is listed by the mark of its version, as long as that
mark stays. -/
structure InStep (s : Scene V) (e : EngineId) (own : CellId → Prop) : Prop where
  behind : ∀ c, own c → s.store.latest c ≤ (s.world.engine e).version
  window : let t := (s.world.engine e).timeline
    t.window.map Mark.version = List.range' t.floor t.window.length ∧
      t.floor + t.window.length = t.head.version + 1
  listed : ∀ c, own c → ∀ r ∈ (s.store.cell c).chain.records, genesis < r.version →
    (s.world.engine e).timeline.floor ≤ r.version →
      (s.world.engine e).timeline.Lists c r.version

/-- The transaction reads the record: it is what the cell answers the snapshot, and what any context
of the transaction reads and records, unless a write is pending there. -/
structure Reads (s : Scene V) (x : Context V) (c : CellId) (r : Record V) : Prop where
  readAt : (s.store.cell c).readAt x.snapshot = .ok r
  read : ∀ y, x.Under y → y.writeFor c = none →
    y.read (s.store.cell c) = (.ok r.value, (y.touch c).observe c r.version)

theorem Settled.inStep (h : s.Settled e own) : s.InStep e own where
  behind c hc := (h.follows c hc).mirrored ▸ (h.follows c hc).tracks.behind
  window := h.attends.consecutive.versions_eq
  listed c hc := (h.follows c hc).tracks.listed

/-- A live transaction reads what the chain of the cell has at its snapshot. -/
theorem Attends.reads (h : s.Attends e) (hx : x ∈ s.live) (he : x.engine = e) {r : Record V}
    (hr : (s.store.cell c).chain.asOf x.snapshot = some r) : s.Reads x c r := by
  have hat : (s.store.cell c).readAt x.snapshot = .ok r := by simp [Cell.readAt, hr]
  have hactive := (h.active x.life (mem_livesOf.2 ⟨List.mem_map_of_mem hx, he⟩)).2
  exact ⟨hat, fun y hy hw => hy.read_eq hactive hw hat⟩

/-- Every snapshot from the floor on sees some value of an own cell. -/
theorem Follows.exists_asOf (h : s.Follows e c) {v : Version}
    (hv : (s.world.engine e).timeline.floor ≤ v) :
    ∃ r, (s.store.cell c).chain.asOf v = some r := by
  obtain ⟨r, hr, hle⟩ := h.tracks.reached
  refine Option.isSome_iff_exists.1 (List.find?_isSome.2 ⟨r, hr, ?_⟩)
  simpa using Nat.le_trans hle hv

theorem Precedes.life_eq (h : s.Precedes e own s') (ha : s.Attends e) {y y' : Context V}
    (hy : y ∈ s.live) (hy' : y' ∈ s'.live) (he : y.engine = e) (he' : y'.engine = e)
    (hid : y'.id = y.id) : y'.life = y.life := by
  have hmem : y.life ∈ s.livesOf e := mem_livesOf.2 ⟨List.mem_map_of_mem hy, he⟩
  have hlife : y'.life.id = y.life.id := hid
  rcases h.old_or_new y'.life (mem_livesOf.2 ⟨List.mem_map_of_mem hy', he'⟩) with hold | ⟨hlt, -⟩
  · exact List.inj_on_of_nodup_map (List.pairwise_map.2 ha.ids) hold hmem hlife
  · rw [hlife] at hlt
    exact absurd hlt (Nat.not_lt.2 (ha.begun _ hmem))

/-- A transaction that is live at two points of a run reads the same at both. -/
theorem Precedes.reads (h : s.Precedes e own s') (hs : s.Settled e own)
    (hs' : s'.Settled e own) {y y' : Context V} (hy : y ∈ s.live) (hy' : y' ∈ s'.live)
    (he : y.engine = e) (he' : y'.engine = e) (hid : y'.id = y.id) (hc : own c)
    (hhas : s.store.Has c) : ∃ r, s.Reads y c r ∧ s'.Reads y' c r := by
  have hsnap : y'.snapshot = y.snapshot :=
    congrArg Life.snapshot (h.life_eq hs.attends hy hy' he he' hid)
  have hbounds := hs.attends.anchors.snapshot_bounds
    (mem_livesOf.2 ⟨List.mem_map_of_mem hy, he⟩)
  have hbounds' := hs'.attends.anchors.snapshot_bounds
    (mem_livesOf.2 ⟨List.mem_map_of_mem hy', he'⟩)
  obtain ⟨r, hr⟩ := (hs.follows c hc).exists_asOf hbounds.1
  have hsame := h.asOf_eq c hc hhas y'.snapshot hbounds'.1 (hsnap ▸ hbounds.2)
  exact ⟨r, hs.attends.reads hy he hr, hs'.attends.reads hy' he'
    (hsame.trans (hsnap.symm ▸ hr))⟩

/-- A blind transaction commits, unless the observer refuses it. -/
theorem Settled.commit_blind (h : s.Settled e own) (hx : x ∈ s.live) (he : x.engine = e)
    (hb : x.Blind own) (hne : x.changes ≠ [])
    (hobs : ((s.world.engine e).hooks.observer.bind fun refuse => refuse x.id x.written) = none) :
    (s.world.commit x).1 =
      .ok ⟨x.id, (s.world.engine e).version + 1, x.written.length, false⟩ := by
  obtain ⟨hactive, htop⟩ := h.attends.proper hx he
  have hold : ∀ a ∈ x.changes,
      s.world.store.latest a.target ≤ (s.world.engine e).version :=
    fun a ha => h.inStep.behind a.target (hb.targets a ha)
  have hsup : x.superseded? s.world.store = none := by
    unfold Context.superseded?
    rw [hb.reads]
    rfl
  have hahead : aheadOf? ((s.world.engine e).version + 1) x.changes s.world.store = none := by
    simp only [aheadOf?, Option.map_eq_none_iff, List.find?_eq_none, decide_eq_true_eq]
    exact fun a ha => Nat.not_le.2 (Nat.lt_succ_of_le (hold a ha))
  have hfits : ∀ a ∈ x.changes, a.Fits ((s.world.engine e).version + 1) s.world.store :=
    fun a ha => .inl (Nat.lt_succ_of_le (h.follows a.target (hb.targets a ha)).tracks.behind)
  have hpub := publishAll_eq hfits hb.plain.pairwise_changes
  have hres := congrArg Prod.fst ((s.world.engine e).commit_outcome hne s.world.store)
  rw [hobs] at hres
  have hout := congrArg Prod.fst ((s.world.engine e).publish_outcome x s.world.store)
  rw [hsup] at hout
  dsimp only at hout hres
  rw [hahead, hpub] at hout
  rw [(s.world.commit_eq hactive htop).1, he]
  exact hres.trans hout

theorem head_commit (ha : x.isActive = true) (ht : x.isChild = false) :
    ((s.world.commit x).2.engine x.engine).timeline.head =
      ((s.world.engine x.engine).commit x s.world.store).engine.timeline.head := by
  rcases (s.world.commit_eq ha ht).2 with hw | ⟨receipt, -, -, hw⟩
  · rw [hw, World.engine_setEngine, if_pos rfl]
  · rw [hw]
    simp [World.reclaimHolding, World.reclaim, World.engine, World.setEngine, Engine.reclaim,
      reclaim, Timeline.retire]

/-- A commit publishes nothing in a cell, or lists it at the new head. -/
theorem installed_or_same {rest : List (Context V)} (ha : x.isActive = true)
    (ht : x.isChild = false) (c : CellId) :
    let s₁ := s.next (s.world.commit x).2 rest
    (s₁.store.cell c).chain.head = (s.store.cell c).chain.head ∨
      ((s₁.store.cell c).chain.head.version = (s₁.world.engine x.engine).version ∧
        (s₁.world.engine x.engine).timeline.Lists c (s₁.world.engine x.engine).version) := by
  intro s₁
  have hhead := head_commit (s := s) ha ht
  obtain ⟨hversion, -, hheads⟩ := World.commit_newest (w := s.world) ha ht
  have hc : (s₁.store.cell c).chain.head =
    (((s.world.engine x.engine).commit x s.world.store).store.cell c).chain.head := hheads c
  rw [hc]
  rcases ((s.world.engine x.engine).commit_cases x s.world.store).2 with ⟨-, -, hs, -⟩ |
    ⟨-, -, -, hs, -⟩ | ⟨-, -, -, p, rfl, hs, htl, -⟩
  · exact .inl (by rw [hs]; rfl)
  · exact .inl (by rw [hs]; rfl)
  · rw [hs]
    rcases publishAll_cell ((s.world.engine x.engine).version + 1) x.changes s.world.store c with
      ⟨-, he⟩ | ⟨hm, -, f, he⟩
    · exact .inl (by rw [he]; rfl)
    · have hv : (s₁.world.engine x.engine).version = (s.world.engine x.engine).version + 1 := by
        refine hversion.trans ?_
        rw [Engine.version, htl]
        exact Timeline.version_head_leave _ _
      have hw : c ∈ (s₁.world.engine x.engine).timeline.head.written := by
        rw [show (s₁.world.engine x.engine).timeline.head = _ from hhead, htl,
          Timeline.written_head_leave]
        exact hm
      refine .inr ⟨?_, (s₁.world.engine x.engine).timeline.head, Timeline.head_mem_window _, rfl,
        hw⟩
      rw [he, hv]
      rfl

/-- After a commit, whatever its answer, its transaction lives no more and its anchor is given back,
while the others live on. -/
theorem Settled.left {rest : List (Context V)} (h : s.Settled e own)
    (h₁ : (s.next (s.world.commit x).2 rest).Settled e own) (hp : s.running.Perm (x :: rest))
    (he : x.engine = e) :
    let s₁ := s.next (s.world.commit x).2 rest
    (s₁.world.engine e).timeline.anchored + 1 = (s.world.engine e).timeline.anchored ∧
      ∀ y ∈ s₁.live, y.engine = e → y.id ≠ x.id := by
  intro s₁
  have hl : (s.livesOf e).Perm (x.life :: s₁.livesOf e) := by
    refine livesOf_perm_cons ?_ he
    have hfirst := (live_perm_cons hp).map Context.life
    rwa [← World.alive_commit s.world x] at hfirst
  refine ⟨?_, fun y hy hye hid => ?_⟩
  · rw [h.attends.anchors.anchored_eq, h₁.attends.anchors.anchored_eq, hl.length_eq]
    rfl
  · have hids := (hl.pairwise_iff fun hne he => hne he.symm).1 h.attends.ids
    exact (List.pairwise_cons.1 hids).1 y.life
      (mem_livesOf.2 ⟨List.mem_map_of_mem hy, hye⟩) hid.symm

/-- A commit that fails aborts its transaction, which is counted once. -/
theorem commit_refused (ha : x.isActive = true) (ht : x.isChild = false) {err : Error}
    (h : (s.world.commit x).1 = .error err) :
    (∃ reason, ((s.world.engine x.engine).commit x s.store).context.status = .aborted reason) ∧
      ((s.world.commit x).2.engine x.engine).metrics.aborted =
        (s.world.engine x.engine).metrics.aborted + 1 ∧
      ((s.world.commit x).2.engine x.engine).metrics.committed =
        (s.world.engine x.engine).metrics.committed := by
  obtain ⟨hres, hafter⟩ := s.world.commit_eq ha ht
  have hkind : x.kind = none := by
    simpa [Context.isChild] using ht
  obtain ⟨⟨hstatus, -⟩, haborted, hcommitted⟩ := Engine.commit_failed hkind (hres.symm.trans h)
  -- No reclamation pass follows a commit that failed.
  have hg : (s.world.commit x).2.engine x.engine =
      ((s.world.engine x.engine).commit x s.world.store).engine := by
    rcases hafter with hw | ⟨receipt, hr, -⟩
    · rw [hw, World.engine_setEngine, if_pos rfl]
    · cases hr.symm.trans (hres.symm.trans h)
  rw [hg]
  exact ⟨hstatus, haborted, hcommitted⟩

/-- What the commit of a transaction leaves, whatever its answer. No cell that is left to the engine
is ahead of the head, the versions of the marks follow one after the other up to the head, and what
was published is listed. The transaction lives no more and its anchor is given back. -/
structure AfterCommit (s : Scene V) (x : Context V) (e : EngineId) (own : CellId → Prop)
    (s₁ : Scene V) : Prop where
  inStep : s₁.InStep e own
  listed : ∀ c, (s₁.store.cell c).chain.head = (s.store.cell c).chain.head ∨
    ((s₁.store.cell c).chain.head.version = (s₁.world.engine e).version ∧
      (s₁.world.engine e).timeline.Lists c (s₁.world.engine e).version)
  released :
    (s₁.world.engine e).timeline.anchored + 1 = (s.world.engine e).timeline.anchored
  gone : ∀ y ∈ s₁.live, y.engine = e → y.id ≠ x.id
  /-- If the commit failed, the transaction is aborted. -/
  aborted : ∀ err, (s.world.commit x).1 = .error err →
    ∃ reason, ((s.world.engine e).commit x s.store).context.status = .aborted reason
  /-- If the commit failed, the transaction is counted once. -/
  counted : ∀ err, (s.world.commit x).1 = .error err →
    (s₁.world.engine e).metrics.aborted = (s.world.engine e).metrics.aborted + 1 ∧
      (s₁.world.engine e).metrics.committed = (s.world.engine e).metrics.committed

/-- The engine still serves everybody. Every transaction reads, as long as it lives, what it read
before, and every blind write that comes later commits, unless the observer refuses it. -/
structure StillServes (s : Scene V) (e : EngineId) (own : CellId → Prop) (s' : Scene V) : Prop where
  reads : ∀ y ∈ s.live, ∀ y' ∈ s'.live, y.engine = e → y'.engine = e → y'.id = y.id →
    ∀ c, own c → s.store.Has c → ∃ r, s.Reads y c r ∧ s'.Reads y' c r
  commits : ∀ y ∈ s'.running, y.engine = e → y.Blind own → y.changes ≠ [] →
    ((s'.world.engine e).hooks.observer.bind fun refuse => refuse y.id y.written) = none →
      (s'.world.commit y).1 =
        .ok ⟨y.id, (s'.world.engine e).version + 1, y.written.length, false⟩

/-- A failure inside publication never wedges the engine, in any run, in which bodies may stage
whatever they like under any identity. -/
theorem commit_never_wedges (h : s.Attained e own) {rest : List (Context V)}
    (hp : s.running.Perm (x :: rest)) (he : x.engine = e)
    (hrun : Ensues e own (s.next (s.world.commit x).2 rest) s') :
    s.AfterCommit x e own (s.next (s.world.commit x).2 rest) ∧ s.StillServes e own s' := by
  obtain ⟨hs, hf⟩ := h.settled
  have hx : x ∈ s.live := (live_perm_cons hp).mem_iff.2 (List.mem_cons_self ..)
  obtain ⟨hactive, htop⟩ := hs.attends.proper hx he
  have hround : Ensues e own s (s.next (s.world.commit x).2 rest) :=
    .single ⟨_, .commit hp, fun hne => absurd (congrArg Deal.serves he) hne⟩
  obtain ⟨⟨hs₁, hf₁⟩, hprec₁⟩ := hround.settled hs hf
  obtain ⟨⟨hs', -⟩, hprec'⟩ := hrun.settled hs₁ hf₁
  obtain ⟨hreleased, hgone⟩ := hs.left hs₁ hp he
  refine ⟨⟨hs₁.inStep, ?_, hreleased, hgone, fun err herr => ?_, fun err herr => ?_⟩,
    fun y hy y' hy' hye hye' hid c hc hhas => ?_, fun y hy hye hb hne hobs => ?_⟩
  · subst he
    exact installed_or_same hactive htop
  · subst he
    exact (commit_refused hactive htop herr).1
  · subst he
    exact (commit_refused hactive htop herr).2
  · exact (hprec₁.trans hprec').reads hs hs' hy hy' hye hye' hid hc hhas
  · exact hs'.commit_blind (List.mem_append_right _ hy) hye hb hne hobs

/-- A transaction writes a cell and stages a second write of it under the identity of another cell.
Its commit publishes the first and is refused the second. A reader from before reads what it read,
and a blind write to that cell commits. -/
theorem never_wedged_by_staged_write :
    let s₀ : Scene Nat := .start {} {}
    let s₁ := s₀.next (s₀.world.createCell sole 0 5).2 []
    let s₂ := s₁.next (s₁.world.createCell sole 0 6).2 []
    let r := (s₂.world.begin sole .speculative).1
    let s₃ := s₂.next (s₂.world.begin sole .speculative).2 [r]
    let x := (s₃.world.begin sole .readWrite).1
    let s₄ := s₃.next (s₃.world.begin sole .readWrite).2 [x, r]
    let y := (x.write (s₄.store.cell ⟨1⟩) 7).2
    let s₅ := s₄.next s₄.world [y, r]
    let z := (y.stage ⟨2⟩ ⟨⟨1⟩, (s₅.store.cell ⟨1⟩).type, .assign 8⟩).2
    let s := s₅.next s₅.world [z, r]
    let s₆ := s.next (s.world.commit z).2 [r]
    let b := (s₆.world.begin sole .readWrite).1
    let s₇ := s₆.next (s₆.world.begin sole .readWrite).2 [b, r]
    let b' := (b.write (s₇.store.cell ⟨1⟩) 9).2
    let s' := s₇.next s₇.world [b', r]
    (s.world.commit z).1 = .error (.internal (.outOfOrder 1 1)) ∧
      (∃ v, s.Reads r ⟨1⟩ v ∧ s'.Reads r ⟨1⟩ v) ∧
      (s'.world.commit b').1 = .ok ⟨⟨3⟩, 2, 1, false⟩ := by
  intro s₀ s₁ s₂ r s₃ x s₄ y s₅ z s s₆ b s₇ b' s'
  have h₂ : s₁.Step s₂ := .create 0 6
  have h₃ : s₂.Step s₃ := .begin .speculative
  have h₄ : s₃.Step s₄ := .begin .readWrite
  have h₅ : s₄.Step s₅ := .access (.refl _) (.write ⟨1⟩ 7)
  have h : s₅.Step s := .access (.refl _) (.stage ⟨2⟩ ⟨1⟩ 8)
  have hs : s.Reachable :=
    ⟨{}, {}, (((((Relation.ReflTransGen.single (.create 0 5)).tail h₂).tail h₃).tail h₄).tail
      h₅).tail h⟩
  have h₆ : s.Step s₆ := .commit (.refl _)
  have h₇ : s₆.Step s₇ := .begin .readWrite
  have hrun : s₆.Later s' :=
    (Relation.ReflTransGen.single h₇).tail (.access (.refl _) (.write ⟨1⟩ 9))
  have hsound : s₆.Sound := (sound_of_later hs.sound (.single h₆)).1
  obtain ⟨-, hreads, hblind⟩ :=
    commit_never_wedges hs.attained (.refl _) rfl (hrun.ensues hsound)
  have hplain : ∀ cell : Cell Nat, (b.write cell 9).2.Within (.plain Nat) :=
    fun _ => (Context.within_begin _ _ _ _).write ⟨rfl, 9, rfl⟩
  have hb : b'.Blind fun _ => True := ⟨rfl, hplain _, fun _ _ => trivial⟩
  have hr : r ∈ s.live := List.mem_append_right _ (.tail _ (.head _))
  have hr' : r ∈ s'.live := List.mem_append_right _ (.tail _ (.head _))
  have hne : b'.changes ≠ [] := fun hn =>
    absurd (Context.changes_eq_nil_iff.1 hn) (by decide +kernel)
  have hcommit := hblind b' (.head _) rfl hb hne (by decide +kernel)
  refine ⟨by decide +kernel, hreads r hr r hr' rfl rfl rfl ⟨1⟩ trivial (by decide +kernel), ?_⟩
  rw [hcommit]
  decide +kernel

end Scene

end VersionedMemory
