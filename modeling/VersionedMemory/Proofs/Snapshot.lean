import VersionedMemory.Proofs.EngineService

/-!
# Snapshots are stable

In a run of one engine, what a snapshot sees of a cell is the same as long as its transaction lives,
whatever commits, ends or is reclaimed meanwhile, and wherever the transaction is parked or bound.

## Main definitions

* `Record.IsNewest` says which record of a history a snapshot has to see.
* `Scene.Sees` says that a transaction sees a given record of a cell, through every context of it.

## Main statements

* `Scene.Step.passes`: every step of a run keeps `World.Serves`.
* `Scene.snapshot_stable`: a live transaction sees one and the same record of a cell, the newest at
  or below its snapshot, at every point of its life.
-/

namespace VersionedMemory

variable {V : Type} [Inhabited V]

namespace Scene

/-- The engine serves the live transactions. -/
def Sound (s : Scene V) : Prop := s.world.Serves s.lives s.past

variable {s s' : Scene V}

theorem sound_start (config : Config) (hooks : Hooks) : (start config hooks : Scene V).Sound where
  anchors := Timeline.anchors_startingAt genesis
  active _ hl := nomatch hl
  ids := .nil
  begun _ hl := nomatch hl
  recalls :=
    { mirrored := fun _ => rfl
      behind := fun _ => Nat.le_refl _
      cells := fun _ hc => absurd (Nat.lt_of_lt_of_le hc.1 hc.2) (Nat.lt_irrefl 0)
      unborn := fun _ _ => rfl }
  handles _ _ := rfl

/-- Every step of a run goes from a scene in order to one that follows it. -/
theorem Step.passes (h : s.Sound) (hst : Step s s') :
    s.world.Passes s.lives s.past s'.world s'.lives ∧ s'.past = s.past.note s'.store := by
  -- A running transaction stands first among the live ones.
  have hfirst : ∀ {x rest}, s.running.Perm (x :: rest) →
      s.live.Perm (x :: (s.world.alive ++ rest)) := by
    intro x rest hp
    exact (hp.append_left _).trans List.perm_middle
  have hlives : ∀ {x rest}, s.running.Perm (x :: rest) →
      s.lives.Perm ((x :: (s.world.alive ++ rest)).map Context.life) := by
    intro x rest hp
    exact (hfirst hp).map Context.life
  cases hst with
  | create type value =>
    exact ⟨World.Serves.create h _ type value rfl (by simp [World.createCell, Engine.announce])
      (by simp [World.createCell, Engine.announce]) h.handles, rfl⟩
  | createDetached type value =>
    exact ⟨World.Serves.create h _ type value rfl rfl rfl h.handles, rfl⟩
  | retain c =>
    exact ⟨World.Serves.quiet h rfl rfl rfl (s.store.cell_set_handles c _) h.handles (.refl _), rfl⟩
  | release c =>
    exact ⟨World.Serves.quiet h rfl rfl rfl (s.store.cell_set_handles c _) h.handles (.refl _), rfl⟩
  | begin mode =>
    exact ⟨(World.Serves.begin h mode).perm (List.perm_middle.symm.map Context.life), rfl⟩
  | hold hp =>
    refine ⟨World.Serves.quiet h rfl rfl rfl (fun _ => ⟨rfl, rfl, rfl⟩)
      (World.held_hold h.handles _) ?_, rfl⟩
    exact ((hfirst hp).trans
      ((World.alive_hold (h.handles _ (Nat.le_refl _)) _).symm.append_right _)).map Context.life
  | take ht =>
    have ha := World.alive_take ht
    obtain ⟨x, hx, he⟩ := Option.map_eq_some_iff.1 ht
    cases he
    refine ⟨World.Serves.quiet h rfl rfl rfl (fun _ => ⟨rfl, rfl, rfl⟩) (fun k hk => ?_) ?_, rfl⟩
    · simp [h.handles k hk]
    · exact ((ha.append_right _).trans List.perm_middle.symm).map Context.life
  | giveBack hp hk hlt =>
    exact ⟨World.Serves.quiet h rfl rfl rfl (fun _ => ⟨rfl, rfl, rfl⟩)
      (World.held_giveBack h.handles hlt _)
      (((hfirst hp).trans ((World.alive_giveBack hk _).symm.append_right _)).map Context.life), rfl⟩
  | access hp ha =>
    refine ⟨World.Serves.quiet h rfl rfl rfl (fun _ => ⟨rfl, rfl, rfl⟩) h.handles ?_, rfl⟩
    have := (hfirst hp).map Context.life
    rw [List.map_cons, ← ha.life_eq, ← List.map_cons] at this
    exact this.trans (List.perm_middle.symm.map Context.life)
  | openChild kind mode =>
    exact ⟨World.Serves.quiet h (by simp [Engine.openChild, engine])
      (by simp [Engine.openChild, engine]) rfl (fun _ => ⟨rfl, rfl, rfl⟩) h.handles (.refl _), rfl⟩
  | countRerun =>
    exact ⟨World.Serves.quiet h (by simp [World.countRerun]) (by simp [World.countRerun]) rfl
      (fun _ => ⟨rfl, rfl, rfl⟩) h.handles (.refl _), rfl⟩
  | pin cells =>
    exact ⟨World.Serves.quiet h rfl rfl rfl (fun _ => ⟨rfl, rfl, rfl⟩) h.handles (.refl _), rfl⟩
  | bind t hp =>
    have hb := World.Serves.bind (World.Serves.perm h (hlives hp)) t
    exact ⟨hb.perm_left (hlives hp).symm, rfl⟩
  | unbind hu =>
    have ha := World.alive_unbind hu
    cases (Prod.mk.inj hu).2
    exact ⟨World.Serves.quiet h rfl rfl rfl (fun _ => ⟨rfl, rfl, rfl⟩) h.handles
      (((ha.append_right _).trans List.perm_middle.symm).map Context.life), rfl⟩
  | park hp =>
    have hb := World.Serves.park (World.Serves.perm h (hlives hp))
    exact ⟨hb.perm_left (hlives hp).symm, rfl⟩
  | unpark hu =>
    have ha := World.alive_unpark hu
    obtain ⟨-, rfl⟩ := World.unpark_eq_ok hu
    exact ⟨World.Serves.quiet h rfl rfl rfl (fun _ => ⟨rfl, rfl, rfl⟩) h.handles
      (((ha.append_right _).trans List.perm_middle.symm).map Context.life), rfl⟩
  | commit hp =>
    have hc := World.Serves.commit (World.Serves.perm h (hlives hp))
    refine ⟨(hc.perm_left (hlives hp).symm).perm ?_, rfl⟩
    rw [← World.alive_commit]
    exact .refl _
  | abort reason hp =>
    have hc := World.Serves.abort (World.Serves.perm h (hlives hp)) reason
    exact ⟨hc.perm_left (hlives hp).symm, rfl⟩
  | reclaim => exact ⟨World.Serves.reclaim h, rfl⟩

theorem sound_of_later (h : s.Sound) (hl : s.Later s') :
    s'.Sound ∧ s.world.Precedes s.lives s.past s'.world s'.lives s'.past := by
  induction hl with
  | refl => exact ⟨h, .refl ..⟩
  | tail _ hst ih =>
    obtain ⟨hp, hpast⟩ := hst.passes ih.1
    refine ⟨?_, ih.2.trans (hpast ▸ hp.precedes)⟩
    unfold Sound
    rw [hpast]
    exact hp.serves

theorem Reachable.sound (h : s.Reachable) : s.Sound := by
  obtain ⟨config, hooks, hl⟩ := h
  exact (sound_of_later (sound_start config hooks) hl).1

/-- A transaction that is live at two points of a run is the same transaction: it has its snapshot
still. -/
theorem life_eq_of_later (h : s.Sound) (hl : s.Later s') {x x' : Context V} (hx : x ∈ s.live)
    (hx' : x' ∈ s'.live) (hid : x'.id = x.id) : x'.life = x.life := by
  obtain ⟨-, hp⟩ := sound_of_later h hl
  have hmem : x.life ∈ s.lives := List.mem_map_of_mem hx
  rcases hp.old_or_new x'.life (List.mem_map_of_mem hx') with hm | hlt
  · exact World.Serves.eq_of_id h hm hmem hid
  · have hle := h.begun x.life hmem
    have he : x'.life.id = x.life.id := hid
    rw [he] at hlt
    exact absurd hlt (Nat.not_lt.2 hle)

/-- The transaction sees the record, the newest at or below its snapshot: what the cell answers its
snapshot is this record, and so is what any context of it reads and records, unless a write is
pending there. -/
structure Sees (s : Scene V) (x : Context V) (c : CellId) (r : Record V) : Prop where
  newest : r.IsNewest (s.past c) x.snapshot
  readAt : (s.store.cell c).readAt x.snapshot = .ok r
  read : ∀ y, x.Under y → y.writeFor c = none →
    y.read (s.store.cell c) = (.ok r.value, (y.touch c).observe c r.version)

/-- A live transaction sees what the history of the cell has at its snapshot. -/
theorem Sound.sees (h : s.Sound) {x : Context V} (hx : x ∈ s.live) {c : CellId}
    (hc : s.store.Has c) : ∃ r, newestAt (s.past c) x.snapshot = some r ∧ s.Sees x c r := by
  have hmem : x.life ∈ s.lives := List.mem_map_of_mem hx
  obtain ⟨r, hn, hat⟩ := World.Serves.readAt h hmem hc
  have hnewest := isNewest_of_newestAt (h.recalls.cells c hc).decreasing hn
  exact ⟨r, hn, hnewest, hat, fun y hy hw => hy.read_eq (h.active x.life hmem).2.2 hw hat⟩

/-- Snapshots are stable and reclamation is safe. A transaction that is live at two points of a run
sees, at the later one, a record of every cell that is there by then, and what it saw at the earlier
one, if the cell was there already, is the same record. -/
theorem snapshot_stable (hs : s.Reachable) (hl : s.Later s') {x x' : Context V} (hx : x ∈ s.live)
    (hx' : x' ∈ s'.live) (hid : x'.id = x.id) {c : CellId} (hc : s'.store.Has c) :
    ∃ r, s'.Sees x' c r ∧ (s.store.Has c → s.Sees x c r) := by
  obtain ⟨hs', hp⟩ := sound_of_later hs.sound hl
  obtain ⟨r, hr, hsees⟩ := hs'.sees hx' hc
  refine ⟨r, hsees, fun hc₀ => ?_⟩
  obtain ⟨r₀, hr₀, hsees₀⟩ := hs.sound.sees hx hc₀
  have hsnap : x'.snapshot = x.snapshot :=
    congrArg Life.snapshot (life_eq_of_later hs.sound hl hx hx' hid)
  have hle : x.snapshot ≤ s.timeline.head.version :=
    (hs.sound.anchors.snapshot_bounds (List.mem_map_of_mem hx)).2
  rw [hsnap, hp.newestAt_eq c hc₀ x.snapshot hle, hr₀] at hr
  cases hr
  exact hsees₀

/-- A transaction that is parked while another one commits over it sees what it saw before. -/
theorem snapshot_stable_while_parked :
    let s₀ : Scene Nat := .start {} {}
    let s₁ := s₀.next (s₀.world.createCell sole 0 5).2 []
    let x := (s₁.world.begin sole .speculative).1
    let s := s₁.next (s₁.world.begin sole .speculative).2 [x]
    let s₂ := s.next (s.world.begin sole .readWrite).2 [(s.world.begin sole .readWrite).1, x]
    let y := ((s.world.begin sole .readWrite).1.write (s₂.store.cell ⟨1⟩) 9).2
    let s₃ := s₂.next s₂.world [y, x]
    let s₄ := s₃.next (s₃.world.commit y).2 [x]
    let s' := s₄.next (s₄.world.park sole x).2 []
    (∃ r, s'.Sees x ⟨1⟩ r ∧ (s.store.Has ⟨1⟩ → s.Sees x ⟨1⟩ r)) ∧
      (s'.store.cell ⟨1⟩).value = 9 := by
  intro s₀ s₁ x s s₂ y s₃ s₄ s'
  have hs : s.Reachable := ⟨{}, {}, .tail (.single (.create 0 5)) (.begin .speculative)⟩
  have h₂ : s.Step s₂ := .begin .readWrite
  have h₃ : s₂.Step s₃ := .access (.refl _) (.write ⟨1⟩ 9)
  have h₄ : s₃.Step s₄ := .commit (.refl _)
  have hl : s.Later s' :=
    (((Relation.ReflTransGen.single h₂).tail h₃).tail h₄).tail (.park (.refl _))
  have hx : x ∈ s.live := .head _
  have hx' : x ∈ s'.live := List.mem_append_left _ (World.mem_alive_of_park _ sole rfl rfl)
  exact ⟨snapshot_stable hs hl hx hx' rfl (by decide +kernel), by decide +kernel⟩

end Scene

end VersionedMemory
