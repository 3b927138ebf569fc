import VersionedMemory.Proofs.EngineInvariant

/-!
# Reclamation leaks no history

A reclamation pass compacts the live cells that it finds on the marks it retires, and no others.
This misses nothing: as long as a cell lives, each of its retained values but the oldest one is
listed by a mark that is still there.

A cell that nobody holds is gone, and a pass does not compact it. So runs are looked at in which
nobody comes to hold a cell again that nobody held, and in which a body that runs while an engine
serves has pinned its cells. Whoever holds a cell got it from somebody who held it.

## Main definitions

* `Scene.Holds` says that somebody keeps a cell alive.
* `Scene.Managed` is a turn with these two rules, `Scene.Maintained` says that a run of such turns
  comes to a scene.

## Main statements

* `Scene.Notice.accounts`: an engine that finds a cell alive goes on to account for its values.
* `Scene.history_accounted`: in every run, each retained value of a live cell but the oldest is
  listed by a mark of the window.
-/

namespace VersionedMemory

variable {V : Type} [Inhabited V]

namespace Scene

variable {s s' : Scene V} {e : EngineId} {own tended : CellId → Prop} {c : CellId} {d : Deal}

/-- Somebody keeps the cell alive: a caller with a handle on it, a computation that pinned it, or a
live transaction, be it one that a body runs on. -/
def Holds (s : Scene V) (c : CellId) : Prop :=
  s.world.isLive c = true ∨ ∃ x ∈ s.running, c ∈ x.holds

/-- A turn that leaves the own cells of an engine to that engine, after which nobody holds a cell
that was there and that nobody held before. What bodies run on while the engine serves keeps its
cells pinned. -/
structure Managed (e : EngineId) (own : CellId → Prop) (s s' : Scene V) : Prop where
  turn : ∃ d, Turn d s s' ∧ (d ≠ .serves e → ∀ c, own c → Keeps s s' c) ∧
    (d = .serves e → ∀ x ∈ s'.running, ∀ c ∈ x.holds, s.world.isLive c = true)
  gone : ∀ c, s'.Holds c → s.Holds c ∨ ¬ s.store.Has c

/-- Some run of managed turns comes to the scene. -/
def Maintained (e : EngineId) (own : CellId → Prop) (s : Scene V) : Prop :=
  ∃ s₀, Opening s₀ ∧ Relation.ReflTransGen (Managed e own) s₀ s

/-- The marks of the engine list every value of the cell but the oldest, if the cell is there. -/
def Accounts (s : Scene V) (e : EngineId) (c : CellId) : Prop :=
  s.store.Has c → (s.world.engine e).timeline.Accounts c (s.store.cell c).chain

/-! ### One notice -/

theorem Keeps.accounts (h : Keeps s s' c) (ha : s.Accounts e c)
    (hl : ∀ v, (s.world.engine e).timeline.Lists c v → (s'.world.engine e).timeline.Lists c v) :
    s'.Accounts e c := by
  cases h with
  | same hhas hchain _ => exact fun hc => hchain ▸ (ha (hhas.1 hc)).mono hl
  | born value _ _ hchain _ => exact fun _ => hchain ▸ Timeline.accounts_single _ _ _ _

/-- An engine that finds a cell alive, should it reclaim, goes on to account for its values. -/
theorem Notice.accounts (h : Notice e own tended s s') (hs : s.Settled e own) (hc : own c)
    (ht : tended c) (ha : s.Accounts e c) : s'.Accounts e c := by
  cases h with
  | nothing htl _ _ hk => exact (hk c hc).accounts ha fun v hl => htl ▸ hl
  | entry l htl _ _ _ _ _ _ _ hk => exact (hk c hc).accounts ha fun v hl => htl ▸ hl.anchor
  | exit l htl _ _ hk => exact (hk c hc).accounts ha fun v hl => htl ▸ hl.leave _
  | publication l changed htl _ _ hcreated hcell =>
    intro hhas
    have hold := ha (by simpa only [Store.Has, hcreated] using hhas)
    rw [htl]
    rcases hcell c with ⟨-, hsame⟩ | ⟨hm, f, hnew⟩
    · rw [hsame]
      exact hold.mono fun v hl => (hl.publish _ _).leave _
    · have hlt : (s.store.cell c).chain.head.version < (s.world.engine e).version + 1 :=
        Nat.lt_succ_of_le (hs.follows c hc).tracks.behind
      rw [hnew]
      exact (hold.advance hlt hm f).mono fun v hl => hl.leave _
  | retirement live htl _ _ hcreated hlive hcell =>
    intro hhas
    have hold := ha (by simpa only [Store.Has, hcreated] using hhas)
    rw [htl, hcell]
    split
    · exact hold.retire hs.attends.anchors
    · next hn =>
      -- A cell that is alive is passed over only if no retired mark lists it.
      refine hold.retire_of_not_mem fun hmem => hn ?_
      exact List.mem_filter.2 ⟨hmem, hlive c ht⟩

theorem Notices.accounts (h : Relation.ReflTransGen (Notice e own tended) s s')
    (hs : s.Settled e own) (hc : own c) (ht : tended c) (ha : s.Accounts e c) :
    s'.Accounts e c := by
  induction h with
  | refl => exact ha
  | tail hn hlast ih => exact hlast.accounts (Notices.settled hn hs).1 hc ht ih

/-- An engine accounts for the cells that are held, if it finds these alive and nobody got hold of a
cell that was gone. -/
theorem Notices.accounts_of_held (h : Relation.ReflTransGen (Notice e own s'.Holds) s s')
    (hs : s.Settled e own) (hg : ∀ c, s'.Holds c → s.Holds c ∨ ¬ s.store.Has c)
    (ha : ∀ c, own c → s.Holds c → s.Accounts e c) :
    ∀ c, own c → s'.Holds c → s'.Accounts e c := by
  intro c hc hheld
  refine Notices.accounts h hs hc hheld fun hhas => ?_
  exact (hg c hheld).elim (fun hbefore => ha c hc hbefore hhas) fun hn => absurd hhas hn

/-! ### One turn -/

end Scene

theorem handles_compactAll (floor : Version) (cells : List CellId) (s : Store V) (d : CellId) :
    ((compactAll floor cells s).2.cell d).handles = (s.cell d).handles :=
  compactAll_cell (P := fun x => x.handles = (s.cell d).handles) (fun _ hx => hx) cells rfl

theorem World.hold_commit {w : World V} {x : Context V} (ha : x.isActive = true)
    (ht : x.isChild = false) (c : CellId) :
    ((w.commit x).2.store.cell c).handles = (w.store.cell c).handles ∧
      (w.commit x).2.pinned = w.pinned := by
  rcases (w.commit_eq ha ht).2 with hw | ⟨receipt, -, -, hw⟩
  · rw [hw]
    exact ⟨w.handles_decided x c, rfl⟩
  · rw [hw]
    exact ⟨(handles_compactAll _ _ _ c).trans (w.handles_decided x c), rfl⟩

namespace Scene

variable {s s' : Scene V} {e : EngineId} {own : CellId → Prop} {c : CellId}

/-- Serving brings no cell to life. -/
theorem Turn.isLive_of_serves (h : Turn (.serves e) s s') (ha : s.Attends e)
    (hl : s'.world.isLive c = true) : s.world.isLive c = true := by
  generalize hd : Deal.serves e = d at h
  cases h with
  | commit hp =>
    rename_i x rest
    obtain rfl : e = x.engine := Deal.serves.inj hd
    have hx : x ∈ s.live := (live_perm_cons hp).mem_iff.2 (List.mem_cons_self ..)
    obtain ⟨hactive, htop⟩ := ha.proper hx rfl
    obtain ⟨hhandles, hpinned⟩ := World.hold_commit (w := s.world) hactive htop c
    exact World.isLive_mono hhandles.symm (fun _ hm => hpinned ▸ hm)
      (World.alive_commit s.world x).symm hl
  | reclaim d =>
    exact World.isLive_mono (w := (s.world.reclaim d).2) (handles_compactAll _ _ _ c).symm
      (List.Subset.refl _) rfl hl
  | _ => cases hd

/-- An engine finds those cells alive that are held when it has served. -/
theorem Managed.notices (h : Managed e own s s') (hs : s.Settled e own) (hf : s.world.Fresh) :
    Relation.ReflTransGen (Notice e own s'.Holds) s s' := by
  obtain ⟨d, ht, hk, hpinned⟩ := h.turn
  refine ht.notices hs.attends hf hk fun hd c hc => ?_
  subst hd
  rcases hc with hl | ⟨x, hx, hm⟩
  · exact ht.isLive_of_serves hs.attends hl
  · exact hpinned rfl x hx c hm

theorem Managed.round (h : Managed e own s s') : Round e own s s' := by
  obtain ⟨d, ht, hk, -⟩ := h.turn
  exact ⟨d, ht, hk⟩

theorem Managed.accounts (h : Managed e own s s') (hs : s.Settled e own) (hf : s.world.Fresh)
    (ha : ∀ c, own c → s.Holds c → s.Accounts e c) :
    ∀ c, own c → s'.Holds c → s'.Accounts e c :=
  Notices.accounts_of_held (h.notices hs hf) hs h.gone ha

/-! ### Runs -/

theorem Managed.ensues (h : Relation.ReflTransGen (Managed e own) s s') : Ensues e own s s' :=
  Relation.ReflTransGen.mono (fun _ _ hm => hm.round) _ _ h

theorem Maintained.attained (h : s.Maintained e own) : s.Attained e own := by
  obtain ⟨s₀, h₀, hrun⟩ := h
  exact ⟨s₀, h₀, Managed.ensues hrun⟩

theorem Maintained.accounts (h : s.Maintained e own) :
    ∀ c, own c → s.Holds c → s.Accounts e c := by
  obtain ⟨s₀, h₀, hrun⟩ := h
  induction hrun with
  | refl =>
    obtain ⟨settings, rfl⟩ := h₀
    intro c _ _ hhas
    exact absurd (Nat.lt_of_lt_of_le hhas.1 hhas.2) (Nat.lt_irrefl 0)
  | tail hbefore hlast ih =>
    obtain ⟨hs, hf⟩ := Attained.settled ⟨s₀, h₀, Managed.ensues hbefore⟩
    exact hlast.accounts hs hf ih

/-- Reclamation leaks no history. In every run in which a cell is changed by one engine only, and in
which nobody gets hold of a cell that was gone, each retained value of the cell but the oldest one
is listed by a mark of that engine's window, as long as somebody holds the cell; so no more values
are retained than there are marks that list the cell, and one. -/
theorem history_accounted (h : s.Maintained e own) (hc : own c) (hhas : s.store.Has c)
    (hheld : s.Holds c) :
    let t := (s.world.engine e).timeline
    let chain := (s.store.cell c).chain
    (∀ r ∈ chain.records.dropLast, ∃ m ∈ t.window, m.version = r.version ∧ c ∈ m.written) ∧
      chain.size ≤ 1 + (t.window.filter fun m => c ∈ m.written).length := by
  intro t chain
  have haccounts : t.Accounts c chain := h.accounts c hc hheld hhas
  have htracks := (h.attained.settled.1.follows c hc).tracks
  exact ⟨haccounts, haccounts.size_le htracks.increasing⟩

/-- A pass that is held back by a reader retires a mark on which a cell is not listed. All three
values of the cell are retained, and two marks list it. -/
theorem history_accounted_with_reader :
    let s₀ : Scene Nat := .start {} {}
    let s₁ := s₀.next (s₀.world.createCell sole 0 5).2 []
    let x := (s₁.world.begin sole .readWrite).1
    let s₂ := s₁.next (s₁.world.begin sole .readWrite).2 [x]
    let x' := (x.write (s₂.store.cell ⟨1⟩) 7).2
    let s₃ := s₂.next s₂.world [x']
    let s₄ := s₃.next (s₃.world.commit x').2 []
    let r := (s₄.world.begin sole .speculative).1
    let s₅ := s₄.next (s₄.world.begin sole .speculative).2 [r]
    let y := (s₅.world.begin sole .readWrite).1
    let s₆ := s₅.next (s₅.world.begin sole .readWrite).2 [y, r]
    let y' := (y.write (s₆.store.cell ⟨1⟩) 9).2
    let s₇ := s₆.next s₆.world [y', r]
    let s₈ := s₇.next (s₇.world.commit y').2 [r]
    let s := s₈.next (s₈.world.reclaim sole).2 [r]
    let t := (s.world.engine sole).timeline
    (s.store.cell ⟨1⟩).chain.records = [⟨2, 9⟩, ⟨1, 7⟩, ⟨0, 5⟩] ∧
      (t.window.filter fun m => ⟨1⟩ ∈ m.written).length = 2 ∧
      ∃ m ∈ t.window, m.version = 1 ∧ (⟨1⟩ : CellId) ∈ m.written := by
  intro s₀ s₁ x s₂ x' s₃ s₄ r s₅ y s₆ y' s₇ s₈ s t
  -- There is one cell only, and its creator keeps a handle on it.
  have hstep : ∀ {a b : Scene Nat} {d : Deal}, Turn d a b →
      (d ≠ .serves sole → ∀ c, True → Keeps a b c) →
      (d = .serves sole → ∀ x ∈ b.running, x.holds = []) → a.store.created = 1 →
      a.world.isLive ⟨1⟩ = true → Managed sole (fun _ => True) a b := by
    intro a b d ht hk hpinned hcreated hlive
    refine ⟨⟨d, ht, hk, fun hd x hx c hc => ?_⟩, fun ⟨n⟩ _ => ?_⟩
    · rw [hpinned hd x hx] at hc
      cases hc
    · by_cases hn : n = 1
      · exact .inl (.inl (hn ▸ hlive))
      · refine .inr fun ⟨hpos, hle⟩ => hn ?_
        rw [hcreated] at hle
        exact Nat.le_antisymm hle hpos
  have hbegin : ∀ (a : Scene Nat) (mode : Mode) running c,
      Keeps a (a.next (a.world.begin sole mode).2 running) c := fun a mode running c =>
    .of_store (by rfl) c
  have hbody : ∀ (a : Scene Nat) running c, Keeps a (a.next a.world running) c :=
    fun a running c => .of_store (by rfl) c
  have hreader : ∀ x ∈ [r], x.holds = [] := fun x hx => by
    rw [List.mem_singleton.1 hx]
    rfl
  have h₁ : Managed sole (fun _ => True) s₀ s₁ :=
    ⟨⟨_, .create sole 0 5, fun _ c _ => keeps_create 0 5 rfl c, nofun⟩,
      fun c _ => .inr fun hhas => absurd (Nat.lt_of_lt_of_le hhas.1 hhas.2) (Nat.lt_irrefl 0)⟩
  have h₂ : Managed sole (fun _ => True) s₁ s₂ :=
    hstep (.begin sole .readWrite) (fun _ c _ => hbegin _ _ _ c) nofun (by decide +kernel)
      (by decide +kernel)
  have h₃ : Managed sole (fun _ => True) s₂ s₃ :=
    hstep (.access (.refl _) (.write ⟨1⟩ 7)) (fun _ c _ => hbody _ _ c) nofun
      (by decide +kernel) (by decide +kernel)
  have h₄ : Managed sole (fun _ => True) s₃ s₄ :=
    hstep (.commit (.refl _)) (fun hne => absurd rfl hne) (fun _ _ hx => nomatch hx)
      (by decide +kernel) (by decide +kernel)
  have h₅ : Managed sole (fun _ => True) s₄ s₅ :=
    hstep (.begin sole .speculative) (fun _ c _ => hbegin _ _ _ c) nofun (by decide +kernel)
      (by decide +kernel)
  have h₆ : Managed sole (fun _ => True) s₅ s₆ :=
    hstep (.begin sole .readWrite) (fun _ c _ => hbegin _ _ _ c) nofun (by decide +kernel)
      (by decide +kernel)
  have h₇ : Managed sole (fun _ => True) s₆ s₇ :=
    hstep (.access (.refl _) (.write ⟨1⟩ 9)) (fun _ c _ => hbody _ _ c) nofun
      (by decide +kernel) (by decide +kernel)
  have h₈ : Managed sole (fun _ => True) s₇ s₈ :=
    hstep (.commit (.refl _)) (fun hne => absurd rfl hne) (fun _ => hreader)
      (by decide +kernel) (by decide +kernel)
  have h : Managed sole (fun _ => True) s₈ s :=
    hstep (.reclaim sole) (fun hne => absurd rfl hne) (fun _ => hreader) (by decide +kernel)
      (by decide +kernel)
  have hs : s.Maintained sole fun _ => True :=
    ⟨s₀, ⟨[({}, {})], rfl⟩, (((((((Relation.ReflTransGen.single h₁).tail h₂).tail h₃).tail
      h₄).tail h₅).tail h₆).tail h₇).tail h₈ |>.tail h⟩
  have hrecords : (s.store.cell ⟨1⟩).chain.records = [⟨2, 9⟩, ⟨1, 7⟩, ⟨0, 5⟩] := by
    decide +kernel
  have hlisted := (history_accounted hs trivial (c := ⟨1⟩) (by decide +kernel)
    (.inl (by decide +kernel))).1
  rw [hrecords] at hlisted
  exact ⟨hrecords, by decide +kernel, hlisted ⟨1, 7⟩ (.tail _ (.head _))⟩

end Scene

end VersionedMemory
