import Mathlib.Data.List.TakeWhile
import VersionedMemory.Proofs.Accounting
import VersionedMemory.Proofs.PassCounts

/-!
# What an idle engine retains

With nobody alive who reads an old value, a reclamation pass retires every mark but the newest one,
and compacts the cells that the retired marks list to the version of the newest. The newest mark is
never retired. So a cell that no other mark lists is passed over, and has kept the value before its
current one, if the newest commit changed it: a later pass finds it once another commit has come.

## Main statements

* `Timeline.Anchors.retire_of_idle`: with no lives, all marks but the head are retired.
* `Timeline.Accounts.records_of_head`: a cell that the head alone lists has at most one more value.
* `Scene.idle_pass`: what one pass of an idle engine leaves of each live cell.
-/

namespace VersionedMemory

variable {V : Type} {t : Timeline} {c : CellId} {chain : Chain V}

/-- Nothing but the head is left by a compaction to its version, or to a later one. -/
theorem Chain.records_compact_of_le {floor : Version} (h : chain.head.version ≤ floor) :
    (chain.compact floor).records = [chain.head] := by simp [Chain.compact, Chain.records, h]

namespace Timeline

/-- If nobody lives, all marks but the head are retired. -/
theorem Anchors.retire_of_idle (h : t.Anchors []) : t.retire = (t.older, ⟨[], t.head⟩) := by
  have hfree : ∀ m ∈ t.older, decide (m.readers = 0) = true := fun m hm =>
    decide_eq_true (h.readers m (List.mem_append_left _ hm))
  have hout : t.older.takeWhile (·.readers = 0) = t.older := List.takeWhile_eq_self_iff.2 hfree
  have hin : t.older.dropWhile (·.readers = 0) = [] := List.dropWhile_eq_nil_iff.2 hfree
  rw [Timeline.retire, hout, hin]

/-- A cell that no mark but the head lists has its current value only, or this was published with
the head and there is one value before it. -/
theorem Accounts.records_of_head (h : t.Accounts c chain) (hi : chain.Increasing)
    (hc : ∀ m ∈ t.older, c ∉ m.written) :
    chain.records = [chain.head] ∨
      c ∈ t.head.written ∧ chain.head.version = t.head.version ∧
        ∃ r, chain.records = [chain.head, r] := by
  have hlisted : ∀ r ∈ chain.records.dropLast,
      c ∈ t.head.written ∧ r.version = t.head.version := by
    intro r hr
    obtain ⟨m, hm, hv, hmc⟩ := h r hr
    rcases List.mem_append.1 hm with ho | ho
    · exact absurd hmc (hc m ho)
    · obtain rfl := List.mem_singleton.1 ho
      exact ⟨hmc, hv.symm⟩
  obtain ⟨head, older⟩ := chain
  cases older with
  | nil => exact .inl rfl
  | cons r rest =>
    have hhead := hlisted head (List.mem_cons_self ..)
    cases rest with
    | nil => exact .inr ⟨hhead.1, hhead.2, r, rfl⟩
    | cons r' rest =>
      -- A second value listed would have the version of the first.
      have hr := hlisted r (List.mem_cons_of_mem _ (List.mem_cons_self ..))
      have hlt : r.version < head.version :=
        List.rel_of_pairwise_cons hi (List.mem_cons_self ..)
      exact absurd (hr.2.trans hhead.2.symm) (Nat.ne_of_lt hlt)

end Timeline

namespace Scene

variable [Inhabited V] {s s' : Scene V} {e : EngineId} {own : CellId → Prop}

omit [Inhabited V] in
theorem livesOf_eq_nil (h : ∀ x ∈ s.live, x.engine ≠ e) : s.livesOf e = [] := by
  refine List.filter_eq_nil_iff.2 fun l hl => ?_
  obtain ⟨x, hx, rfl⟩ := List.mem_map.1 hl
  exact fun he => h x hx (of_decide_eq_true he)

/-- What one pass of an idle engine leaves. In every run in which a cell is changed by one engine
only, that comes to a scene where the engine has no transaction alive, neither running nor held,
bound or parked: a pass leaves the newest mark, and of the cell, if it is alive, the current value
and nothing else; except that a cell which the newest commit changed, and which no other mark lists,
also has the one value it had before that commit, if this was retained. -/
theorem idle_pass (h : s.Maintained e own) (hidle : ∀ x ∈ s.live, x.engine ≠ e) (hc : own c)
    (hhas : s.store.Has c) (hlive : s.world.isLive c = true) :
    let t := (s.world.engine e).timeline
    let before := (s.store.cell c).chain
    let after := ((s.world.reclaim e).2.store.cell c).chain
    ((s.world.reclaim e).2.engine e).timeline.window = [t.head] ∧
      (after.records = [before.head] ∨
        (c ∈ t.head.written ∧ ∀ m ∈ t.older, c ∉ m.written) ∧
          before.head.version = t.head.version ∧
          ∃ r, before.records = [before.head, r] ∧ after.records = [before.head, r]) := by
  intro t before after
  have hsettled := h.attained.settled.1
  have htracks : t.Tracks c before := (hsettled.follows c hc).tracks
  have hretire : t.retire = (t.older, ⟨[], t.head⟩) := by
    refine Timeline.Anchors.retire_of_idle ?_
    rw [← livesOf_eq_nil hidle]
    exact hsettled.attends.anchors
  have hwindow : ((s.world.reclaim e).2.engine e).timeline.window = [t.head] := by
    have hengine := s.world.engine_reclaim e e
    rw [if_pos rfl] at hengine
    rw [hengine]
    change t.retire.2.window = _
    rw [hretire]
    rfl
  have hpassing : c ∈ s.world.passing e ↔ ∃ m ∈ t.older, c ∈ m.written := by
    have hmem : c ∈ s.world.passing e ↔ c ∈ changedBy t.retire.1 := by
      simp [World.passing, hlive, t]
    rw [hmem, hretire, mem_changedBy]
  have hcell := s.world.cell_reclaim e c
  refine ⟨hwindow, ?_⟩
  by_cases hm : ∃ m ∈ t.older, c ∈ m.written
  · refine .inl ?_
    have hfloor : t.retire.2.floor = t.head.version := by rw [hretire]; rfl
    have hafter : after = before.compact t.head.version := by
      rw [if_pos (hpassing.2 hm)] at hcell
      rw [← hfloor]
      exact congrArg Cell.chain hcell
    rw [hafter]
    exact Chain.records_compact_of_le htracks.behind
  · have hafter : after = before := by
      rw [if_neg fun hp => hm (hpassing.1 hp)] at hcell
      exact congrArg Cell.chain hcell
    have hunlisted : ∀ m ∈ t.older, c ∉ m.written := fun m ho hmc => hm ⟨m, ho, hmc⟩
    have haccounts : t.Accounts c before := h.accounts c hc (.inl hlive) hhas
    rw [hafter]
    rcases haccounts.records_of_head htracks.increasing hunlisted with hone | htwo
    · exact .inl hone
    · obtain ⟨hhead, hv, r, hr⟩ := htwo
      exact .inr ⟨⟨hhead, hunlisted⟩, hv, r, hr, hr⟩

/-! ### Runs of single changes -/

/-- If callers have handles on all the cells there are, somebody holds each of them. -/
theorem holds_of_handles (hh : ∀ n < s.store.created, 0 < (s.store.cell ⟨n + 1⟩).handles)
    (c : CellId) : s.Holds c ∨ ¬ s.store.Has c := by
  by_cases hc : s.store.Has c
  · obtain ⟨n⟩ := c
    obtain ⟨m, rfl⟩ := Nat.exists_eq_succ_of_ne_zero (Nat.ne_of_gt hc.1)
    exact .inl (.inl (World.isLive_iff.2 (.inl (hh m hc.2))))
  · exact .inr hc

/-- A turn is a managed one if callers have handles on all the cells there are. -/
theorem Managed.of_handles {d : Deal} (ht : Turn d s s')
    (hk : d ≠ .serves e → ∀ c, own c → Keeps s s' c) (hr : d = .serves e → s'.running = [])
    (hh : ∀ n < s.store.created, 0 < (s.store.cell ⟨n + 1⟩).handles) : Managed e own s s' where
  turn := ⟨d, ht, hk, fun hd _ hx => absurd hx (hr hd ▸ List.not_mem_nil)⟩
  gone c _ := holds_of_handles hh c

theorem Maintained.creating (h : s.Maintained sole fun _ => True)
    (hh : ∀ n < s.store.created, 0 < (s.store.cell ⟨n + 1⟩).handles) (type : ContentType)
    (value : V) :
    (s.next (s.world.createCell sole type value).2 s.running).Maintained sole fun _ => True := by
  obtain ⟨s₀, h₀, hrun⟩ := h
  exact ⟨s₀, h₀, hrun.tail (.of_handles (.create sole type value)
    (fun _ c _ => keeps_create type value rfl c) nofun hh)⟩

/-- The scene after a transaction that writes one cell and commits. -/
def changing (s : Scene V) (c : CellId) (value : V) : Scene V :=
  let x := (s.world.begin sole .readWrite).1
  let s₁ := s.next (s.world.begin sole .readWrite).2 [x]
  let s₂ := s₁.next s₁.world [(x.write (s₁.store.cell c) value).2]
  s₂.next (s₂.world.commit (x.write (s₁.store.cell c) value).2).2 []

theorem Maintained.changing (h : s.Maintained sole fun _ => True) (hr : s.running = [])
    (hh : ∀ n < s.store.created, 0 < (s.store.cell ⟨n + 1⟩).handles) (c : CellId) (value : V) :
    (s.changing c value).Maintained sole fun _ => True := by
  obtain ⟨s₀, h₀, hrun⟩ := h
  have hbegin := Turn.begin (s := s) sole .readWrite
  rw [hr] at hbegin
  have hbegun := hrun.tail
    (.of_handles hbegin (fun _ _ _ => .of_store (by rfl) _) nofun hh)
  have hwritten := hbegun.tail
    (.of_handles (.access (.refl _) (.write c value)) (fun _ _ _ => .of_store (by rfl) _) nofun hh)
  exact ⟨s₀, h₀, hwritten.tail
    (.of_handles (.commit (.refl _)) (fun hne => absurd rfl hne) (fun _ => rfl) hh)⟩

/-- Two cells that were created with 0 and changed by one commit each. -/
def changedInTurn : Scene Nat :=
  let s₀ : Scene Nat := .start {} {}
  let s₁ := s₀.next (s₀.world.createCell sole 0 0).2 []
  let s₂ := s₁.next (s₁.world.createCell sole 0 0).2 []
  (s₂.changing ⟨1⟩ 7).changing ⟨2⟩ 9

theorem maintained_changedInTurn : changedInTurn.Maintained sole fun _ => True := by
  have hstart : (start {} {} : Scene Nat).Maintained sole fun _ => True :=
    ⟨_, ⟨[({}, {})], rfl⟩, .refl⟩
  have hcells := (hstart.creating nofun 0 0).creating (by decide +kernel) 0 0
  exact (hcells.changing rfl (by decide +kernel) ⟨1⟩ 7).changing rfl (by decide +kernel) ⟨2⟩ 9

/-- The pass collapses the cell that was changed first. -/
theorem idle_pass_changed_before :
    ((changedInTurn.world.reclaim sole).2.store.cell ⟨1⟩).chain.records = [⟨1, 7⟩] ∧
      changedInTurn.live = [] := by
  have hidle : changedInTurn.live = [] := by decide +kernel
  have hpass := (idle_pass maintained_changedInTurn (fun x hx => absurd (hidle ▸ hx)
    List.not_mem_nil) (c := ⟨1⟩) trivial (by decide +kernel) (by decide +kernel)).2
  have hlisted : ¬ ∀ m ∈ (changedInTurn.world.engine sole).timeline.older,
      (⟨1⟩ : CellId) ∉ m.written := by decide +kernel
  have hhead : (changedInTurn.store.cell ⟨1⟩).chain.head = ⟨1, 7⟩ := by decide +kernel
  rcases hpass with hone | ⟨⟨-, hn⟩, -⟩
  · exact ⟨hhead ▸ hone, hidle⟩
  · exact absurd hn hlisted

/-- The cell that the newest commit changed is passed over: nobody is alive, and after the pass it
still has the value it was created with beside its current one. -/
theorem newest_change_not_collapsed :
    changedInTurn.Maintained sole (fun _ => True) ∧ changedInTurn.live = [] ∧
      changedInTurn.world.isLive ⟨2⟩ = true ∧
      ((changedInTurn.world.reclaim sole).2.store.cell ⟨2⟩).chain.records = [⟨2, 9⟩, ⟨0, 0⟩] :=
  ⟨maintained_changedInTurn, by decide +kernel, by decide +kernel, by decide +kernel⟩

end Scene

end VersionedMemory
