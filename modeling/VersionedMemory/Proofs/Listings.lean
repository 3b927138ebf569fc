import Mathlib.Data.List.Perm.Subperm
import VersionedMemory.Proofs.LowWater
import VersionedMemory.Proofs.RetainedHistory

/-!
# What the marks of a window say of a cell

Every mark of the window lists the cells that its commit changed. Where a cell is changed by the
commits of one engine only, the marks of that engine know all there is to know of its retained
values from the floor on; and while each reclamation pass finds the cell alive, they know all of its
retained values but the oldest one. A pass compacts only the cells that it finds on the marks it
retires: a cell that is on none of them has its values listed by marks that stay.

## Main definitions

* `Timeline.Lists` says that some mark lists a cell at a version.
* `Timeline.Tracks` says that the marks list every value of a chain from the floor on.
* `Timeline.Accounts` says that they list every value but the oldest one.

## Main statements

* `Timeline.Tracks.advance`, `Timeline.Tracks.retire` and `Timeline.Accounts.advance`,
  `Timeline.Accounts.retire`: commits and reclamation passes keep both.
* `Timeline.Accounts.size_le`: no more values are retained than marks list the cell, and one.
-/

namespace VersionedMemory

variable {V : Type}

@[simp] theorem Mark.written_release (a : Anchor) (m : Mark) :
    (m.release a).written = m.written := by
  unfold Mark.release
  split <;> rfl

namespace Timeline

@[simp] theorem written_head_leave (t : Timeline) (a : Option Anchor) :
    (t.leave a).head.written = t.head.written := by
  cases a with
  | none => rfl
  | some a => exact Mark.written_release a t.head

/-- Some mark of the window lists the cell at the version. -/
def Lists (t : Timeline) (c : CellId) (v : Version) : Prop :=
  ∃ m ∈ t.window, m.version = v ∧ c ∈ m.written

variable {t t' : Timeline} {c : CellId} {v : Version} {lives : List Life}

theorem Lists.anchor (h : t.Lists c v) : t.anchor.2.Lists c v := by
  obtain ⟨m, hm, hv, hc⟩ := h
  rcases List.mem_append.1 hm with ho | ho
  · exact ⟨m, List.mem_append_left _ ho, hv, hc⟩
  · rw [List.mem_singleton.1 ho] at hv hc
    exact ⟨_, head_mem_window _, hv, hc⟩

theorem Lists.leave (h : t.Lists c v) (a : Option Anchor) : (t.leave a).Lists c v := by
  cases a with
  | none => exact h
  | some a =>
    obtain ⟨m, hm, hv, hc⟩ := h
    exact ⟨m.release a, (t.window_release a).symm ▸ List.mem_map_of_mem hm, by simp [hv],
      by simp [hc]⟩

theorem Lists.publish (h : t.Lists c v) (version : Version) (written : List CellId) :
    (t.publish version written).Lists c v := by
  obtain ⟨m, hm, hvc⟩ := h
  exact ⟨m, by simp [hm], hvc⟩

theorem lists_publish (t : Timeline) (version : Version) {written : List CellId}
    (hc : c ∈ written) : (t.publish version written).Lists c version :=
  ⟨_, head_mem_window _, rfl, hc⟩

/-- What is not below the new floor stays listed. -/
theorem Lists.retire_of_le (h : t.Lists c v) (ha : t.Anchors lives)
    (hv : t.retire.2.floor ≤ v) : t.retire.2.Lists c v := by
  obtain ⟨m, hm, rfl, hc⟩ := h
  rw [← t.retire_append] at hm
  rcases List.mem_append.1 hm with hm | hm
  · rw [floor_retire] at hv
    exact absurd hv (Nat.not_le.2 (ha.lt_lowWater_of_mem_retire hm))
  · exact ⟨m, hm, rfl, hc⟩

/-- A cell that no retired mark lists stays listed. -/
theorem Lists.retire_of_not_mem (h : t.Lists c v) (hc : c ∉ changedBy t.retire.1) :
    t.retire.2.Lists c v := by
  obtain ⟨m, hm, hv, hmc⟩ := h
  rw [← t.retire_append] at hm
  rcases List.mem_append.1 hm with hm | hm
  · refine absurd ?_ hc
    exact List.mem_eraseDups.2 (List.mem_flatMap.2 ⟨m, hm, hmc⟩)
  · exact ⟨m, hm, hv, hmc⟩

/-! ### All values from the floor on -/

/-- The marks list every value of the chain from the floor on, but for the one that the cell was
created with. Some value is old enough for every snapshot, and none is newer than the head. -/
structure Tracks (t : Timeline) (c : CellId) (chain : Chain V) : Prop where
  behind : chain.head.version ≤ t.head.version
  increasing : chain.Increasing
  reached : ∃ r ∈ chain.records, r.version ≤ t.floor
  listed : ∀ r ∈ chain.records, genesis < r.version → t.floor ≤ r.version → t.Lists c r.version

variable {chain : Chain V}

theorem tracks_single (t : Timeline) (c : CellId) (value : V) :
    t.Tracks c (.single value genesis) where
  behind := Nat.zero_le _
  increasing := Chain.increasing_single _ _
  reached := ⟨_, List.mem_singleton.2 rfl, Nat.zero_le _⟩
  listed r hr hv := by
    obtain rfl : r = ⟨genesis, value⟩ := List.mem_singleton.1 hr
    exact absurd hv (Nat.lt_irrefl _)

/-- The chain stays, and its marks stay as far as they are needed. -/
theorem Tracks.mono (h : t.Tracks c chain) (hh : t.head.version ≤ t'.head.version)
    (hf : t.floor ≤ t'.floor) (hl : ∀ v, t'.floor ≤ v → t.Lists c v → t'.Lists c v) :
    t'.Tracks c chain where
  behind := Nat.le_trans h.behind hh
  increasing := h.increasing
  reached := by
    obtain ⟨r, hr, hv⟩ := h.reached
    exact ⟨r, hr, Nat.le_trans hv hf⟩
  listed r hr hg hv := hl _ hv (h.listed r hr hg (Nat.le_trans hf hv))

theorem Tracks.anchor (h : t.Tracks c chain) : t.anchor.2.Tracks c chain :=
  h.mono (Nat.le_refl _) (Nat.le_of_eq t.floor_anchor.symm) fun _ _ hl => hl.anchor

theorem Tracks.leave (h : t.Tracks c chain) (a : Option Anchor) : (t.leave a).Tracks c chain :=
  h.mono (Nat.le_of_eq (t.version_head_leave a).symm) (Nat.le_of_eq (t.floor_leave a).symm)
    fun _ _ hl => hl.leave a

theorem Tracks.publish (h : t.Tracks c chain) {version : Version} (hv : t.head.version ≤ version)
    (written : List CellId) : (t.publish version written).Tracks c chain :=
  h.mono hv (Nat.le_of_eq (t.floor_publish version written).symm) fun _ _ hl => hl.publish _ _

/-- A commit lists what it publishes. -/
theorem Tracks.advance (h : t.Tracks c chain) {version : Version} (hv : t.head.version < version)
    {written : List CellId} (hc : c ∈ written) (f : V → V) :
    (t.publish version written).Tracks c (chain.advance version f) := by
  have hlt : chain.head.version < version := Nat.lt_of_le_of_lt h.behind hv
  have hold := h.publish (Nat.le_of_lt hv) written
  have hrecords := Chain.records_advance hlt f
  refine ⟨Nat.le_refl _, ?_, ?_, fun r hr hg hf => ?_⟩
  · rw [Chain.Increasing, hrecords]
    exact List.pairwise_cons.2
      ⟨fun _ hr => Nat.lt_of_le_of_lt (h.increasing.version_le_head hr) hlt, h.increasing⟩
  · obtain ⟨r, hr, hle⟩ := hold.reached
    exact ⟨r, hrecords ▸ List.mem_cons_of_mem _ hr, hle⟩
  · rw [hrecords] at hr
    rcases List.mem_cons.1 hr with rfl | hr
    · exact t.lists_publish version hc
    · exact hold.listed r hr hg hf

theorem Tracks.retire (h : t.Tracks c chain) (ha : t.Anchors lives) :
    t.retire.2.Tracks c chain :=
  h.mono (Nat.le_refl _) ha.floor_le_retire fun _ hv hl => hl.retire_of_le ha hv

theorem Tracks.compact (h : t.Tracks c chain) : t.Tracks c (chain.compact t.floor) := by
  have hsub : (chain.compact t.floor).records.Sublist chain.records := by
    rw [Chain.records_compact]
    exact Chain.keepTo_sublist _ _
  refine ⟨by rw [Chain.head_compact]; exact h.behind, h.increasing.compact _, ?_,
    fun r hr => h.listed r (hsub.subset hr)⟩
  obtain ⟨r, hr, hv⟩ := h.reached
  have hsome : ((chain.compact t.floor).asOf t.floor).isSome := by
    rw [Chain.asOf_compact (Nat.le_refl _)]
    exact List.find?_isSome.2 ⟨r, hr, by simpa using hv⟩
  obtain ⟨r', hr', hv'⟩ := List.find?_isSome.1 hsome
  exact ⟨r', hr', by simpa using hv'⟩

/-! ### All values but the oldest -/

/-- The marks list every value of the chain but the oldest one. -/
def Accounts (t : Timeline) (c : CellId) (chain : Chain V) : Prop :=
  ∀ r ∈ chain.records.dropLast, t.Lists c r.version

theorem accounts_single (t : Timeline) (c : CellId) (value : V) (version : Version) :
    t.Accounts c (.single value version) := fun _ hr => nomatch hr

theorem Accounts.mono (h : t.Accounts c chain) (hl : ∀ v, t.Lists c v → t'.Lists c v) :
    t'.Accounts c chain := fun r hr => hl _ (h r hr)

/-- What was newest is not the oldest value any more only if a commit lists it. -/
theorem Accounts.advance (h : t.Accounts c chain) {version : Version}
    (hv : chain.head.version < version) {written : List CellId} (hc : c ∈ written) (f : V → V) :
    (t.publish version written).Accounts c (chain.advance version f) := by
  intro r hr
  have hne : chain.records ≠ [] := List.cons_ne_nil _ _
  rw [Chain.records_advance hv, List.dropLast_cons_of_ne_nil hne] at hr
  rcases List.mem_cons.1 hr with rfl | hr
  · exact t.lists_publish version hc
  · exact (h r hr).publish _ _

end Timeline

/-- Compaction keeps the newest value at or below the floor as the oldest one. -/
theorem Chain.mem_dropLast_keepTo {floor : Version} {l : List (Record V)} {r : Record V}
    (h : r ∈ (keepTo floor l).dropLast) : floor < r.version ∧ r ∈ l.dropLast := by
  induction l with
  | nil => cases h
  | cons s rest ih =>
    unfold keepTo at h
    split at h
    · cases h
    · next hs =>
      cases rest with
      | nil => cases h
      | cons s' rest =>
        have hne : keepTo floor (s' :: rest) ≠ [] := by
          unfold keepTo
          split <;> exact List.cons_ne_nil _ _
        rw [List.dropLast_cons_of_ne_nil hne] at h
        rw [List.dropLast_cons_of_ne_nil (List.cons_ne_nil _ _)]
        rcases List.mem_cons.1 h with rfl | h
        · exact ⟨Nat.not_le.1 hs, List.mem_cons_self ..⟩
        · exact ⟨(ih h).1, List.mem_cons_of_mem _ (ih h).2⟩

namespace Timeline

variable {t : Timeline} {c : CellId} {lives : List Life} {chain : Chain V}

/-- A pass that finds the cell on a mark that it retires compacts it, and all that is left above the
floor is listed by marks that stay. -/
theorem Accounts.retire (h : t.Accounts c chain) (ha : t.Anchors lives) :
    t.retire.2.Accounts c (chain.compact t.retire.2.floor) := by
  intro r hr
  rw [Chain.records_compact] at hr
  obtain ⟨hv, hr⟩ := Chain.mem_dropLast_keepTo hr
  exact (h r hr).retire_of_le ha (Nat.le_of_lt hv)

/-- A pass that does not find the cell leaves it alone, and retires no mark that lists it. -/
theorem Accounts.retire_of_not_mem (h : t.Accounts c chain) (hc : c ∉ changedBy t.retire.1) :
    t.retire.2.Accounts c chain :=
  h.mono fun _ hl => hl.retire_of_not_mem hc

/-- No more values are retained than marks list the cell, and one. -/
theorem Accounts.size_le (h : t.Accounts c chain) (hi : chain.Increasing) :
    chain.size ≤ 1 + (t.window.filter fun m => c ∈ m.written).length := by
  have hnodup : (chain.records.dropLast.map Record.version).Nodup := by
    refine List.pairwise_map.2 ((hi.sublist (List.dropLast_sublist _)).imp fun hlt => ?_)
    exact Nat.ne_of_gt hlt
  have hsub : chain.records.dropLast.map Record.version ⊆
      (t.window.filter fun m => c ∈ m.written).map Mark.version := by
    intro v hv
    obtain ⟨r, hr, rfl⟩ := List.mem_map.1 hv
    obtain ⟨m, hm, he, hc⟩ := h r hr
    exact List.mem_map.2 ⟨m, List.mem_filter.2 ⟨hm, by simpa using hc⟩, he⟩
  have hlen := (hnodup.subperm hsub).length_le
  simp only [List.length_map, List.length_dropLast] at hlen
  unfold Chain.size
  omega

end Timeline

end VersionedMemory
