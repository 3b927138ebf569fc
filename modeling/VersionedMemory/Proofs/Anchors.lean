import Mathlib.Data.List.Nodup
import VersionedMemory.Proofs.Scene

/-!
# Marks and the snapshots anchored on them

The number of readers of a mark is exact: it is the number of live transactions that are anchored on
it. So a mark that someone needs is never at the start of the window without readers, it is not
retired, and the floor stays at or below every live snapshot.

## Main definitions

* `Timeline.Anchors` says that the marks of a timeline are in order and count the readers of given
  lives.

## Main statements

* `Timeline.Anchors.anchor`, `leave`, `publish` and `retire`: every operation of a timeline keeps
  the marks in order and the counts exact.
* `Timeline.Anchors.floor_le`: no live snapshot is below the floor.
-/

namespace VersionedMemory

/-- What a snapshot on a mark is anchored by. -/
def Mark.anchor (m : Mark) : Anchor := ⟨m.number, m.version⟩

@[simp] theorem Mark.anchor_release (a : Anchor) (m : Mark) : (m.release a).anchor = m.anchor := by
  simp [anchor]

namespace Timeline

/-- The marks are in order, and the readers of each are the given lives that are anchored on it; all
of these are anchored. -/
structure Anchors (t : Timeline) (lives : List Life) : Prop where
  numbers : t.window.Pairwise fun m n => m.number < n.number
  versions : t.window.Pairwise fun m n => m.version < n.version
  readers : ∀ m ∈ t.window, m.readers = lives.countP fun l => l.anchor = some m.anchor
  anchored : ∀ l ∈ lives, ∃ m ∈ t.window, l.anchor = some m.anchor ∧ l.snapshot = m.version

variable {t : Timeline} {lives lives' : List Life}

theorem anchors_startingAt (version : Version) : (startingAt version).Anchors [] where
  numbers := List.pairwise_singleton _ _
  versions := List.pairwise_singleton _ _
  readers m hm := by
    obtain rfl : m = ⟨0, version, 0, []⟩ := by simpa using hm
    rfl
  anchored l hl := nomatch hl

theorem Anchors.perm (h : t.Anchors lives) (hp : lives.Perm lives') : t.Anchors lives' where
  numbers := h.numbers
  versions := h.versions
  readers m hm := (h.readers m hm).trans (hp.countP_eq _)
  anchored l hl := h.anchored l (hp.mem_iff.2 hl)

theorem Anchors.eq_of_number (h : t.Anchors lives) {m n : Mark} (hm : m ∈ t.window)
    (hn : n ∈ t.window) (he : m.number = n.number) : m = n := by
  have hd : (t.window.map Mark.number).Nodup := List.pairwise_map.2 (h.numbers.imp Nat.ne_of_lt)
  exact List.inj_on_of_nodup_map hd hm hn he

theorem Anchors.le_head (h : t.Anchors lives) {m : Mark} (hm : m ∈ t.window) :
    m.number ≤ t.head.number ∧ m.version ≤ t.head.version := by
  rcases List.mem_append.1 hm with ho | ho
  · exact ⟨Nat.le_of_lt ((List.pairwise_append.1 h.numbers).2.2 m ho t.head (by simp)),
      Nat.le_of_lt ((List.pairwise_append.1 h.versions).2.2 m ho t.head (by simp))⟩
  · rw [List.mem_singleton.1 ho]
    exact ⟨Nat.le_refl _, Nat.le_refl _⟩

theorem exists_window_eq_cons (t : Timeline) :
    ∃ m rest, t.window = m :: rest ∧ t.floor = m.version := by
  unfold window floor
  cases t.older with
  | nil => exact ⟨t.head, [], rfl, rfl⟩
  | cons m rest => exact ⟨m, rest ++ [t.head], rfl, rfl⟩

theorem Anchors.floor_le_version (h : t.Anchors lives) {m : Mark} (hm : m ∈ t.window) :
    t.floor ≤ m.version := by
  obtain ⟨first, rest, hw, hf⟩ := t.exists_window_eq_cons
  have hv := h.versions
  rw [hw] at hm hv
  rcases List.mem_cons.1 hm with rfl | hm
  · exact Nat.le_of_eq hf
  · exact hf ▸ Nat.le_of_lt (List.rel_of_pairwise_cons hv hm)

/-- No live snapshot is below the floor, and none is above the head. -/
theorem Anchors.snapshot_bounds (h : t.Anchors lives) {l : Life} (hl : l ∈ lives) :
    t.floor ≤ l.snapshot ∧ l.snapshot ≤ t.head.version := by
  obtain ⟨m, hm, -, hs⟩ := h.anchored l hl
  exact hs ▸ ⟨h.floor_le_version hm, (h.le_head hm).2⟩

/-! ### What each operation keeps -/

/-- A new snapshot is one more reader of the head, and of no other mark. -/
theorem Anchors.anchor (h : t.Anchors lives) {l : Life} (ha : l.anchor = some t.anchor.1)
    (hs : l.snapshot = t.head.version) : t.anchor.2.Anchors (l :: lives) where
  numbers := by
    have := h.numbers
    simpa [Timeline.anchor, window, List.pairwise_append] using this
  versions := by
    have := h.versions
    simpa [Timeline.anchor, window, List.pairwise_append] using this
  readers m hm := by
    rw [List.countP_cons, ha]
    rcases List.mem_append.1 hm with ho | ho
    · have hlt := (List.pairwise_append.1 h.numbers).2.2 m ho t.head (by simp)
      have hne : ¬ (some t.anchor.1 = some m.anchor) := fun he =>
        Nat.ne_of_gt hlt (congrArg Anchor.mark (Option.some.inj he))
      simpa [hne] using h.readers m (List.mem_append_left _ ho)
    · rw [List.mem_singleton.1 ho]
      change t.head.readers + 1 = lives.countP (fun l => l.anchor = some t.head.anchor) + _
      rw [← h.readers t.head t.head_mem_window]
      simp [Timeline.anchor, Mark.anchor]
  anchored l' hl' := by
    rcases List.mem_cons.1 hl' with rfl | hl'
    · exact ⟨_, head_mem_window _, ha, hs⟩
    · obtain ⟨m, hm, hma, hms⟩ := h.anchored l' hl'
      rcases List.mem_append.1 hm with ho | ho
      · exact ⟨m, List.mem_append_left _ ho, hma, hms⟩
      · rw [List.mem_singleton.1 ho] at hma hms
        exact ⟨_, head_mem_window _, hma, hms⟩

/-- A transaction that ends is one reader fewer on its own mark, and on no other. -/
theorem Anchors.leave {l : Life} (h : t.Anchors (l :: lives)) :
    (t.leave l.anchor).Anchors lives := by
  obtain ⟨m₀, hm₀, ha, -⟩ := h.anchored l (List.mem_cons_self ..)
  have hw : (t.leave l.anchor).window = t.window.map (Mark.release m₀.anchor) := by
    rw [ha]
    exact t.window_release _
  refine ⟨?_, ?_, ?_, ?_⟩
  · rw [hw, List.pairwise_map]
    simpa using h.numbers
  · rw [hw, List.pairwise_map]
    simpa using h.versions
  · rw [hw]
    intro m' hm'
    obtain ⟨m, hm, rfl⟩ := List.mem_map.1 hm'
    have hr := h.readers m hm
    rw [List.countP_cons, ha] at hr
    rw [Mark.anchor_release]
    by_cases hn : m.number = m₀.number
    · have he : m = m₀ := h.eq_of_number hm hm₀ hn
      subst he
      simp only [decide_true, if_true] at hr
      simp [Mark.release, Mark.anchor, hr]
    · have hne : ¬ (some m₀.anchor = some m.anchor) := fun he =>
        hn (congrArg Anchor.mark (Option.some.inj he)).symm
      simp only [hne, decide_false, Bool.false_eq_true, if_false, Nat.add_zero] at hr
      simpa [Mark.release, Mark.anchor, hn] using hr
  · intro l' hl'
    obtain ⟨m, hm, hma, hms⟩ := h.anchored l' (List.mem_cons_of_mem _ hl')
    exact ⟨m.release m₀.anchor, hw ▸ List.mem_map_of_mem hm, by simpa using hma, by simpa using hms⟩

/-- A commit adds a mark without readers. -/
theorem Anchors.publish (h : t.Anchors lives) {version : Version} (hv : t.head.version < version)
    (written : List CellId) : (t.publish version written).Anchors lives := by
  refine ⟨?_, ?_, ?_, ?_⟩
  · rw [window_publish, List.pairwise_append]
    refine ⟨h.numbers, List.pairwise_singleton _ _, fun m hm n hn => ?_⟩
    rw [List.mem_singleton.1 hn]
    exact Nat.lt_succ_of_le (h.le_head hm).1
  · rw [window_publish, List.pairwise_append]
    refine ⟨h.versions, List.pairwise_singleton _ _, fun m hm n hn => ?_⟩
    rw [List.mem_singleton.1 hn]
    exact Nat.lt_of_le_of_lt (h.le_head hm).2 hv
  · intro m hm
    rw [window_publish] at hm
    rcases List.mem_append.1 hm with hm | hm
    · exact h.readers m hm
    · rw [List.mem_singleton.1 hm]
      refine (List.countP_eq_zero.2 fun l hl => ?_).symm
      obtain ⟨n, hn, ha, -⟩ := h.anchored l hl
      have := (h.le_head hn).1
      rw [ha]
      simp [Mark.anchor]
      omega
  · intro l hl
    obtain ⟨m, hm, ha⟩ := h.anchored l hl
    exact ⟨m, by simp [hm], ha⟩

/-- Retired marks have no readers, so nobody is anchored on them. -/
theorem Anchors.retire (h : t.Anchors lives) : t.retire.2.Anchors lives := by
  have hw := t.retire_append
  have hsub : t.retire.2.window.Sublist t.window := hw ▸ List.sublist_append_right _ _
  refine ⟨h.numbers.sublist hsub, h.versions.sublist hsub,
    fun m hm => h.readers m (hsub.subset hm), fun l hl => ?_⟩
  obtain ⟨m, hm, ha⟩ := h.anchored l hl
  rw [← hw] at hm
  rcases List.mem_append.1 hm with hm' | hm'
  · have hz := readers_eq_zero_of_mem_retire hm'
    rw [h.readers m (hw ▸ hm), List.countP_eq_zero] at hz
    exact absurd (hz l hl) (by simp [ha.1])
  · exact ⟨m, hm', ha⟩

theorem Anchors.floor_le_retire (h : t.Anchors lives) : t.floor ≤ t.retire.2.floor := by
  obtain ⟨m, rest, hm, hf⟩ := t.retire.2.exists_window_eq_cons
  rw [hf]
  refine h.floor_le_version ?_
  rw [← t.retire_append, hm]
  simp

@[simp] theorem floor_anchor (t : Timeline) : t.anchor.2.floor = t.floor := by
  unfold floor Timeline.anchor
  cases t.older <;> rfl

@[simp] theorem floor_leave (t : Timeline) (a : Option Anchor) : (t.leave a).floor = t.floor := by
  cases a with
  | none => rfl
  | some a =>
    simp only [Timeline.leave, release, floor]
    cases t.older <;> simp

@[simp] theorem floor_publish (t : Timeline) (version : Version) (written : List CellId) :
    (t.publish version written).floor = t.floor := by
  unfold floor Timeline.publish window
  cases t.older <;> rfl

end Timeline

end VersionedMemory
