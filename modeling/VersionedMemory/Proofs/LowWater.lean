import Mathlib.Data.List.Chain
import Mathlib.Order.Bounds.Basic
import VersionedMemory.Proofs.Anchors

/-!
# The low-water mark

There are two ways to the oldest version that anybody needs: to look for the first mark of the
window that has readers, or to retire marks until one is met that has, and to take the floor that is
left. Both come to the least of the live snapshots and the head, because the readers are counted
exactly and the versions of the marks increase.

## Main definitions

* `Timeline.Consecutive` says that the versions of the marks follow one after the other.

## Main statements

* `Timeline.floor_retire`: retirement leaves the low-water mark as the floor.
* `Timeline.Anchors.isLeast_lowWater`: the low-water mark is the least version that is needed.
* `Timeline.Anchors.retire_eq_filter`: the marks below it are retired, and no others.
* `Timeline.Anchors.anchored_eq`: as many snapshots are anchored as transactions live.
-/

namespace VersionedMemory

variable {t : Timeline} {lives : List Life}

namespace Timeline

/-! ### Consecutive versions -/

/-- The versions of the marks follow one after the other. -/
def Consecutive (t : Timeline) : Prop :=
  (t.window.map Mark.version).IsChain fun v w => w = v + 1

@[simp] theorem map_version_anchor (t : Timeline) :
    t.anchor.2.window.map Mark.version = t.window.map Mark.version := by
  simp [Timeline.anchor, window]

@[simp] theorem map_version_leave (t : Timeline) (a : Option Anchor) :
    (t.leave a).window.map Mark.version = t.window.map Mark.version := by
  cases a with
  | none => rfl
  | some a => simp [Timeline.leave]

theorem getLast?_map_version (t : Timeline) :
    (t.window.map Mark.version).getLast? = some t.head.version := by simp [window]

theorem head?_map_version (t : Timeline) :
    (t.window.map Mark.version).head? = some t.floor := by
  obtain ⟨m, rest, hw, hf⟩ := t.exists_window_eq_cons
  simp [hw, hf]

theorem consecutive_startingAt (version : Version) : (startingAt version).Consecutive :=
  .singleton _

theorem Consecutive.anchor (h : t.Consecutive) : t.anchor.2.Consecutive := by
  simpa [Consecutive] using h

theorem Consecutive.leave (h : t.Consecutive) (a : Option Anchor) : (t.leave a).Consecutive := by
  simpa [Consecutive] using h

theorem Consecutive.publish (h : t.Consecutive) (written : List CellId) :
    (t.publish (t.head.version + 1) written).Consecutive := by
  unfold Consecutive at h ⊢
  rw [window_publish, List.map_append]
  refine h.append (.singleton _) fun v hv w hw => ?_
  rw [t.getLast?_map_version] at hv
  obtain rfl : t.head.version = v := Option.some.inj hv
  exact (Option.some.inj hw).symm

theorem Consecutive.retire (h : t.Consecutive) : t.retire.2.Consecutive := by
  unfold Consecutive at h
  rw [← t.retire_append, List.map_append] at h
  exact h.right_of_append

theorem eq_range'_of_isChain {l : List Nat} (h : l.IsChain fun v w => w = v + 1) {a : Nat}
    (ha : l.head? = some a) : l = List.range' a l.length := by
  induction l generalizing a with
  | nil => cases ha
  | cons v rest ih =>
    obtain rfl : v = a := Option.some.inj ha
    rw [List.length_cons, List.range'_succ]
    cases rest with
    | nil => rfl
    | cons w rest =>
      obtain ⟨rfl, hrest⟩ := List.isChain_cons_cons.1 h
      rw [← ih hrest rfl]

/-- The versions of the window run from the floor to the head. -/
theorem Consecutive.versions_eq (h : t.Consecutive) :
    t.window.map Mark.version = List.range' t.floor t.window.length ∧
      t.floor + t.window.length = t.head.version + 1 := by
  have hr := eq_range'_of_isChain h t.head?_map_version
  rw [List.length_map] at hr
  refine ⟨hr, ?_⟩
  have hl := t.getLast?_map_version
  have hlen : t.window.length ≠ 0 := by simp [window]
  rw [hr, List.getLast?_range'] at hl
  simp only [hlen, if_false, Option.some.injEq] at hl
  rw [← hl]
  exact (Nat.sub_add_cancel (Nat.le_add_left_of_le (Nat.pos_of_ne_zero hlen))).symm

end Timeline

/-! ### How many snapshots are anchored -/

/-- Giving back a claim on one of some marks leaves one snapshot fewer on them, as no other of them
has the number of that mark. -/
theorem Mark.readersOf_map_release {m : Mark} {l : List Mark} (hm : m ∈ l) (hr : 0 < m.readers)
    (hn : l.Pairwise fun m n => m.number < n.number) :
    Mark.readersOf (l.map (Mark.release m.anchor)) + 1 = Mark.readersOf l := by
  induction l with
  | nil => cases hm
  | cons n rest ih =>
    obtain ⟨hlt, hrest⟩ := List.pairwise_cons.1 hn
    rcases List.mem_cons.1 hm with rfl | hm
    · have hfix : rest.map (Mark.release m.anchor) = rest := by
        refine (List.map_congr_left fun k hk => ?_).trans rest.map_id
        exact if_neg (Nat.ne_of_gt (hlt k hk))
      rw [List.map_cons, hfix]
      simp only [Mark.readersOf, Mark.release, Mark.anchor, if_true]
      omega
    · have hne : n.number ≠ m.number := Nat.ne_of_lt (hlt m hm)
      have hfix : n.release m.anchor = n := if_neg hne
      rw [List.map_cons, hfix]
      simp only [Mark.readersOf]
      rw [Nat.add_assoc, ih hm hrest]

namespace Timeline

/-- A mark has readers as long as somebody lives who is anchored on it. -/
theorem Anchors.readers_pos_iff (h : t.Anchors lives) {m : Mark} (hm : m ∈ t.window) :
    0 < m.readers ↔ ∃ l ∈ lives, l.anchor = some m.anchor := by
  rw [h.readers m hm, List.countP_pos_iff]
  simp

theorem Anchors.anchored_eq (h : t.Anchors lives) : t.anchored = lives.length := by
  induction lives generalizing t with
  | nil => exact Mark.readersOf_eq_zero fun m hm => h.readers m hm
  | cons l rest ih =>
    obtain ⟨m, hm, ha, -⟩ := h.anchored l (List.mem_cons_self ..)
    have hr : 0 < m.readers := (h.readers_pos_iff hm).2 ⟨l, List.mem_cons_self .., ha⟩
    have hrest := ih h.leave
    rw [ha] at hrest
    rw [List.length_cons, ← hrest, Timeline.anchored, Timeline.anchored, Timeline.leave,
      window_release]
    exact (Mark.readersOf_map_release hm hr h.numbers).symm

/-! ### The least version that is needed -/

/-- Retirement leaves the low-water mark as the floor. -/
theorem floor_retire (t : Timeline) : t.retire.2.floor = t.lowWater := by
  obtain ⟨older, head⟩ := t
  induction older with
  | nil => by_cases h : 0 < head.readers <;> simp [retire, floor, lowWater, window, h]
  | cons m rest ih =>
    by_cases h : m.readers = 0
    · simpa [retire, floor, lowWater, window, h] using ih
    · simp [retire, floor, lowWater, window, h, Nat.pos_of_ne_zero h]

theorem Anchors.snapshot_eq (h : t.Anchors lives) {l : Life} (hl : l ∈ lives) {m : Mark}
    (ha : l.anchor = some m.anchor) : l.snapshot = m.version := by
  obtain ⟨n, -, hn, hs⟩ := h.anchored l hl
  rw [ha] at hn
  exact hs.trans (congrArg Anchor.version (Option.some.inj hn)).symm

/-- The low-water mark is the least of the live snapshots and the version of the head. -/
theorem Anchors.isLeast_lowWater (h : t.Anchors lives) :
    IsLeast {v | v = t.head.version ∨ ∃ l ∈ lives, l.snapshot = v} t.lowWater := by
  have hret := h.retire
  rw [← floor_retire]
  constructor
  · cases ho : t.older.dropWhile (·.readers = 0) with
    | nil => exact .inl (by simp [Timeline.retire, floor, ho])
    | cons m rest =>
      -- Retirement went no further than to a mark with readers.
      have hm : m ∈ t.retire.2.window := by simp [Timeline.retire, window, ho]
      have hr : m.readers ≠ 0 := by
        have hnot := List.head?_dropWhile_not (fun m : Mark => decide (m.readers = 0)) t.older
        simpa [ho] using hnot
      obtain ⟨l, hl, ha⟩ := (hret.readers_pos_iff hm).1 (Nat.pos_of_ne_zero hr)
      exact .inr ⟨l, hl, by simp [hret.snapshot_eq hl ha, Timeline.retire, floor, ho]⟩
  · rintro v (rfl | ⟨l, hl, rfl⟩)
    · exact hret.floor_le_version t.retire.2.head_mem_window
    · exact (hret.snapshot_bounds hl).1

theorem Anchors.lt_lowWater_of_mem_retire (h : t.Anchors lives) {m : Mark} (hm : m ∈ t.retire.1) :
    m.version < t.lowWater := by
  obtain ⟨first, rest, hw, hf⟩ := t.retire.2.exists_window_eq_cons
  have hv := h.versions
  rw [← t.retire_append, hw] at hv
  rw [← floor_retire, hf]
  exact (List.pairwise_append.1 hv).2.2 m hm first (List.mem_cons_self ..)

theorem Anchors.lowWater_le_of_mem_window (h : t.Anchors lives) {m : Mark}
    (hm : m ∈ t.retire.2.window) : t.lowWater ≤ m.version := by
  rw [← floor_retire]
  exact h.retire.floor_le_version hm

/-- The marks below the low-water mark are retired, and no others. -/
theorem Anchors.retire_eq_filter (h : t.Anchors lives) :
    t.retire.1 = t.window.filter (·.version < t.lowWater) ∧
      t.retire.2.window = t.window.filter (t.lowWater ≤ ·.version) := by
  have hout : ∀ m ∈ t.retire.1, m.version < t.lowWater := fun m => h.lt_lowWater_of_mem_retire
  have hin : ∀ m ∈ t.retire.2.window, t.lowWater ≤ m.version :=
    fun m => h.lowWater_le_of_mem_window
  rw [← t.retire_append, List.filter_append, List.filter_append]
  constructor
  · rw [List.filter_eq_self.2 (by simpa using hout), List.filter_eq_nil_iff.2 (by simpa using hin),
      List.append_nil]
  · rw [List.filter_eq_nil_iff.2 (by simpa using hout), List.filter_eq_self.2 (by simpa using hin),
      List.nil_append]

end Timeline

end VersionedMemory
