import Mathlib.Data.List.Perm.Basic
import VersionedMemory.Proofs.LowWater

/-!
# What a timeline hands over

A timeline on its own, whoever works on it. Marks are published with growing versions, snapshots are
anchored and each anchor is given back once, and marks are retired, in any order and any number of
times. Beside the timeline a course notes who is anchored, what was published and what the
retirements answered.

The cells of a mark are handed over by the retirement that takes the mark off. So at every point the
cells that were published are those that were handed over and, behind them, those of the window.

## Main definitions

* `Course` is a timeline and what was done to it, `Course.Step` does one thing more.
* `Course.Sound` is what every step keeps.

## Main statements

* `Course.Step.sound`: one step keeps a course sound.
* `Course.Reached.in_order`: the window, the anchors, the floors and the cells handed over, at every
  point that can be reached.
-/

namespace VersionedMemory

/-- A timeline and what was done to it. -/
structure Course where
  timeline : Timeline
  /-- The anchors that were not given back. -/
  anchors : List Anchor
  /-- The version and the cells of each mark that was published, oldest first. -/
  published : List (Version × List CellId)
  /-- The cells that each retirement handed over, in order. -/
  handed : List (List CellId)
  /-- The floor that each retirement left, in order. -/
  floors : List Version
  deriving DecidableEq

def Mark.entry (m : Mark) : Version × List CellId := (m.version, m.written)

/-- The life of a transaction with the anchor, whoever that may be. -/
def Anchor.life (a : Anchor) : Life := ⟨⟨0⟩, sole, some a, a.version, none, .active⟩

@[simp] theorem Mark.entry_release (a : Anchor) (m : Mark) : (m.release a).entry = m.entry := by
  unfold entry release
  split <;> rfl

namespace Course

def startingAt (start : Version) : Course := ⟨.startingAt start, [], [], [], []⟩

/-- One operation on the timeline. -/
inductive Step (r : Course) : Course → Prop
  | publish (version : Version) (written : List CellId) : r.timeline.head.version < version →
    Step r { r with
      timeline := r.timeline.publish version written
      published := r.published ++ [(version, written)] }
  | anchor :
    Step r { r with
      timeline := r.timeline.anchor.2
      anchors := r.timeline.anchor.1 :: r.anchors }
  | release {a : Anchor} : a ∈ r.anchors →
    Step r { r with timeline := r.timeline.release a, anchors := r.anchors.erase a }
  | retire :
    Step r { r with
      timeline := r.timeline.retire.2
      handed := r.handed ++ [r.timeline.retire.1.flatMap Mark.written]
      floors := r.floors ++ [r.timeline.retire.2.floor] }

/-- Any number of operations on a timeline that starts at a version. -/
def Reached (start : Version) : Course → Prop := Relation.ReflTransGen Step (startingAt start)

/-- The readers are counted, all marks that are not in the window have handed their cells over, and
the floors have not decreased. -/
structure Sound (start : Version) (r : Course) : Prop where
  anchors : r.timeline.Anchors (r.anchors.map Anchor.life)
  marks : ∃ gone, gone ++ r.timeline.window.map Mark.entry = (start, []) :: r.published ∧
    r.handed.flatten = gone.flatMap Prod.snd
  floors : r.floors.Pairwise (· ≤ ·)
  floor : ∀ v ∈ r.floors, v ≤ r.timeline.floor

variable {r r' : Course} {start : Version}

theorem sound_startingAt (start : Version) : (startingAt start).Sound start where
  anchors := Timeline.anchors_startingAt start
  marks := ⟨[], rfl, rfl⟩
  floors := .nil
  floor _ hv := nomatch hv

/-- One operation keeps a course sound. -/
theorem Step.sound (h : Step r r') (hr : r.Sound start) : r'.Sound start := by
  obtain ⟨hanchors, ⟨gone, hgone, hhanded⟩, hfloors, hfloor⟩ := hr
  cases h with
  | publish version written hv =>
    refine ⟨hanchors.publish hv written, ⟨gone, ?_, hhanded⟩, hfloors, by simpa using hfloor⟩
    simp [← List.append_assoc, hgone, Mark.entry]
  | anchor =>
    refine ⟨?_, ⟨gone, ?_, hhanded⟩, hfloors, by simpa using hfloor⟩
    · exact hanchors.anchor (l := r.timeline.anchor.1.life) rfl rfl
    · rw [← hgone]
      simp [Timeline.anchor, Timeline.window, Mark.entry]
  | @release a ha =>
    refine ⟨?_, ⟨gone, ?_, hhanded⟩, hfloors, ?_⟩
    · exact (hanchors.perm ((List.perm_cons_erase ha).map _)).leave
    · rw [← hgone, Timeline.window_release, List.map_map]
      congr 2
      exact funext fun m => m.entry_release a
    · intro v hv
      exact (hfloor v hv).trans_eq (r.timeline.floor_leave (some a)).symm
  | retire =>
    have hle : ∀ v ∈ r.floors, v ≤ r.timeline.retire.2.floor := fun v hv =>
      (hfloor v hv).trans hanchors.floor_le_retire
    refine ⟨hanchors.retire, ⟨gone ++ r.timeline.retire.1.map Mark.entry, ?_, ?_⟩, ?_, ?_⟩
    · rw [List.append_assoc, ← List.map_append, r.timeline.retire_append, hgone]
    · simp [hhanded, List.flatMap_map, Mark.entry]
    · refine List.pairwise_append.2 ⟨hfloors, List.pairwise_singleton _ _, fun v hv w hw => ?_⟩
      rw [List.mem_singleton.1 hw]
      exact hle v hv
    · intro v hv
      rcases List.mem_append.1 hv with hv | hv
      · exact hle v hv
      · exact (List.mem_singleton.1 hv).le

/-- Every course that can be reached is sound. -/
theorem Reached.sound (h : Reached start r) : r.Sound start := by
  induction h with
  | refl => exact sound_startingAt start
  | tail _ hstep ih => exact hstep.sound ih

namespace Sound

variable (h : r.Sound start)
include h

theorem readers_pos_iff {m : Mark} (hm : m ∈ r.timeline.window) :
    0 < m.readers ↔ m.anchor ∈ r.anchors := by
  rw [h.anchors.readers_pos_iff hm]
  simp [Anchor.life, eq_comm]

/-- The mark of an anchor is in the window until the anchor is given back. -/
theorem exists_mark {a : Anchor} (ha : a ∈ r.anchors) :
    ∃ m ∈ r.timeline.window, m.anchor = a := by
  obtain ⟨m, hm, he, -⟩ := h.anchors.anchored a.life (List.mem_map_of_mem ha)
  exact ⟨m, hm, (Option.some.inj he).symm⟩

/-- No mark is retired that somebody is anchored on. -/
theorem anchor_not_mem {m : Mark} (hm : m ∈ r.timeline.retire.1) : m.anchor ∉ r.anchors := by
  have hw : m ∈ r.timeline.window := r.timeline.retire_append ▸ List.mem_append_left _ hm
  rw [← h.readers_pos_iff hw, Timeline.readers_eq_zero_of_mem_retire hm]
  exact Nat.lt_irrefl 0

/-- Retirement stops at the first mark that somebody is anchored on, or at the head. -/
theorem retire_stops :
    r.timeline.retire.2.window = [r.timeline.head] ∨
      ∃ m rest, r.timeline.retire.2.window = m :: rest ∧ m.anchor ∈ r.anchors := by
  cases ho : r.timeline.older.dropWhile (·.readers = 0) with
  | nil => exact .inl (by simp [Timeline.retire, Timeline.window, ho])
  | cons m rest =>
    have hw : r.timeline.retire.2.window = m :: (rest ++ [r.timeline.head]) := by
      simp [Timeline.retire, Timeline.window, ho]
    have hm : m ∈ r.timeline.window := by
      rw [← r.timeline.retire_append, hw]
      exact List.mem_append_right _ (List.mem_cons_self ..)
    have hr : m.readers ≠ 0 := by
      have hnot := List.head?_dropWhile_not (fun m : Mark => decide (m.readers = 0))
        r.timeline.older
      simpa [ho] using hnot
    exact .inr ⟨m, _, hw, (h.readers_pos_iff hm).1 (Nat.pos_of_ne_zero hr)⟩

theorem floor_le {a : Anchor} (ha : a ∈ r.anchors) : r.timeline.retire.2.floor ≤ a.version :=
  (h.anchors.retire.snapshot_bounds (List.mem_map_of_mem (f := Anchor.life) ha)).1

/-- The cells that were published are those that were handed over and those of the window. -/
theorem handed_append :
    r.handed.flatten ++ r.timeline.window.flatMap Mark.written =
      r.published.flatMap Prod.snd := by
  obtain ⟨gone, hgone, hhanded⟩ := h.marks
  have hall := congrArg (List.flatMap Prod.snd) hgone
  rw [List.flatMap_append, List.flatMap_map] at hall
  rw [hhanded]
  exact hall

end Sound

/-- The window is the end of what was published, and what was published before it has handed its
cells over. The next retirement takes off the longest run of unanchored marks that leaves the head.
-/
structure InOrder (start : Version) (r : Course) : Prop where
  nonempty : r.timeline.window ≠ []
  versions : r.timeline.window.Pairwise fun m n => m.version < n.version
  head_last : r.timeline.window.getLast? = some r.timeline.head
  published : ∃ gone, gone ++ r.timeline.window.map Mark.entry = (start, []) :: r.published ∧
    r.handed.flatten = gone.flatMap Prod.snd
  /-- The mark of every anchor that was not given back is in the window. -/
  anchored : ∀ a ∈ r.anchors, ∃ m ∈ r.timeline.window, m.anchor = a
  split : r.timeline.retire.1 ++ r.timeline.retire.2.window = r.timeline.window
  unanchored : ∀ m ∈ r.timeline.retire.1, m.anchor ∉ r.anchors
  longest : r.timeline.retire.2.window = [r.timeline.head] ∨
    ∃ m rest, r.timeline.retire.2.window = m :: rest ∧ m.anchor ∈ r.anchors
  /-- The floor that retirement leaves is the version of the first mark left. -/
  floor : r.timeline.retire.2.window.head?.map Mark.version = some r.timeline.retire.2.floor
  floor_le : ∀ a ∈ r.anchors, r.timeline.retire.2.floor ≤ a.version
  floors : (r.floors ++ [r.timeline.retire.2.floor]).Pairwise (· ≤ ·)
  /-- The cells that were published are, in order, those that the retirements handed over and those
  of the marks that are left. -/
  handed : (r.handed ++ [r.timeline.retire.1.flatMap Mark.written]).flatten ++
    r.timeline.retire.2.window.flatMap Mark.written = r.published.flatMap Prod.snd

/-- Whatever is done to a timeline, it is in order. -/
theorem Reached.in_order (h : Reached start r) : r.InOrder start := by
  have hr := h.sound
  have hnext : Reached start _ := h.tail .retire
  exact {
    nonempty := List.ne_nil_of_mem r.timeline.head_mem_window
    versions := hr.anchors.versions
    head_last := by simp [Timeline.window]
    published := hr.marks
    anchored := fun a ha => hr.exists_mark ha
    split := r.timeline.retire_append
    unanchored := fun m hm => hr.anchor_not_mem hm
    longest := hr.retire_stops
    floor := by rw [← List.head?_map]; exact r.timeline.retire.2.head?_map_version
    floor_le := fun a ha => hr.floor_le ha
    floors := hnext.sound.floors
    handed := hnext.sound.handed_append }

/-- An anchor on the mark of version 6 keeps it from being retired: the cells of that mark and of
the one behind it are not handed over. -/
theorem in_order_pinned :
    ∃ r, Reached 5 r ∧ r.anchors = [⟨1, 6⟩] ∧ r.floors = [6] ∧
      (∃ m ∈ r.timeline.window, m.anchor = ⟨1, 6⟩) ∧ r.timeline.retire.2.floor ≤ 6 ∧
      (r.handed ++ [r.timeline.retire.1.flatMap Mark.written]).flatten ++
        r.timeline.retire.2.window.flatMap Mark.written = [⟨1⟩, ⟨1⟩, ⟨2⟩] := by
  have h₁ : Reached 5 _ := Relation.ReflTransGen.refl.tail (.publish 6 [⟨1⟩] (by decide))
  have h₂ := (h₁.tail .anchor).tail (.publish 9 [⟨1⟩, ⟨2⟩] (by decide))
  have h₃ := h₂.tail .retire
  have horder := Reached.in_order h₃
  exact ⟨_, h₃, by decide, by decide, horder.anchored ⟨1, 6⟩ (by decide),
    horder.floor_le ⟨1, 6⟩ (by decide), horder.handed⟩

end Course

end VersionedMemory
