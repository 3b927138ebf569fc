import VersionedMemory.Store

/-!
# The timeline of commits

Every read-write commit leaves a mark on the timeline, with its version, the cells it changed and
the number of snapshots that are anchored on it. New snapshots are anchored on the newest mark, the
head. Marks are retired oldest first while no snapshot needs them; the head always stays. The
version of the oldest mark left is the floor: every snapshot, present or future, is at or above it,
so the cells that the retired marks changed can be compacted to it.

## Main definitions

* `Timeline.publish` appends a mark and makes it the head.
* `Timeline.anchor` and `Timeline.release` count the snapshots of a mark.
* `Timeline.retire` takes off the longest run of unanchored marks before the head.
* `reclaim` retires, then compacts the cells that the retired marks changed.
-/

namespace VersionedMemory

/-- What a commit leaves on the timeline. -/
structure Mark where
  /-- The place in the order of publication, counted from 0. -/
  number : Nat
  version : Version
  /-- How many live snapshots are anchored here. -/
  readers : Nat
  written : List CellId
  deriving DecidableEq, Repr, Inhabited

/-- The marks that are not retired: `older` from the oldest on, then the newest. -/
structure Timeline where
  older : List Mark
  head : Mark
  deriving DecidableEq, Repr

/-- The claim of one snapshot on a mark. -/
structure Anchor where
  mark : Nat
  version : Version
  deriving DecidableEq, Repr, Inhabited

/-- One snapshot fewer on `m`, if `m` is the mark of the anchor. -/
def Mark.release (a : Anchor) (m : Mark) : Mark :=
  if m.number = a.mark then { m with readers := m.readers - 1 } else m

@[simp] theorem Mark.version_release (a : Anchor) (m : Mark) :
    (m.release a).version = m.version := by
  unfold Mark.release
  split <;> rfl

@[simp] theorem Mark.number_release (a : Anchor) (m : Mark) :
    (m.release a).number = m.number := by
  unfold Mark.release
  split <;> rfl

/-- How many live snapshots are anchored on marks. -/
def Mark.readersOf : List Mark → Nat
  | [] => 0
  | m :: rest => m.readers + readersOf rest

@[simp] theorem Mark.readersOf_append (l l' : List Mark) :
    readersOf (l ++ l') = readersOf l + readersOf l' := by
  induction l with
  | nil => simp [readersOf]
  | cons m rest ih => simp [readersOf, ih, Nat.add_assoc]

theorem Mark.readersOf_eq_zero {l : List Mark} (h : ∀ m ∈ l, m.readers = 0) :
    readersOf l = 0 := by
  induction l with
  | nil => rfl
  | cons m rest ih =>
    simp only [List.forall_mem_cons] at h
    simp [readersOf, h.1, ih h.2]

namespace Timeline

def startingAt (version : Version) : Timeline := ⟨[], ⟨0, version, 0, []⟩⟩

instance : Inhabited Timeline := ⟨startingAt genesis⟩

/-- The marks that are not retired, oldest first. -/
def window (t : Timeline) : List Mark := t.older ++ [t.head]

/-- Anchor a new snapshot on the head. -/
def anchor (t : Timeline) : Anchor × Timeline :=
  (⟨t.head.number, t.head.version⟩, { t with head.readers := t.head.readers + 1 })

def release (t : Timeline) (a : Anchor) : Timeline :=
  ⟨t.older.map (Mark.release a), Mark.release a t.head⟩

/-- The timeline without the snapshot of an anchor, where there is one. -/
def leave (t : Timeline) : Option Anchor → Timeline
  | some a => t.release a
  | none => t

def publish (t : Timeline) (version : Version) (written : List CellId) : Timeline :=
  ⟨t.window, ⟨t.head.number + 1, version, 0, written⟩⟩

/-- Retire the unanchored marks at the start of the window, the head excepted. -/
def retire (t : Timeline) : List Mark × Timeline :=
  (t.older.takeWhile (·.readers = 0), { t with older := t.older.dropWhile (·.readers = 0) })

/-- The version of the oldest mark that is not retired. -/
def floor (t : Timeline) : Version := (t.older.head?.getD t.head).version

/-- The oldest version that a live snapshot needs, or the head's. -/
def lowWater (t : Timeline) : Version :=
  ((t.window.find? (0 < ·.readers)).getD t.head).version

def anchored (t : Timeline) : Nat := Mark.readersOf t.window

def mark? (t : Timeline) (number : Nat) : Option Mark := t.window.find? (·.number = number)

@[simp] theorem window_startingAt (version : Version) :
    (startingAt version).window = [⟨0, version, 0, []⟩] := rfl

@[simp] theorem window_publish (t : Timeline) (version : Version) (written : List CellId) :
    (t.publish version written).window =
      t.window ++ [⟨t.head.number + 1, version, 0, written⟩] := rfl

@[simp] theorem window_release (t : Timeline) (a : Anchor) :
    (t.release a).window = t.window.map (Mark.release a) := by
  simp [release, window]

@[simp] theorem version_head_leave (t : Timeline) (a : Option Anchor) :
    (t.leave a).head.version = t.head.version := by
  cases a with
  | none => rfl
  | some a => exact Mark.version_release a t.head

theorem head_mem_window (t : Timeline) : t.head ∈ t.window := by simp [window]

@[simp] theorem anchored_publish (t : Timeline) (version : Version) (written : List CellId) :
    (t.publish version written).anchored = t.anchored := by
  simp [anchored, Mark.readersOf]

@[simp] theorem anchored_anchor (t : Timeline) : t.anchor.2.anchored = t.anchored + 1 := by
  simp [anchored, anchor, window, Mark.readersOf, Nat.add_assoc]

theorem readers_eq_zero_of_mem_retire {t : Timeline} {m : Mark} (h : m ∈ t.retire.1) :
    m.readers = 0 := by
  simpa using List.all_eq_true.1 List.all_takeWhile m h

theorem retire_append (t : Timeline) : t.retire.1 ++ t.retire.2.window = t.window := by
  unfold retire window
  rw [← List.append_assoc, List.takeWhile_append_dropWhile]

end Timeline

structure Reclaimed where
  /-- The floor that was compacted to. -/
  floor : Version
  marks : Nat
  cells : Nat
  /-- Values given up. -/
  versions : Nat
  deriving DecidableEq, Repr, Inhabited

def Reclaimed.freedNothing (r : Reclaimed) : Bool := r.marks = 0 && r.versions = 0

/-- The cells that marks changed, each once, in the order of their first change. -/
def changedBy (marks : List Mark) : List CellId := (marks.flatMap Mark.written).eraseDups

/-- Compact cells one after the other, counting the values given up. -/
def compactAll {V : Type} [Inhabited V] (floor : Version) :
    List CellId → Store V → Nat × Store V
  | [], s => (0, s)
  | c :: rest, s =>
    let (n, s') := compactAll floor rest (s.compact c floor)
    (n + (s.cell c).chain.discarded floor, s')

/-- One reclamation pass. Cells that are not `live` any more need no compaction. -/
def reclaim {V : Type} [Inhabited V] (live : CellId → Bool) (t : Timeline) (s : Store V) :
    Reclaimed × Timeline × Store V :=
  let (retired, t') := t.retire
  let cells := (changedBy retired).filter live
  let (versions, s') := compactAll t'.floor cells s
  (⟨t'.floor, retired.length, cells.length, versions⟩, t', s')

end VersionedMemory
