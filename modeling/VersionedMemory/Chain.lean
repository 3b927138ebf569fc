import VersionedMemory.Error

/-!
# The history of one cell

A chain is the list of values that a cell had, each with the version that published it, newest
first. A snapshot sees the newest value at or below its version. Publishing adds a newest value;
compaction gives up the values that no snapshot from a floor on can see.

## Main definitions

* `Chain.asOf` is the value a snapshot sees.
* `Chain.push` and `Chain.update` publish; both refuse a version that is not newer than the head,
  except that `update` at the head's own version changes the head in place.
* `Chain.compact` keeps the newest value at or below the floor, and all newer ones.
* `Chain.Increasing` says that each retained version is newer than the ones behind it. Publishing
  and compaction keep it.
* `Chain.asOf_compact` says that compaction changes nothing for snapshots from the floor on.
-/

namespace VersionedMemory

/-- A value and the version that published it. -/
structure Record (V : Type) where
  version : Version
  value : V
  deriving DecidableEq, Repr

/-- The retained values of a cell, newest first; there is always a newest one. -/
structure Chain (V : Type) where
  head : Record V
  older : List (Record V)
  deriving DecidableEq, Repr

namespace Chain

variable {V : Type}

def single (value : V) (version : Version) : Chain V := ⟨⟨version, value⟩, []⟩

/-- The retained values, newest first. -/
def records (c : Chain V) : List (Record V) := c.head :: c.older

def versions (c : Chain V) : List Version := c.records.map Record.version

def size (c : Chain V) : Nat := c.records.length

def tail (c : Chain V) : Record V := c.older.getLast?.getD c.head

/-- The newest value at or below `snapshot`; `none` where all that is retained is newer. -/
def asOf (c : Chain V) (snapshot : Version) : Option (Record V) :=
  c.records.find? (·.version ≤ snapshot)

def isNewerThan (c : Chain V) (version : Version) : Bool := version < c.head.version

/-- Publish `value` at `version`, which has to be newer than the head. -/
def push (c : Chain V) (value : V) (version : Version) : Except Error (Chain V) :=
  if version ≤ c.head.version then .error (.internal (.outOfOrder version c.head.version))
  else .ok ⟨⟨version, value⟩, c.records⟩

/-- Publish `f` of the newest value at `version`. At the head's own version the head takes the new
value in place: no snapshot has seen it yet. -/
def update (c : Chain V) (version : Version) (f : V → V) : Except Error (Chain V) :=
  if c.head.version = version then .ok { c with head.value := f c.head.value }
  else c.push (f c.head.value) version

/-- The records down to and including the newest one at or below `floor`. -/
def keepTo (floor : Version) : List (Record V) → List (Record V)
  | [] => []
  | r :: rest => if r.version ≤ floor then [r] else r :: keepTo floor rest

/-- Give up the values that are older than the newest one at or below `floor`. -/
def compact (c : Chain V) (floor : Version) : Chain V :=
  if c.head.version ≤ floor then { c with older := [] }
  else { c with older := keepTo floor c.older }

/-- How many values `compact` gives up. -/
def discarded (c : Chain V) (floor : Version) : Nat := c.size - (c.compact floor).size

def Increasing (c : Chain V) : Prop := c.records.Pairwise fun r s => s.version < r.version

@[simp] theorem records_single (value : V) (version : Version) :
    (single value version).records = [⟨version, value⟩] := rfl

theorem push_eq_ok_iff {c d : Chain V} {value : V} {version : Version} :
    c.push value version = .ok d ↔
      c.head.version < version ∧ d = ⟨⟨version, value⟩, c.records⟩ := by
  unfold push
  grind

/-- At the head's own version the head is replaced, at a newer one a record is added. -/
theorem update_eq_ok_iff {c d : Chain V} {version : Version} {f : V → V} :
    c.update version f = .ok d ↔
      (c.head.version = version ∧ d = ⟨⟨version, f c.head.value⟩, c.older⟩) ∨
        (c.head.version < version ∧ d = ⟨⟨version, f c.head.value⟩, c.records⟩) := by
  unfold update
  split
  · next h =>
    subst h
    grind
  · rw [push_eq_ok_iff]
    grind

theorem records_compact (c : Chain V) (floor : Version) :
    (c.compact floor).records = keepTo floor c.records := by
  by_cases h : c.head.version ≤ floor <;> simp [compact, records, keepTo, h]

@[simp] theorem head_compact (c : Chain V) (floor : Version) : (c.compact floor).head = c.head := by
  unfold compact
  split <;> rfl

theorem keepTo_sublist (floor : Version) (l : List (Record V)) : (keepTo floor l).Sublist l := by
  induction l with
  | nil => exact .refl _
  | cons r rest ih =>
    unfold keepTo
    split
    · exact .cons_cons _ (List.nil_sublist rest)
    · exact ih.cons_cons r

/-- From the floor on, the first record that a snapshot may see is not given up. -/
theorem find?_keepTo {floor snapshot : Version} (h : floor ≤ snapshot) (l : List (Record V)) :
    (keepTo floor l).find? (·.version ≤ snapshot) = l.find? (·.version ≤ snapshot) := by
  induction l with
  | nil => rfl
  | cons r rest ih =>
    unfold keepTo
    split
    · next hr =>
      have hs : r.version ≤ snapshot := Nat.le_trans hr h
      simp [hs]
    · simp [List.find?_cons, ih]

theorem asOf_compact {floor snapshot : Version} (h : floor ≤ snapshot) (c : Chain V) :
    (c.compact floor).asOf snapshot = c.asOf snapshot := by
  rw [asOf, asOf, records_compact, find?_keepTo h]

theorem increasing_single (value : V) (version : Version) : (single value version).Increasing :=
  List.pairwise_singleton _ _

theorem Increasing.version_le_head {c : Chain V} (h : c.Increasing) {r : Record V}
    (hr : r ∈ c.records) : r.version ≤ c.head.version := by
  rcases List.mem_cons.1 hr with rfl | hr
  · exact Nat.le_refl _
  · exact Nat.le_of_lt (List.rel_of_pairwise_cons h hr)

theorem Increasing.push {c d : Chain V} {value : V} {version : Version} (h : c.Increasing)
    (hd : c.push value version = .ok d) : d.Increasing := by
  obtain ⟨hv, rfl⟩ := push_eq_ok_iff.1 hd
  refine List.pairwise_cons.2 ⟨fun r hr => ?_, h⟩
  exact Nat.lt_of_le_of_lt (h.version_le_head hr) hv

theorem Increasing.update {c d : Chain V} {version : Version} {f : V → V} (h : c.Increasing)
    (hd : c.update version f = .ok d) : d.Increasing := by
  rcases update_eq_ok_iff.1 hd with ⟨rfl, rfl⟩ | ⟨hv, rfl⟩
  · exact List.pairwise_cons.2 (List.pairwise_cons.1 h)
  · refine List.pairwise_cons.2 ⟨fun r hr => ?_, h⟩
    exact Nat.lt_of_le_of_lt (h.version_le_head hr) hv

theorem Increasing.compact {c : Chain V} (h : c.Increasing) (floor : Version) :
    (c.compact floor).Increasing := by
  rw [Increasing, records_compact]
  exact List.Pairwise.sublist (keepTo_sublist floor c.records) h

end Chain

end VersionedMemory
