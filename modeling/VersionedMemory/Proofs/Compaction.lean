import VersionedMemory.Chain

/-!
# What compaction leaves of a chain

Compaction to a floor cuts a chain right behind its newest value at or below the floor. What is cut
off is older than any value that a snapshot from the floor on may see; a snapshot below the floor
sees the value it saw before, or nothing, but no other value.

## Main definitions

* `Chain.outdated` is what compaction gives up.
* `Chain.CompactsExactly` is all that compaction does.

## Main statements

* `Chain.records_compact_append`: a chain is what is kept, and behind it what is given up.
* `Chain.compact_compact`: compaction to two floors is compaction to the higher one.
* `Chain.compact_exact`: compaction is exact.
-/

namespace VersionedMemory.Chain

variable {V : Type} {c : Chain V} {floor snapshot : Version} {l : List (Record V)}

/-- The records behind the newest one at or below `floor`. -/
def outdated (floor : Version) (l : List (Record V)) : List (Record V) :=
  (l.dropWhile (floor < ·.version)).tail

/-- What is kept and what is given up make up all there is. -/
theorem keepTo_append_outdated (floor : Version) (l : List (Record V)) :
    keepTo floor l ++ outdated floor l = l := by
  induction l with
  | nil => rfl
  | cons r rest ih =>
    unfold keepTo
    split
    · next h => simp [outdated, Nat.not_lt.2 h]
    · next h => simpa [outdated, Nat.not_le.1 h] using ih

theorem records_compact_append (c : Chain V) (floor : Version) :
    (c.compact floor).records ++ outdated floor c.records = c.records := by
  rw [records_compact, keepTo_append_outdated]

/-- As many values are given up as lie behind the newest one at or below the floor. -/
theorem discarded_eq_length (c : Chain V) (floor : Version) :
    c.discarded floor = (outdated floor c.records).length := by
  have hlen := congrArg List.length (c.records_compact_append floor)
  rw [List.length_append] at hlen
  exact Nat.sub_eq_of_eq_add' hlen.symm

theorem size_compact_add_discarded (c : Chain V) (floor : Version) :
    (c.compact floor).size + c.discarded floor = c.size := by
  rw [discarded_eq_length, size, size, ← List.length_append, records_compact_append]

/-- A snapshot below the floor sees what it saw before, unless it sees nothing any more. -/
theorem find?_keepTo_of_lt (h : snapshot < floor) (l : List (Record V)) :
    (keepTo floor l).find? (·.version ≤ snapshot) = l.find? (·.version ≤ snapshot) ∨
      (keepTo floor l).find? (·.version ≤ snapshot) = none := by
  induction l with
  | nil => exact .inl rfl
  | cons r rest ih =>
    unfold keepTo
    split
    · by_cases hr : r.version ≤ snapshot <;> simp [hr]
    · next hr =>
      -- A record above the floor is above the snapshot too.
      have hs : ¬ r.version ≤ snapshot := fun hle => hr (Nat.le_of_lt (Nat.lt_of_le_of_lt hle h))
      simpa [List.find?_cons, hs] using ih

theorem asOf_compact_of_lt (h : snapshot < floor) (c : Chain V) :
    (c.compact floor).asOf snapshot = c.asOf snapshot ∨
      (c.compact floor).asOf snapshot = none := by
  simpa only [asOf, records_compact] using find?_keepTo_of_lt h c.records

/-- Of the records at or below the floor the newest one is kept. -/
theorem countP_keepTo (floor : Version) (l : List (Record V)) :
    (keepTo floor l).countP (·.version ≤ floor) =
      if ∃ r ∈ l, r.version ≤ floor then 1 else 0 := by
  induction l with
  | nil => simp [keepTo]
  | cons r rest ih => by_cases h : r.version ≤ floor <;> simp [keepTo, h, ih]

/-- Keeping what is needed from one floor on, and then from another one, is keeping what is needed
from the higher one on. -/
theorem keepTo_keepTo (a b : Version) (l : List (Record V)) :
    keepTo b (keepTo a l) = keepTo (max a b) l := by
  induction l with
  | nil => rfl
  | cons r rest ih =>
    by_cases ha : r.version ≤ a
    · have hmax : r.version ≤ max a b := Nat.le_trans ha (Nat.le_max_left a b)
      simp only [keepTo, ha, hmax, if_true, ite_self]
    · by_cases hb : r.version ≤ b
      · have hmax : r.version ≤ max a b := Nat.le_trans hb (Nat.le_max_right a b)
        simp only [keepTo, ha, hb, hmax, if_true, if_false]
      · have hmax : ¬ r.version ≤ max a b :=
          Nat.not_le.2 (Nat.max_lt.2 ⟨Nat.not_le.1 ha, Nat.not_le.1 hb⟩)
        simp only [keepTo, ha, hb, hmax, if_false, ih]

theorem ext_records {c d : Chain V} (h : c.records = d.records) : c = d := by
  obtain ⟨_, _⟩ := c
  obtain ⟨_, _⟩ := d
  cases h
  rfl

theorem compact_compact (c : Chain V) (a b : Version) :
    (c.compact a).compact b = c.compact (max a b) :=
  ext_records (by simp only [records_compact, keepTo_keepTo])

/-- In two compactions as much is given up as in one to the higher floor. -/
theorem discarded_add_discarded (c : Chain V) (a b : Version) :
    c.discarded a + (c.compact a).discarded b = c.discarded (max a b) := by
  have hfirst := c.size_compact_add_discarded a
  have hsecond := (c.compact a).size_compact_add_discarded b
  have hboth := c.size_compact_add_discarded (max a b)
  rw [compact_compact] at hsecond
  omega

/-- What a compaction to a floor leaves of a chain. Snapshots from the floor on see what they saw
before, and those below it see that or nothing. -/
structure CompactsExactly (c : Chain V) (floor : Version) : Prop where
  above : ∀ s, floor ≤ s → (c.compact floor).asOf s = c.asOf s
  below : ∀ s < floor, (c.compact floor).asOf s = c.asOf s ∨ (c.compact floor).asOf s = none
  head : (c.compact floor).head = c.head
  nonempty : (c.compact floor).records ≠ []
  increasing : (c.compact floor).Increasing
  /-- Of the values at or below the floor just the newest one is left. -/
  single : (c.compact floor).records.countP (·.version ≤ floor) =
    if ∃ r ∈ c.records, r.version ≤ floor then 1 else 0
  /-- The count that compaction answers is that of the records that it cut off the end. -/
  cut : ∃ removed, (c.compact floor).records ++ removed = c.records ∧
    removed.length = c.discarded floor
  /-- Two compactions in a row are one to the higher floor, whichever comes first. -/
  compact : ∀ other, (c.compact floor).compact other = c.compact (max floor other) ∧
    (c.compact other).compact floor = c.compact (max floor other)
  /-- Two compactions in a row give up as many values as one to the higher floor. -/
  discarded : ∀ other,
    c.discarded floor + (c.compact floor).discarded other = c.discarded (max floor other) ∧
      c.discarded other + (c.compact other).discarded floor = c.discarded (max floor other)

/-- Compaction is exact, over every chain in which the versions increase. -/
theorem compact_exact (h : c.Increasing) (floor : Version) : c.CompactsExactly floor where
  above _ hs := asOf_compact hs c
  below _ hs := asOf_compact_of_lt hs c
  head := head_compact c floor
  nonempty := List.cons_ne_nil _ _
  increasing := h.compact floor
  single := by rw [records_compact, countP_keepTo]
  cut := ⟨_, c.records_compact_append floor, (c.discarded_eq_length floor).symm⟩
  compact other := by
    refine ⟨c.compact_compact floor other, ?_⟩
    rw [compact_compact, Nat.max_comm]
  discarded other := by
    refine ⟨c.discarded_add_discarded floor other, ?_⟩
    rw [discarded_add_discarded, Nat.max_comm]

/-- The floor 8 lies between two versions, and cuts two of four values off. -/
theorem compact_exact_between :
    let c : Chain Nat := ⟨⟨12, 120⟩, [⟨7, 70⟩, ⟨3, 30⟩, ⟨0, 0⟩]⟩
    c.Increasing ∧ (c.compact 8).asOf 11 = some ⟨7, 70⟩ ∧
      (c.compact 8).records.countP (·.version ≤ 8) = 1 ∧
      c.discarded 3 + (c.compact 3).discarded 8 = 2 := by
  intro c
  have hc : c.Increasing := by
    unfold Increasing
    decide
  have hexact := compact_exact hc 8
  exact ⟨hc, (hexact.above 11 (by decide)).trans (by decide), hexact.single.trans (by decide),
    ((compact_exact hc 3).discarded 8).1.trans (by decide)⟩

end VersionedMemory.Chain
