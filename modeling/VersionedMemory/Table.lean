/-!
# Keyed tables

A table binds each of finitely many keys to one entry and remembers the order in which the keys
first came. Read-sets, write-sets, the cells of a store and the parked transactions are tables.

## Main definitions

* `Table.get?` looks a key up.
* `Table.insert` binds a key, in place if it is bound already.
* `Table.insertNew` binds a key only if it is not bound yet.
* `Table.erase` unbinds a key.

The look-up after each of them is given by `get?_insert`, `get?_insertNew` and `get?_erase`.
-/

namespace VersionedMemory

variable {κ α : Type} [DecidableEq κ]

/-- Bindings of keys to entries, no key bound twice, oldest key first. -/
structure Table (κ α : Type) where
  entries : List (κ × α)
  nodup_keys : (entries.map Prod.fst).Nodup

namespace Table

/-- Bind `k` in a list of bindings: in place where `k` occurs, else at the end. -/
def bindIn (k : κ) (a : α) : List (κ × α) → List (κ × α)
  | [] => [(k, a)]
  | (j, b) :: rest => if j = k then (k, a) :: rest else (j, b) :: bindIn k a rest

theorem keys_bindIn (k : κ) (a : α) (l : List (κ × α)) :
    (bindIn k a l).map Prod.fst =
      if k ∈ l.map Prod.fst then l.map Prod.fst else l.map Prod.fst ++ [k] := by
  induction l with
  | nil => simp [bindIn]
  | cons e rest ih =>
    obtain ⟨j, b⟩ := e
    by_cases h : j = k
    · simp [bindIn, h]
    · by_cases hk : k ∈ rest.map Prod.fst <;>
        simp_all [bindIn, Ne.symm h]

theorem nodup_bindIn (k : κ) (a : α) {l : List (κ × α)} (h : (l.map Prod.fst).Nodup) :
    ((bindIn k a l).map Prod.fst).Nodup := by
  rw [keys_bindIn]
  split
  · exact h
  · next hk => simpa [List.nodup_append, h] using fun x y hy e => hk (by simpa using ⟨y, e ▸ hy⟩)

def empty : Table κ α := ⟨[], List.nodup_nil⟩

instance : EmptyCollection (Table κ α) := ⟨empty⟩
instance : Inhabited (Table κ α) := ⟨empty⟩

def get? (t : Table κ α) (k : κ) : Option α := (t.entries.find? (·.1 = k)).map Prod.snd

def contains (t : Table κ α) (k : κ) : Bool := (t.get? k).isSome

/-- Bind `k` to `a`, replacing what it was bound to. -/
def insert (t : Table κ α) (k : κ) (a : α) : Table κ α :=
  ⟨bindIn k a t.entries, nodup_bindIn k a t.nodup_keys⟩

/-- Bind `k` to `a` unless it is bound already: the first binding wins. -/
def insertNew (t : Table κ α) (k : κ) (a : α) : Table κ α :=
  if t.contains k then t else t.insert k a

def erase (t : Table κ α) (k : κ) : Table κ α :=
  ⟨t.entries.filter (·.1 ≠ k), t.nodup_keys.sublist (List.filter_sublist.map Prod.fst)⟩

/-- The bound keys, oldest first. -/
def keys (t : Table κ α) : List κ := t.entries.map Prod.fst

def values (t : Table κ α) : List α := t.entries.map Prod.snd

def size (t : Table κ α) : Nat := t.entries.length

def isEmpty (t : Table κ α) : Bool := t.entries.isEmpty

omit [DecidableEq κ] in
@[ext] theorem ext {t u : Table κ α} (h : t.entries = u.entries) : t = u := by
  cases t; cases u; simp_all

@[simp] theorem get?_empty (k : κ) : (∅ : Table κ α).get? k = none := rfl

omit [DecidableEq κ] in
@[simp] theorem entries_empty : (∅ : Table κ α).entries = [] := rfl

theorem find?_bindIn (k : κ) (a : α) (l : List (κ × α)) (j : κ) :
    ((bindIn k a l).find? (·.1 = j)).map Prod.snd =
      if j = k then some a else (l.find? (·.1 = j)).map Prod.snd := by
  induction l with
  | nil => by_cases h : j = k <;> simp [bindIn, h, eq_comm]
  | cons e rest ih =>
    obtain ⟨i, b⟩ := e
    by_cases hi : i = k
    · subst hi
      by_cases hj : j = i
      · subst hj; simp [bindIn]
      · simp [bindIn, hj, Ne.symm hj]
    · by_cases hij : i = j
      · subst hij; simp [bindIn, hi]
      · simp [bindIn, hi, hij, ih]

@[simp] theorem get?_insert (t : Table κ α) (k : κ) (a : α) (j : κ) :
    (t.insert k a).get? j = if j = k then some a else t.get? j :=
  find?_bindIn k a t.entries j

theorem get?_insertNew (t : Table κ α) (k : κ) (a : α) (j : κ) :
    (t.insertNew k a).get? j = if j = k then some ((t.get? k).getD a) else t.get? j := by
  unfold insertNew contains
  by_cases h : j = k
  · subst h
    cases ht : t.get? j <;> simp [ht]
  · cases ht : t.get? k <;> simp [h]

@[simp] theorem get?_erase (t : Table κ α) (k j : κ) :
    (t.erase k).get? j = if j = k then none else t.get? j := by
  unfold get? erase
  by_cases h : j = k
  · subst h
    simp
  · simp only [h, if_false]
    congr 1
    induction t.entries with
    | nil => rfl
    | cons e rest ih =>
      by_cases he : e.1 = k
      · have : e.1 ≠ j := fun e' => h (e' ▸ he)
        simp_all
      · by_cases hj : e.1 = j <;> simp_all

theorem get?_eq_some_iff {t : Table κ α} {k : κ} {a : α} :
    t.get? k = some a ↔ (k, a) ∈ t.entries := by
  obtain ⟨l, hl⟩ := t
  unfold get?
  induction l with
  | nil => simp
  | cons e rest ih =>
    obtain ⟨j, b⟩ := e
    have hl' := List.nodup_cons.1 hl
    by_cases h : j = k
    · subst h
      have hn : ∀ x, (j, x) ∉ rest := fun x hx => hl'.1 (List.mem_map.2 ⟨_, hx, rfl⟩)
      simp [hn, eq_comm]
    · simpa [h, Ne.symm h] using ih hl'.2

theorem filter_entries (t : Table κ α) (k : κ) :
    t.entries.filter (·.1 = k) = ((t.get? k).map (k, ·)).toList := by
  obtain ⟨l, hl⟩ := t
  unfold get?
  induction l with
  | nil => rfl
  | cons e rest ih =>
    obtain ⟨j, b⟩ := e
    obtain ⟨hj, hrest⟩ := List.nodup_cons.1 hl
    by_cases h : j = k
    · subst h
      have hn : rest.filter (·.1 = j) = [] :=
        List.filter_eq_nil_iff.2 fun x hx he => hj (List.mem_map.2 ⟨x, hx, by simpa using he⟩)
      simp [hn]
    · simpa [h] using ih hrest

theorem erase_of_get?_eq_none {t : Table κ α} {k : κ} (h : t.get? k = none) : t.erase k = t := by
  refine ext (List.filter_eq_self.2 fun e he => ?_)
  have hne : e.1 ≠ k := fun hk => by
    rw [get?_eq_some_iff.2 (hk ▸ he : (k, e.2) ∈ t.entries)] at h
    cases h
  simpa using hne

theorem map_snd_bindIn (k : κ) (a : α) {l : List (κ × α)} (h : (l.map Prod.fst).Nodup) :
    ((bindIn k a l).map Prod.snd).Perm (a :: (l.filter (·.1 ≠ k)).map Prod.snd) := by
  induction l with
  | nil => exact .refl _
  | cons e rest ih =>
    obtain ⟨j, b⟩ := e
    obtain ⟨hj, hrest⟩ := List.nodup_cons.1 h
    by_cases hk : j = k
    · subst hk
      have hn : rest.filter (·.1 ≠ j) = rest :=
        List.filter_eq_self.2 fun x hx => by
          simpa using fun he => hj (List.mem_map.2 ⟨x, hx, he⟩)
      rw [List.filter_cons_of_neg (by simp), hn]
      simp [bindIn]
    · simp only [bindIn, hk, if_false, List.map_cons]
      refine ((ih hrest).cons b).trans ?_
      simpa [hk] using List.Perm.swap ..

/-- Binding a key leaves its entry and those of the other keys. -/
theorem values_insert_perm (t : Table κ α) (k : κ) (a : α) :
    (t.insert k a).values.Perm (a :: (t.erase k).values) :=
  map_snd_bindIn k a t.nodup_keys

theorem values_insert_of_none {t : Table κ α} {k : κ} (h : t.get? k = none) (a : α) :
    (t.insert k a).values.Perm (a :: t.values) := by
  simpa [erase_of_get?_eq_none h] using t.values_insert_perm k a

/-- An entry and those of the other keys are all. -/
theorem values_perm_erase {t : Table κ α} {k : κ} {a : α} (h : t.get? k = some a) :
    t.values.Perm (a :: (t.erase k).values) := by
  have hi : t.insert k a = t := by
    obtain ⟨l, hl⟩ := t
    refine ext ?_
    unfold insert get? at *
    dsimp only at *
    clear hl
    induction l with
    | nil => cases h
    | cons e rest ih =>
      obtain ⟨j, b⟩ := e
      by_cases hj : j = k
      · subst hj
        simp at h
        simp [bindIn, h]
      · simp only [bindIn, hj, if_false]
        rw [ih (by simpa [hj] using h)]
  have hp := t.values_insert_perm k a
  rwa [hi] at hp

theorem mem_values {t : Table κ α} {a : α} : a ∈ t.values ↔ ∃ k, t.get? k = some a := by
  simp only [values, List.mem_map, get?_eq_some_iff]
  exact ⟨fun ⟨⟨k, _⟩, h, e⟩ => ⟨k, e ▸ h⟩, fun ⟨k, h⟩ => ⟨(k, a), h, rfl⟩⟩

theorem mem_values_insert {t : Table κ α} {k : κ} {a b : α} (h : b ∈ (t.insert k a).values) :
    b = a ∨ b ∈ t.values := by
  simp only [mem_values, get?_insert] at h ⊢
  obtain ⟨j, hj⟩ := h
  split at hj
  · exact .inl (Option.some.inj hj).symm
  · exact .inr ⟨j, hj⟩

theorem values_eq_nil_iff {t : Table κ α} : t.values = [] ↔ ∀ k, t.get? k = none := by
  simp only [List.eq_nil_iff_forall_not_mem, mem_values, Option.eq_none_iff_forall_ne_some]
  exact ⟨fun h k a hk => h a ⟨k, hk⟩, fun h a ⟨k, hk⟩ => h k a hk⟩

theorem mem_keys {t : Table κ α} {k : κ} : k ∈ t.keys ↔ t.contains k = true := by
  unfold contains keys
  cases h : t.get? k with
  | some a =>
    simp only [Option.isSome_some, iff_true]
    exact List.mem_map.2 ⟨_, get?_eq_some_iff.1 h, rfl⟩
  | none =>
    simp only [Option.isSome_none, Bool.false_eq_true, iff_false]
    intro hk
    obtain ⟨⟨j, a⟩, he, rfl⟩ := List.mem_map.1 hk
    rw [get?_eq_some_iff.2 he] at h
    cases h

end Table

end VersionedMemory
