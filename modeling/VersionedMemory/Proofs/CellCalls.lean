import Mathlib.Data.List.Nodup
import VersionedMemory.Proofs.RetainedHistory

/-!
# What calls make of a cell

Values are published in a cell, and given up, by calls that may name any version and any floor.
Validation looks only at the version beside the chain, publication only at the chain; so every call
has to keep the two equal, also one that is refused. A call that is refused leaves the cell. One
that publishes puts a new head on the chain, or a new value into the head, and compaction keeps the
head.

## Main definitions

* `Cell.Call` is a call, and `Cell.perform` carries it out.
* `Cell.Consistent` says that the versions of a chain increase up to the one kept beside it.
* `Cell.KeepsHistory` is what a cell answers, with the chain as its history.

## Main statements

* `Cell.Consistent.readAt_eq_ok_iff` and `Cell.readAt_eq_error_iff`: what a snapshot sees.
* `Cell.Consistent.assign_eq` and `Cell.Consistent.update_eq`: the version beside the chain settles
  what publishing does.
* `Cell.Consistent.perform`: every call keeps a cell consistent.
* `Cell.history_of_calls`: all of this, after any calls on a new cell.
-/

namespace VersionedMemory

variable {V : Type}

namespace Chain

variable {c : Chain V} {snapshot : Version} {r : Record V}

theorem Increasing.nodup_versions (h : c.Increasing) : c.versions.Nodup :=
  List.Pairwise.map Record.version (fun _ _ hlt he => Nat.ne_of_lt hlt he.symm) h

/-- A snapshot sees the newest record that is not newer than itself. -/
theorem Increasing.asOf_eq_some_iff (h : c.Increasing) :
    c.asOf snapshot = some r ↔ r.IsNewest c.records snapshot := by
  refine ⟨isNewest_of_newestAt h, fun hr => ?_⟩
  cases ha : c.asOf snapshot with
  | none => exact absurd hr.version_le (by simpa using List.find?_eq_none.1 ha r hr.mem)
  | some r' =>
    have hr' : r'.IsNewest c.records snapshot := isNewest_of_newestAt h ha
    have hv : r'.version = r.version := Nat.le_antisymm
      (hr.newest r' hr'.mem hr'.version_le) (hr'.newest r hr.mem hr.version_le)
    rw [List.inj_on_of_nodup_map h.nodup_versions hr'.mem hr.mem hv]

theorem asOf_eq_none_iff : c.asOf snapshot = none ↔ ∀ r ∈ c.records, snapshot < r.version := by
  simp [asOf, List.find?_eq_none]

end Chain

namespace Cell

/-- A call that publishes in a cell, or gives up some of its values. -/
inductive Call (V : Type) where
  | assign (value : V) (version : Version)
  | update (version : Version) (f : V → V)
  | compact (floor : Version)

/-- What becomes of a cell that is given a new form, unless that was refused. Nothing is given
up. -/
def orStay (c : Cell V) : Except Error (Cell V) → Except Error Nat × Cell V
  | .ok d => (.ok 0, d)
  | .error e => (.error e, c)

/-- Carry a call out. The answer is how many values were given up. A cell that refuses the call
stays as it is. -/
def perform (c : Cell V) : Call V → Except Error Nat × Cell V
  | .assign value version => c.orStay (c.assign value version)
  | .update version f => c.orStay (c.update version f)
  | .compact floor => (.ok (c.chain.discarded floor), c.compact floor)

/-- The cell after some calls, whether they were refused or not. -/
def after (c : Cell V) (calls : List (Call V)) : Cell V :=
  calls.foldl (fun c call => (c.perform call).2) c

/-- The cell with one more record, on top of its chain and with its version beside it. -/
def withHead (c : Cell V) (version : Version) (value : V) : Cell V :=
  { c with chain := ⟨⟨version, value⟩, c.chain.records⟩, latest := version }

/-- The versions of the chain increase, up to the one kept beside the chain. -/
structure Consistent (c : Cell V) : Prop where
  increasing : c.chain.Increasing
  latest_eq : c.latest = c.chain.head.version

variable {c d : Cell V} {snapshot version : Version} {r : Record V}

theorem consistent_create (id : CellId) (type : ContentType) (value : V) :
    (create id type value).Consistent :=
  ⟨Chain.increasing_single value genesis, rfl⟩

/-! ### Reads -/

theorem Consistent.readAt_eq_ok_iff (h : c.Consistent) :
    c.readAt snapshot = .ok r ↔ r.IsNewest c.chain.records snapshot := by
  rw [← h.increasing.asOf_eq_some_iff]
  unfold readAt
  cases c.chain.asOf snapshot <;> simp

/-- A read fails only where all that is retained is newer. -/
theorem readAt_eq_error_iff {e : Error} :
    c.readAt snapshot = .error e ↔ (∀ r ∈ c.chain.records, snapshot < r.version) ∧
      e = .internal (.underrun c.id snapshot c.chain.tail.version) := by
  rw [← Chain.asOf_eq_none_iff]
  unfold readAt
  cases c.chain.asOf snapshot <;> simp [eq_comm]

/-! ### Calls -/

/-- The error of a call that names a version which is not new. -/
def refusal (c : Cell V) (version : Version) : Error := .internal (.outOfOrder version c.latest)

namespace Consistent

/-- A value comes on top, if its version is newer than the one beside the chain. -/
theorem assign_eq (h : c.Consistent) (value : V) (version : Version) :
    c.assign value version =
      if c.latest < version then .ok (c.withHead version value)
      else .error (c.refusal version) := by
  unfold assign Chain.push refusal withHead
  rw [h.latest_eq]
  by_cases hv : version ≤ c.chain.head.version
  · simp [hv, Nat.not_lt.2 hv, Except.map]
  · simp [hv, Nat.not_le.1 hv, Except.map]

/-- An updated value comes on top likewise; at the version beside the chain itself, the head takes
it in place. -/
theorem update_eq (h : c.Consistent) (version : Version) (f : V → V) :
    c.update version f =
      if c.latest < version then .ok (c.withHead version (f c.value))
      else if c.latest = version then .ok { c with chain.head.value := f c.value }
      else .error (c.refusal version) := by
  obtain ⟨id, type, chain, latest, handles⟩ := c
  obtain rfl : latest = chain.head.version := h.latest_eq
  unfold update Chain.update Chain.push refusal withHead value
  rcases Nat.lt_trichotomy chain.head.version version with hv | rfl | hv
  · simp [hv, Nat.ne_of_lt hv, Nat.not_le.2 hv, Except.map]
  · simp [Except.map]
  · simp [Nat.ne_of_gt hv, Nat.le_of_lt hv, Nat.lt_asymm hv, Except.map]

theorem perform_assign (h : c.Consistent) (value : V) (version : Version) :
    c.perform (.assign value version) =
      if c.latest < version then (.ok 0, c.withHead version value)
      else (.error (c.refusal version), c) := by
  rw [Cell.perform, h.assign_eq, apply_ite c.orStay]
  rfl

theorem perform_update (h : c.Consistent) (version : Version) (f : V → V) :
    c.perform (.update version f) =
      if c.latest < version then (.ok 0, c.withHead version (f c.value))
      else if c.latest = version then (.ok 0, { c with chain.head.value := f c.value })
      else (.error (c.refusal version), c) := by
  rw [Cell.perform, h.update_eq, apply_ite c.orStay, apply_ite c.orStay]
  rfl

theorem withHead (h : c.Consistent) (hv : c.latest < version) (value : V) :
    (c.withHead version value).Consistent := by
  refine ⟨List.pairwise_cons.2 ⟨fun r hr => ?_, h.increasing⟩, rfl⟩
  exact Nat.lt_of_le_of_lt (h.increasing.version_le_head hr) (h.latest_eq ▸ hv)

/-- Whether a cell is consistent does not depend on the value of its head. -/
theorem setValue (h : c.Consistent) (value : V) :
    ({ c with chain.head.value := value } : Cell V).Consistent :=
  ⟨List.pairwise_cons.2 (List.pairwise_cons.1 h.increasing), h.latest_eq⟩

theorem compact (h : c.Consistent) (floor : Version) : (c.compact floor).Consistent :=
  ⟨h.increasing.compact floor, h.latest_eq.trans (by rw [Cell.compact, Chain.head_compact])⟩

/-- Every call keeps a cell consistent, also one that is refused. -/
theorem perform (h : c.Consistent) (call : Call V) : (c.perform call).2.Consistent := by
  cases call with
  | assign value version =>
    rw [h.perform_assign]
    split
    · next hv => exact h.withHead hv value
    · exact h
  | update version f =>
    rw [h.perform_update]
    split
    · next hv => exact h.withHead hv _
    · split
      · exact h.setValue _
      · exact h
  | compact floor => exact h.compact floor

theorem after (h : c.Consistent) (calls : List (Call V)) : (c.after calls).Consistent := by
  induction calls generalizing c with
  | nil => exact h
  | cons call rest ih => exact ih (h.perform call)

end Consistent

theorem id_perform (c : Cell V) (call : Call V) : (c.perform call).2.id = c.id := by
  have hstay : ∀ (o : Except Error (Chain V)) (version : Version),
      (c.orStay (o.map fun chain => { c with chain, latest := version })).2.id = c.id := by
    rintro (_ | _) _ <;> rfl
  cases call with
  | assign value version => exact hstay (c.chain.push value version) version
  | update version f => exact hstay (c.chain.update version f) version
  | compact floor => rfl

theorem id_after (c : Cell V) (calls : List (Call V)) : (c.after calls).id = c.id := by
  induction calls generalizing c with
  | nil => rfl
  | cons call rest ih => exact (ih _).trans (c.id_perform call)

/-- The versions of the chain increase up to the one kept beside it. A snapshot sees the newest
record that is not newer than itself, and fails only where all are. -/
structure KeepsHistory (id : CellId) (c : Cell V) : Prop where
  nonempty : c.chain.records ≠ []
  increasing : c.chain.Increasing
  latest : c.latest = c.chain.head.version
  readAt_ok : ∀ s r, c.readAt s = .ok r ↔ r.IsNewest c.chain.records s
  readAt_error : ∀ s e, c.readAt s = .error e ↔ (∀ r ∈ c.chain.records, s < r.version) ∧
    e = .internal (.underrun id s c.chain.tail.version)
  /-- A value is put on top, or it is refused and the cell stays as it is. -/
  assign : ∀ value version, c.perform (.assign value version) =
    if c.latest < version then (.ok 0, c.withHead version value)
    else (.error (.internal (.outOfOrder version c.latest)), c)
  /-- An update at the very version beside the chain changes the newest value. -/
  update : ∀ version f, c.perform (.update version f) =
    if c.latest < version then (.ok 0, c.withHead version (f c.value))
    else if c.latest = version then (.ok 0, { c with chain.head.value := f c.value })
    else (.error (.internal (.outOfOrder version c.latest)), c)

/-- After any calls on a new cell, refused ones included, the chain is the history of the cell. -/
theorem history_of_calls (id : CellId) (type : ContentType) (initial : V) (calls : List (Call V)) :
    ((create id type initial).after calls).KeepsHistory id := by
  have h : ((create id type initial).after calls).Consistent :=
    (consistent_create id type initial).after calls
  refine ⟨List.cons_ne_nil _ _, h.increasing, h.latest_eq, fun _ _ => h.readAt_eq_ok_iff,
    fun s e => ?_, h.perform_assign, h.perform_update⟩
  rw [readAt_eq_error_iff, id_after]
  rfl

example : ((create ⟨1⟩ 0 4).after
    [.assign 5 3, .update 3 (· + 2), .assign 9 2, .compact 3]).chain.records = [⟨3, 7⟩] := by
  decide

end Cell

end VersionedMemory
