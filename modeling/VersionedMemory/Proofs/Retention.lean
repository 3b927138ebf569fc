import Mathlib.Algebra.BigOperators.Group.Finset.Piecewise
import VersionedMemory.Proofs.PassCounts
import VersionedMemory.Proofs.Refusals
import VersionedMemory.Proofs.TypedBuffers

/-!
# How many values are retained

All the values that the cells of a store retain, counted together. A new cell adds one value, a
commit adds one to each cell that it changes, and a reclamation pass takes off what it counts.

## Main definitions

* `Store.retained` is the number of values that the cells retain.
* `Store.Bare` says that the cells that were not created hold nothing but their blank.

## Main statements

* `Store.retained_create`, `Store.retained_publishing` and `World.retained_reclaim`: what each of
  the three does to the number.
-/

namespace VersionedMemory

variable {V : Type}

theorem Chain.discarded_of_older {c : Chain V} (h : c.older = []) (floor : Version) :
    c.discarded floor = 0 := by
  have hcompact : c.compact floor = c := by
    obtain ⟨head, older⟩ := c
    obtain rfl : older = [] := h
    unfold compact
    split <;> rfl
  simp [discarded, hcompact]

theorem Chain.size_advance {c : Chain V} {version : Version} (h : c.head.version < version)
    (f : V → V) : (c.advance version f).size = c.size + 1 := by
  simp [size, records_advance h]

variable [Inhabited V]

namespace Store

variable {s t : Store V}

/-- All values that the cells retain. -/
def retained (s : Store V) : Nat := ∑ i ∈ Finset.range s.created, (s.cell ⟨i + 1⟩).chain.size

/-- The cells that were not created hold one value, the blank. -/
def Bare (s : Store V) : Prop := ∀ c, ¬ s.Has c → (s.cell c).chain.older = []

omit [Inhabited V] in
/-- Summing over some of the cells is summing over all cells what belongs to these. -/
theorem sum_range_ite (s : Store V) {cells : List CellId} (hn : cells.Nodup) (f : CellId → Nat)
    (hf : ∀ c ∈ cells, ¬ s.Has c → f c = 0) :
    (∑ i ∈ Finset.range s.created, if (⟨i + 1⟩ : CellId) ∈ cells then f ⟨i + 1⟩ else 0) =
      (cells.map f).sum := by
  induction cells with
  | nil => simp
  | cons c rest ih =>
    obtain ⟨hc, hrest⟩ := List.nodup_cons.1 hn
    obtain ⟨hfc, hfrest⟩ := List.forall_mem_cons.1 hf
    have hone :
        (∑ i ∈ Finset.range s.created, if (⟨i + 1⟩ : CellId) = c then f c else 0) = f c := by
      by_cases hhas : s.Has c
      · obtain ⟨n⟩ := c
        obtain ⟨hpos, hle⟩ := hhas
        dsimp only at hpos hle
        rw [Finset.sum_eq_single (n - 1)]
        · rw [if_pos (by rw [Nat.sub_add_cancel hpos])]
        · intro i _ hne
          rw [if_neg]
          rintro ⟨⟩
          exact hne (by simp)
        · intro hnot
          exact absurd (Finset.mem_range.2 (by omega)) hnot
      · rw [hfc hhas]
        simp
    have hsplit : ∀ i, (if (⟨i + 1⟩ : CellId) ∈ c :: rest then f ⟨i + 1⟩ else 0) =
        (if (⟨i + 1⟩ : CellId) = c then f c else 0) +
          if (⟨i + 1⟩ : CellId) ∈ rest then f ⟨i + 1⟩ else 0 := by
      intro i
      by_cases hi : (⟨i + 1⟩ : CellId) = c
      · simp [hi, hc]
      · simp [hi]
    simp only [hsplit, Finset.sum_add_distrib, hone, ih hrest hfrest, List.map_cons, List.sum_cons]

theorem retained_congr (hc : t.created = s.created)
    (h : ∀ c, (t.cell c).chain.size = (s.cell c).chain.size) : t.retained = s.retained := by
  unfold retained
  rw [hc]
  exact Finset.sum_congr rfl fun i _ => h _

theorem Bare.congr (h : s.Bare) (hc : t.created = s.created)
    (hcell : ∀ c, ¬ s.Has c → (t.cell c).chain = (s.cell c).chain) : t.Bare := by
  intro c hn
  have hn' : ¬ s.Has c := by simpa only [Has, hc] using hn
  rw [hcell c hn']
  exact h c hn'

/-- A new cell retains its first value. -/
theorem retained_create (s : Store V) (type : ContentType) (value : V) :
    (s.create type value).2.retained = s.retained + 1 := by
  unfold retained
  rw [created_create, Finset.sum_range_succ]
  congr 1
  · refine Finset.sum_congr rfl fun i hi => ?_
    have hne : (⟨i + 1⟩ : CellId) ≠ ⟨s.created + 1⟩ := fun he => by
      cases he
      exact Finset.notMem_range_self hi
    rw [cell_create, if_neg hne]
  · rw [cell_create, if_pos rfl]
    rfl

theorem Bare.create (h : s.Bare) (type : ContentType) (value : V) :
    (s.create type value).2.Bare := by
  intro c hn
  rw [has_create, not_or] at hn
  rw [cell_create, if_neg hn.2]
  exact h c hn.1

end Store

/-- Plain changes of cells that are there change cells that are there. -/
theorem Context.Within.has_of_changes {D : Discipline V} {s : Store V} {x : Context V}
    (hx : x.Within (D.on s)) {c : CellId} (hc : x.Changes c) : s.Has c := by
  rcases hc with hc | hc <;> obtain ⟨a, ha⟩ := Option.isSome_iff_exists.1 hc
  · exact (hx.writes c a ha).2.1
  · exact (hx.deltas c a ha).2.1

namespace Store

variable {s : Store V} {x : Context V} {version : Version}

/-- A commit adds a value to each cell that it changes, be it written, put to or both. -/
theorem retained_publishing (hx : x.Within ((Discipline.plain V).on s)) (hs : s.Mirrored)
    (ha : aheadOf? version x.changes s = none) :
    (s.publishing version x.changes).retained = s.retained + x.written.dedup.length := by
  have hplain := hx.mono (Discipline.on_within _ _)
  have hwritten : ∀ c, c ∈ x.written.dedup ↔ x.Changes c := fun c => by
    rw [List.mem_dedup, Context.mem_written]
  have hsize : ∀ c, ((s.publishing version x.changes).cell c).chain.size =
      (s.cell c).chain.size + if c ∈ x.written.dedup then 1 else 0 := by
    intro c
    rw [hplain.cell_publishing]
    by_cases hc : x.Changes c
    · rw [if_pos hc, if_pos ((hwritten c).2 hc)]
      exact Chain.size_advance (hc.behind hplain hs ha) _
    · rw [if_neg hc, if_neg fun hm => hc ((hwritten c).1 hm), Nat.add_zero]
  have hcount := s.sum_range_ite x.written.nodup_dedup (fun _ => 1)
    fun c hc hn => absurd (hx.has_of_changes ((hwritten c).1 hc)) hn
  unfold retained
  rw [created_publishing]
  simp only [hsize, Finset.sum_add_distrib, hcount]
  simp

theorem Bare.publishing (h : s.Bare) (hx : x.Within ((Discipline.plain V).on s)) :
    (s.publishing version x.changes).Bare := by
  refine h.congr (created_publishing ..) fun c hn => ?_
  have hplain := hx.mono (Discipline.on_within _ _)
  rw [hplain.cell_publishing, if_neg fun hc => hn (hx.has_of_changes hc)]

end Store

namespace World

variable {w : World V}

/-- A pass takes off the values that it counts. -/
theorem retained_reclaim (h : w.store.Bare) (e : EngineId) :
    (w.reclaim e).2.store.retained + (w.passed e).versions = w.store.retained := by
  have hcount := w.store.sum_range_ite (w.nodup_passing e)
    (fun c => (w.store.cell c).chain.discarded (w.engine e).timeline.retire.2.floor)
    fun c _ hn => Chain.discarded_of_older (h c hn) _
  unfold Store.retained passed
  rw [created_reclaim]
  dsimp only
  rw [← hcount, ← Finset.sum_add_distrib]
  refine Finset.sum_congr rfl fun i _ => ?_
  rw [cell_reclaim]
  split
  · exact Chain.size_compact_add_discarded _ _
  · rfl

theorem bare_reclaim (h : w.store.Bare) (e : EngineId) : (w.reclaim e).2.store.Bare := by
  intro c hn
  have hold := h c (by simpa only [Store.Has, created_reclaim] using hn)
  rw [cell_reclaim]
  split
  · unfold Cell.compact Chain.compact
    split
    · rfl
    · simp [hold, Chain.keepTo]
  · exact hold

end World

end VersionedMemory
