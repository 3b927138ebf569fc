import Mathlib.Algebra.BigOperators.Group.List.Basic
import Mathlib.Algebra.GroupWithZero.Nat
import VersionedMemory.Proofs.Turns

/-!
# What a reclamation pass counts

A pass compacts each cell that the retired marks list once, however many of them list it. So it
counts for each cell what the cell gives up, and in whatever order it goes through the cells, it
leaves the same cells and counts the same.

## Main definitions

* `World.passing` is the cells that a pass of an engine compacts, `World.passed` is what it counts.

## Main statements

* `fst_compactAll`: the count of a pass is the sum of what its cells give up.
* `World.cell_reclaim` and `World.engine_reclaim`: what a pass leaves, cell by cell.
-/

namespace VersionedMemory

variable {V : Type}

theorem nodup_eraseDups {α : Type} [DecidableEq α] (l : List α) : l.eraseDups.Nodup := by
  match l with
  | [] => exact List.nodup_nil
  | a :: rest =>
    rw [List.eraseDups_cons, List.nodup_cons]
    refine ⟨fun h => ?_, nodup_eraseDups _⟩
    simpa using (List.mem_filter.1 (List.mem_eraseDups.1 h)).2
termination_by l.length
decreasing_by exact Nat.lt_succ_of_le (List.length_filter_le ..)

theorem nodup_changedBy (marks : List Mark) : (changedBy marks).Nodup :=
  nodup_eraseDups _

theorem mem_changedBy {marks : List Mark} {c : CellId} :
    c ∈ changedBy marks ↔ ∃ m ∈ marks, c ∈ m.written := by
  simp [changedBy]

variable [Inhabited V]

theorem Store.cell_compact (s : Store V) (c : CellId) (floor : Version) (d : CellId) :
    (s.compact c floor).cell d = if d = c then (s.cell d).compact floor else s.cell d := by
  have h := cell_compactAll floor [c] s d
  simpa [compactAll] using h

/-- Each cell is counted with what it gives up. -/
theorem fst_compactAll (floor : Version) {cells : List CellId} (h : cells.Nodup) (s : Store V) :
    (compactAll floor cells s).1 =
      (cells.map fun c => (s.cell c).chain.discarded floor).sum := by
  induction cells generalizing s with
  | nil => rfl
  | cons c rest ih =>
    obtain ⟨hc, hrest⟩ := List.nodup_cons.1 h
    have hother : ∀ d ∈ rest, (s.compact c floor).cell d = s.cell d := by
      intro d hd
      have hne : d ≠ c := fun he => hc (he ▸ hd)
      rw [Store.cell_compact, if_neg hne]
    have hcount : (rest.map fun d => ((s.compact c floor).cell d).chain.discarded floor) =
        rest.map fun d => (s.cell d).chain.discarded floor :=
      List.map_congr_left fun d hd => by rw [hother d hd]
    calc (compactAll floor (c :: rest) s).1
        = (compactAll floor rest (s.compact c floor)).1 + (s.cell c).chain.discarded floor := rfl
      _ = (rest.map fun d => (s.cell d).chain.discarded floor).sum +
            (s.cell c).chain.discarded floor := by rw [ih hrest, hcount]
      _ = _ := by rw [Nat.add_comm, List.map_cons, List.sum_cons]

namespace World

variable (w : World V) (e : EngineId)

/-- The cells that a pass compacts: those that are alive among the changed ones. -/
def passing : List CellId := (changedBy (w.engine e).timeline.retire.1).filter w.isLive

/-- What a pass counts. -/
def passed : Reclaimed where
  floor := (w.engine e).timeline.retire.2.floor
  marks := (w.engine e).timeline.retire.1.length
  cells := (w.passing e).length
  versions := ((w.passing e).map fun c =>
    (w.store.cell c).chain.discarded (w.engine e).timeline.retire.2.floor).sum

theorem nodup_passing : (w.passing e).Nodup := (nodup_changedBy _).filter _

theorem fst_reclaim : (w.reclaim e).1 = w.passed e := by
  have hcount := fst_compactAll (w.engine e).timeline.retire.2.floor (w.nodup_passing e) w.store
  unfold passed
  rw [← hcount]
  rfl

theorem created_reclaim : (w.reclaim e).2.store.created = w.store.created :=
  created_compactAll ..

theorem cell_reclaim (c : CellId) :
    (w.reclaim e).2.store.cell c =
      if c ∈ w.passing e then
        (w.store.cell c).compact (w.engine e).timeline.retire.2.floor
      else w.store.cell c :=
  cell_compactAll ..

theorem engine_reclaim (d : EngineId) :
    (w.reclaim e).2.engine d =
      if d = e then
        { w.engine e with
          timeline := (w.engine e).timeline.retire.2
          metrics.passes := (w.engine e).metrics.passes + 1
          metrics.reclaimed := (w.engine e).metrics.reclaimed + (w.passed e).versions }
      else w.engine d := by
  rw [← fst_reclaim]
  exact engine_setEngine ..

end World

end VersionedMemory
