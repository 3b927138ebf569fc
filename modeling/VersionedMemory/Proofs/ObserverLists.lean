import Mathlib.Data.List.Count
import VersionedMemory.Proofs.Refusals
import VersionedMemory.Proofs.Turns

/-!
# What the observer is shown

A commit with something to publish is shown once, before anything else is decided. The list names
the cells that the commit is going to change, and no others: first the written ones, then those that
were put to. Each part names a cell once. So a cell that was both written and put to is on the list
twice, and twice in the number of writes that the receipt reports, though it gains one version.

## Main statements

* `Context.count_written`: how often a cell is on the list.
* `Context.nodup_written_iff`: when no cell is on it twice.
* `commit_shown`: a commit is shown once, with a list that names the cells that it changes; a veto
  publishes nothing; and a transaction with nothing buffered is not shown.
-/

namespace VersionedMemory

variable {V : Type}

namespace Context

variable {x : Context V} {c : CellId}

/-- A cell is listed once if it is written, and once if it is put to. -/
theorem count_written (x : Context V) (c : CellId) :
    x.written.count c =
      (if x.writes.contains c then 1 else 0) + if x.deltas.contains c then 1 else 0 := by
  have hcount : ∀ ws : WriteSet V, (Table.keys ws).count c = if ws.contains c then 1 else 0 := by
    intro ws
    rw [List.Nodup.count (show (Table.keys ws).Nodup from ws.nodup_keys)]
    simp [Table.mem_keys]
  rw [written, List.count_append, hcount, hcount]

/-- No cell is listed twice if none is both written and put to. -/
theorem nodup_written_iff :
    x.written.Nodup ↔ ∀ c, ¬ (x.writes.contains c = true ∧ x.deltas.contains c = true) := by
  rw [List.nodup_iff_count_le_one]
  refine forall_congr' fun c => ?_
  rw [count_written]
  cases x.writes.contains c <;> cases x.deltas.contains c <;> simp

end Context

variable [Inhabited V]

namespace World

variable {w : World V} {x : Context V}

/-- The inline reclamation pass that may follow a commit shows nothing and publishes nothing. -/
theorem commit_decided (ha : x.isActive = true) (ht : x.isChild = false) :
    ((w.commit x).2.engine x.engine).journal = ((w.decided x).engine x.engine).journal ∧
      ((w.commit x).2.engine x.engine).version = ((w.decided x).engine x.engine).version ∧
      ∀ c, (w.commit x).2.store.latest c = (w.decided x).store.latest c := by
  rcases (w.commit_eq ha ht).2 with hw | ⟨receipt, -, -, hw⟩
  · rw [hw]
    exact ⟨rfl, rfl, fun _ => rfl⟩
  · have hv := (commit_newest (w := w) ha ht).1
    rw [← w.engine_decided x] at hv
    refine ⟨?_, hv, fun c => ?_⟩
    · rw [hw]
      simp [reclaimHolding, reclaim, engine, setEngine, Engine.reclaim, decided]
    · rw [hw]
      unfold Store.latest
      change ((compactAll _ _ (w.decided x).store).2.cell c).latest = _
      rw [cell_compactAll]
      split <;> rfl

end World

/-- A commit is shown to the observer once, if there is anything to publish. The list names just the
cells that gain a version if the commit goes through, those that are both written and put to twice,
and the receipt counts its entries. A veto publishes nothing, and a commit with nothing buffered is
not shown. -/
theorem commit_shown {w : World V} {x : Context V} (hw : w.store.Arises) (hx : x.Ordinary)
    (ha : x.isActive = true) (ht : x.isChild = false) :
    let g := w.engine x.engine
    let g' := (w.commit x).2.engine x.engine
    (x.changes = [] →
        (w.commit x).1 = .ok ⟨x.id, x.snapshot, 0, true⟩ ∧ g'.journal = g.journal) ∧
      (x.changes ≠ [] →
        g'.journal = { g.journal with commits := g.journal.commits ++ [(x.id, x.written)] } ∧
          (∀ c, x.written.count c =
            (if x.writes.contains c then 1 else 0) + if x.deltas.contains c then 1 else 0) ∧
          (∀ reason, (g.hooks.observer.bind fun refuse => refuse x.id x.written) = some reason →
            (w.commit x).1 = .error (.conflict x.id (.vetoed reason)) ∧
              g'.version = g.version ∧
              ∀ c, (w.commit x).2.store.latest c = w.store.latest c) ∧
          ∀ r, (w.commit x).1 = .ok r →
            r.writes = x.written.length ∧
              ∀ c, c ∈ x.written ↔ w.store.latest c < (w.commit x).2.store.latest c) := by
  intro g g'
  have hm := hw.mirrored
  have hkind : x.kind = none := by simpa [Context.isChild] using ht
  have hres := (w.commit_eq ha ht).1
  obtain ⟨hj, hv, hlatest⟩ := World.commit_decided (w := w) ha ht
  rw [w.engine_decided] at hj hv
  simp only [w.store_decided] at hlatest
  refine ⟨fun hbare => ?_, fun hne => ⟨?_, x.count_written, fun reason hveto => ?_, fun r hr => ?_⟩⟩
  · have hdone := g.commit_of_bare hbare w.store
    exact ⟨hres.trans (congrArg Engine.Committed.result hdone),
      hj.trans (congrArg (·.engine.journal) hdone)⟩
  · refine hj.trans ?_
    cases hrefusal : g.refusal? x w.store with
    | some e =>
      rw [(Engine.commit_of_refusal hne hkind hrefusal).2.2]
      rfl
    | none =>
      rw [Engine.commit_of_accepted hm hx.within hne hrefusal]
      rfl
  · have hrefusal : g.refusal? x w.store = some (.conflict x.id (.vetoed reason)) := by
      unfold Engine.refusal?
      rw [hveto]
    obtain ⟨hr, hs, hg⟩ := Engine.commit_of_refusal hne hkind hrefusal
    refine ⟨hres.trans hr, hv.trans ?_, fun c => (hlatest c).trans (by rw [hs])⟩
    rw [hg]
    exact Timeline.version_head_leave _ _
  · have hrefusal : g.refusal? x w.store = none := by
      refine Option.eq_none_iff_forall_ne_some.2 fun e he => ?_
      have herr := (Engine.commit_of_refusal hne hkind he).1
      cases (hres.symm.trans hr).symm.trans herr
    have hdone := Engine.commit_of_accepted hm hx.within hne hrefusal
    have hok := congrArg Engine.Committed.result hdone
    cases hok.symm.trans (hres.symm.trans hr)
    obtain ⟨-, -, hbehind, -⟩ := Engine.commit_ok hm hx.within hok rfl
    refine ⟨rfl, fun c => ?_⟩
    rw [hlatest, hdone, Context.mem_written]
    have hcell := hx.within.cell_publishing w.store (g.version + 1) c
    unfold Store.latest
    rw [hcell]
    by_cases hc : x.Changes c
    · rw [if_pos hc]
      have hold := hc.behind hx.within hm hbehind
      rw [← hm] at hold
      exact iff_of_true hc hold
    · rw [if_neg hc]
      exact iff_of_false hc (Nat.lt_irrefl _)

/-- A cell that is written and put to in one transaction gains one version, but it is shown twice
and counted twice. -/
theorem shown_twice :
    let w : World Nat := ((World.create [Engine.create]).createCell 0 0 5).2
    let p : Program Nat Unit := .write ⟨1⟩ 7 fun _ => .put ⟨⟨1⟩, (· + ·)⟩ 3 fun _ => .done ()
    let x := (p.run.run ⟨.begin ⟨1⟩ 0 ⟨0, 0⟩ .readWrite, ⟨w, ()⟩⟩).2.context
    (w.commit x).1 = .ok ⟨⟨1⟩, 1, 2, false⟩ ∧
      ((w.commit x).2.engine 0).journal.commits = [(⟨1⟩, [⟨1⟩, ⟨1⟩])] ∧
      ((w.commit x).2.store.cell ⟨1⟩).chain.records = [⟨1, 10⟩, ⟨0, 5⟩] := by
  decide +kernel

end VersionedMemory
