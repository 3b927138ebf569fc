import Mathlib.Data.List.Forall2
import VersionedMemory.Proofs.PassCounts
import VersionedMemory.Proofs.StrictReading
import VersionedMemory.Proofs.TypedBuffers

/-!
# The same in another order

A read-set, a write-set or a delta-set lists its entries in some order, and so does a mark with the
cells that a commit changed. Contexts, batches, engines and worlds are reorderings of each other if
they are the same but for such orders. What is looked up by key, or asked of all entries together,
is the same for both, and what goes through the entries one after the other comes to reorderings
again: a reclamation pass compacts the same cells, and merging a contribution merges the same
changes.

## Main definitions

* `Table.Reorders` says that two tables have the same entries.
* `Context.Reorders`, `Contribution.Reorders`, `Batch.Reorders`, `Mark.Reorders`,
  `Timeline.Reorders`, `Journal.Reorders`, `Engine.Reorders`, `Store.Reorders` and
  `World.Reorders` say that two of a kind are the same but for the order of entries.

## Main statements

* `Table.reorders_iff`: tables are reorderings of each other if every key is bound alike.
* `Context.Reorders.adopt`, `Batch.Reorders.add` and `Batch.Reorders.addWrites`: merging is the same
  in whatever order the entries come.
* `World.Reorders.reclaim`: a reclamation pass does the same to reorderings.
-/

namespace VersionedMemory

/-! ### Tables -/

namespace Table

variable {κ α : Type} [DecidableEq κ] {t u v : Table κ α}

/-- The same entries, in whatever order. -/
def Reorders (t u : Table κ α) : Prop := t.entries.Perm u.entries

omit [DecidableEq κ] in
theorem nodup_entries (t : Table κ α) : t.entries.Nodup := t.nodup_keys.of_map _

/-- Tables with the same entries are those that bind every key alike. -/
theorem reorders_iff : t.Reorders u ↔ ∀ k, t.get? k = u.get? k := by
  refine (List.perm_ext_iff_of_nodup t.nodup_entries u.nodup_entries).trans
    ⟨fun h k => Option.ext fun a => ?_, fun h e => ?_⟩
  · rw [get?_eq_some_iff, get?_eq_some_iff]
    exact h (k, a)
  · obtain ⟨k, a⟩ := e
    rw [← get?_eq_some_iff, ← get?_eq_some_iff, h]

omit [DecidableEq κ] in
theorem Reorders.refl (t : Table κ α) : t.Reorders t := List.Perm.refl _

theorem Reorders.get? (h : t.Reorders u) (k : κ) : t.get? k = u.get? k := reorders_iff.1 h k

theorem Reorders.contains (h : t.Reorders u) (k : κ) : t.contains k = u.contains k :=
  congrArg Option.isSome (h.get? k)

omit [DecidableEq κ] in
theorem Reorders.keys (h : t.Reorders u) : t.keys.Perm u.keys := h.map _

omit [DecidableEq κ] in
theorem Reorders.values (h : t.Reorders u) : t.values.Perm u.values := h.map _

omit [DecidableEq κ] in
theorem Reorders.isEmpty (h : t.Reorders u) : t.isEmpty = u.isEmpty := by
  rw [Bool.eq_iff_iff, Table.isEmpty, Table.isEmpty, List.isEmpty_iff, List.isEmpty_iff]
  exact ⟨fun ht => (List.perm_nil.1 (ht ▸ h.symm)), fun hu => List.perm_nil.1 (hu ▸ h)⟩

end Table

variable {V : Type}

/-! ### Contexts and batches -/

/-- The same read-set, writes and deltas, and the same cells asked for. -/
structure Contribution.Reorders (e e' : Contribution V) : Prop where
  reads : e.reads.Reorders e'.reads
  asked : ∀ c, c ∈ e.asked ↔ c ∈ e'.asked
  writes : e.writes.Reorders e'.writes
  deltas : e.deltas.Reorders e'.deltas

theorem Contribution.Reorders.hasWrites {e e' : Contribution V} (h : e.Reorders e') :
    e.hasWrites = e'.hasWrites := by
  simp only [Contribution.hasWrites, h.writes.isEmpty, h.deltas.isEmpty]

namespace Context

/-- The same context, but for the order of the entries of its read-set and of its buffers. -/
structure Reorders (x y : Context V) : Prop where
  life : x.life = y.life
  mode : x.mode = y.mode
  enclosing : x.enclosing = y.enclosing
  reads : x.reads.Reorders y.reads
  asked : ∀ c, c ∈ x.asked ↔ c ∈ y.asked
  writes : x.writes.Reorders y.writes
  deltas : x.deltas.Reorders y.deltas
  shared : Option.Rel Table.Reorders x.shared y.shared

variable {x y : Context V} {e e' : Contribution V}

theorem Reorders.refl (x : Context V) : x.Reorders x where
  life := rfl
  mode := rfl
  enclosing := rfl
  reads := .refl _
  asked _ := .rfl
  writes := .refl _
  deltas := .refl _
  shared := by
    cases x.shared with
    | none => exact .none
    | some ws => exact .some (.refl ws)

section

variable (h : x.Reorders y)

include h

theorem Reorders.id : x.id = y.id := congrArg Life.id h.life

theorem Reorders.engine : x.engine = y.engine := congrArg Life.engine h.life

theorem Reorders.anchor : x.anchor = y.anchor := congrArg Life.anchor h.life

theorem Reorders.snapshot : x.snapshot = y.snapshot := congrArg Life.snapshot h.life

theorem Reorders.kind : x.kind = y.kind := congrArg Life.kind h.life

theorem Reorders.status : x.status = y.status := congrArg Life.status h.life

theorem Reorders.isActive : x.isActive = y.isActive := by rw [Context.isActive, h.status]; rfl

theorem Reorders.isChild : x.isChild = y.isChild := congrArg Option.isSome h.kind

theorem Reorders.checkActive : x.checkActive = y.checkActive := by
  simp only [Context.checkActive, h.isActive, h.id, h.status]

theorem Reorders.changes : x.changes.Perm y.changes := h.writes.values.append h.deltas.values

theorem Reorders.written : x.written.Perm y.written := h.writes.keys.append h.deltas.keys

theorem Reorders.shared_cases : (x.shared = none ∧ y.shared = none) ∨
    ∃ ws ws', x.shared = some ws ∧ y.shared = some ws' ∧ ws.Reorders ws' := by
  obtain ⟨-, -, -, -, -, -, -, hs⟩ := h
  generalize x.shared = o, y.shared = o' at hs
  cases hs with
  | none => exact .inl ⟨rfl, rfl⟩
  | some hs => exact .inr ⟨_, _, rfl, rfl, hs⟩

theorem Reorders.buffer : x.buffer.Reorders y.buffer := by
  unfold Context.buffer
  rcases h.shared_cases with ⟨hx, hy⟩ | ⟨ws, ws', hx, hy, hs⟩ <;> rw [hx, hy]
  · exact h.writes
  · exact hs

theorem Reorders.mem_holds (c : CellId) : c ∈ x.holds ↔ c ∈ y.holds := by
  have hs : ((x.shared.map WriteSet.targets).getD []).Perm
      ((y.shared.map WriteSet.targets).getD []) := by
    rcases h.shared_cases with ⟨hx, hy⟩ | ⟨ws, ws', hx, hy, hs⟩ <;> rw [hx, hy]
    exact hs.values.map _
  have hholds : x.holds.Perm y.holds :=
    ((h.reads.keys.append (h.writes.values.map _)).append (h.deltas.values.map _)).append hs
  exact hholds.mem_iff

end

theorem Within.reorders {D : Discipline V} (hx : x.Within D) (h : x.Reorders y) : y.Within D where
  writes c a ha := hx.writes c a ((h.writes.get? c).trans ha)
  deltas c a ha := hx.deltas c a ((h.deltas.get? c).trans ha)
  shared vs hvs c a ha := by
    rcases h.shared_cases with ⟨-, hy⟩ | ⟨ws, ws', hws, hws', hs⟩
    · cases hy.symm.trans hvs
    · cases hws'.symm.trans hvs
      exact hx.shared ws hws c a ((hs.get? c).trans ha)

/-- Two contexts that took over the same are the same, but for the order of entries. -/
theorem Adopted.reorders {x' y' : Context V} (hx : x.Adopted e x') (hy : y.Adopted e' y')
    (h : x.Reorders y) (he : e.Reorders e') : x'.Reorders y' := by
  have hbuffer : x'.buffer.Reorders y'.buffer := Table.reorders_iff.2 fun c => by
    rw [hx.writes, hy.writes, h.buffer.get?, he.writes.get?]
  -- Where writes go to a shared buffer, the own ones stay; where there is none, they go there.
  have hbuffers : x'.writes.Reorders y'.writes ∧ Option.Rel Table.Reorders x'.shared y'.shared := by
    have hsome := hx.shared
    have hsome' := hy.shared
    unfold Context.buffer at hbuffer
    rcases h.shared_cases with ⟨hs, hs'⟩ | ⟨ws, ws', hs, hs', -⟩ <;>
      rw [hs] at hsome <;> rw [hs'] at hsome'
    · have hnone : x'.shared = none :=
        Option.isNone_iff_eq_none.1 (Option.isSome_eq_false_iff.1 hsome)
      have hnone' : y'.shared = none :=
        Option.isNone_iff_eq_none.1 (Option.isSome_eq_false_iff.1 hsome')
      rw [hnone, hnone'] at hbuffer ⊢
      exact ⟨hbuffer, .none⟩
    · obtain ⟨vs, hvs⟩ := Option.isSome_iff_exists.1 hsome
      obtain ⟨vs', hvs'⟩ := Option.isSome_iff_exists.1 hsome'
      rw [hx.own (by rw [hs]; rfl), hy.own (by rw [hs']; rfl)]
      rw [hvs, hvs'] at hbuffer ⊢
      exact ⟨h.writes, .some hbuffer⟩
  refine ⟨?_, ?_, ?_, Table.reorders_iff.2 fun c => ?_, fun c => ?_, hbuffers.1,
    Table.reorders_iff.2 fun c => ?_, hbuffers.2⟩
  · rw [hx.life, hy.life, h.life]
  · rw [hx.mode, hy.mode, he.hasWrites, h.mode]
  · rw [hx.enclosing, hy.enclosing, h.enclosing]
  · rw [hx.reads, hy.reads, h.mode, h.reads.get?, he.reads.get?]
  · rw [hx.asked, hy.asked, h.asked, he.asked, h.isChild]
  · rw [hx.deltas, hy.deltas, h.deltas.get?, he.deltas.get?]

end Context

/-- The same changes merged in, and the same cells changed. -/
structure Batch.Reorders (b b' : Batch V) : Prop where
  merged : b.merged.Reorders b'.merged
  written : ∀ c, c ∈ b.written ↔ c ∈ b'.written

theorem WriteSet.Merges.reorders {ws new ws' new' : WriteSet V} (h : ws.Merges new)
    (hws : ws.Reorders ws') (hnew : new.Reorders new') : ws'.Merges new' :=
  fun c a b ha hb => h c a b ((hws.get? c).trans ha) ((hnew.get? c).trans hb)

section

variable [Inhabited V] {D : Discipline V} {s : Store V} {x y : Context V} {b b' : Batch V}
  {e e' : Contribution V}

/-- Taking over a contribution comes to the same in whatever order its entries and those of the
context come. -/
theorem Context.Reorders.adopt (hD : D.Within (.plain V)) (hx : x.Within (D.on s))
    (he : e.Within (D.on s)) (h : x.Reorders y) (hee : e.Reorders e') :
    (x.adopt e).1 = (y.adopt e').1 ∧ (x.adopt e).2.Reorders (y.adopt e').2 := by
  by_cases hm : e.hasWrites = true → x.mode ≠ .readOnly
  · have hw := merges_writes_on hD hx.buffer he.writes
    have hd := merges_deltas_on hD hx.deltas he.deltas
    have hm' : e'.hasWrites = true → y.mode ≠ .readOnly := by rwa [← hee.hasWrites, ← h.mode]
    obtain ⟨x', hx', hadopted⟩ := exists_adopt_of_merges hw hd hm
    obtain ⟨y', hy', hadopted'⟩ := exists_adopt_of_merges (hw.reorders h.buffer hee.writes)
      (hd.reorders h.deltas hee.deltas) hm'
    rw [hx', hy']
    exact ⟨rfl, hadopted.reorders hadopted' h hee⟩
  · obtain ⟨hwrote, hmode⟩ := Classical.not_imp.1 hm
    have hmode := Classical.not_not.1 hmode
    rw [adopt_of_readOnly hmode hwrote,
      adopt_of_readOnly (h.mode ▸ hmode) (hee.hasWrites ▸ hwrote)]
    refine ⟨?_, h⟩
    simp only [writeRefused, h.id]

/-- Merging a contribution into a batch comes to the same in whatever order the entries of both
come. -/
theorem Batch.Reorders.add (hD : D.Within (.plain V)) (hb : b.merged.Within (D.on s))
    (he : e.Within (D.on s)) (h : b.Reorders b') (hee : e.Reorders e') :
    (b.add e).1 = (b'.add e').1 ∧ (b.add e).2.Reorders (b'.add e').2 := by
  have hw := merges_writes_on hD hb.writes he.writes
  have hd := merges_deltas_on hD hb.deltas he.deltas
  obtain ⟨b₁, hb₁, hj⟩ := exists_add_of_merges hw hd
  obtain ⟨b₁', hb₁', hj'⟩ := exists_add_of_merges (hw.reorders h.merged.writes hee.writes)
    (hd.reorders h.merged.deltas hee.deltas)
  rw [hb₁, hb₁']
  refine ⟨rfl, ⟨Table.reorders_iff.2 fun c => ?_, fun c => ?_, Table.reorders_iff.2 fun c => ?_,
    Table.reorders_iff.2 fun c => ?_⟩, fun c => ?_⟩
  · rw [hj.reads, hj'.reads, h.merged.reads.get?, hee.reads.get?]
  · rw [hj.asked, hj'.asked, h.merged.asked, hee.asked]
  · rw [hj.writes, hj'.writes, h.merged.writes.get?, hee.writes.get?]
  · rw [hj.deltas, hj'.deltas, h.merged.deltas.get?, hee.deltas.get?]
  · rw [hj.written, hj'.written, h.written, hee.writes.contains, hee.deltas.contains]

/-- Merging what shared tasks wrote into a batch comes to the same in whatever order the entries of
both come. -/
theorem Batch.Reorders.addWrites {ws ws' : WriteSet V} (hD : D.Within (.plain V))
    (hb : b.merged.Within (D.on s)) (hws : ws.All (D.on s).write) (h : b.Reorders b')
    (hwws : ws.Reorders ws') :
    (b.addWrites ws).1 = (b'.addWrites ws').1 ∧
      (b.addWrites ws).2.Reorders (b'.addWrites ws').2 := by
  have hw := merges_writes_on hD hb.writes hws
  obtain ⟨vs, hvs, hget⟩ := WriteSet.exists_stageAll hw
  obtain ⟨vs', hvs', hget'⟩ := WriteSet.exists_stageAll (hw.reorders h.merged.writes hwws)
  unfold Batch.addWrites
  rw [hvs, hvs']
  refine ⟨rfl, ⟨h.merged.reads, h.merged.asked, Table.reorders_iff.2 fun c => ?_,
    h.merged.deltas⟩, fun c => ?_⟩
  · exact (hget c).trans ((congrArg₂ _ (h.merged.writes.get? c) (hwws.get? c)).trans
      (hget' c).symm)
  · simp only [List.mem_append, h.written, hwws.keys.mem_iff]

end

/-! ### Timelines -/

/-- The same mark, but for the order in which it lists the cells. -/
structure Mark.Reorders (m n : Mark) : Prop where
  number : m.number = n.number
  version : m.version = n.version
  readers : m.readers = n.readers
  written : m.written.Perm n.written

theorem Mark.Reorders.refl (m : Mark) : m.Reorders m := ⟨rfl, rfl, rfl, .refl _⟩

theorem Mark.Reorders.release {m n : Mark} (h : m.Reorders n) (a : Anchor) :
    (m.release a).Reorders (n.release a) := by
  unfold Mark.release
  by_cases hm : m.number = a.mark
  · rw [if_pos hm, if_pos (h.number ▸ hm)]
    exact ⟨h.number, h.version, congrArg (· - 1) h.readers, h.written⟩
  · rw [if_neg hm, if_neg (h.number ▸ hm)]
    exact h

namespace Timeline

/-- The same marks in the same order. -/
structure Reorders (t u : Timeline) : Prop where
  older : List.Forall₂ Mark.Reorders t.older u.older
  head : t.head.Reorders u.head

variable {t u : Timeline}

theorem Reorders.refl (t : Timeline) : t.Reorders t :=
  ⟨List.forall₂_same.2 fun m _ => .refl m, .refl _⟩

theorem Reorders.leave (h : t.Reorders u) (a : Option Anchor) :
    (t.leave a).Reorders (u.leave a) := by
  cases a with
  | none => exact h
  | some a =>
    refine ⟨?_, h.head.release a⟩
    exact List.forall₂_map_left_iff.2 (List.forall₂_map_right_iff.2
      (h.older.imp fun _ _ hm => hm.release a))

theorem Reorders.publish (h : t.Reorders u) (version : Version) {written written' : List CellId}
    (hw : written.Perm written') :
    (t.publish version written).Reorders (u.publish version written') :=
  ⟨List.rel_append h.older (.cons h.head .nil),
    ⟨congrArg (· + 1) h.head.number, rfl, rfl, hw⟩⟩

theorem forall₂_retire {l l' : List Mark} (h : List.Forall₂ Mark.Reorders l l') :
    List.Forall₂ Mark.Reorders (l.takeWhile (·.readers = 0)) (l'.takeWhile (·.readers = 0)) ∧
      List.Forall₂ Mark.Reorders (l.dropWhile (·.readers = 0)) (l'.dropWhile (·.readers = 0)) := by
  induction h with
  | nil => exact ⟨.nil, .nil⟩
  | @cons m n l l' hm hl ih =>
    by_cases hr : m.readers = 0
    · have hr' : n.readers = 0 := hm.readers ▸ hr
      simp only [List.takeWhile_cons, List.dropWhile_cons, hr, hr', decide_true, if_true]
      exact ⟨.cons hm ih.1, ih.2⟩
    · have hr' : n.readers ≠ 0 := hm.readers ▸ hr
      simp only [List.takeWhile_cons, List.dropWhile_cons, hr, hr', decide_false,
        Bool.false_eq_true, if_false]
      exact ⟨.nil, .cons hm hl⟩

theorem Reorders.retire (h : t.Reorders u) :
    List.Forall₂ Mark.Reorders t.retire.1 u.retire.1 ∧ t.retire.2.Reorders u.retire.2 := by
  obtain ⟨hretired, hleft⟩ := forall₂_retire h.older
  exact ⟨hretired, hleft, h.head⟩

theorem Reorders.floor (h : t.Reorders u) : t.floor = u.floor := by
  have holder := h.older
  unfold Timeline.floor
  generalize t.older = l, u.older = l' at holder
  cases holder with
  | nil => exact h.head.version
  | cons hm _ => exact hm.version

end Timeline

/-- Marks that are the same but for the order of cells changed the same cells. -/
theorem changedBy_perm {l l' : List Mark} (h : List.Forall₂ Mark.Reorders l l') :
    (changedBy l).Perm (changedBy l') := by
  refine (List.perm_ext_iff_of_nodup (nodup_changedBy l) (nodup_changedBy l')).2 fun c => ?_
  rw [mem_changedBy, mem_changedBy]
  induction h with
  | nil => exact .rfl
  | cons hm _ ih => simp only [List.exists_mem_cons_iff, hm.written.mem_iff, ih]

/-! ### Engines, stores and worlds -/

/-- The same events, but for the order in which a commit is shown its cells. -/
structure Journal.Reorders (j k : Journal) : Prop where
  cells : j.cells = k.cells
  children : j.children = k.children
  commits : List.Forall₂ (fun p q => p.1 = q.1 ∧ p.2.Perm q.2) j.commits k.commits

/-- The same engine, but for the order of the cells of one commit, in its marks and its journal. -/
structure Engine.Reorders (g k : Engine) : Prop where
  config : g.config = k.config
  hooks : g.hooks = k.hooks
  journal : g.journal.Reorders k.journal
  timeline : g.timeline.Reorders k.timeline
  metrics : g.metrics = k.metrics
  begun : g.begun = k.begun

theorem Engine.Reorders.refl (g : Engine) : g.Reorders g :=
  ⟨rfl, rfl, ⟨rfl, rfl, List.forall₂_same.2 fun _ _ => ⟨rfl, .refl _⟩⟩, .refl _, rfl, rfl⟩

theorem Engine.Reorders.version {g k : Engine} (h : g.Reorders k) : g.version = k.version :=
  h.timeline.head.version

variable [Inhabited V]

/-- The same cells. -/
structure Store.Reorders (s t : Store V) : Prop where
  created : s.created = t.created
  cell : ∀ c, s.cell c = t.cell c

theorem Store.Reorders.latest {s t : Store V} (h : s.Reorders t) (c : CellId) :
    s.latest c = t.latest c := congrArg Cell.latest (h.cell c)

namespace World

/-- The same world, but for the orders of entries. -/
structure Reorders (w v : World V) : Prop where
  store : w.store.Reorders v.store
  engine : ∀ e, (w.engine e).Reorders (v.engine e)
  alive : List.Forall₂ Context.Reorders w.alive v.alive
  pinned : ∀ c, c ∈ w.pinned ↔ c ∈ v.pinned

variable {w v : World V}

theorem Reorders.refl (w : World V) : w.Reorders w where
  store := ⟨rfl, fun _ => rfl⟩
  engine _ := .refl _
  alive := List.forall₂_same.2 fun x _ => .refl x
  pinned _ := .rfl

theorem Reorders.isLive (h : w.Reorders v) (c : CellId) : w.isLive c = v.isLive c := by
  have hheld : (∃ x ∈ w.alive, c ∈ x.holds) ↔ ∃ x ∈ v.alive, c ∈ x.holds := by
    have halive := h.alive
    generalize w.alive = l, v.alive = l' at halive
    induction halive with
    | nil => exact .rfl
    | cons hx _ ih => simp only [List.exists_mem_cons_iff, hx.mem_holds, ih]
  rw [Bool.eq_iff_iff, isLive_iff, isLive_iff, h.store.cell, h.pinned, hheld]

theorem Reorders.setEngine (h : w.Reorders v) {s t : Store V} (hs : s.Reorders t) (e : EngineId)
    {g k : Engine} (hg : g.Reorders k) :
    ({ w with store := s }.setEngine e g).Reorders ({ v with store := t }.setEngine e k) where
  store := hs
  engine d := by
    rw [engine_setEngine, engine_setEngine]
    split
    · exact hg
    · exact h.engine d
  alive := h.alive
  pinned := h.pinned

/-- A reclamation pass retires the same marks, compacts the same cells, and counts the same. -/
theorem Reorders.reclaim (h : w.Reorders v) (e : EngineId) :
    (w.reclaim e).1 = (v.reclaim e).1 ∧ (w.reclaim e).2.Reorders (v.reclaim e).2 := by
  have hg := h.engine e
  obtain ⟨hretired, ht⟩ := hg.timeline.retire
  have hcells : (w.passing e).Perm (v.passing e) := by
    have hlive : w.isLive = v.isLive := funext h.isLive
    unfold passing
    rw [hlive]
    exact (changedBy_perm hretired).filter _
  have hpassed : w.passed e = v.passed e := by
    have hsum := (hcells.map fun c =>
      (v.store.cell c).chain.discarded (v.engine e).timeline.retire.2.floor).sum_eq
    simp only [passed, ht.floor, hretired.length_eq, hcells.length_eq, h.store.cell, hsum]
  refine ⟨?_, ⟨?_, fun c => ?_⟩, fun d => ?_, h.alive, h.pinned⟩
  · rw [fst_reclaim, fst_reclaim, hpassed]
  · rw [created_reclaim, created_reclaim, h.store.created]
  · rw [cell_reclaim, cell_reclaim, h.store.cell, ht.floor]
    exact if_congr hcells.mem_iff rfl rfl
  · rw [engine_reclaim, engine_reclaim]
    split
    · exact ⟨hg.config, hg.hooks, hg.journal, ht, by simp only [hg.metrics, hpassed], hg.begun⟩
    · exact h.engine d

theorem Reorders.reclaimHolding (h : w.Reorders v) {cells cells' : List CellId}
    (hc : ∀ c, c ∈ cells ↔ c ∈ cells') (e : EngineId) :
    (w.reclaimHolding cells e).Reorders (v.reclaimHolding cells' e) := by
  have hpinned : ({ w with pinned := cells ++ w.pinned } : World V).Reorders
      { v with pinned := cells' ++ v.pinned } :=
    ⟨h.store, h.engine, h.alive, fun c => by simp only [List.mem_append, hc, h.pinned]⟩
  obtain ⟨-, hafter⟩ := hpinned.reclaim e
  exact ⟨hafter.store, hafter.engine, h.alive, h.pinned⟩

end World

end VersionedMemory
