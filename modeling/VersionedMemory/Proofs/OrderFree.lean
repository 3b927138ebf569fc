import VersionedMemory.Proofs.Refusals
import VersionedMemory.Proofs.Reorderings
import VersionedMemory.Proofs.CommitOutcomes

/-!
# Commits do not depend on the order of entries

A commit goes through the read-set and the buffers in the order in which they list their entries.
Where the observer does not look at the order of the cells that it is shown, the order makes no
difference to what the commit answers, but for the cell that an error names, and none to the cells,
the marks and the counters that it leaves. It shows in the order of the cells that the observer is
shown and that the new mark lists, and in nothing else.

The errors that name one of several cells are two: a conflict names a read that was superseded, and
an internal error names a cell that is ahead of the engine.

## Main definitions

* `Hooks.Unordered` says that the observer does not look at the order of what it is shown.
* `Context.Concurs` says that two answers are the same, but for the cell that they name.
* `OrderFree` says that the order of entries has no effect on commits and merges.

## Main statements

* `Engine.Reorders.commit`: commits of reorderings answer alike and leave reorderings.
* `order_free`: the order of entries has no effect.
-/

namespace VersionedMemory

variable {V : Type}

/-- The observer answers the same in whatever order it is shown the cells. -/
def Hooks.Unordered (hooks : Hooks) : Prop :=
  ∀ refuse, hooks.observer = some refuse →
    ∀ id (cells cells' : List CellId), cells.Perm cells' → refuse id cells = refuse id cells'

theorem Hooks.Unordered.bind {hooks : Hooks} (h : hooks.Unordered) (id : TxnId)
    {cells cells' : List CellId} (hc : cells.Perm cells') :
    (hooks.observer.bind fun refuse => refuse id cells) =
      hooks.observer.bind fun refuse => refuse id cells' := by
  cases ho : hooks.observer with
  | none => rfl
  | some refuse => exact h refuse ho id _ _ hc

theorem Journal.Reorders.shown {j k : Journal} {x y : Context V} (h : j.Reorders k)
    (hxy : x.Reorders y) : (j.shown x).Reorders (k.shown y) :=
  ⟨h.cells, h.children, List.rel_append h.commits (.cons ⟨hxy.id, hxy.written⟩ .nil)⟩

variable [Inhabited V]

/-! ### Answers -/

/-- The same answers, but for which of the superseded reads, or of the cells that are ahead of
`head`, they name. -/
inductive Context.Concurs (x : Context V) (s : Store V) (head : Version) :
    Except Error Receipt → Except Error Receipt → Prop
  | same (r : Except Error Receipt) : Concurs x s head r r
  | stale {c d : CellId} {v v' : Version} :
    x.reads.get? c = some v → v < s.latest c → x.reads.get? d = some v' → v' < s.latest d →
      Concurs x s head (.error (.conflict x.id (.staleRead c v (s.latest c))))
        (.error (.conflict x.id (.staleRead d v' (s.latest d))))
  | ahead {a b : Change V} :
    a ∈ x.changes → head < s.latest a.target → b ∈ x.changes → head < s.latest b.target →
      Concurs x s head (.error (.internal (.aheadOfHead a.target (s.latest a.target) head)))
        (.error (.internal (.aheadOfHead b.target (s.latest b.target) head)))

variable {x y : Context V} {s t : Store V} {g k : Engine}

theorem Context.Concurs.isConflict {head : Version} {e e' : Error}
    (h : x.Concurs s head (.error e) (.error e')) : e.isConflict = e'.isConflict := by
  cases h <;> rfl

theorem Context.superseded?_eq_none_iff :
    x.superseded? s = none ↔ ∀ c v, x.reads.get? c = some v → s.latest c ≤ v := by
  refine ⟨fun h c v => latest_le_of_superseded? h, fun h => ?_⟩
  refine Option.eq_none_iff_forall_ne_some.2 fun cause hcause => ?_
  obtain ⟨c, v, hv, hlt, -⟩ := superseded?_eq_some hcause
  exact absurd (h c v hv) (Nat.not_le.2 hlt)

theorem aheadOf?_eq_none_iff {version : Version} {changes : List (Change V)} :
    aheadOf? version changes s = none ↔ ∀ a ∈ changes, s.latest a.target < version := by
  simp [aheadOf?]

theorem mem_of_aheadOf? {version : Version} {changes : List (Change V)} {c : CellId}
    (h : aheadOf? version changes s = some c) :
    ∃ a ∈ changes, a.target = c ∧ version ≤ s.latest c := by
  obtain ⟨a, ha, rfl⟩ := Option.map_eq_some_iff.1 h
  exact ⟨a, List.mem_of_find?_eq_some ha, rfl, by simpa using List.find?_some ha⟩

/-! ### One commit -/

namespace Engine

/-- Two commits of the same are refused for the same reason, or none of them is. -/
theorem Reorders.refusal? (h : g.Reorders k) (hs : s.Reorders t) (hxy : x.Reorders y)
    (ho : g.hooks.Unordered) :
    (g.refusal? x s = none ∧ k.refusal? y t = none) ∨
      ∃ e e', g.refusal? x s = some e ∧ k.refusal? y t = some e' ∧
        x.Concurs s g.version (.error e) (.error e') := by
  have hveto := ho.bind x.id hxy.written
  unfold Engine.refusal?
  rw [← h.hooks, ← hxy.id, ← hveto]
  cases (g.hooks.observer.bind fun refuse => refuse x.id x.written) with
  | some reason => exact .inr ⟨_, _, rfl, rfl, .same _⟩
  | none =>
    have hnone : x.superseded? s = none ↔ y.superseded? t = none := by
      simp only [Context.superseded?_eq_none_iff, hxy.reads.get?, hs.latest]
    cases hx : x.superseded? s with
    | some cause =>
      obtain ⟨cause', hy⟩ := Option.ne_none_iff_exists'.1 fun hy =>
        Option.some_ne_none cause (hx.symm.trans (hnone.2 hy))
      obtain ⟨c, v, hv, hlt, rfl⟩ := Context.superseded?_eq_some hx
      obtain ⟨d, v', hv', hlt', rfl⟩ := Context.superseded?_eq_some hy
      rw [hy, ← hs.latest]
      rw [← hs.latest] at hlt'
      rw [← hxy.reads.get?] at hv'
      exact .inr ⟨_, _, rfl, rfl, .stale hv hlt hv' hlt'⟩
    | none =>
      rw [hnone.1 hx, ← h.version]
      dsimp only
      have hahead : aheadOf? (g.version + 1) x.changes s = none ↔
          aheadOf? (g.version + 1) y.changes t = none := by
        simp only [aheadOf?_eq_none_iff, hxy.changes.mem_iff, hs.latest]
      cases hc : aheadOf? (g.version + 1) x.changes s with
      | none => exact .inl ⟨rfl, by rw [hahead.1 hc]; rfl⟩
      | some c =>
        obtain ⟨d, hd⟩ := Option.ne_none_iff_exists'.1 fun hd =>
          Option.some_ne_none c (hc.symm.trans (hahead.2 hd))
        obtain ⟨a, ha, rfl, hle⟩ := mem_of_aheadOf? hc
        obtain ⟨b, hb, rfl, hle'⟩ := mem_of_aheadOf? hd
        rw [hd, Option.map_some, Option.map_some, ← hs.latest]
        rw [← hs.latest] at hle'
        exact .inr ⟨_, _, rfl, rfl, .ahead ha hle (hxy.changes.mem_iff.2 hb) hle'⟩

omit [Inhabited V] in
theorem Reorders.ended (h : g.Reorders k) (hxy : x.Reorders y) {j j' : Journal}
    (hj : j.Reorders j') (m : Metrics) :
    ({ g with journal := j, timeline := g.timeline.leave x.anchor, metrics := m } : Engine).Reorders
      { k with journal := j', timeline := k.timeline.leave y.anchor, metrics := m } :=
  ⟨h.config, h.hooks, hj, hxy.anchor ▸ h.timeline.leave x.anchor, rfl, h.begun⟩

end Engine

omit [Inhabited V] in
theorem Context.Reorders.finish (hxy : x.Reorders y) (g k : Engine) (status : Status) :
    (g.finish x status).1.Reorders (k.finish y status).1 :=
  ⟨congrArg (fun l : Life => { l with anchor := none, status }) hxy.life, hxy.mode, hxy.enclosing,
    hxy.reads, hxy.asked, .refl _, .refl _, hxy.shared⟩

/-- What is published is the same, cell by cell. -/
theorem Context.Reorders.publishing (hxy : x.Reorders y) (hp : x.Within (.plain V))
    (hs : s.Reorders t) (version : Version) :
    (s.publishing version x.changes).Reorders (t.publishing version y.changes) := by
  have hp' : y.Within (.plain V) := hp.reorders hxy
  refine ⟨?_, fun c => ?_⟩
  · rw [Store.created_publishing, Store.created_publishing, hs.created]
  · have hchanges : x.Changes c ↔ y.Changes c := by
      unfold Changes
      rw [hxy.writes.contains, hxy.deltas.contains]
    have hresult : x.resultAt c = y.resultAt c := by
      funext v
      unfold resultAt
      rw [hxy.writes.get?, hxy.deltas.get?]
    rw [hp.cell_publishing, hp'.cell_publishing, hs.cell, hresult]
    exact if_congr hchanges rfl rfl

/-- Commits of reorderings answer alike, and leave reorderings. -/
theorem Engine.Reorders.commit (h : g.Reorders k) (hs : s.Reorders t) (hxy : x.Reorders y)
    (ho : g.hooks.Unordered) (hm : s.Mirrored) (hp : x.Within (.plain V)) (hk : x.kind = none) :
    x.Concurs s g.version (g.commit x s).result (k.commit y t).result ∧
      (g.commit x s).engine.Reorders (k.commit y t).engine ∧
      (g.commit x s).store.Reorders (k.commit y t).store ∧
      ∀ r, (g.commit x s).result = .ok r →
        (g.commit x s).context.Reorders (k.commit y t).context := by
  have hm' : t.Mirrored := fun c => by
    rw [← hs.latest, hm c, hs.cell]
  by_cases hx : x.changes = []
  · have hy : y.changes = [] := List.perm_nil.1 (hx ▸ hxy.changes.symm)
    rw [g.commit_of_bare hx, k.commit_of_bare hy, hxy.id, hxy.snapshot, h.metrics]
    exact ⟨.same _, h.ended hxy h.journal _, hs, fun _ _ => hxy.finish g k _⟩
  · have hy : y.changes ≠ [] := fun hy => hx (List.perm_nil.1 (hy ▸ hxy.changes))
    rcases h.refusal? hs hxy ho with ⟨hn, hn'⟩ | ⟨e, e', he, he', hconcurs⟩
    · rw [commit_of_accepted hm hp hx hn, commit_of_accepted hm' (hp.reorders hxy) hy hn',
        hxy.id, hxy.written.length_eq, h.version, h.metrics]
      refine ⟨.same _, ⟨h.config, h.hooks, h.journal.shown hxy, ?_, rfl, h.begun⟩,
        hxy.publishing hp hs _, fun _ _ => hxy.finish g k _⟩
      rw [hxy.anchor]
      exact (h.timeline.publish _ (hxy.changes.map _)).leave _
    · obtain ⟨hr, hst, hg⟩ := commit_of_refusal hx hk he
      obtain ⟨hr', hst', hg'⟩ := commit_of_refusal hy (hxy.kind ▸ hk) he'
      rw [hr, hr', hst, hst', hg, hg']
      refine ⟨hconcurs, ?_, hs, fun r hok => nomatch hok⟩
      rw [h.metrics, show k.metrics.refused e = k.metrics.refused e' by
        unfold Metrics.refused
        rw [hconcurs.isConflict]]
      exact h.ended hxy (h.journal.shown hxy) _

omit [Inhabited V] in
theorem Engine.Reorders.abort (h : g.Reorders k) (hxy : x.Reorders y) (reason : String) :
    (g.abort x reason).2.Reorders (k.abort y reason).2 := by
  unfold Engine.abort
  rw [hxy.isActive]
  split
  · refine ⟨h.config, h.hooks, h.journal, ?_, ?_, h.begun⟩
    · change (g.timeline.leave x.anchor).Reorders (k.timeline.leave y.anchor)
      rw [hxy.anchor]
      exact h.timeline.leave _
    · simp only [Engine.finish, hxy.kind, h.metrics]
  · exact h

omit [Inhabited V] in
theorem Engine.Reorders.reclaimDue (h : g.Reorders k) : g.reclaimDue = k.reclaimDue := by
  simp only [Engine.reclaimDue, h.config, h.metrics]

namespace World

variable {w v : World V}

theorem Reorders.discard (h : w.Reorders v) (hxy : x.Reorders y) :
    (w.discard x).Reorders (v.discard y) := by
  have hg := h.engine x.engine
  unfold World.discard World.abort
  rw [← hxy.engine]
  exact h.setEngine h.store x.engine (hg.abort hxy _)

/-- Commits of reorderings answer alike and leave reorderings, also where a reclamation pass follows
at once. -/
theorem Reorders.commit (h : w.Reorders v) (hxy : x.Reorders y) (hw : w.store.Arises)
    (hp : x.Within (.plain V)) (ho : (w.engine x.engine).hooks.Unordered) :
    x.Concurs w.store (w.engine x.engine).version (w.commit x).1 (v.commit y).1 ∧
      (w.commit x).2.Reorders (v.commit y).2 := by
  unfold World.commit
  rw [← hxy.checkActive, ← hxy.isChild]
  split
  · exact ⟨.same _, h⟩
  · split
    · exact ⟨.same _, h.discard hxy⟩
    · next htop =>
      have hkind : x.kind = none := by simpa [Context.isChild] using htop
      obtain ⟨hr, hg, hs, hctx⟩ :=
        (h.engine x.engine).commit h.store hxy ho hw.mirrored hp hkind
      rw [← hxy.engine]
      have hafter := h.setEngine hs x.engine hg
      dsimp only
      cases hans : ((w.engine x.engine).commit x w.store).result with
      | error e =>
        rw [hans] at hr
        cases hans' : ((v.engine x.engine).commit y v.store).result with
        | error e' =>
          rw [hans'] at hr
          exact ⟨hr, hafter⟩
        | ok r =>
          rw [hans'] at hr
          cases hr
      | ok r =>
        rw [hans] at hr
        obtain hans' : ((v.engine x.engine).commit y v.store).result = .ok r := by
          generalize ((v.engine x.engine).commit y v.store).result = r' at hr
          cases hr
          rfl
        rw [hans']
        dsimp only
        rw [← hg.reclaimDue]
        split
        · exact ⟨.same _, hafter.reclaimHolding (hctx r hans).mem_holds x.engine⟩
        · exact ⟨.same _, hafter⟩

end World

/-- What is the same but for the order of its entries has the same effect. -/
structure OrderFree (V : Type) [Inhabited V] : Prop where
  /-- Two transactions get the same answer to a commit, where the observer does not look at the
  order of what it is shown; only where an error names one of several superseded reads, or one of
  several cells ahead of the engine, it may name another one. All cells are the same afterwards,
  with their chains, and so are the counters and the marks, but for the order in which a mark lists
  its cells. -/
  commit : ∀ (w v : World V) (x y : Context V), w.Reorders v → x.Reorders y → w.store.Arises →
    x.Within (.plain V) → (w.engine x.engine).hooks.Unordered →
      x.Concurs w.store (w.engine x.engine).version (w.commit x).1 (v.commit y).1 ∧
        (w.commit x).2.Reorders (v.commit y).2
  /-- What a child hands over is taken or refused alike, and leaves the same reads, writes and
  deltas. -/
  adopt : ∀ (s : Store V) (x y : Context V) (e e' : Contribution V), x.Reorders y →
    e.Reorders e' → x.Within ((Discipline.plain V).on s) → e.Within ((Discipline.plain V).on s) →
      (x.adopt e).1 = (y.adopt e').1 ∧ (x.adopt e).2.Reorders (y.adopt e').2
  /-- What a task hands over comes into a batch, or is refused, alike. -/
  add : ∀ (s : Store V) (b b' : Batch V) (e e' : Contribution V), b.Reorders b' → e.Reorders e' →
    b.merged.Within ((Discipline.plain V).on s) → e.Within ((Discipline.plain V).on s) →
      (b.add e).1 = (b'.add e').1 ∧ (b.add e).2.Reorders (b'.add e').2
  /-- What tasks wrote that share their writes comes into a batch, or is refused, alike. -/
  addWrites : ∀ (s : Store V) (b b' : Batch V) (ws ws' : WriteSet V), b.Reorders b' →
    ws.Reorders ws' → b.merged.Within ((Discipline.plain V).on s) →
      ws.All ((Discipline.plain V).on s).write →
        (b.addWrites ws).1 = (b'.addWrites ws').1 ∧
          (b.addWrites ws).2.Reorders (b'.addWrites ws').2

/-- The order of entries makes no difference to what is done with them. -/
theorem order_free : OrderFree V where
  commit _ _ _ _ h hxy hw hp ho := h.commit hxy hw hp ho
  adopt _ _ _ _ _ h he hx hwithin := h.adopt (.refl _) hx hwithin he
  add _ _ _ _ _ h he hb hwithin := h.add (.refl _) hb hwithin he
  addWrites _ _ _ _ _ h hws hb hall := h.addWrites (.refl _) hb hall hws

/-- Two cells are written in one order and in the other one: committed, merged into a context, and
merged into a batch, it comes to the same. -/
theorem order_free_two_writes :
    let w : World Nat := (((World.create [Engine.create]).createCell 0 0 5).2.createCell 0 0 6).2
    let cell := w.store.cell
    let start : Context Nat := .begin ⟨1⟩ 0 ⟨0, 0⟩ .readWrite
    let x := ((start.write (cell ⟨1⟩) 7).2.write (cell ⟨2⟩) 8).2
    let y := ((start.write (cell ⟨2⟩) 8).2.write (cell ⟨1⟩) 7).2
    let e : Contribution Nat := { writes := x.writes }
    let e' : Contribution Nat := { writes := y.writes }
    x.Reorders y ∧ x.written = [⟨1⟩, ⟨2⟩] ∧ y.written = [⟨2⟩, ⟨1⟩] ∧
      (w.commit x).1 = .ok ⟨⟨1⟩, 1, 2, false⟩ ∧ (w.commit y).1 = .ok ⟨⟨1⟩, 1, 2, false⟩ ∧
      (w.commit x).2.Reorders (w.commit y).2 ∧ (start.adopt e).2.Reorders (start.adopt e').2 ∧
      (({} : Batch Nat).add e).2.Reorders (({} : Batch Nat).add e').2 ∧
      (({} : Batch Nat).addWrites x.writes).2.Reorders (({} : Batch Nat).addWrites y.writes).2 := by
  intro w cell start x y e e'
  have hentries : x.writes.Reorders y.writes := .swap ..
  have hxy : x.Reorders y :=
    ⟨rfl, rfl, rfl, .refl _, fun _ => .rfl, hentries, .refl _, .none⟩
  have hee : e.Reorders e' := ⟨.refl _, fun _ => .rfl, hentries, .refl _⟩
  have hb : ({} : Batch Nat).Reorders {} :=
    ⟨⟨.refl _, fun _ => .rfl, .refl _, .refl _⟩, fun _ => .rfl⟩
  have hw : w.store.Arises := .create 0 6 (.create 0 5 .empty)
  have hone : ((Discipline.plain Nat).on w.store).write ⟨1⟩ ⟨⟨1⟩, 0, .assign 7⟩ :=
    ⟨⟨rfl, 7, rfl⟩, by decide +kernel, by decide +kernel⟩
  have htwo : ((Discipline.plain Nat).on w.store).write ⟨2⟩ ⟨⟨2⟩, 0, .assign 8⟩ :=
    ⟨⟨rfl, 8, rfl⟩, by decide +kernel, by decide +kernel⟩
  have hwrites : x.writes.All ((Discipline.plain Nat).on w.store).write :=
    (WriteSet.all_empty.insert hone).insert htwo
  have hx : x.Within ((Discipline.plain Nat).on w.store) := ⟨hwrites, WriteSet.all_empty, nofun⟩
  have hstart : start.Within ((Discipline.plain Nat).on w.store) := Context.within_begin ..
  have he : e.Within ((Discipline.plain Nat).on w.store) := ⟨hwrites, WriteSet.all_empty⟩
  have hempty : ({} : Batch Nat).merged.Within ((Discipline.plain Nat).on w.store) :=
    ⟨WriteSet.all_empty, WriteSet.all_empty⟩
  have hall := order_free (V := Nat)
  have hcommit := hall.commit w w x y (.refl w) hxy hw (hx.mono (Discipline.on_within _ _)) nofun
  exact ⟨hxy, by decide +kernel, by decide +kernel, by decide +kernel, by decide +kernel,
    hcommit.2, (hall.adopt w.store start start e e' (.refl _) hee hstart he).2,
    (hall.add w.store {} {} e e' hb hee hempty he).2,
    (hall.addWrites w.store {} {} x.writes y.writes hb hentries hempty hwrites).2⟩

/-- Where another engine has brought two cells ahead, the internal error that refuses to write both
names the one that was written first. So does the mark of a commit list them in this order. -/
theorem ahead_cell_by_order :
    let empty : World Nat := World.create [Engine.create, Engine.create]
    let w₀ := ((empty.createCell 0 0 5).2.createCell 0 0 6).2
    let cell := w₀.store.cell
    let writing := fun (e : EngineId) (c d : CellId) =>
      (((Context.begin ⟨1⟩ e ⟨0, 0⟩ .readWrite).write (cell c) 7).2.write (cell d) 7).2
    let w := (w₀.commit (writing 1 ⟨1⟩ ⟨2⟩)).2
    let v := (w₀.commit (writing 1 ⟨2⟩ ⟨1⟩)).2
    (writing 0 ⟨1⟩ ⟨2⟩).Reorders (writing 0 ⟨2⟩ ⟨1⟩) ∧
      (writing 0 ⟨1⟩ ⟨2⟩).superseded? w.store = none ∧
      (w.commit (writing 0 ⟨1⟩ ⟨2⟩)).1 = .error (.internal (.aheadOfHead ⟨1⟩ 1 0)) ∧
      (w.commit (writing 0 ⟨2⟩ ⟨1⟩)).1 = .error (.internal (.aheadOfHead ⟨2⟩ 1 0)) ∧
      (w.engine 1).timeline.head.written = [⟨1⟩, ⟨2⟩] ∧
      (v.engine 1).timeline.head.written = [⟨2⟩, ⟨1⟩] := by
  refine ⟨⟨rfl, rfl, rfl, .refl _, fun _ => .rfl, .swap .., .refl _, .none⟩, ?_⟩
  decide +kernel

end VersionedMemory
