import VersionedMemory.Proofs.FanOut

/-!
# Batches that fail

A batch ends with the first failure in the order of its tasks. If that task failed when it ran over
what was merged before it, its body fails in the same way when the bodies are nested in turn. But a
task whose first run failed does not run again, whatever that run asked for: it may have failed for
a value that an earlier task has replaced, and in turn its body may succeed.

## Main statements

* `parallel_error_in_turn`: a batch fails as its bodies do in turn, or with the first run of a task
  that overlaps an earlier one.
-/

namespace VersionedMemory

variable {V σ R : Type} [Inhabited V] {s : Store V} {ops : CellId → V → V → V} {x : Context V}
  {p : Program V R}

/-- A body that is nested after those of a batch fails as the run did that was settled on for its
task. -/
theorem nested_error_of_settled (hassoc : ∀ c u v w, ops c (ops c u v) w = ops c u (ops c v w))
    (hp : p.Flat ops) {y : Context V} {b : Batch V} (hx : x.Lawful s ops) (hy : y.Lawful s ops)
    (hactive : x.status = .active) (hxy : x.Adopted b.merged y)
    (hb : b.merged.Within (s.uniform ops)) (hmarks : b.Marks) {i : Nat}
    {o : Except Error R × Context V} {notes : List (Execution V)} {err : Error}
    (hset : Settled s x b p i o notes) (herr : o.1 = .error err)
    {h : Host V (List (Execution V))} (hs : h.world.store = s)
    (hmode : (h.world.engine x.engine).hooks.modeOfChild = none) :
    ∃ t, (Body.nested (p.noted i)).run ⟨y, h⟩ = (.error err, t) := by
  obtain ⟨r, h', hrun, hhand, -⟩ := hset.inChild hassoc hp hx hy hxy hb hmarks hs hmode
  rw [herr] at hhand
  refine ⟨⟨y, { h' with world.pinned := h.world.pinned }⟩, ?_⟩
  change Body.nested (p.noted i) ⟨y, h⟩ = _
  unfold Body.nested
  simp only [hxy.checkActive hactive, Host.pinning]
  rw [hrun]
  simp only [hhand, Except.map]

omit [Inhabited V] in
/-- If the first of some bodies fails, so do the bodies in turn. -/
theorem Body.inTurn_error_of_first {body : Body V σ R} {bodies : List (Body V σ R)} {err : Error}
    {t t' : Session V σ} (h : body.nested.run t = (.error err, t')) :
    (inTurn (body :: bodies)).run t = (.error err, t') := by
  rw [run_inTurn_cons, h]

omit [Inhabited V] in
/-- If the rest of some bodies fails in turn, so do all of them. -/
theorem Body.inTurn_error_of_rest {body : Body V σ R} {bodies : List (Body V σ R)} {a : R}
    {err : Error} {t t' t'' : Session V σ} (h : body.nested.run t = (.ok a, t'))
    (hrest : (inTurn bodies).run t' = (.error err, t'')) :
    (inTurn (body :: bodies)).run t = (.error err, t'') := by
  rw [run_inTurn_cons, h]
  dsimp only
  rw [hrest]
  rfl

/-- Bodies that are nested after those of a batch fail as the rest of the batch does, unless that
fails with the first run of a task which overlaps. -/
theorem error_of_mergeRuns (hassoc : ∀ c u v w, ops c (ops c u v) w = ops c u (ops c v w))
    {ps : List (Program V R)} (hps : ∀ p ∈ ps, p.Flat ops) (hx : x.Lawful s ops)
    (hactive : x.status = .active) (hacc : ∀ e, x.Accepts e) {k : Nat} {y : Context V}
    {b : Batch V} {shared : Option (WriteSet V)} {g h h' : Host V (List (Execution V))}
    {err : Error} (hhs : h.world.store = s)
    (hhm : (h.world.engine x.engine).hooks.modeOfChild = none) (hgs : g.world.store = s)
    (hgm : (g.world.engine x.engine).hooks.modeOfChild = none)
    (hb : b.merged.Within (s.uniform ops)) (hmarks : b.Marks) (hy : y.Lawful s ops)
    (hxy : x.Adopted b.merged y) (hledger : Ledger s x h.client b.written k ps)
    (hm : Body.mergeRuns x (waitingFrom s x k ps) b shared h = (.error err, h')) :
    (∃ t, (Body.inTurn (notedFrom k ps)).run ⟨y, g⟩ = (.error err, t)) ∨
      ∃ i p, ps[i]? = some p ∧ (p.outcome s (x.task x.layers)).1 = .error err ∧
        overlapped h'.client (k + i) = true ∧ (runsOf h'.client (k + i)).length = 1 := by
  induction ps generalizing k y b g h with
  | nil => cases hm
  | cons p ps ih =>
    obtain ⟨hp, hps⟩ := List.forall_mem_cons.1 hps
    rw [notedFrom_cons]
    rw [waitingFrom_cons] at hm
    rcases mergeRuns_cons hp k shared (waitingFrom s x (k + 1) ps) hhm hhs hb with
      ⟨err', hfirst, hend⟩ | ⟨o, notes, h₁, hset, hsteady, hlog, hend⟩
    · rw [hm] at hend
      cases hend
      by_cases hclash : b.clash (p.outcome s (x.task x.layers)).2.handed = none
      · obtain ⟨t, ht⟩ := nested_error_of_settled hassoc hp hx hy hactive hxy hb hmarks
          (.kept (i := k) hclash) hfirst hgs hgm
        exact .inl ⟨t, Body.inTurn_error_of_first ht⟩
      · have hruns := hledger.waiting 0
        refine .inr ⟨0, p, rfl, hfirst, hledger.overlapped_iff.2 hclash, ?_⟩
        rw [hruns]
        rfl
    · rcases hend with ⟨err', herr, hend⟩ | ⟨a, b₁, hok, hj, hb₁, hend⟩
      · rw [hm] at hend
        cases hend
        obtain ⟨t, ht⟩ :=
          nested_error_of_settled hassoc hp hx hy hactive hxy hb hmarks hset herr hgs hgm
        exact .inl ⟨t, Body.inTurn_error_of_first ht⟩
      · rw [hm] at hend
        obtain ⟨hres, hh⟩ := Prod.mk.inj hend
        have hrest : Body.mergeRuns x (waitingFrom s x (k + 1) ps) b₁ shared h₁ =
            (.error err, h') := Prod.ext (map_eq_error_iff.1 hres.symm) hh.symm
        obtain ⟨z, g₁, hnested, hz, hxz, hsteady'⟩ :=
          nested_of_settled hassoc hp hx hy hactive hxy hb hmarks hset hok hj (hacc _) hgs hgm
        obtain ⟨hledger₁, -, -⟩ := hledger.settle hset hj
        rcases ih hps (hsteady.store.trans hhs) (by rw [hsteady.hooks, hhm])
          (hsteady'.store.trans hgs) (by rw [hsteady'.hooks, hgm]) hb₁ (hj.marks hmarks) hz hxz
          (hlog ▸ hledger₁) hrest with ⟨t, ht⟩ | ⟨i, q, hq, hfirst, hover, hruns⟩
        · exact .inl ⟨t, Body.inTurn_error_of_rest hnested ht⟩
        · rw [Nat.add_right_comm] at hover hruns
          exact .inr ⟨i + 1, q, hq, hfirst, hover, hruns⟩

/-- A batch of checked tasks that fails, over a context that holds nothing staged by hand, gives the
error that its bodies give when they are nested in turn, unless it is the error of a task that ran
just once, though its first run asked for, or wrote, a cell that the run merged for an earlier task
changed. -/
theorem parallel_error_in_turn (hassoc : ∀ c u v w, ops c (ops c u v) w = ops c u (ops c v w))
    {ps : List (Program V R)} (hps : ∀ p ∈ ps, p.Flat ops) {w : World V}
    (hx : x.Lawful w.store ops) (hactive : x.status = .active) (hacc : ∀ e, x.Accepts e)
    (hmode : (w.engine x.engine).hooks.modeOfChild = none) {err : Error}
    {t : Session V (List (Execution V))}
    (hrun : (Body.parallel ((notedFrom 0 ps).map Task.checked)).run ⟨x, w, []⟩ = (.error err, t)) :
    (∃ t', (Body.inTurn (notedFrom 0 ps)).run ⟨x, w, []⟩ = (.error err, t')) ∨
      ∃ i p, ps[i]? = some p ∧ (p.outcome w.store (x.task x.layers)).1 = .error err ∧
        overlapped t.host.client i = true ∧ (runsOf t.host.client i).length = 1 := by
  obtain ⟨shared, h, hsteady, hlog, heq⟩ := parallel_checked hps hactive hmode
  have hempty : ({} : Batch V).merged.Within (w.store.uniform ops) :=
    ⟨WriteSet.all_empty, WriteSet.all_empty⟩
  have hh : (h.world.engine x.engine).hooks.modeOfChild = none := by rw [hsteady.hooks, hmode]
  rw [hrun] at heq
  rcases hmerge : Body.mergeRuns x (waitingFrom w.store x 0 ps) {} (some shared) h with
    ⟨err' | ⟨rs, b⟩, h'⟩
  · rw [hmerge] at heq
    cases heq
    have hend := error_of_mergeRuns (g := ⟨w, []⟩) hassoc hps hx hactive hacc hsteady.store hh rfl
      hmode hempty (fun _ _ => ⟨rfl, rfl⟩) hx (.refl x) (hlog ▸ ledger_firstRuns w.store x ps)
      hmerge
    simpa only [Nat.zero_add] using hend
  · -- what is merged can be taken over
    obtain ⟨z, g', -, hxz⟩ := inTurn_of_mergeRuns (g := ⟨w, []⟩) hassoc hps hx hactive
      hsteady.store hh rfl hmode hempty (fun _ _ => ⟨rfl, rfl⟩) hx (.refl x) (hacc _) hmerge
    have hb := (deltas_of_mergeRuns hps hsteady.store hh hempty hmerge).1
    obtain ⟨y, hadopt, -⟩ := Context.exists_adopt hx.within hb (hacc _) hxz.allowed
    rw [hmerge] at heq
    dsimp only at heq
    rw [hadopt] at heq
    cases heq

/-- A batch may fail where its bodies succeed in turn: the second task fails because its first run
finds 0 in the cell that the first one writes, and does not run again. -/
theorem parallel_error_not_in_turn :
    let w : World Nat := ((World.create [Engine.create]).createCell 0 0 0).2
    let x : Context Nat := .begin ⟨1⟩ 0 ⟨0, 0⟩ .readWrite
    let bodies := notedFrom 0 [(.write ⟨1⟩ 1 fun _ => .done () : Program Nat Unit),
      .read ⟨1⟩ fun r => if r.toOption = some 0 then .fail (.aborted ⟨1⟩ "empty") else .done ()]
    let o := (Body.parallel (bodies.map Task.checked)).run ⟨x, w, []⟩
    o.1.toOption = none ∧ overlapped o.2.host.client 1 = true ∧
      (runsOf o.2.host.client 1).length = 1 ∧
      ((Body.inTurn bodies).run ⟨x, w, []⟩).1.toOption = some [(), ()] := by
  decide +kernel

end VersionedMemory
