import VersionedMemory.Proofs.FanOut
import VersionedMemory.Proofs.Recording

/-!
# Which tasks run again

A checked task that asked for a cell which a task before it changed runs again, over what is merged
by then. What a task asked for is what its context handed over, and that holds whatever the body
asked for in any context of its own, except in those that were given up: a nested call that fails
takes the record of its reads with it, and a body may go on after it. So a task is merged as it
first ran only if that run asked for nothing that was changed before, such contexts apart.

## Main definitions

* `Body.Merges` is the merge of a batch of checked tasks, of which the runs note their accesses.

## Main statements

* `Program.parallel_merges`: a batch that succeeds is merged so, whatever programs its tasks run.
-/

namespace VersionedMemory

variable {V α R : Type}

namespace Body

/-- A run of the task that has the number `k`, over `below`, comes to the outcome `o` and notes
`log`. -/
def ComesTo (x : Context V) (below : List (Layer V)) (k : Nat) (task : Task V (VisitLog V) α)
    (run : Nat) (o : Except Error (α × Contribution V)) (log : VisitLog V) : Prop :=
  ∃ shared h, (performTask x below task run shared h).1 = o ∧
    (performTask x below task run shared h).2.2.client = h.client.addRun log k

/-- Checked tasks, which are numbered from `k`, are merged after `b`. A task is merged as it first
ran if that run, in contexts that were not given up, asked for none of the cells that were changed
before, and wrote none of them. A task whose first run did either runs again. -/
inductive Merges (x : Context V) :
    Nat → List (Task V (VisitLog V) α) → Batch V → List α → Batch V → Prop
  | nil (k : Nat) (b : Batch V) : Merges x k [] b [] b
  | kept {k task rest b a e log b₁ as b'} :
    ComesTo x x.layers k task 1 (.ok (a, e)) log →
    (∀ v ∈ log.all, v.asks = true → v.lost = false → v.cell ∉ b.written) →
    (∀ c ∈ e.writes.keys, c ∉ b.written) →
    b.add e = (.ok (), b₁) → Merges x (k + 1) rest b₁ as b' →
    Merges x k (task :: rest) b (a :: as) b'
  | again {k task rest b a e log a₂ e₂ log₂ b₁ as b'} :
    ComesTo x x.layers k task 1 (.ok (a, e)) log →
    (∃ c ∈ e.asked ++ e.writes.keys, c ∈ b.written) →
    ComesTo x (b.layers x.layers) k task 2 (.ok (a₂, e₂)) log₂ →
    b.add e₂ = (.ok (), b₁) → Merges x (k + 1) rest b₁ as b' →
    Merges x k (task :: rest) b (a₂ :: as) b'

variable {x : Context V} {tasks : List (Task V (VisitLog V) α)} {task : Task V (VisitLog V) α}
  {k : Nat}

/-- The outcomes are those of the first runs of the tasks, which are numbered from `k`, and answer
for what the runs note. -/
def OfFirstRuns (x : Context V) :
    Nat → List (Task V (VisitLog V) α) → List (Except Error (α × Contribution V)) → Prop
  | _, [], [] => True
  | k, task :: rest, o :: os =>
    (∃ log, ComesTo x x.layers k task 1 o log ∧
      ∀ a e, o = .ok (a, e) → ∀ v ∈ log.all, e.AnswersFor v) ∧ OfFirstRuns x (k + 1) rest os
  | _, _, _ => False

theorem ofFirstRuns_firstRuns (ht : Numbered k tasks) (shared : WriteSet V)
    (h : Host V (VisitLog V)) : OfFirstRuns x k tasks (firstRuns x tasks shared h).1.1 := by
  induction tasks generalizing k shared h with
  | nil => trivial
  | cons task rest ih =>
    obtain ⟨htask, hrest⟩ := ht
    obtain ⟨-, log, hclient, hans⟩ := performTask_records (htask 1) x x.layers shared h
    exact ⟨⟨log, ⟨shared, h, rfl, hclient⟩, hans⟩, ih hrest _ _⟩

/-- One task is settled: it is merged as it first ran, or it runs again. -/
theorem settle_cases (ht : ∀ run, ∃ body : Body V (VisitLog V) α,
      body.Records ∧ task.body run = body.asRun k) (hmode : task.mode = .checked)
    {a a' : α} {e e' : Contribution V} {b b' : Batch V} {shared : Option (WriteSet V)}
    {h : Host V (VisitLog V)} (hset : (settle x task a e b shared h).1 = .ok (a', e', b')) :
    b' = b ∧ (b.clash e = none ∧ a' = a ∧ e' = e ∨
      b.clash e ≠ none ∧ ∃ log, ComesTo x (b.layers x.layers) k task 2 (.ok (a', e')) log) := by
  obtain ⟨hb, ⟨hc, ha, he, -⟩ | ⟨hc, ws, hrun⟩⟩ := settle_eq_ok hmode hset
  · exact ⟨hb, .inl ⟨hc, ha, he⟩⟩
  · obtain ⟨-, log, hclient, -⟩ := performTask_records (ht 2) x (b.layers x.layers) ∅
      { h with world := h.world.countRerun x.engine }
    exact ⟨hb, .inr ⟨hc, log, ∅, _, congrArg Prod.fst hrun, hclient⟩⟩

/-- A merge that succeeds has settled every task in turn. -/
theorem merges_of_mergeRuns (ht : Numbered k tasks) (hmode : ∀ t ∈ tasks, t.mode = .checked)
    {outcomes : List (Except Error (α × Contribution V))} (hfirst : OfFirstRuns x k tasks outcomes)
    {b b' : Batch V} {shared : Option (WriteSet V)} {h h' : Host V (VisitLog V)} {as : List α}
    (hm : mergeRuns x (tasks.zip outcomes) b shared h = (.ok (as, b'), h')) :
    Merges x k tasks b as b' := by
  induction tasks generalizing k outcomes b shared h as with
  | nil =>
    cases hm
    exact .nil k _
  | cons task rest ih =>
    obtain ⟨hchecked, hmode⟩ := List.forall_mem_cons.1 hmode
    obtain ⟨htask, hrest⟩ := ht
    cases outcomes with
    | nil => exact hfirst.elim
    | cons o outcomes =>
      obtain ⟨⟨log, hrun, hans⟩, hothers⟩ := hfirst
      rw [List.zip_cons_cons] at hm
      obtain ⟨a, e, cells, a', e', b₀, g, b₁, as', rfl, rfl, hset, hadd, hm⟩ :=
        mergeRuns_cons_eq_ok hm
      have hnext := ih hrest hmode hothers hm
      obtain ⟨rfl, ⟨hclash, rfl, rfl⟩ | ⟨hclash, log₂, hrun₂⟩⟩ :=
        settle_cases htask hchecked (congrArg Prod.fst hset)
      · have hapart := Batch.clash_eq_none_iff.1 hclash
        refine .kept hrun (fun v hv hasks hlost => ?_)
          (fun c hc => hapart c (List.mem_append_right _ hc)) hadd hnext
        exact hapart _ (List.mem_append_left _ ((hans a' e' rfl v hv).asked hasks hlost))
      · obtain ⟨c, hc⟩ := Option.ne_none_iff_exists'.1 hclash
        exact .again hrun ⟨c, List.mem_of_find?_eq_some hc,
          List.contains_iff_mem.1 (List.find?_some hc)⟩ hrun₂ hadd hnext

end Body

/-- A batch of checked tasks that succeeds takes over what its merge comes to, in which a task that
is not run again asked for nothing that was changed before it, except in contexts that were given
up. This holds of all programs, which may open children and go on after these fail. -/
theorem Program.parallel_merges [Inhabited V] {n : Nat} (p : Fin n → Program V R)
    {s t : Session V (VisitLog V)} {as : List R} :
    let tasks := List.ofFn fun i =>
      ({ mode := .checked, body := fun _ => (p i).traced.asRun i } : Task V (VisitLog V) R)
    (Body.parallel tasks).run s = (.ok as, t) →
      ∃ b, Body.Merges s.context 0 tasks {} as b ∧
        s.context.adopt b.merged = (.ok (), t.context) := by
  intro tasks hrun
  have hnum : Body.Numbered 0 tasks := Body.numbered_ofFn fun i _ =>
    ⟨(p i).traced, (p i).traced_records, by rw [Nat.zero_add]⟩
  have hmode : ∀ task ∈ tasks, task.mode = .checked := by
    intro task ht
    obtain ⟨i, rfl⟩ := List.mem_ofFn.1 ht
    rfl
  obtain ⟨b, hm, hadopt, -⟩ := Body.parallel_eq_ok hrun
  exact ⟨b, Body.merges_of_mergeRuns hnum hmode (Body.ofFirstRuns_firstRuns hnum ∅ _)
    (Prod.ext hm rfl), hadopt⟩

/-- A batch may also succeed and come to something else than its bodies in turn, where a task goes
on after a child of it failed: what the child asked for is lost with it. Here the child finds 0 in
the cell that the first task writes, and the second task does not run again. -/
theorem parallel_ne_inTurn_of_failed_child :
    let w : World Nat :=
      (((World.create [Engine.create]).createCell 0 0 0).2.createCell 0 0 0).2
    let x : Context Nat := .begin ⟨1⟩ 0 ⟨0, 0⟩ .readWrite
    let bodies := notedFrom 0 [(.write ⟨1⟩ 1 fun _ => .done () : Program Nat Unit),
      .nested (.read ⟨1⟩ fun r =>
        if r.toOption = some 0 then .fail (.aborted ⟨1⟩ "empty") else .done ()) fun r =>
          .write ⟨2⟩ (if r.isOk then 9 else 7) fun _ => .done ()]
    let o := (Body.parallel (bodies.map Task.checked)).run ⟨x, w, []⟩
    let o' := (Body.inTurn bodies).run ⟨x, w, []⟩
    (o.1.toOption = some [(), ()] ∧ (o.2.context.read (w.store.cell ⟨2⟩)).1.toOption = some 7) ∧
      o'.1.toOption = some [(), ()] ∧
      (o'.2.context.read (w.store.cell ⟨2⟩)).1.toOption = some 9 := by
  decide +kernel

end VersionedMemory
