import VersionedMemory.Proofs.Tasks

/-!
# Batches of checked tasks

What lies below a task when it runs again shows the same of every cell as the context would if the
earlier tasks had been nested in it one after the other; and what was below a first run that is
kept showed the same of every cell that it asked for. So a batch comes to what its bodies come to
when they are nested in turn.

## Main definitions

* `Body.inTurn` nests bodies one after the other.
* `Ledger` says what the log of executions says while tasks are merged.

## Main statements

* `parallel_eq_inTurn`: a batch of checked tasks that succeeds gives what its bodies give in turn,
  runs each of them at most twice, and runs again just those that overlap.
-/

namespace VersionedMemory

variable {V σ R : Type} [Inhabited V]

/-- Nest bodies, one after the other. -/
def Body.inTurn (bodies : List (Body V σ R)) : Body V σ (List R) := bodies.mapM Body.nested

section

variable {s : Store V} {ops : CellId → V → V → V} {x : Context V} {p : Program V R}

/-! ### In turn -/

/-- Every cell that the batch changes counts as written. -/
def Batch.Marks (b : Batch V) : Prop :=
  ∀ c, c ∉ b.written → b.merged.writes.get? c = none ∧ b.merged.deltas.get? c = none

omit [Inhabited V] in
theorem Batch.Joined.marks {b b' : Batch V} {e : Contribution V} (h : b.Joined e b')
    (hb : b.Marks) : b'.Marks := by
  intro c hc
  simp only [h.written, not_or, Table.contains, Bool.not_eq_true, Option.isSome_eq_false_iff,
    Option.isNone_iff_eq_none] at hc
  rw [h.writes, h.deltas, (hb c hc.1).1, (hb c hc.1).2, hc.2.1, hc.2.2]
  exact ⟨rfl, rfl⟩

omit [Inhabited V] in
theorem Batch.clash_eq_none_iff {b : Batch V} {e : Contribution V} :
    b.clash e = none ↔ ∀ c ∈ e.asked ++ e.writes.keys, c ∉ b.written := by
  simp [clash, or_imp, forall_and]

/-- What is merged for a task is what its body comes to in a child of the context that took the
batch over. -/
theorem Settled.in_turn (hassoc : ∀ c u v w, ops c (ops c u v) w = ops c u (ops c v w))
    (hp : p.Flat ops) {y : Context V} {b : Batch V} (hx : x.Lawful s ops) (hy : y.Lawful s ops)
    (hxy : x.Adopted b.merged y) (hb : b.merged.Within (s.uniform ops)) (hmarks : b.Marks) {i : Nat}
    {o : Except Error R × Context V} {notes : List (Execution V)} (h : Settled s x b p i o notes) :
    ∃ mode, p.outcome s (y.child .nested y.mode y.layers none) =
      (o.1, o.2.atop (some .nested) mode y.layers) := by
  have hchild : ∀ below, y.child .nested y.mode y.layers none =
      (x.task below).atop (some .nested) y.mode y.layers := by
    intro below
    have hid : y.id = x.id := congrArg Life.id hxy.life
    have hengine : y.engine = x.engine := congrArg Life.engine hxy.life
    have hsnapshot : y.snapshot = x.snapshot := congrArg Life.snapshot hxy.life
    simp [Context.child, Context.task, Context.atop, hid, hengine, hsnapshot]
  have hm : y.mode = .readOnly ↔ x.mode = .readOnly := hxy.mode_iff.1
  cases h with
  | kept hc =>
    -- a run is kept where it asked for nothing that the batch changes
    have hasked := Batch.clash_eq_none_iff.1 hc
    rw [hchild x.layers]
    exact hp.outcome_atop (P := fun c => c ∉ b.written) rfl rfl rfl hm
      (fun c hc => hxy.seenAlike_of_none hx hy (hmarks c hc).1 (hmarks c hc).2)
      fun c hc => hasked c (List.mem_append_left _ hc)
  | again =>
    rw [hchild (b.layers x.layers)]
    exact hp.outcome_atop (P := fun _ => True) rfl rfl rfl hm
      (fun c _ => hxy.seenAlike hassoc hx hy hb c) fun _ _ => trivial

/-- The body of a settled task comes to what was settled on, in a child of the context that took the
batch over. -/
theorem Settled.inChild (hassoc : ∀ c u v w, ops c (ops c u v) w = ops c u (ops c v w))
    (hp : p.Flat ops) {y : Context V} {b : Batch V} (hx : x.Lawful s ops) (hy : y.Lawful s ops)
    (hxy : x.Adopted b.merged y) (hb : b.merged.Within (s.uniform ops)) (hmarks : b.Marks) {i : Nat}
    {o : Except Error R × Context V} {notes : List (Execution V)} (h : Settled s x b p i o notes)
    {g : Host V (List (Execution V))} (hs : g.world.store = s)
    (hmode : (g.world.engine x.engine).hooks.modeOfChild = none) :
    ∃ r g', (p.noted i).inChild y .nested y.layers none
        { g with world.pinned := y.holds ++ g.world.pinned } = (r, g') ∧
      Body.handOver r = o.1.map (fun a => (a, o.2.handed)) ∧
      g.world.Steady x.engine 0 g'.world := by
  obtain ⟨mode, hatop⟩ := h.in_turn hassoc hp hx hy hxy hb hmarks
  obtain ⟨below, hbelow⟩ := h.exists_below
  have hstatus : o.2.status = .active := hbelow ▸ (outcome_task (s := s) hp x below).1
  have hengine : y.engine = x.engine := congrArg Life.engine hxy.life
  obtain ⟨g₁, hg₁⟩ : ∃ g₁ : Host V (List (Execution V)), g₁ = { g with
    world.pinned := y.holds ++ g.world.pinned } := ⟨_, rfl⟩
  obtain ⟨g', hrun, hsteady, -⟩ := hp.inChild_noted (x := y) i .nested y.layers g₁
    (by rw [hg₁, hengine]; exact hmode)
  rw [show g₁.world.store = s by rw [hg₁]; exact hs, hatop, hg₁] at hrun
  rw [hg₁, hengine] at hsteady
  exact ⟨_, g', hrun, Body.handOver_eq hstatus, hsteady.store, hsteady.hooks, hsteady.reruns⟩

omit [Inhabited V] in
theorem Context.Adopted.checkActive {y : Context V} {e : Contribution V} (h : x.Adopted e y)
    (hactive : x.status = .active) : y.checkActive = .ok () := by
  have hy : y.status = .active := (congrArg Life.status h.life).trans hactive
  simp [Context.checkActive, Context.isActive, hy]

/-- A body that is nested after those of a batch comes to what is merged for its task. -/
theorem nested_of_settled (hassoc : ∀ c u v w, ops c (ops c u v) w = ops c u (ops c v w))
    (hp : p.Flat ops) {y : Context V} {b b₁ : Batch V} (hx : x.Lawful s ops) (hy : y.Lawful s ops)
    (hactive : x.status = .active) (hxy : x.Adopted b.merged y)
    (hb : b.merged.Within (s.uniform ops)) (hmarks : b.Marks) {i : Nat}
    {o : Except Error R × Context V} {notes : List (Execution V)} {a : R}
    (hset : Settled s x b p i o notes) (hok : o.1 = .ok a) (hj : b.Joined o.2.handed b₁)
    (hacc : x.Accepts b₁.merged) {h : Host V (List (Execution V))} (hs : h.world.store = s)
    (hmode : (h.world.engine x.engine).hooks.modeOfChild = none) :
    ∃ z h', (Body.nested (p.noted i)).run ⟨y, h⟩ = (.ok a, ⟨z, h'⟩) ∧ z.Lawful s ops ∧
      x.Adopted b₁.merged z ∧ h.world.Steady x.engine 0 h'.world := by
  obtain ⟨below, hbelow⟩ := hset.exists_below
  obtain ⟨-, hwithin, hlegal⟩ := outcome_task (s := s) hp x below
  rw [← hbelow] at hwithin hlegal
  obtain ⟨z, hadopt, hyz⟩ := Context.exists_adopt hy.within hwithin (hacc.of_joined hx hxy hb hj)
    fun hw => fun hro => hlegal hw (hxy.mode_iff.1.1 hro)
  obtain ⟨r, h', hrun, hhand, hsteady⟩ :=
    hset.inChild hassoc hp hx hy hxy hb hmarks hs hmode
  rw [hok] at hhand
  refine ⟨z, { h' with world.pinned := h.world.pinned }, ?_, hy.adopt hwithin hadopt hyz,
    hxy.trans (fun c u v w => hassoc c u v w) hx.within hb hwithin hyz hj, hsteady.pin _⟩
  change Body.nested (p.noted i) ⟨y, h⟩ = _
  unfold Body.nested
  simp only [hxy.checkActive hactive, Host.pinning]
  rw [hrun]
  simp only [hhand, Except.map, hadopt]

/-! ### The log -/

/-- What the log of executions says when `k` tasks are merged and those of `ps` are waiting. -/
structure Ledger (s : Store V) (x : Context V) (log : List (Execution V)) (written : List CellId)
    (k : Nat) (ps : List (Program V R)) : Prop where
  written : ∀ c, c ∈ written ↔
    ∃ j < k, ∃ e, (runsOf log j).getLast? = some e ∧ e.changes c = true
  runs : ∀ i < k, (runsOf log i).length = if overlapped log i then 2 else 1
  waiting : ∀ j, runsOf log (k + j) =
    (ps[j]?.map fun p => ⟨k + j, (p.outcome s (x.task x.layers)).2⟩).toList

omit [Inhabited V] in
theorem runsOf_append (l l' : List (Execution V)) (i : Nat) :
    runsOf (l ++ l') i = runsOf l i ++ runsOf l' i := List.filter_append ..

omit [Inhabited V] in
theorem runsOf_append_of_ne {log notes : List (Execution V)} {j k : Nat}
    (hn : ∀ e ∈ notes, e.task = k) (hj : j ≠ k) : runsOf (log ++ notes) j = runsOf log j := by
  have hnone : runsOf notes j = [] :=
    List.filter_eq_nil_iff.2 fun e he => by simpa [hn e he] using hj.symm
  rw [runsOf_append, hnone, List.append_nil]

omit [Inhabited V] in
/-- A run for a later task makes no difference to whether a task overlaps. -/
theorem overlapped_append {log notes : List (Execution V)} {i k : Nat}
    (hn : ∀ e ∈ notes, e.task = k) (hk : runsOf log k ≠ []) (hi : i ≤ k) :
    overlapped (log ++ notes) i = overlapped log i := by
  have hhead : (runsOf (log ++ notes) i).head? = (runsOf log i).head? := by
    by_cases hik : i = k
    · subst hik
      rw [runsOf_append]
      obtain ⟨e, l, he⟩ := List.exists_cons_of_ne_nil hk
      simp [he]
    · rw [runsOf_append_of_ne hn hik]
  have hlast : ∀ j ∈ List.range i,
      (runsOf (log ++ notes) j).getLast? = (runsOf log j).getLast? := fun j hj => by
    rw [runsOf_append_of_ne hn (by have := List.mem_range.1 hj; omega)]
  unfold overlapped
  rw [hhead]
  congr 1
  funext e
  rw [Bool.eq_iff_iff, List.any_eq_true, List.any_eq_true]
  exact exists_congr fun j => and_congr_right fun hj => by rw [hlast j hj]

theorem Settled.tasks {b : Batch V} {i : Nat} {o : Except Error R × Context V}
    {notes : List (Execution V)} (h : Settled s x b p i o notes) : ∀ e ∈ notes, e.task = i := by
  cases h <;> simp

/-- A task overlaps what was merged before it if its first run clashes with that. -/
theorem Ledger.overlapped_iff {log : List (Execution V)} {b : Batch V} {k : Nat}
    {ps : List (Program V R)} (h : Ledger s x log b.written k (p :: ps)) :
    overlapped log k = true ↔ b.clash (p.outcome s (x.task x.layers)).2.handed ≠ none := by
  have hk : runsOf log k = [⟨k, (p.outcome s (x.task x.layers)).2⟩] := h.waiting 0
  have hclash : b.clash (p.outcome s (x.task x.layers)).2.handed ≠ none ↔
      ∃ c ∈ (p.outcome s (x.task x.layers)).2.asked ++
        (p.outcome s (x.task x.layers)).2.writes.keys, c ∈ b.written := by
    simp [Batch.clash_eq_none_iff, Context.handed]
  rw [hclash]
  simp only [overlapped, hk, List.head?_cons, Option.any_some, List.any_eq_true, List.mem_range,
    Option.any_eq_true, Execution.clashes_eq_true_iff, h.written]
  constructor
  · rintro ⟨j, hj, e, he, c, hc, hch⟩
    exact ⟨c, hc, j, hj, e, he, hch⟩
  · rintro ⟨c, hc, j, hj, e, he, hch⟩
    exact ⟨j, hj, e, he, c, hc, hch⟩

/-- The log says what it should when one more task is merged. -/
theorem Ledger.settle {log : List (Execution V)} {b b₁ : Batch V} {k : Nat}
    {ps : List (Program V R)} {o : Except Error R × Context V} {notes : List (Execution V)}
    (h : Ledger s x log b.written k (p :: ps)) (hset : Settled s x b p k o notes)
    (hj : b.Joined o.2.handed b₁) : Ledger s x (log ++ notes) b₁.written (k + 1) ps ∧
      (notes.length = if overlapped (log ++ notes) k then 1 else 0) ∧
      ∀ i ≤ k, overlapped (log ++ notes) i = overlapped log i := by
  have hk : runsOf log k = [⟨k, (p.outcome s (x.task x.layers)).2⟩] := h.waiting 0
  have hn := hset.tasks
  have hsame : ∀ i ≤ k, overlapped (log ++ notes) i = overlapped log i := fun i hi =>
    overlapped_append hn (by simp [hk]) hi
  have hruns : runsOf (log ++ notes) k = ⟨k, (p.outcome s (x.task x.layers)).2⟩ :: notes := by
    rw [runsOf_append, hk, List.singleton_append, runsOf,
      List.filter_eq_self.2 fun e he => by simp [hn e he]]
  have hlast : (runsOf (log ++ notes) k).getLast? = some ⟨k, o.2⟩ := by
    rw [hruns]
    cases hset <;> rfl
  have hlength : notes.length = if overlapped (log ++ notes) k then 1 else 0 := by
    rw [hsame k (Nat.le_refl k)]
    cases hset with
    | kept hc => simp [mt h.overlapped_iff.1 (not_not_intro hc)]
    | again hc => simp [h.overlapped_iff.2 hc]
  refine ⟨⟨fun c => ?_, fun i hi => ?_, fun j => ?_⟩, hlength, hsame⟩
  · have hchanges : (⟨k, o.2⟩ : Execution V).changes c = true ↔
        o.2.handed.writes.contains c = true ∨ o.2.handed.deltas.contains c = true := by
      simp [Execution.changes, Context.handed]
    rw [hj.written, h.written, Nat.exists_lt_succ_right, hlast]
    refine or_congr (exists_congr fun j => and_congr_right fun hjk => ?_) (by simp [hchanges])
    rw [runsOf_append_of_ne hn (by omega)]
  · rcases Nat.lt_succ_iff_lt_or_eq.1 hi with hi | rfl
    · rw [runsOf_append_of_ne hn (by omega), hsame i (by omega)]
      exact h.runs i hi
    · rw [hruns, List.length_cons, hlength]
      split <;> rfl
  · have hj := h.waiting (j + 1)
    rw [← Nat.add_assoc, List.getElem?_cons_succ] at hj
    rw [Nat.add_right_comm, runsOf_append_of_ne hn (by omega), hj]

/-! ### Whole batches -/

theorem notedFrom_cons (k : Nat) (p : Program V R) (ps : List (Program V R)) :
    notedFrom k (p :: ps) = p.noted k :: notedFrom (k + 1) ps := by
  simp [notedFrom]

/-- The tasks from `k` on, with the outcomes of their first runs. -/
def waitingFrom (s : Store V) (x : Context V) (k : Nat) (ps : List (Program V R)) :
    List (Task V (List (Execution V)) R × Except Error (R × Contribution V)) :=
  ((notedFrom k ps).map Task.checked).zip
    (ps.map fun p => Body.handOver (p.outcome s (x.task x.layers)))

theorem waitingFrom_cons (k : Nat) (p : Program V R) (ps : List (Program V R)) :
    waitingFrom s x k (p :: ps) = (.checked (p.noted k),
      Body.handOver (p.outcome s (x.task x.layers))) :: waitingFrom s x (k + 1) ps := by
  simp [waitingFrom, notedFrom_cons]

omit [Inhabited V] in
theorem Body.run_inTurn_cons (body : Body V σ R) (bodies : List (Body V σ R)) (t : Session V σ) :
    (inTurn (body :: bodies)).run t =
      match body.nested.run t with
      | (.ok a, t') =>
        (((inTurn bodies).run t').1.map (a :: ·), ((inTurn bodies).run t').2)
      | (.error err, t') => (.error err, t') := by
  unfold inTurn
  rw [List.mapM_cons, Body.run_bind]
  rcases body.nested.run t with ⟨err | a, t'⟩
  · rfl
  · dsimp only
    rw [Body.run_bind]
    rcases (bodies.mapM nested).run t' with ⟨err | as, t''⟩ <;> rfl

/-- The rest of a batch adds to the deltas that are merged so far. -/
theorem deltas_of_mergeRuns {ps : List (Program V R)} (hps : ∀ p ∈ ps, p.Flat ops) {k : Nat}
    {b b' : Batch V} {shared : Option (WriteSet V)} {h h' : Host V (List (Execution V))}
    {rs : List R} (hs : h.world.store = s)
    (hmode : (h.world.engine x.engine).hooks.modeOfChild = none)
    (hb : b.merged.Within (s.uniform ops))
    (hm : Body.mergeRuns x (waitingFrom s x k ps) b shared h = (.ok (rs, b'), h')) :
    b'.merged.Within (s.uniform ops) ∧ ∀ c, (b.merged.deltas.get? c).isSome = true →
      (b'.merged.deltas.get? c).isSome = true := by
  induction ps generalizing k b h rs with
  | nil =>
    cases hm
    exact ⟨hb, fun _ h => h⟩
  | cons p ps ih =>
    obtain ⟨hp, hps⟩ := List.forall_mem_cons.1 hps
    rw [waitingFrom_cons] at hm
    obtain ⟨o, notes, a, b₁, h₁, rs', -, -, hj, hb₁, hsteady, -, -, hrest⟩ :=
      mergeRuns_checked hp hmode hs hb hm
    obtain ⟨hwithin, hmono⟩ :=
      ih hps (hsteady.store.trans hs) (by rw [hsteady.hooks, hmode]) hb₁ hrest
    refine ⟨hwithin, fun c hc => hmono c ?_⟩
    rw [hj.deltas]
    obtain ⟨d, hd⟩ := Option.isSome_iff_exists.1 hc
    rw [hd]
    cases o.2.handed.deltas.get? c <;> rfl

/-- Bodies that are nested after those of a batch come to what the rest of the batch comes to, if
the context that opened the batch accepts all of it. -/
theorem inTurn_of_mergeRuns (hassoc : ∀ c u v w, ops c (ops c u v) w = ops c u (ops c v w))
    {ps : List (Program V R)} (hps : ∀ p ∈ ps, p.Flat ops) (hx : x.Lawful s ops)
    (hactive : x.status = .active) {k : Nat} {y : Context V} {b b' : Batch V}
    {shared : Option (WriteSet V)} {g h h' : Host V (List (Execution V))} {rs : List R}
    (hhs : h.world.store = s) (hhm : (h.world.engine x.engine).hooks.modeOfChild = none)
    (hgs : g.world.store = s) (hgm : (g.world.engine x.engine).hooks.modeOfChild = none)
    (hb : b.merged.Within (s.uniform ops)) (hmarks : b.Marks) (hy : y.Lawful s ops)
    (hxy : x.Adopted b.merged y) (hacc : x.Accepts b'.merged)
    (hm : Body.mergeRuns x (waitingFrom s x k ps) b shared h = (.ok (rs, b'), h')) :
    ∃ z g', (Body.inTurn (notedFrom k ps)).run ⟨y, g⟩ = (.ok rs, ⟨z, g'⟩) ∧
      x.Adopted b'.merged z := by
  induction ps generalizing k y b g h rs with
  | nil =>
    cases hm
    exact ⟨y, g, rfl, hxy⟩
  | cons p ps ih =>
    obtain ⟨hp, hps⟩ := List.forall_mem_cons.1 hps
    rw [waitingFrom_cons] at hm
    obtain ⟨o, notes, a, b₁, h₁, rs', hset, hok, hj, hb₁, hsteady, -, rfl, hrest⟩ :=
      mergeRuns_checked hp hhm hhs hb hm
    have hhs₁ := hsteady.store.trans hhs
    have hhm₁ : (h₁.world.engine x.engine).hooks.modeOfChild = none := by rw [hsteady.hooks, hhm]
    have hacc₁ := hacc.anti (deltas_of_mergeRuns hps hhs₁ hhm₁ hb₁ hrest).2
    obtain ⟨z, g₁, hnested, hz, hxz, hsteady'⟩ :=
      nested_of_settled hassoc hp hx hy hactive hxy hb hmarks hset hok hj hacc₁ hgs hgm
    obtain ⟨z', g', hturn, hxz'⟩ := ih hps hhs₁ hhm₁ (hsteady'.store.trans hgs)
      (by rw [hsteady'.hooks, hgm]) hb₁ (hj.marks hmarks) hz hxz hrest
    rw [notedFrom_cons]
    refine ⟨z', g', ?_, hxz'⟩
    rw [Body.run_inTurn_cons, hnested]
    dsimp only
    rw [hturn]
    rfl

/-- What the log says when all tasks are merged. -/
theorem ledger_of_mergeRuns {ps : List (Program V R)} (hps : ∀ p ∈ ps, p.Flat ops) {k : Nat}
    {b b' : Batch V} {shared : Option (WriteSet V)} {h h' : Host V (List (Execution V))}
    {rs : List R} (hs : h.world.store = s)
    (hmode : (h.world.engine x.engine).hooks.modeOfChild = none)
    (hb : b.merged.Within (s.uniform ops)) (hledger : Ledger s x h.client b.written k ps)
    (hm : Body.mergeRuns x (waitingFrom s x k ps) b shared h = (.ok (rs, b'), h')) :
    Ledger s x h'.client b'.written (k + ps.length) ([] : List (Program V R)) ∧
      (∀ i < k, overlapped h'.client i = overlapped h.client i) ∧
      h.world.Steady x.engine ((List.range' k ps.length).countP (overlapped h'.client))
        h'.world := by
  induction ps generalizing k b h rs with
  | nil =>
    cases hm
    exact ⟨hledger, fun _ _ => rfl, rfl, rfl, rfl⟩
  | cons p ps ih =>
    obtain ⟨hp, hps⟩ := List.forall_mem_cons.1 hps
    rw [waitingFrom_cons] at hm
    obtain ⟨o, notes, a, b₁, h₁, rs', hset, hok, hj, hb₁, hsteady, hlog, rfl, hrest⟩ :=
      mergeRuns_checked hp hmode hs hb hm
    obtain ⟨hledger₁, hlength, hsame⟩ := hledger.settle hset hj
    rw [← hlog] at hledger₁ hlength hsame
    obtain ⟨hdone, hlater, hsteady'⟩ := ih hps (hsteady.store.trans hs)
      (by rw [hsteady.hooks, hmode]) hb₁ hledger₁ hrest
    refine ⟨?_, fun i hi => ?_, ?_⟩
    · rw [List.length_cons, ← Nat.add_assoc, Nat.add_right_comm]
      exact hdone
    · rw [hlater i (by omega), hsame i (by omega)]
    · have hn := hsteady.trans hsteady'
      rw [hlength, ← hlater k (by omega)] at hn
      rw [List.length_cons, List.range'_succ, List.countP_cons, Nat.add_comm]
      exact hn

omit [Inhabited V] in
theorem runsOf_zipIdx (f : Program V R → Context V) (ps : List (Program V R)) (k j : Nat) :
    runsOf ((ps.zipIdx k).map fun e => ⟨e.2, f e.1⟩) (k + j) =
      (ps[j]?.map fun p => ⟨k + j, f p⟩).toList := by
  induction ps generalizing k j with
  | nil => rfl
  | cons p ps ih =>
    cases j with
    | zero =>
      have hlater : runsOf ((ps.zipIdx (k + 1)).map fun e => ⟨e.2, f e.1⟩) k = [] := by
        refine List.filter_eq_nil_iff.2 fun e he => ?_
        obtain ⟨⟨q, i⟩, hq, rfl⟩ := List.mem_map.1 he
        have hi := List.le_snd_of_mem_zipIdx hq
        simp only [decide_eq_true_eq]
        omega
      unfold runsOf at hlater ⊢
      simp [hlater]
    | succ j =>
      have hih := ih (k + 1) j
      rw [Nat.add_right_comm] at hih
      unfold runsOf at hih ⊢
      rw [List.zipIdx_cons, List.map_cons, List.filter_cons_of_neg (by simp)]
      exact hih

/-- The first runs, noted one after the other, make up the log that the merge starts with. -/
theorem ledger_firstRuns (s : Store V) (x : Context V) (ps : List (Program V R)) :
    Ledger s x (ps.zipIdx.map fun e => ⟨e.2, (e.1.outcome s (x.task x.layers)).2⟩) [] 0 ps :=
  ⟨by simp, by simp, fun j => runsOf_zipIdx (fun p => (p.outcome s (x.task x.layers)).2) ps 0 j⟩

/-- A batch of checked tasks runs all of them and merges them; if that succeeds, what is merged is
taken over. -/
theorem parallel_checked {ps : List (Program V R)} (hps : ∀ p ∈ ps, p.Flat ops) {w : World V}
    (hactive : x.status = .active) (hmode : (w.engine x.engine).hooks.modeOfChild = none) :
    ∃ shared h, w.Steady x.engine 0 h.world ∧
      h.client = ps.zipIdx.map (fun e => ⟨e.2, (e.1.outcome w.store (x.task x.layers)).2⟩) ∧
      (Body.parallel ((notedFrom 0 ps).map Task.checked)).run ⟨x, w, []⟩ =
        match Body.mergeRuns x (waitingFrom w.store x 0 ps) {} (some shared) h with
        | (.ok (rs, b), h') => ((x.adopt b.merged).1.map fun () => rs,
            ⟨(x.adopt b.merged).2, { h' with world.pinned := w.pinned }⟩)
        | (.error err, h') => (.error err, ⟨x, { h' with world.pinned := w.pinned }⟩) := by
  have hcheck : x.checkActive = .ok () := by simp [Context.checkActive, Context.isActive, hactive]
  obtain ⟨g, hg⟩ : ∃ g : Host V (List (Execution V)),
    g = ⟨{ w with pinned := x.holds ++ w.pinned }, []⟩ := ⟨_, rfl⟩
  have hgs : w.Steady x.engine 0 g.world := by
    rw [hg]
    exact ⟨rfl, rfl, rfl⟩
  obtain ⟨shared, h, hfirst, hsteady, hlog⟩ :=
    firstRuns_checked hps 0 ∅ g (by rw [hgs.hooks, hmode])
  rw [hgs.store] at hfirst hlog
  refine ⟨shared, h, hgs.trans hsteady, by rw [hlog, hg, List.nil_append], ?_⟩
  change Body.parallel ((notedFrom 0 ps).map Task.checked) ⟨x, w, []⟩ = _
  unfold Body.parallel
  simp only [hcheck, Host.pinning]
  rw [← hg, hfirst]
  dsimp only
  unfold waitingFrom
  rcases Body.mergeRuns x _ {} (some shared) h with ⟨err | ⟨rs, b⟩, h'⟩ <;> rfl

omit [Inhabited V] in
/-- A context with a batch that succeeded is active. -/
theorem active_of_parallel {tasks : List (Task V σ R)} {h : Host V σ} {rs : List R}
    {t : Session V σ} (hrun : (Body.parallel tasks).run ⟨x, h⟩ = (.ok rs, t)) :
    x.status = .active := by
  change Body.parallel tasks ⟨x, h⟩ = (.ok rs, t) at hrun
  unfold Body.parallel Context.checkActive Context.isActive at hrun
  by_cases ha : x.status = .active
  · exact ha
  · simp only [ha, decide_false, Bool.false_eq_true, if_false] at hrun
    cases hrun

/-- A batch of checked tasks that succeeds runs all of them, merges them, and takes over what is
merged. -/
theorem exists_mergeRuns {ps : List (Program V R)} (hps : ∀ p ∈ ps, p.Flat ops) {w : World V}
    (hmode : (w.engine x.engine).hooks.modeOfChild = none) {rs : List R}
    {t : Session V (List (Execution V))}
    (hrun : (Body.parallel ((notedFrom 0 ps).map Task.checked)).run ⟨x, w, []⟩ = (.ok rs, t)) :
    x.status = .active ∧ ∃ shared h h' b,
      w.Steady x.engine 0 h.world ∧
      h.client = ps.zipIdx.map (fun e => ⟨e.2, (e.1.outcome w.store (x.task x.layers)).2⟩) ∧
      Body.mergeRuns x (waitingFrom w.store x 0 ps) {} (some shared) h = (.ok (rs, b), h') ∧
      x.adopt b.merged = (.ok (), t.context) ∧
      h'.world.Steady x.engine 0 t.host.world ∧ t.host.client = h'.client := by
  have hactive := active_of_parallel hrun
  obtain ⟨shared, h, hsteady, hlog, heq⟩ := parallel_checked hps hactive hmode
  rw [hrun] at heq
  rcases hmerge : Body.mergeRuns x (waitingFrom w.store x 0 ps) {} (some shared) h with
    ⟨err | ⟨as, b⟩, h'⟩
  · rw [hmerge] at heq
    cases heq
  · rw [hmerge] at heq
    obtain ⟨hres, rfl⟩ := Prod.mk.inj heq
    obtain ⟨⟨⟩, hadopt, rfl⟩ := map_eq_ok_iff.1 hres.symm
    exact ⟨hactive, shared, h, h', b, hsteady, hlog, hmerge, Prod.ext hadopt rfl, ⟨rfl, rfl, rfl⟩,
      rfl⟩

/-- A batch of checked tasks that succeeds gives the results that its bodies give when they are
nested in turn, and leaves the context holding the same. The tasks that run twice are those of which
the first run asked for, or wrote, a cell that the run merged for an earlier one changed; all others
run once. -/
theorem parallel_eq_inTurn (hassoc : ∀ c u v w, ops c (ops c u v) w = ops c u (ops c v w))
    {ps : List (Program V R)} (hps : ∀ p ∈ ps, p.Flat ops) {w : World V}
    (hx : x.Lawful w.store ops) (hmode : (w.engine x.engine).hooks.modeOfChild = none)
    {rs : List R} {t : Session V (List (Execution V))}
    (hrun : (Body.parallel ((notedFrom 0 ps).map Task.checked)).run ⟨x, w, []⟩ = (.ok rs, t)) :
    (∃ t', (Body.inTurn (notedFrom 0 ps)).run ⟨x, w, []⟩ = (.ok rs, t') ∧
      t'.context.Matches t.context) ∧
    (∀ i, (runsOf t.host.client i).length =
      if i < ps.length then if overlapped t.host.client i then 2 else 1 else 0) ∧
    (t.host.world.engine x.engine).metrics.reruns = (w.engine x.engine).metrics.reruns +
      (List.range ps.length).countP (overlapped t.host.client) := by
  obtain ⟨hactive, shared, h, h', b, hsteady, hclient, hmerge, hadopt, hdone, hlog⟩ :=
    exists_mergeRuns hps hmode hrun
  have hempty : ({} : Batch V).merged.Within (w.store.uniform ops) :=
    ⟨WriteSet.all_empty, WriteSet.all_empty⟩
  have hh : (h.world.engine x.engine).hooks.modeOfChild = none := by rw [hsteady.hooks, hmode]
  have hb := (deltas_of_mergeRuns hps hsteady.store hh hempty hmerge).1
  obtain ⟨z, g', hturn, hxz⟩ := inTurn_of_mergeRuns (g := ⟨w, []⟩) hassoc hps hx hactive
    hsteady.store hh rfl hmode hempty (fun _ _ => ⟨rfl, rfl⟩) hx (.refl x)
    (Context.accepts_of_adopt hb hadopt) hmerge
  obtain ⟨hledger, -, hmerged⟩ := ledger_of_mergeRuns hps hsteady.store hh hempty
    (hclient ▸ ledger_firstRuns w.store x ps) hmerge
  have hxt := Context.Adopted.of_adopt hx.within hb hadopt
  rw [Nat.zero_add] at hledger
  refine ⟨⟨_, hturn, hxz.matches hxt⟩, fun i => ?_, ?_⟩
  · rw [hlog]
    split
    · next hi => exact hledger.runs i hi
    · next hi =>
      have hnone := hledger.waiting (i - ps.length)
      rw [Nat.add_sub_cancel' (Nat.le_of_not_lt hi)] at hnone
      rw [hnone]
      rfl
  · have hreruns := ((hsteady.trans hmerged).trans hdone).reruns
    rw [hreruns, hlog, List.range_eq_range', Nat.zero_add, Nat.add_zero]

end

/-- Two tasks that each put to an accumulator and read it, over a context that put to it before: the
second one runs again. -/
theorem parallel_put_get :
    let w : World Nat := ((World.create [Engine.create]).createCell 0 0 0).2
    let x := ((Context.begin ⟨1⟩ 0 ⟨0, 0⟩ .readWrite).put (w.store.cell ⟨1⟩) (· + ·) 1).2
    let p : Program Nat Nat := .put ⟨⟨1⟩, (· + ·)⟩ 2 fun _ =>
      .get ⟨⟨1⟩, (· + ·)⟩ fun r => .done (r.toOption.getD 0)
    let t := ((Body.parallel ((notedFrom 0 [p, p]).map Task.checked)).run ⟨x, w, []⟩).2
    (∃ t', (Body.inTurn (notedFrom 0 [p, p])).run ⟨x, w, []⟩ = (.ok [3, 5], t') ∧
      t'.context.Matches t.context) ∧ (t.host.world.engine 0).metrics.reruns = 1 := by
  intro w x p t
  have hp : p.Flat fun _ => (· + ·) := ⟨rfl, fun _ => ⟨rfl, fun _ => trivial⟩⟩
  have hx : x.Lawful w.store fun _ => (· + ·) :=
    (Context.lawful_begin ⟨1⟩ 0 ⟨0, 0⟩ .readWrite).call (.put ⟨1⟩ 1)
  have hrun : (Body.parallel ((notedFrom 0 [p, p]).map Task.checked)).run ⟨x, w, []⟩ =
      (.ok [3, 5], t) := eq_of_toOption (by decide +kernel)
  have h := parallel_eq_inTurn (x := x) (t := t) (fun _ => Nat.add_assoc)
    (List.forall_mem_cons.2 ⟨hp, List.forall_mem_singleton.2 hp⟩) hx rfl hrun
  exact ⟨h.1, by decide +kernel⟩

/-- With two operations on one cell, a batch and its bodies in turn may differ, though both
operations are associative: the deltas of the tasks are combined with each other first in the batch,
and each with the delta of the context in turn. -/
theorem parallel_ne_inTurn :
    let w : World Nat := ((World.create [Engine.create]).createCell 0 0 0).2
    let x := ((Context.begin ⟨1⟩ 0 ⟨0, 0⟩ .readWrite).put (w.store.cell ⟨1⟩) (· + ·) 1).2
    let p (n : Nat) : Program Nat Unit := .put ⟨⟨1⟩, max⟩ n fun _ => .done ()
    let bodies := notedFrom 0 [p 2, p 3]
    ∃ t t', (Body.parallel (bodies.map Task.checked)).run ⟨x, w, []⟩ = (.ok [(), ()], t) ∧
      (Body.inTurn bodies).run ⟨x, w, []⟩ = (.ok [(), ()], t') ∧
      ¬ t'.context.Matches t.context := by
  intro w x p bodies
  refine ⟨_, _, eq_of_toOption (by decide +kernel), eq_of_toOption (by decide +kernel), fun h => ?_⟩
  have hd := congrArg (Option.bind · (Change.delta? · 0)) (h.deltas ⟨1⟩)
  revert hd
  decide +kernel

end VersionedMemory
