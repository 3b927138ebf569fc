import VersionedMemory.Proofs.Overlay

/-!
# Checked tasks, run and merged

Checked tasks first run side by side, each over the context that opened the batch. They are merged
in the order of submission, and one that asked for or wrote a cell which an earlier one changes runs
again, over what is merged so far. Every execution is noted.

## Main definitions

* `Program.noted` is a body that notes each of its executions in the state of the caller.
* `overlapped` says whether a task's first run overlaps the run merged for an earlier one.
* `Settled` says which run of a task is merged.

## Main statements

* `firstRuns_checked`: the first runs of a batch.
* `mergeRuns_checked`: one step of the merge.
-/

namespace VersionedMemory

variable {V σ R : Type}

/-! ### Executions -/

/-- One execution of the body of a task, by the context on which it ended. -/
structure Execution (V : Type) where
  task : Nat
  context : Context V

namespace Execution

/-- Whether the execution changed a cell. -/
def changes (e : Execution V) (c : CellId) : Bool :=
  e.context.writes.contains c || e.context.deltas.contains c

/-- Whether one execution asked for, or wrote, a cell that the other changed. -/
def clashes (e d : Execution V) : Bool := (e.context.asked ++ e.context.writes.keys).any d.changes

theorem clashes_eq_true_iff {e d : Execution V} : e.clashes d = true ↔
    ∃ c ∈ e.context.asked ++ e.context.writes.keys, d.changes c = true :=
  List.any_eq_true

end Execution

/-- The executions for one task, oldest first. -/
def runsOf (log : List (Execution V)) (i : Nat) : List (Execution V) := log.filter (·.task = i)

/-- Whether the first run for a task clashes with the last one, which is merged, for a task before
it. -/
def overlapped (log : List (Execution V)) (i : Nat) : Bool :=
  (runsOf log i).head?.any fun e =>
    (List.range i).any fun j => (runsOf log j).getLast?.any e.clashes

/-- The store and the hooks of an engine stayed as they were, and `n` more tasks ran again. -/
structure World.Steady (e : EngineId) (n : Nat) (w w' : World V) : Prop where
  store : w'.store = w.store
  hooks : (w'.engine e).hooks = (w.engine e).hooks
  reruns : (w'.engine e).metrics.reruns = (w.engine e).metrics.reruns + n

theorem World.Steady.trans {e : EngineId} {n m : Nat} {w w' w'' : World V} (h : w.Steady e n w')
    (h' : w'.Steady e m w'') : w.Steady e (n + m) w'' :=
  ⟨h'.store.trans h.store, h'.hooks.trans h.hooks, by rw [h'.reruns, h.reruns, Nat.add_assoc]⟩

theorem World.Steady.pin {e : EngineId} {n : Nat} {w w' : World V} (h : w.Steady e n w')
    (pinned : List CellId) : w.Steady e n { w' with pinned } :=
  ⟨h.store, h.hooks, h.reruns⟩

/-- What a context hands over when it is closed. -/
def Context.handed (x : Context V) : Contribution V := ⟨x.reads, x.asked, x.writes, x.deltas⟩

/-- The context of a task that reads through `below`, in the mode of the context that opens it. -/
def Context.task (x : Context V) (below : List (Layer V)) : Context V :=
  x.child (.task .checked) x.mode below none

/-- A child that is active hands over what it holds, with the result of its body. -/
theorem Body.handOver_eq {o : Except Error R × Context V} (ha : o.2.status = .active) :
    handOver o = o.1.map fun a => (a, o.2.handed) := by
  have hc : o.2.checkActive = .ok () := by simp [Context.checkActive, Context.isActive, ha]
  unfold handOver Context.contribution?
  rw [hc]
  cases o.1 <;> rfl

variable [Inhabited V]

/-- The body of a program, which notes for which task it was executed. -/
def Program.noted (p : Program V R) (i : Nat) : Body V (List (Execution V)) R := fun s =>
  let (r, s) := p.run.run s
  (r, { s with host.client := s.host.client ++ [⟨i, s.context⟩] })

/-- The bodies of programs, for the tasks from `k` on. -/
def notedFrom (k : Nat) (ps : List (Program V R)) : List (Body V (List (Execution V)) R) :=
  (ps.zipIdx k).map fun e => e.1.noted e.2

/-- A checked task of which every execution has the same body. -/
def Task.checked (body : Body V σ R) : Task V σ R := ⟨.checked, fun _ => body⟩

/-! ### Runs of a task -/

variable {s : Store V} {ops : CellId → V → V → V} {x : Context V} {p : Program V R}

/-- A noted body comes to what its program comes to, on a child in the mode of the context that
opens it. -/
theorem Program.Flat.inChild_noted (hp : p.Flat ops) (i : Nat) (kind : ChildKind)
    (below : List (Layer V)) (h : Host V (List (Execution V)))
    (hmode : (h.world.engine x.engine).hooks.modeOfChild = none) :
    ∃ h', (p.noted i).inChild x kind below none h =
        (p.outcome h.world.store (x.child kind x.mode below none), h') ∧
      h.world.Steady x.engine 0 h'.world ∧
      h'.client = h.client ++
        [⟨i, (p.outcome h.world.store (x.child kind x.mode below none)).2⟩] := by
  have hrun : ∀ (y : Context V) (g : Host V (List (Execution V))), (p.noted i).runOn y g =
      (p.outcome g.world.store y,
        { g with client := g.client ++ [⟨i, (p.outcome g.world.store y).2⟩] }) := by
    intro y g
    have hy := Flat.runOn_eq p hp y g
    have hn : (p.noted i).runOn y g = ((p.run.runOn y g).1, { (p.run.runOn y g).2 with
        client := (p.run.runOn y g).2.client ++ [⟨i, (p.run.runOn y g).1.2⟩] }) := rfl
    rw [hn, hy]
  have hopen : ((h.world.engine x.engine).openChild kind x.mode).1 = x.mode := by
    simp [Engine.openChild, hmode]
  unfold Body.inChild Body.openChild
  dsimp only
  rw [hrun, hopen]
  exact ⟨_, rfl, ⟨rfl, by simp [Engine.openChild], by simp [Engine.openChild]⟩, rfl⟩

open Body in
/-- A run of a checked task hands over what its program comes to, and is noted. -/
theorem performTask_checked (hp : p.Flat ops) (i : Nat) (below : List (Layer V)) (run : Nat)
    (shared : WriteSet V) (h : Host V (List (Execution V)))
    (hmode : (h.world.engine x.engine).hooks.modeOfChild = none) :
    ∃ shared' h', performTask x below (.checked (p.noted i)) run shared h =
        (handOver (p.outcome h.world.store (x.task below)), shared', h') ∧
      h.world.Steady x.engine 0 h'.world ∧
      h'.client = h.client ++ [⟨i, (p.outcome h.world.store (x.task below)).2⟩] := by
  obtain ⟨h', hrun, hsteady, hlog⟩ := hp.inChild_noted i (.task .checked) below h hmode
  refine ⟨(p.outcome h.world.store (x.task below)).2.shared.getD shared, h', ?_, hsteady, hlog⟩
  unfold performTask
  simp only [Task.checked, reduceCtorEq, if_false]
  rw [hrun]
  rfl

open Body in
/-- The first runs of checked tasks hand over what the programs come to, and are noted in order. -/
theorem firstRuns_checked {ps : List (Program V R)} (hps : ∀ p ∈ ps, p.Flat ops) (k : Nat)
    (shared : WriteSet V) (h : Host V (List (Execution V)))
    (hmode : (h.world.engine x.engine).hooks.modeOfChild = none) :
    ∃ shared' h', firstRuns x ((notedFrom k ps).map Task.checked) shared h =
        ((ps.map fun p => handOver (p.outcome h.world.store (x.task x.layers)), shared'), h') ∧
      h.world.Steady x.engine 0 h'.world ∧
      h'.client = h.client ++ (ps.zipIdx k).map fun e =>
        ⟨e.2, (e.1.outcome h.world.store (x.task x.layers)).2⟩ := by
  induction ps generalizing k shared h with
  | nil => exact ⟨shared, h, rfl, ⟨rfl, rfl, rfl⟩, by simp⟩
  | cons p ps ih =>
    obtain ⟨hp, hps⟩ := List.forall_mem_cons.1 hps
    obtain ⟨shared₁, h₁, hrun, hs₁, hlog₁⟩ := performTask_checked hp k x.layers 1 shared h hmode
    obtain ⟨g, hg⟩ : ∃ g : Host V (List (Execution V)), g = { h₁ with
      world.pinned := outcomeHolds (handOver (p.outcome h.world.store (x.task x.layers))) ++
        shared₁.targets ++ h₁.world.pinned } := ⟨_, rfl⟩
    have hsg : h.world.Steady x.engine 0 g.world := by
      rw [hg]
      exact hs₁.pin _
    have hlg : g.client = h₁.client := by rw [hg]
    obtain ⟨shared₂, h₂, hrest, hs₂, hlog₂⟩ := ih hps (k + 1) shared₁ g (hsg.hooks ▸ hmode)
    rw [hsg.store] at hrest hlog₂
    refine ⟨shared₂, { h₂ with world.pinned := h₁.world.pinned }, ?_, ?_, ?_⟩
    · unfold notedFrom at hrest ⊢
      simp only [List.zipIdx_cons, List.map_cons, firstRuns, hrun, Host.pinning]
      rw [← hg, hrest]
    · exact (hsg.trans hs₂).pin _
    · simp [hlog₂, hlg, hlog₁]

/-- What is merged for a task: its first run, unless that clashes with the batch; else a run over
the batch, which is noted. -/
inductive Settled (s : Store V) (x : Context V) (b : Batch V) (p : Program V R) (i : Nat) :
    Except Error R × Context V → List (Execution V) → Prop
  | kept : b.clash (p.outcome s (x.task x.layers)).2.handed = none →
    Settled s x b p i (p.outcome s (x.task x.layers)) []
  | again : b.clash (p.outcome s (x.task x.layers)).2.handed ≠ none →
    Settled s x b p i (p.outcome s (x.task (b.layers x.layers)))
      [⟨i, (p.outcome s (x.task (b.layers x.layers))).2⟩]

open Program in
/-- A run of a task ends on an active context within the discipline, and writes nothing where the
context that opened the batch may not. -/
theorem outcome_task (hp : p.Flat ops) (x : Context V) (below : List (Layer V)) :
    (p.outcome s (x.task below)).2.status = .active ∧
      (p.outcome s (x.task below)).2.handed.Within (s.uniform ops) ∧
      ((p.outcome s (x.task below)).2.handed.hasWrites = true → x.mode ≠ .readOnly) := by
  obtain ⟨hlife, hwithin, hmode, hkeep⟩ := Flat.outcome_frame hp (x.task below)
  have hw := hwithin (Context.within_child x _ _ below fun _ h => nomatch h)
  refine ⟨congrArg Life.status hlife, ⟨hw.writes, hw.deltas⟩, fun hany hro => ?_⟩
  obtain ⟨hwrites, hdeltas⟩ := hkeep hro
  have hnone : (p.outcome s (x.task below)).2.handed.hasWrites = false :=
    Contribution.hasWrites_eq_false_iff.2 fun c =>
      ⟨congrArg (Table.get? · c) hwrites, congrArg (Table.get? · c) hdeltas⟩
  rw [hnone] at hany
  cases hany

theorem Settled.exists_below {b : Batch V} {i : Nat} {o : Except Error R × Context V}
    {notes : List (Execution V)} (h : Settled s x b p i o notes) :
    ∃ below, o = p.outcome s (x.task below) := by
  cases h with
  | kept => exact ⟨_, rfl⟩
  | again => exact ⟨_, rfl⟩

open Body in
/-- A checked task of which the first run succeeded is settled. -/
theorem settle_checked (hp : p.Flat ops) {i : Nat} (b : Batch V) (shared : Option (WriteSet V))
    {h : Host V (List (Execution V))} {a : R} {e : Contribution V}
    (hmode : (h.world.engine x.engine).hooks.modeOfChild = none) (hs : h.world.store = s)
    (ho : handOver (p.outcome s (x.task x.layers)) = .ok (a, e)) :
    ∃ o notes h', Settled s x b p i o notes ∧
      settle x (.checked (p.noted i)) a e b shared h =
        (o.1.map fun a => (a, o.2.handed, b), h') ∧
      h.world.Steady x.engine notes.length h'.world ∧ h'.client = h.client ++ notes := by
  have hfirst := ho
  rw [handOver_eq (outcome_task hp x _).1] at hfirst
  obtain ⟨a', hok, hpair⟩ := map_eq_ok_iff.1 hfirst
  cases hpair
  unfold settle
  simp only [Task.checked]
  cases hc : b.clash (p.outcome s (x.task x.layers)).2.handed with
  | none =>
    refine ⟨_, _, h, .kept hc, ?_, ⟨rfl, rfl, rfl⟩, by simp⟩
    rw [hok]
    rfl
  | some c =>
    obtain ⟨g, hg⟩ : ∃ g : Host V (List (Execution V)), g = { h with
      world := h.world.countRerun x.engine } := ⟨_, rfl⟩
    have hsg : h.world.Steady x.engine 1 g.world := by
      rw [hg]
      exact ⟨rfl, by simp [World.countRerun], by simp [World.countRerun]⟩
    obtain ⟨shared', h₁, hrun, hs₁, hlog⟩ := performTask_checked hp i (b.layers x.layers) 2 ∅ g
      (hsg.hooks ▸ hmode)
    rw [hsg.store, hs] at hrun hlog
    refine ⟨_, _, h₁, .again (by simp [hc]), ?_, hsg.trans hs₁, by rw [hlog, hg]⟩
    unfold Task.checked at hrun
    simp only [← hg, hrun]
    rw [handOver_eq (outcome_task hp x _).1]
    cases (p.outcome s (x.task (b.layers x.layers))).1 <;> rfl

open Body in
/-- One step of the merge of checked tasks. A first run that failed ends the merge. Any other task
is settled, and ends the merge if it failed when it ran again. -/
theorem mergeRuns_cons (hp : p.Flat ops) (i : Nat) {b : Batch V} (shared : Option (WriteSet V))
    {h : Host V (List (Execution V))}
    (rest : List (Task V (List (Execution V)) R × Except Error (R × Contribution V)))
    (hmode : (h.world.engine x.engine).hooks.modeOfChild = none) (hs : h.world.store = s)
    (hb : b.merged.Within (s.uniform ops)) :
    let merge := mergeRuns x
      ((.checked (p.noted i), handOver (p.outcome s (x.task x.layers))) :: rest) b shared h
    (∃ err, (p.outcome s (x.task x.layers)).1 = .error err ∧ merge = (.error err, h)) ∨
      ∃ o notes h₁, Settled s x b p i o notes ∧ h.world.Steady x.engine notes.length h₁.world ∧
        h₁.client = h.client ++ notes ∧
        ((∃ err, o.1 = .error err ∧ merge = (.error err, h₁)) ∨
          ∃ a b₁, o.1 = .ok a ∧ b.Joined o.2.handed b₁ ∧ b₁.merged.Within (s.uniform ops) ∧
            merge = ((mergeRuns x rest b₁ shared h₁).1.map fun (as, b) => (a :: as, b),
              (mergeRuns x rest b₁ shared h₁).2)) := by
  intro merge
  cases ho : handOver (p.outcome s (x.task x.layers)) with
  | error err =>
    have hfirst := ho
    rw [handOver_eq (outcome_task hp x _).1] at hfirst
    refine .inl ⟨err, map_eq_error_iff.1 hfirst, ?_⟩
    simp only [merge, ho, mergeRuns]
  | ok ae =>
    obtain ⟨a, e⟩ := ae
    obtain ⟨g, hg⟩ : ∃ g : Host V (List (Execution V)), g = { h with
      world.pinned := b.merged.holds ++ e.holds ++ (shared.map WriteSet.targets).getD [] ++
        (rest.flatMap fun o => outcomeHolds o.2) ++ h.world.pinned } := ⟨_, rfl⟩
    obtain ⟨o, notes, g', hsettled, hset, hsteady, hlog⟩ :=
      settle_checked hp b shared (h := g) (by rw [hg]; exact hmode) (by rw [hg]; exact hs) ho
    have hs₁ : h.world.Steady x.engine notes.length g'.world :=
      ⟨hsteady.store.trans (by rw [hg]), hsteady.hooks.trans (by rw [hg]; rfl),
        hsteady.reruns.trans (by rw [hg]; rfl)⟩
    refine .inr ⟨o, notes, { g' with world.pinned := h.world.pinned }, hsettled, hs₁.pin _,
      hlog.trans (by rw [hg]), ?_⟩
    simp only [merge, ho, mergeRuns, Host.pinning]
    rw [← hg, hset]
    cases hok : o.1 with
    | error err => exact .inl ⟨err, rfl, rfl⟩
    | ok a' =>
      obtain ⟨below, hbelow⟩ := hsettled.exists_below
      have he : o.2.handed.Within (s.uniform ops) := hbelow ▸ (outcome_task hp x below).2.1
      obtain ⟨b₁, hadd, hj⟩ := Batch.exists_add hb he
      have hb₁ := Batch.within_add hb he
      rw [hadd] at hb₁
      refine .inr ⟨a', b₁, rfl, hj, hb₁, ?_⟩
      simp only [Except.map, hadd, Task.checked, reduceCtorEq, if_false]

open Body in
/-- A merge that succeeds has settled the first task, and goes on with the others. -/
theorem mergeRuns_checked (hp : p.Flat ops) {i : Nat} {b b' : Batch V}
    {shared : Option (WriteSet V)} {h h' : Host V (List (Execution V))}
    {rest : List (Task V (List (Execution V)) R × Except Error (R × Contribution V))} {rs : List R}
    (hmode : (h.world.engine x.engine).hooks.modeOfChild = none) (hs : h.world.store = s)
    (hb : b.merged.Within (s.uniform ops))
    (hm : mergeRuns x ((.checked (p.noted i), handOver (p.outcome s (x.task x.layers))) :: rest) b
      shared h = (.ok (rs, b'), h')) :
    ∃ o notes a b₁ h₁ rs', Settled s x b p i o notes ∧ o.1 = .ok a ∧ b.Joined o.2.handed b₁ ∧
      b₁.merged.Within (s.uniform ops) ∧ h.world.Steady x.engine notes.length h₁.world ∧
      h₁.client = h.client ++ notes ∧ rs = a :: rs' ∧
      mergeRuns x rest b₁ shared h₁ = (.ok (rs', b'), h') := by
  have hstep := mergeRuns_cons hp i shared rest hmode hs hb
  rw [hm] at hstep
  rcases hstep with ⟨err, -, herr⟩ | ⟨o, notes, h₁, hset, hsteady, hlog, hend⟩
  · cases herr
  · rcases hend with ⟨err, -, herr⟩ | ⟨a, b₁, hok, hj, hb₁, hrest⟩
    · cases herr
    · obtain ⟨hres, hh⟩ := Prod.mk.inj hrest
      obtain ⟨⟨rs', b₂⟩, hrs, hpair⟩ := map_eq_ok_iff.1 hres.symm
      cases hpair
      exact ⟨o, notes, a, b₁, h₁, rs', hset, hok, hj, hb₁, hsteady, hlog, rfl,
        Prod.ext hrs hh.symm⟩

end VersionedMemory
