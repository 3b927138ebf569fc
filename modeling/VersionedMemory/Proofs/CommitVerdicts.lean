import VersionedMemory.Proofs.FaithfulPrograms

/-!
# Verdicts on commits

In a run of one engine, whose cells nobody else changes, a transaction that has something to publish
loses to a stale read exactly if one of the cells that it read from committed state has a version by
now that is newer than its snapshot. Nothing else makes it fail but the veto of an observer: no call
and no commit ever meets a broken invariant of the engine.

The run is one of any actions, with any programs as bodies, which stage nothing by hand. What a
transaction read is what it read itself or in children that were merged, in the chronicle of the
run; without its chronicle the run is the same, as `world_chronicled` says.

## Main definitions

* `Host.offers` is every commit of a run: those that were asked for, and those that could be asked
  for in the end.
* `Error.IsFault` says that an error tells of a broken invariant, and is no body's own complaint.

## Main statements

* `commit_verdict`: when commits succeed, and when they lose to stale reads.
* `no_fault`: no call fails in a fault, and neither does a commit.
-/

namespace VersionedMemory

variable {V R : Type} [Inhabited V]

/-- The commits that were asked for, where they were, and one for each transaction that is alive in
the end. -/
def Host.offers (h : Host V (Chronicle V)) : List (Bid V) :=
  h.client.bids ++ h.world.alive.map fun x => ⟨h.world, x, h.client.deeds x.id⟩

/-- Every commit that was asked for, or may still be, finds a transaction in order. -/
theorem Host.Ready.fair_offers {D : Discipline V} {hooks : Hooks} {F : Error → Prop}
    {run : List (Context V)} {h : Host V (Chronicle V)} (hr : h.Ready D hooks F run) :
    ∀ b ∈ h.offers, b.Fair D hooks := by
  intro b hb
  rcases List.mem_append.1 hb with hb | hb
  · exact (hr.order.fair b hb).1
  · obtain ⟨x, hx, rfl⟩ := List.mem_map.1 hb
    obtain ⟨past, hs⟩ := hr.sound
    obtain ⟨l, l', hl⟩ := List.append_of_mem hx
    have hlive : (h.world.alive ++ run).Perm (x :: (l ++ l' ++ run)) := by
      rw [hl]
      exact List.perm_middle.append_right run
    exact ⟨hr.order.alive x hx, ⟨_, past, World.Serves.perm hs (hlive.map Context.life)⟩,
      hr.order.hooks_eq⟩

/-! ### Stale reads -/

/-- Take any run of one engine in which children have the modes of their parents, and any
transaction of the run. With nothing buffered a commit succeeds. With something buffered and no veto
it loses to a stale read if and only if some cell that the transaction read from committed state has
by now a version newer than the snapshot, and it succeeds otherwise. The stale read that it reports
is one of those, with the version that was read and the newest one. A transaction that has read no
committed state never loses so. -/
theorem commit_verdict (config : Config) {hooks : Hooks} {actions : List (Action V R)}
    (hmode : hooks.modeOfChild = none) (hl : ∀ a ∈ actions, a.Local)
    (ha : ∀ a ∈ actions, a.Abides (.plain V) fun _ => True)
    (hn : (chronicled config hooks actions).client.strays = []) :
    ∀ b ∈ (chronicled config hooks actions).offers,
      (b.context.changes = [] → b.answer = .ok ⟨b.context.id, b.context.snapshot, 0, true⟩) ∧
      (b.context.changes ≠ [] → b.veto? = none →
        ((∃ c read committed,
            b.answer = .error (.conflict b.context.id (.staleRead c read committed))) ↔ b.Stale) ∧
        (¬ b.Stale → ∃ receipt, b.answer = .ok receipt)) ∧
      (∀ id c read committed, b.answer = .error (.conflict id (.staleRead c read committed)) →
        b.StaleIn c read committed) ∧
      ((∀ c r, Deed.read c r ∉ b.deeds) →
        ∀ id c read committed, b.answer ≠ .error (.conflict id (.staleRead c read committed))) := by
  intro b hb
  have hD := Discipline.Within.refl (Discipline.plain V)
  have hfair := (chronicled_ready config hooks hD (fun _ => trivial) hl ha hn).fair_offers b hb
  refine ⟨fun hnone => ?_, hfair.answer_of_changes hD hmode,
    fun id c read committed hans => hfair.staleIn_of_answer hD hans, hfair.answer_ne_staleRead hD⟩
  rcases hfair.answer_cases hD with ⟨-, hok⟩ | ⟨hne, -⟩
  · exact hok
  · exact absurd hnone hne

/-- A transaction that was to stay read-only, read a cell that another one changed meanwhile, and
then wrote another cell, loses. -/
theorem commit_verdict_upgraded :
    let actions : List (Action Nat Unit) :=
      [.create sole 0 1, .create sole 0 0, .begin sole .speculative,
        .perform 0 (.read ⟨1⟩ fun _ =>
          .aside (.atomically sole .readWrite (.write ⟨1⟩ 2 fun _ => .done ()))
            (.write ⟨2⟩ 11 fun _ => .done ()))]
    ∃ b ∈ (chronicled {} {} actions).offers, b.context.changes ≠ [] ∧ b.Stale ∧
      ∃ c read committed,
        b.answer = .error (.conflict b.context.id (.staleRead c read committed)) := by
  intro actions
  have hl : ∀ a ∈ actions, a.Local := by simp [actions, Action.Local, Program.Local]
  have ha : ∀ a ∈ actions, a.Abides (.plain Nat) fun _ => True := by
    simp [actions, Action.Abides, Program.Abides, Discipline.plain]
  have hn : (chronicled {} {} actions).client.strays = [] := by decide +kernel
  have hlate : ∃ b ∈ (chronicled {} {} actions).offers,
      b.context.changes.isEmpty = false ∧ b.veto? = none ∧ b.Stale := by decide +kernel
  obtain ⟨b, hb, hempty, hveto, hstale⟩ := hlate
  have hne : b.context.changes ≠ [] := fun hnone => by simp [hnone] at hempty
  exact ⟨b, hb, hne, hstale, ((commit_verdict {} rfl hl ha hn b hb).2.1 hne hveto).1.2 hstale⟩

/-! ### Faults -/

/-- The error tells of a broken invariant of the engine. -/
def Error.IsFault (e : Error) : Prop := ∃ cause, e = .internal cause ∧ ∀ text, cause ≠ .other text

/-- A commit in order fails in conflicts only. -/
theorem Bid.Fair.not_isFault {D : Discipline V} {hooks : Hooks} {b : Bid V} (hb : b.Fair D hooks)
    (hD : D.Within (.plain V)) {e : Error} (he : b.answer = .error e) : ¬ e.IsFault := by
  rintro ⟨cause, rfl, -⟩
  rcases hb.answer_cases hD with ⟨-, hok⟩ | ⟨-, ⟨reason, -, hveto⟩ | ⟨-, hrest⟩⟩
  · cases hok.symm.trans he
  · cases hveto.symm.trans he
  · rcases hrest with ⟨lost, -, hlost⟩ | ⟨-, hok⟩
    · cases hlost.symm.trans he
    · cases hok.symm.trans he

/-- In a run of one engine, with any hooks, whose bodies stage nothing by hand and raise no faults
of their own while they meet none, no access, child or batch fails in a fault, and neither does a
commit. -/
theorem no_fault (config : Config) (hooks : Hooks) {actions : List (Action V R)}
    (hl : ∀ a ∈ actions, a.Local) (ha : ∀ a ∈ actions, a.Abides (.plain V) fun e => ¬ e.IsFault)
    (hn : (chronicled config hooks actions).client.strays = []) :
    (∀ e ∈ (chronicled config hooks actions).client.failures, ¬ e.IsFault) ∧
      ∀ b ∈ (chronicled config hooks actions).offers, ∀ e, b.answer = .error e → ¬ e.IsFault := by
  have hD := Discipline.Within.refl (Discipline.plain V)
  have hF : ∀ id, ¬ (Error.illegal (.writeInReadOnly id)).IsFault := by
    rintro id ⟨cause, hcause, -⟩
    cases hcause
  have hready := chronicled_ready config hooks hD hF hl ha hn
  exact ⟨hready.order.failures, fun b hb e he => (hready.fair_offers b hb).not_isFault hD he⟩

/-- A run with a child that fails, a task that runs again, a veto, a stale read, a parked
transaction and reclamation after every commit, in which modes of children are chosen. -/
theorem no_fault_busy :
    let config : Config := { reclaimEvery := some 1, maxAttempts := 2 }
    let hooks : Hooks :=
      { modeOfChild := some fun kind mode => if kind = .nested then .speculative else mode
        observer := some fun _ written => if ⟨3⟩ ∈ written then some "frozen" else none }
    let actions : List (Action Nat Unit) :=
      [.create sole 0 1, .create sole 0 0, .create sole 0 0, .begin sole .readWrite,
        .perform 0 (.nested (.write ⟨2⟩ 5 fun _ => .fail (.aborted ⟨1⟩ "given up")) fun _ =>
          .parallel 2 (fun _ => .checked)
            (fun _ => .read ⟨1⟩ fun _ => .write ⟨1⟩ 3 fun _ => .done ()) fun _ => .done ()),
        .park sole 0,
        .atomically sole .readWrite (.write ⟨1⟩ 7 fun _ => .done ()),
        .atomically sole .readWrite (.write ⟨3⟩ 7 fun _ => .done ()),
        .unpark sole ⟨1⟩, .commit 1]
    let h := chronicled config hooks actions
    (h.client.failures = [.aborted ⟨1⟩ "given up"] ∧
        h.client.bids.map (fun b => b.answer.toOption.isSome) = [true, false, false, false]) ∧
      (∀ e ∈ h.client.failures, ¬ e.IsFault) ∧
        ∀ b ∈ h.offers, ∀ e, b.answer = .error e → ¬ e.IsFault := by
  intro config hooks actions h
  have hl : ∀ a ∈ actions, a.Local := by simp [actions, Action.Local, Program.Local]
  have ha : ∀ a ∈ actions, a.Abides (.plain Nat) fun e => ¬ e.IsFault := by
    simp [actions, Action.Abides, Program.Abides, Discipline.plain, Error.IsFault]
  have hn : h.client.strays = [] := by decide +kernel
  have hrun : h.client.failures = [.aborted ⟨1⟩ "given up"] ∧
      h.client.bids.map (fun b => b.answer.toOption.isSome) = [true, false, false, false] := by
    decide +kernel
  refine ⟨hrun, ?_⟩
  clear hrun
  -- all that has to be computed is settled
  clear_value config hooks actions
  exact no_fault config hooks hl ha hn

end VersionedMemory
