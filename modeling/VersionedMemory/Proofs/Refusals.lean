import VersionedMemory.Proofs.Publication

/-!
# What a commit leaves, entry by entry

A commit of plain writes and puts ends in one of three ways, and each of them is known in full. With
nothing buffered, the transaction only ends. Otherwise the commit is shown once, and then it is
either refused as a whole, or all of it is published. In every case the anchor is given back, and
the counters say what happened.

## Main definitions

* `Engine.refusal?` is why a commit that has something to publish is refused, if it is.
* `Journal.shown` adds a commit to the journal, `Metrics.refused` and `Metrics.accepted` count one.

## Main statements

* `Engine.commit_of_bare`, `Engine.commit_of_refusal` and `Engine.commit_of_accepted`: the answer,
  the engine and the store after each of the three.
-/

namespace VersionedMemory

variable {V : Type} [Inhabited V]

/-- The journal with the commit of `x` shown. -/
def Journal.shown (j : Journal) (x : Context V) : Journal :=
  { j with commits := j.commits ++ [(x.id, x.written)] }

/-- The counters after a commit that was refused with `e`. -/
def Metrics.refused (m : Metrics) (e : Error) : Metrics :=
  { m with
    aborted := m.aborted + 1
    conflicts := m.conflicts + if e.isConflict then 1 else 0 }

/-- The counters after a commit that went through, with or without something to publish. -/
def Metrics.accepted (m : Metrics) (readOnly : Bool) : Metrics :=
  { m with
    committed := m.committed + 1
    readOnlyCommits := m.readOnlyCommits + if readOnly then 1 else 0 }

omit [Inhabited V] in
theorem Context.mem_written {x : Context V} {c : CellId} : c ∈ x.written ↔ x.Changes c := by
  simp [written, Changes, Table.mem_keys]

@[simp] theorem Store.created_publishing (s : Store V) (version : Version)
    (changes : List (Change V)) : (s.publishing version changes).created = s.created := by
  induction changes generalizing s with
  | nil => rfl
  | cons c rest ih => exact ih _

namespace Engine

/-- Why a commit that has something to publish is refused, if it is: the observer is asked first,
then the recorded reads are looked at, then the cells to be changed. -/
def refusal? (g : Engine) (x : Context V) (s : Store V) : Option Error :=
  match g.hooks.observer.bind fun refuse => refuse x.id x.written with
  | some reason => some (.conflict x.id (.vetoed reason))
  | none =>
    match x.superseded? s with
    | some cause => some (.conflict x.id cause)
    | none =>
      (aheadOf? (g.version + 1) x.changes s).map fun c =>
        .internal (.aheadOfHead c (s.latest c) g.version)

variable {g : Engine} {x : Context V} {s : Store V}

omit [Inhabited V] in
theorem metrics_finish_committed (g : Engine) (x : Context V) :
    (g.finish x .committed).2.metrics = g.metrics := by
  unfold finish
  cases x.kind <;> rfl

omit [Inhabited V] in
theorem metrics_finish_aborted (g : Engine) (hk : x.kind = none) (reason : String) :
    (g.finish x (.aborted reason)).2.metrics =
      { g.metrics with aborted := g.metrics.aborted + 1 } := by
  simp [finish, hk]

/-- A commit with nothing buffered ends the transaction. Nobody is shown it. -/
theorem commit_of_bare (g : Engine) (hx : x.changes = []) (s : Store V) :
    g.commit x s =
      ⟨.ok ⟨x.id, x.snapshot, 0, true⟩, (g.finish x .committed).1,
        { g with
          timeline := g.timeline.leave x.anchor
          metrics := g.metrics.accepted true }, s⟩ := by
  have hm := g.metrics_finish_committed x
  unfold commit
  rw [if_pos (Context.changes_eq_nil_iff.1 hx)]
  dsimp only
  rw [hm]
  rfl

/-- A commit with something buffered is shown; a veto is the end of the transaction. -/
theorem commit_of_veto (hx : x.changes ≠ []) {reason : String}
    (hveto : (g.hooks.observer.bind fun refuse => refuse x.id x.written) = some reason) :
    g.commit x s =
      let (e, x', g') := { g with journal := g.journal.shown x }.lose x (.vetoed reason)
      ⟨.error e, x', g', s⟩ := by
  unfold commit observe
  rw [if_neg fun hnone => hx (Context.changes_eq_nil_iff.2 hnone), hveto]
  rfl

/-- A commit with something buffered is published if there is no veto. -/
theorem commit_of_assent (hx : x.changes ≠ [])
    (hveto : (g.hooks.observer.bind fun refuse => refuse x.id x.written) = none) :
    g.commit x s = { g with journal := g.journal.shown x }.publish x s := by
  unfold commit observe
  rw [if_neg fun hnone => hx (Context.changes_eq_nil_iff.2 hnone), hveto]
  rfl

/-- A commit that is refused was shown, counts as an abort, and changes no cell. -/
theorem commit_of_refusal (hx : x.changes ≠ []) (hk : x.kind = none) {e : Error}
    (he : g.refusal? x s = some e) :
    (g.commit x s).result = .error e ∧ (g.commit x s).store = s ∧
      (g.commit x s).engine =
        { g with
          journal := g.journal.shown x
          timeline := g.timeline.leave x.anchor
          metrics := g.metrics.refused e } := by
  cases hveto : g.hooks.observer.bind fun refuse => refuse x.id x.written with
  | some reason =>
    obtain rfl : Error.conflict x.id (.vetoed reason) = e := by simpa [refusal?, hveto] using he
    rw [commit_of_veto hx hveto]
    refine ⟨rfl, rfl, ?_⟩
    simp [lose, finish, hk, Metrics.refused, Error.isConflict]
  | none =>
    rw [commit_of_assent hx hveto]
    cases hcause : x.superseded? s with
    | some cause =>
      obtain rfl : Error.conflict x.id cause = e := by simpa [refusal?, hveto, hcause] using he
      unfold publish
      rw [hcause]
      refine ⟨rfl, rfl, ?_⟩
      simp [lose, finish, hk, Metrics.refused, Error.isConflict]
    | none =>
      obtain ⟨c, hc, rfl⟩ : ∃ c, aheadOf? (g.version + 1) x.changes s = some c ∧
          Error.internal (.aheadOfHead c (s.latest c) g.version) = e := by
        simpa [refusal?, hveto, hcause] using he
      unfold publish
      rw [hcause]
      dsimp only [version] at hc ⊢
      rw [hc]
      refine ⟨rfl, rfl, ?_⟩
      simp [finish, hk, Metrics.refused, Error.isConflict]

/-- A commit that is not refused was shown, and publishes all that is buffered. -/
theorem commit_of_accepted (hs : s.Mirrored) (hp : x.Within (.plain V)) (hx : x.changes ≠ [])
    (ha : g.refusal? x s = none) :
    g.commit x s =
      ⟨.ok ⟨x.id, g.version + 1, x.written.length, false⟩, (g.finish x .committed).1,
        { g with
          journal := g.journal.shown x
          timeline :=
            (g.timeline.publish (g.version + 1) (x.changes.map Change.target)).leave x.anchor
          metrics := g.metrics.accepted false },
        s.publishing (g.version + 1) x.changes⟩ := by
  cases hveto : g.hooks.observer.bind fun refuse => refuse x.id x.written with
  | some reason => simp [refusal?, hveto] at ha
  | none =>
    cases hcause : x.superseded? s with
    | some cause => simp [refusal?, hveto, hcause] at ha
    | none =>
      have hahead : aheadOf? (g.version + 1) x.changes s = none := by
        simpa [refusal?, hveto, hcause] using ha
      rw [commit_of_assent hx hveto]
      unfold publish
      rw [hcause]
      dsimp only [version] at hahead ⊢
      rw [hahead]
      dsimp only
      rw [hp.publishAll_eq hs hahead]
      dsimp only
      rw [metrics_finish_committed]
      rfl

end Engine

end VersionedMemory
