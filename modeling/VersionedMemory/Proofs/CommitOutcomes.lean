import VersionedMemory.Proofs.ChronicleInvariant

/-!
# How commits end

A commit finds a transaction whose buffers show what was done. With nothing buffered it succeeds.
Otherwise the observer may veto it; then it fails exactly if a cell that was read has a version by
now that is newer than the snapshot, and it names such a cell. Nothing else can stop it, as no cell
is ahead of the engine, and plain writes and deltas are published to the last one.

## Main definitions

* `Bid.Stale` says that a cell that was read has a version that is newer than the snapshot.
* `Bid.StaleIn` says so of one cell, with both versions.

## Main statements

* `Bid.Fair.answer_cases`: the four answers of a commit, and when each is given.
* `Bid.Fair.staleIn_of_superseded?` and `Bid.Fair.superseded?_of_stale`: validation finds stale
  reads and nothing else.
* `Bid.Fair.lands`: what a commit leaves of the newest values.
-/

namespace VersionedMemory

variable {V : Type} [Inhabited V]

def Bid.veto? (b : Bid V) : Option String :=
  (b.world.engine sole).hooks.observer.bind fun refuse => refuse b.context.id b.context.written

/-- The cell was read at version `read`, which the snapshot saw, and has by now the newer version
`committed`, which the snapshot does not see. -/
structure Bid.StaleIn (b : Bid V) (c : CellId) (read committed : Version) : Prop where
  was_read : ∃ r, .read c r ∈ b.deeds ∧ r.version = read
  read_le : read ≤ b.context.snapshot
  newer : b.context.snapshot < committed
  newest : (b.world.store.cell c).chain.head.version = committed

/-- A cell that was read has by now a version that is newer than the snapshot. -/
def Bid.Stale (b : Bid V) : Prop :=
  ∃ c r, .read c r ∈ b.deeds ∧ b.context.snapshot < b.world.store.latest c

def Deed.readCell? : Deed V → Option CellId
  | .read c _ => some c
  | .put _ _ => none

instance (b : Bid V) : Decidable b.Stale :=
  decidable_of_iff
    (∃ c ∈ b.deeds.filterMap Deed.readCell?, b.context.snapshot < b.world.store.latest c) <| by
    constructor
    · rintro ⟨c, hc, hlt⟩
      obtain ⟨c' | ⟨a, delta⟩, hd, hcell⟩ := List.mem_filterMap.1 hc
      · cases hcell
        exact ⟨c, _, hd, hlt⟩
      · cases hcell
    · rintro ⟨c, r, hr, hlt⟩
      exact ⟨c, List.mem_filterMap.2 ⟨_, hr, rfl⟩, hlt⟩

/-! ### Validation -/

namespace Context

variable {x : Context V} {s : Store V}

theorem superseded?_eq_some {cause : Conflict} (h : x.superseded? s = some cause) :
    ∃ c v, x.reads.get? c = some v ∧ v < s.latest c ∧ cause = .staleRead c v (s.latest c) := by
  obtain ⟨⟨c, v⟩, hmem, hcause⟩ := List.exists_of_findSome?_eq_some h
  dsimp only at hcause
  split at hcause
  · next hlt => exact ⟨c, v, Table.get?_eq_some_iff.2 hmem, hlt, (Option.some.inj hcause).symm⟩
  · cases hcause

theorem latest_le_of_superseded? (h : x.superseded? s = none) {c : CellId} {v : Version}
    (hv : x.reads.get? c = some v) : s.latest c ≤ v := by
  have hnone := List.findSome?_eq_none_iff.1 h (c, v) (Table.get?_eq_some_iff.1 hv)
  simpa using hnone

omit [Inhabited V] in
theorem hasWrites_of_changes (h : x.changes ≠ []) : x.handed.hasWrites = true := by
  refine Bool.not_eq_false _ ▸ fun hnone => h ?_
  have hall := Contribution.hasWrites_eq_false_iff.1 hnone
  refine changes_eq_nil_iff_forall.2 fun c hc => ?_
  have hw : x.writes.get? c = none := (hall c).1
  have hd : x.deltas.get? c = none := (hall c).2
  simp [Changes, Table.contains, hw, hd] at hc

end Context

omit [Inhabited V] in
theorem Context.resultAt_of_not_changes (x : Context V) {c : CellId} (h : ¬ x.Changes c) (v : V) :
    x.resultAt c v = v := by
  simp only [Changes, Table.contains, not_or, Bool.not_eq_true, Option.isSome_eq_false_iff,
    Option.isNone_iff_eq_none] at h
  simp [resultAt, h.1, h.2]

theorem Context.Suits.has {D : Discipline V} {s : Store V} {x : Context V} (h : x.Suits D s)
    {c : CellId} (hc : x.Changes c) : s.Has c := by
  rcases hc with hw | hd
  · obtain ⟨a, ha⟩ := Option.isSome_iff_exists.1 hw
    exact (h.within.writes c a ha).2.1
  · obtain ⟨a, ha⟩ := Option.isSome_iff_exists.1 hd
    exact (h.within.deltas c a ha).2.1

namespace Bid.Fair

variable {D : Discipline V} {hooks : Hooks} {b : Bid V}

theorem active (hb : b.Fair D hooks) :
    b.context.engine = sole ∧ b.context.isActive = true ∧ b.context.isChild = false := by
  obtain ⟨lives, past, hs⟩ := hb.serves
  obtain ⟨he, hk, hst⟩ := hs.active b.context.life (List.mem_cons_self ..)
  have hk' : b.context.kind = none := hk
  exact ⟨he, decide_eq_true (p := b.context.status = .active) hst, by simp [Context.isChild, hk']⟩

theorem answer_eq (hb : b.Fair D hooks) :
    b.answer = ((b.world.engine sole).commit b.context b.world.store).result := by
  obtain ⟨he, ha, ht⟩ := hb.active
  have hres := (b.world.commit_eq ha ht).1
  rwa [he] at hres

theorem plain (hb : b.Fair D hooks) (hD : D.Within (.plain V)) : b.context.Within (.plain V) :=
  (hb.bears.suits.within.mono (D.on_within _)).mono hD

theorem mirrored (hb : b.Fair D hooks) : b.world.store.Mirrored := by
  obtain ⟨lives, past, hs⟩ := hb.serves
  exact hs.recalls.mirrored

theorem aheadOf?_eq_none (hb : b.Fair D hooks) (changes : List (Change V)) :
    aheadOf? ((b.world.engine sole).version + 1) changes b.world.store = none := by
  obtain ⟨lives, past, hs⟩ := hb.serves
  refine Option.map_eq_none_iff.2 (List.find?_eq_none.2 fun a _ => ?_)
  have hle := hs.recalls.behind a.target
  rw [← hs.recalls.mirrored a.target] at hle
  simpa using Nat.lt_succ_of_le hle

/-! ### The answers -/

/-- Every answer of a commit: with nothing to publish, with a veto, with a read that was superseded,
and with a new version. -/
theorem answer_cases (hb : b.Fair D hooks) (hD : D.Within (.plain V)) :
    b.context.changes = [] ∧ b.answer = .ok ⟨b.context.id, b.context.snapshot, 0, true⟩ ∨
      b.context.changes ≠ [] ∧
        ((∃ reason, b.veto? = some reason ∧
            b.answer = .error (.conflict b.context.id (.vetoed reason))) ∨
          b.veto? = none ∧
            ((∃ cause, b.context.superseded? b.world.store = some cause ∧
                b.answer = .error (.conflict b.context.id cause)) ∨
              b.context.superseded? b.world.store = none ∧
                b.answer = .ok ⟨b.context.id, (b.world.engine sole).version + 1,
                  b.context.written.length, false⟩)) := by
  rw [hb.answer_eq]
  by_cases hne : b.context.changes = []
  · refine .inl ⟨hne, ?_⟩
    unfold Engine.commit
    rw [if_pos (Context.changes_eq_nil_iff.1 hne)]
  · refine .inr ⟨hne, ?_⟩
    have hout := congrArg Prod.fst
      ((b.world.engine sole).commit_outcome hne b.world.store)
    change ((b.world.engine sole).commit b.context b.world.store).result = _ at hout
    rw [hout]
    unfold veto?
    cases (b.world.engine sole).hooks.observer.bind
        fun refuse => refuse b.context.id b.context.written with
    | some reason => exact .inl ⟨reason, rfl, rfl⟩
    | none =>
      refine .inr ⟨rfl, ?_⟩
      have hpub := congrArg Prod.fst
        ((b.world.engine sole).publish_outcome b.context b.world.store)
      change ((b.world.engine sole).publish b.context b.world.store).result = _ at hpub
      dsimp only
      rw [hpub]
      have hahead := hb.aheadOf?_eq_none b.context.changes
      cases hsup : b.context.superseded? b.world.store with
      | some cause => exact .inl ⟨cause, rfl, rfl⟩
      | none =>
        refine .inr ⟨rfl, ?_⟩
        dsimp only
        rw [hahead, (hb.plain hD).publishAll_eq hb.mirrored hahead]
        rfl

/-! ### Stale reads -/

/-- What was read is what the snapshot sees. -/
theorem seen (hb : b.Fair D hooks) {c : CellId} {r : Record V} (hr : .read c r ∈ b.deeds) :
    r.version ≤ b.context.snapshot ∧
      (b.world.store.latest c ≤ b.context.snapshot → b.world.store.latest c = r.version) := by
  obtain ⟨lives, past, hs⟩ := hb.serves
  obtain ⟨hc, hat⟩ := hb.bears.handed.seen c r hr
  obtain ⟨r', hnew, hat'⟩ := hs.readAt (List.mem_cons_self ..) hc
  change newestAt (past c) b.context.snapshot = some r' at hnew
  obtain rfl : r' = r := by
    cases hat'.symm.trans hat
    rfl
  have hcell := hs.recalls.cells c hc
  refine ⟨(isNewest_of_newestAt hcell.decreasing hnew).version_le, fun hle => ?_⟩
  rw [hs.recalls.mirrored c] at hle ⊢
  rw [hcell.newestAt_of_head_le hle] at hnew
  rw [Option.some.inj hnew]

/-- Validation names a stale read. -/
theorem staleIn_of_superseded? (hb : b.Fair D hooks) {cause : Conflict}
    (h : b.context.superseded? b.world.store = some cause) :
    ∃ c read committed, cause = .staleRead c read committed ∧ b.StaleIn c read committed := by
  obtain ⟨c, v, hv, hlt, rfl⟩ := Context.superseded?_eq_some h
  obtain ⟨r, hr, rfl⟩ := hb.bears.handed.backed c v hv
  obtain ⟨hle, hsame⟩ := hb.seen hr
  refine ⟨c, r.version, _, rfl, ⟨r, hr, rfl⟩, hle, Nat.lt_of_not_le fun hle => ?_,
    (hb.mirrored c).symm⟩
  exact Nat.ne_of_gt hlt (hsame hle)

theorem stale_of_staleIn {c : CellId} {read committed : Version} (hb : b.Fair D hooks)
    (h : b.StaleIn c read committed) : b.Stale := by
  obtain ⟨r, hr, -⟩ := h.was_read
  refine ⟨c, r, hr, ?_⟩
  rw [hb.mirrored c, h.newest]
  exact h.newer

/-- Validation finds a stale read of a transaction that has something to publish, where nobody
chooses the modes of children. -/
theorem superseded?_of_stale (hb : b.Fair D hooks) (hmode : hooks.modeOfChild = none)
    (hne : b.context.changes ≠ []) (h : b.Stale) :
    b.context.superseded? b.world.store ≠ none := by
  intro hnone
  obtain ⟨c, r, hr, hlt⟩ := h
  have hrec := hb.bears.handed.recorded
    ⟨hmode, hb.bears.allowed (Context.hasWrites_of_changes hne)⟩ c r hr
  obtain ⟨v, hv⟩ := Option.isSome_iff_exists.1 hrec
  obtain ⟨r', hr', rfl⟩ := hb.bears.handed.backed c v hv
  have hle := Context.latest_le_of_superseded? hnone hv
  exact Nat.not_le.2 hlt (Nat.le_trans hle (hb.seen hr').1)

/-- A stale read that a commit reports is one. -/
theorem staleIn_of_answer (hb : b.Fair D hooks) (hD : D.Within (.plain V)) {id : TxnId}
    {c : CellId} {read committed : Version}
    (h : b.answer = .error (.conflict id (.staleRead c read committed))) :
    b.StaleIn c read committed := by
  rcases hb.answer_cases hD with ⟨-, hok⟩ | ⟨-, ⟨reason, -, hveto⟩ | ⟨-, hrest⟩⟩
  · cases hok.symm.trans h
  · cases hveto.symm.trans h
  · rcases hrest with ⟨cause, hsup, hlost⟩ | ⟨-, hok⟩
    · cases hlost.symm.trans h
      obtain ⟨c', read', committed', heq, hstale⟩ := hb.staleIn_of_superseded? hsup
      cases heq
      exact hstale
    · cases hok.symm.trans h

/-- Who has read no committed state has read none that is stale. -/
theorem answer_ne_staleRead (hb : b.Fair D hooks) (hD : D.Within (.plain V))
    (hblind : ∀ c r, Deed.read c r ∉ b.deeds) (id : TxnId) (c : CellId) (read committed : Version) :
    b.answer ≠ .error (.conflict id (.staleRead c read committed)) := by
  intro h
  obtain ⟨r, hr, -⟩ := (hb.staleIn_of_answer hD h).was_read
  exact hblind c r hr

/-- Without a veto, a commit that has something to publish reports a stale read if there is one, and
else succeeds. -/
theorem answer_of_changes (hb : b.Fair D hooks) (hD : D.Within (.plain V))
    (hmode : hooks.modeOfChild = none) (hne : b.context.changes ≠ []) (hveto : b.veto? = none) :
    ((∃ c read committed,
        b.answer = .error (.conflict b.context.id (.staleRead c read committed))) ↔ b.Stale) ∧
      (¬ b.Stale → ∃ receipt, b.answer = .ok receipt) := by
  obtain ⟨-, hrest⟩ := (hb.answer_cases hD).resolve_left fun h => hne h.1
  obtain ⟨-, hrest⟩ := hrest.resolve_left fun ⟨reason, hreason, _⟩ => by
    cases hreason.symm.trans hveto
  refine ⟨⟨fun ⟨c, read, committed, hans⟩ => ?_, fun hstale => ?_⟩, fun hfresh => ?_⟩
  · exact hb.stale_of_staleIn (hb.staleIn_of_answer hD hans)
  · obtain ⟨cause, hsup, hlost⟩ := hrest.resolve_right fun h =>
      hb.superseded?_of_stale hmode hne hstale h.1
    obtain ⟨c, read, committed, rfl, -⟩ := hb.staleIn_of_superseded? hsup
    exact ⟨c, read, committed, hlost⟩
  · rcases hrest with ⟨cause, hsup, -⟩ | ⟨-, hok⟩
    · obtain ⟨c, read, committed, -, hstale⟩ := hb.staleIn_of_superseded? hsup
      exact absurd (hb.stale_of_staleIn hstale) hfresh
    · exact ⟨_, hok⟩

/-! ### What is left -/

/-- A commit that publishes makes its changes to the newest values, at the next version; any other
commit leaves both. -/
theorem lands (hb : b.Fair D hooks) (hD : D.Within (.plain V)) :
    let w := (b.world.commit b.context).2
    w.store.created = b.world.store.created ∧
      ((b.receipt? = none ∧ (w.engine sole).version = (b.world.engine sole).version ∧
          ∀ c, (w.store.cell c).value = (b.world.store.cell c).value) ∨
        ∃ r, b.receipt? = some r ∧ r.version = (b.world.engine sole).version + 1 ∧
          (w.engine sole).version = (b.world.engine sole).version + 1 ∧
          ∀ c, (w.store.cell c).value = b.context.resultAt c (b.world.store.cell c).value) := by
  intro w
  obtain ⟨he, ha, ht⟩ := hb.active
  obtain ⟨hversion, hcreated, hheads⟩ := World.commit_newest (w := b.world) ha ht
  rw [he] at hversion hheads
  have hans := hb.answer_eq
  refine ⟨hcreated, ?_⟩
  have hcases := ((b.world.engine sole).commit_cases b.context b.world.store).2
  unfold receipt?
  rw [hans]
  generalize (b.world.engine sole).commit b.context b.world.store = done at *
  have hkept : done.store = b.world.store →
      done.engine.timeline = (b.world.engine sole).timeline.leave b.context.anchor →
      (w.engine sole).version = (b.world.engine sole).version ∧
        ∀ c, (w.store.cell c).value = (b.world.store.cell c).value := by
    intro hs htl
    refine ⟨?_, fun c => ?_⟩
    · rw [hversion, Engine.version, htl, Timeline.version_head_leave, ← Engine.version]
    · exact congrArg Record.value ((hheads c).trans (by rw [hs]))
  rcases hcases with ⟨-, hok, hs, htl⟩ | ⟨e, herr, -, hs, htl⟩ |
      ⟨-, -, hahead, p, rfl, hs, htl, hres⟩
  · rw [hok]
    exact .inl ⟨rfl, hkept hs htl⟩
  · rw [herr]
    exact .inl ⟨rfl, hkept hs htl⟩
  · rw [(hb.plain hD).publishAll_eq hb.mirrored hahead] at hs htl hres
    rw [hres]
    refine .inr ⟨_, rfl, rfl, ?_, fun c => ?_⟩
    · rw [hversion, Engine.version, htl]
      simp [Timeline.publish]
    · refine (congrArg Record.value ((hheads c).trans (by rw [hs]))).trans ?_
      dsimp only
      rw [(hb.plain hD).cell_publishing]
      split
      · rfl
      · next hc => exact (b.context.resultAt_of_not_changes hc _).symm

theorem resultAt_of_not_has (hb : b.Fair D hooks) {c : CellId} (hc : ¬ b.world.store.Has c)
    (v : V) : b.context.resultAt c v = v :=
  b.context.resultAt_of_not_changes (fun hch => hc (hb.bears.suits.has hch)) v

end Bid.Fair

end VersionedMemory
