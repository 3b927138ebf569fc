import VersionedMemory.Proofs.RunningAlone
import VersionedMemory.Proofs.LowWater
import VersionedMemory.Proofs.Retention
import VersionedMemory.Proofs.Snapshot

/-!
# The counters balance

An engine counts the transactions that begin and those that end, one way or the other, and the
values that reclamation gives up. Whatever happens to a transaction, it is counted once when it ends
and gives its anchor back once. So at every point of a run the counters say how many transactions
are live, and how many values are retained.

What is published is entered in a ledger: each commit that publishes enters every cell that it
changes, with the version that it publishes.

## Main definitions

* `Metrics.Balances` says that the counters fit a number of live transactions and a version.
* `World.Balances` says so of a world, and that the cells retain what was entered in a ledger of a
  given length and was not given up.
* `World.entries` is what a commit enters in the ledger.
* `Scene.Plain` says that live transactions have buffered writes and puts alone, and
  `Scene.Plainly` that a step buffers nothing else.
* `Scene.Tallied` says that a run comes to a scene with a ledger.
* `Scene.AddsUp` says that the counters account for the live transactions and for the values, and
  `Scene.ChildrenUncounted` that no child is counted.

## Main statements

* `World.Balances.commit`, `World.Balances.abort`, `World.Balances.reclaim`: what ends a transaction
  or gives values up keeps the balance.
* `Scene.Step.balances`: a step is a commit, or it keeps the balance.
* `Program.upholds_lasting`: children are not counted.
* `Scene.counters_balance`: the counters of an engine at every point of a run.
-/

namespace VersionedMemory

variable {V σ R : Type}

namespace Metrics

/-- The counters without that of the tasks that ran again. -/
def lasting (m : Metrics) : Metrics := { m with reruns := 0 }

/-- The counters fit `live` live transactions and a head of the given version. -/
structure Balances (m : Metrics) (version : Version) (live : Nat) : Prop where
  started : m.started = m.committed + m.aborted + live
  conflicts : m.conflicts ≤ m.aborted
  published : m.committed = m.readOnlyCommits + version

variable {m m' : Metrics} {version : Version} {live : Nat}

theorem Balances.congr (h : m.Balances version live) (hm : m'.lasting = m.lasting) :
    m'.Balances version live := by
  obtain ⟨started, committed, readOnlyCommits, aborted, conflicts, reruns, passes, reclaimed⟩ := m
  obtain ⟨started', committed', readOnlyCommits', aborted', conflicts', reruns', passes',
    reclaimed'⟩ := m'
  cases hm
  exact ⟨h.started, h.conflicts, h.published⟩

theorem Balances.begun (h : m.Balances version live) :
    { m with started := m.started + 1 }.Balances version (live + 1) :=
  ⟨congrArg (· + 1) h.started, h.conflicts, h.published⟩

theorem Balances.aborted (h : m.Balances version (live + 1)) :
    { m with aborted := m.aborted + 1 }.Balances version live := by
  obtain ⟨hs, hc, hp⟩ := h
  exact ⟨by dsimp only; omega, Nat.le_succ_of_le hc, hp⟩

theorem Balances.refused (h : m.Balances version (live + 1)) (e : Error) :
    (m.refused e).Balances version live := by
  obtain ⟨hs, hc, hp⟩ := h.aborted
  refine ⟨hs, ?_, hp⟩
  unfold Metrics.refused
  have hconflicts := h.conflicts
  dsimp only
  split <;> omega

theorem Balances.accepted (h : m.Balances version (live + 1)) (readOnly : Bool) :
    (m.accepted readOnly).Balances (if readOnly then version else version + 1) live := by
  obtain ⟨hs, hc, hp⟩ := h
  unfold Metrics.accepted
  cases readOnly
  · exact ⟨by dsimp only; omega, hc, by simp; omega⟩
  · exact ⟨by dsimp only; omega, hc, by simp; omega⟩

end Metrics

variable [Inhabited V]

/-! ### The operations of a world -/

namespace World

/-- The counters of the engine fit `live` live transactions, and the cells retain what was created
or entered in a ledger of `count` entries and was not given up since. -/
structure Balances (w : World V) (live count : Nat) : Prop where
  counters : (w.engine sole).metrics.Balances (w.engine sole).version live
  retained : w.store.retained + (w.engine sole).metrics.reclaimed = w.store.created + count
  bare : w.store.Bare

/-- What a commit enters in the ledger: the cells that it changes, each once, with the version that
it publishes. -/
def entries (w : World V) (x : Context V) : List (Version × CellId) :=
  match (w.commit x).1 with
  | .ok receipt => if receipt.readOnly then [] else x.written.dedup.map (receipt.version, ·)
  | .error _ => []

variable {w w' : World V} {x : Context V} {live count : Nat}

theorem Balances.congr (h : w.Balances live count)
    (hm : (w'.engine sole).metrics.lasting = (w.engine sole).metrics.lasting)
    (hv : (w'.engine sole).version = (w.engine sole).version)
    (hc : w'.store.created = w.store.created)
    (hcell : ∀ c, (w'.store.cell c).chain = (w.store.cell c).chain) : w'.Balances live count where
  counters := by
    rw [hv]
    exact h.counters.congr hm
  retained := by
    have hr : (w'.engine sole).metrics.reclaimed = (w.engine sole).metrics.reclaimed :=
      (congrArg Metrics.reclaimed hm :)
    rw [Store.retained_congr hc fun c => congrArg Chain.size (hcell c), hc, hr]
    exact h.retained
  bare := h.bare.congr hc fun c _ => hcell c

/-- A new cell is one more, and retains one value more. -/
theorem Balances.create (h : w.Balances live count) {type : ContentType} {value : V}
    (hs : w'.store = (w.store.create type value).2)
    (hm : (w'.engine sole).metrics = (w.engine sole).metrics)
    (hv : (w'.engine sole).version = (w.engine sole).version) : w'.Balances live count where
  counters := by
    rw [hv, hm]
    exact h.counters
  retained := by
    have hold := h.retained
    rw [hs, hm, Store.retained_create, Store.created_create]
    omega
  bare := hs ▸ h.bare.create type value

theorem Balances.begin (h : w.Balances live count) (mode : Mode) :
    (w.begin sole mode).2.Balances (live + 1) count := by
  have hg : (w.begin sole mode).2.engine sole = ((w.engine sole).begin (V := V) sole mode).2 := by
    simp [World.begin]
  refine ⟨?_, ?_, h.bare⟩
  · rw [hg]
    exact h.counters.begun
  · rw [hg]
    exact h.retained

theorem Balances.abort (h : w.Balances (live + 1) count) (he : x.engine = sole)
    (ha : x.isActive = true) (ht : x.isChild = false) (reason : String) :
    (w.abort x reason).Balances live count := by
  have hkind : x.kind = none := by simpa [Context.isChild] using ht
  have hm : ((w.abort x reason).engine sole).metrics =
      { (w.engine sole).metrics with aborted := (w.engine sole).metrics.aborted + 1 } := by
    rw [← Engine.metrics_finish_aborted _ hkind reason]
    simp [World.abort, he, Engine.abort, ha]
  refine ⟨?_, ?_, h.bare⟩
  · rw [version_abort, hm]
    exact h.counters.aborted
  · rw [hm]
    exact h.retained

/-- A reclamation pass counts what it gives up. -/
theorem Balances.reclaim (h : w.Balances live count) : (w.reclaim sole).2.Balances live count := by
  have hg := (w.engine_reclaim sole sole).trans (if_pos rfl)
  have hgiven := w.retained_reclaim h.bare sole
  have hold := h.retained
  refine ⟨?_, ?_, w.bare_reclaim h.bare sole⟩
  · rw [version_reclaim, hg]
    exact ⟨h.counters.started, h.counters.conflicts, h.counters.published⟩
  · rw [hg, created_reclaim]
    dsimp only
    omega

theorem Balances.reclaimHolding (h : w.Balances live count) (cells : List CellId) :
    (w.reclaimHolding cells sole).Balances live count := by
  have hpinned : ({ w with pinned := cells ++ w.pinned } : World V).Balances live count :=
    ⟨h.counters, h.retained, h.bare⟩
  obtain ⟨hc, hr, hb⟩ := hpinned.reclaim
  exact ⟨hc, hr, hb⟩

/-- A commit publishes nothing and enters nothing, or it publishes all that is buffered and enters
the cells that it changes. -/
theorem commit_ends (hs : w.store.Mirrored) (ha : x.isActive = true) (ht : x.isChild = false)
    (hx : x.Within (.plain V)) :
    let g := w.engine x.engine
    let done := g.commit x w.store
    (w.entries x = [] ∧ done.store = w.store ∧ done.engine.version = g.version ∧
        (done.engine.metrics = g.metrics.accepted true ∨
          ∃ e, done.engine.metrics = g.metrics.refused e)) ∨
      (w.entries x = x.written.dedup.map (g.version + 1, ·) ∧
        aheadOf? (g.version + 1) x.changes w.store = none ∧
        done.store = w.store.publishing (g.version + 1) x.changes ∧
        done.engine.version = g.version + 1 ∧ done.engine.metrics = g.metrics.accepted false) := by
  intro g done
  have hkind : x.kind = none := by simpa [Context.isChild] using ht
  have hans : (w.commit x).1 = done.result := (w.commit_eq ha ht).1
  unfold entries
  rw [hans]
  by_cases hbare : x.changes = []
  · have hdone : done = _ := g.commit_of_bare hbare w.store
    rw [hdone]
    exact .inl ⟨rfl, rfl, Timeline.version_head_leave _ _, .inl rfl⟩
  · cases hrefusal : g.refusal? x w.store with
    | some e =>
      obtain ⟨hr, hst, hg⟩ : done.result = _ ∧ done.store = _ ∧ done.engine = _ :=
        Engine.commit_of_refusal hbare hkind hrefusal
      rw [hr, hst, hg]
      exact .inl ⟨rfl, rfl, Timeline.version_head_leave _ _, .inr ⟨e, rfl⟩⟩
    | none =>
      have hdone : done = _ := Engine.commit_of_accepted hs hx hbare hrefusal
      obtain ⟨-, -, hbehind, -⟩ := Engine.commit_ok hs hx
        (congrArg Engine.Committed.result hdone) rfl
      rw [hdone]
      exact .inr ⟨rfl, hbehind, rfl, Timeline.version_head_leave _ _, rfl⟩

/-- However the engine decides on a commit, the transaction is counted, and what it publishes is
entered in the ledger. -/
theorem Balances.decided (h : w.Balances (live + 1) count) (hs : w.store.Mirrored)
    (he : x.engine = sole) (ha : x.isActive = true) (ht : x.isChild = false)
    (hx : x.Within ((Discipline.plain V).on w.store)) :
    (w.decided x).Balances live (count + (w.entries x).length) := by
  have hg := w.engine_decided x
  have hst := w.store_decided x
  have hends := commit_ends hs ha ht (hx.mono (Discipline.on_within _ _))
  rw [he] at hg hst hends
  rcases hends with ⟨hentries, hsame, hv, hm⟩ | ⟨hentries, hbehind, hnew, hv, hm⟩
  · have hreclaimed : ((w.engine sole).commit x w.store).engine.metrics.reclaimed =
        (w.engine sole).metrics.reclaimed := by
      rcases hm with hm | ⟨e, hm⟩ <;> rw [hm] <;> rfl
    rw [hentries]
    refine ⟨?_, ?_, (hst.trans hsame) ▸ h.bare⟩
    · rw [hg, hv]
      rcases hm with hm | ⟨e, hm⟩ <;> rw [hm]
      · exact h.counters.accepted true
      · exact h.counters.refused e
    · rw [hg, hst, hsame, hreclaimed]
      exact h.retained
  · refine ⟨?_, ?_, (hst.trans hnew) ▸ h.bare.publishing hx⟩
    · rw [hg, hv, hm]
      exact h.counters.accepted false
    · have hold := h.retained
      rw [hg, hm, hst, hnew, Store.created_publishing, Store.retained_publishing hx hs hbehind,
        hentries, List.length_map]
      dsimp only [Metrics.accepted]
      omega

/-- A commit keeps the balance, also where a reclamation pass follows. -/
theorem Balances.commit (h : w.Balances (live + 1) count) (hs : w.store.Mirrored)
    (he : x.engine = sole) (ha : x.isActive = true) (ht : x.isChild = false)
    (hx : x.Within ((Discipline.plain V).on w.store)) :
    (w.commit x).2.Balances live (count + (w.entries x).length) := by
  have hdecided := h.decided hs he ha ht hx
  rcases (w.commit_eq ha ht).2 with hw | ⟨receipt, -, -, hw⟩
  · rw [hw]
    exact hdecided
  · rw [hw]
    have hafter := hdecided.reclaimHolding ((w.engine x.engine).commit x w.store).context.holds
    rw [← he] at hafter
    exact hafter

end World

/-! ### Steps -/

namespace Context

/-- An access that buffers nothing but writes and puts, to cells that are there. -/
inductive PlainAccess (s : Store V) (x : Context V) : Context V → Prop
  | read (c : CellId) : PlainAccess s x (x.read (s.cell c)).2
  | get (a : Accumulator V) : PlainAccess s x (x.get (s.cell a.base) a.op).2
  | write {c : CellId} (value : V) : s.Has c → PlainAccess s x (x.write (s.cell c) value).2
  | put {a : Accumulator V} (delta : V) :
    s.Has a.base → PlainAccess s x (x.put (s.cell a.base) a.op delta).2
  | adopt {e : Contribution V} :
    e.Within ((Discipline.plain V).on s) → PlainAccess s x (x.adopt e).2

theorem PlainAccess.within {s : Store V} {x y : Context V} (h : x.PlainAccess s y)
    (hx : x.Within ((Discipline.plain V).on s)) : y.Within ((Discipline.plain V).on s) := by
  cases h with
  | read c => exact hx.read _
  | get a => exact hx.get _ _
  | write value hc =>
    refine hx.write ?_
    rw [Store.id_cell]
    exact ⟨⟨rfl, value, rfl⟩, hc, rfl⟩
  | put delta hc =>
    refine hx.stage ?_
    rw [Store.id_cell]
    exact ⟨⟨rfl, _, delta, rfl⟩, hc, rfl⟩
  | adopt he => exact hx.adopt he

omit [Inhabited V] in
theorem within_of_bare {D : Discipline V} {x : Context V} (hx : x.changes = [])
    (hs : x.shared = none) : x.Within D := by
  have hnone : ∀ a, a ∉ x.writes.values ++ x.deltas.values := fun a ha => by
    have hmem : a ∈ x.changes := ha
    rw [hx] at hmem
    cases hmem
  refine ⟨fun c a ha => ?_, fun c a ha => ?_, fun ws hws => ?_⟩
  · exact absurd (List.mem_append_left _ (Table.mem_values.2 ⟨c, ha⟩)) (hnone a)
  · exact absurd (List.mem_append_right _ (Table.mem_values.2 ⟨c, ha⟩)) (hnone a)
  · exact absurd (hws.symm.trans hs) (Option.some_ne_none ws)

end Context

namespace Scene

variable {s s' : Scene V} {x : Context V} {rest : List (Context V)} {count : Nat}

/-- The live transactions have buffered writes and puts alone, to cells that are there. -/
def Plain (s : Scene V) : Prop := ∀ x ∈ s.live, x.Within ((Discipline.plain V).on s.store)

/-- A step in which nothing but writes and puts is buffered. Who is live after it was so before, has
begun, or has made such an access. -/
def Plainly (s s' : Scene V) : Prop :=
  Step s s' ∧ ∀ y ∈ s'.live, y ∈ s.live ∨ (∃ mode, y = (s.world.begin sole mode).1) ∨
    ∃ x ∈ s.live, x.PlainAccess s.store y

/-- Cells stay there and keep their types, so what was buffered before still suits them. -/
theorem Plainly.plain (h : Plainly s s') (hs : s.Sound) (hp : s.Plain) : s'.Plain := by
  obtain ⟨hst, hlive⟩ := h
  have hprecedes := (hst.passes hs).1.precedes
  have hhas : ∀ c, s.store.Has c → s'.store.Has c :=
    fun c hc => ⟨hc.1, Nat.le_trans hc.2 hprecedes.created_le⟩
  have hon : ((Discipline.plain V).on s.store).Within ((Discipline.plain V).on s'.store) :=
    ⟨fun c _ ⟨ha, hc, ht⟩ => ⟨ha, hhas c hc, ht.trans (hprecedes.type_eq c hc).symm⟩,
      fun c _ ⟨ha, hc, ht⟩ => ⟨ha, hhas c hc, ht.trans (hprecedes.type_eq c hc).symm⟩⟩
  intro y hy
  rcases hlive y hy with hold | ⟨mode, rfl⟩ | ⟨x, hx, ha⟩
  · exact (hp y hold).mono hon
  · exact Context.within_begin ..
  · exact (ha.within (hp x hx)).mono hon

theorem Sound.proper (hs : s.Sound) (hx : x ∈ s.live) :
    x.engine = sole ∧ x.isActive = true ∧ x.isChild = false := by
  obtain ⟨he, hk, hst⟩ := hs.active x.life (List.mem_map_of_mem hx)
  have hkind : x.kind = none := hk
  exact ⟨he, decide_eq_true (p := x.status = .active) hst, by simp [Context.isChild, hkind]⟩

/-- The version is as before, and the counters fit what is retained and who is live. -/
def Retains (s s' : Scene V) (count : Nat) : Prop :=
  s'.engine.version = s.engine.version ∧ s'.world.Balances s'.live.length count

/-- What counts nothing keeps the balance if as many transactions are live as before, whoever has
them. -/
theorem retains_of_length {w : World V} {running : List (Context V)}
    (hb : s.world.Balances s.live.length count) (hs : w.store = s.world.store)
    (hm : (w.engine sole).metrics.lasting = (s.world.engine sole).metrics.lasting)
    (hv : (w.engine sole).version = (s.world.engine sole).version)
    (hl : s.live.length = (w.alive ++ running).length) :
    s.Retains (s.next w running) count := by
  refine ⟨hv, ?_⟩
  have hbal : w.Balances s.live.length count :=
    hb.congr hm hv (by rw [hs]) fun c => by rw [hs]
  rw [hl] at hbal
  exact hbal

/-- Aborting a transaction keeps the balance, after hands may have changed. -/
theorem retains_of_abort {w : World V} {running : List (Context V)}
    (hb : s.world.Balances s.live.length count) (hs : w.store = s.world.store)
    (hg : w.engine sole = s.world.engine sole)
    (hx : x.engine = sole ∧ x.isActive = true ∧ x.isChild = false)
    (hl : s.live.length = (w.alive ++ running).length + 1) (reason : String) :
    s.Retains (s.next (w.abort x reason) running) count := by
  obtain ⟨he, ha, ht⟩ := hx
  refine ⟨(World.version_abort w x reason sole).trans (congrArg Engine.version hg), ?_⟩
  have hbal : w.Balances s.live.length count :=
    hb.congr (by rw [hg]) (by rw [hg]) (by rw [hs]) fun c => by rw [hs]
  rw [hl] at hbal
  exact hbal.abort he ha ht reason

theorem Sound.retains_bind (hs : s.Sound) (hb : s.world.Balances s.live.length count)
    (hp : s.running.Perm (x :: rest)) (t : ThreadId) :
    s.Retains (s.next (s.world.bind t x).2 rest) count := by
  have hfirst := live_perm_cons hp
  unfold World.bind
  split
  · exact retains_of_abort hb rfl rfl (hs.proper (hfirst.mem_iff.2 (List.mem_cons_self ..)))
      hfirst.length_eq _
  · next hn =>
    refine retains_of_length hb rfl rfl rfl (hfirst.length_eq.trans ?_)
    have hput : { s.world with bound := s.world.bound.insert t x }.alive.Perm
        (x :: s.world.alive) :=
      ((Table.values_insert_of_none hn x).append_left _).trans List.perm_middle
    exact (hput.append_right rest).length_eq.symm

theorem Sound.retains_park (hs : s.Sound) (hb : s.world.Balances s.live.length count)
    (hp : s.running.Perm (x :: rest)) : s.Retains (s.next (s.world.park sole x).2 rest) count := by
  have hfirst := live_perm_cons hp
  obtain ⟨-, ha, ht⟩ := hs.proper (hfirst.mem_iff.2 (List.mem_cons_self ..))
  have hc : x.checkActive = .ok () := by simp [Context.checkActive, ha]
  have hins : { s.world with parked := s.world.parked.insert (sole, x.id) x }.alive.Perm
      (x :: { s.world with parked := s.world.parked.erase (sole, x.id) }.alive) :=
    (((s.world.parked.values_insert_perm (sole, x.id) x).append_left _).trans
      List.perm_middle).append_right _
  unfold World.park
  simp only [hc, ht, Bool.false_eq_true, if_false]
  cases hold : s.world.parked.get? (sole, x.id) with
  | none =>
    rw [Table.erase_of_get?_eq_none hold] at hins
    exact retains_of_length hb rfl rfl rfl
      (hfirst.length_eq.trans (hins.append_right rest).length_eq.symm)
  | some y =>
    -- Whoever was parked there is dropped.
    have hy : y ∈ s.live := List.mem_append_left _
      (List.mem_append_left _ (List.mem_append_right _ (Table.mem_values.2 ⟨_, hold⟩)))
    have hgone : s.world.alive.Perm
        (y :: { s.world with parked := s.world.parked.erase (sole, x.id) }.alive) :=
      (((Table.values_perm_erase hold).append_left _).trans List.perm_middle).append_right _
    have hlength := hgone.length_eq.trans hins.length_eq.symm
    dsimp only [World.discard]
    refine retains_of_abort
      (w := { s.world with parked := s.world.parked.insert (sole, x.id) x }) hb rfl rfl
      (hs.proper hy) (hfirst.length_eq.trans ?_) _
    simp only [List.length_cons, List.length_append, hlength]

/-- A step is a commit, or it leaves the version and keeps the balance. -/
theorem Step.balances (h : Step s s') (hs : s.Sound)
    (hb : s.world.Balances s.live.length count) :
    (∃ x rest, s.running.Perm (x :: rest) ∧ s' = s.next (s.world.commit x).2 rest) ∨
      s.Retains s' count := by
  cases h with
  | create type value =>
    have hg : ((s.world.createCell sole type value).2.engine sole).metrics =
        s.engine.metrics ∧ ((s.world.createCell sole type value).2.engine sole).version =
          s.engine.version := by
      simp [World.createCell, Engine.announce, engine, Engine.version]
    exact .inr ⟨hg.2, hb.create rfl hg.1 hg.2⟩
  | createDetached type value => exact .inr ⟨rfl, hb.create rfl rfl rfl⟩
  | retain c =>
    exact .inr ⟨rfl, hb.congr rfl rfl rfl fun d => (s.store.cell_set_handles c _ d).1⟩
  | release c =>
    exact .inr ⟨rfl, hb.congr rfl rfl rfl fun d => (s.store.cell_set_handles c _ d).1⟩
  | begin mode =>
    have hv : ((s.world.begin sole mode).2.engine sole).version = s.engine.version := by
      simp [World.begin, Engine.begin, Engine.version, Timeline.anchor, engine]
    refine .inr ⟨hv, ?_⟩
    have hbal := hb.begin mode
    have hlive : (s.world.alive ++ (s.world.begin sole mode).1 :: s.running).Perm
        ((s.world.begin sole mode).1 :: s.live) := List.perm_middle
    rw [← List.length_cons, ← hlive.length_eq] at hbal
    exact hbal
  | hold hp =>
    exact .inr (retains_of_length hb rfl rfl rfl ((live_perm_cons hp).length_eq.trans
      ((World.alive_hold (hs.handles _ (Nat.le_refl _)) _).append_right _).length_eq.symm))
  | take ht =>
    have hperm := World.alive_take ht
    obtain ⟨x, hx, he⟩ := Option.map_eq_some_iff.1 ht
    cases he
    exact .inr (retains_of_length hb rfl rfl rfl
      ((hperm.append_right _).trans List.perm_middle.symm).length_eq)
  | giveBack hp hk =>
    exact .inr (retains_of_length hb rfl rfl rfl ((live_perm_cons hp).length_eq.trans
      ((World.alive_giveBack hk _).append_right _).length_eq.symm))
  | access hp ha =>
    refine .inr (retains_of_length hb rfl rfl rfl ?_)
    simp only [live, List.length_append, hp.length_eq, List.length_cons]
  | openChild kind mode =>
    have hg : (s.world.setEngine sole (s.engine.openChild kind mode).2).engine sole =
        (s.engine.openChild kind mode).2 := by simp
    exact .inr (retains_of_length hb rfl (congrArg (·.metrics.lasting) hg)
      ((congrArg Engine.version hg).trans rfl) rfl)
  | countRerun =>
    have hg : (s.world.countRerun sole).engine sole =
        { s.engine with metrics.reruns := s.engine.metrics.reruns + 1 } := by
      simp [World.countRerun, engine]
    exact .inr (retains_of_length hb rfl (congrArg (·.metrics.lasting) hg)
      ((congrArg Engine.version hg).trans rfl) rfl)
  | pin cells => exact .inr ⟨rfl, hb.congr rfl rfl rfl fun _ => rfl⟩
  | bind t hp => exact .inr (hs.retains_bind hb hp t)
  | unbind hu =>
    have hperm := World.alive_unbind hu
    cases (Prod.mk.inj hu).2
    exact .inr (retains_of_length hb rfl rfl rfl
      ((hperm.append_right _).trans List.perm_middle.symm).length_eq)
  | park hp => exact .inr (hs.retains_park hb hp)
  | unpark hu =>
    have hperm := World.alive_unpark hu
    obtain ⟨-, rfl⟩ := World.unpark_eq_ok hu
    exact .inr (retains_of_length hb rfl rfl rfl
      ((hperm.append_right _).trans List.perm_middle.symm).length_eq)
  | commit hp => exact .inl ⟨_, _, hp, rfl⟩
  | abort reason hp =>
    have hfirst := live_perm_cons hp
    exact .inr (retains_of_abort hb rfl rfl
      (hs.proper (hfirst.mem_iff.2 (List.mem_cons_self ..))) hfirst.length_eq reason)
  | reclaim => exact .inr ⟨World.version_reclaim _ _, hb.reclaim⟩

end Scene

/-! ### Runs -/

namespace World

variable {w : World V} {x : Context V}

/-- A commit enters nothing and leaves the version, or it enters each cell that it changes with the
next version. -/
theorem entries_cases (hs : w.store.Mirrored) (ha : x.isActive = true) (ht : x.isChild = false)
    (hx : x.Within (.plain V)) :
    (w.entries x = [] ∧
        ((w.commit x).2.engine x.engine).version = (w.engine x.engine).version) ∨
      (w.entries x = x.written.dedup.map ((w.engine x.engine).version + 1, ·) ∧
        ((w.commit x).2.engine x.engine).version = (w.engine x.engine).version + 1) := by
  have hv := (commit_newest (w := w) ha ht).1
  rcases commit_ends hs ha ht hx with ⟨hentries, -, hsame, -⟩ | ⟨hentries, -, -, hnext, -⟩
  · exact .inl ⟨hentries, hv.trans hsame⟩
  · exact .inr ⟨hentries, hv.trans hnext⟩

end World

namespace Scene

/-- A run comes to the scene, and its commits have entered `ledger`. All along the run, live
transactions have buffered writes and puts alone. -/
inductive Tallied : Scene V → List (Version × CellId) → Prop
  | start (config : Config) (hooks : Hooks) : Tallied (start config hooks) []
  | commit {s x rest ledger} : Tallied s ledger → s.running.Perm (x :: rest) →
    (s.next (s.world.commit x).2 rest).Plain →
      Tallied (s.next (s.world.commit x).2 rest) (ledger ++ s.world.entries x)
  | other {s s' ledger} : Tallied s ledger → Step s s' → s'.engine.version = s.engine.version →
    s'.Plain → Tallied s' ledger

variable {s s' : Scene V} {x : Context V} {rest : List (Context V)}
  {ledger : List (Version × CellId)}

/-- What every run keeps. The ledger has one entry for each version and each cell changed by it. -/
structure Balanced (s : Scene V) (ledger : List (Version × CellId)) : Prop where
  sound : s.Sound
  plain : s.Plain
  balances : s.world.Balances s.live.length ledger.length
  nodup : ledger.Nodup
  version_le : ∀ p ∈ ledger, p.1 ≤ s.engine.version

theorem balanced_start (config : Config) (hooks : Hooks) :
    (start config hooks : Scene V).Balanced [] where
  sound := sound_start config hooks
  plain := nofun
  balances := ⟨⟨rfl, Nat.le_refl _, rfl⟩, rfl, fun _ _ => rfl⟩
  nodup := .nil
  version_le := nofun

/-- A commit keeps the balance with what it enters. -/
theorem Balanced.commit (h : s.Balanced ledger) (hp : s.running.Perm (x :: rest))
    (hplain : (s.next (s.world.commit x).2 rest).Plain) :
    (s.next (s.world.commit x).2 rest).Balanced (ledger ++ s.world.entries x) := by
  have hfirst := live_perm_cons hp
  have hx : x ∈ s.live := hfirst.mem_iff.2 (List.mem_cons_self ..)
  obtain ⟨he, ha, ht⟩ := h.sound.proper hx
  have hwithin := h.plain x hx
  have hmirrored : s.world.store.Mirrored := h.sound.recalls.mirrored
  have hcases := World.entries_cases hmirrored ha ht (hwithin.mono (Discipline.on_within _ _))
  rw [he] at hcases
  refine ⟨(sound_of_later h.sound (.single (.commit hp))).1, hplain, ?_, ?_, ?_⟩
  · have hb := h.balances
    rw [hfirst.length_eq] at hb
    have hafter := World.Balances.commit hb hmirrored he ha ht hwithin
    rw [← List.length_append, ← s.world.alive_commit x] at hafter
    exact hafter
  · rcases hcases with ⟨hentries, -⟩ | ⟨hentries, -⟩ <;> rw [hentries]
    · rw [List.append_nil]
      exact h.nodup
    · refine List.nodup_append.2 ⟨h.nodup, x.written.nodup_dedup.map fun c d hcd => ?_, ?_⟩
      · exact congrArg Prod.snd hcd
      · rintro p hp q hq rfl
        obtain ⟨c, -, rfl⟩ := List.mem_map.1 hq
        exact absurd (h.version_le _ hp) (Nat.not_succ_le_self _)
  · intro p hp
    have hle := h.version_le p
    rcases hcases with ⟨hentries, hv⟩ | ⟨hentries, hv⟩ <;> rw [hentries] at hp
    · rw [List.append_nil] at hp
      exact Nat.le_trans (hle hp) (Nat.le_of_eq hv.symm)
    · refine Nat.le_trans ?_ (Nat.le_of_eq hv.symm)
      rcases List.mem_append.1 hp with hp | hp
      · exact Nat.le_succ_of_le (hle hp)
      · obtain ⟨c, -, rfl⟩ := List.mem_map.1 hp
        exact Nat.le_refl _

/-- A step that leaves the version keeps the balance. -/
theorem Balanced.other (h : s.Balanced ledger) (hst : Step s s')
    (hv : s'.engine.version = s.engine.version) (hplain : s'.Plain) : s'.Balanced ledger := by
  rcases hst.balances h.sound h.balances with ⟨x, rest, hp, rfl⟩ | ⟨-, hb⟩
  · have hafter := h.commit hp hplain
    have hx : x ∈ s.live := (live_perm_cons hp).mem_iff.2 (List.mem_cons_self ..)
    obtain ⟨he, ha, ht⟩ := h.sound.proper hx
    have hcases := World.entries_cases (w := s.world) h.sound.recalls.mirrored ha ht
      ((h.plain x hx).mono (Discipline.on_within _ _))
    rw [he] at hcases
    rcases hcases with ⟨hentries, -⟩ | ⟨-, hnext⟩
    · rwa [hentries, List.append_nil] at hafter
    · exact absurd (hv.symm.trans hnext) (Nat.ne_of_lt (Nat.lt_succ_self _))
  · exact ⟨(sound_of_later h.sound (.single hst)).1, hplain, hb, h.nodup,
      fun p hp => Nat.le_trans (h.version_le p hp) (Nat.le_of_eq hv.symm)⟩

theorem Tallied.balanced (h : s.Tallied ledger) : s.Balanced ledger := by
  induction h with
  | start config hooks => exact balanced_start config hooks
  | commit _ hp hplain ih => exact ih.commit hp hplain
  | other _ hst hv hplain ih => exact ih.other hst hv hplain

/-- Every run in which nothing but writes and puts is buffered comes with a ledger. -/
theorem exists_tallied {config : Config} {hooks : Hooks}
    (h : Relation.ReflTransGen Plainly (start config hooks) s) : ∃ ledger, s.Tallied ledger := by
  induction h with
  | refl => exact ⟨[], .start config hooks⟩
  | tail _ hst ih =>
    obtain ⟨ledger, ht⟩ := ih
    obtain ⟨hsound, hplain, hb, -, -⟩ := ht.balanced
    have hplain' := hst.plain hsound hplain
    rcases hst.1.balances hsound hb with ⟨x, rest, hp, rfl⟩ | ⟨hv, -⟩
    · exact ⟨_, ht.commit hp hplain'⟩
    · exact ⟨_, ht.other hst.1 hv hplain'⟩

end Scene

/-! ### Children -/

omit [Inhabited V] in
/-- Opening children and counting reruns leaves the other counters. -/
theorem Host.invariant_lasting (m : EngineId → Metrics) :
    Host.Invariant (fun _ : Context V => True)
      fun h : Host V σ => ∀ e, (h.world.engine e).metrics.lasting = m e where
  pin _ hK := hK
  child {x h} kind below shared _ hK := by
    refine ⟨trivial, fun e => ?_⟩
    unfold Body.openChild
    rw [World.engine_setEngine]
    split
    · next he => exact he ▸ hK e
    · exact hK e
  rerun {x h} _ hK := by
    intro e
    unfold World.countRerun
    rw [World.engine_setEngine]
    split
    · next he => exact he ▸ hK e
    · exact hK e
  adopt _ _ := trivial

/-- A program by itself, with all its children, leaves the counters but that of the tasks that ran
again. -/
theorem Program.upholds_lasting (m : EngineId → Metrics) (p : Program V R) :
    (p.alone.run : Body V σ R).Upholds (fun _ => True)
      fun h => ∀ e, (h.world.engine e).metrics.lasting = m e :=
  p.upholds_alone (Host.invariant_lasting m) fun _ _ _ _ _ => trivial

omit [Inhabited V] in
/-- A child that somebody aborts by itself is not counted. -/
theorem World.metrics_abort_of_child {x : Context V} (hx : x.isChild = true) (w : World V)
    (reason : String) (e : EngineId) :
    ((w.abort x reason).engine e).metrics = (w.engine e).metrics := by
  obtain ⟨kind, hk⟩ := Option.isSome_iff_exists.1 hx
  unfold World.abort Engine.abort
  rw [World.engine_setEngine]
  split
  · next he =>
    subst he
    split
    · simp [Engine.finish, hk]
    · rfl
  · rfl

/-- A commit of a child aborts it, and is not counted. -/
theorem World.metrics_commit_of_child {x : Context V} (hx : x.isChild = true) (w : World V)
    (e : EngineId) : ((w.commit x).2.engine e).metrics = (w.engine e).metrics := by
  unfold World.commit
  cases x.checkActive with
  | error e => rfl
  | ok u =>
    simp only [hx, if_true]
    exact metrics_abort_of_child hx w _ e

namespace Scene

/-- The counters say how many transactions are live and which version is the newest, as many are
live as snapshots are anchored, and no value is lost: all that the cells have had, which are the
first one of each and one for each entry of the ledger, are retained or counted as reclaimed. The
values of a cell that nobody holds any more are counted as retained, as no pass counts them. -/
structure AddsUp (s : Scene V) (ledger : List (Version × CellId)) : Prop
    extends s.engine.metrics.Balances s.engine.version s.live.length where
  anchored : s.timeline.anchored = s.live.length
  retained : s.store.retained + s.engine.metrics.reclaimed = s.store.created + ledger.length
  nodup : ledger.Nodup

/-- A program by itself leaves all counters but that of the tasks that ran again, whatever children
it has, and so does a child that somebody commits or aborts. -/
structure ChildrenUncounted (V σ R : Type) [Inhabited V] : Prop where
  program : ∀ (p : Program V R) (t : Session V σ) (e : EngineId),
    ((p.alone.run.run t).2.host.world.engine e).metrics.lasting =
      (t.host.world.engine e).metrics.lasting
  abort : ∀ x : Context V, x.isChild = true → ∀ (w : World V) (reason : String) (e : EngineId),
    ((w.abort x reason).engine e).metrics = (w.engine e).metrics
  commit : ∀ x : Context V, x.isChild = true → ∀ (w : World V) (e : EngineId),
    ((w.commit x).2.engine e).metrics = (w.engine e).metrics

/-- The counters fit at every point of a run in which deltas are staged by puts alone, and every
such run comes with a ledger. Children are counted nowhere. -/
theorem counters_balance :
    (∀ (s : Scene V) (ledger : List (Version × CellId)), s.Tallied ledger → s.AddsUp ledger) ∧
      (∀ (config : Config) (hooks : Hooks) (s : Scene V),
        Relation.ReflTransGen Plainly (start config hooks) s → ∃ ledger, s.Tallied ledger) ∧
      ChildrenUncounted V σ R := by
  refine ⟨fun s ledger ht => ?_, fun config hooks s hs => exists_tallied hs, fun p t => ?_,
    fun _ => World.metrics_abort_of_child, fun _ => World.metrics_commit_of_child⟩
  · obtain ⟨hsound, -, hb, hnodup, -⟩ := ht.balanced
    exact ⟨hb.counters, hsound.anchors.anchored_eq.trans (List.length_map _), hb.retained, hnodup⟩
  · exact (p.upholds_lasting (fun e => (t.host.world.engine e).metrics.lasting) t trivial
      fun _ => rfl).2

/-- One after the other, a transaction has written a cell and committed, one was aborted, another
has written the cell again, and the last one is parked. A pass has given up the first two values of
the cell. Beside that, a program nests another one, and its child counts as little when it is
aborted. -/
theorem counters_balance_with_parked :
    let s₀ : Scene Nat := .start {} {}
    let s₁ := s₀.next (s₀.world.createCell sole 0 5).2 []
    let x := (s₁.world.begin sole .readWrite).1
    let s₂ := s₁.next (s₁.world.begin sole .readWrite).2 [x]
    let x' := (x.write (s₂.store.cell ⟨1⟩) 7).2
    let s₃ := s₂.next s₂.world [x']
    let s₄ := s₃.next (s₃.world.commit x').2 []
    let z := (s₄.world.begin sole .readWrite).1
    let s₅ := s₄.next (s₄.world.begin sole .readWrite).2 [z]
    let s₆ := s₅.next (s₅.world.abort z "enough") []
    let u := (s₆.world.begin sole .readWrite).1
    let s₇ := s₆.next (s₆.world.begin sole .readWrite).2 [u]
    let u' := (u.write (s₇.store.cell ⟨1⟩) 8).2
    let s₈ := s₇.next s₇.world [u']
    let s₉ := s₈.next (s₈.world.commit u').2 []
    let y := (s₉.world.begin sole .speculative).1
    let s₁₀ := s₉.next (s₉.world.begin sole .speculative).2 [y]
    let s₁₁ := s₁₀.next (s₁₀.world.park sole y).2 []
    let s := s₁₁.next (s₁₁.world.reclaim sole).2 []
    let p : Program Nat Unit := .nested (.write ⟨1⟩ 9 fun _ => .done ()) fun _ => .done ()
    let t : Session Nat Unit := ⟨z, ⟨s₅.world, ()⟩⟩
    let child := z.child .nested .readWrite z.layers none
    let m := s.engine.metrics
    (m.started = 4 ∧ m.committed = 2 ∧ m.aborted = 1 ∧ s.live.length = 1 ∧ m.reclaimed = 2 ∧
      m.started = m.committed + m.aborted + s.live.length ∧ s.timeline.anchored = s.live.length ∧
      s.store.retained + m.reclaimed = s.store.created + 2) ∧
      (((p.alone.run.run t).2.host.world.engine sole).metrics.lasting =
        s₅.engine.metrics.lasting) ∧
      ((s₅.world.abort child "enough").engine sole).metrics = s₅.engine.metrics := by
  intro s₀ s₁ x s₂ x' s₃ s₄ z s₅ s₆ u s₇ u' s₈ s₉ y s₁₀ s₁₁ s p t child m
  -- Only `x'` and `u'` have anything buffered.
  have hbare : ∀ r : Scene Nat,
      (r.live.all fun c => c.changes.isEmpty && c.shared.isNone) = true → r.Plain := by
    intro r hr c hc
    obtain ⟨hchanges, hshared⟩ : c.changes = [] ∧ c.shared = none := by
      simpa using List.all_eq_true.1 hr c hc
    exact Context.within_of_bare hchanges hshared
  have hwriting : ∀ (r : Scene Nat) (c : Context Nat) (value : Nat), r.live = [c] →
      c.writes = Table.insert ∅ ⟨1⟩ ⟨⟨1⟩, 0, .assign value⟩ → c.deltas = ∅ → c.shared = none →
      r.store.Has ⟨1⟩ → (0 : ContentType) = (r.store.cell ⟨1⟩).type → r.Plain := by
    intro r c value hr hwrites hdeltas hshared hhas htype d hd
    rw [hr, List.mem_singleton] at hd
    subst hd
    refine ⟨hwrites ▸ WriteSet.all_empty.insert ⟨⟨rfl, value, rfl⟩, hhas, htype⟩,
      hdeltas ▸ WriteSet.all_empty, fun ws hws => ?_⟩
    exact absurd (hws.symm.trans hshared) (Option.some_ne_none ws)
  have h₁ : s₁.Tallied [] :=
    .other (.start {} {}) (.create 0 5) (by decide +kernel) (hbare _ (by decide +kernel))
  have h₂ : s₂.Tallied [] :=
    .other h₁ (.begin .readWrite) (by decide +kernel) (hbare _ (by decide +kernel))
  have h₃ : s₃.Tallied [] :=
    .other h₂ (.access (.refl _) (.write ⟨1⟩ 7)) (by decide +kernel)
      (hwriting _ x' 7 rfl rfl rfl rfl (by decide +kernel) (by decide +kernel))
  have h₄ : s₄.Tallied (s₃.world.entries x') :=
    .commit h₃ (.refl _) (hbare _ (by decide +kernel))
  have h₅ : s₅.Tallied _ :=
    .other h₄ (.begin .readWrite) (by decide +kernel) (hbare _ (by decide +kernel))
  have h₆ : s₆.Tallied _ :=
    .other h₅ (.abort "enough" (.refl _)) (by decide +kernel) (hbare _ (by decide +kernel))
  have h₇ : s₇.Tallied _ :=
    .other h₆ (.begin .readWrite) (by decide +kernel) (hbare _ (by decide +kernel))
  have h₈ : s₈.Tallied _ :=
    .other h₇ (.access (.refl _) (.write ⟨1⟩ 8)) (by decide +kernel)
      (hwriting _ u' 8 rfl rfl rfl rfl (by decide +kernel) (by decide +kernel))
  have h₉ : s₉.Tallied (s₃.world.entries x' ++ s₈.world.entries u') :=
    .commit h₈ (.refl _) (hbare _ (by decide +kernel))
  have h₁₀ : s₁₀.Tallied _ :=
    .other h₉ (.begin .speculative) (by decide +kernel) (hbare _ (by decide +kernel))
  have h₁₁ : s₁₁.Tallied _ :=
    .other h₁₀ (.park (.refl _)) (by decide +kernel) (hbare _ (by decide +kernel))
  have hs : s.Tallied _ := .other h₁₁ .reclaim (by decide +kernel) (hbare _ (by decide +kernel))
  have hentries : s₃.world.entries x' ++ s₈.world.entries u' = [(1, ⟨1⟩), (2, ⟨1⟩)] := by
    decide +kernel
  rw [hentries] at hs
  obtain ⟨hcounters, -, huncounted⟩ := counters_balance (V := Nat) (σ := Unit) (R := Unit)
  have hadds := hcounters s _ hs
  exact ⟨⟨by decide +kernel, by decide +kernel, by decide +kernel, by decide +kernel,
    by decide +kernel, hadds.started, hadds.anchored, hadds.retained⟩,
    huncounted.program p t sole, huncounted.abort child rfl s₅.world "enough" sole⟩

end Scene

end VersionedMemory
