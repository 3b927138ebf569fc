import VersionedMemory.Proofs.Collapse
import VersionedMemory.Proofs.Refusals
import VersionedMemory.Proofs.Retries

/-!
# How much inline reclamation leaves

An engine that reclaims after every so many read-write commits never has more than so many marks in
its window, provided that nobody else is alive when such a pass runs: the pass leaves the head, and
until the next one each counted commit adds one mark. All values of a cell but the oldest are listed
by marks, so no cell retains more values than that, and one.

The one is needed. A pass leaves two values of a cell that only the newest commit changed.

A commit that is stopped halfway through publication leaves a mark and is not counted. The runs here
have none of these: each commit succeeds, or it is refused as a conflict and publishes nothing.

## Main definitions

* `Conclusive` says that a commit was not stopped halfway.
* `Scene.Paced` is a turn in which the engine commits conclusively, and is idle whenever an inline
  pass runs; `Scene.Regular` is one after which nobody holds a cell that was gone.
* `Engine.Trim` says that there are no more marks than commits since the last pass, and one.

## Main statements

* `Scene.Paced.trim`: a paced turn keeps the engine trim.
* `Scene.inline_passes_bound`: what each cell retains at every point of such a run.
-/

namespace VersionedMemory

variable {V : Type}

/-- The commit succeeded, or it was refused as a conflict, be it that a read was superseded or that
the observer vetoed. -/
def Conclusive : Except Error Receipt → Prop
  | .ok _ => True
  | .error e => e.isConflict = true

instance : DecidablePred Conclusive
  | .ok _ => .isTrue trivial
  | .error e => inferInstanceAs (Decidable (e.isConflict = true))

/-! ### The length of the window -/

namespace Timeline

@[simp] theorem length_window_anchor (t : Timeline) :
    t.anchor.2.window.length = t.window.length := by simp [Timeline.anchor, window]

@[simp] theorem length_window_leave (t : Timeline) (a : Option Anchor) :
    (t.leave a).window.length = t.window.length := by
  cases a with
  | none => rfl
  | some a => simp [Timeline.leave]

theorem length_window_retire_le (t : Timeline) :
    t.retire.2.window.length ≤ t.window.length := by
  rw [← t.retire_append, List.length_append]
  exact Nat.le_add_left ..

theorem Anchors.length_window_retire {t : Timeline} (h : t.Anchors []) :
    t.retire.2.window.length = 1 := by
  rw [h.retire_of_idle]
  rfl

end Timeline

namespace Engine

/-- What inline passes go by: the settings, how many marks there are, and the commits counted. -/
def pace (g : Engine) : Config × Nat × Nat × Nat :=
  (g.config, g.timeline.window.length, g.metrics.committed, g.metrics.readOnlyCommits)

/-- There are no more marks than there were read-write commits since the last inline pass, and
one. -/
structure Trim (g : Engine) : Prop where
  counted : g.metrics.readOnlyCommits ≤ g.metrics.committed
  window : ∀ every, g.config.reclaimEvery = some every →
    g.timeline.window.length ≤ 1 + g.metrics.readWriteCommits % every

variable {g g' : Engine}

theorem trim_create (config : Config) (hooks : Hooks) : (create config hooks).Trim :=
  ⟨Nat.le_refl 0, fun _ _ => Nat.le_add_right ..⟩

theorem pace_eq_iff {config : Config} {marks committed readOnly : Nat} :
    g.pace = (config, marks, committed, readOnly) ↔ g.config = config ∧
      g.timeline.window.length = marks ∧ g.metrics.committed = committed ∧
      g.metrics.readOnlyCommits = readOnly := by
  simp [pace]

/-- An engine stays trim with fewer marks. -/
theorem Trim.shorten (h : g.Trim) {marks : Nat} (hle : marks ≤ g.timeline.window.length)
    (hp : g'.pace = (g.config, marks, g.metrics.committed, g.metrics.readOnlyCommits)) :
    g'.Trim := by
  obtain ⟨hset, hlen, hcom, hro⟩ := pace_eq_iff.1 hp
  refine ⟨by rw [hcom, hro]; exact h.counted, fun every he => ?_⟩
  have hwindow := h.window every (hset ▸ he)
  rw [Metrics.readWriteCommits, hcom, hro]
  exact (hlen.le.trans hle).trans hwindow

theorem Trim.congr (h : g.Trim) (hp : g'.pace = g.pace) : g'.Trim := h.shorten le_rfl hp

/-- An engine stays trim over a read-only commit, which is not counted on. -/
theorem Trim.readOnly (h : g.Trim)
    (hp : g'.pace = (g.config, g.timeline.window.length, g.metrics.committed + 1,
      g.metrics.readOnlyCommits + 1)) : g'.Trim := by
  obtain ⟨hset, hlen, hcom, hro⟩ := pace_eq_iff.1 hp
  refine ⟨by rw [hcom, hro]; exact Nat.succ_le_succ h.counted, fun every he => ?_⟩
  have hwindow := h.window every (hset ▸ he)
  rw [Metrics.readWriteCommits, hcom, hro, Nat.add_sub_add_right, hlen]
  exact hwindow

theorem add_one_mod {a n : Nat} (h : (a + 1) % n ≠ 0) : (a + 1) % n = a % n + 1 := by
  rcases Nat.eq_zero_or_pos n with rfl | hn
  · rw [Nat.mod_zero, Nat.mod_zero]
  · rw [← Nat.mod_add_mod] at h ⊢
    refine Nat.mod_eq_of_lt (Nat.lt_of_le_of_ne (Nat.mod_lt a hn) fun he => h ?_)
    rw [he]
    exact Nat.mod_self n

/-- An engine stays trim with one mark more and one commit counted, if no pass is due. -/
theorem Trim.readWrite (h : g.Trim)
    (hp : g'.pace = (g.config, g.timeline.window.length + 1, g.metrics.committed + 1,
      g.metrics.readOnlyCommits)) (hdue : g'.reclaimDue = false) : g'.Trim := by
  obtain ⟨hset, hlen, hcom, hro⟩ := pace_eq_iff.1 hp
  have hcounted := h.counted
  have hnext : g'.metrics.readWriteCommits = g.metrics.readWriteCommits + 1 := by
    simp only [Metrics.readWriteCommits, hcom, hro]
    omega
  refine ⟨by omega, fun every he => ?_⟩
  have hnot : (g.metrics.readWriteCommits + 1) % every ≠ 0 := by
    simpa [reclaimDue, he, hnext] using hdue
  have hwindow := h.window every (hset ▸ he)
  rw [hlen, hnext, add_one_mod hnot]
  omega

/-- With the head alone an engine is trim, however much it has counted. -/
theorem trim_of_head (hc : g.metrics.readOnlyCommits ≤ g.metrics.committed)
    (hw : g.timeline.window.length = 1) : g.Trim :=
  ⟨hc, fun _ _ => hw ▸ Nat.le_add_right ..⟩

theorem pace_begin (g : Engine) (self : EngineId) (mode : Mode) :
    (g.begin (V := V) self mode).2.pace = g.pace := by
  simp [Engine.begin, pace]

theorem pace_finish (g : Engine) (x : Context V) (status : Status) :
    (g.finish x status).2.pace = g.pace := by
  unfold finish pace
  dsimp only
  split <;> simp

variable [Inhabited V]

/-- What a conclusive commit does: it is refused and the engine keeps its pace, or it is counted,
and where it has published there is one mark more. -/
theorem pace_commit (g : Engine) (x : Context V) (s : Store V)
    (hc : Conclusive (g.commit x s).result) :
    let done := g.commit x s
    (done.engine.pace = g.pace ∧ ∃ e, done.result = .error e) ∨
      (done.engine.pace = (g.config, g.timeline.window.length, g.metrics.committed + 1,
          g.metrics.readOnlyCommits + 1) ∧ ∃ r, done.result = .ok r ∧ r.readOnly = true) ∨
      done.engine.pace = (g.config, g.timeline.window.length + 1, g.metrics.committed + 1,
          g.metrics.readOnlyCommits) ∧ ∃ r, done.result = .ok r ∧ r.readOnly = false := by
  revert hc
  by_cases hbare : x.changes = []
  · rw [g.commit_of_bare hbare s]
    intro _
    exact .inr (.inl ⟨by simp [pace, Metrics.accepted], _, rfl, rfl⟩)
  cases hveto : g.hooks.observer.bind fun refuse => refuse x.id x.written with
  | some reason =>
    rw [commit_of_veto hbare hveto]
    intro _
    exact .inl ⟨pace_finish _ _ _, _, rfl⟩
  | none =>
    rw [commit_of_assent hbare hveto]
    unfold publish
    cases hcause : x.superseded? s with
    | some cause =>
      intro _
      exact .inl ⟨pace_finish _ _ _, _, rfl⟩
    | none =>
      dsimp only
      split
      · next c hahead =>
        intro _
        exact .inl ⟨pace_finish _ _ _, _, rfl⟩
      · split
        · next e hfailed =>
          intro hc
          -- Publication never stops with a conflict.
          exact absurd hc (Bool.eq_false_iff.1 (not_isConflict_of_publishAll hfailed))
        · intro _
          refine .inr (.inr ⟨?_, _, rfl, rfl⟩)
          simp [pace, finish]

theorem Trim.counted_commit (h : g.Trim) {x : Context V} {s : Store V}
    (hc : Conclusive (g.commit x s).result) :
    (g.commit x s).engine.metrics.readOnlyCommits ≤ (g.commit x s).engine.metrics.committed := by
  have hcounted := h.counted
  rcases g.pace_commit x s hc with ⟨hp, -⟩ | ⟨hp, -⟩ | ⟨hp, -⟩ <;>
    obtain ⟨-, -, hcom, hro⟩ := pace_eq_iff.1 hp <;> omega

end Engine

/-! ### Turns that the engine has no part in -/

variable [Inhabited V] {w : World V} {x : Context V} {e : EngineId}

namespace World

omit [Inhabited V] in
theorem pace_setEngine {d : EngineId} {g : Engine} (h : g.pace = (w.engine d).pace)
    (e : EngineId) : ((w.setEngine d g).engine e).pace = (w.engine e).pace := by
  rw [engine_setEngine]
  split
  · next he => rw [h, he]
  · rfl

omit [Inhabited V] in
theorem pace_abort (w : World V) (x : Context V) (reason : String) (e : EngineId) :
    ((w.abort x reason).engine e).pace = (w.engine e).pace := by
  refine pace_setEngine ?_ e
  unfold Engine.abort
  split
  · exact Engine.pace_finish _ x _
  · rfl

omit [Inhabited V] in
theorem pace_bind (w : World V) (t : ThreadId) (x : Context V) (e : EngineId) :
    ((w.bind t x).2.engine e).pace = (w.engine e).pace := by
  unfold bind
  split
  · exact w.pace_abort x _ e
  · rfl

omit [Inhabited V] in
theorem pace_park (w : World V) (d : EngineId) (x : Context V) (e : EngineId) :
    ((w.park d x).2.engine e).pace = (w.engine e).pace := by
  unfold park
  split
  · rfl
  · split
    · exact w.pace_abort x _ e
    · dsimp only
      split
      · exact pace_abort _ _ _ e
      · rfl

end World

namespace Scene

variable {s s' : Scene V} {own : CellId → Prop} {c : CellId} {rest : List (Context V)}

/-- Only an engine that serves counts commits and changes its marks. -/
theorem Turn.pace_eq {d : Deal} (h : Turn d s s') (hd : d ≠ .serves e) :
    (s'.world.engine e).pace = (s.world.engine e).pace := by
  cases h with
  | create d type value =>
    refine World.pace_setEngine (w := { s.world with
      store := (s.world.store.create type value).2 }) ?_ e
    rfl
  | begin d mode => exact World.pace_setEngine (Engine.pace_begin (V := V) _ d mode) e
  | take ht =>
    obtain ⟨_, -, he⟩ := Option.map_eq_some_iff.1 ht
    cases he
    rfl
  | openChild d kind mode =>
    refine World.pace_setEngine ?_ e
    rfl
  | countRerun d =>
    refine World.pace_setEngine ?_ e
    rfl
  | bind t => exact s.world.pace_bind t _ e
  | unbind hu =>
    cases (Prod.mk.inj hu).2
    rfl
  | park d => exact s.world.pace_park d _ e
  | unpark hu =>
    obtain ⟨-, rfl⟩ := World.unpark_eq_ok hu
    rfl
  | commit =>
    exact congrArg Engine.pace (World.engine_commit_of_ne _ fun he => hd (congrArg _ he.symm))
  | abort reason => exact s.world.pace_abort _ reason e
  | reclaim d =>
    refine congrArg Engine.pace ((s.world.engine_reclaim d e).trans (if_neg fun he => hd ?_))
    exact congrArg _ he.symm
  | _ => rfl

/-! ### Turns of the engine -/

/-- The engine counts a reclamation pass. -/
def Passes (e : EngineId) (s s' : Scene V) : Prop :=
  (s.world.engine e).metrics.passes < (s'.world.engine e).metrics.passes

/-- One turn in which the engine keeps to itself whatever happens to its own cells, and commits
conclusively. If an inline pass runs, nobody else is alive; what bodies run on while the engine
reclaims on demand keeps its cells pinned. -/
inductive Paced (e : EngineId) (own : CellId → Prop) : Scene V → Scene V → Prop
  | aside {s s' : Scene V} {d : Deal} : Turn d s s' → d ≠ .serves e → (∀ c, own c → Keeps s s' c) →
    Paced e own s s'
  | commit {s : Scene V} {x : Context V} {rest : List (Context V)} :
    s.running.Perm (x :: rest) → x.engine = e →
    Conclusive (s.world.commit x).1 →
    (Passes e s (s.next (s.world.commit x).2 rest) →
      (s.next (s.world.commit x).2 rest).live = []) →
    Paced e own s (s.next (s.world.commit x).2 rest)
  | reclaim {s : Scene V} : (∀ x ∈ s.running, ∀ c ∈ x.holds, s.world.isLive c = true) →
    Paced e own s (s.next (s.world.reclaim e).2 s.running)

theorem Paced.turn (h : Paced e own s s') :
    ∃ d, Turn d s s' ∧ (d ≠ .serves e → ∀ c, own c → Keeps s s' c) := by
  cases h with
  | aside ht hd hk => exact ⟨_, ht, fun _ => hk⟩
  | commit hp he _ _ => exact ⟨_, .commit hp, fun hd => absurd (congrArg Deal.serves he) hd⟩
  | reclaim _ => exact ⟨_, .reclaim e, fun hd => absurd rfl hd⟩

/-- After a commit no pass was due, or one has run. -/
theorem Attends.commit_passes (ha : s.Attends e) (hp : s.running.Perm (x :: rest))
    (he : x.engine = e) :
    let done := (s.world.engine e).commit x s.world.store
    (s.world.commit x).1 = done.result ∧
      ((s.world.commit x).2 = s.world.decided x ∧
          (∀ r, done.result = .ok r → r.readOnly = false → done.engine.reclaimDue = false) ∨
        (s.world.commit x).2 = (s.world.decided x).reclaimHolding done.context.holds e) := by
  subst he
  intro done
  obtain ⟨hactive, htop⟩ := ha.proper ((live_perm_cons hp).mem_iff.2 (List.mem_cons_self ..)) rfl
  have hc : x.checkActive = .ok () := by simp [Context.checkActive, hactive]
  unfold World.commit
  simp only [hc, htop, Bool.false_eq_true, if_false]
  split
  · next err herr =>
    refine ⟨herr.symm, .inl ⟨rfl, fun r hr => ?_⟩⟩
    cases herr.symm.trans hr
  · next receipt hok =>
    split
    · exact ⟨hok.symm, .inr rfl⟩
    · next hdue =>
      refine ⟨hok.symm, .inl ⟨rfl, fun r hr hrw => ?_⟩⟩
      cases hok.symm.trans hr
      simpa [hrw] using hdue

end Scene

/-- A pass that holds cells does to the engine what any pass does. -/
theorem World.engine_reclaimHolding (w : World V) (cells : List CellId) (e : EngineId) :
    ((w.reclaimHolding cells e).engine e).timeline = (w.engine e).timeline.retire.2 ∧
      ((w.reclaimHolding cells e).engine e).metrics.passes = (w.engine e).metrics.passes + 1 ∧
      ((w.reclaimHolding cells e).engine e).metrics.committed = (w.engine e).metrics.committed ∧
      ((w.reclaimHolding cells e).engine e).metrics.readOnlyCommits =
        (w.engine e).metrics.readOnlyCommits := by
  have h := ({ w with pinned := cells ++ w.pinned } : World V).engine_reclaim e e
  rw [if_pos rfl] at h
  have hg : (w.reclaimHolding cells e).engine e = _ := h
  rw [hg]
  exact ⟨rfl, rfl, rfl, rfl⟩

namespace Scene

variable {s s' : Scene V} {own : CellId → Prop} {c : CellId} {rest : List (Context V)}

theorem passes_of_reclaimHolding {cells : List CellId}
    (he : x.engine = e) (hw : (s.world.commit x).2 = (s.world.decided x).reclaimHolding cells e) :
    Passes e s (s.next (s.world.commit x).2 rest) := by
  subst he
  have hup := congrArg Metrics.passes ((s.world.engine x.engine).upkeep_commit x s.world.store)
  have hpass := ((s.world.decided x).engine_reclaimHolding cells x.engine).2.1
  rw [s.world.engine_decided x] at hpass
  unfold Passes
  rw [world_next, hw, hpass]
  exact Nat.lt_succ_of_le (Nat.le_of_eq hup.symm)

omit [Inhabited V] in
theorem livesOf_of_live (h : s.live = []) (e : EngineId) : s.livesOf e = [] :=
  livesOf_eq_nil fun x hx => by
    rw [h] at hx
    cases hx

/-- A paced turn keeps the engine trim. -/
theorem Paced.trim (h : Paced e own s s') (hs : s.Settled e own)
    (ht : (s.world.engine e).Trim) : (s'.world.engine e).Trim := by
  cases h with
  | aside hturn hd _ => exact ht.congr (hturn.pace_eq hd)
  | @commit x rest hp he hc hidle =>
    obtain ⟨hres, hpass⟩ := hs.attends.commit_passes hp he
    rw [hres] at hc
    have hg := s.world.engine_decided x
    rw [he] at hg
    rw [world_next]
    rcases hpass with ⟨hw, hdue⟩ | hw
    · rw [hw, hg]
      rcases (s.world.engine e).pace_commit x s.world.store hc with
        ⟨hpace, -⟩ | ⟨hpace, -⟩ | ⟨hpace, r, hok, hrw⟩
      · exact ht.congr hpace
      · exact ht.readOnly hpace
      · exact ht.readWrite hpace (hdue r hok hrw)
    · -- Nobody is anchored when the pass runs, so the head alone is left.
      have hlives : (s.next (s.world.decided x) rest).livesOf e = [] := by
        have hnone := livesOf_of_live (hidle (passes_of_reclaimHolding he hw)) e
        rw [hw] at hnone
        exact hnone
      have hdecided : Notice e own own s (s.next (s.world.decided x) rest) :=
        Attends.notice_decided he hp
      have hanchors := (hdecided.attends hs.attends).anchors
      rw [hlives] at hanchors
      obtain ⟨htimeline, -, hcom, hro⟩ := (s.world.decided x).engine_reclaimHolding
        ((s.world.engine e).commit x s.world.store).context.holds e
      rw [hw]
      refine Engine.trim_of_head ?_ ?_
      · rw [hcom, hro, hg]
        exact ht.counted_commit hc
      · rw [htimeline]
        exact hanchors.length_window_retire
  | reclaim _ =>
    have hg := (s.world.engine_reclaim e e).trans (if_pos rfl)
    refine ht.shorten (s.world.engine e).timeline.length_window_retire_le ?_
    rw [world_next, hg]
    rfl

/-- The engine finds those cells alive that are held when it has reclaimed. -/
theorem Paced.notices (h : Paced e own s s') (hs : s.Settled e own) (hf : s.world.Fresh) :
    Relation.ReflTransGen (Notice e own s'.Holds) s s' := by
  cases h with
  | aside ht hd hk => exact ht.notices hs.attends hf (fun _ => hk) fun he => absurd he hd
  | @commit x rest hp he _ hidle =>
    obtain ⟨-, hpass⟩ := hs.attends.commit_passes hp he
    rcases hpass with ⟨hw, -⟩ | hw
    · rw [hw]
      exact .single (Attends.notice_decided he hp)
    · refine hs.attends.notices_commit he hp fun c hc => ?_
      have hnone := hidle (passes_of_reclaimHolding he hw)
      have hturn : Turn (.serves e) s (s.next (s.world.commit x).2 rest) := he ▸ .commit hp
      rcases hc with hlive | ⟨y, hy, -⟩
      · exact hturn.isLive_of_serves hs.attends hlive
      · have hmem : y ∈ (s.next (s.world.commit x).2 rest).live := List.mem_append_right _ hy
        rw [hnone] at hmem
        cases hmem
  | reclaim hpinned =>
    refine Turn.notices (.reclaim e) hs.attends hf (fun hne => absurd rfl hne) fun _ c hc => ?_
    rcases hc with hlive | ⟨y, hy, hm⟩
    · exact Turn.isLive_of_serves (.reclaim e) hs.attends hlive
    · exact hpinned y hy c hm

/-! ### Runs -/

/-- A paced turn after which nobody holds a cell that was there and that nobody held before. -/
structure Regular (e : EngineId) (own : CellId → Prop) (s s' : Scene V) : Prop where
  paced : Paced e own s s'
  gone : ∀ c, s'.Holds c → s.Holds c ∨ ¬ s.store.Has c

/-- Some run of regular turns comes to the scene. -/
def Regulated (e : EngineId) (own : CellId → Prop) (s : Scene V) : Prop :=
  ∃ s₀, Opening s₀ ∧ Relation.ReflTransGen (Regular e own) s₀ s

theorem Regulated.attained (h : s.Regulated e own) : s.Attained e own := by
  obtain ⟨s₀, h₀, hrun⟩ := h
  exact ⟨s₀, h₀, Relation.ReflTransGen.mono (fun _ _ hr => hr.paced.turn) _ _ hrun⟩

/-- In a regulated run the engine stays trim, and accounts for the values of the cells that are
held. -/
theorem Regulated.keeps (h : s.Regulated e own) :
    (s.world.engine e).Trim ∧ ∀ c, own c → s.Holds c → s.Accounts e c := by
  obtain ⟨s₀, h₀, hrun⟩ := h
  induction hrun with
  | refl =>
    obtain ⟨config, hooks, hg⟩ := h₀.engine_eq e
    refine ⟨hg ▸ Engine.trim_create config hooks, fun c _ _ hhas => ?_⟩
    obtain ⟨settings, rfl⟩ := h₀
    exact absurd (Nat.lt_of_lt_of_le hhas.1 hhas.2) (Nat.lt_irrefl 0)
  | tail hbefore hlast ih =>
    obtain ⟨hs, hf⟩ := Regulated.attained ⟨s₀, h₀, hbefore⟩ |>.settled
    exact ⟨hlast.paced.trim hs ih.1,
      Notices.accounts_of_held (hlast.paced.notices hs hf) hs hlast.gone ih.2⟩

/-- Inline reclamation bounds what is retained. In every run in which an engine is to reclaim after
every `every` read-write commits, in which each of its commits succeeds or is refused as a conflict,
and in which nobody else is alive whenever an inline pass runs: no cell that is changed by this
engine only, and that somebody holds, ever retains more than `every` values, and one. -/
theorem inline_passes_bound (h : s.Regulated e own) {every : Nat}
    (hevery : (s.world.engine e).config.reclaimEvery = some every) (hpos : 1 ≤ every)
    (hc : own c) (hhas : s.store.Has c) (hheld : s.Holds c) :
    (s.store.cell c).chain.size ≤ every + 1 := by
  obtain ⟨htrim, haccounts⟩ := h.keeps
  have hincreasing := (h.attained.settled.1.follows c hc).tracks.increasing
  have hmarks := (haccounts c hc hheld hhas).size_le hincreasing
  have hlisted := List.length_filter_le (fun m : Mark => decide (c ∈ m.written))
    (s.world.engine e).timeline.window
  have hwindow := htrim.window every hevery
  have hlt := Nat.mod_lt (s.world.engine e).metrics.readWriteCommits hpos
  omega

theorem Regular.of_handles (h : Paced e own s s')
    (hh : ∀ n < s.store.created, 0 < (s.store.cell ⟨n + 1⟩).handles) : Regular e own s s' :=
  ⟨h, fun c _ => holds_of_handles hh c⟩

theorem Regulated.creating (h : s.Regulated sole fun _ => True)
    (hh : ∀ n < s.store.created, 0 < (s.store.cell ⟨n + 1⟩).handles) (type : ContentType)
    (value : V) :
    (s.next (s.world.createCell sole type value).2 s.running).Regulated sole fun _ => True := by
  obtain ⟨s₀, h₀, hrun⟩ := h
  exact ⟨s₀, h₀, hrun.tail (.of_handles (.aside (.create sole type value) nofun
    fun c _ => keeps_create type value rfl c) hh)⟩

theorem Regulated.changing (h : s.Regulated sole fun _ => True) (hr : s.running = [])
    (hh : ∀ n < s.store.created, 0 < (s.store.cell ⟨n + 1⟩).handles) (c : CellId) (value : V)
    (hc : Conclusive
      (s.world.begin sole .readWrite |>.2.commit
        ((s.world.begin sole .readWrite).1.write (s.store.cell c) value).2).1)
    (hl : (s.changing c value).live = []) : (s.changing c value).Regulated sole fun _ => True := by
  obtain ⟨s₀, h₀, hrun⟩ := h
  have hbegin := Turn.begin (s := s) sole .readWrite
  rw [hr] at hbegin
  have hbegun := hrun.tail
    (.of_handles (.aside hbegin nofun fun _ _ => .of_store (by rfl) _) hh)
  have hwritten := hbegun.tail
    (.of_handles (.aside (.access (.refl _) (.write c value)) nofun
      fun _ _ => .of_store (by rfl) _) hh)
  exact ⟨s₀, h₀, hwritten.tail (.of_handles (.commit (.refl _) rfl hc fun _ => hl) hh)⟩

/-- An engine that reclaims after every second commit, and two cells: the first one is changed by
one commit, the other one by the two commits after that. -/
def changedAroundPass : Scene Nat :=
  let s₀ : Scene Nat := .start { reclaimEvery := some 2 } {}
  let s₁ := s₀.next (s₀.world.createCell sole 0 0).2 []
  let s₂ := s₁.next (s₁.world.createCell sole 0 0).2 []
  ((s₂.changing ⟨1⟩ 5).changing ⟨2⟩ 7).changing ⟨2⟩ 9

theorem regulated_changedAroundPass : changedAroundPass.Regulated sole fun _ => True := by
  have hstart : (start { reclaimEvery := some 2 } {} : Scene Nat).Regulated sole fun _ => True :=
    ⟨_, ⟨[({ reclaimEvery := some 2 }, {})], rfl⟩, .refl⟩
  have hcells := (hstart.creating nofun 0 0).creating (by decide +kernel) 0 0
  have hfirst := hcells.changing rfl (by decide +kernel) ⟨1⟩ 5 (by decide +kernel)
    (by decide +kernel)
  have hsecond := hfirst.changing rfl (by decide +kernel) ⟨2⟩ 7 (by decide +kernel)
    (by decide +kernel)
  exact hsecond.changing rfl (by decide +kernel) ⟨2⟩ 9 (by decide +kernel) (by decide +kernel)

/-- The bound is met: the pass after the second commit passes the second cell over, because the
newest commit alone has changed it. -/
theorem inline_passes_bound_met :
    (changedAroundPass.world.engine sole).config.reclaimEvery = some 2 ∧
      (changedAroundPass.world.engine sole).metrics.passes = 1 ∧
      (changedAroundPass.store.cell ⟨2⟩).chain.records = [⟨3, 9⟩, ⟨2, 7⟩, ⟨0, 0⟩] ∧
      (changedAroundPass.store.cell ⟨2⟩).chain.size ≤ 2 + 1 := by
  have hevery : (changedAroundPass.world.engine sole).config.reclaimEvery = some 2 := by
    decide +kernel
  exact ⟨hevery, by decide +kernel, by decide +kernel,
    inline_passes_bound regulated_changedAroundPass hevery (by decide) trivial
      (by decide +kernel) (.inl (by decide +kernel))⟩

end Scene

end VersionedMemory
