import Mathlib.Algebra.BigOperators.Group.Finset.Basic
import VersionedMemory.Proofs.ProgramTurns

/-!
# Attempts in a row

A body that is to be carried out in one transaction is attempted again and again while it ends in a
conflict, as often as the settings of the engine allow. Each attempt is a transaction of its own,
begun on the version that is the newest then, and is over, with its anchor given back, before the
next one begins. What an attempt that ended in a conflict had buffered is lost; the answer is that
of the last attempt.

Bodies may do what they like with other transactions, of the same engine too, and may keep a state
from one attempt to the next.

## Main definitions

* `Host.Trial` is one attempt from before it to after it, and `Host.trials` are the attempts in a
  row.
* `Host.Trial.Sound` says what holds of an attempt whatever came before it.
* `Host.Attempted` says how a row of attempts ends.

## Main statements

* `Host.trial_sound`: every attempt is sound.
* `Host.atomically_spec`: which attempts are made, what is answered, and what is left of them.
-/

namespace VersionedMemory

variable {V σ α : Type} [Inhabited V]

/-! ### How a commit ends -/

theorem Change.not_isConflict_of_publish {c : Change V} {version : Version} {s : Store V}
    {err : Error} (h : c.publish version s = .error err) : err.isConflict = false := by
  have hpush : ∀ (chain : Chain V) (value : V), chain.push value version = .error err →
      err.isConflict = false := by
    intro chain value hp
    unfold Chain.push at hp
    split at hp <;> cases hp
    rfl
  unfold Change.publish at h
  split at h
  · exact hpush _ _ (map_eq_error_iff.1 (map_eq_error_iff.1 h))
  · have hu := map_eq_error_iff.1 (map_eq_error_iff.1 h)
    unfold Chain.update at hu
    split at hu
    · cases hu
    · exact hpush _ _ hu

theorem not_isConflict_of_publishAll {version : Version} {changes : List (Change V)}
    {s : Store V} {err : Error} (h : (publishAll version changes s).failed = some err) :
    err.isConflict = false := by
  induction changes generalizing s with
  | nil => cases h
  | cons c rest ih =>
    unfold publishAll at h
    split at h
    · exact ih h
    · next he =>
      cases h
      exact c.not_isConflict_of_publish he

namespace World

variable {w : World V} {x : Context V}

/-- A commit that answers with a conflict changes no cell and no version. -/
theorem commit_of_conflict (ha : x.isActive = true) (ht : x.isChild = false) {err : Error}
    (h : (w.commit x).1 = .error err) (hc : err.isConflict = true) :
    (w.commit x).2.store = w.store ∧
      ∀ d, ((w.commit x).2.engine d).version = (w.engine d).version := by
  obtain ⟨hres, hw⟩ := w.commit_eq ha ht
  rw [h] at hres
  obtain hw | ⟨receipt, hok, -⟩ := hw
  · obtain ⟨hstore, hhead⟩ : ((w.engine x.engine).commit x w.store).store = w.store ∧
        ((w.engine x.engine).commit x w.store).engine.timeline =
          (w.engine x.engine).timeline.leave x.anchor := by
      rcases ((w.engine x.engine).commit_cases x w.store).2 with ⟨-, hok, -⟩ |
        ⟨-, -, -, hs, htl⟩ | ⟨-, -, -, p, rfl, -, -, hp⟩
      · cases hres.trans hok
      · exact ⟨hs, htl⟩
      · rw [← hres] at hp
        cases hf : (publishAll ((w.engine x.engine).version + 1) x.changes w.store).failed with
        | none => simp [hf] at hp
        | some e =>
          obtain rfl : err = e := by simpa [hf] using hp
          rw [not_isConflict_of_publishAll hf] at hc
          cases hc
    refine ⟨hw ▸ hstore, fun d => ?_⟩
    rw [hw, engine_setEngine]
    split
    · next he =>
      subst he
      rw [Engine.version, hhead]
      exact Timeline.version_head_leave _ _
    · rfl
  · cases hres.trans hok

omit [Inhabited V] in
theorem started_setEngine {e : EngineId} {g : Engine}
    (hg : g.metrics.started = (w.engine e).metrics.started) (d : EngineId) :
    ((w.setEngine e g).engine d).metrics.started = (w.engine d).metrics.started := by
  rw [engine_setEngine]
  split
  · next hd => rw [hg, hd]
  · rfl

theorem started_reclaim (w : World V) (e d : EngineId) :
    ((w.reclaim e).2.engine d).metrics.started = (w.engine d).metrics.started := by
  simp only [World.reclaim, engine_setEngine]
  split
  · next hd =>
    rw [hd]
    rfl
  · rfl

end World

/-- The counters that do not tell how transactions ended. -/
def Metrics.upkeep (m : Metrics) : Metrics :=
  { m with committed := 0, readOnlyCommits := 0, aborted := 0, conflicts := 0 }

omit [Inhabited V] in
theorem Engine.upkeep_finish (g : Engine) (x : Context V) (status : Status) :
    (g.finish x status).2.metrics.upkeep = g.metrics.upkeep := by
  unfold finish
  cases x.kind <;> cases status <;> rfl

theorem Engine.upkeep_commit (g : Engine) (x : Context V) (s : Store V) :
    (g.commit x s).engine.metrics.upkeep = g.metrics.upkeep := by
  unfold commit
  split
  · exact g.upkeep_finish x .committed
  · split
    · next g' ho =>
      have hg : g'.metrics.upkeep = g.metrics.upkeep :=
        (congrArg (·.2.metrics.upkeep) ho).symm
      exact (Engine.upkeep_finish _ x _).trans hg
    · next g' ho =>
      have hg : g'.metrics.upkeep = g.metrics.upkeep :=
        (congrArg (·.2.metrics.upkeep) ho).symm
      unfold publish
      split
      · exact (Engine.upkeep_finish _ x _).trans hg
      · dsimp only
        split
        · exact (Engine.upkeep_finish _ x _).trans hg
        · split <;> exact (Engine.upkeep_finish _ x _).trans hg

theorem Engine.started_commit (g : Engine) (x : Context V) (s : Store V) :
    (g.commit x s).engine.metrics.started = g.metrics.started :=
  (congrArg Metrics.started (g.upkeep_commit x s) :)

namespace World

variable {w : World V} {x : Context V}

omit [Inhabited V] in
theorem started_abort (w : World V) (x : Context V) (reason : String) (d : EngineId) :
    ((w.abort x reason).engine d).metrics.started = (w.engine d).metrics.started := by
  refine started_setEngine ?_ d
  unfold Engine.abort
  split
  · exact (congrArg Metrics.started (Engine.upkeep_finish _ x (.aborted reason)) :)
  · rfl

theorem started_commit (w : World V) (x : Context V) (d : EngineId) :
    ((w.commit x).2.engine d).metrics.started = (w.engine d).metrics.started := by
  unfold World.commit
  split
  · rfl
  · split
    · exact started_abort w x _ d
    · have hg := Engine.started_commit (w.engine x.engine) x w.store
      generalize (w.engine x.engine).commit x w.store = done at hg
      have hdone := started_setEngine (w := { w with store := done.store }) hg d
      dsimp only
      split
      · exact hdone
      · split
        · exact (started_reclaim _ _ d).trans hdone
        · exact hdone

end World

/-! ### One attempt -/

omit [Inhabited V] in
/-- An engine gives up a transaction that is running: its anchor is given back, and no live
transaction has its identity. -/
theorem Scene.Attends.gone {w w' : World V} {x : Context V} {run : List (Context V)}
    {past past' : History V} {e : EngineId} (h : (⟨w, x :: run, past⟩ : Scene V).Attends e)
    (h' : (⟨w', run, past'⟩ : Scene V).Attends e) (hx : x.engine = e) (hw : w'.alive = w.alive) :
    (w'.engine e).timeline.anchored + 1 = (w.engine e).timeline.anchored ∧
      ∀ y ∈ w'.alive ++ run, y.engine = e → y.id ≠ x.id := by
  have hl : ((⟨w, x :: run, past⟩ : Scene V).livesOf e).Perm
      (x.life :: (⟨w', run, past'⟩ : Scene V).livesOf e) := by
    refine livesOf_perm_cons ?_ hx
    have hfirst := (live_perm_cons (s := ⟨w, x :: run, past⟩) (.refl _)).map Context.life
    dsimp only [lives, live] at hfirst ⊢
    rwa [hw]
  refine ⟨?_, fun y hy hye hid => ?_⟩
  · have hbefore := h.anchors.anchored_eq
    have hafter := h'.anchors.anchored_eq
    rw [hl.length_eq, List.length_cons] at hbefore
    dsimp only at hbefore hafter
    rw [hbefore, hafter]
  · have hids := (hl.pairwise_iff fun hne he => hne he.symm).1 h.ids
    exact (List.pairwise_cons.1 hids).1 y.life
      (mem_livesOf.2 ⟨List.mem_map_of_mem hy, hye⟩) hid.symm

namespace Host

/-- One attempt of a body, from before it to after it. -/
structure Trial (V σ α : Type) where
  before : Host V σ
  /-- The transaction as it was begun. -/
  begun : Context V
  /-- The host as the body found it. -/
  opened : Host V σ
  outcome : Except Error α
  /-- The transaction as the body left it. -/
  ended : Context V
  /-- The host as the body left it. -/
  left : Host V σ
  answer : Except Error α
  after : Host V σ

def trial (h : Host V σ) (e : EngineId) (mode : Mode) (body : Body V σ α) : Trial V σ α :=
  let (begun, world) := h.world.begin e mode
  let opened := { h with world }
  let ((outcome, ended), left) := body.runOn begun opened
  let (answer, after) := h.attempt e mode body
  ⟨h, begun, opened, outcome, ended, left, answer, after⟩

/-- The host after `n` attempts in a row, whatever they answered. -/
def afterAttempts (h : Host V σ) (e : EngineId) (mode : Mode) (body : Nat → Body V σ α) :
    Nat → Host V σ
  | 0 => h
  | n + 1 => ((h.afterAttempts e mode body n).attempt e mode (body (n + 1))).2

/-- The attempts in a row; the first one is that of number 0. -/
def trials (h : Host V σ) (e : EngineId) (mode : Mode) (body : Nat → Body V σ α) (n : Nat) :
    Trial V σ α :=
  (h.afterAttempts e mode body n).trial e mode (body (n + 1))

/-- The attempt ended in a conflict, of its commit or of the body. -/
def Trial.Conflicts (t : Trial V σ α) : Prop := ∃ err, t.answer = .error err ∧ err.isConflict = true

/-- What holds of an attempt on an engine beside which the given transactions are running. -/
structure Trial.Sound (t : Trial V σ α) (e : EngineId) (mode : Mode) (run : List (Context V)) :
    Prop where
  /-- The transaction is new, under the next number. -/
  begun_eq : t.begun = .begin ⟨(t.before.world.engine e).begun + 1⟩ e
    (t.before.world.engine e).timeline.anchor.1 mode
  /-- The transaction sees the newest version. -/
  snapshot_eq : t.begun.snapshot = (t.before.world.engine e).version
  /-- No live transaction of the engine has its identity. -/
  unused : ∀ y ∈ t.before.world.alive ++ run, y.engine = e → y.id ≠ t.begun.id
  /-- The attempt itself begins no other transaction. -/
  started : (t.opened.world.engine e).metrics.started =
      (t.before.world.engine e).metrics.started + 1 ∧
    (t.after.world.engine e).metrics.started = (t.left.world.engine e).metrics.started
  /-- The body neither ends the transaction nor makes another one of it. -/
  kept : t.ended.life = t.begun.life
  /-- The attempt succeeds if the body does and the commit does. -/
  answer_ok : ∀ a, t.answer = .ok a ↔ t.outcome = .ok a ∧
    ∃ receipt, t.left.world.commit t.ended = (.ok receipt, t.after.world)
  /-- The attempt ends in the error of the body, or else in that of the commit. -/
  answer_error : ∀ err, t.answer = .error err ↔ t.outcome = .error err ∨
    (∃ a, t.outcome = .ok a) ∧ t.left.world.commit t.ended = (.error err, t.after.world)
  /-- An attempt that ends in a conflict, or whose body fails, publishes nothing. -/
  withheld : t.Conflicts ∨ (∃ err, t.outcome = .error err) →
    t.after.world.store = t.left.world.store ∧
      ∀ d, (t.after.world.engine d).version = (t.left.world.engine d).version
  /-- The anchor is given back. -/
  released : (t.after.world.engine e).timeline.anchored + 1 =
    (t.left.world.engine e).timeline.anchored
  /-- The number of the transaction is not given out again. -/
  numbered : t.begun.id.number ≤ (t.after.world.engine e).begun
  /-- No live transaction has the identity of this one any more. -/
  gone : ∀ y ∈ t.after.world.alive ++ run, y.engine = e → y.id ≠ t.begun.id

variable {body : Body V σ α} {h : Host V σ} {s : Scene V} {e : EngineId}

/-- An attempt ends with the commit or with the abort of its transaction. -/
theorem trial_end (h : Host V σ) (e : EngineId) (mode : Mode) (body : Body V σ α) :
    let t := h.trial e mode body
    (∃ a, t.outcome = .ok a ∧ t.answer = (t.left.world.commit t.ended).1.map (fun _ => a) ∧
      t.after.world = (t.left.world.commit t.ended).2) ∨
    ∃ err, t.outcome = .error err ∧ t.answer = .error err ∧
      t.after.world = t.left.world.abort t.ended World.callerAbort := by
  unfold trial attempt
  dsimp only
  generalize body.runOn _ _ = o
  obtain ⟨⟨r, x⟩, h'⟩ := o
  cases r with
  | ok a => exact .inl ⟨a, rfl, rfl, rfl⟩
  | error err => exact .inr ⟨err, rfl, rfl, rfl⟩

/-- Every attempt of a tame body is sound. -/
theorem trial_sound (hb : body.Tame) (hs : s.Stays e h.world) (mode : Mode) :
    (h.trial e mode body).Sound e mode s.running := by
  have hopened : s.Comes e (h.trial e mode body).opened.world
      ((h.trial e mode body).begun :: s.running) := hs.comes.turn (.begin e mode)
  have hleft : Scene.Comes
      ⟨(h.trial e mode body).opened.world, (h.trial e mode body).begun :: s.running, s.past⟩ e
      (h.trial e mode body).left.world ((h.trial e mode body).ended :: s.running) :=
    (hb.runOn hopened.stays.comes).1
  have hkept : (h.trial e mode body).ended.life = (h.trial e mode body).begun.life := hb.life _
  have hcounts : ((h.trial e mode body).opened.world.engine e).begun =
        (h.world.engine e).begun + 1 ∧
      ((h.trial e mode body).opened.world.engine e).metrics.started =
        (h.world.engine e).metrics.started + 1 := by
    simp [trial, World.begin, Engine.begin]
  have hend := h.trial_end e mode body
  have hbefore : (h.trial e mode body).before = h := rfl
  have hbegun : (h.trial e mode body).begun = .begin ⟨(h.world.engine e).begun + 1⟩ e
      (h.world.engine e).timeline.anchor.1 mode := rfl
  generalize h.trial e mode body = t at *
  have hengine : t.ended.engine = e :=
    (congrArg Life.engine hkept).trans (congrArg Context.engine hbegun)
  have hid : t.ended.id = t.begun.id := congrArg Life.id hkept
  obtain ⟨hactive, htop⟩ := hleft.attends.proper
    (List.mem_append_right _ (List.mem_cons_self ..)) hengine
  have halive : t.after.world.alive = t.left.world.alive := by
    rcases hend with ⟨a, -, -, hw⟩ | ⟨err, -, -, hw⟩
    · rw [hw, World.alive_commit]
    · rw [hw]
      rfl
  have hafter : Scene.Comes ⟨t.opened.world, t.begun :: s.running, s.past⟩ e t.after.world
      s.running := by
    rcases hend with ⟨a, -, -, hw⟩ | ⟨err, -, -, hw⟩
    · rw [hw]
      exact hleft.commit
    · rw [hw]
      exact hleft.abort _
  obtain ⟨hreleased, hgone⟩ := hleft.attends.gone hafter.attends hengine halive
  refine ⟨?_, ?_, fun y hy hye hyid => ?_, ⟨?_, ?_⟩, hkept, fun b => ?_, fun err' => ?_,
    fun hc => ?_, hreleased, ?_, hid ▸ hgone⟩
  · rw [hbefore, hbegun]
  · rw [hbefore, hbegun]
    rfl
  · -- The numbers of the live transactions do not reach the next one.
    rw [hbefore] at hy
    have hle := hs.comes.attends.begun y.life (Scene.mem_livesOf.2 ⟨List.mem_map_of_mem hy, hye⟩)
    have hnumber : y.id.number = (h.world.engine e).begun + 1 := by
      rw [hyid, hbegun]
      rfl
    exact Nat.not_succ_le_self _ (hnumber ▸ hle)
  · rw [hbefore, hcounts.2]
  · rcases hend with ⟨a, -, -, hw⟩ | ⟨err, -, -, hw⟩
    · rw [hw, World.started_commit]
    · rw [hw, World.started_abort]
  · rcases hend with ⟨a, ho, hans, hw⟩ | ⟨err, ho, hans, hw⟩
    · rw [ho, hans, hw, map_eq_ok_iff]
      constructor
      · rintro ⟨receipt, hr, rfl⟩
        exact ⟨rfl, receipt, Prod.ext hr rfl⟩
      · rintro ⟨hab, receipt, hr⟩
        exact ⟨receipt, congrArg Prod.fst hr, Except.ok.inj hab⟩
    · rw [ho, hans]
      constructor
      · intro hn
        cases hn
      · rintro ⟨hn, -⟩
        cases hn
  · rcases hend with ⟨a, ho, hans, hw⟩ | ⟨err, ho, hans, hw⟩
    · rw [ho, hans, hw, map_eq_error_iff]
      constructor
      · exact fun hr => .inr ⟨⟨a, rfl⟩, Prod.ext hr rfl⟩
      · rintro (hn | ⟨-, hr⟩)
        · cases hn
        · exact congrArg Prod.fst hr
    · rw [ho, hans]
      constructor
      · exact .inl
      · rintro (he | ⟨⟨a, hn⟩, -⟩)
        · exact he
        · cases hn
  · rcases hend with ⟨a, ho, hans, hw⟩ | ⟨err, ho, hans, hw⟩
    · rw [hw]
      rcases hc with ⟨err, herr, hconflict⟩ | ⟨err, herr⟩
      · exact World.commit_of_conflict hactive htop (map_eq_error_iff.1 (hans.symm.trans herr))
          hconflict
      · cases ho.symm.trans herr
    · rw [hw]
      exact ⟨rfl, World.version_abort _ _ _⟩
  · rw [hbegun]
    exact Nat.le_trans (Nat.le_of_eq hcounts.1.symm) hafter.precedes.begun_le

/-! ### The loop -/

/-- How often a loop goes on: `left` more attempts after `n` of them. -/
theorem attempts_eq (h : Host V σ) (e : EngineId) (mode : Mode) (body : Nat → Body V σ α)
    (left n : Nat) :
    let t := h.trials e mode body
    ∃ i, n ≤ i ∧ i ≤ n + left ∧
      attempts e mode body left n (h.afterAttempts e mode body n) =
        (((t i).answer, i + 1), (t i).after) ∧
      (∀ j, n ≤ j → j < i → (t j).Conflicts) ∧ ((t i).Conflicts → i = n + left) := by
  intro t
  have hanswer : ∀ i, ((h.afterAttempts e mode body i).attempt e mode (body (i + 1))) =
      ((t i).answer, (t i).after) := fun _ => rfl
  induction left generalizing n with
  | zero =>
    refine ⟨n, Nat.le_refl _, Nat.le_refl _, ?_, fun j hj hlt => ?_, fun _ => rfl⟩
    · unfold attempts
      rw [hanswer]
    · exact absurd hlt (Nat.not_lt.2 hj)
  | succ left ih =>
    unfold attempts
    rw [hanswer]
    -- The loop goes on after a conflict, and stops after all else.
    by_cases hc : (t n).Conflicts
    · obtain ⟨i, hle, hbound, heq, hearlier, hlast⟩ := ih (n + 1)
      refine ⟨i, Nat.le_of_succ_le hle, by omega, ?_, fun j hj hlt => ?_, fun h => by
        have := hlast h
        omega⟩
      · obtain ⟨err, herr, hconflict⟩ := hc
        rw [herr]
        dsimp only
        rw [if_pos hconflict]
        exact heq
      · rcases Nat.eq_or_lt_of_le hj with rfl | hj
        · exact hc
        · exact hearlier j hj hlt
    · refine ⟨n, Nat.le_refl _, Nat.le_add_right _ _, ?_, fun j hj hlt => ?_, fun h => absurd h hc⟩
      · cases ha : (t n).answer with
        | ok a => rfl
        | error err =>
          dsimp only
          rw [if_neg fun hconflict => hc ⟨err, ha, hconflict⟩]
      · exact absurd hlt (Nat.not_lt.2 hj)

/-- After some attempts in a row, the same transactions are running, and more attempts may come. -/
theorem stays_afterAttempts {body : Nat → Body V σ α} (hb : ∀ n, (body n).Tame)
    (hs : s.Stays e h.world) (mode : Mode) (n : Nat) :
    s.Stays e (h.afterAttempts e mode body n).world := by
  induction n with
  | zero => exact hs
  | succ n ih => exact (hb (n + 1)).attempt ih e mode

theorem stays_afterAttempts_of_le {body : Nat → Body V σ α} (hb : ∀ n, (body n).Tame)
    (hs : s.Stays e h.world) (mode : Mode) {i n : Nat} (hi : i ≤ n) :
    Scene.Stays ⟨(h.afterAttempts e mode body i).world, s.running, s.past⟩ e
      (h.afterAttempts e mode body n).world := by
  induction n, hi using Nat.le_induction with
  | base => exact (stays_afterAttempts hb hs mode i).comes.stays
  | succ n _ ih => exact (hb (n + 1)).attempt ih e mode

/-- How many transactions of an engine have been begun. -/
def started (h : Host V σ) (e : EngineId) : Nat := (h.world.engine e).metrics.started

/-- All that was begun is what the attempts began themselves and what their bodies had begun. -/
theorem started_afterAttempts {body : Nat → Body V σ α} {e : EngineId} {mode : Mode}
    {run : List (Context V)} (n : Nat)
    (ht : ∀ i < n, (h.trials e mode body i).Sound e mode run) :
    let t := h.trials e mode body
    (h.afterAttempts e mode body n).started e + ∑ i ∈ Finset.range n, (t i).opened.started e =
      h.started e + n + ∑ i ∈ Finset.range n, (t i).left.started e := by
  intro t
  induction n with
  | zero => rfl
  | succ n ih =>
    have hrest := ih fun i hi => ht i (Nat.lt_succ_of_lt hi)
    obtain ⟨hopened, hafter⟩ := (ht n (Nat.lt_succ_self n)).started
    have hnext : (h.afterAttempts e mode body (n + 1)).started e = (t n).left.started e := hafter
    have hbegin : (t n).opened.started e = (h.afterAttempts e mode body n).started e + 1 := hopened
    rw [Finset.sum_range_succ, Finset.sum_range_succ, hnext]
    omega

/-- `k` of the attempts `t` were made in a row. They started from the host `h`, and ended with an
answer and with the host `after`, and `m` is how many the settings allow. All but the last one ended
in a conflict and published nothing. What is answered, and all that is left, are those of the last
one. So there is a result just where the last body gave it and its commit succeeded; a conflict is
answered only when no attempt is left; and any other error is that of the attempt that ran into it,
after which there is none. In every case no attempt is alive or anchored afterwards. -/
structure Attempted (t : Nat → Trial V σ α) (e : EngineId) (mode : Mode) (run : List (Context V))
    (past : History V) (m : Nat) (h : Host V σ) (answer : Except Error α) (k : Nat)
    (after : Host V σ) : Prop where
  pos : 1 ≤ k
  within : k ≤ m
  first : (t 0).before = h
  answer_eq : answer = (t (k - 1)).answer
  after_eq : after = (t (k - 1)).after
  sound : ∀ i < k, (t i).Sound e mode run
  conflicts : ∀ i, i + 1 < k → (t i).Conflicts
  next : ∀ i, i + 1 < k → (t (i + 1)).before = (t i).after
  ok_iff : ∀ a, answer = .ok a ↔ (t (k - 1)).outcome = .ok a ∧
    ∃ receipt, (t (k - 1)).left.world.commit (t (k - 1)).ended = (.ok receipt, after.world)
  exhausted : ∀ err, answer = .error err → err.isConflict = true → k = m
  stopped : ∀ i < k, ∀ err, (t i).answer = .error err → err.isConflict = false →
    i + 1 = k ∧ answer = .error err
  attends : (⟨after.world, run, past⟩ : Scene V).Attends e
  gone : ∀ i < k, ∀ y ∈ after.world.alive ++ run, y.engine = e → y.id ≠ (t i).begun.id
  /-- One transaction was begun for each attempt, beside those that the bodies had begun. -/
  counted : after.started e + ∑ i ∈ Finset.range k, (t i).opened.started e =
    h.started e + k + ∑ i ∈ Finset.range k, (t i).left.started e

/-- A body is attempted at least once and at most as often as the settings allow, each time in a new
transaction that sees the newest version. -/
theorem atomically_spec {body : Nat → Body V σ α} (hb : ∀ n, (body n).Tame) {h : Host V σ}
    {run : List (Context V)} {past : History V} {e : EngineId}
    (ha : (⟨h.world, run, past⟩ : Scene V).Attends e) (hf : h.world.Fresh) (mode : Mode)
    (hm : 0 < (h.world.engine e).config.maxAttempts) :
    let r := h.atomically e mode body
    Attempted (h.trials e mode body) e mode run past (h.world.engine e).config.maxAttempts h
      r.1.1 r.1.2 r.2 := by
  have hstays : Scene.Stays ⟨h.world, run, past⟩ e h.world := (ha.comes hf).stays
  have hsound : ∀ i, (h.trials e mode body i).Sound e mode run := fun i =>
    trial_sound (hb (i + 1)) (stays_afterAttempts hb hstays mode i) mode
  obtain ⟨i, -, hle, heq, hearlier, hlast⟩ :=
    h.attempts_eq e mode body ((h.world.engine e).config.maxAttempts - 1) 0
  have hr : h.atomically e mode body = (((h.trials e mode body i).answer, i + 1),
      (h.trials e mode body i).after) := heq
  have hbound : i + 1 ≤ (h.world.engine e).config.maxAttempts := by omega
  rw [hr]
  refine {
    pos := Nat.le_add_left _ _
    within := hbound
    first := rfl
    answer_eq := rfl
    after_eq := rfl
    sound := fun j _ => hsound j
    conflicts := fun j hj => hearlier j (Nat.zero_le _) (Nat.lt_of_succ_lt_succ hj)
    next := fun _ _ => rfl
    ok_iff := (hsound i).answer_ok
    exhausted := fun err herr hc => ?_
    stopped := fun j hj err herr hc => ?_
    attends := (stays_afterAttempts hb hstays mode (i + 1)).comes.attends
    gone := fun j hj y hy hye hid => ?_
    counted := started_afterAttempts (i + 1) fun j _ => hsound j }
  · have hlast' := hlast ⟨err, herr, hc⟩
    rw [hlast', Nat.zero_add, Nat.sub_add_cancel hm]
  · rcases Nat.lt_or_eq_of_le (Nat.le_of_lt_succ hj) with hlt | rfl
    · obtain ⟨err', herr', hc'⟩ := hearlier j (Nat.zero_le _) hlt
      obtain rfl : err = err' := Except.error.inj (herr.symm.trans herr')
      cases hc.symm.trans hc'
    · exact ⟨rfl, herr⟩
  · -- Whoever lives at the end lived after the attempt, or has a higher number.
    have hrun := (stays_afterAttempts_of_le hb hstays mode (Nat.succ_le_of_lt hj)).comes.precedes
    rcases hrun.old_or_new y.life (Scene.mem_livesOf.2 ⟨List.mem_map_of_mem hy, hye⟩) with
      hold | ⟨hlt, -⟩
    · obtain ⟨hmem, hengine⟩ := Scene.mem_livesOf.1 hold
      obtain ⟨z, hz, hlife⟩ := List.mem_map.1 hmem
      exact (hsound j).gone z hz ((congrArg Life.engine hlife).trans hengine)
        ((congrArg Life.id hlife).trans hid)
    · have hnumber := (hsound j).numbered
      rw [← hid] at hnumber
      exact Nat.lt_irrefl _ (Nat.lt_of_lt_of_le hlt hnumber)

/-- A body counts its attempts, and when it runs for the first time, another transaction writes to
the cell that it has read. The second attempt succeeds. -/
theorem atomically_second_attempt :
    let s : Scene Nat :=
      (Scene.start {} {}).next ((Scene.start {} {}).world.createCell sole 0 0).2 []
    let rival : Action Nat Nat := .atomically sole .readWrite (.write ⟨1⟩ 100 fun _ => .done 0)
    let increment (v : Nat) : Program Nat Nat := .write ⟨1⟩ (v + 1) fun _ => .done v
    let once (n : Nat) : Program Nat Nat := .read ⟨1⟩ fun
      | .ok v => if n = 0 then .aside rival (increment v) else increment v
      | .error err => .fail err
    let body : Nat → Body Nat Nat Nat := fun _ => do
      let n ← Body.aside fun h => (h.client, { h with client := h.client + 1 })
      (once n).run
    let h : Host Nat Nat := ⟨s.world, 0⟩
    let r := h.atomically sole .readWrite body
    let t := h.trials sole .readWrite body
    r.1 = (.ok 100, 2) ∧ r.2.client = 2 ∧ (r.2.world.store.cell ⟨1⟩).value = 101 ∧
      (t 0).Conflicts ∧ (∀ i < 2, (t i).Sound sole .readWrite []) ∧
      (r.2.world.engine sole).metrics.started = 3 ∧
      (r.2.world.engine sole).timeline.anchored = 0 := by
  intro s rival increment once body h r t
  have hs : s.Reachable := ⟨{}, {}, .single (.create 0 0)⟩
  obtain ⟨hsettled, hfresh⟩ := hs.attained.settled
  have hbody : ∀ n, (body n).Tame := fun _ =>
    (Body.tame_client fun n => (n, n + 1)).bind fun n => (once n).tame
  have hr : r.1 = (.ok 100, 2) := by decide +kernel
  have hk : r.1.2 = 2 := by rw [hr]
  have hrow := atomically_spec hbody (h := h) hsettled.attends hfresh .readWrite (by decide)
  exact ⟨hr, by decide +kernel, by decide +kernel, hrow.conflicts 0 (by rw [hk]; decide),
    fun i hi => hrow.sound i (by rwa [hk]), by decide +kernel, by decide +kernel⟩

end Host

end VersionedMemory
