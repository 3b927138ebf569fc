import VersionedMemory.Proofs.Compaction
import VersionedMemory.Proofs.LowWater
import VersionedMemory.Proofs.EngineService

/-!
# Runs of several engines

Any number of engines work over one memory. A turn is one access of a body, or one operation on a
whole transaction, of whichever engine; a transaction may be parked with any engine, any change may
be staged under any identity, and cells may be changed by hand. A deal says what a turn has to do
with the engines and with what is parked.

A run is seen from one of its engines. Some cells are its own: what happens to them is its doing
alone. All that the engine notices of a turn is whether its transactions come or go, whether it
publishes, and whether it retires marks.

## Main definitions

* `Scene.Turn` is one turn, `Scene.Deal` is what it has to do with engines and parked transactions.
* `Scene.Round` is a turn that leaves the own cells of an engine to that engine, `Scene.Ensues` is
  any number of them, and `Scene.Attained` says that some such run comes to a scene.
* `Scene.Notice` is what an engine notices of a turn.

## Main statements

* `Scene.Turn.notices`: a turn is one or two notices of each engine.
-/

namespace VersionedMemory

variable {V : Type}

/-- The handles that were not given out yet hold nothing. -/
def World.Fresh (w : World V) : Prop := ∀ k, w.handles ≤ k → w.held.get? k = none

variable [Inhabited V]

namespace Scene

/-- What a turn has to do with the engines and with what is parked, by the engine it is parked with
and by its identity. -/
inductive Deal where
  | aside
  /-- The engine may publish, and may retire marks. -/
  | serves (e : EngineId)
  /-- A transaction is parked under the key, if it can be. -/
  | parks (k : EngineId × TxnId)
  /-- What is parked under the key is taken back. -/
  | redeems (k : EngineId × TxnId)
  deriving DecidableEq

/-- One turn of a run. -/
inductive Turn : Deal → Scene V → Scene V → Prop
  | meddle {s} (t : Store V) : Turn .aside s (s.next { s.world with store := t } s.running)
  | create {s} (e : EngineId) (type : ContentType) (value : V) :
    Turn .aside s (s.next (s.world.createCell e type value).2 s.running)
  | begin {s} (e : EngineId) (mode : Mode) :
    Turn .aside s (s.next (s.world.begin e mode).2 ((s.world.begin e mode).1 :: s.running))
  | hold {s x rest} : s.running.Perm (x :: rest) → Turn .aside s (s.next (s.world.hold x).2 rest)
  | take {s x w} {k : Handle} :
    s.world.take k = some (x, w) → Turn .aside s (s.next w (x :: s.running))
  | giveBack {s x rest} {k : Handle} :
    s.running.Perm (x :: rest) → s.world.held.get? k = none → k < s.world.handles →
      Turn .aside s (s.next (s.world.giveBack k x) rest)
  | access {s x y rest} :
    s.running.Perm (x :: rest) → x.Access s.store y → Turn .aside s (s.next s.world (y :: rest))
  | stage {s x rest} (under : CellId) (change : Change V) :
    s.running.Perm (x :: rest) →
      Turn .aside s (s.next s.world ((x.stage under change).2 :: rest))
  | openChild {s} (e : EngineId) (kind : ChildKind) (mode : Mode) :
    Turn .aside s
      (s.next (s.world.setEngine e ((s.world.engine e).openChild kind mode).2) s.running)
  | countRerun {s} (e : EngineId) : Turn .aside s (s.next (s.world.countRerun e) s.running)
  | pin {s} (cells : List CellId) :
    Turn .aside s (s.next { s.world with pinned := cells } s.running)
  | bind {s x rest} (t : ThreadId) :
    s.running.Perm (x :: rest) → Turn .aside s (s.next (s.world.bind t x).2 rest)
  | unbind {s x w} {t : ThreadId} :
    s.world.unbind t = (some x, w) → Turn .aside s (s.next w (x :: s.running))
  | park {s x rest} (e : EngineId) :
    s.running.Perm (x :: rest) → Turn (.parks (e, x.id)) s (s.next (s.world.park e x).2 rest)
  | unpark {s x w} {e : EngineId} {txn : TxnId} :
    s.world.unpark e txn = (.ok x, w) → Turn (.redeems (e, txn)) s (s.next w (x :: s.running))
  | commit {s x rest} :
    s.running.Perm (x :: rest) → Turn (.serves x.engine) s (s.next (s.world.commit x).2 rest)
  | abort {s x rest} (reason : String) :
    s.running.Perm (x :: rest) → Turn .aside s (s.next (s.world.abort x reason) rest)
  | reclaim {s} (e : EngineId) : Turn (.serves e) s (s.next (s.world.reclaim e).2 s.running)

/-- New engines over no cells and no transactions. -/
def Opening (s : Scene V) : Prop :=
  ∃ settings : List (Config × Hooks),
    s = ⟨World.create (settings.map fun p => Engine.create p.1 p.2), [], fun _ => []⟩

/-- The history of a cell stays, or it begins. -/
inductive Keeps (s s' : Scene V) (c : CellId) : Prop
  | same : (s'.store.Has c ↔ s.store.Has c) →
    (s'.store.cell c).chain = (s.store.cell c).chain →
    (s'.store.cell c).latest = (s.store.cell c).latest → Keeps s s' c
  | born (value : V) : ¬ s.store.Has c → s'.store.Has c →
    (s'.store.cell c).chain = .single value genesis → (s'.store.cell c).latest = genesis →
    Keeps s s' c

/-- A turn after which the cells that are an engine's own are as they were, unless the engine served
somebody. -/
def Round (e : EngineId) (own : CellId → Prop) (s s' : Scene V) : Prop :=
  ∃ d, Turn d s s' ∧ (d ≠ .serves e → ∀ c, own c → Keeps s s' c)

/-- The second scene comes after the first in some run. -/
def Ensues (e : EngineId) (own : CellId → Prop) : Scene V → Scene V → Prop :=
  Relation.ReflTransGen (Round e own)

/-- Some run comes to the scene in which the own cells of the engine are left to it. -/
def Attained (e : EngineId) (own : CellId → Prop) (s : Scene V) : Prop :=
  ∃ s₀, Opening s₀ ∧ Ensues e own s₀ s

/-- The lives of the live transactions of an engine, wherever they are. -/
def livesOf (s : Scene V) (e : EngineId) : List Life := s.lives.filter (·.engine = e)

/-- All that an engine notices of a turn. A cell that is tended is one that a reclamation pass finds
alive. -/
inductive Notice (e : EngineId) (own tended : CellId → Prop) (s s' : Scene V) : Prop
  | nothing :
    (s'.world.engine e).timeline = (s.world.engine e).timeline →
    (s'.world.engine e).begun = (s.world.engine e).begun →
    (s.livesOf e).Perm (s'.livesOf e) → (∀ c, own c → Keeps s s' c) → Notice e own tended s s'
  | entry (l : Life) :
    (s'.world.engine e).timeline = (s.world.engine e).timeline.anchor.2 →
    (s'.world.engine e).begun = (s.world.engine e).begun + 1 →
    l.id = ⟨(s.world.engine e).begun + 1⟩ → l.kind = none → l.status = .active →
    l.anchor = some (s.world.engine e).timeline.anchor.1 →
    l.snapshot = (s.world.engine e).version →
    (l :: s.livesOf e).Perm (s'.livesOf e) → (∀ c, own c → Keeps s s' c) → Notice e own tended s s'
  | exit (l : Life) :
    (s'.world.engine e).timeline = (s.world.engine e).timeline.leave l.anchor →
    (s'.world.engine e).begun = (s.world.engine e).begun →
    (s.livesOf e).Perm (l :: s'.livesOf e) → (∀ c, own c → Keeps s s' c) → Notice e own tended s s'
  | publication (l : Life) (changed : List CellId) :
    (s'.world.engine e).timeline =
      ((s.world.engine e).timeline.publish ((s.world.engine e).version + 1) changed).leave
        l.anchor →
    (s'.world.engine e).begun = (s.world.engine e).begun →
    (s.livesOf e).Perm (l :: s'.livesOf e) → s'.store.created = s.store.created →
    (∀ c, (c ∉ changed ∧ s'.store.cell c = s.store.cell c) ∨
      (c ∈ changed ∧ ∃ f, s'.store.cell c =
        (s.store.cell c).advance ((s.world.engine e).version + 1) f)) →
    Notice e own tended s s'
  | retirement (live : CellId → Bool) :
    (s'.world.engine e).timeline = (s.world.engine e).timeline.retire.2 →
    (s'.world.engine e).begun = (s.world.engine e).begun →
    (s.livesOf e).Perm (s'.livesOf e) → s'.store.created = s.store.created →
    (∀ c, tended c → live c = true) →
    (∀ c, s'.store.cell c =
      if c ∈ (changedBy (s.world.engine e).timeline.retire.1).filter live then
        (s.store.cell c).compact (s.world.engine e).timeline.retire.2.floor
      else s.store.cell c) →
    Notice e own tended s s'

/-- The engine knows its live transactions: each is anchored, top-level and active, and told apart
by its identity. The versions of its marks follow one after the other. -/
structure Attends (s : Scene V) (e : EngineId) : Prop where
  anchors : (s.world.engine e).timeline.Anchors (s.livesOf e)
  consecutive : (s.world.engine e).timeline.Consecutive
  active : ∀ l ∈ s.livesOf e, l.kind = none ∧ l.status = .active
  ids : (s.livesOf e).Pairwise fun l l' => l.id ≠ l'.id
  begun : ∀ l ∈ s.livesOf e, l.id.number ≤ (s.world.engine e).begun

variable {s s' : Scene V} {e : EngineId} {own tended : CellId → Prop} {x : Context V} {l : Life}

theorem Keeps.of_store (h : s'.world.store = s.world.store) (c : CellId) : Keeps s s' c :=
  .same (by simp only [store, h]) (by simp only [store, h]) (by simp only [store, h])

/-! ### The lives of one engine -/

omit [Inhabited V] in
theorem mem_livesOf : l ∈ s.livesOf e ↔ l ∈ s.lives ∧ l.engine = e := by simp [livesOf]

omit [Inhabited V] in
theorem livesOf_perm (h : s.lives.Perm s'.lives) (e : EngineId) :
    (s.livesOf e).Perm (s'.livesOf e) := h.filter _

omit [Inhabited V] in
theorem livesOf_perm_cons (h : s.lives.Perm (l :: s'.lives)) (he : l.engine = e) :
    (s.livesOf e).Perm (l :: s'.livesOf e) := by
  simpa [livesOf, he] using h.filter (·.engine = e)

omit [Inhabited V] in
theorem livesOf_perm_of_ne (h : s.lives.Perm (l :: s'.lives)) (he : l.engine ≠ e) :
    (s.livesOf e).Perm (s'.livesOf e) := by
  simpa [livesOf, he] using h.filter (·.engine = e)

end Scene

/-! ### What the operations of a world do to one engine -/

namespace World

variable {w : World V} {x : Context V} {c : CellId}

omit [Inhabited V] in
theorem engine_abort_of_ne (reason : String) {e : EngineId} (he : e ≠ x.engine) :
    (w.abort x reason).engine e = w.engine e := by simp [abort, he]

theorem engine_commit_of_ne (w : World V) {e : EngineId} (he : e ≠ x.engine) :
    (w.commit x).2.engine e = w.engine e := by
  unfold commit
  split
  · rfl
  · split
    · exact engine_abort_of_ne _ he
    · dsimp only
      split
      · simp [engine, setEngine, he]
      · split <;> simp [reclaimHolding, reclaim, engine, setEngine, he]

theorem isLive_iff : w.isLive c = true ↔
    0 < (w.store.cell c).handles ∨ c ∈ w.pinned ∨ ∃ x ∈ w.alive, c ∈ x.holds := by
  simp [isLive, or_assoc]

theorem isLive_mono {w' : World V} (hh : (w'.store.cell c).handles = (w.store.cell c).handles)
    (hp : w.pinned ⊆ w'.pinned) (ha : w'.alive = w.alive) (h : w.isLive c = true) :
    w'.isLive c = true := by
  rw [isLive_iff] at h ⊢
  rw [hh, ha]
  exact h.imp_right (.imp_left (hp ·))

omit [Inhabited V] in
theorem held_bind (w : World V) (t : ThreadId) (x : Context V) :
    (w.bind t x).2.held = w.held ∧ (w.bind t x).2.handles = w.handles := by
  unfold bind
  split <;> exact ⟨rfl, rfl⟩

omit [Inhabited V] in
theorem held_park (w : World V) (e : EngineId) (x : Context V) :
    (w.park e x).2.held = w.held ∧ (w.park e x).2.handles = w.handles := by
  unfold park
  split
  · exact ⟨rfl, rfl⟩
  · split
    · exact ⟨rfl, rfl⟩
    · dsimp only
      split <;> exact ⟨rfl, rfl⟩

theorem held_commit (w : World V) (x : Context V) :
    (w.commit x).2.held = w.held ∧ (w.commit x).2.handles = w.handles := by
  unfold commit
  split
  · exact ⟨rfl, rfl⟩
  · split
    · exact ⟨rfl, rfl⟩
    · dsimp only
      split
      · exact ⟨rfl, rfl⟩
      · split <;> exact ⟨rfl, rfl⟩

omit [Inhabited V] in
theorem Fresh.of_eq {w' : World V} (h : w.Fresh) (hw : w'.held = w.held ∧ w'.handles = w.handles) :
    w'.Fresh := by
  unfold Fresh
  rw [hw.1, hw.2]
  exact h

end World

/-! ### What a commit decides -/

namespace World

/-- The world when the engine of `x` has decided on its commit, and no reclamation pass has followed
yet. -/
def decided (w : World V) (x : Context V) : World V :=
  let done := (w.engine x.engine).commit x w.store
  { w with store := done.store }.setEngine x.engine done.engine

theorem engine_decided (w : World V) (x : Context V) :
    (w.decided x).engine x.engine = ((w.engine x.engine).commit x w.store).engine := by
  simp [decided]

theorem store_decided (w : World V) (x : Context V) :
    (w.decided x).store = ((w.engine x.engine).commit x w.store).store := rfl

theorem handles_decided (w : World V) (x : Context V) (c : CellId) :
    ((w.decided x).store.cell c).handles = (w.store.cell c).handles := by
  rw [store_decided]
  rcases ((w.engine x.engine).commit_cases x w.store).2 with ⟨-, -, hs, -⟩ | ⟨-, -, -, hs, -⟩ |
    ⟨-, -, -, p, rfl, hs, -⟩
  · rw [hs]
  · rw [hs]
  · rw [hs]
    rcases publishAll_cell ((w.engine x.engine).version + 1) x.changes w.store c with
      ⟨-, h⟩ | ⟨-, -, f, h⟩
    · rw [h]
    · rw [h]
      rfl

end World

/-! ### Compaction, cell by cell -/

/-- The cells that are named are compacted, and no others. -/
theorem cell_compactAll (floor : Version) (cells : List CellId) (s : Store V) (d : CellId) :
    (compactAll floor cells s).2.cell d =
      if d ∈ cells then (s.cell d).compact floor else s.cell d := by
  induction cells generalizing s with
  | nil => simp [compactAll]
  | cons c rest ih =>
    have hrest := ih (s.compact c floor)
    have hcell : (s.compact c floor).cell d =
        if d = c then (s.cell d).compact floor else s.cell d := by
      rw [Store.compact, Store.cell_set]
      split
      · next h =>
        subst h
        simp [Cell.compact]
      · rfl
    change (compactAll floor rest (s.compact c floor)).2.cell d = _
    rw [hrest, hcell]
    by_cases hd : d = c
    · by_cases hr : d ∈ rest <;> simp [hd, Cell.compact, Chain.compact_compact]
    · simp [hd]

namespace Scene

variable {s s' : Scene V} {e : EngineId} {own tended : CellId → Prop} {x : Context V}

/-! ### What an engine notices -/

/-- The transactions change hands, and the engine is not concerned. -/
theorem Notice.of_perm (hg : s'.world.engine e = s.world.engine e) (hl : s.lives.Perm s'.lives)
    (hc : ∀ c, own c → Keeps s s' c) : Notice e own tended s s' :=
  .nothing (by rw [hg]) (by rw [hg]) (livesOf_perm hl e) hc

/-- Of an abort an engine notices that the transaction leaves, if it is one of its own, and nothing
else. -/
theorem Attends.notice_abort (ha : s.Attends e) {reason : String}
    (hg : s'.world.engine e = (s.world.abort x reason).engine e)
    (hl : s.lives.Perm (x.life :: s'.lives)) (hc : ∀ c, own c → Keeps s s' c) :
    Notice e own tended s s' := by
  by_cases he : x.engine = e
  · have hmem : x.life ∈ s.livesOf e := mem_livesOf.2 ⟨hl.mem_iff.2 (List.mem_cons_self ..), he⟩
    have hactive : x.isActive = true :=
      decide_eq_true (p := x.status = .active) (ha.active x.life hmem).2
    have hfinish : s'.world.engine e =
        ((s.world.engine e).finish x (.aborted reason)).2 := by
      simp [hg, World.abort, he, Engine.abort, hactive]
    exact .exit x.life (congrArg Engine.timeline hfinish)
      ((congrArg Engine.begun hfinish).trans rfl) (livesOf_perm_cons hl he) hc
  · have hsame : s'.world.engine e = s.world.engine e :=
      hg.trans (World.engine_abort_of_ne reason (Ne.symm he))
    exact .nothing (by rw [hsame]) (by rw [hsame]) (livesOf_perm_of_ne hl he) hc

/-- Marks are retired, and the live cells that they changed are compacted. -/
theorem Notice.of_reclaim (live : CellId → Bool)
    (hs : s'.store = (compactAll (s.world.engine e).timeline.retire.2.floor
      ((changedBy (s.world.engine e).timeline.retire.1).filter live) s.store).2)
    (ht : (s'.world.engine e).timeline = (s.world.engine e).timeline.retire.2)
    (hb : (s'.world.engine e).begun = (s.world.engine e).begun) (hl : s.lives.Perm s'.lives)
    (hlive : ∀ c, tended c → live c = true) : Notice e own tended s s' :=
  .retirement live ht hb (livesOf_perm hl e) (by rw [hs, created_compactAll]) hlive
    fun c => by rw [hs, cell_compactAll]

/-- A commit of another engine's transaction is none of this engine's concern. -/
theorem Notice.of_commit_of_ne {rest : List (Context V)}
    (hl : s.lives.Perm (x.life :: (s.next (s.world.commit x).2 rest).lives)) (he : x.engine ≠ e)
    (hc : ∀ c, own c → Keeps s (s.next (s.world.commit x).2 rest) c) :
    Notice e own tended s (s.next (s.world.commit x).2 rest) := by
  have hg : (s.world.commit x).2.engine e = s.world.engine e :=
    World.engine_commit_of_ne s.world (Ne.symm he)
  exact .nothing (congrArg Engine.timeline hg) (congrArg Engine.begun hg)
    (livesOf_perm_of_ne hl he) hc

omit [Inhabited V] in
theorem Attends.proper (ha : s.Attends e) (hx : x ∈ s.live) (he : x.engine = e) :
    x.isActive = true ∧ x.isChild = false := by
  obtain ⟨hk, hst⟩ := ha.active x.life (mem_livesOf.2 ⟨List.mem_map_of_mem hx, he⟩)
  have hkind : x.kind = none := hk
  exact ⟨decide_eq_true (p := x.status = .active) hst, by simp [Context.isChild, hkind]⟩

omit [Inhabited V] in
theorem live_perm_cons {rest : List (Context V)} (hp : s.running.Perm (x :: rest)) :
    s.live.Perm (x :: (s.world.alive ++ rest)) :=
  (hp.append_left _).trans List.perm_middle

/-- The engine decides on a commit: the transaction leaves, and what it publishes is published. -/
theorem Attends.notice_decided (he : x.engine = e) {rest : List (Context V)}
    (hp : s.running.Perm (x :: rest)) :
    Notice e own tended s (s.next (s.world.decided x) rest) := by
  subst he
  have hlives : (s.livesOf x.engine).Perm
      (x.life :: (s.next (s.world.decided x) rest).livesOf x.engine) :=
    livesOf_perm_cons ((live_perm_cons hp).map Context.life) rfl
  have hg := s.world.engine_decided x
  have hst := s.world.store_decided x
  obtain ⟨⟨-, hb⟩, hcases⟩ := (s.world.engine x.engine).commit_cases x s.world.store
  have hbegun := (congrArg Engine.begun hg).trans hb
  rcases hcases with ⟨-, -, hs, ht⟩ | ⟨-, -, -, hs, ht⟩ | ⟨-, -, -, p, rfl, hs, ht, -⟩
  · exact .exit x.life ((congrArg Engine.timeline hg).trans ht) hbegun hlives
      fun c _ => .of_store (hst.trans hs) c
  · exact .exit x.life ((congrArg Engine.timeline hg).trans ht) hbegun hlives
      fun c _ => .of_store (hst.trans hs) c
  · refine .publication x.life _ ((congrArg Engine.timeline hg).trans ht) hbegun hlives ?_
      fun c => ?_
    · exact (congrArg Store.created (hst.trans hs)).trans (created_publishAll _ _ _)
    · have hcell := publishAll_cell ((s.world.engine x.engine).version + 1) x.changes s.store c
      rw [show (s.next (s.world.decided x) rest).store = _ from hst.trans hs]
      exact hcell.imp_right fun h => ⟨h.1, h.2.2⟩

/-- An engine commits, and may reclaim after that. -/
theorem Attends.notices_commit (ha : s.Attends e) (he : x.engine = e) {rest : List (Context V)}
    (hp : s.running.Perm (x :: rest)) (hlive : ∀ c, tended c → s.world.isLive c = true) :
    Relation.ReflTransGen (Notice e own tended) s (s.next (s.world.commit x).2 rest) := by
  have hx : x ∈ s.live := (live_perm_cons hp).mem_iff.2 (List.mem_cons_self ..)
  obtain ⟨hactive, htop⟩ := ha.proper hx he
  have hdecided : Notice e own tended s (s.next (s.world.decided x) rest) :=
    notice_decided he hp
  rcases (s.world.commit_eq hactive htop).2 with hw | ⟨receipt, -, -, hw⟩
  · rw [hw]
    exact .single hdecided
  · rw [hw, he]
    refine .tail (.single hdecided) (.of_reclaim
      { s.world.decided x with
        pinned := ((s.world.engine x.engine).commit x s.world.store).context.holds ++
          s.world.pinned }.isLive ?_ ?_ ?_ (.refl _) fun c hc => ?_)
    · subst he
      rfl
    · subst he
      simp [World.reclaimHolding, World.reclaim, World.engine, World.setEngine, Engine.reclaim,
        VersionedMemory.reclaim, World.decided]
    · subst he
      simp [World.reclaimHolding, World.reclaim, World.engine, World.setEngine, Engine.reclaim,
        World.decided]
    · exact World.isLive_mono (s.world.handles_decided x c)
        (fun d hd => List.mem_append_right _ hd) rfl (hlive c hc)

omit [Inhabited V] in
/-- An engine keeps its marks and its count of transactions where only its journal or its counters
change. -/
theorem clock_setEngine {w : World V} {d : EngineId} {g : Engine}
    (ht : g.timeline = (w.engine d).timeline) (hb : g.begun = (w.engine d).begun) (e : EngineId) :
    ((w.setEngine d g).engine e).timeline = (w.engine e).timeline ∧
      ((w.setEngine d g).engine e).begun = (w.engine e).begun := by
  rw [World.engine_setEngine]
  split
  · next he => exact ⟨he ▸ ht, he ▸ hb⟩
  · exact ⟨rfl, rfl⟩

/-- A new transaction of this engine enters, one of another engine does not concern it. -/
theorem Notice.of_begin (d : EngineId) (mode : Mode)
    (hc : ∀ c, own c → Keeps s
      (s.next (s.world.begin d mode).2 ((s.world.begin d mode).1 :: s.running)) c) :
    Notice e own tended s
      (s.next (s.world.begin d mode).2 ((s.world.begin d mode).1 :: s.running)) := by
  have hl : (s.next (s.world.begin d mode).2 ((s.world.begin d mode).1 :: s.running)).lives.Perm
      ((s.world.begin d mode).1.life :: s.lives) := List.perm_middle.map Context.life
  by_cases he : d = e
  · subst he
    have hg : (s.world.begin d mode).2.engine d =
        ((s.world.engine d).begin (V := V) d mode).2 := by simp [World.begin]
    exact .entry (s.world.begin d mode).1.life (congrArg Engine.timeline hg)
      (congrArg Engine.begun hg) rfl rfl rfl rfl rfl (livesOf_perm_cons hl rfl).symm hc
  · have hg : (s.world.begin d mode).2.engine e = s.world.engine e := by
      simp [World.begin, Ne.symm he]
    exact .nothing (congrArg Engine.timeline hg) (congrArg Engine.begun hg)
      (livesOf_perm_of_ne hl he).symm hc

/-- Binding puts the transaction in place, or discards it. -/
theorem Attends.notice_bind (ha : s.Attends e) (t : ThreadId) {rest : List (Context V)}
    (hp : s.running.Perm (x :: rest))
    (hc : ∀ c, own c → Keeps s (s.next (s.world.bind t x).2 rest) c) :
    Notice e own tended s (s.next (s.world.bind t x).2 rest) := by
  have hl := (live_perm_cons hp).map Context.life
  revert hc
  unfold World.bind
  split
  · exact ha.notice_abort rfl hl
  · next hn =>
    refine .of_perm rfl (hl.trans ?_)
    have hput : { s.world with bound := s.world.bound.insert t x }.alive.Perm
        (x :: s.world.alive) :=
      ((Table.values_insert_of_none hn x).append_left _).trans List.perm_middle
    exact ((hput.append_right rest).symm.map Context.life)

/-- Parking puts the transaction in place. What was parked there before is discarded. -/
theorem Attends.notice_park (ha : s.Attends e) (d : EngineId) {rest : List (Context V)}
    (hp : s.running.Perm (x :: rest))
    (hc : ∀ c, own c → Keeps s (s.next (s.world.park d x).2 rest) c) :
    Notice e own tended s (s.next (s.world.park d x).2 rest) := by
  have hfirst := live_perm_cons hp
  have hl := hfirst.map Context.life
  have hins : { s.world with parked := s.world.parked.insert (d, x.id) x }.alive.Perm
      (x :: { s.world with parked := s.world.parked.erase (d, x.id) }.alive) :=
    (((s.world.parked.values_insert_perm (d, x.id) x).append_left _).trans
      List.perm_middle).append_right _
  revert hc
  unfold World.park
  split
  · next err herr =>
    -- Nobody of this engine is refused.
    have hne : x.engine ≠ e := fun he => by
      have hx := (ha.proper (hfirst.mem_iff.2 (List.mem_cons_self ..)) he).1
      simp [Context.checkActive, hx] at herr
    exact .nothing rfl rfl (livesOf_perm_of_ne hl hne)
  · split
    · exact ha.notice_abort rfl hl
    · dsimp only
      cases hb : s.world.parked.get? (d, x.id) with
      | none =>
        rw [Table.erase_of_get?_eq_none hb] at hins
        exact .of_perm rfl (hl.trans ((hins.append_right rest).symm.map Context.life))
      | some y =>
        have hold : s.world.alive.Perm
            (y :: { s.world with parked := s.world.parked.erase (d, x.id) }.alive) :=
          (((Table.values_perm_erase hb).append_left _).trans List.perm_middle).append_right _
        have hput : (x :: s.world.alive).Perm
            (y :: { s.world with parked := s.world.parked.insert (d, x.id) x }.alive) :=
          ((hold.cons x).trans (.swap ..)).trans (hins.symm.cons y)
        exact ha.notice_abort rfl (hl.trans ((hput.append_right rest).map Context.life))

variable {d : Deal}

/-- All that an engine notices of a turn is one thing, or two where it reclaims after a commit. Its
own cells are as they were, unless it served, and it finds those alive that are. -/
theorem Turn.notices (h : Turn d s s') (ha : s.Attends e) (hf : s.world.Fresh)
    (hc : d ≠ .serves e → ∀ c, own c → Keeps s s' c)
    (hlive : d = .serves e → ∀ c, tended c → s.world.isLive c = true) :
    Relation.ReflTransGen (Notice e own tended) s s' := by
  cases h with
  | meddle t => exact .single (.of_perm rfl (.refl _) (hc nofun))
  | create d type value =>
    have hclock := clock_setEngine
      (w := { s.world with store := (s.world.store.create type value).2 })
      (g := (s.world.engine d).announce (s.world.store.create type value).1) rfl rfl e
    exact .single (.nothing hclock.1 hclock.2 (.refl _) (hc nofun))
  | begin d mode => exact .single (.of_begin d mode (hc nofun))
  | hold hp =>
    refine .single (.of_perm rfl ?_ (hc nofun))
    exact ((live_perm_cons hp).trans
      ((World.alive_hold (hf _ (Nat.le_refl _)) _).symm.append_right _)).map Context.life
  | take ht =>
    have hperm := World.alive_take ht
    obtain ⟨x, hx, he⟩ := Option.map_eq_some_iff.1 ht
    cases he
    refine .single (.of_perm rfl ?_ (hc nofun))
    exact ((hperm.append_right _).trans List.perm_middle.symm).map Context.life
  | giveBack hp hk hlt =>
    refine .single (.of_perm rfl ?_ (hc nofun))
    exact ((live_perm_cons hp).trans
      ((World.alive_giveBack hk _).symm.append_right _)).map Context.life
  | access hp hacc =>
    refine .single (.of_perm rfl ?_ (hc nofun))
    have hl := (live_perm_cons hp).map Context.life
    rw [List.map_cons, ← hacc.life_eq, ← List.map_cons] at hl
    exact hl.trans (List.perm_middle.symm.map Context.life)
  | stage under change hp =>
    refine .single (.of_perm rfl ?_ (hc nofun))
    have hl := (live_perm_cons hp).map Context.life
    rw [List.map_cons, ← Context.life_stage _ under change, ← List.map_cons] at hl
    exact hl.trans (List.perm_middle.symm.map Context.life)
  | openChild d kind mode =>
    have hclock := clock_setEngine (w := s.world)
      (g := ((s.world.engine d).openChild kind mode).2) rfl rfl e
    exact .single (.nothing hclock.1 hclock.2 (.refl _) (hc nofun))
  | countRerun d =>
    have hclock := clock_setEngine (w := s.world) (d := d)
      (g := { s.world.engine d with
        metrics.reruns := (s.world.engine d).metrics.reruns + 1 }) rfl rfl e
    exact .single (.nothing hclock.1 hclock.2 (.refl _) (hc nofun))
  | pin cells => exact .single (.of_perm rfl (.refl _) (hc nofun))
  | bind t hp => exact .single (ha.notice_bind t hp (hc nofun))
  | unbind hu =>
    have hperm := World.alive_unbind hu
    cases (Prod.mk.inj hu).2
    refine .single (.of_perm rfl ?_ (hc nofun))
    exact ((hperm.append_right _).trans List.perm_middle.symm).map Context.life
  | park d hp => exact .single (ha.notice_park d hp (hc nofun))
  | unpark hu =>
    have hperm := World.alive_unpark hu
    obtain ⟨-, rfl⟩ := World.unpark_eq_ok hu
    refine .single (.of_perm rfl ?_ (hc nofun))
    exact ((hperm.append_right _).trans List.perm_middle.symm).map Context.life
  | commit hp =>
    rename_i x rest
    by_cases he : x.engine = e
    · exact ha.notices_commit he hp (hlive (congrArg Deal.serves he))
    · refine .single (.of_commit_of_ne ?_ he (hc fun h => he (Deal.serves.inj h)))
      have hl := (live_perm_cons hp).map Context.life
      rwa [← World.alive_commit s.world x] at hl
  | abort reason hp =>
    exact .single (ha.notice_abort rfl ((live_perm_cons hp).map Context.life) (hc nofun))
  | reclaim d =>
    by_cases he : d = e
    · subst he
      refine .single (.of_reclaim s.world.isLive rfl ?_ ?_ (.refl _) (hlive rfl)) <;>
        simp [World.reclaim, Engine.reclaim, VersionedMemory.reclaim]
    · have hg : (s.world.reclaim d).2.engine e = s.world.engine e := by
        simp [World.reclaim, World.engine, World.setEngine, Ne.symm he]
      exact .single (.of_perm hg (.refl _) (hc fun h => he (Deal.serves.inj h)))

/-- No turn gives out a handle twice. -/
theorem Turn.fresh (h : Turn d s s') (hf : s.world.Fresh) : s'.world.Fresh := by
  cases h with
  | hold => exact World.held_hold hf _
  | take ht =>
    obtain ⟨_, -, he⟩ := Option.map_eq_some_iff.1 ht
    cases he
    intro k hk
    simp [hf k hk]
  | giveBack _ _ hlt => exact World.held_giveBack hf hlt _
  | bind t => exact hf.of_eq (World.held_bind s.world t _)
  | unbind hu =>
    cases (Prod.mk.inj hu).2
    exact hf
  | park d => exact hf.of_eq (World.held_park s.world d _)
  | unpark hu =>
    obtain ⟨-, rfl⟩ := World.unpark_eq_ok hu
    exact hf
  | commit => exact hf.of_eq (World.held_commit s.world _)
  | _ => exact hf

end Scene

end VersionedMemory
