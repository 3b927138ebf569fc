import VersionedMemory.Config
import VersionedMemory.Context
import VersionedMemory.Metrics

/-!
# Engines

An engine orders the commits over the cells of a store. It owns a timeline, counters, and the hooks
that a caller installed; the events that hooks are told of are kept in a journal.

A commit with nothing buffered only ends the transaction. Otherwise it

1. shows the observer the cells about to change, and stops if the observer vetoes;
2. stops if some recorded read was superseded;
3. stops if some target already holds the next version or a newer one;
4. publishes every write and then every delta at the next version, and marks the timeline.

## Main definitions

* `Engine.begin`, `Engine.finish` and `Engine.commit` are the life of a top-level transaction.
* `Context.superseded?` is validation.
* `publishAll` is publication; it stops at the first change that a cell refuses.
-/

namespace VersionedMemory

/-- The hooks a caller may assign. -/
structure Hooks where
  announces : Bool := false
  /-- Chooses the mode of a child from its kind and the mode it is opened in. -/
  modeOfChild : Option (ChildKind → Mode → Mode) := none
  /-- Refuses a commit with a reason. -/
  observer : Option (TxnId → List CellId → Option String) := none

instance : Inhabited Hooks := ⟨{}⟩

/-- The events that hooks are told of, in order, whether a hook is installed or not. -/
structure Journal where
  cells : List CellId := []
  /-- Children, by their kind and the mode they were opened in. -/
  children : List (ChildKind × Mode) := []
  /-- Commits, with the cells that each was about to change. -/
  commits : List (TxnId × List CellId) := []
  deriving DecidableEq, Repr, Inhabited

structure Engine where
  config : Config
  hooks : Hooks
  journal : Journal
  timeline : Timeline
  metrics : Metrics
  /-- How many transactions were begun; they are numbered from 1. -/
  begun : Nat

structure Receipt where
  txn : TxnId
  /-- The version published, or the snapshot where nothing was. -/
  version : Version
  /-- How many changes were buffered. -/
  writes : Nat
  readOnly : Bool
  deriving DecidableEq, Repr

/-- The first recorded read whose cell holds a newer version by now. -/
def Context.superseded? {V : Type} [Inhabited V] (x : Context V) (s : Store V) : Option Conflict :=
  x.reads.entries.findSome? fun (c, version) =>
    if version < s.latest c then some (.staleRead c version (s.latest c)) else none

/-- Every change that a commit of `x` carries out, writes before deltas. -/
def Context.changes {V : Type} (x : Context V) : List (Change V) :=
  x.writes.values ++ x.deltas.values

theorem Context.changes_eq_nil_iff {V : Type} {x : Context V} :
    x.changes = [] ↔ (x.writes.isEmpty && x.deltas.isEmpty) = true := by
  simp [changes, Table.values, Table.isEmpty]

/-- The identities under which `x` buffered a change, as the observer is shown them. -/
def Context.written {V : Type} (x : Context V) : List CellId := x.writes.keys ++ x.deltas.keys

/-- The first change whose target holds `version` or a newer one. -/
def aheadOf? {V : Type} [Inhabited V] (version : Version) (changes : List (Change V))
    (s : Store V) : Option CellId :=
  (changes.find? fun c => version ≤ s.latest c.target).map Change.target

/-- What publication leaves: the store, the cells changed, and the error that stopped it. -/
structure Publication (V : Type) where
  store : Store V
  changed : List CellId := []
  failed : Option Error := none

/-- Carry changes out one after the other, up to the first that its cell refuses. -/
def publishAll {V : Type} [Inhabited V] (version : Version) :
    List (Change V) → Store V → Publication V
  | [], s => { store := s }
  | c :: rest, s =>
    match c.publish version s with
    | .ok s' =>
      let p := publishAll version rest s'
      { p with changed := c.target :: p.changed }
    | .error e => { store := s, failed := some e }

namespace Engine

def create (config : Config := {}) (hooks : Hooks := {}) : Engine :=
  ⟨config, hooks, {}, .startingAt genesis, {}, 0⟩

instance : Inhabited Engine := ⟨create⟩

def build (config : Config) (hooks : Hooks := {}) : Except Error Engine :=
  config.check.map (create · hooks)

variable {V : Type}

def version (g : Engine) : Version := g.timeline.head.version

def begin (g : Engine) (self : EngineId) (mode : Mode) : Context V × Engine :=
  let (anchor, timeline) := g.timeline.anchor
  (.begin ⟨g.begun + 1⟩ self anchor mode,
    { g with
      timeline
      begun := g.begun + 1
      metrics.started := g.metrics.started + 1 })

/-- Bring a context to its end: give the anchor back and discard what is buffered. Only the abort of
a top-level transaction is counted here. -/
def finish (g : Engine) (x : Context V) (status : Status) : Context V × Engine :=
  let timeline := g.timeline.leave x.anchor
  let metrics := match x.kind, status with
    | none, .aborted _ => { g.metrics with aborted := g.metrics.aborted + 1 }
    | _, _ => g.metrics
  ({ x with anchor := none, writes := ∅, deltas := ∅, status }, { g with timeline, metrics })

def abort (g : Engine) (x : Context V) (reason : String) : Context V × Engine :=
  if x.isActive then g.finish x (.aborted reason) else (x, g)

/-- Tell the journal about a child and choose its mode. -/
def openChild (g : Engine) (kind : ChildKind) (mode : Mode) : Mode × Engine :=
  (match g.hooks.modeOfChild with
    | some choose => choose kind mode
    | none => mode,
   { g with journal.children := g.journal.children ++ [(kind, mode)] })

def announce (g : Engine) (c : CellId) : Engine :=
  { g with journal.cells := g.journal.cells ++ [c] }

def observe (g : Engine) (txn : TxnId) (written : List CellId) : Option String × Engine :=
  (g.hooks.observer.bind fun refuse => refuse txn written,
   { g with journal.commits := g.journal.commits ++ [(txn, written)] })

def lose (g : Engine) (x : Context V) (cause : Conflict) : Error × Context V × Engine :=
  let (x, g) := { g with metrics.conflicts := g.metrics.conflicts + 1 }.finish x
    (.aborted cause.message)
  (.conflict x.id cause, x, g)

structure Committed (V : Type) where
  result : Except Error Receipt
  context : Context V
  engine : Engine
  store : Store V

/-- Commit an active top-level transaction that has something buffered and was not vetoed. -/
def publish [Inhabited V] (g : Engine) (x : Context V) (s : Store V) : Committed V :=
  match x.superseded? s with
  | some cause =>
    let (e, x, g) := g.lose x cause
    ⟨.error e, x, g, s⟩
  | none =>
    let version := g.version + 1
    match aheadOf? version x.changes s with
    | some c =>
      let e := Error.internal (.aheadOfHead c (s.latest c) g.version)
      let (x, g) := g.finish x (.aborted e.message)
      ⟨.error e, x, g, s⟩
    | none =>
      let p := publishAll version x.changes s
      let g := { g with timeline := g.timeline.publish version p.changed }
      match p.failed with
      | some e =>
        let (x, g) := g.finish x (.aborted e.message)
        ⟨.error e, x, g, p.store⟩
      | none =>
        let receipt : Receipt := ⟨x.id, version, x.written.length, false⟩
        let (x, g) := g.finish x .committed
        ⟨.ok receipt, x, { g with metrics.committed := g.metrics.committed + 1 }, p.store⟩

def commit [Inhabited V] (g : Engine) (x : Context V) (s : Store V) : Committed V :=
  if x.writes.isEmpty && x.deltas.isEmpty then
    let receipt : Receipt := ⟨x.id, x.snapshot, 0, true⟩
    let (x, g) := g.finish x .committed
    ⟨.ok receipt, x,
      { g with
        metrics.committed := g.metrics.committed + 1
        metrics.readOnlyCommits := g.metrics.readOnlyCommits + 1 }, s⟩
  else
    match g.observe x.id x.written with
    | (some reason, g) =>
      let (e, x, g) := g.lose x (.vetoed reason)
      ⟨.error e, x, g, s⟩
    | (none, g) => g.publish x s

/-- Whether an inline reclamation pass follows the read-write commit just counted. -/
def reclaimDue (g : Engine) : Bool :=
  match g.config.reclaimEvery with
  | some every => g.metrics.readWriteCommits % every = 0
  | none => false

def reclaim [Inhabited V] (g : Engine) (live : CellId → Bool) (s : Store V) :
    Reclaimed × Engine × Store V :=
  let (r, timeline, s) := VersionedMemory.reclaim live g.timeline s
  (r, { g with
        timeline
        metrics.passes := g.metrics.passes + 1
        metrics.reclaimed := g.metrics.reclaimed + r.versions }, s)

/-- Every way a commit can end: with nothing to publish, refused before anything is published, or
with what publication left and the error that stopped it, if one did. -/
theorem commit_cases [Inhabited V] (g : Engine) (x : Context V) (s : Store V) :
    let done := g.commit x s
    (done.engine.config = g.config ∧ done.engine.begun = g.begun) ∧
    ((x.changes = [] ∧ done.result = .ok ⟨x.id, x.snapshot, 0, true⟩ ∧ done.store = s ∧
        done.engine.timeline = g.timeline.leave x.anchor) ∨
      (∃ e, done.result = .error e ∧
        ((∃ cause, e = .conflict x.id cause) ∨
          ∃ c held head, e = .internal (.aheadOfHead c held head)) ∧
        done.store = s ∧ done.engine.timeline = g.timeline.leave x.anchor) ∨
      (x.changes ≠ [] ∧ x.superseded? s = none ∧ aheadOf? (g.version + 1) x.changes s = none ∧
        ∃ p, p = publishAll (g.version + 1) x.changes s ∧ done.store = p.store ∧
          done.engine.timeline = (g.timeline.publish (g.version + 1) p.changed).leave x.anchor ∧
          done.result = p.failed.elim (.ok ⟨x.id, g.version + 1, x.written.length, false⟩)
            .error)) := by
  unfold commit
  split
  · next he => exact ⟨⟨rfl, rfl⟩, .inl ⟨Context.changes_eq_nil_iff.2 he, rfl, rfl, rfl⟩⟩
  · next he =>
    have hne : x.changes ≠ [] := fun h => he (Context.changes_eq_nil_iff.1 h)
    rcases ho : g.observe x.id x.written with ⟨veto, g'⟩
    have ht : g'.timeline = g.timeline := (congrArg (·.2.timeline) ho).symm
    have hc : g'.config = g.config ∧ g'.begun = g.begun :=
      ⟨(congrArg (·.2.config) ho).symm, (congrArg (·.2.begun) ho).symm⟩
    have hv : g'.version = g.version := congrArg (·.head.version) ht
    cases veto with
    | some reason =>
      exact ⟨hc, .inr (.inl ⟨_, rfl, .inl ⟨_, rfl⟩, rfl, congrArg (·.leave x.anchor) ht⟩)⟩
    | none =>
      dsimp only
      unfold publish
      cases hs : x.superseded? s with
      | some cause =>
        exact ⟨hc, .inr (.inl ⟨_, rfl, .inl ⟨_, rfl⟩, rfl, congrArg (·.leave x.anchor) ht⟩)⟩
      | none =>
        dsimp only
        rw [hv]
        cases ha : aheadOf? (g.version + 1) x.changes s with
        | some c =>
          exact ⟨hc, .inr (.inl ⟨_, rfl, .inr ⟨_, _, _, rfl⟩, rfl,
            congrArg (·.leave x.anchor) ht⟩)⟩
        | none =>
          dsimp only
          cases hp : (publishAll (g.version + 1) x.changes s).failed <;>
            refine ⟨hc, .inr (.inr ⟨hne, rfl, rfl, _, rfl, rfl, ?_, by simp [hp]⟩)⟩ <;>
            simp [finish, ht]

end Engine

end VersionedMemory
