import VersionedMemory.Change
import VersionedMemory.Mode
import VersionedMemory.Timeline

/-!
# Contexts

A context is what a body reads and writes through: a top-level transaction, or a child of one. It
reads at a fixed snapshot, through its own buffered changes first, then through those of the
contexts that enclose it. What is below a context does not change while the context runs, so a
context carries the enclosing buffers with it, as layers.

## Main definitions

* `Context.read`, `Context.write` and `Context.stage` are the accesses of a body.
* `Context.get` reads an accumulator: the base value with every pending delta combined in, that of
  the outermost context first.
* `Context.child` opens a child, `Context.contribution?` closes it, and `Context.adopt` takes what
  it hands over into the context below.
-/

namespace VersionedMemory

/-- The buffered changes of one context, as a context above them sees them. -/
structure Layer (V : Type) where
  writes : WriteSet V
  shared : Option (WriteSet V) := none
  deltas : WriteSet V

namespace Layer

variable {V : Type}

def write? (l : Layer V) (c : CellId) : Option (Change V) :=
  (l.writes.get? c).or (l.shared.bind (·.get? c))

end Layer

/-- The innermost buffered write for a cell. -/
def writeThrough {V : Type} (layers : List (Layer V)) (c : CellId) : Option (Change V) :=
  layers.findSome? (·.write? c)

/-- The buffered deltas for a cell, innermost first. -/
def deltasThrough {V : Type} (layers : List (Layer V)) (c : CellId) : List (Change V) :=
  layers.filterMap (·.deltas.get? c)

/-- The cells that a context read from committed state, with the version read. -/
abbrev ReadSet := Table CellId Version

/-- A running transaction, or a child of one. -/
structure Context (V : Type) where
  id : TxnId
  engine : EngineId
  /-- The anchor of the snapshot; children rely on that of their top-level ancestor. -/
  anchor : Option Anchor
  snapshot : Version
  /-- What kind of child this is; `none` for a top-level transaction. -/
  kind : Option ChildKind
  mode : Mode
  status : Status
  reads : ReadSet
  /-- The cells a child asked for, in whatever mode it runs. -/
  asked : List CellId
  writes : WriteSet V
  deltas : WriteSet V
  /-- The buffer shared with the other tasks of the batch; it takes the writes where it is there. -/
  shared : Option (WriteSet V)
  /-- The buffers below, innermost first. -/
  enclosing : List (Layer V)

/-- A cell whose changes combine: a put by one transaction goes together with the puts of others, in
the order of their commits. -/
structure Accumulator (V : Type) where
  base : CellId
  /-- Combines a value with a delta, and a delta with a later one. -/
  op : V → V → V

/-- What a finished child hands to the context below it. -/
structure Contribution (V : Type) where
  reads : ReadSet := ∅
  asked : List CellId := []
  writes : WriteSet V := ∅
  deltas : WriteSet V := ∅

def Contribution.hasWrites {V : Type} (e : Contribution V) : Bool :=
  !e.writes.isEmpty || !e.deltas.isEmpty

def Contribution.holds {V : Type} (e : Contribution V) : List CellId :=
  e.reads.keys ++ e.writes.targets ++ e.deltas.targets

/-- Add the reads of `new` that are not recorded yet. -/
def ReadSet.merge (rs new : ReadSet) : ReadSet :=
  new.entries.foldl (fun acc e => acc.insertNew e.1 e.2) rs

namespace Context

variable {V : Type}

def begin (id : TxnId) (engine : EngineId) (anchor : Anchor) (mode : Mode) : Context V where
  id := id
  engine := engine
  anchor := some anchor
  snapshot := anchor.version
  kind := none
  mode := mode
  status := .active
  reads := ∅
  asked := []
  writes := ∅
  deltas := ∅
  shared := none
  enclosing := []

def isChild (x : Context V) : Bool := x.kind.isSome

def isActive (x : Context V) : Bool := x.status = .active

def readCount (x : Context V) : Nat := x.reads.size

def writeCount (x : Context V) : Nat := x.writes.size + x.deltas.size

def layer (x : Context V) : Layer V := ⟨x.writes, x.shared, x.deltas⟩

def layers (x : Context V) : List (Layer V) := x.layer :: x.enclosing

def writeFor (x : Context V) (c : CellId) : Option (Change V) := writeThrough x.layers c

def deltasFor (x : Context V) (c : CellId) : List (Change V) := deltasThrough x.layers c

/-- The cells that the context keeps alive. -/
def holds (x : Context V) : List CellId :=
  x.reads.keys ++ x.writes.targets ++ x.deltas.targets ++ ((x.shared.map WriteSet.targets).getD [])

def checkActive (x : Context V) : Except Error Unit :=
  if x.isActive then .ok () else .error (.notActive x.id (toString x.status))

/-- The context in the mode that a write takes it to, unless its mode forbids writes. -/
def forWriting (x : Context V) : Except Error (Context V) :=
  match x.mode.onWrite with
  | some mode => .ok { x with mode }
  | none => .error (.illegal (.writeInReadOnly x.id))

def giveUp (x : Context V) (reason : String) : Error := .aborted x.id reason

/-- Note that a child asked for a cell. -/
def touch (x : Context V) (c : CellId) : Context V :=
  if x.isChild then { x with asked := x.asked.insert c } else x

/-- Record a read from committed state. The first version read stays. -/
def observe (x : Context V) (c : CellId) (version : Version) : Context V :=
  if x.mode.recordsReads then { x with reads := x.reads.insertNew c version } else x

/-- The pending value for a cell of `type`, `none` where no write is pending. -/
def valueFor (x : Context V) (c : CellId) (type : ContentType) : Except Error (Option V) :=
  match x.writeFor c with
  | none => .ok none
  | some change =>
    match change.assigned? type with
    | some value => .ok (some value)
    | none => .error (.internal (.pendingWriteType c))

/-- Read a cell: the pending value, else the newest one that the snapshot sees. -/
def read (x : Context V) (cell : Cell V) : Except Error V × Context V :=
  match x.checkActive with
  | .error e => (.error e, x)
  | .ok () =>
    let x := x.touch cell.id
    match x.valueFor cell.id cell.type with
    | .error e => (.error e, x)
    | .ok (some value) => (.ok value, x)
    | .ok none =>
      match cell.readAt x.snapshot with
      | .error e => (.error e, x)
      | .ok r => (.ok r.value, x.observe cell.id r.version)

@[simp] theorem writeFor_touch (x : Context V) (c d : CellId) :
    (x.touch c).writeFor d = x.writeFor d := by
  unfold touch
  split <;> rfl

@[simp] theorem snapshot_touch (x : Context V) (c : CellId) :
    (x.touch c).snapshot = x.snapshot := by
  unfold touch
  split <;> rfl

@[simp] theorem mode_touch (x : Context V) (c : CellId) : (x.touch c).mode = x.mode := by
  unfold touch
  split <;> rfl

theorem read_of_writeFor_eq_none {x : Context V} {r : Record V} (cell : Cell V)
    (ha : x.status = .active) (hw : x.writeFor cell.id = none)
    (hr : cell.readAt x.snapshot = .ok r) :
    x.read cell = (.ok r.value, (x.touch cell.id).observe cell.id r.version) := by
  have hc : x.checkActive = .ok () := by simp [checkActive, isActive, ha]
  simp [read, hc, valueFor, hw, hr]

/-- Buffer a write, in the shared buffer where there is one. -/
def bufferWrite (x : Context V) (c : CellId) (change : Change V) : Except Error (Context V) :=
  match x.shared with
  | some buffer => (buffer.stage c change).map fun b => { x with shared := some b }
  | none => (x.writes.stage c change).map fun ws => { x with writes := ws }

def bufferDelta (x : Context V) (c : CellId) (change : Change V) : Except Error (Context V) :=
  (x.deltas.stage c change).map fun ds => { x with deltas := ds }

def write (x : Context V) (cell : Cell V) (value : V) : Except Error Unit × Context V :=
  match x.checkActive with
  | .error e => (.error e, x)
  | .ok () =>
    match x.forWriting with
    | .error e => (.error e, x)
    | .ok x =>
      match x.bufferWrite cell.id ⟨cell.id, cell.type, .assign value⟩ with
      | .error e => (.error e, x)
      | .ok x => (.ok (), x)

/-- Stage a change among the deltas, under an identity of the caller's choice. -/
def stage (x : Context V) (c : CellId) (change : Change V) : Except Error Unit × Context V :=
  match x.checkActive with
  | .error e => (.error e, x)
  | .ok () =>
    match x.forWriting with
    | .error e => (.error e, x)
    | .ok x =>
      match x.bufferDelta c change with
      | .error e => (.error e, x)
      | .ok x => (.ok (), x)

def put (x : Context V) (cell : Cell V) (op : V → V → V) (delta : V) :
    Except Error Unit × Context V :=
  x.stage cell.id ⟨cell.id, cell.type, .combine op delta⟩

/-- Combine pending deltas into a base value, the outermost delta first. -/
def combined (op : V → V → V) (base : V) (deltas : List V) : V :=
  deltas.foldr (fun delta acc => op acc delta) base

def get (x : Context V) (cell : Cell V) (op : V → V → V) : Except Error V × Context V :=
  match x.read cell with
  | (.error e, x) => (.error e, x)
  | (.ok base, x) =>
    match (x.deltasFor cell.id).mapM (·.delta? cell.type) with
    | some deltas => (.ok (combined op base deltas), x)
    | none => (.error (.internal (.pendingDeltaType cell.id)), x)

@[simp] theorem snd_get (x : Context V) (cell : Cell V) (op : V → V → V) :
    (x.get cell op).2 = (x.read cell).2 := by
  unfold get
  rcases x.read cell with ⟨_ | base, y⟩
  · rfl
  · dsimp only
    split <;> rfl

def child (x : Context V) (kind : ChildKind) (mode : Mode) (below : List (Layer V))
    (shared : Option (WriteSet V)) : Context V where
  id := x.id
  engine := x.engine
  anchor := none
  snapshot := x.snapshot
  kind := some kind
  mode := mode
  status := .active
  reads := ∅
  asked := []
  writes := ∅
  deltas := ∅
  shared := shared
  enclosing := below

/-- What a child did, when it is closed. Its writes to the shared buffer are not part of it. -/
def contribution? (x : Context V) : Except Error (Contribution V) :=
  match x.checkActive with
  | .error e => .error e
  | .ok () => .ok ⟨x.reads, x.asked, x.writes, x.deltas⟩

/-- Buffer the writes of a finished child, up to the first that cannot be merged. -/
def bufferWrites (x : Context V) (writes : WriteSet V) : Except Error Unit × Context V :=
  match x.shared with
  | some buffer =>
    let (r, b) := buffer.stageAll writes.entries
    (r, { x with shared := some b })
  | none =>
    let (r, ws) := x.writes.stageAll writes.entries
    (r, { x with writes := ws })

def bufferDeltas (x : Context V) (deltas : WriteSet V) : Except Error Unit × Context V :=
  let (r, ds) := x.deltas.stageAll deltas.entries
  (r, { x with deltas := ds })

/-- Take over the reads of a finished child, as far as the mode records any. -/
def adoptReads (x : Context V) (e : Contribution V) : Context V :=
  let x := if x.mode.recordsReads then { x with reads := ReadSet.merge x.reads e.reads } else x
  if x.isChild then { x with asked := e.asked.foldl (fun t c => t.insert c) x.asked } else x

def adopt (x : Context V) (e : Contribution V) : Except Error Unit × Context V :=
  match (if e.hasWrites then x.forWriting else .ok x) with
  | .error err => (.error err, x)
  | .ok x =>
    match (x.adoptReads e).bufferWrites e.writes with
    | (.error err, x) => (.error err, x)
    | (.ok (), x) => x.bufferDeltas e.deltas

end Context

end VersionedMemory
