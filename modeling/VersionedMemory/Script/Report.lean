import VersionedMemory.Script.Inspect

/-!
# Reports

What a script is answered with: a document of truth values, integers, texts, lists and named fields.
Here are the reports on the things that the library hands out: values, errors, receipts, counters,
cells and engines.

An error is reported in one of two voices: `Error.report` for callers that stand inside a
transaction, `Error.reportOutside` for those outside. Where a script asks for masked reports, the
wording is left out, and with it all that depends on the order in which a read-set is validated.
-/

namespace VersionedMemory

/-- A document. -/
inductive Report where
  | null
  | bool (value : Bool)
  | int (value : Int)
  | text (value : String)
  | list (items : List Report)
  | fields (entries : List (String × Report))
  deriving Inhabited

namespace Report

def nat (n : Nat) : Report := .int n

def option {α : Type} (f : α → Report) : Option α → Report
  | some a => f a
  | none => .null

def entries : Report → List (String × Report)
  | fields es => es
  | _ => []

/-- The answer to a request that makes no sense. -/
def malformed : Report := .fields [("error", .text "BadInput")]

end Report

open Report (nat option)

def Value.report : Value → Report
  | int n => .int n.toInt
  | text s => .text s
  | list ns => .list (ns.map fun n => .int n.toInt)

def ValueType.name : ValueType → String
  | int => "int"
  | text => "str"
  | list => "list"

def Record.report (r : Record Value) : Report := .list [nat r.version, r.value.report]

def Error.name : Error → String
  | conflict .. => "Conflict"
  | illegal _ => "IllegalOperation"
  | notActive .. => "NotActive"
  | aborted .. => "Aborted"
  | config _ => "Config"
  | internal _ => "Internal"

/-- The fields that a conflict has besides its wording. -/
def Error.conflictFields (masked : Bool) : Error → List (String × Report)
  | conflict txn (.staleRead cell read committed) =>
    [("txn", nat txn.number), ("kind", .text "StaleRead")] ++
      if masked then []
      else [("cell", nat cell.number), ("read_version", nat read),
        ("committed_version", nat committed)]
  | conflict txn (.vetoed _) => [("txn", nat txn.number), ("kind", .text "Vetoed")]
  | _ => []

def Error.report (masked : Bool) (e : Error) : Report :=
  .fields ([("error", .text e.name)] ++ (if masked then [] else [("message", .text e.message)]) ++
    e.conflictFields masked)

def Error.reportOutside (masked : Bool) (e : Error) : Report :=
  .fields ([("error", .text e.name), ("facade", .bool true)] ++
    (if masked then [] else [("message", .text (Failure.engine e).message)]) ++
    e.conflictFields masked)

def Failure.classReport (f : Failure) (name : String) : Report :=
  .fields [("variant", .text name), ("display", .text f.message),
    ("retryable", .bool f.isConflict), ("conflict", .bool f.isConflict),
    ("serious", .bool f.isInternal)]

def Error.classReport (e : Error) : Report :=
  .fields [("variant", .text e.name), ("display", .text e.message),
    ("kind", option (fun c => .text c.message) e.conflict?), ("retryable", .bool e.isConflict),
    ("conflict", .bool e.isConflict), ("serious", .bool e.isInternal),
    ("facade", (Failure.engine e).classReport e.name)]

def Mode.report (m : Mode) : Report :=
  .fields [("mode", .text (toString m)), ("debug", .text m.inspect),
    ("upgrade", option (fun m => .text (toString m)) m.onWrite),
    ("tracks_reads", .bool m.recordsReads), ("is_read_only", .bool m.isReadOnly)]

def Status.report (s : Status) : Report :=
  .fields [("display", .text (toString s)), ("terminal", .bool s.isFinal)]

def Config.report (c : Config) : Report :=
  .fields [("parallelism", option nat c.parallelism), ("reclaim_every", option nat c.reclaimEvery),
    ("max_retries", nat c.maxAttempts), ("backoff_us", nat c.backoff)]

def Config.reportChecked (c : Config) : Report :=
  match c.check with
  | .ok c => c.report
  | .error e =>
    .fields [("error", .text e.name), ("message", .text (Failure.engine e).message)]

def hexDigit (n : Nat) : Char := Char.ofNat (if n < 10 then 48 + n else 87 + n)

/-- The 16 digits of a 64-bit word to the base 16. -/
def hexWord (w : UInt64) : String :=
  String.ofList ((List.range 16).reverse.map fun i => hexDigit ((w.toNat >>> (4 * i)) % 16))

def Metrics.derived (m : Metrics) : List (String × Report) :=
  [("active", nat m.active), ("commit_rate_bits", .text (hexWord m.commitShare.toBits))]

/-- The report on counters; where a worker ran in its own time, its passes are not known. -/
def Metrics.report (m : Metrics) (timed : Bool) : Report :=
  .fields ([("started", nat m.started), ("committed", nat m.committed),
    ("read_only_commits", nat m.readOnlyCommits), ("aborted", nat m.aborted),
    ("conflicts", nat m.conflicts), ("parallel_retries", nat m.reruns),
    ("reclaim_passes", if timed then .null else nat m.passes),
    ("versions_reclaimed", nat m.reclaimed)] ++ m.derived)

def Receipt.report (r : Receipt) : Report :=
  .fields [("txn", nat r.txn.number), ("version", nat r.version), ("writes", nat r.writes),
    ("read_only", .bool r.readOnly)]

def Reclaimed.report (r : Reclaimed) : Report :=
  .fields [("floor", nat r.floor), ("records", nat r.marks), ("cells", nat r.cells),
    ("versions", nat r.versions), ("noop", .bool r.freedNothing)]

def Cell.report (c : Cell Value) : Report :=
  .fields [("id", nat c.id.number), ("type", .text (ValueType.ofCode c.type).name),
    ("version", nat c.chain.head.version), ("value", c.value.report),
    ("retained", .list (c.chain.versions.map nat))]

/-- The report on a cell that does not show its value. -/
def Cell.reportErased (c : Cell Value) : Report :=
  .fields [("id", nat c.id.number), ("latest", nat c.latest), ("count", nat c.chain.size)]

def Change.report (c : Change Value) : Report :=
  match c.effect with
  | .assign value => value.report
  | .combine .. => .text "delta"

/-- What layers show for a cell. -/
def reportLayers (layers : List (Layer Value)) (c : CellId)
    (deltas : List (Change Value) → Report) : Report :=
  let write := writeThrough layers c
  .fields [("found", .bool write.isSome), ("write", option Change.report write),
    ("deltas", deltas (deltasThrough layers c))]

def Context.report (x : Context Value) : Report :=
  .fields [("id", nat x.id.number), ("mode", .text (toString x.mode)),
    ("status", .text (toString x.status)), ("snapshot", nat x.snapshot),
    ("view_snapshot", nat x.snapshot), ("nested_kind", option (fun k => .text k.inspect) x.kind),
    ("nested", .bool x.isChild), ("active", .bool x.isActive),
    ("active_check", .bool x.checkActive.toBool), ("reads", nat x.readCount),
    ("writes", nat x.writeCount)]

/-- Which hooks of an engine a script wants to hear of. -/
structure Watch where
  /-- Whether the engine was described at all. -/
  described : Bool := false
  cells : Bool := false
  children : Bool := false
  commits : Bool := false
  deriving Inhabited

/-- What the journal tells of the hooks that are watched. -/
def Journal.report (log : Journal) (watch : Watch) : List (String × Report) :=
  let kinds := log.children.map fun (kind, mode) => kind.inspect ++ ":" ++ toString mode
  [("registered", .list (if watch.cells then log.cells.map (nat ·.number) else [])),
   ("seen", .list (if watch.commits then log.commits.map fun (txn, cells) =>
      .list [nat txn.number, .list ((cells.map CellId.number).mergeSort.map nat)] else [])),
   ("children", .fields (if watch.children then
      kinds.eraseDups.map fun k => (k, nat (kinds.count k)) else []))]

def World.reportEngine (w : World Value) (e : EngineId) (watch : Watch) (timed : Bool) : Report :=
  let g := w.engine e
  .fields ([("version", nat g.version), ("oldest", nat g.timeline.lowWater),
    ("records", nat g.timeline.window.length), ("suspended", nat (w.parkedCount e)),
    ("metrics", g.metrics.report timed)] ++
    if watch.described then g.journal.report watch else [])

end VersionedMemory
