import VersionedMemory.Script.Desk

/-!
# Running scripts

Each statement, element and step has one answer. A body stops at the first element that fails, and
its value is the answer of the last element that ran. Slots and types are checked before anything
happens: where they do not fit, the answer is `Report.malformed` and nothing has changed.

## Main definitions

* `runStatement`, `runBody` and `runStep` run the parts of a script.
* `run` runs a whole script on freshly built engines.
-/

namespace VersionedMemory.Script

open Report (nat option)

/-- Where a step or statement stands: on which engine, and in which attempt. -/
structure Scope where
  engine : EngineId := 0
  attempt : Nat := 1

/-- The plain write that is staged, for its slots. -/
def staged? (d : Desk) (w : World Value) (s : StagedWrite) : Option (CellId × Change Value) := do
  let under ← d.cell? s.under
  let c ← d.cell? s.cell
  if s.value.type = typeIn w c then
    some (under, ⟨c, s.value.type.code, .assign s.value⟩)
  else none

def mergeGroups (masked : Bool) : List (WriteSet Value) → Batch Value →
    List Report × Batch Value
  | [], b => ([], b)
  | ws :: rest, b =>
    let (r, b) := b.addWrites ws
    let (answers, b) := mergeGroups masked rest b
    ((match r with
      | .ok () => .null
      | .error e => e.report masked) :: answers, b)

/-- What a batch over a context shows after groups of writes were taken in. -/
def reportOverlay (masked : Bool) (x : Context Value) (groups : List (WriteSet Value))
    (probes : List CellId) : Report :=
  let (merges, b) := mergeGroups masked groups {}
  .fields [("merges", .list merges),
    ("probe", .list (probes.map fun c => reportLayers (b.layers x.layers) c (nat ·.length))),
    ("snapshot", nat x.snapshot), ("overlap", .bool (b.clash {}).isSome),
    ("has_writes", .bool b.merged.hasWrites)]

def failure (x : Context Value) (text : String) : FailKind → Error
  | .aborted => x.giveUp text
  | .illegal => .illegal (.other text)
  | .internal => .internal (.other text)
  | .config => .config (.other text)
  | .notActive => .notActive x.id text
  | .vetoed => .conflict x.id (.vetoed text)

def onStore (f : Store Value → Except Error (Store Value)) : Work Answer := do
  let w ← Work.world
  match f w.store with
  | .ok store =>
    Work.setWorld { w with store }
    return .nothing
  | .error e => return .ofInside (← Work.desk).masked (.error e)

/-- A write that later ones are merged into: its report, and itself. -/
def mergeAll (masked : Bool) : List (Change Value) → Change Value → List Report × Change Value
  | [], c => ([], c)
  | later :: rest, c =>
    match c.merge later with
    | .ok c =>
      let (answers, c) := mergeAll masked rest c
      (.null :: answers, c)
    | .error e =>
      let (answers, c) := mergeAll masked rest c
      (e.report masked :: answers, c)

/-- Build a change, merge later writes into it, and carry it out if a version is given. -/
def runChange (d : Desk) (w : World Value) (cell : CellId) (value : Value)
    (later : List (CellId × Value)) (version : Option Version) : Work Answer := do
  let changeOf (c : CellId) (v : Value) : Change Value := ⟨c, v.type.code, .assign v⟩
  let (absorbs, c) := mergeAll d.masked (later.map fun l => changeOf l.1 l.2) (changeOf cell value)
  let fields := [("absorbs", .list absorbs), ("value", c.report), ("cell", nat c.target.number),
    ("committed", nat (w.store.latest c.target))]
  match version with
  | none => return ⟨.fields fields, none⟩
  | some version =>
    match c.publish version w.store with
    | .ok store =>
      Work.setWorld { w with store }
      return ⟨.fields (fields ++ [("published", (store.cell c.target).reportErased)]), none⟩
    | .error e => return ⟨.fields (fields ++ [("published", e.report d.masked)]), none⟩

/-- Run a worker until a cell retains no more values than `count`, if one is watched. -/
def runWorker (d : Desk) (w : World Value) (e : EngineId) (interval : Nat) (cell : Option CellId)
    (count : Nat) : Work Answer := do
  if interval = 0 then
    return .ofOutside d.masked (.error (.config .noWorkerInterval))
  let report (size : Report) : Report :=
    .fields [("running", .bool true), ("debug", .text (inspectWorker true)), ("count", size)]
  match cell with
  | none => return ⟨report .null, none⟩
  | some c =>
    if count < (w.store.cell c).chain.size then
      let _ ← Work.on (·.reclaim e)
    Work.onDesk fun d => { d with timed := e :: d.timed }
    return ⟨report (nat ((← Work.world).store.cell c).chain.size), none⟩

/-- Create a cell on the engine that all scripts share, and write it atomically. -/
def runGlobal (e : EngineId) (value : Value) : Work Answer := do
  let before := ((← Work.world).engine e).version
  let c ← Work.on (·.createCell e value.type.code value)
  let _ ← (fun h => h.atomically e .readWrite fun _ => Body.write c value :
    Work (Except Error Unit × Nat))
  let w ← Work.world
  Work.setWorld { w with store := w.store.release c }
  return ⟨.list [(w.store.cell c).value.report, nat ((w.engine e).version - before)], none⟩

def runSimple (e : EngineId) (step : SimpleStep) : Work Answer := do
  let d ← Work.desk
  let w ← Work.world
  let ok (r : Report) : Work Answer := return ⟨r, none⟩
  let withCell (i : Slot) (f : CellId → Work Answer) : Work Answer :=
    match d.cell? i with
    | some c => f c
    | none => return .malformed
  let withAccumulator (i : Slot) (f : CellId → Operation → Work Answer) : Work Answer :=
    match d.accumulator? i with
    | some (c, op) => f c op
    | none => return .malformed
  let withToken (i : Slot) (f : TxnId → Work Answer) : Work Answer :=
    match d.tokens[i]? with
    | some txn => f txn
    | none => return .malformed
  let create (value : Value) (announced : Bool) : Work CellId :=
    Work.on fun w =>
      if announced then w.createCell e value.type.code value
      else w.createDetached value.type.code value
  match step with
  | .cell value announced => ok (← Work.cellSlot (← create value announced))
  | .cloneCell i => withCell i fun c => do
    Work.retain c
    ok (← Work.cellSlot c)
  | .dropCell i => withCell i fun c => do
    Work.setWorld { w with store := w.store.release c }
    Work.onDesk fun d => { d with cells := d.cells.set! i none }
    ok .null
  | .same i j => withCell i fun c => withCell j fun c' => ok (.bool (c = c'))
  | .load i => withCell i fun c => ok (w.store.cell c).value.report
  | .report i => withCell i fun c => ok (w.store.cell c).report
  | .readAt i snapshot => withCell i fun c => do
    return .ofInside d.masked (((w.store.cell c).readAt snapshot).map Record.report)
  | .assign i value version => withCell i fun c => do
    if value.type = typeIn w c then onStore (·.assign c value version) else return .malformed
  | .update i version op arg => withCell i fun c => do
    if arg.type = typeIn w c && op.accepts arg.type then
      onStore (·.update c version (op.apply · arg))
    else return .malformed
  | .compact i floor => withCell i fun c => do
    let store := w.store.compact c floor
    Work.setWorld { w with store }
    ok (.list [nat ((w.store.cell c).chain.discarded floor), nat (store.cell c).chain.size])
  | .erased i => withCell i fun c => ok (w.store.cell c).reportErased
  | .weak i => withCell i fun c => do
    Work.onDesk fun d => { d with weaks := d.weaks.push c }
    ok (nat d.weaks.size)
  | .upgrade i =>
    match d.weaks[i]? with
    | some c => ok (if w.isLive c then (w.store.cell c).reportErased else .null)
    | none => return .malformed
  | .change i value later version => withCell i fun c => do
    let later? : Option (List (CellId × Value)) := later.mapM fun (j, v) => do
      let c' ← d.cell? j
      if v.type = typeIn w c' then some (c', v) else none
    match later? with
    | some later =>
      if value.type = typeIn w c then runChange d w c value later version else return .malformed
    | none => return .malformed
  | .accumulator value op announced => do
    if op.accepts value.type then
      ok (← Work.accumulatorSlot (← create value announced) op)
    else return .malformed
  | .wrap i op => withCell i fun c => do
    if op.accepts (typeIn w c) then
      Work.retain c
      ok (← Work.accumulatorSlot c op)
    else return .malformed
  | .base i => withAccumulator i fun c _ => do
    Work.retain c
    ok (← Work.cellSlot c)
  | .dropAccumulator i => withAccumulator i fun c _ => do
    Work.setWorld { w with store := w.store.release c }
    Work.onDesk fun d => { d with accumulators := d.accumulators.set! i none }
    ok .null
  | .loadAccumulator i => withAccumulator i fun c _ => do
    ok (.list [nat c.number, (w.store.cell c).value.report])
  | .inspectCell i => withCell i fun c => ok (.text (w.store.cell c).inspect)
  | .inspectAccumulator i => withAccumulator i fun c _ => do
    ok (.text (w.store.cell c).inspectAccumulator)
  | .inspectEngine => ok (.text (w.inspectEngine e))
  | .begin mode => ok (← Work.slot (← Work.on (·.begin e mode)))
  | .resume i => withToken i fun txn => do
    match ← Work.on (·.unpark e txn) with
    | .ok x => ok (← Work.slot x)
    | .error err => return .ofOutside d.masked (.error err)
  | .abortParked i => withToken i fun txn => do
    return .ofOutside d.masked ((← Work.on (·.abortParked e txn)).map fun () => .null)
  | .beginBound mode =>
    return .ofInside d.masked ((← Work.on (·.beginBound d.thread e mode)).map (nat ·.number))
  | .unbind => do
    match ← Work.on (·.unbind d.thread) with
    | some x => ok (← Work.slot x)
    | none => ok .null
  | .boundId =>
    ok (.list [option (fun t => nat t.number) (w.boundId d.thread), .bool (w.isBound d.thread)])
  | .commitBound =>
    return .ofInside d.masked ((← Work.on (·.commitBound d.thread)).map Receipt.report)
  | .abortBound =>
    return .ofInside d.masked ((← Work.on (·.abortBound d.thread)).map fun () => .null)
  | .parkBound => do
    match ← Work.on (·.parkBound d.thread e) with
    | .ok txn => ok (← Work.tokenSlot txn)
    | .error err => return .ofInside d.masked (.error err)
  | .resumeBound i => withToken i fun txn => do
    return .ofInside d.masked
      ((← Work.on (·.unparkBound d.thread e txn)).map (nat ·.number))
  | .reclaim => ok (← Work.on (·.reclaim e)).report
  | .versions =>
    let t := (w.engine e).timeline
    ok (.list [nat t.head.version, nat t.lowWater, nat t.window.length])
  | .state => fun h => (⟨reportState h, none⟩, h)
  | .worker interval cell count =>
    match cell with
    | none => runWorker d w e interval none (count.getD 1)
    | some i => withCell i fun c => runWorker d w e interval (some c) (count.getD 1)
  | .global value => runGlobal d.engines.size value

/-- Try to commit a child of the transaction on its own. The child is replaced by a transaction of
engine `e` that is begun for the purpose and gives up. -/
def commitChild (masked : Bool) (e : EngineId) (x : Context Value) (h : Host Value Desk) :
    Report × Context Value × Host Value Desk :=
  let body : Act Unit := Body.nested do
    let child ← Body.context
    let (answer, err) ← Act.beside (Work.on fun w =>
      let (t, w) := w.begin e .readWrite
      let (r, w) := w.commit child
      (((Answer.ofInside masked (r.map Receipt.report)).report, t.giveUp "done"), w.discard t))
    let _ ← Act.leave [answer] (.error err)
  let ((r, x), h) := body.runOn x h
  (.fields [("commit", h.client.trace.headD .null),
    ("nested", (Answer.ofInside masked (r.map fun () => .null)).report)], x, h)

def runOnSlot (e : EngineId) (k : Slot) (step : SlotStep) : Work Answer := do
  let d ← Work.desk
  match (← Work.world).take k with
  | none => return .malformed
  | some (x, w) =>
    match step with
    | .commit =>
      let (r, w) := w.commit x
      Work.setWorld w
      return .ofInside d.masked (r.map Receipt.report)
    | .abort =>
      Work.setWorld (w.abort x World.callerAbort)
      return .nothing
    | .drop =>
      Work.setWorld (w.discard x)
      return .nothing
    | .suspend =>
      let (r, w) := w.park e x
      Work.setWorld w
      match r with
      | .ok txn => return ⟨← Work.tokenSlot txn, none⟩
      | .error err => return .ofOutside d.masked (.error err)
    | .bind =>
      let (r, w) := w.bind d.thread x
      Work.setWorld w
      return .ofInside d.masked (r.map fun () => .null)
    | .commitChild => fun h =>
      let (r, x, h) := commitChild d.masked e x { h with world := w }
      (⟨r, none⟩, { h with world := h.world.giveBack k x })

mutual

/-- Run a body: its trace, and its value or the error it fails with. -/
def runBody (scope : Scope) : List Element → Report → Act (List Report × Except Error Report)
  | [], value => return ([], .ok value)
  | element :: rest, value => do
    match ← runElement scope element with
    | none => runBody scope rest value
    | some ⟨r, some e⟩ => return ([r], .error e)
    | some ⟨r, none⟩ =>
      let (trace, outcome) ← runBody scope rest r
      return (r :: trace, outcome)

/-- Run an element of a body, unless it is for other attempts. -/
def runElement (scope : Scope) : Element → Act (Option Answer)
  | .statement attempts s => do
    if attempts.contains scope.attempt then return some (← runStatement scope s) else return none
  | .step attempts s => do
    if attempts.contains scope.attempt then return some (← Act.beside (runStep scope s))
    else return none
  | .malformed attempts =>
    return if attempts.contains scope.attempt then some .malformed else none

def runStatement (scope : Scope) : Statement → Act Answer
  | .read i => do
    match (← Act.desk).cell? i with
    | some c => Act.answer (Value.report <$> Body.read c)
    | none => return .malformed
  | .write i value => do
    match (← Act.desk).cell? i with
    | some c =>
      if value.type = typeIn (← Act.world) c then
        Act.answer do
          Body.write c value
          return .null
      else return .malformed
    | none => return .malformed
  | .modify i op arg => do
    match (← Act.desk).cell? i with
    | some c =>
      if arg.type = typeIn (← Act.world) c && op.accepts arg.type then
        Act.answer (Value.report <$> Body.modify c (op.apply · arg))
      else return .malformed
    | none => return .malformed
  | .copy i j op => do
    let d ← Act.desk
    let w ← Act.world
    match d.cell? i, d.cell? j with
    | some source, some target =>
      if typeIn w source = typeIn w target && op.accepts (typeIn w target) then
        Act.answer do
          let a ← Body.read target
          let b ← Body.read source
          Body.write target (op.apply a b)
          return (op.apply a b).report
      else return .malformed
    | _, _ => return .malformed
  | .get i => do
    match (← Act.desk).accumulator? i with
    | some (c, op) => Act.answer (Value.report <$> Body.get ⟨c, op.apply⟩)
    | none => return .malformed
  | .put i delta => do
    match (← Act.desk).accumulator? i with
    | some (c, op) =>
      if delta.type = typeIn (← Act.world) c then
        Act.answer do
          Body.put ⟨c, op.apply⟩ delta
          return .null
      else return .malformed
    | none => return .malformed
  | .newCell value => Act.answer do
    let c ← Body.newCell value.type.code value
    Act.beside (Work.cellSlot c)
  | .stage write => do
    match staged? (← Act.desk) (← Act.world) write with
    | some (under, c) => Act.answer do
      Body.stage under c.target write.value
      return .null
    | none => return .malformed
  | .visit i => do
    match (← Act.desk).cell? i with
    | some c =>
      return ⟨reportLayers (← Body.context).layers c fun ds => .list (ds.map Change.report), none⟩
    | none => return .malformed
  | .overlay groups probes => do
    let d ← Act.desk
    let w ← Act.world
    match groups.mapM (·.mapM (staged? d w)), probes.mapM d.cell? with
    | some groups, some probes =>
      let sets := groups.map (·.foldl (fun ws e => ws.insert e.1 e.2) (∅ : WriteSet Value))
      return ⟨reportOverlay d.masked (← Body.context) sets probes, none⟩
    | _, _ => return .malformed
  | .info => return ⟨(← Body.context).report, none⟩
  | .inspect => return ⟨.text (← Body.context).inspect, none⟩
  | .fail kind text => do
    return .ofInside (← Act.desk).masked (.error (failure (← Body.context) text kind))
  | .nested body => do
    Act.onDesk fun d => { d with trace := [] }
    let r ← Body.attempt (Body.nested do
      let (trace, r) ← runBody scope body .null
      Act.leave trace r)
    let d ← Act.desk
    let trace := ("trace", .list d.trace)
    match r with
    | .ok _ => return ⟨.fields [trace], none⟩
    | .error e => return ⟨.fields [trace, ("failed", e.report d.masked)], some e⟩
  | .attempt body => do
    let (trace, r) ← runBody scope body .null
    match r with
    | .ok _ => return ⟨.fields [("trace", .list trace)], none⟩
    | .error e =>
      return ⟨.fields [("trace", .list trace), ("failed", e.report (← Act.desk).masked)], none⟩
  | .branch i test bound yes no => do
    let w ← Act.world
    match (← Act.desk).cell? i with
    | some c =>
      if typeIn w c = .int then
        match ← Body.attempt (Body.read c) with
        | .error e => return .ofInside (← Act.desk).masked (.error e)
        | .ok value =>
          match test, value with
          | some test, .int n =>
            let hit := test.holds n bound
            let (trace, r) ← if hit then runBody scope yes .null else runBody scope no .null
            let report := .fields [("hit", .bool hit), ("trace", .list trace)]
            match r with
            | .ok _ => return ⟨report, none⟩
            | .error e => return ⟨report, some e⟩
          | _, _ => return .malformed
      else return .malformed
    | none => return .malformed
  | .parallel tasks => do
    let before := (← Act.desk).runs
    Act.onDesk fun d => { d with runs := Array.replicate tasks.length [] }
    let r ← Body.attempt (Body.parallel (tasksOf scope tasks 0))
    let d ← Act.desk
    Act.onDesk fun d => { d with runs := before }
    let modes := tasks.map fun t => .text (t.mode.inspect ++ " " ++ t.mode.inspectTask)
    let fields := [("modes", .list modes), ("runs", .list (d.runs.toList.map .list))]
    match r with
    | .ok values => return ⟨.fields (fields ++ [("results", .list values)]), none⟩
    | .error e => return ⟨.fields (fields ++ [("failed", e.report d.masked)]), some e⟩

/-- The tasks of a batch, numbered from `i`. First runs are on a thread of the pool. -/
def tasksOf (scope : Scope) : List TaskScript → Nat → List (Task Value Desk Report)
  | [], _ => []
  | .mk mode body :: rest, i =>
    { mode
      body := fun run => do
        let thread := (← Act.desk).thread
        if run = 1 then
          let pool := (← Act.desk).poolThread (← Act.world) (← Body.context).engine
          Act.onDesk fun d => { d with thread := pool }
        let (trace, r) ← runBody { scope with attempt := run } body .null
        Act.onDesk fun d =>
          { d with thread, runs := d.runs.modify i (· ++ [.list trace]) }
        Act.leave trace r } :: tasksOf scope rest (i + 1)

def runStep (scope : Scope) : Step → Work Answer
  | .malformed => return .malformed
  | .simple engine step => do
    let e := engine.getD scope.engine
    if e < (← Work.desk).engines.size then runSimple e step else return .malformed
  | .onSlot engine k step => do
    let e := engine.getD scope.engine
    if e < (← Work.desk).engines.size then runOnSlot e k step else return .malformed
  | .statement k s => fun h =>
    match h.onHeld k (runStatement {} s) with
    | some (.ok a, h) => (⟨a.report, none⟩, h)
    | some (.error _, h) => (.malformed, h)
    | none => (.malformed, h)
  | .atomically engine mode inside body => do
    let d ← Work.desk
    let e := engine.getD scope.engine
    if e < d.engines.size then
      Work.onDesk fun d => { d with traces := [] }
      let (r, n) ← (fun h => h.atomically e mode fun k => do
        let (trace, r) ← runBody ⟨e, k⟩ body .null
        if k ≤ 6 then Act.onDesk fun d => { d with traces := d.traces ++ [.list trace] }
        Act.leave trace r : Work (Except Error Report × Nat))
      let traces := (← Work.desk).traces
      Work.onDesk fun d' => { d' with traces := d.traces }
      let fields := [("attempts", nat n), ("traces", .list traces)]
      match r with
      | .ok value => return ⟨.fields (fields ++ [("ok", value)]), none⟩
      | .error err =>
        let failed := if inside then err.report d.masked else err.reportOutside d.masked
        return ⟨.fields (fields ++ [("failed", failed)]), none⟩
    else return .malformed
  | .withBound engine body => do
    let d ← Work.desk
    let e := engine.getD scope.engine
    if e < d.engines.size then
      Work.onDesk fun d => { d with trace := [] }
      let r ← (fun h => h.withBound d.thread (do
        let (trace, r) ← runBody ⟨e, 1⟩ body .null
        Act.leave trace r) : Work (Except Error Report))
      let trace := ("trace", .list (← Work.desk).trace)
      match r with
      | .ok value => return ⟨.fields [trace, ("ok", value)], none⟩
      | .error err => return ⟨.fields [trace, ("failed", err.report d.masked)], none⟩
    else return .malformed
  | .thread engine steps => do
    let d ← Work.desk
    let e := engine.getD scope.engine
    if e < d.engines.size then
      Work.onDesk fun d => { d with thread := d.threads, threads := d.threads + 1 }
      let answers ← runSteps ⟨e, 1⟩ steps
      Work.on fun w => ((), w.endThread d.threads)
      Work.onDesk fun d' => { d' with thread := d.thread }
      return ⟨.list answers, none⟩
    else return .malformed

def runSteps (scope : Scope) : List Step → Work (List Report)
  | [] => return []
  | step :: rest => do
    let a ← runStep scope step
    return a.report :: (← runSteps scope rest)

end

/-- Run a script on fresh engines and report on what it leaves behind. A transaction that is still
bound to the script's own thread is discarded; those in slots stay open. -/
def run (engines : List (Config × Hooks × Watch)) (masked : Bool) (steps : List Step) : Report :=
  match engines.mapM fun (config, hooks, _) => Engine.build config hooks with
  | .error e =>
    .fields [("error", .text e.name), ("message", .text (Failure.engine e).message)]
  | .ok built =>
    let watches := (engines.map fun (_, _, watch) => watch).toArray
    let (answers, h) := (runSteps {} steps).run ⟨.create built, { masked, engines := watches }⟩
    let h := { h with world := h.world.endThread h.client.thread }
    .fields [("results", .list answers), ("final", reportState h)]

end VersionedMemory.Script
