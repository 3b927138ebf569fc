import VersionedMemory.Script.Report

/-!
# Scripts on a timeline

A script that works on a timeline and on integer cells, without any engine: it publishes marks by
hand, anchors snapshots and retires. It may hold on to marks that it published; a mark knows the one
before it only while that is in the window or held.
-/

namespace VersionedMemory.Script

open Report (nat option)

inductive TimelineStep where
  | newCell (value : Int64)
  | dropCell (cell : Nat)
  | assign (cell : Nat) (value : Int64) (version : Version)
  | cell (cell : Nat)
  | publish (version : Version) (cells : List Nat) (keep : Bool)
  | head
  | mark (slot : Nat)
  | forget (slot : Nat)
  | anchor
  | release (anchor : Nat)
  | retire
  | reclaim
  | state
  | malformed
  deriving Repr

/-- A timeline with what a script holds of it. -/
structure TimelineDesk where
  timeline : Timeline
  store : Store Value := .empty
  cells : Array (Option CellId) := #[]
  /-- The numbers of the marks that are held. -/
  marks : Array (Option Nat) := #[]
  anchors : Array (Option Anchor) := #[]
  /-- The marks that were retired. -/
  past : List Mark := []

namespace TimelineDesk

def cell? (d : TimelineDesk) (i : Nat) : Option CellId := (d.cells[i]?).join

def isLive (d : TimelineDesk) (c : CellId) : Bool := 0 < (d.store.cell c).handles

def mark? (d : TimelineDesk) (number : Nat) : Option Mark :=
  (d.timeline.mark? number).or (d.past.find? (·.number = number))

/-- The version of the mark before `m`, while that is in the window or held. -/
def before (d : TimelineDesk) (m : Mark) : Option Version :=
  match m.number with
  | 0 => none
  | n + 1 =>
    if (d.timeline.mark? n).isSome || d.marks.contains (some n) then
      (d.mark? n).map Mark.version
    else none

def reportMark (d : TimelineDesk) (m : Mark) : List (String × Report) :=
  [("version", nat m.version), ("running", nat m.readers),
   ("predecessor", option nat (d.before m))]

def runStep (d : TimelineDesk) : TimelineStep → Report × TimelineDesk
  | .newCell value =>
    let (c, store) := d.store.create ValueType.int.code (.int value)
    (nat d.cells.size, { d with store, cells := d.cells.push (some c) })
  | .dropCell i =>
    match d.cell? i with
    | some c => (.null, { d with store := d.store.release c, cells := d.cells.set! i none })
    | none => (.malformed, d)
  | .assign i value version =>
    match d.cell? i with
    | some c =>
      match d.store.assign c (.int value) version with
      | .ok store => (.null, { d with store })
      | .error e => (e.report false, d)
    | none => (.malformed, d)
  | .cell i =>
    match d.cell? i with
    | some c =>
      let x := d.store.cell c
      (.fields [("value", x.value.report), ("retained", .list (x.chain.versions.map nat))], d)
    | none => (.malformed, d)
  | .publish version cells keep =>
    match cells.mapM d.cell? with
    | some cells =>
      let timeline := d.timeline.publish version cells
      let debug := ("debug", .text (timeline.head.inspect false))
      if keep then
        (.fields [debug, ("record", nat d.marks.size)],
          { d with timeline, marks := d.marks.push (some timeline.head.number) })
      else (.fields [debug], { d with timeline })
    | none => (.malformed, d)
  | .head => (.fields (d.reportMark d.timeline.head), d)
  | .mark i =>
    match (d.marks[i]?).join.bind d.mark? with
    | some m =>
      let retired := (d.timeline.mark? m.number).isNone
      (.fields (d.reportMark m ++ [("debug", .text (m.inspect retired))]), d)
    | none => (.malformed, d)
  | .forget i =>
    match (d.marks[i]?).join with
    | some _ => (.null, { d with marks := d.marks.set! i none })
    | none => (.malformed, d)
  | .anchor =>
    let (a, timeline) := d.timeline.anchor
    (.fields [("anchor", nat d.anchors.size), ("version", nat a.version)],
      { d with timeline, anchors := d.anchors.push (some a) })
  | .release i =>
    match (d.anchors[i]?).join with
    | some a =>
      let timeline := d.timeline.release a
      (option (fun m => nat m.readers) (timeline.mark? a.mark),
        { d with timeline, anchors := d.anchors.set! i none })
    | none => (.malformed, d)
  | .retire =>
    let (retired, timeline) := d.timeline.retire
    let written := (retired.flatMap Mark.written).map fun c =>
      if d.isLive c then nat c.number else .null
    (.fields [("written", .list written), ("floor", nat timeline.floor),
      ("retired", nat retired.length)], { d with timeline, past := retired ++ d.past })
  | .reclaim =>
    let (r, timeline, store) := VersionedMemory.reclaim d.isLive d.timeline d.store
    (r.report, { d with timeline, store, past := d.timeline.retire.1 ++ d.past })
  | .state =>
    let t := d.timeline
    (.fields [("head", nat t.head.version), ("oldest", nat t.lowWater),
      ("retained", nat t.window.length), ("anchors", nat t.anchored), ("debug", .text t.inspect)],
      d)
  | .malformed => (.malformed, d)

def answerSteps : TimelineDesk → List TimelineStep → List Report
  | _, [] => []
  | d, step :: rest =>
    let (answer, d) := d.runStep step
    answer :: answerSteps d rest

end TimelineDesk

def runTimeline (start : Version) (steps : List TimelineStep) : Report :=
  .fields [("results", .list (TimelineDesk.answerSteps { timeline := .startingAt start } steps))]

end VersionedMemory.Script
