import VersionedMemory.Script.Report

/-!
# Scripts on chains

A script that works on chains of values alone, without any engine. It starts with one chain of one
value; a chain can be forked, and each step names the chain it works on.
-/

namespace VersionedMemory.Script

open Report (nat option)

inductive ChainStep where
  | push (value : Value) (version : Version)
  | update (version : Version) (op : Operation) (arg : Value)
  | asOf (snapshot : Version)
  | isNewerThan (version : Version)
  | compact (floor : Version)
  | head
  | tail
  | size
  | records
  | fork
  | malformed
  deriving Repr

/-- A chain takes a new form, unless the operation fails. -/
def replaceChain (chains : Array (Chain Value)) (i : Nat) :
    Except Error (Chain Value) → Report × Array (Chain Value)
  | .ok c => (.null, chains.set! i c)
  | .error e => (e.report false, chains)

/-- Run a step on chain `i`, whose values are of type `t`. -/
def runChainStep (t : ValueType) (chains : Array (Chain Value)) (i : Nat) (step : ChainStep) :
    Report × Array (Chain Value) :=
  match chains[i]? with
  | none => (.malformed, chains)
  | some c =>
    match step with
    | .push value version =>
      if value.type = t then replaceChain chains i (c.push value version) else (.malformed, chains)
    | .update version op arg =>
      if arg.type = t && op.accepts t then
        replaceChain chains i (c.update version (op.apply · arg))
      else (.malformed, chains)
    | .asOf snapshot => (option Record.report (c.asOf snapshot), chains)
    | .isNewerThan version => (.bool (c.isNewerThan version), chains)
    | .compact floor => (nat (c.discarded floor), chains.set! i (c.compact floor))
    | .head => (c.head.report, chains)
    | .tail => (c.tail.report, chains)
    | .size => (.list [nat c.size, .bool c.records.isEmpty], chains)
    | .records => (.list (c.records.map Record.report), chains)
    | .fork => (nat chains.size, chains.push c)
    | .malformed => (.malformed, chains)

def answerChainSteps (t : ValueType) :
    Array (Chain Value) → List (Nat × ChainStep) → List Report
  | _, [] => []
  | chains, (i, step) :: rest =>
    let (answer, chains) := runChainStep t chains i step
    answer :: answerChainSteps t chains rest

def runChains (value : Value) (version : Version) (steps : List (Nat × ChainStep)) : Report :=
  .fields [("results", .list (answerChainSteps value.type #[.single value version] steps))]

end VersionedMemory.Script
