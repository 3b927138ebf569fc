import VersionedMemory.Script.Printable
import VersionedMemory.Script.Value
import VersionedMemory.World

/-!
# Inspection texts

What a person who debugs is shown of a cell, a transaction, a mark of the timeline or an engine: the
name of the structure and its fields in braces. Texts stand in quotes, with what cannot be printed
escaped.
-/

namespace VersionedMemory

/-- A structure with named fields; `more` tells that some are left out. -/
def inspectStruct (name : String) (fields : List (String × String)) (more : Bool := false) :
    String :=
  let shown := fields.map (fun f => f.1 ++ ": " ++ f.2) ++ (if more then [".."] else [])
  name ++ " \x7b " ++ ", ".intercalate shown ++ " \x7d"

/-- A name with one unnamed field. -/
def inspectTuple (name field : String) : String := name ++ "(" ++ field ++ ")"

def inspectBool (b : Bool) : String := if b then "true" else "false"

/-- One character of a quoted text. -/
def inspectChar (c : Char) : String :=
  if c = '\t' then "\\t"
  else if c = '\r' then "\\r"
  else if c = '\n' then "\\n"
  else if c = '\x00' then "\\0"
  else if c = '\\' then "\\\\"
  else if c = '"' then "\\\""
  else if Script.isPrintable c then c.toString
  else "\\u\x7b" ++ String.ofList (Nat.toDigits 16 c.toNat) ++ "\x7d"

def inspectText (s : String) : String := "\"" ++ String.join (s.toList.map inspectChar) ++ "\""

namespace Value

def inspect : Value → String
  | int n => toString n.toInt
  | text s => inspectText s
  | list ns => "[" ++ ", ".intercalate (ns.map fun n => toString n.toInt) ++ "]"

end Value

def Mode.inspect : Mode → String
  | readOnly => "ReadOnly"
  | speculative => "Speculative"
  | readWrite => "ReadWrite"

def Status.inspect : Status → String
  | active => "Active"
  | committed => "Committed"
  | aborted reason => inspectStruct "Aborted" [("reason", inspectText reason)]

def TaskMode.inspect : TaskMode → String
  | checked => "Validated"
  | disjoint => "Disjoint"
  | shared => "Unsafe"

def ChildKind.inspect : ChildKind → String
  | nested => "Nested"
  | task mode => mode.inspect

def TaskMode.inspectTask (m : TaskMode) : String :=
  inspectStruct "ParallelTask" [("mode", m.inspect)] true

def Cell.inspect (c : Cell Value) : String :=
  inspectStruct "VersionedCell"
    [("id", inspectTuple "CellId" (toString c.id.number)),
     ("version", toString c.chain.head.version), ("value", c.value.inspect)]

def Cell.inspectAccumulator (c : Cell Value) : String :=
  inspectStruct "AccumulatorCell" [("base", c.inspect)] true

/-- The text of a mark, which is retired once it has left the window. -/
def Mark.inspect (m : Mark) (retired : Bool) : String :=
  inspectStruct "CommitRecord"
    [("version", toString m.version), ("running", toString m.readers),
     ("retired", inspectBool retired)]

def Timeline.inspect (t : Timeline) : String :=
  inspectStruct "CommitSequence"
    [("head_version", toString t.head.version), ("retained_records", toString t.window.length)]

def Context.inspect {V : Type} (x : Context V) : String :=
  inspectStruct "Transaction"
    [("id", inspectTuple "TxnId" (toString x.id.number)), ("snapshot", toString x.snapshot),
     ("mode", x.mode.inspect),
     ("kind", match x.kind with
       | none => "None"
       | some kind => inspectTuple "Some" kind.inspect),
     ("status", x.status.inspect), ("reads", toString x.readCount),
     ("writes", toString x.writeCount)]

def Hooks.inspect (k : Hooks) : String :=
  inspectStruct "StmHooks"
    [("registry", inspectBool k.announces), ("nested_factory", inspectBool k.modeOfChild.isSome),
     ("commit_observer", inspectBool k.observer.isSome)]

def World.inspectEngine {V : Type} (w : World V) (e : EngineId) : String :=
  let g := w.engine e
  inspectStruct "Stm"
    [("manager", inspectStruct "TransactionManager"
      [("current_version", toString g.version), ("suspended", toString (w.parkedCount e)),
       ("hooks", g.hooks.inspect)])]

def inspectWorker (running : Bool) : String :=
  inspectStruct "ReclaimWorker" [("running", inspectBool running)]

end VersionedMemory
