import VersionedMemory.Context

/-!
# Batches

The tasks of a batch are merged in the order of their submission, before any of them reaches the
context that submitted them. What is merged so far lies as one more layer over that context: a task
that runs again reads through it. A task overlaps the batch if it asked for, or wrote, a cell that
the batch has a merged change for.

## Main definitions

* `Batch.clash` is the first cell of a contribution that the batch changes.
* `Batch.add` takes a contribution in, without any check.
* `Batch.layers` is what a task that runs again reads through.
-/

namespace VersionedMemory

/-- What the tasks merged so far hand over, and the cells under which they changed something. -/
structure Batch (V : Type) where
  merged : Contribution V := {}
  written : List CellId := []

namespace Batch

variable {V : Type}

def layer (b : Batch V) : Layer V := { writes := b.merged.writes, deltas := b.merged.deltas }

def layers (b : Batch V) (below : List (Layer V)) : List (Layer V) := b.layer :: below

/-- The first cell that `e` asked for or wrote and that the batch changes. -/
def clash (b : Batch V) (e : Contribution V) : Option CellId :=
  (e.asked ++ e.writes.keys).find? (b.written.contains ·)

def addWrites (b : Batch V) (writes : WriteSet V) : Except Error Unit × Batch V :=
  let (r, ws) := b.merged.writes.stageAll writes.entries
  (r, { merged := { b.merged with writes := ws },
        written := b.written ++ writes.keys })

/-- Take deltas in. A later task that reads the accumulator has to see them. -/
def addDeltas (b : Batch V) (deltas : WriteSet V) : Except Error Unit × Batch V :=
  let (r, ds) := b.merged.deltas.stageAll deltas.entries
  (r, { merged := { b.merged with deltas := ds },
        written := b.written ++ deltas.keys })

def addReads (b : Batch V) (e : Contribution V) : Batch V :=
  { b with merged := { b.merged with
      reads := ReadSet.merge b.merged.reads e.reads
      asked := e.asked.foldl (fun t c => t.insert c) b.merged.asked } }

def add (b : Batch V) (e : Contribution V) : Except Error Unit × Batch V :=
  match (b.addReads e).addWrites e.writes with
  | (.error err, b) => (.error err, b)
  | (.ok (), b) => b.addDeltas e.deltas

end Batch

end VersionedMemory
