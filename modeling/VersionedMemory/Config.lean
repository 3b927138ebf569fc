import VersionedMemory.Error

/-!
# Settings of an engine

`Config.check` refuses the settings with which an engine could never work: no threads, an interval
of no commits between reclamation passes, no attempts.
-/

namespace VersionedMemory

structure Config where
  /-- Threads of a pool of the engine's own; without it batches run on a pool shared by all. -/
  parallelism : Option Nat := none
  /-- A reclamation pass follows every so many read-write commits. -/
  reclaimEvery : Option Nat := none
  /-- How often a body is attempted before its conflict is reported. -/
  maxAttempts : Nat := 1000
  /-- Pause between attempts, in microseconds. -/
  backoff : Nat := 0
  deriving DecidableEq, Repr, Inhabited

namespace Config

def check (c : Config) : Except Error Config :=
  if c.parallelism = some 0 then .error (.config .noThreads)
  else if c.reclaimEvery = some 0 then .error (.config .noReclaimInterval)
  else if c.maxAttempts = 0 then .error (.config .noAttempts)
  else .ok c

end Config

end VersionedMemory
