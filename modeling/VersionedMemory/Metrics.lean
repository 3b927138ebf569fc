/-!
# Counters of an engine

The counters only grow. They live in 64-bit words, so the derived figures are computed as such
words are: `finished` wraps around, and the commit rate is the quotient of two words that were
first rounded to binary64.
-/

namespace VersionedMemory

/-- What an engine has counted since it was built. Children of a transaction never count. -/
structure Metrics where
  started : Nat := 0
  /-- Top-level commits, read-only ones included. -/
  committed : Nat := 0
  /-- Commits that had nothing to publish. -/
  readOnlyCommits : Nat := 0
  /-- Top-level transactions aborted, those that lost a conflict included. -/
  aborted : Nat := 0
  /-- Commits refused by validation or by the observer. -/
  conflicts : Nat := 0
  /-- Checked tasks that ran a second time. -/
  reruns : Nat := 0
  passes : Nat := 0
  /-- Retained values that reclamation gave up. -/
  reclaimed : Nat := 0
  deriving DecidableEq, Repr, Inhabited

namespace Metrics

def readWriteCommits (m : Metrics) : Nat := m.committed - m.readOnlyCommits

def active (m : Metrics) : Nat := m.started - m.committed - m.aborted

def finished (m : Metrics) : UInt64 := m.committed.toUInt64 + m.aborted.toUInt64

/-- The share of commits among the finished transactions; all of them where none has finished. -/
def commitShare (m : Metrics) : Float :=
  if m.finished = 0 then 1.0 else m.committed.toUInt64.toFloat / m.finished.toFloat

end Metrics

end VersionedMemory
