import VersionedMemory.Identity

/-!
# Values of three types

The memory itself is indifferent to what its cells hold. These are the values that a script can put
into them: 64-bit integers, texts and lists of such integers, with the named operations by which
scripts combine two values of one type.
-/

namespace VersionedMemory

inductive Value where
  | int (value : Int64)
  | text (value : String)
  | list (items : List Int64)
  deriving DecidableEq, Repr, Inhabited

inductive ValueType where
  | int
  | text
  | list
  deriving DecidableEq, Repr, Inhabited

def ValueType.code : ValueType → ContentType
  | int => 0
  | text => 1
  | list => 2

def Value.type : Value → ValueType
  | int _ => .int
  | text _ => .text
  | list _ => .list

def ValueType.ofCode (code : ContentType) : ValueType :=
  if code = 0 then .int else if code = 1 then .text else .list

@[simp] theorem ValueType.ofCode_code (t : ValueType) : ofCode t.code = t := by cases t <;> rfl

inductive Operation where
  | add | sub | mul | max | min | xor
  /-- Ten times the left operand plus the right one. -/
  | digits
  | first | last
  | concat
  /-- The items of both lists, sorted, each once. -/
  | union
  deriving DecidableEq, Repr, Inhabited

namespace Operation

def accepts : Operation → ValueType → Bool
  | first, _ | last, _ => true
  | concat, t => t ≠ .int
  | union, t => t = .list
  | _, t => t = .int

/-- Combine two integers; arithmetic wraps around. -/
def onInts : Operation → Int64 → Int64 → Int64
  | add, a, b => a + b
  | sub, a, b => a - b
  | mul, a, b => a * b
  | max, a, b => if a < b then b else a
  | min, a, b => if b < a then b else a
  | xor, a, b => a ^^^ b
  | digits, a, b => a * 10 + b
  | last, _, b => b
  | _, a, _ => a

/-- Insert an item into a sorted list without repetitions. -/
def insertSorted (n : Int64) : List Int64 → List Int64
  | [] => [n]
  | m :: rest =>
    if n < m then n :: m :: rest else if n = m then m :: rest else m :: insertSorted n rest

/-- Combine two values. Where the operation does not accept them, the left one is the answer. -/
def apply : Operation → Value → Value → Value
  | first, a, _ => a
  | last, _, b => b
  | concat, .text a, .text b => .text (a ++ b)
  | concat, .list a, .list b => .list (a ++ b)
  | union, .list a, .list b => .list ((a ++ b).foldr insertSorted [])
  | op, .int a, .int b => .int (op.onInts a b)
  | _, a, _ => a

end Operation

end VersionedMemory
