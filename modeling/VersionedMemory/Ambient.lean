import VersionedMemory.World

/-!
# Transactions bound to a thread

A thread may have one transaction bound to it, which is then found without passing it around.
Binding fails where one is bound already; the operations on the bound transaction fail where none
is.
-/

namespace VersionedMemory.World

variable {V : Type} [Inhabited V]

omit [Inhabited V] in
def boundId (w : World V) (t : ThreadId) : Option TxnId := (w.bound.get? t).map Context.id

omit [Inhabited V] in
def isBound (w : World V) (t : ThreadId) : Bool := (w.boundId t).isSome

/-- Bind a transaction; it is discarded where another one is bound. -/
def bind (w : World V) (t : ThreadId) (x : Context V) : Except Error Unit × World V :=
  match w.bound.get? t with
  | some y => (.error (.illegal (.alreadyBound y.id)), w.discard x)
  | none => (.ok (), { w with bound := w.bound.insert t x })

def unbind (w : World V) (t : ThreadId) : Option (Context V) × World V :=
  (w.bound.get? t, { w with bound := w.bound.erase t })

/-- Detach the bound transaction, or say that there is none. -/
def detach (w : World V) (t : ThreadId) : Except Error (Context V) × World V :=
  match w.unbind t with
  | (some x, w) => (.ok x, w)
  | (none, w) => (.error (.illegal .nothingBound), w)

def beginBound (w : World V) (t : ThreadId) (e : EngineId) (mode : Mode) :
    Except Error TxnId × World V :=
  if w.isBound t then (.error (.illegal .threadOccupied), w)
  else
    let (x, w) := w.begin e mode
    let (r, w) := w.bind t x
    (r.map fun () => x.id, w)

def commitBound (w : World V) (t : ThreadId) : Except Error Receipt × World V :=
  match w.detach t with
  | (.ok x, w) => w.commit x
  | (.error e, w) => (.error e, w)

def abortBound (w : World V) (t : ThreadId) : Except Error Unit × World V :=
  match w.detach t with
  | (.ok x, w) => (.ok (), w.abort x callerAbort)
  | (.error e, w) => (.error e, w)

def parkBound (w : World V) (t : ThreadId) (e : EngineId) : Except Error TxnId × World V :=
  match w.detach t with
  | (.ok x, w) => w.park e x
  | (.error err, w) => (.error err, w)

def unparkBound (w : World V) (t : ThreadId) (e : EngineId) (txn : TxnId) :
    Except Error TxnId × World V :=
  if w.isBound t then (.error (.illegal .threadOccupied), w)
  else
    match w.unpark e txn with
    | (.ok x, w) =>
      let (r, w) := w.bind t x
      (r.map fun () => x.id, w)
    | (.error err, w) => (.error err, w)

/-- Bind `x` again after work on it; what was bound meanwhile is discarded. -/
def rebind (w : World V) (t : ThreadId) (x : Context V) : World V :=
  let (meanwhile, w) := w.unbind t
  let w := { w with bound := w.bound.insert t x }
  match meanwhile with
  | some y => w.discard y
  | none => w

/-- What is bound when a thread ends is discarded. -/
def endThread (w : World V) (t : ThreadId) : World V :=
  match w.unbind t with
  | (some x, w) => w.discard x
  | (none, w) => w

end VersionedMemory.World
