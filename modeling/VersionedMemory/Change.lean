import VersionedMemory.Store

/-!
# Buffered changes

A transaction changes no cell before it commits. What it is going to do to a cell is a change: to
assign a value, or to combine a delta with whatever the cell holds by then. A later change to the
same cell is merged into the earlier one: an assigned value is replaced, deltas are combined in
the order in which they came.

## Main definitions

* `Change.merge` merges a later change into an earlier one.
* `WriteSet.stage` buffers a change under an identity, merging it where one is there already.
* `Change.publish` carries a change out at the version of a commit.
-/

namespace VersionedMemory

/-- What is to be done to a cell. -/
inductive Effect (V : Type) where
  | assign (value : V)
  /-- Combine `delta` with the newest value. -/
  | combine (op : V → V → V) (delta : V)

/-- A change that waits for commit: the cell it changes, the type of that cell, and its effect. -/
structure Change (V : Type) where
  target : CellId
  type : ContentType
  effect : Effect V

/-- Buffered changes, by the cell under whose identity they were buffered. -/
abbrev WriteSet (V : Type) := Table CellId (Change V)

namespace Change

variable {V : Type}

/-- Merge a later change into an earlier one. Both have to be of one kind and of one type. -/
def merge (earlier later : Change V) : Except Error (Change V) :=
  match earlier.effect, later.effect with
  | .assign _, .assign value =>
    if earlier.type = later.type then .ok { earlier with effect := .assign value }
    else .error (.internal (.writeTypeChanged later.target))
  | .combine op delta, .combine _ delta' =>
    if earlier.type = later.type then
      .ok { earlier with effect := .combine op (op delta delta') }
    else .error (.internal (.deltaTypeChanged later.target))
  | .assign _, .combine .. => .error (.internal (.writeTypeChanged later.target))
  | .combine .., .assign _ => .error (.internal (.deltaTypeChanged later.target))

/-- The value that the change assigns, if it assigns one of `type`. -/
def assigned? (c : Change V) (type : ContentType) : Option V :=
  match c.effect with
  | .assign value => if c.type = type then some value else none
  | .combine .. => none

def delta? (c : Change V) (type : ContentType) : Option V :=
  match c.effect with
  | .assign _ => none
  | .combine _ delta => if c.type = type then some delta else none

theorem target_of_merge {a b c : Change V} (h : a.merge b = .ok c) :
    c.target = a.target ∧ c.type = a.type := by
  unfold merge at h
  grind

theorem effect_of_merge_assign {a b c : Change V} {v w : V} (ha : a.effect = .assign v)
    (hb : b.effect = .assign w) (h : a.merge b = .ok c) : c.effect = .assign w := by
  unfold merge at h
  grind

theorem effect_of_merge_combine {a b c : Change V} {op op' : V → V → V} {v w : V}
    (ha : a.effect = .combine op v) (hb : b.effect = .combine op' w) (h : a.merge b = .ok c) :
    c.effect = .combine op (op v w) := by
  unfold merge at h
  grind

theorem type_eq_of_merge {a b c : Change V} (h : a.merge b = .ok c) : a.type = b.type := by
  unfold merge at h
  grind

variable [Inhabited V]

def publish (c : Change V) (version : Version) (s : Store V) : Except Error (Store V) :=
  match c.effect with
  | .assign value => s.assign c.target value version
  | .combine op delta => s.update c.target version (op · delta)

end Change

namespace WriteSet

variable {V : Type}

def stage (ws : WriteSet V) (c : CellId) (x : Change V) : Except Error (WriteSet V) :=
  match ws.get? c with
  | some earlier => (earlier.merge x).map (ws.insert c)
  | none => .ok (ws.insert c x)

theorem get?_stage_of_ne {ws ws' : WriteSet V} {c d : CellId} {x : Change V}
    (h : ws.stage c x = .ok ws') (hd : d ≠ c) : ws'.get? d = ws.get? d := by
  unfold stage at h
  split at h
  · next earlier _ =>
    cases hm : earlier.merge x with
    | error e => simp [hm, Except.map] at h
    | ok y =>
      simp only [hm, Except.map, Except.ok.injEq] at h
      simp [← h, hd]
  · simp only [Except.ok.injEq] at h
    simp [← h, hd]

theorem isSome_get?_stage {ws ws' : WriteSet V} {c : CellId} {x : Change V}
    (h : ws.stage c x = .ok ws') : (ws'.get? c).isSome := by
  unfold stage at h
  split at h
  · next earlier _ =>
    cases hm : earlier.merge x with
    | error e => simp [hm, Except.map] at h
    | ok y =>
      simp only [hm, Except.map, Except.ok.injEq] at h
      simp [← h]
  · simp only [Except.ok.injEq] at h
    simp [← h]

/-- Buffer changes one after the other, up to the first that cannot be merged. -/
def stageAll (ws : WriteSet V) : List (CellId × Change V) → Except Error Unit × WriteSet V
  | [] => (.ok (), ws)
  | (c, x) :: rest =>
    match ws.stage c x with
    | .ok ws' => stageAll ws' rest
    | .error e => (.error e, ws)

def targets (ws : WriteSet V) : List CellId := ws.values.map Change.target

end WriteSet

end VersionedMemory
