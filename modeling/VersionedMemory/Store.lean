import VersionedMemory.Cell
import VersionedMemory.Table

/-!
# The store

All cells, by identity. `Store.cell` is total: an identity that was never handed out stands for a
cell that holds the default value and that nobody has a handle on.
-/

namespace VersionedMemory

structure Store (V : Type) where
  cells : Table CellId (Cell V)
  /-- How many cells were created; they are numbered from 1. -/
  created : Nat
  id_of_get? : ∀ c x, cells.get? c = some x → x.id = c

namespace Store

variable {V : Type} [Inhabited V]

def empty : Store V := ⟨∅, 0, fun _ _ h => nomatch h⟩

instance : Inhabited (Store V) := ⟨empty⟩

/-- What an identity stands for before it is handed out. -/
def blank (c : CellId) : Cell V := { Cell.create c 0 default with handles := 0 }

def cell (s : Store V) (c : CellId) : Cell V := (s.cells.get? c).getD (blank c)

omit [Inhabited V] in
theorem id_of_get?_insert (s : Store V) {c : CellId} {x : Cell V} (hx : x.id = c) :
    ∀ d y, (s.cells.insert c x).get? d = some y → y.id = d := by
  intro d y hy
  rw [Table.get?_insert] at hy
  split at hy
  · next hd =>
    cases hy
    exact hx.trans hd.symm
  · exact s.id_of_get? d y hy

def set (s : Store V) (c : CellId) (x : Cell V) : Store V :=
  { s with
    cells := s.cells.insert c { x with id := c }
    id_of_get? := s.id_of_get?_insert rfl }

def create (s : Store V) (type : ContentType) (value : V) : CellId × Store V :=
  let c : CellId := ⟨s.created + 1⟩
  (c, ⟨s.cells.insert c (.create c type value), s.created + 1, s.id_of_get?_insert rfl⟩)

/-- Whether the cell of an identity was created. -/
def Has (s : Store V) (c : CellId) : Prop := 0 < c.number ∧ c.number ≤ s.created

omit [Inhabited V] in
instance (s : Store V) (c : CellId) : Decidable (s.Has c) := inferInstanceAs (Decidable (_ ∧ _))

def latest (s : Store V) (c : CellId) : Version := (s.cell c).latest

def assign (s : Store V) (c : CellId) (value : V) (version : Version) : Except Error (Store V) :=
  ((s.cell c).assign value version).map (s.set c)

def update (s : Store V) (c : CellId) (version : Version) (f : V → V) : Except Error (Store V) :=
  ((s.cell c).update version f).map (s.set c)

def compact (s : Store V) (c : CellId) (floor : Version) : Store V :=
  s.set c ((s.cell c).compact floor)

/-- Take one more handle on a cell. -/
def retain (s : Store V) (c : CellId) : Store V :=
  s.set c { s.cell c with handles := (s.cell c).handles + 1 }

/-- Give a handle on a cell back. -/
def release (s : Store V) (c : CellId) : Store V :=
  s.set c { s.cell c with handles := (s.cell c).handles - 1 }

@[simp] theorem id_cell (s : Store V) (c : CellId) : (s.cell c).id = c := by
  unfold cell
  cases h : s.cells.get? c with
  | none => rfl
  | some x => exact s.id_of_get? c x h

@[simp] theorem cell_empty (c : CellId) : (empty : Store V).cell c = blank c := rfl

theorem cell_set (s : Store V) (c d : CellId) (x : Cell V) :
    (s.set c x).cell d = if d = c then { x with id := c } else s.cell d := by
  unfold set cell
  by_cases h : d = c <;> simp [h]

theorem cell_create (s : Store V) (type : ContentType) (value : V) (d : CellId) :
    (s.create type value).2.cell d =
      if d = ⟨s.created + 1⟩ then .create d type value else s.cell d := by
  unfold create cell
  by_cases h : d = ⟨s.created + 1⟩ <;> simp [h]

omit [Inhabited V] in
@[simp] theorem created_set (s : Store V) (c : CellId) (x : Cell V) :
    (s.set c x).created = s.created := rfl

omit [Inhabited V] in
@[simp] theorem created_create (s : Store V) (type : ContentType) (value : V) :
    (s.create type value).2.created = s.created + 1 := rfl

omit [Inhabited V] in
theorem has_create (s : Store V) (type : ContentType) (value : V) (c : CellId) :
    (s.create type value).2.Has c ↔ s.Has c ∨ c = ⟨s.created + 1⟩ := by
  obtain ⟨n⟩ := c
  simp only [Has, created_create, CellId.mk.injEq]
  omega

end Store

end VersionedMemory
