import VersionedMemory.Proofs.Adoption

/-!
# Stacks of buffers

A context reads a cell through the stack of buffers below it, and sees no more of them than the
pending write and the pending deltas of that cell. So an access does the same over any two stacks
that show the same of the cell.

## Main definitions

* `SeenAlike` says that two stacks of buffers show the same of a cell.
* `Context.atop` puts a context over another stack of buffers.

## Main statements

* `Context.read_atop`, `Context.get_atop`, `Context.write_atop`, `Context.put_atop`: what an access
  does over another stack.
-/

namespace VersionedMemory

variable {V : Type}

theorem writeThrough_cons (l : Layer V) (layers : List (Layer V)) (c : CellId) :
    writeThrough (l :: layers) c = (l.write? c).or (writeThrough layers c) := by
  simp only [writeThrough, List.findSome?_cons]
  cases l.write? c <;> rfl

/-- How the pending deltas for a cell change its base value. -/
def pendingOn (layers : List (Layer V)) (cell : Cell V) (op : V → V → V) : Option (V → V) :=
  ((deltasThrough layers cell.id).mapM (Change.delta? · cell.type)).map fun deltas base =>
    Context.combined op base deltas

theorem pendingOn_cons_of_none {l : Layer V} {cell : Cell V}
    (h : l.deltas.get? cell.id = none) (layers : List (Layer V)) (op : V → V → V) :
    pendingOn (l :: layers) cell op = pendingOn layers cell op := by
  simp [pendingOn, deltasThrough, h]

theorem pendingOn_cons_of_some {l : Layer V} {cell : Cell V} {d : Change V}
    (h : l.deltas.get? cell.id = some d) (layers : List (Layer V)) (op : V → V → V) :
    pendingOn (l :: layers) cell op = (d.delta? cell.type).bind fun delta =>
      (pendingOn layers cell op).map fun f base => op (f base) delta := by
  simp only [pendingOn, deltasThrough, List.filterMap_cons, h, List.mapM_cons]
  cases d.delta? cell.type with
  | none => rfl
  | some delta => cases (layers.filterMap (·.deltas.get? cell.id)).mapM (·.delta? cell.type) <;> rfl

/-- Two stacks of buffers show the same of a cell. -/
structure SeenAlike (cell : Cell V) (op : V → V → V) (l l' : List (Layer V)) : Prop where
  write : writeThrough l cell.id = writeThrough l' cell.id
  deltas : pendingOn l cell op = pendingOn l' cell op

/-- One more buffer on top shows the same on top of either. -/
theorem SeenAlike.cons {cell : Cell V} {op : V → V → V} {l l' : List (Layer V)}
    (h : SeenAlike cell op l l') (top : Layer V) : SeenAlike cell op (top :: l) (top :: l') := by
  refine ⟨?_, ?_⟩
  · rw [writeThrough_cons, writeThrough_cons, h.write]
  · cases hd : top.deltas.get? cell.id with
    | none => rw [pendingOn_cons_of_none hd, pendingOn_cons_of_none hd, h.deltas]
    | some d => rw [pendingOn_cons_of_some hd, pendingOn_cons_of_some hd, h.deltas]

/-- A buffer with nothing in it for a cell shows what lies below. -/
theorem seenAlike_cons_of_none {cell : Cell V} {top : Layer V} (hw : top.write? cell.id = none)
    (hd : top.deltas.get? cell.id = none) (layers : List (Layer V)) (op : V → V → V) :
    SeenAlike cell op (top :: layers) layers :=
  ⟨by rw [writeThrough_cons, hw, Option.none_or], pendingOn_cons_of_none hd layers op⟩

/-- Two buffers, one on top of the other, show of a cell what one buffer shows that holds what they
join to, if the deltas for the cell combine by an associative operation. -/
theorem SeenAlike.joined {cell : Cell V} {op : V → V → V} {upper lower both : Layer V}
    (hop : ∀ u v w, op (op u v) w = op u (op v w))
    (hwrite : both.write? cell.id = (upper.write? cell.id).or (lower.write? cell.id))
    (hdeltas : both.deltas.get? cell.id =
      (lower.deltas.get? cell.id).merge Change.join (upper.deltas.get? cell.id))
    (hjoin : ∀ a b, lower.deltas.get? cell.id = some a → upper.deltas.get? cell.id = some b →
      (a.join b).delta? cell.type =
        (a.delta? cell.type).bind fun u => (b.delta? cell.type).map (op u))
    (layers : List (Layer V)) :
    SeenAlike cell op (upper :: lower :: layers) (both :: layers) := by
  refine ⟨?_, ?_⟩
  · rw [writeThrough_cons, writeThrough_cons, writeThrough_cons, hwrite, Option.or_assoc]
  · cases hl : lower.deltas.get? cell.id with
    | none =>
      rw [hl, Option.merge_none_left] at hdeltas
      cases hu : upper.deltas.get? cell.id with
      | none =>
        rw [pendingOn_cons_of_none hu, pendingOn_cons_of_none hl,
          pendingOn_cons_of_none (hdeltas.trans hu)]
      | some b =>
        rw [pendingOn_cons_of_some hu, pendingOn_cons_of_none hl,
          pendingOn_cons_of_some (hdeltas.trans hu)]
    | some a =>
      cases hu : upper.deltas.get? cell.id with
      | none =>
        rw [hl, hu, Option.merge_none_right] at hdeltas
        rw [pendingOn_cons_of_none hu, pendingOn_cons_of_some hl, pendingOn_cons_of_some hdeltas]
      | some b =>
        rw [hl, hu, Option.merge_some_some] at hdeltas
        rw [pendingOn_cons_of_some hu, pendingOn_cons_of_some hl, pendingOn_cons_of_some hdeltas,
          hjoin a b hl hu]
        -- the upper delta is combined with the lower one, before or after the base value
        cases a.delta? cell.type <;> cases b.delta? cell.type <;>
          cases pendingOn layers cell op <;> simp [hop]

/-! ### What an access changes -/

namespace Context

theorem subset_asked_touch (x : Context V) (c : CellId) : x.asked ⊆ (x.touch c).asked := by
  unfold touch
  split
  · exact fun _ h => List.mem_insert_of_mem h
  · exact fun _ h => h

theorem read_changes (x : Context V) (cell : Cell V) :
    ∃ reads asked, x.asked ⊆ asked ∧ (x.read cell).2 = { x with reads, asked } := by
  have ht : ∃ asked, x.asked ⊆ asked ∧ x.touch cell.id = { x with asked } := by
    refine ⟨_, x.subset_asked_touch cell.id, ?_⟩
    unfold touch
    split <;> rfl
  obtain ⟨asked, hsub, ht⟩ := ht
  unfold read
  split
  · exact ⟨x.reads, x.asked, fun _ h => h, rfl⟩
  · simp only [ht]
    split
    · exact ⟨_, _, hsub, rfl⟩
    · exact ⟨_, _, hsub, rfl⟩
    · split
      · exact ⟨_, _, hsub, rfl⟩
      · unfold observe
        split <;> exact ⟨_, _, hsub, rfl⟩

@[simp] theorem enclosing_read (x : Context V) (cell : Cell V) :
    (x.read cell).2.enclosing = x.enclosing := by
  obtain ⟨_, _, -, hx⟩ := x.read_changes cell
  rw [hx]

@[simp] theorem mode_read (x : Context V) (cell : Cell V) : (x.read cell).2.mode = x.mode := by
  obtain ⟨_, _, -, hx⟩ := x.read_changes cell
  rw [hx]

theorem mem_asked_read {x : Context V} (hc : x.kind.isSome = true) (ha : x.status = .active)
    (cell : Cell V) : cell.id ∈ (x.read cell).2.asked := by
  have hcheck : x.checkActive = .ok () := by simp [checkActive, isActive, ha]
  have ht : cell.id ∈ (x.touch cell.id).asked := by simp [touch, isChild, hc]
  unfold read
  rw [hcheck]
  dsimp only
  split
  · exact ht
  · exact ht
  · split
    · exact ht
    · unfold observe
      split <;> exact ht

/-- A write changes the mode and the buffer that takes the writes, unless it is illegal. -/
theorem write_changes (x : Context V) (cell : Cell V) (value : V) :
    (x.write cell value).2 = x ∨ x.mode ≠ .readOnly ∧ ∃ writes shared,
      shared.isSome = x.shared.isSome ∧ (x.shared.isSome = true → writes = x.writes) ∧
        (x.write cell value).2 = { x with mode := .readWrite, writes, shared } := by
  unfold write forWriting
  split
  · exact .inl rfl
  · cases ho : x.mode.onWrite with
    | none => exact .inl rfl
    | some m =>
      have hne : x.mode ≠ .readOnly := fun hro => by simp [hro, Mode.onWrite] at ho
      cases Mode.eq_readWrite_of_onWrite ho
      refine .inr ⟨hne, ?_⟩
      dsimp only
      split
      · exact ⟨x.writes, x.shared, rfl, fun _ => rfl, rfl⟩
      · next z hz =>
        unfold bufferWrite at hz
        split at hz
        · next b hb =>
          obtain ⟨b', -, rfl⟩ := map_eq_ok_iff.1 hz
          exact ⟨x.writes, some b', (congrArg Option.isSome hb).symm, fun _ => rfl, rfl⟩
        · next hb =>
          obtain ⟨ws, -, rfl⟩ := map_eq_ok_iff.1 hz
          exact ⟨ws, x.shared, rfl, fun hs => absurd hs (by simpa using hb), rfl⟩

/-- A change to the deltas changes the mode and the deltas, unless it is illegal. -/
theorem stage_changes (x : Context V) (c : CellId) (a : Change V) :
    (x.stage c a).2 = x ∨ x.mode ≠ .readOnly ∧ ∃ deltas,
      (x.stage c a).2 = { x with mode := .readWrite, deltas } := by
  unfold stage forWriting
  split
  · exact .inl rfl
  · cases ho : x.mode.onWrite with
    | none => exact .inl rfl
    | some m =>
      have hne : x.mode ≠ .readOnly := fun hro => by simp [hro, Mode.onWrite] at ho
      cases Mode.eq_readWrite_of_onWrite ho
      refine .inr ⟨hne, ?_⟩
      dsimp only
      split
      · exact ⟨_, rfl⟩
      · next z hz =>
        obtain ⟨_, -, rfl⟩ := map_eq_ok_iff.1 hz
        exact ⟨_, rfl⟩

theorem stage_frame (x : Context V) (c : CellId) (a : Change V) :
    (x.stage c a).2.writes = x.writes ∧ (x.stage c a).2.shared = x.shared := by
  rcases x.stage_changes c a with hx | ⟨-, _, hx⟩
  · rw [hx]
    exact ⟨rfl, rfl⟩
  · rw [hx]
    exact ⟨rfl, rfl⟩

/-! ### Accesses over other buffers -/

/-- What `get` answers, from the value of the cell and what is pending on it. -/
theorem fst_get (x : Context V) (cell : Cell V) (op : V → V → V) :
    (x.get cell op).1 = (x.read cell).1.bind fun base =>
      match pendingOn x.layers cell op with
      | some f => .ok (f base)
      | none => .error (.internal (.pendingDeltaType cell.id)) := by
  have hd : (x.read cell).2.deltasFor cell.id = deltasThrough x.layers cell.id := by
    simp [deltasFor, deltasThrough, layers, layer, List.filterMap_cons, (x.read_frame cell).2.1]
  unfold get pendingOn
  rcases hr : x.read cell with ⟨e | base, y⟩
  · rfl
  · rw [hr] at hd
    dsimp only at hd ⊢
    rw [hd]
    cases (deltasThrough x.layers cell.id).mapM (Change.delta? · cell.type) <;> rfl

/-- The context, over other buffers, as another kind of child and in another mode. -/
def atop (x : Context V) (kind : Option ChildKind) (mode : Mode) (below : List (Layer V)) :
    Context V :=
  { x with kind, mode, enclosing := below }

variable {x : Context V} {kind : Option ChildKind} {mode : Mode} {below : List (Layer V)}
  {cell : Cell V} {op : V → V → V}

/-- A read over buffers that show the same of the cell does the same. -/
theorem read_atop (hk : kind.isSome = x.kind.isSome) (hm : mode.recordsReads = x.mode.recordsReads)
    (hw : writeThrough x.layers cell.id = writeThrough (x.atop kind mode below).layers cell.id) :
    (x.atop kind mode below).read cell =
      ((x.read cell).1, (x.read cell).2.atop kind mode below) := by
  have htouch : (x.atop kind mode below).touch cell.id =
      (x.touch cell.id).atop kind mode below := by
    cases hx : x.kind.isSome <;> simp [touch, isChild, atop, hk, hx]
  have hwrite : ((x.touch cell.id).atop kind mode below).writeFor cell.id =
      (x.touch cell.id).writeFor cell.id := by
    rw [← htouch, writeFor_touch, writeFor_touch]
    exact hw.symm
  have hobserve : ∀ v, ((x.touch cell.id).atop kind mode below).observe cell.id v =
      ((x.touch cell.id).observe cell.id v).atop kind mode below := by
    intro v
    cases hx : x.mode.recordsReads <;> simp [observe, atop, hm, hx]
  have hcheck : (x.atop kind mode below).checkActive = x.checkActive := rfl
  have hsnap : ((x.touch cell.id).atop kind mode below).snapshot = (x.touch cell.id).snapshot := rfl
  unfold read
  rw [hcheck]
  cases x.checkActive with
  | error e => rfl
  | ok =>
    simp only [htouch, valueFor, hwrite, hsnap]
    split
    · rfl
    · rfl
    · split
      · rfl
      · rw [hobserve]

/-- A read of an accumulator over buffers that show the same of its cell does the same. -/
theorem get_atop (hk : kind.isSome = x.kind.isSome) (hm : mode.recordsReads = x.mode.recordsReads)
    (hs : SeenAlike cell op x.layers (x.atop kind mode below).layers) :
    (x.atop kind mode below).get cell op =
      ((x.get cell op).1, (x.get cell op).2.atop kind mode below) := by
  refine Prod.ext ?_ ?_
  · rw [fst_get, fst_get, read_atop hk hm hs.write, hs.deltas]
  · rw [snd_get, snd_get, read_atop hk hm hs.write]

/-- A write is as legal over other buffers, in a mode that allows as much. -/
theorem forWriting_atop (kind : Option ChildKind) (below : List (Layer V))
    (hm : mode = .readOnly ↔ x.mode = .readOnly) :
    (∃ e, x.forWriting = .error e ∧ (x.atop kind mode below).forWriting = .error e) ∨
      ∃ y, x.forWriting = .ok y ∧ y.mode = .readWrite ∧
        (x.atop kind mode below).forWriting = .ok (y.atop kind .readWrite below) := by
  unfold forWriting
  cases ho : x.mode.onWrite with
  | none =>
    have hro := Mode.onWrite_eq_none_iff.1 ho
    exact .inl ⟨_, rfl, by simp [atop, hm.2 hro, Mode.onWrite]⟩
  | some m =>
    have hne : mode ≠ .readOnly := fun hro => by simp [hm.1 hro, Mode.onWrite] at ho
    have hon : mode.onWrite = some .readWrite := by
      revert hne
      cases mode <;> decide
    exact .inr ⟨_, rfl, Mode.eq_readWrite_of_onWrite ho, by simp [atop, hon]⟩

theorem bufferWrite_atop (c : CellId) (a : Change V) :
    (x.atop kind mode below).bufferWrite c a =
      (x.bufferWrite c a).map (·.atop kind mode below) := by
  unfold bufferWrite atop
  cases x.shared with
  | none => cases x.writes.stage c a <;> rfl
  | some ws =>
    dsimp only
    cases ws.stage c a <;> rfl

theorem bufferDelta_atop (c : CellId) (a : Change V) :
    (x.atop kind mode below).bufferDelta c a =
      (x.bufferDelta c a).map (·.atop kind mode below) := by
  unfold bufferDelta atop
  cases x.deltas.stage c a <;> rfl

theorem mode_bufferWrite {y : Context V} {c : CellId} {a : Change V}
    (h : x.bufferWrite c a = .ok y) : y.mode = x.mode := by
  unfold bufferWrite at h
  split at h <;> obtain ⟨_, -, rfl⟩ := map_eq_ok_iff.1 h <;> rfl

theorem mode_bufferDelta {y : Context V} {c : CellId} {a : Change V}
    (h : x.bufferDelta c a = .ok y) : y.mode = x.mode := by
  obtain ⟨_, -, rfl⟩ := map_eq_ok_iff.1 h
  rfl

/-- A write over other buffers does the same. -/
theorem write_atop (hm : mode = .readOnly ↔ x.mode = .readOnly) (value : V) :
    ∃ mode', (x.atop kind mode below).write cell value =
        ((x.write cell value).1, (x.write cell value).2.atop kind mode' below) ∧
      (mode' = .readOnly ↔ (x.write cell value).2.mode = .readOnly) := by
  have hcheck : (x.atop kind mode below).checkActive = x.checkActive := rfl
  unfold write
  rw [hcheck]
  cases x.checkActive with
  | error e => exact ⟨mode, rfl, hm⟩
  | ok =>
    rcases forWriting_atop kind below hm with ⟨e, hx, ho⟩ | ⟨y, hx, hy, ho⟩
    · exact ⟨mode, by simp [hx, ho], by simpa [hx] using hm⟩
    · simp only [hx, ho, bufferWrite_atop]
      cases hb : y.bufferWrite cell.id ⟨cell.id, cell.type, .assign value⟩ with
      | error e => exact ⟨.readWrite, rfl, by simp [hy]⟩
      | ok z => exact ⟨.readWrite, rfl, by simp [mode_bufferWrite hb, hy]⟩

/-- A put over other buffers does the same. -/
theorem put_atop (hm : mode = .readOnly ↔ x.mode = .readOnly) (op : V → V → V) (delta : V) :
    ∃ mode', (x.atop kind mode below).put cell op delta =
        ((x.put cell op delta).1, (x.put cell op delta).2.atop kind mode' below) ∧
      (mode' = .readOnly ↔ (x.put cell op delta).2.mode = .readOnly) := by
  have hcheck : (x.atop kind mode below).checkActive = x.checkActive := rfl
  unfold put stage
  rw [hcheck]
  cases x.checkActive with
  | error e => exact ⟨mode, rfl, hm⟩
  | ok =>
    rcases forWriting_atop kind below hm with ⟨e, hx, ho⟩ | ⟨y, hx, hy, ho⟩
    · exact ⟨mode, by simp [hx, ho], by simpa [hx] using hm⟩
    · simp only [hx, ho, bufferDelta_atop]
      cases hb : y.bufferDelta cell.id ⟨cell.id, cell.type, .combine op delta⟩ with
      | error e => exact ⟨.readWrite, rfl, by simp [hy]⟩
      | ok z => exact ⟨.readWrite, rfl, by simp [mode_bufferDelta hb, hy]⟩

end Context

end VersionedMemory
