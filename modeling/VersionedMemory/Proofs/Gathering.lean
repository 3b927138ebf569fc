import VersionedMemory.Proofs.Nesting
import VersionedMemory.Proofs.AccumulatorReads

/-!
# What a batch has gathered

What the tasks of a batch hand over is gathered in one layer over the context that opened the batch,
and a task that runs again reads through that layer. At the end of the batch the context takes all
of it over. It then shows what the layer and the context showed one over the other: of every cell
the same pending write, and of every accumulator the same value. The latter needs that the delta
which the context holds below one of the layer is to be combined by the operation of the
accumulator, as this is the operation that joins the two. The cells that count as written are just
those that the layer holds a change for.

## Main definitions

* `Discipline.typed` allows writes of the type of their cell, and deltas of any kind.
* `Context.Arises` is every context that accesses, children and batches come to.
* `Batch.Gathers` is every batch that came of taking in what such contexts handed over.
* `Change.CombinesBy` says by which operation a change combines, if it does.
* `Batch.ReadsLike` says that a batch over a context shows what another context shows.

## Main statements

* `Batch.joined_of_add`: what a batch took in is joined to what it held.
* `Context.Arises.tidy` and `Batch.Gathers.within`: such contexts and batches hold typed writes.
* `Context.Adopted.seenAlike_of_tidy`: a batch over a context shows what the context shows that
  took it over.
* `gathered_reads_as_adopted`: all that is read through a batch.
-/

namespace VersionedMemory

variable {V : Type}

/-- Writes assign values of the type of their cell. Any change may stand among the deltas. -/
def Discipline.typed (types : CellId → ContentType) : Discipline V where
  write c a := ∃ value, a = ⟨c, types c, .assign value⟩
  delta _ _ := True
  write_merge := (uniform types fun _ value _ => value).write_merge
  delta_merge _ _ _ := trivial

/-- If the change combines, it does so by the operation. -/
def Change.CombinesBy (op : V → V → V) (a : Change V) : Prop :=
  ∀ op' delta, a.effect = .combine op' delta → op' = op

def Contribution.Changes (e : Contribution V) (c : CellId) : Prop :=
  e.writes.contains c = true ∨ e.deltas.contains c = true

def Contribution.Concerns (e : Contribution V) (c : CellId) : Prop :=
  c ∈ e.asked ∨ e.writes.contains c = true

/-! ### Contexts and batches that come about -/

mutual

/-- The contexts that come about where cells have the given types: by accesses, some of which may
fail, by opening children over any buffers, and by taking over what a child or a batch hands
over. -/
inductive Context.Arises (types : CellId → ContentType) : Context V → Prop
  | begin (id : TxnId) (engine : EngineId) (anchor : Anchor) (mode : Mode) :
    Context.Arises types (.begin id engine anchor mode)
  | read {x : Context V} (cell : Cell V) : x.Arises types → (x.read cell).2.Arises types
  | get {x : Context V} (cell : Cell V) (op : V → V → V) :
    x.Arises types → (x.get cell op).2.Arises types
  | write {x : Context V} {cell : Cell V} (value : V) :
    cell.type = types cell.id → x.Arises types → (x.write cell value).2.Arises types
  /-- A change may be staged under any identity. A put stages one under that of its base. -/
  | stage {x : Context V} (under : CellId) (a : Change V) :
    x.Arises types → (x.stage under a).2.Arises types
  /-- A child with buffers of its own, or the first of the tasks that share a buffer. -/
  | child {x : Context V} (kind : ChildKind) (mode : Mode) (below : List (Layer V))
    {shared : Option (WriteSet V)} :
    shared = none ∨ shared = some ∅ → x.Arises types → (x.child kind mode below shared).Arises types
  /-- A later one of the tasks that share a buffer. -/
  | sharing {x y : Context V} (kind : ChildKind) (mode : Mode) (below : List (Layer V))
    {shared : WriteSet V} : y.Arises types → y.shared = some shared → x.Arises types →
      (x.child kind mode below (some shared)).Arises types
  | adopt {x y : Context V} {e : Contribution V} :
    y.Arises types → y.contribution? = .ok e → x.Arises types → (x.adopt e).2.Arises types
  | adoptBatch {x : Context V} {b : Batch V} {es : List (Contribution V)} :
    b.Gathers types es → x.Arises types → (x.adopt b.merged).2.Arises types

/-- The batches that took in all that is listed, in this order. What is listed was handed over by a
context that came about, or it is a buffer that such contexts shared. -/
inductive Batch.Gathers (types : CellId → ContentType) : Batch V → List (Contribution V) → Prop
  | start : Batch.Gathers types {} []
  | add {es : List (Contribution V)} {b b' : Batch V} {x : Context V} {e : Contribution V} :
    x.Arises types → x.contribution? = .ok e → b.add e = (.ok (), b') → b.Gathers types es →
      b'.Gathers types (es ++ [e])
  | addWrites {es : List (Contribution V)} {b b' : Batch V} {x : Context V} {shared : WriteSet V} :
    x.Arises types → x.shared = some shared → b.addWrites shared = (.ok (), b') →
      b.Gathers types es → b'.Gathers types (es ++ [{ writes := shared }])

end

variable {types : CellId → ContentType} {x y : Context V} {b b' : Batch V} {e : Contribution V}
  {es : List (Contribution V)}

namespace Context

/-- The context is active, its writes are of the types of their cells, and they are all in the
buffer that takes them. -/
structure Tidy (types : CellId → ContentType) (x : Context V) : Prop where
  within : x.Within (.typed types)
  own : x.shared.isSome = true → x.writes = ∅
  active : x.status = .active

namespace Tidy

theorem begin (id : TxnId) (engine : EngineId) (anchor : Anchor) (mode : Mode) :
    (Context.begin id engine anchor mode : Context V).Tidy types :=
  ⟨within_begin .., fun _ => rfl, rfl⟩

theorem child (x : Context V) (kind : ChildKind) (mode : Mode) (below : List (Layer V))
    {shared : Option (WriteSet V)}
    (h : ∀ ws, shared = some ws → ws.All (Discipline.typed types).write) :
    (x.child kind mode below shared).Tidy types :=
  ⟨within_child x kind mode below h, fun _ => rfl, rfl⟩

theorem read (h : x.Tidy types) (cell : Cell V) : (x.read cell).2.Tidy types := by
  obtain ⟨hw, -, hs⟩ := x.read_frame cell
  exact ⟨h.within.read cell, fun hsome => hw.trans (h.own (hs ▸ hsome)),
    (congrArg Life.status (x.life_read cell)).trans h.active⟩

theorem write (h : x.Tidy types) {cell : Cell V} (hc : cell.type = types cell.id) (value : V) :
    (x.write cell value).2.Tidy types := by
  refine ⟨h.within.write ⟨value, by rw [hc]⟩, fun hsome => ?_,
    (congrArg Life.status (x.life_write cell value)).trans h.active⟩
  rcases x.write_changes cell value with hx | ⟨-, _, _, hs, hown, hx⟩
  · rw [hx] at hsome ⊢
    exact h.own hsome
  · rw [hx] at hsome ⊢
    have hxs := hs.symm.trans hsome
    exact (hown hxs).trans (h.own hxs)

theorem stage (h : x.Tidy types) (under : CellId) (a : Change V) :
    (x.stage under a).2.Tidy types := by
  obtain ⟨hw, hs⟩ := x.stage_frame under a
  exact ⟨h.within.stage trivial, fun hsome => hw.trans (h.own (hs ▸ hsome)),
    (congrArg Life.status (x.life_stage under a)).trans h.active⟩

theorem adopt (h : x.Tidy types) (he : e.Within (.typed types)) : (x.adopt e).2.Tidy types := by
  obtain ⟨-, hs, hw⟩ := x.adopt_frame e
  refine ⟨h.within.adopt he, fun hsome => ?_,
    (congrArg Life.status (x.life_adopt e)).trans h.active⟩
  have hxs := hs.symm.trans hsome
  exact (hw hxs).trans (h.own hxs)

theorem merges_writes (h : x.Tidy types) (he : e.Within (.typed types)) :
    x.buffer.Merges e.writes :=
  @merges_of_writes V types (fun _ value _ => value) _ _ h.within.buffer he.writes

end Tidy

end Context

-- what was handed over came about before it was taken over, so both go by recursion at once
mutual

/-- Every context that comes about is tidy. -/
theorem Context.Arises.tidy {x : Context V} : x.Arises types → x.Tidy types
  | .begin id engine anchor mode => .begin id engine anchor mode
  | .read cell hx => hx.tidy.read cell
  | .get cell op hx => by
    rw [Context.snd_get]
    exact hx.tidy.read cell
  | .write value hc hx => hx.tidy.write hc value
  | .stage under a hx => hx.tidy.stage under a
  | .child kind mode below hs hx => .child _ kind mode below fun ws hws => by
    rcases hs with rfl | rfl
    · cases hws
    · cases hws
      exact WriteSet.all_empty
  | .sharing kind mode below hy hs hx => .child _ kind mode below fun ws hws => by
    cases hws
    exact hy.tidy.within.shared _ hs
  | .adopt hy he hx => hx.tidy.adopt (hy.tidy.within.contribution he)
  | .adoptBatch hb hx => hx.tidy.adopt hb.within

/-- What a batch gathers holds writes of the types of their cells. -/
theorem Batch.Gathers.within {es : List (Contribution V)} {b : Batch V} :
    b.Gathers types es → b.merged.Within (.typed types)
  | .start => ⟨WriteSet.all_empty, WriteSet.all_empty⟩
  | .add hx he hadd hb => by
    have hwithin := Batch.within_add hb.within (hx.tidy.within.contribution he)
    rwa [hadd] at hwithin
  | .addWrites hx hs hadd hb => by
    have hwithin := Batch.within_addWrites hb.within (hx.tidy.within.shared _ hs)
    rwa [hadd] at hwithin

end

/-! ### What a batch holds -/

namespace Batch

theorem merges_of_add (h : b.add e = (.ok (), b')) :
    b.merged.writes.Merges e.writes ∧ b.merged.deltas.Merges e.deltas := by
  unfold add addWrites addDeltas addReads at h
  rcases hw : b.merged.writes.stageAll e.writes.entries with ⟨_ | ⟨⟩, ws⟩
  · simp [hw] at h
  · rcases hd : b.merged.deltas.stageAll e.deltas.entries with ⟨_ | ⟨⟩, ds⟩
    · simp [hw, hd] at h
    · exact ⟨WriteSet.merges_of_stageAll hw, WriteSet.merges_of_stageAll hd⟩

theorem joined_of_add (h : b.add e = (.ok (), b')) : b.Joined e b' := by
  obtain ⟨hw, hd⟩ := merges_of_add h
  obtain ⟨b'', hadd, hj⟩ := exists_add_of_merges hw hd
  rw [h] at hadd
  cases hadd
  exact hj

theorem add_of_writes (b : Batch V) (ws : WriteSet V) :
    b.add { writes := ws } = b.addWrites ws := by
  have hreads : b.addReads { writes := ws } = b := rfl
  have hdeltas : ∀ d : Batch V, d.addDeltas ∅ = (.ok (), d) := fun d => by
    simp [addDeltas, Table.keys, WriteSet.stageAll]
  unfold add
  rw [hreads]
  dsimp only
  rcases b.addWrites ws with ⟨_ | ⟨⟩, d⟩
  · rfl
  · exact hdeltas d

/-- The cells that count as written are those that the batch holds a change for, and those that one
of the listed contributions had a change for. -/
structure Marked (b : Batch V) (es : List (Contribution V)) : Prop where
  held : ∀ c, c ∈ b.written ↔ b.merged.Changes c
  listed : ∀ c, c ∈ b.written ↔ ∃ e ∈ es, e.Changes c

theorem marked_empty : ({} : Batch V).Marked [] :=
  ⟨fun c => by simp [Contribution.Changes, Table.contains], fun c => by simp⟩

theorem Marked.joined (h : b.Marked es) (hj : b.Joined e b') : b'.Marked (es ++ [e]) := by
  have hwritten : ∀ c, c ∈ b'.written ↔ c ∈ b.written ∨ e.Changes c := hj.written
  refine ⟨fun c => ?_, fun c => ?_⟩
  · rw [hwritten, h.held]
    simp only [Contribution.Changes, Table.contains, hj.writes, hj.deltas, Option.isSome_merge,
      Bool.or_eq_true]
    exact or_or_or_comm
  · rw [hwritten, h.listed]
    simp [or_and_right, exists_or]

theorem Gathers.marked {b : Batch V} {es : List (Contribution V)} :
    b.Gathers types es → b.Marked es
  | .start => marked_empty
  | .add _ _ hadd hb => hb.marked.joined (joined_of_add hadd)
  | .addWrites _ _ hadd hb => hb.marked.joined (joined_of_add ((add_of_writes ..).trans hadd))

/-- A clash is reported on a cell that was asked for or written and that the batch changes, and it
is reported if there is any. -/
theorem Marked.clash (h : b.Marked es) (e : Contribution V) :
    ((b.clash e).isSome = true ↔ ∃ c, e.Concerns c ∧ b.merged.Changes c) ∧
      ∀ c, b.clash e = some c → e.Concerns c ∧ b.merged.Changes c := by
  have hmem : ∀ c, c ∈ e.asked ++ e.writes.keys ↔ e.Concerns c := fun c => by
    simp [Contribution.Concerns, Table.mem_keys]
  refine ⟨?_, fun c hc => ?_⟩
  · simp only [Batch.clash, List.find?_isSome, List.contains_iff_mem, h.held, hmem]
  · unfold Batch.clash at hc
    have hwritten := List.find?_some hc
    exact ⟨(hmem c).1 (List.mem_of_find?_eq_some hc), (h.held c).1 (by simpa using hwritten)⟩

end Batch

/-! ### What shows through a batch -/

/-- Where changes that merge are joined, their deltas are combined by the operation of the earlier
one. -/
theorem Change.CombinesBy.delta?_join {op : V → V → V} {a d : Change V} (ha : a.CombinesBy op)
    (hm : a.merge d = .ok (a.join d)) (t : ContentType) :
    (a.join d).delta? t = (a.delta? t).bind fun u => (d.delta? t).map (op u) := by
  have ht := type_eq_of_merge hm
  unfold merge at hm
  unfold join delta?
  -- one that assigns holds no delta, before and after
  cases hea : a.effect with
  | assign v => cases hed : d.effect <;> simp [hea, hed] at hm ⊢
  | combine op' u =>
    obtain rfl := ha op' u hea
    cases hed : d.effect with
    | assign v => simp [hea, hed] at hm
    | combine op'' v => by_cases htt : a.type = t <;> simp [← ht, htt]

namespace Context

theorem Tidy.adopted_of_adopt (hx : x.Tidy types) (he : e.Within (.typed types))
    (hmode : x.mode ≠ .readOnly) (h : x.adopt e = (.ok (), y)) : x.Adopted e y := by
  obtain ⟨z, hz, hadopted⟩ :=
    exists_adopt_of_merges (hx.merges_writes he) (merges_of_adopt h) fun _ => hmode
  rw [hz] at h
  cases h
  exact hadopted

/-- A contribution is taken over by a context that may write, unless a delta in it cannot be merged
with a pending one. -/
theorem Tidy.exists_adopt_iff (hx : x.Tidy types) (he : e.Within (.typed types))
    (hmode : x.mode ≠ .readOnly) : (∃ y, x.adopt e = (.ok (), y)) ↔
      ∀ c a d, x.deltas.get? c = some a → e.deltas.get? c = some d → ∃ m, a.merge d = .ok m := by
  constructor
  · rintro ⟨y, hy⟩ c a d ha hd
    exact ⟨_, merges_of_adopt hy c a d ha hd⟩
  · intro h
    have hd : x.deltas.Merges e.deltas := fun c a d ha hd => by
      obtain ⟨m, hm⟩ := h c a d ha hd
      rw [hm, Change.eq_join_of_merge hm]
    obtain ⟨y, hy, -⟩ := exists_adopt_of_merges (hx.merges_writes he) hd fun _ => hmode
    exact ⟨y, hy⟩

theorem Adopted.write?_of_tidy (h : x.Adopted e y) (hx : x.Tidy types)
    (he : e.Within (.typed types)) (c : CellId) :
    y.layer.write? c = (e.layer.write? c).or (x.layer.write? c) := by
  rw [e.write?_layer]
  exact h.write?_layer hx.own (hx.within.buffer c) (he.writes c)

/-- Of every cell, a contribution over a context shows the pending write that the context shows
after it took the contribution over. -/
theorem Adopted.writeFor_eq (h : x.Adopted e y) (hx : x.Tidy types)
    (he : e.Within (.typed types)) (c : CellId) :
    writeThrough (e.layer :: x.layers) c = y.writeFor c := by
  unfold writeFor layers
  rw [writeThrough_cons, writeThrough_cons, writeThrough_cons, h.write?_of_tidy hx he,
    h.enclosing, Option.or_assoc]

/-- A context that took a contribution over shows of an accumulator what the contribution showed
over it, if the pending delta that it joins one to is to be combined by the operation of the
accumulator. -/
theorem Adopted.seenAlike_of_tidy {cell : Cell V} {op : V → V → V} (h : x.Adopted e y)
    (hx : x.Tidy types) (he : e.Within (.typed types))
    (hop : ∀ u v w, op (op u v) w = op u (op v w)) (hm : x.deltas.Merges e.deltas)
    (hc : ∀ a d, x.deltas.get? cell.id = some a → e.deltas.get? cell.id = some d →
      a.CombinesBy op) :
    SeenAlike cell op (e.layer :: x.layers) y.layers := by
  unfold layers
  rw [h.enclosing]
  exact .joined hop (h.write?_of_tidy hx he _) (h.deltas _)
    (fun a d ha hd => (hc a d ha hd).delta?_join (hm _ a d ha hd) _) x.enclosing

/-- A child with nothing pending reads an accumulator as a context that shows the same. -/
theorem fst_get_child {cell : Cell V} {op : V → V → V} {below : List (Layer V)}
    (hs : SeenAlike cell op below y.layers) (hn : y.snapshot = x.snapshot) (ha : y.status = .active)
    (kind : ChildKind) (mode : Mode) :
    ((x.child kind mode below none).get cell op).1 = (y.get cell op).1 := by
  have hchild : SeenAlike cell op (x.child kind mode below none).layers below :=
    seenAlike_cons_of_none rfl rfl below op
  have hread := (read_seen (z := x.child kind mode below none) ha rfl hn.symm
    (hs.write.symm.trans hchild.write.symm)).1
  rw [fst_get, fst_get, hread, hchild.deltas, hs.deltas]

end Context

/-- The batch over the context `x` reads like the context `y`. Of every cell the same write is
pending, and every accumulator is folded to the same value, if its operation is associative and is
that of the delta which `x` holds where the batch holds one too. -/
structure Batch.ReadsLike (b : Batch V) (x y : Context V) : Prop where
  write : ∀ c, writeThrough (b.layers x.layers) c = y.writeFor c
  pending : ∀ (cell : Cell V) (op : V → V → V), (∀ u v w, op (op u v) w = op u (op v w)) →
    (∀ a d, x.deltas.get? cell.id = some a → b.merged.deltas.get? cell.id = some d →
      a.CombinesBy op) → pendingOn (b.layers x.layers) cell op = pendingOn y.layers cell op
  get : ∀ (cell : Cell V) (op : V → V → V), (∀ u v w, op (op u v) w = op u (op v w)) →
    (∀ a d, x.deltas.get? cell.id = some a → b.merged.deltas.get? cell.id = some d →
      a.CombinesBy op) → ∀ kind mode,
        ((x.child kind mode (b.layers x.layers) none).get cell op).1 = (y.get cell op).1

/-- A batch over a context that may write reads like that context after it took the batch over,
which it can do unless the deltas that both hold for some cell do not merge. The batch marks as
written what it holds a change for, and a clash is reported just where such a cell was asked for or
written. -/
theorem gathered_reads_as_adopted (hx : x.Arises types) (hmode : x.mode ≠ .readOnly)
    (hb : b.Gathers types es) :
    ((∃ y, x.adopt b.merged = (.ok (), y)) ↔ ∀ c a d, x.deltas.get? c = some a →
      b.merged.deltas.get? c = some d → ∃ m, a.merge d = .ok m) ∧
    (∀ y, x.adopt b.merged = (.ok (), y) → b.ReadsLike x y) ∧ b.Marked es ∧
    ∀ e, ((b.clash e).isSome = true ↔ ∃ c, e.Concerns c ∧ b.merged.Changes c) ∧
      ∀ c, b.clash e = some c → e.Concerns c ∧ b.merged.Changes c := by
  have htidy := hx.tidy
  have hwithin := hb.within
  refine ⟨htidy.exists_adopt_iff hwithin hmode, fun y hy => ?_, hb.marked, hb.marked.clash⟩
  have hadopted : x.Adopted b.merged y := htidy.adopted_of_adopt hwithin hmode hy
  have hseen : ∀ (cell : Cell V) (op : V → V → V), (∀ u v w, op (op u v) w = op u (op v w)) →
      (∀ a d, x.deltas.get? cell.id = some a → b.merged.deltas.get? cell.id = some d →
        a.CombinesBy op) → SeenAlike cell op (b.layers x.layers) y.layers := fun _ _ hop hc =>
    hadopted.seenAlike_of_tidy htidy hwithin hop (Context.merges_of_adopt hy) hc
  refine ⟨hadopted.writeFor_eq htidy hwithin, fun cell op hop hc => (hseen cell op hop hc).deltas,
    fun cell op hop hc => ?_⟩
  exact Context.fst_get_child (hseen cell op hop hc) (congrArg Life.snapshot hadopted.life)
    ((congrArg Life.status hadopted.life).trans htidy.active)

/-- A context that put 5, under a shared write of 100 and a put of 3: the accumulator shows 108. -/
theorem gathered_write_and_put :
    let types : CellId → ContentType := fun _ => 0
    let cell : Cell Nat := .create ⟨1⟩ 0 0
    let x := ((Context.begin ⟨1⟩ 0 ⟨0, 0⟩ .readWrite).put cell (· + ·) 5).2
    let u := ((x.child (.task .shared) .readWrite x.layers (some ∅)).write cell 100).2
    let z := ((x.child (.task .checked) .readWrite x.layers none).put cell (· + ·) 3).2
    ∃ ws e, ∃ b : Batch Nat, ∃ y, u.shared = some ws ∧ z.contribution? = .ok e ∧
      x.Arises types ∧ x.mode ≠ .readOnly ∧ b.Gathers types [{ writes := ws }, e] ∧
      x.adopt b.merged = (.ok (), y) ∧ (y.get cell (· + ·)).1 = .ok 108 ∧
      ((x.child .nested .readWrite (b.layers x.layers) none).get cell (· + ·)).1 = .ok 108 := by
  intro types cell x u z
  have hx : x.Arises types := .stage _ _ (.begin ..)
  have hu : u.Arises types := .write 100 rfl (.child _ _ _ (.inr rfl) hx)
  have hz : z.Arises types := .stage _ _ (.child _ _ _ (.inl rfl) hx)
  have hb := Batch.Gathers.add hz rfl rfl (.addWrites hu rfl rfl .start)
  refine ⟨_, _, _, _, rfl, rfl, hx, by decide, hb, rfl, rfl, ?_⟩
  obtain ⟨-, hread, -⟩ := gathered_reads_as_adopted hx (by decide) hb
  refine (hread _ rfl).get cell (· + ·) Nat.add_assoc (fun a d ha _ => ?_) .nested .readWrite
  -- the pending delta of the context is to be added
  cases ha
  rintro op' delta ⟨⟩
  rfl

/-- Where the context had put a delta that combines otherwise, a batch over it may show another
value of an accumulator than the context shows after it took the batch over, though both operations
are associative: the context combines the delta of the batch with its own one first. -/
theorem gathered_ne_adopted :
    let types : CellId → ContentType := fun _ => 0
    let cell : Cell Nat := .create ⟨1⟩ 0 0
    let x := ((Context.begin ⟨1⟩ 0 ⟨0, 0⟩ .readWrite).put cell (· + ·) 5).2
    let z := ((x.child (.task .checked) .readWrite x.layers none).put cell max 7).2
    (∀ u v w : Nat, max (max u v) w = max u (max v w)) ∧
      ∃ e, ∃ b : Batch Nat, ∃ y, z.contribution? = .ok e ∧ x.Arises types ∧
        x.mode ≠ .readOnly ∧ b.Gathers types [e] ∧ x.adopt b.merged = (.ok (), y) ∧
        ((x.child .nested .readWrite (b.layers x.layers) none).get cell max).1 = .ok 7 ∧
        (y.get cell max).1 = .ok 12 := by
  intro types cell x z
  have hx : x.Arises types := .stage _ _ (.begin ..)
  have hz : z.Arises types := .stage _ _ (.child _ _ _ (.inl rfl) hx)
  have hb := Batch.Gathers.add hz rfl rfl .start
  exact ⟨Nat.max_assoc, _, _, _, rfl, hx, by decide, hb, rfl, rfl, rfl⟩

end VersionedMemory
