import VersionedMemory.Proofs.Footprint

/-!
# What a batch shows over the context that opened it

A task that runs again reads through the merged changes of the tasks before it, which lie over the
context that opened the batch. This shows the same of every cell as the context does that took the
batch over; and of a cell that the batch does not change, the context shows the same as before.

## Main definitions

* `Context.Lawful` is the discipline of contexts that programs were run on.
* `Context.Matches` says that two contexts hold the same.

## Main statements

* `Context.Adopted.seenAlike`: a batch over a context shows what the context shows that took it
  over.
-/

namespace VersionedMemory

variable {V : Type}

/-- Where writes replace, a later one covers an earlier one. -/
theorem merge_join_of_assign {c : CellId} {t : ContentType} {o p : Option (Change V)}
    (ho : ∀ a, o = some a → ∃ v, a = ⟨c, t, .assign v⟩)
    (hp : ∀ a, p = some a → ∃ v, a = ⟨c, t, .assign v⟩) : o.merge Change.join p = p.or o := by
  cases o with
  | none => simp
  | some a =>
    cases p with
    | none => rfl
    | some b =>
      obtain ⟨v, rfl⟩ := ho a rfl
      obtain ⟨w, rfl⟩ := hp b rfl
      rfl

namespace Context

variable [Inhabited V] {s : Store V} {ops : CellId → V → V → V} {x y : Context V}
  {e : Contribution V} {b : Batch V}

/-- The writes of the context are of the types of their cells, its deltas combine by the operations
of their cells or were staged by hand, and it has no writes of its own where they go to a shared
buffer. -/
structure Lawful (s : Store V) (ops : CellId → V → V → V) (x : Context V) : Prop where
  within : x.Within (s.mixed ops)
  own : x.shared.isSome = true → x.writes = ∅

theorem lawful_begin (id : TxnId) (engine : EngineId) (anchor : Anchor) (mode : Mode) :
    (begin id engine anchor mode : Context V).Lawful s ops :=
  ⟨within_begin .., fun _ => rfl⟩

theorem lawful_child (x : Context V) (kind : ChildKind) (mode : Mode) (below : List (Layer V))
    {shared : Option (WriteSet V)} (h : ∀ ws, shared = some ws → ws.All (s.uniform ops).write) :
    (x.child kind mode below shared).Lawful s ops :=
  ⟨within_child x kind mode below h, fun _ => rfl⟩

theorem Lawful.call {α : Type} {f : Context V → Except Error α × Context V}
    (h : x.Lawful s ops) (hf : Call s ops f) : (f x).2.Lawful s ops := by
  refine ⟨hf.within (fun _ v => ⟨v, rfl⟩) (fun _ v => .inl ⟨v, rfl⟩) h.within, fun hs => ?_⟩
  cases hf with
  | read c =>
    obtain ⟨hw, -, hsh⟩ := x.read_frame (s.cell c)
    exact hw.trans (h.own (hsh ▸ hs))
  | get c =>
    rw [snd_get] at hs ⊢
    obtain ⟨hw, -, hsh⟩ := x.read_frame (s.cell c)
    exact hw.trans (h.own (hsh ▸ hs))
  | write c value =>
    rcases x.write_changes (s.cell c) value with hx | ⟨-, _, _, hsome, hown, hx⟩
    · rw [hx] at hs ⊢
      exact h.own hs
    · rw [hx] at hs ⊢
      have hxs := hsome.symm.trans hs
      exact (hown hxs).trans (h.own hxs)
  | put c delta =>
    obtain ⟨hw, hsh⟩ := x.stage_frame (s.cell c).id
      ⟨(s.cell c).id, (s.cell c).type, .combine (ops c) delta⟩
    exact hw.trans (h.own (hsh ▸ hs))

omit [Inhabited V] in
/-- A context finds its own writes in the buffer that takes them, if it has them nowhere else. -/
theorem write?_layer_of_own (h : x.shared.isSome = true → x.writes = ∅) (c : CellId) :
    x.layer.write? c = x.buffer.get? c := by
  unfold Layer.write? layer buffer
  cases hs : x.shared with
  | none => simp
  | some ws => simp [h (by simp [hs])]

omit [Inhabited V] in
/-- What was taken over covers the pending write of a cell, if both assign values of one type. -/
theorem Adopted.write?_layer (h : x.Adopted e y) (hown : x.shared.isSome = true → x.writes = ∅)
    {c : CellId} {t : ContentType}
    (hx : ∀ a, x.buffer.get? c = some a → ∃ v, a = ⟨c, t, .assign v⟩)
    (he : ∀ a, e.writes.get? c = some a → ∃ v, a = ⟨c, t, .assign v⟩) :
    y.layer.write? c = (e.writes.get? c).or (x.layer.write? c) := by
  have hyown : y.shared.isSome = true → y.writes = ∅ := fun hs => by
    rw [h.shared] at hs
    exact (h.own hs).trans (hown hs)
  rw [write?_layer_of_own hyown, write?_layer_of_own hown, h.writes]
  exact merge_join_of_assign hx he

theorem Lawful.write?_layer (h : x.Lawful s ops) (c : CellId) :
    x.layer.write? c = x.buffer.get? c :=
  write?_layer_of_own h.own c

theorem Lawful.adopt (h : x.Lawful s ops) (he : e.Within (s.uniform ops))
    (ha : x.adopt e = (.ok (), y)) (hy : x.Adopted e y) : y.Lawful s ops := by
  refine ⟨?_, fun hs => ?_⟩
  · have hw := h.within.adopt ⟨he.writes, fun c a hc => .inl (he.deltas c a hc)⟩
    rwa [ha] at hw
  · have hxs : x.shared.isSome = true := hy.shared ▸ hs
    rw [hy.own hxs, h.own hxs]

/-- Nothing new shows of a cell that a contribution does not change. -/
theorem Adopted.seenAlike_of_none (h : x.Adopted e y) (hx : x.Lawful s ops) (hy : y.Lawful s ops)
    {c : CellId} (hw : e.writes.get? c = none) (hd : e.deltas.get? c = none) :
    SeenAlike (s.cell c) (ops c) x.layers y.layers := by
  have hwrite : y.layer.write? c = x.layer.write? c := by
    rw [hx.write?_layer, hy.write?_layer, h.writes, hw, Option.merge_none_right]
  have hdelta : y.layer.deltas.get? c = x.layer.deltas.get? c := by
    refine (h.deltas c).trans ?_
    rw [hd, Option.merge_none_right]
    rfl
  refine ⟨?_, ?_⟩
  · simp [layers, writeThrough_cons, hwrite, h.enclosing]
  · simp [pendingOn, deltasThrough, layers, List.filterMap_cons, hdelta, h.enclosing]

/-- A batch over a context shows what the context shows that took the batch over. -/
theorem Adopted.seenAlike (h : x.Adopted b.merged y)
    (hassoc : ∀ c u v w, ops c (ops c u v) w = ops c u (ops c v w)) (hx : x.Lawful s ops)
    (hy : y.Lawful s ops) (hb : b.merged.Within (s.uniform ops)) (c : CellId) :
    SeenAlike (s.cell c) (ops c) (b.layers x.layers) y.layers := by
  have hwrite : y.layer.write? c = (b.layer.write? c).or (x.layer.write? c) := by
    have hbatch : b.layer.write? c = b.merged.writes.get? c := by simp [Layer.write?, Batch.layer]
    rw [hy.write?_layer, hx.write?_layer, h.writes, hbatch]
    exact merge_join_of_assign (hx.within.buffer c) (hb.writes c)
  rw [← s.id_cell c] at hwrite
  unfold layers
  rw [h.enclosing]
  refine .joined (hassoc c) hwrite (h.deltas _) (fun d d' hd hd' => ?_) x.enclosing
  obtain ⟨w, rfl⟩ := hb.deltas _ d' hd'
  rcases hx.within.deltas _ d hd with ⟨v, rfl⟩ | ⟨v, hv⟩
  · simp [Change.delta?, Change.join]
  · simp [Change.delta?, Change.join, hv]

omit [Inhabited V] in
theorem Accepts.anti {e e' : Contribution V} (h : x.Accepts e')
    (he : ∀ c, (e.deltas.get? c).isSome = true → (e'.deltas.get? c).isSome = true) : x.Accepts e :=
  fun c a ha hc => h c a ha (he c hc)

/-- What a batch takes in is accepted by the context that took the batch over, if the batch that
comes of it would have been accepted before. -/
theorem Accepts.of_joined {b' : Batch V} (h : x.Accepts b'.merged) (hx : x.Lawful s ops)
    (hxy : x.Adopted b.merged y) (hb : b.merged.Within (s.uniform ops)) (hj : b.Joined e b') :
    y.Accepts e := by
  intro c a ha he value hv
  have hsome : (b'.merged.deltas.get? c).isSome = true := by
    rw [hj.deltas]
    obtain ⟨d, hd⟩ := Option.isSome_iff_exists.1 he
    rw [hd]
    cases b.merged.deltas.get? c <;> rfl
  have hjoin := hxy.deltas c
  rw [ha] at hjoin
  cases hxc : x.deltas.get? c with
  | none =>
    rw [hxc, Option.merge_none_left] at hjoin
    obtain ⟨w, rfl⟩ := hb.deltas c a hjoin.symm
    cases hv
  | some d =>
    obtain ⟨u, rfl⟩ := h.uniform hx.within hxc hsome
    rw [hxc] at hjoin
    cases hbc : b.merged.deltas.get? c with
    | none =>
      rw [hbc] at hjoin
      cases hjoin
      cases hv
    | some d' =>
      obtain ⟨w, rfl⟩ := hb.deltas c d' hbc
      rw [hbc] at hjoin
      cases hjoin
      cases hv

/-- Two contexts hold the same. -/
structure Matches (x y : Context V) : Prop where
  life : y.life = x.life
  mode : y.mode = x.mode
  asked : ∀ c, c ∈ y.asked ↔ c ∈ x.asked
  reads : ∀ c, y.reads.get? c = x.reads.get? c
  writes : ∀ c, y.writes.get? c = x.writes.get? c
  shared : ∀ c, y.shared.map (Table.get? · c) = x.shared.map (Table.get? · c)
  deltas : ∀ c, y.deltas.get? c = x.deltas.get? c
  enclosing : y.enclosing = x.enclosing

omit [Inhabited V] in
/-- What a context holds after it took a contribution over is settled by the contribution. -/
theorem Adopted.matches {z : Context V} (hy : x.Adopted e y) (hz : x.Adopted e z) :
    y.Matches z := by
  have hbuffer : ∀ c, z.buffer.get? c = y.buffer.get? c := fun c =>
    (hz.writes c).trans (hy.writes c).symm
  refine ⟨hz.life.trans hy.life.symm, hz.mode.trans hy.mode.symm,
    fun c => (hz.asked c).trans (hy.asked c).symm, fun c => (hz.reads c).trans (hy.reads c).symm,
    fun c => ?_, fun c => ?_, fun c => (hz.deltas c).trans (hy.deltas c).symm,
    hz.enclosing.trans hy.enclosing.symm⟩
  · cases hs : x.shared.isSome with
    | true => rw [hz.own hs, hy.own hs]
    | false =>
      have hys : y.shared = none := by simpa [hs] using hy.shared
      have hzs : z.shared = none := by simpa [hs] using hz.shared
      simpa [buffer, hys, hzs] using hbuffer c
  · have hss := hz.shared.trans hy.shared.symm
    have hc := hbuffer c
    unfold buffer at hc
    cases hys : y.shared <;> cases hzs : z.shared <;> simp_all

end Context

end VersionedMemory
