import VersionedMemory.Proofs.BufferContents
import VersionedMemory.Proofs.Overlay
import VersionedMemory.Proofs.Publication

/-!
# What accumulators show

What reading an accumulator answers is made of the pending write, or the committed value, and of the
pending deltas, the outermost first. It is a matter of the buffers that the context reads through,
and of the snapshot. The buffers of a child over those of its parent show what the parent shows
after it took the child over, if the operation is associative; and a task of a batch over what was
merged before it shows what the batch shows after it was merged too. A top-level transaction shows
what a commit makes of the committed value that it reads.

## Main definitions

* `Cell.shown` is what is shown of an accumulator over a stack of buffers.
* `Context.Lies` says over which buffers a context lies.

## Main statements

* `Context.get_eq_ok_iff`: reading an accumulator answers what is shown.
* `Context.Adopted.shows` and `Batch.Joined.shows`: what is taken over shows as before.
* `Context.Suits.shown_of_alone`: what a top-level transaction shows.
-/

namespace VersionedMemory

variable {V : Type}

/-- What reading an accumulator on the cell gives over the buffers, at a snapshot. -/
def Cell.shown (cell : Cell V) (op : V → V → V) (n : Version) (layers : List (Layer V)) :
    Option V :=
  let base := match writeThrough layers cell.id with
    | some a => a.assigned? cell.type
    | none => (cell.readAt n).toOption.map Record.value
  base.bind fun value => (pendingOn layers cell op).map fun f => f value

def Contribution.layer (e : Contribution V) : Layer V := { writes := e.writes, deltas := e.deltas }

theorem SeenAlike.shown_eq {cell : Cell V} {op : V → V → V} {l l' : List (Layer V)}
    (h : SeenAlike cell op l l') (n : Version) : cell.shown op n l = cell.shown op n l' := by
  unfold Cell.shown
  rw [h.write, h.deltas]

namespace Context

/-- Reading an accumulator on an active context answers what is shown, or fails. -/
theorem get_eq_ok_iff {x : Context V} (ha : x.status = .active) {cell : Cell V} {op : V → V → V}
    {value : V} :
    (x.get cell op).1 = .ok value ↔ cell.shown op x.snapshot x.layers = some value := by
  -- what a read answers of the base, whatever it records
  have hread : (x.read cell).1.toOption = match x.writeFor cell.id with
      | some a => a.assigned? cell.type
      | none => (cell.readAt x.snapshot).toOption.map Record.value := by
    unfold read valueFor
    simp only [checkActive_eq_ok ha, writeFor_touch, snapshot_touch]
    cases x.writeFor cell.id with
    | some a => cases hv : a.assigned? cell.type <;> simp [hv, Except.toOption]
    | none => cases cell.readAt x.snapshot <;> rfl
  have hshown : cell.shown op x.snapshot x.layers = (x.read cell).1.toOption.bind fun value =>
      (pendingOn x.layers cell op).map fun f => f value := by
    rw [hread]
    rfl
  rw [hshown, fst_get]
  rcases (x.read cell).1 with e | base
  · simp [Except.bind, Except.toOption]
  · cases pendingOn x.layers cell op <;> simp [Except.bind, Except.toOption]

theorem layers_get (x : Context V) (cell : Cell V) (op : V → V → V) :
    (x.get cell op).2.layers = x.layers := by
  obtain ⟨_, _, -, hx⟩ := x.read_changes cell
  rw [snd_get, hx]
  rfl

end Context

/-! ### How buffers lie -/

namespace Context

/-- The context lies over the buffers, and has a shared buffer or not. Where it has one, it keeps no
writes of its own. -/
structure Lies (below : List (Layer V)) (shares : Bool) (x : Context V) : Prop where
  enclosing : x.enclosing = below
  shared : x.shared.isSome = shares
  own : x.shared.isSome = true → x.writes = ∅

variable {below : List (Layer V)} {shares : Bool} {x y : Context V}

theorem lies_child (x : Context V) (kind : ChildKind) (mode : Mode) (below : List (Layer V))
    (shared : Option (WriteSet V)) :
    (x.child kind mode below shared).Lies below shared.isSome :=
  ⟨rfl, rfl, fun _ => rfl⟩

/-- Taking a contribution over leaves the buffers below a context, and whether it shares one. -/
theorem adopt_frame (x : Context V) (e : Contribution V) :
    (x.adopt e).2.enclosing = x.enclosing ∧ (x.adopt e).2.shared.isSome = x.shared.isSome ∧
      (x.shared.isSome = true → (x.adopt e).2.writes = x.writes) := by
  have hwrites : ∀ z : Context V, (z.bufferWrites e.writes).2.enclosing = z.enclosing ∧
      (z.bufferWrites e.writes).2.shared.isSome = z.shared.isSome ∧
      (z.shared.isSome = true → (z.bufferWrites e.writes).2.writes = z.writes) := by
    intro z
    unfold bufferWrites
    split
    · next b hb => exact ⟨rfl, by simp [hb], fun _ => rfl⟩
    · next hb => exact ⟨rfl, rfl, fun h => by simp [hb] at h⟩
  have hmode : ∀ z, (if e.hasWrites then x.forWriting else .ok x) = .ok z →
      z.enclosing = x.enclosing ∧ z.shared = x.shared ∧ z.writes = x.writes := by
    intro z hz
    split at hz
    · unfold forWriting at hz
      split at hz <;> cases hz
      exact ⟨rfl, rfl, rfl⟩
    · cases hz
      exact ⟨rfl, rfl, rfl⟩
  unfold adopt
  split
  · exact ⟨rfl, rfl, fun _ => rfl⟩
  · next z hz =>
    obtain ⟨he, hs, hw⟩ := hmode z hz
    obtain ⟨he', hs', hw', -⟩ := z.adoptReads_frame e
    obtain ⟨he'', hs'', hw''⟩ := hwrites (z.adoptReads e)
    have hlast : ((z.adoptReads e).bufferWrites e.writes).2.enclosing = x.enclosing ∧
        ((z.adoptReads e).bufferWrites e.writes).2.shared.isSome = x.shared.isSome ∧
        (x.shared.isSome = true →
          ((z.adoptReads e).bufferWrites e.writes).2.writes = x.writes) := by
      rw [he'', he', he, hs'', hs', hs]
      exact ⟨rfl, rfl, fun h => (hw'' (by rw [hs', hs]; exact h)).trans (hw'.trans hw)⟩
    split
    · next err u hu =>
      rw [hu] at hlast
      exact hlast
    · next u hu =>
      rw [hu] at hlast
      exact hlast

/-- No access moves a context away from the buffers that it lies over. -/
theorem Access.lies [Inhabited V] {s : Store V} (h : x.Access s y) (hx : x.Lies below shares) :
    y.Lies below shares := by
  have hread : ∀ cell : Cell V, (x.read cell).2.Lies below shares := by
    intro cell
    obtain ⟨_, _, -, hsame⟩ := x.read_changes cell
    rw [hsame]
    exact ⟨hx.enclosing, hx.shared, hx.own⟩
  have hstage : ∀ c a, (x.stage c a).2.Lies below shares := by
    intro c a
    rcases x.stage_changes c a with hsame | ⟨-, _, hsame⟩
    · rw [hsame]
      exact hx
    · rw [hsame]
      exact ⟨hx.enclosing, hx.shared, hx.own⟩
  cases h with
  | read c => exact hread _
  | get a =>
    rw [snd_get]
    exact hread _
  | write c value =>
    rcases x.write_changes (s.cell c) value with hsame | ⟨-, _, _, hsome, hown, hsame⟩
    · rw [hsame]
      exact hx
    · rw [hsame]
      refine ⟨hx.enclosing, hsome.trans hx.shared, fun hs => ?_⟩
      have hxs := hsome.symm.trans hs
      exact (hown hxs).trans (hx.own hxs)
  | put a delta => exact hstage _ _
  | stage under target value => exact hstage _ _
  | adopt e =>
    obtain ⟨he, hs, hw⟩ := x.adopt_frame e
    refine ⟨he.trans hx.enclosing, hs.trans hx.shared, fun hsome => ?_⟩
    have hxs := hs.symm.trans hsome
    exact (hw hxs).trans (hx.own hxs)

end Context

/-! ### What is taken over -/

variable [Inhabited V] {D : Discipline V} {s s' : Store V} {a : Accumulator V}

/-- What a snapshot shows of an accumulator, it shows as the store goes on. -/
theorem Store.Extends.shown_eq {n : Version} (h : s.Extends n s') {c : CellId} (hc : s.Has c)
    (op : V → V → V) (layers : List (Layer V)) :
    (s'.cell c).shown op n layers = (s.cell c).shown op n layers := by
  unfold Cell.shown pendingOn
  simp only [Store.id_cell, h.type c hc, h.readAt c hc]

/-- Deltas for the base join by the operation of the accumulator. -/
theorem Discipline.Combines.delta?_join (ha : D.Combines a) {b d : Change V}
    (hb : (D.on s).delta a.base b) (hd : (D.on s).delta a.base d) :
    (b.join d).delta? (s.cell a.base).type =
      (b.delta? (s.cell a.base).type).bind fun u =>
        (d.delta? (s.cell a.base).type).map (a.op u) := by
  obtain ⟨u, hu⟩ := ha b hb.1
  obtain ⟨v, hv⟩ := ha d hd.1
  simp [Change.delta?, Change.join, hu, hv, hb.2.2, hd.2.2]

theorem Discipline.Within.assigns (hD : D.Within (.plain V)) {c : CellId} {b : Change V}
    (h : (D.on s).write c b) : ∃ v, b = ⟨c, (s.cell c).type, .assign v⟩ := by
  obtain ⟨target, type, effect⟩ := b
  obtain ⟨hb, -, ht⟩ := h
  obtain ⟨htarget, v, hv⟩ := hD.write c _ hb
  dsimp only at ht htarget hv
  exact ⟨v, by rw [htarget, ht, hv]⟩

omit [Inhabited V] in
theorem Contribution.write?_layer (e : Contribution V) (c : CellId) :
    e.layer.write? c = e.writes.get? c := by
  simp [Contribution.layer, Layer.write?]

section

variable (hD : D.Within (.plain V)) (ha : D.Combines a)
  (hop : ∀ u v w, a.op (a.op u v) w = a.op u (a.op v w))

include hD ha hop

/-- What is handed over shows, over the context, what the context shows that took it over. -/
theorem Context.Adopted.shows {x y : Context V} {e : Contribution V} {below : List (Layer V)}
    {shares : Bool} (h : x.Adopted e y) (hx : x.Suits D s) (hl : x.Lies below shares)
    (he : e.Within (D.on s)) :
    SeenAlike (s.cell a.base) a.op (e.layer :: x.layers) y.layers := by
  have hwrite : y.layer.write? a.base =
      (e.layer.write? a.base).or (x.layer.write? a.base) := by
    rw [e.write?_layer]
    exact h.write?_layer hl.own (fun b hb => hD.assigns (hx.within.buffer _ b hb))
      fun b hb => hD.assigns (he.writes _ b hb)
  rw [← s.id_cell a.base] at hwrite
  unfold layers
  rw [h.enclosing]
  refine .joined hop hwrite (h.deltas _) (fun b d hb hd => ?_) x.enclosing
  rw [Store.id_cell] at hb hd
  exact ha.delta?_join (hx.within.deltas _ b hb) (he.deltas _ d hd)

/-- What a task hands over shows, over the batch before it, what the batch shows that took it in. -/
theorem Batch.Joined.shows {b b' : Batch V} {e : Contribution V} (h : b.Joined e b')
    (hb : b.merged.Within (D.on s)) (he : e.Within (D.on s)) (layers : List (Layer V)) :
    SeenAlike (s.cell a.base) a.op (e.layer :: b.layer :: layers) (b'.layer :: layers) := by
  have hwrite : b'.layer.write? a.base =
      (e.layer.write? a.base).or (b.layer.write? a.base) := by
    have hbatch : ∀ d : Batch V, d.layer.write? a.base = d.merged.writes.get? a.base :=
      fun d => d.merged.write?_layer a.base
    rw [e.write?_layer, hbatch, hbatch, h.writes]
    exact merge_join_of_assign (fun u hu => hD.assigns (hb.writes _ u hu))
      fun v hv => hD.assigns (he.writes _ v hv)
  rw [← s.id_cell a.base] at hwrite
  refine .joined hop hwrite (h.deltas _) (fun u v hu hv => ?_) layers
  rw [Store.id_cell] at hu hv
  exact ha.delta?_join (hb.deltas _ u hu) (he.deltas _ v hv)

end

/-! ### Top-level transactions -/

/-- A transaction over no buffers but its own shows what its commit makes of the value that the
snapshot sees. -/
theorem Context.Suits.shown_of_alone {x : Context V} (hD : D.Within (.plain V))
    (ha : D.Combines a) (hx : x.Suits D s) (hl : x.Lies [] false) {r : Record V}
    (hr : (s.cell a.base).readAt x.snapshot = .ok r) :
    (s.cell a.base).shown a.op x.snapshot x.layers = some (x.resultAt a.base r.value) := by
  have hlayers : x.layers = [x.layer] := by simp [Context.layers, hl.enclosing]
  have hshared : x.shared = none := by simpa using hl.shared
  have hwrite : x.layer.write? a.base = x.writes.get? a.base := by
    simp [Layer.write?, layer, hshared]
  -- the value that the deltas are folded over
  have hbase : (match writeThrough x.layers a.base with
      | some b => b.assigned? (s.cell a.base).type
      | none => (((s.cell a.base).readAt x.snapshot).toOption.map Record.value)) =
        some ((x.writes.get? a.base).elim r.value (·.effect.apply r.value)) := by
    rw [hlayers, writeThrough_cons, hwrite, hr]
    cases hw : x.writes.get? a.base with
    | none => rfl
    | some b =>
      obtain ⟨hb, -, ht⟩ := hx.within.writes _ b hw
      obtain ⟨-, v, hv⟩ := hD.write _ b hb
      simp [Change.assigned?, hv, ht, Effect.apply]
  unfold Cell.shown
  rw [Store.id_cell, hbase, hlayers]
  unfold resultAt
  cases hd : x.deltas.get? a.base with
  | none =>
    have hnone : x.layer.deltas.get? (s.cell a.base).id = none := by
      rw [Store.id_cell]
      exact hd
    rw [pendingOn_cons_of_none hnone]
    simp [pendingOn, deltasThrough, combined]
  | some d =>
    have hsome : x.layer.deltas.get? (s.cell a.base).id = some d := by
      rw [Store.id_cell]
      exact hd
    obtain ⟨hd, -, ht⟩ := hx.within.deltas _ d hd
    obtain ⟨v, hv⟩ := ha d hd
    rw [pendingOn_cons_of_some hsome]
    simp [pendingOn, deltasThrough, combined, Change.delta?, hv, ht, Effect.apply]

end VersionedMemory
