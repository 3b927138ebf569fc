import VersionedMemory.Proofs.Accesses
import VersionedMemory.Proofs.ProgramSteps
import VersionedMemory.Proofs.ReadSets

/-!
# Buffers that suit the cells

A pending change is of the type of its cell, and the cell is there. As cells keep their types, this
stays so while the store goes on, and it is what keeps accesses from failing: a pending write
answers a read, pending deltas answer the read of an accumulator, and later changes merge with
earlier ones. All that is left to refuse a change is the mode of the context.

## Main definitions

* `Discipline.on` adds to a discipline that changes suit the cells of a store.
* `Store.Extends` says that a store goes on from another one, as a snapshot sees it.
* `Context.Suits` says that all that a context reads through suits the cells.

## Main statements

* `Scene.Leads.store_extends`: in a run the store goes on, for every snapshot that stays live.
* `Context.Suits.read_ok` and `Context.Suits.get_ok`: reads are answered.
* `Context.Suits.adopt`: what a child hands over is taken over, unless it may not be written.
-/

namespace VersionedMemory

variable {V : Type}

/-! ### Disciplines -/

/-- What the first discipline allows the second one allows. -/
structure Discipline.Within (D E : Discipline V) : Prop where
  write : ∀ c a, D.write c a → E.write c a
  delta : ∀ c a, D.delta c a → E.delta c a

/-- All that the layer holds is within a discipline. -/
structure Layer.Within (D : Discipline V) (l : Layer V) : Prop where
  writes : l.writes.All D.write
  deltas : l.deltas.All D.delta
  shared : ∀ ws, l.shared = some ws → ws.All D.write

section

variable {D E : Discipline V}

theorem Discipline.Within.refl (D : Discipline V) : D.Within D := ⟨fun _ _ h => h, fun _ _ h => h⟩

theorem Context.Within.mono {x : Context V} (h : x.Within D) (hD : D.Within E) : x.Within E :=
  ⟨fun c a ha => hD.write c a (h.writes c a ha), fun c a ha => hD.delta c a (h.deltas c a ha),
    fun ws hws c a ha => hD.write c a (h.shared ws hws c a ha)⟩

theorem Contribution.Within.mono {e : Contribution V} (h : e.Within D) (hD : D.Within E) :
    e.Within E :=
  ⟨fun c a ha => hD.write c a (h.writes c a ha), fun c a ha => hD.delta c a (h.deltas c a ha)⟩

theorem Layer.Within.mono {l : Layer V} (h : l.Within D) (hD : D.Within E) : l.Within E :=
  ⟨fun c a ha => hD.write c a (h.writes c a ha), fun c a ha => hD.delta c a (h.deltas c a ha),
    fun ws hws c a ha => hD.write c a (h.shared ws hws c a ha)⟩

theorem Context.Within.layer {x : Context V} (h : x.Within D) : x.layer.Within D :=
  ⟨h.writes, h.deltas, h.shared⟩

theorem Batch.within_layer {b : Batch V} (h : b.merged.Within D) : b.layer.Within D :=
  ⟨h.writes, h.deltas, nofun⟩

/-- A buffered write that shows through is one of a layer. -/
theorem writeThrough_within {layers : List (Layer V)} (h : ∀ l ∈ layers, l.Within D) {c : CellId}
    {a : Change V} (ha : writeThrough layers c = some a) : D.write c a := by
  obtain ⟨l, hl, hla⟩ := List.exists_of_findSome?_eq_some ha
  unfold Layer.write? at hla
  rcases Option.or_eq_some_iff.1 hla with hw | ⟨-, hs⟩
  · exact (h l hl).writes c a hw
  · obtain ⟨ws, hws, hget⟩ := Option.bind_eq_some_iff.1 hs
    exact (h l hl).shared ws hws c a hget

/-- Each buffered delta that shows through is one of a layer. -/
theorem deltasThrough_within {layers : List (Layer V)} (h : ∀ l ∈ layers, l.Within D) {c : CellId}
    {a : Change V} (ha : a ∈ deltasThrough layers c) : D.delta c a := by
  obtain ⟨l, hl, hla⟩ := List.mem_filterMap.1 ha
  exact (h l hl).deltas c a hla

end

/-! ### Cells that are there -/

variable [Inhabited V]

/-- The changes that a discipline allows of cells that are there, of the types of these cells. -/
def Discipline.on (D : Discipline V) (s : Store V) : Discipline V where
  write c a := D.write c a ∧ s.Has c ∧ a.type = (s.cell c).type
  delta c a := D.delta c a ∧ s.Has c ∧ a.type = (s.cell c).type
  write_merge := by
    rintro c a b d ⟨ha, hc, ht⟩ ⟨hb, -⟩ hm
    exact ⟨D.write_merge ha hb hm, hc, (Change.target_of_merge hm).2.trans ht⟩
  delta_merge := by
    rintro c a b d ⟨ha, hc, ht⟩ ⟨hb, -⟩ hm
    exact ⟨D.delta_merge ha hb hm, hc, (Change.target_of_merge hm).2.trans ht⟩

/-- The second store goes on from the first one, as the snapshot `n` sees them. -/
structure Store.Extends (s : Store V) (n : Version) (s' : Store V) : Prop where
  has : ∀ c, s.Has c → s'.Has c
  type : ∀ c, s.Has c → (s'.cell c).type = (s.cell c).type
  readAt : ∀ c, s.Has c → (s'.cell c).readAt n = (s.cell c).readAt n

variable {D : Discipline V} {s s' : Store V} {n : Version}

theorem Discipline.on_within (D : Discipline V) (s : Store V) : (D.on s).Within D :=
  ⟨fun _ _ h => h.1, fun _ _ h => h.1⟩

theorem Store.Extends.within (h : s.Extends n s') (D : Discipline V) :
    (D.on s).Within (D.on s') :=
  ⟨fun c _ ⟨ha, hc, ht⟩ => ⟨ha, h.has c hc, ht.trans (h.type c hc).symm⟩,
    fun c _ ⟨ha, hc, ht⟩ => ⟨ha, h.has c hc, ht.trans (h.type c hc).symm⟩⟩

/-- In a run the store goes on, for every snapshot that stays live. -/
theorem Scene.Leads.store_extends {s s' : Scene V} (h : s.Leads s') (hs : s.Sound) {l : Life}
    (hl : l ∈ s.lives) (hl' : l ∈ s'.lives) : s.store.Extends l.snapshot s'.store := by
  have hhas : ∀ c, s.store.Has c → s'.store.Has c :=
    fun c hc => ⟨hc.1, Nat.le_trans hc.2 h.precedes.created_le⟩
  refine ⟨hhas, h.precedes.type_eq, fun c hc => ?_⟩
  obtain ⟨r, hr, hat⟩ := World.Serves.readAt hs hl hc
  obtain ⟨r', hr', hat'⟩ := World.Serves.readAt h.sound hl' (hhas c hc)
  rw [h.precedes.newestAt_eq c hc _ (hs.anchors.snapshot_bounds hl).2, hr] at hr'
  cases hr'
  exact hat'.trans hat.symm

/-! ### Changes that merge -/

section

variable {ws new : WriteSet V}

/-- Assignments of the type of one cell merge. -/
theorem merges_writes_on (hD : D.Within (.plain V)) (hw : ws.All (D.on s).write)
    (hn : new.All (D.on s).write) : ws.Merges new := by
  intro c a b ha hb
  obtain ⟨ha, -, hta⟩ := hw c a ha
  obtain ⟨hb, -, htb⟩ := hn c b hb
  obtain ⟨-, v, hv⟩ := hD.write c a ha
  obtain ⟨-, w, hw⟩ := hD.write c b hb
  simp [Change.merge, Change.join, hv, hw, hta, htb]

/-- Deltas of the type of one cell merge. -/
theorem merges_deltas_on (hD : D.Within (.plain V)) (hw : ws.All (D.on s).delta)
    (hn : new.All (D.on s).delta) : ws.Merges new := by
  intro c a b ha hb
  obtain ⟨ha, -, hta⟩ := hw c a ha
  obtain ⟨hb, -, htb⟩ := hn c b hb
  obtain ⟨-, op, v, hv⟩ := hD.delta c a ha
  obtain ⟨-, op', w, hw⟩ := hD.delta c b hb
  simp [Change.merge, Change.join, hv, hw, hta, htb]

end

/-! ### Contexts -/

namespace Context

/-- All that the context reads through suits the cells. -/
structure Suits (D : Discipline V) (s : Store V) (x : Context V) : Prop where
  within : x.Within (D.on s)
  below : ∀ l ∈ x.enclosing, l.Within (D.on s)

variable {x y : Context V} {e : Contribution V} {c : CellId}

theorem Suits.layers (h : x.Suits D s) : ∀ l ∈ x.layers, l.Within (D.on s) :=
  List.forall_mem_cons.2 ⟨h.within.layer, h.below⟩

theorem Suits.mono (h : x.Suits D s) (hs : s.Extends n s') : x.Suits D s' :=
  ⟨h.within.mono (hs.within D), fun l hl => (h.below l hl).mono (hs.within D)⟩

/-- A pending write answers for the type of its cell. -/
theorem Suits.valueFor_ok (hD : D.Within (.plain V)) (h : x.Suits D s) (c : CellId) :
    ∃ o, x.valueFor c (s.cell c).type = .ok o := by
  unfold valueFor
  cases ha : x.writeFor c with
  | none => exact ⟨none, rfl⟩
  | some a =>
    obtain ⟨hw, -, ht⟩ := writeThrough_within h.layers ha
    obtain ⟨-, v, hv⟩ := hD.write c a hw
    exact ⟨some v, by simp [Change.assigned?, hv, ht]⟩

/-- Every pending delta answers for the type of its cell. -/
theorem Suits.deltas_ok (hD : D.Within (.plain V)) (h : x.Suits D s) (c : CellId) :
    ∃ ds, (x.deltasFor c).mapM (·.delta? (s.cell c).type) = some ds := by
  have hall : ∀ a ∈ x.deltasFor c, ∃ d, a.delta? (s.cell c).type = some d := by
    intro a hmem
    obtain ⟨hd, -, ht⟩ := deltasThrough_within h.layers hmem
    obtain ⟨-, op, d, hd⟩ := hD.delta c a hd
    exact ⟨d, by simp [Change.delta?, hd, ht]⟩
  generalize x.deltasFor c = l at hall
  induction l with
  | nil => exact ⟨[], rfl⟩
  | cons a rest ih =>
    obtain ⟨⟨d, hd⟩, hrest⟩ := List.forall_mem_cons.1 hall
    obtain ⟨ds, hds⟩ := ih hrest
    exact ⟨d :: ds, by simp [hd, hds]⟩

/-- A read is answered where the snapshot sees the cell. -/
theorem Suits.read_ok (hD : D.Within (.plain V)) (h : x.Suits D s) (ha : x.status = .active)
    {r : Record V} (hr : (s.cell c).readAt x.snapshot = .ok r) :
    ∃ v, (x.read (s.cell c)).1 = .ok v := by
  obtain ⟨o, ho⟩ := h.valueFor_ok hD c
  have ho' : (x.touch c).valueFor c (s.cell c).type = .ok o := by
    unfold valueFor at ho ⊢
    rwa [writeFor_touch]
  unfold read
  simp only [checkActive_eq_ok ha, Store.id_cell, ho', snapshot_touch, hr]
  cases o with
  | none => exact ⟨r.value, rfl⟩
  | some v => exact ⟨v, rfl⟩

/-- The read of an accumulator is answered where the snapshot sees its base. -/
theorem Suits.get_ok (hD : D.Within (.plain V)) (h : x.Suits D s) (ha : x.status = .active)
    {r : Record V} (hr : (s.cell c).readAt x.snapshot = .ok r) (op : V → V → V) :
    ∃ v, (x.get (s.cell c) op).1 = .ok v := by
  obtain ⟨v, hv⟩ := h.read_ok hD ha hr
  have hlayers : (x.read (s.cell c)).2.deltasFor c = x.deltasFor c := by
    obtain ⟨_, _, -, hread⟩ := x.read_changes (s.cell c)
    rw [hread]
    rfl
  obtain ⟨ds, hds⟩ := h.deltas_ok hD c
  unfold get
  rcases hread : x.read (s.cell c) with ⟨r, y⟩
  rw [hread] at hv hlayers
  obtain rfl : r = .ok v := hv
  dsimp only at hlayers ⊢
  rw [Store.id_cell, hlayers, hds]
  exact ⟨_, rfl⟩

omit [Inhabited V] in
/-- Changes that merge are taken over, unless they may not be made. -/
theorem adopt_of_merges (hw : x.buffer.Merges e.writes) (hd : x.deltas.Merges e.deltas) :
    (∃ y, x.adopt e = (.ok (), y) ∧ x.Adopted e y) ∨
      e.hasWrites = true ∧ x.adopt e = (.error (.illegal (.writeInReadOnly x.id)), x) := by
  by_cases hm : e.hasWrites = true → x.mode ≠ .readOnly
  · exact .inl (exists_adopt_of_merges hw hd hm)
  · obtain ⟨hany, hro⟩ := Classical.not_imp.1 hm
    refine .inr ⟨hany, ?_⟩
    simp [adopt, hany, forWriting, Classical.not_not.1 hro, Mode.onWrite]

/-- What a child hands over is taken over, unless it may not be written. -/
theorem Suits.adopt (hD : D.Within (.plain V)) (h : x.Suits D s) (he : e.Within (D.on s)) :
    (∃ y, x.adopt e = (.ok (), y) ∧ x.Adopted e y ∧ y.Suits D s) ∨
      e.hasWrites = true ∧ x.adopt e = (.error (.illegal (.writeInReadOnly x.id)), x) := by
  have hw := h.within.adopt he
  rcases adopt_of_merges (merges_writes_on hD h.within.buffer he.writes)
    (merges_deltas_on hD h.within.deltas he.deltas) with ⟨y, hy, hadopted⟩ | hill
  · rw [hy] at hw
    exact .inl ⟨y, hy, hadopted, hw, hadopted.enclosing ▸ h.below⟩
  · exact .inr hill

end Context

/-- A batch takes in what suits the cells. -/
theorem Batch.add_of_within {b : Batch V} {e : Contribution V} (hD : D.Within (.plain V))
    (hb : b.merged.Within (D.on s)) (he : e.Within (D.on s)) :
    ∃ b', b.add e = (.ok (), b') ∧ b.Joined e b' ∧ b'.merged.Within (D.on s) := by
  have hw := within_add hb he
  obtain ⟨b', hb', hj⟩ := exists_add_of_merges (merges_writes_on hD hb.writes he.writes)
    (merges_deltas_on hD hb.deltas he.deltas)
  rw [hb'] at hw
  exact ⟨b', hb', hj, hw⟩

/-- A batch takes in what shared tasks wrote, if it suits the cells. -/
theorem Batch.addWrites_of_within {b : Batch V} {ws : WriteSet V} (hD : D.Within (.plain V))
    (hb : b.merged.Within (D.on s)) (hw : ws.All (D.on s).write) :
    ∃ b', b.addWrites ws = (.ok (), b') ∧ b'.merged.reads = b.merged.reads ∧
      b'.merged.deltas = b.merged.deltas ∧ b'.merged.Within (D.on s) := by
  have hwithin := within_addWrites hb hw
  obtain ⟨ws', hws, -⟩ := WriteSet.exists_stageAll (merges_writes_on hD hb.writes hw)
  unfold addWrites at hwithin ⊢
  rw [hws] at hwithin ⊢
  exact ⟨_, rfl, rfl, rfl, hwithin⟩

end VersionedMemory
