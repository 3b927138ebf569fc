import VersionedMemory.Proofs.Buffers
import VersionedMemory.Proofs.Scene

/-!
# What a context takes over

A child that is merged changes the context below it cell by cell: its write replaces the pending
one, its delta is combined with the pending one, and its reads are recorded where none is recorded
yet. Merging two contributions into a batch does the same cell by cell. So it makes no difference
whether a context takes over two contributions one after the other or both as one batch, as long as
the deltas of one cell are combined by one associative operation.

## Main definitions

* `Change.join` is two changes to one cell as one.
* `Discipline.uniform` allows writes of the type of their cell, and deltas with the operation that
  belongs to their cell; `Discipline.mixed` allows changes staged by hand beside such deltas.
* `Context.Adopted` says what a context is after it took a contribution over, cell by cell.
* `Batch.Joined` says what a batch is after it took a contribution in.

## Main statements

* `Context.exists_adopt`: a contribution is taken over unless it writes where writes are illegal, or
  has a delta for a cell with a change staged by hand.
* `Context.Adopted.trans`: two contributions may be taken over one after the other or as one.
-/

namespace VersionedMemory

variable {V : Type}

/-- Two changes to one cell as one; the later one has to be of the kind of the earlier one. -/
def Change.join (a b : Change V) : Change V :=
  match a.effect, b.effect with
  | .assign _, .assign value => { a with effect := .assign value }
  | .combine op delta, .combine _ delta' => { a with effect := .combine op (op delta delta') }
  | .assign _, .combine .. | .combine .., .assign _ => a

theorem Change.eq_join_of_merge {a b d : Change V} (h : a.merge b = .ok d) : d = a.join b := by
  unfold merge at h
  unfold join
  grind

/-- Writes assign values of the type of their cell, and deltas combine with the operation that
belongs to it. -/
def Discipline.uniform (types : CellId → ContentType) (ops : CellId → V → V → V) :
    Discipline V where
  write c a := ∃ value, a = ⟨c, types c, .assign value⟩
  delta c a := ∃ delta, a = ⟨c, types c, .combine (ops c) delta⟩
  write_merge := by
    rintro c _ _ d ⟨v, rfl⟩ ⟨w, rfl⟩ hm
    simp only [Change.merge, if_true, Except.ok.injEq] at hm
    exact ⟨w, hm.symm⟩
  delta_merge := by
    rintro c _ _ d ⟨v, rfl⟩ ⟨w, rfl⟩ hm
    simp only [Change.merge, if_true, Except.ok.injEq] at hm
    exact ⟨_, hm.symm⟩

/-- As `Discipline.uniform`, but beside deltas there may be assignments, which were staged by hand
for any cell. -/
def Discipline.mixed (types : CellId → ContentType) (ops : CellId → V → V → V) : Discipline V where
  write := (uniform types ops).write
  delta c a := (uniform types ops).delta c a ∨ ∃ value, a.effect = .assign value
  write_merge := (uniform types ops).write_merge
  delta_merge := by
    rintro c a b d ha (⟨w, rfl⟩ | ⟨w, hb⟩) hm
    · rcases ha with ha | ⟨v, ha⟩
      · exact .inl ((uniform types ops).delta_merge ha ⟨w, rfl⟩ hm)
      · simp [Change.merge, ha] at hm
    · rcases ha with ⟨v, rfl⟩ | ⟨v, ha⟩
      · simp [Change.merge, hb] at hm
      · exact .inr ⟨w, Change.effect_of_merge_assign ha hb hm⟩

namespace WriteSet

/-- Every new change merges with the one that is there for its cell, if one is. -/
def Merges (ws new : WriteSet V) : Prop :=
  ∀ c a b, Table.get? ws c = some a → Table.get? new c = some b → a.merge b = .ok (a.join b)

theorem stage_of_merges {ws : WriteSet V} {k : CellId} {a : Change V}
    (h : ∀ b, Table.get? ws k = some b → b.merge a = .ok (b.join a)) :
    ∃ ws', ws.stage k a = .ok ws' ∧ ∀ c, Table.get? ws' c =
      if c = k then (Table.get? ws c).merge Change.join (some a) else Table.get? ws c := by
  unfold stage
  cases hk : Table.get? ws k with
  | none =>
    refine ⟨_, rfl, fun c => ?_⟩
    rw [Table.get?_insert]
    split
    · next hc => rw [hc, hk, Option.merge_none_left]
    · rfl
  | some earlier =>
    refine ⟨ws.insert k (earlier.join a), by simp [h earlier hk, Except.map], fun c => ?_⟩
    rw [Table.get?_insert]
    split
    · next hc => rw [hc, hk, Option.merge_some_some]
    · rfl

/-- Staging the changes of a table merges it in, cell by cell. -/
theorem stageAll_of_merges {l : List (CellId × Change V)} (hl : (l.map Prod.fst).Nodup)
    {ws : WriteSet V}
    (h : ∀ e ∈ l, ∀ b, Table.get? ws e.1 = some b → b.merge e.2 = .ok (b.join e.2)) :
    ∃ ws', ws.stageAll l = (.ok (), ws') ∧ ∀ c, Table.get? ws' c =
      (Table.get? ws c).merge Change.join ((l.find? (·.1 = c)).map Prod.snd) := by
  induction l generalizing ws with
  | nil => exact ⟨ws, rfl, fun c => by simp⟩
  | cons e rest ih =>
    obtain ⟨k, a⟩ := e
    obtain ⟨hk, hrest⟩ := List.nodup_cons.1 hl
    obtain ⟨hka, hall⟩ := List.forall_mem_cons.1 h
    have hne : ∀ e ∈ rest, e.1 ≠ k := fun e he hek => hk (List.mem_map.2 ⟨e, he, hek⟩)
    obtain ⟨ws₁, hs, hget⟩ := stage_of_merges hka
    obtain ⟨ws', hs', hget'⟩ := ih hrest fun e he b hb => by
      rw [hget, if_neg (hne e he)] at hb
      exact hall e he b hb
    refine ⟨ws', by simp [stageAll, hs, hs'], fun c => ?_⟩
    rw [hget', hget]
    by_cases hc : c = k
    · subst hc
      have hnone : rest.find? (·.1 = c) = none :=
        List.find?_eq_none.2 fun e he hec => hne e he (by simpa using hec)
      simp [hnone]
    · simp [hc, Ne.symm hc]

theorem exists_stageAll {ws new : WriteSet V} (h : ws.Merges new) :
    ∃ ws', ws.stageAll new.entries = (.ok (), ws') ∧ ∀ c, Table.get? ws' c =
      (Table.get? ws c).merge Change.join (Table.get? new c) :=
  stageAll_of_merges new.nodup_keys fun e he b hb =>
    h e.1 b e.2 hb (Table.get?_eq_some_iff.2 he)

/-- Changes that could all be staged could be merged with what was there. -/
theorem merge_isOk_of_stageAll {l : List (CellId × Change V)} (hl : (l.map Prod.fst).Nodup)
    {ws ws' : WriteSet V} (h : ws.stageAll l = (.ok (), ws')) :
    ∀ e ∈ l, ∀ b, Table.get? ws e.1 = some b → ∃ d, b.merge e.2 = .ok d := by
  induction l generalizing ws with
  | nil => simp
  | cons e rest ih =>
    obtain ⟨k, a⟩ := e
    obtain ⟨hk, hrest⟩ := List.nodup_cons.1 hl
    unfold stageAll at h
    cases hs : ws.stage k a with
    | error err => simp [hs] at h
    | ok ws₁ =>
      rw [hs] at h
      refine List.forall_mem_cons.2 ⟨fun b hb => ?_, fun e he b hb => ?_⟩
      · rcases stage_eq_ok_iff.1 hs with ⟨hnone, -⟩ | ⟨earlier, d, hearlier, hd, -⟩
        · rw [hnone] at hb
          cases hb
        · rw [hearlier] at hb
          cases hb
          exact ⟨d, hd⟩
      · have hne : e.1 ≠ k := fun hek => hk (List.mem_map.2 ⟨e, he, hek⟩)
        exact ih hrest h e he b ((get?_stage_of_ne hs hne).trans hb)

theorem merges_of_stageAll {ws new ws' : WriteSet V}
    (h : ws.stageAll new.entries = (.ok (), ws')) : ws.Merges new := by
  intro c a b ha hb
  have hmem : (c, b) ∈ new.entries := Table.get?_eq_some_iff.1 hb
  obtain ⟨d, hd⟩ := merge_isOk_of_stageAll new.nodup_keys h _ hmem a ha
  rw [hd, Change.eq_join_of_merge hd]

end WriteSet

section

variable {types : CellId → ContentType} {ops : CellId → V → V → V} {ws new : WriteSet V}

theorem merges_of_writes (hw : ws.All (Discipline.uniform types ops).write)
    (hn : new.All (Discipline.uniform types ops).write) : ws.Merges new := by
  intro c a b ha hb
  obtain ⟨v, rfl⟩ := hw c a ha
  obtain ⟨w, rfl⟩ := hn c b hb
  simp [Change.merge, Change.join]

theorem merges_of_deltas (hw : ws.All (Discipline.uniform types ops).delta)
    (hn : new.All (Discipline.uniform types ops).delta) : ws.Merges new := by
  intro c a b ha hb
  obtain ⟨v, rfl⟩ := hw c a ha
  obtain ⟨w, rfl⟩ := hn c b hb
  simp [Change.merge, Change.join]

end

theorem ReadSet.get?_merge (rs new : ReadSet) (c : CellId) :
    Table.get? (ReadSet.merge rs new) c = (Table.get? rs c).or (Table.get? new c) := by
  have hfold : ∀ (l : List (CellId × Version)) (rs : ReadSet),
      Table.get? (l.foldl (fun acc e => Table.insertNew acc e.1 e.2) rs) c =
        (Table.get? rs c).or ((l.find? (·.1 = c)).map Prod.snd) := by
    intro l
    induction l with
    | nil => simp
    | cons e rest ih =>
      intro rs
      rw [List.foldl_cons, ih, Table.get?_insertNew]
      by_cases hc : c = e.1
      · subst hc
        cases Table.get? rs e.1 <;> simp
      · simp [hc, Ne.symm hc]
  exact hfold new.entries rs

theorem mem_foldl_insert (l asked : List CellId) (c : CellId) :
    c ∈ l.foldl (fun t c => t.insert c) asked ↔ c ∈ asked ∨ c ∈ l := by
  induction l generalizing asked with
  | nil => simp
  | cons d rest ih =>
    rw [List.foldl_cons, ih, List.mem_insert_iff, List.mem_cons]
    grind

theorem Contribution.hasWrites_eq_false_iff {e : Contribution V} :
    e.hasWrites = false ↔ ∀ c, e.writes.get? c = none ∧ e.deltas.get? c = none := by
  have hempty : ∀ ws : WriteSet V, ws.isEmpty = true ↔ ∀ c, Table.get? ws c = none := fun ws => by
    rw [← Table.values_eq_nil_iff]
    simp [Table.isEmpty, Table.values]
  simp [hasWrites, hempty, forall_and]

namespace Context

/-- The buffer that takes the writes. -/
def buffer (x : Context V) : WriteSet V := x.shared.getD x.writes

theorem Within.buffer {D : Discipline V} {x : Context V} (h : x.Within D) :
    x.buffer.All D.write := by
  unfold Context.buffer
  cases hs : x.shared with
  | none => exact h.writes
  | some ws => exact h.shared ws hs

/-- What `x` is after it took over what a child handed to it. -/
structure Adopted (x : Context V) (e : Contribution V) (y : Context V) : Prop where
  allowed : e.hasWrites = true → x.mode ≠ .readOnly
  life : y.life = x.life
  enclosing : y.enclosing = x.enclosing
  mode : y.mode = if e.hasWrites then .readWrite else x.mode
  shared : y.shared.isSome = x.shared.isSome
  own : x.shared.isSome = true → y.writes = x.writes
  writes : ∀ c, y.buffer.get? c = (x.buffer.get? c).merge Change.join (e.writes.get? c)
  deltas : ∀ c, y.deltas.get? c = (x.deltas.get? c).merge Change.join (e.deltas.get? c)
  reads : ∀ c, y.reads.get? c =
    if x.mode.recordsReads then (x.reads.get? c).or (e.reads.get? c) else x.reads.get? c
  asked : ∀ c, c ∈ y.asked ↔ c ∈ x.asked ∨ x.isChild = true ∧ c ∈ e.asked

variable {types : CellId → ContentType} {ops : CellId → V → V → V} {x y : Context V}
  {e : Contribution V}

theorem Adopted.refl (x : Context V) : x.Adopted {} x :=
  ⟨fun h => (nomatch h), rfl, rfl, rfl, rfl, fun _ => rfl, fun c => by simp, fun c => by simp,
    fun c => by simp, fun c => by simp⟩

theorem adoptReads_frame (x : Context V) (e : Contribution V) :
    (x.adoptReads e).enclosing = x.enclosing ∧ (x.adoptReads e).shared = x.shared ∧
      (x.adoptReads e).writes = x.writes ∧ (x.adoptReads e).deltas = x.deltas ∧
      (x.adoptReads e).mode = x.mode := by
  unfold adoptReads
  dsimp only
  split <;> split <;> exact ⟨rfl, rfl, rfl, rfl, rfl⟩

theorem reads_adoptReads (x : Context V) (e : Contribution V) (c : CellId) :
    (x.adoptReads e).reads.get? c =
      if x.mode.recordsReads then (x.reads.get? c).or (e.reads.get? c) else x.reads.get? c := by
  unfold adoptReads
  dsimp only
  split <;> split <;> simp_all [ReadSet.get?_merge]

theorem mem_asked_adoptReads (x : Context V) (e : Contribution V) (c : CellId) :
    c ∈ (x.adoptReads e).asked ↔ c ∈ x.asked ∨ x.isChild = true ∧ c ∈ e.asked := by
  have hchild : ∀ reads, ({ x with reads } : Context V).isChild = x.isChild := fun _ => rfl
  unfold adoptReads
  dsimp only
  split <;> cases hx : x.isChild <;> simp [hchild, hx, mem_foldl_insert]

/-- The context in the mode to take a contribution over in, which records reads if the mode before
did. -/
theorem forWriting_of_allowed (hm : e.hasWrites = true → x.mode ≠ .readOnly) :
    ∃ mode, (if e.hasWrites then x.forWriting else .ok x) = .ok { x with mode } ∧
      mode = (if e.hasWrites then .readWrite else x.mode) ∧
      mode.recordsReads = x.mode.recordsReads := by
  cases hw : e.hasWrites with
  | false => exact ⟨x.mode, rfl, rfl, rfl⟩
  | true =>
    have hne := hm hw
    have hon : x.mode.onWrite = some .readWrite ∧ x.mode.recordsReads = true := by
      revert hne
      cases x.mode <;> decide
    exact ⟨.readWrite, by simp [forWriting, hon.1], rfl, hon.2.symm⟩

/-- No delta of the contribution is for a cell with a change that was staged by hand. -/
def Accepts (x : Context V) (e : Contribution V) : Prop :=
  ∀ c a, x.deltas.get? c = some a → (e.deltas.get? c).isSome = true →
    ∀ value, a.effect ≠ .assign value

/-- What was not staged by hand is a delta with the operation of its cell. -/
theorem Accepts.uniform (h : x.Accepts e) (hx : x.Within (.mixed types ops)) {c : CellId}
    {a : Change V} (ha : x.deltas.get? c = some a) (he : (e.deltas.get? c).isSome = true) :
    (Discipline.uniform types ops).delta c a := by
  rcases hx.deltas c a ha with hu | ⟨value, hv⟩
  · exact hu
  · exact absurd hv (h c a ha he value)

theorem Accepts.merges (h : x.Accepts e) (hx : x.Within (.mixed types ops))
    (he : e.Within (.uniform types ops)) : x.deltas.Merges e.deltas := by
  intro c a b ha hb
  obtain ⟨v, rfl⟩ := h.uniform hx ha (by simp [hb])
  obtain ⟨w, rfl⟩ := he.deltas c b hb
  simp [Change.merge, Change.join]

theorem deltas_bufferWrites (x : Context V) (ws : WriteSet V) :
    (x.bufferWrites ws).2.deltas = x.deltas := by
  unfold bufferWrites
  split <;> rfl

/-- What was taken over could be merged. -/
theorem merges_of_adopt (h : x.adopt e = (.ok (), y)) : x.deltas.Merges e.deltas := by
  unfold adopt at h
  split at h
  · cases h
  · next x₁ hx₁ =>
    have hd₁ : x₁.deltas = x.deltas := by
      split at hx₁
      · unfold forWriting at hx₁
        split at hx₁ <;> cases hx₁
        rfl
      · cases hx₁
        rfl
    have hd₂ := (deltas_bufferWrites (x₁.adoptReads e) e.writes).trans
      (adoptReads_frame x₁ e).2.2.2.1
    split at h
    · cases h
    · next z hz =>
      rw [hz, hd₁] at hd₂
      have hstage : z.deltas.stageAll e.deltas.entries = (.ok (), y.deltas) :=
        Prod.ext (Prod.mk.inj h).1 (congrArg deltas (Prod.mk.inj h).2)
      rw [← hd₂]
      exact WriteSet.merges_of_stageAll hstage

theorem accepts_of_adopt (he : e.Within (.uniform types ops)) (h : x.adopt e = (.ok (), y)) :
    x.Accepts e := by
  intro c a ha hsome value hvalue
  obtain ⟨b, hb⟩ := Option.isSome_iff_exists.1 hsome
  obtain ⟨delta, rfl⟩ := he.deltas c b hb
  have hmerge := merges_of_adopt h c a _ ha hb
  simp [Change.merge, hvalue] at hmerge

/-- The writes of a contribution go to the buffer that takes writes, and nothing else changes. -/
theorem exists_bufferWrites (hm : x.buffer.Merges e.writes) :
    ∃ y, x.bufferWrites e.writes = (.ok (), y) ∧ y.deltas = x.deltas ∧ y.mode = x.mode ∧
      y.reads = x.reads ∧ y.asked = x.asked ∧ y.enclosing = x.enclosing ∧
      y.shared.isSome = x.shared.isSome ∧
      (x.shared.isSome = true → y.writes = x.writes) ∧
      ∀ c, y.buffer.get? c = (x.buffer.get? c).merge Change.join (e.writes.get? c) := by
  obtain ⟨ws, hws, hget⟩ := WriteSet.exists_stageAll hm
  unfold bufferWrites
  unfold buffer at hws hget
  cases hs : x.shared with
  | none =>
    rw [hs, Option.getD_none] at hws
    refine ⟨{ x with writes := ws }, by simp [hws, hs], rfl, rfl, rfl, rfl, rfl,
      congrArg Option.isSome hs, (fun h => nomatch h), fun c => ?_⟩
    simpa [buffer, hs] using hget c
  | some b =>
    rw [hs, Option.getD_some] at hws
    refine ⟨{ x with shared := some ws }, by simp [hws], rfl, rfl, rfl, rfl, rfl, rfl,
      fun _ => rfl, fun c => ?_⟩
    simpa [buffer, hs] using hget c

/-- A contribution of changes that merge is taken over unless it writes where writes are illegal. -/
theorem exists_adopt_of_merges (hw : x.buffer.Merges e.writes) (hd : x.deltas.Merges e.deltas)
    (hm : e.hasWrites = true → x.mode ≠ .readOnly) :
    ∃ y, x.adopt e = (.ok (), y) ∧ x.Adopted e y := by
  obtain ⟨mode, hfor, hmode, hrec⟩ := forWriting_of_allowed hm
  obtain ⟨henc, hshared, hwrites, hdeltas, hmode₂⟩ := adoptReads_frame { x with mode } e
  have hreads := reads_adoptReads { x with mode } e
  have hb : (({ x with mode } : Context V).adoptReads e).buffer = x.buffer := by
    simp [buffer, hshared, hwrites]
  obtain ⟨y, hy, hydeltas, hymode, hyreads, hyasked, hyenc, hyshared, hyown, hyget⟩ :=
    exists_bufferWrites (x := ({ x with mode } : Context V).adoptReads e) (hb.symm ▸ hw)
  obtain ⟨ds, hds, hdget⟩ := WriteSet.exists_stageAll hd
  have hadopt : x.adopt e = (.ok (), { y with deltas := ds }) := by
    unfold adopt
    rw [hfor]
    dsimp only
    rw [hy]
    simp [bufferDeltas, hydeltas, hdeltas, hds]
  refine ⟨_, hadopt, hm, ?_, hyenc.trans henc, (hymode.trans hmode₂).trans hmode, ?_, ?_,
    fun c => ?_, hdget, fun c => ?_, fun c => ?_⟩
  · rw [← x.life_adopt e, hadopt]
  · exact hyshared.trans (congrArg Option.isSome hshared)
  · intro hs
    exact (hyown (by rw [hshared]; exact hs)).trans hwrites
  · rw [← hb]
    exact hyget c
  · rw [← hrec]
    exact (congrArg (Table.get? · c) hyreads).trans (hreads c)
  · exact (iff_of_eq (congrArg (c ∈ ·) hyasked)).trans (mem_asked_adoptReads _ e c)

/-- A contribution is taken over unless it writes where writes are illegal, or has a delta for a
cell with a change staged by hand. -/
theorem exists_adopt (hx : x.Within (.mixed types ops)) (he : e.Within (.uniform types ops))
    (ha : x.Accepts e) (hm : e.hasWrites = true → x.mode ≠ .readOnly) :
    ∃ y, x.adopt e = (.ok (), y) ∧ x.Adopted e y :=
  exists_adopt_of_merges (merges_of_writes hx.buffer he.writes) (ha.merges hx he) hm

/-- What was taken over was legal. -/
theorem Adopted.of_adopt (hx : x.Within (.mixed types ops)) (he : e.Within (.uniform types ops))
    (h : x.adopt e = (.ok (), y)) : x.Adopted e y := by
  have hm : e.hasWrites = true → x.mode ≠ .readOnly := by
    intro hw hro
    simp [adopt, hw, forWriting, hro, Mode.onWrite] at h
  obtain ⟨z, hz, hadopted⟩ := exists_adopt hx he (accepts_of_adopt he h) hm
  rw [hz] at h
  cases h
  exact hadopted

end Context

namespace Batch

/-- What `b` is after it took `e` in. -/
structure Joined (b : Batch V) (e : Contribution V) (b' : Batch V) : Prop where
  writes : ∀ c, b'.merged.writes.get? c =
    (b.merged.writes.get? c).merge Change.join (e.writes.get? c)
  deltas : ∀ c, b'.merged.deltas.get? c =
    (b.merged.deltas.get? c).merge Change.join (e.deltas.get? c)
  reads : ∀ c, b'.merged.reads.get? c = (b.merged.reads.get? c).or (e.reads.get? c)
  asked : ∀ c, c ∈ b'.merged.asked ↔ c ∈ b.merged.asked ∨ c ∈ e.asked
  written : ∀ c, c ∈ b'.written ↔
    c ∈ b.written ∨ e.writes.contains c = true ∨ e.deltas.contains c = true

variable {types : CellId → ContentType} {ops : CellId → V → V → V} {b b' : Batch V}
  {e : Contribution V}

/-- A batch takes a contribution of changes that merge in. -/
theorem exists_add_of_merges (hw : b.merged.writes.Merges e.writes)
    (hd : b.merged.deltas.Merges e.deltas) : ∃ b', b.add e = (.ok (), b') ∧ b.Joined e b' := by
  obtain ⟨ws, hws, hwget⟩ := WriteSet.exists_stageAll hw
  obtain ⟨ds, hds, hdget⟩ := WriteSet.exists_stageAll hd
  refine ⟨⟨{ (b.addReads e).merged with writes := ws, deltas := ds },
    b.written ++ e.writes.keys ++ e.deltas.keys⟩, ?_, hwget, hdget,
    fun c => ReadSet.get?_merge _ _ c, fun c => mem_foldl_insert _ _ c, fun c => ?_⟩
  · simp [add, addWrites, addReads, addDeltas, hws, hds]
  · simp [Table.mem_keys]

theorem exists_add (hb : b.merged.Within (.uniform types ops))
    (he : e.Within (.uniform types ops)) : ∃ b', b.add e = (.ok (), b') ∧ b.Joined e b' :=
  exists_add_of_merges (merges_of_writes hb.writes he.writes) (merges_of_deltas hb.deltas he.deltas)

theorem Joined.hasWrites (h : b.Joined e b') :
    b'.merged.hasWrites = (b.merged.hasWrites || e.hasWrites) := by
  have hiff : b'.merged.hasWrites = false ↔ (b.merged.hasWrites || e.hasWrites) = false := by
    simp only [Bool.or_eq_false_iff, Contribution.hasWrites_eq_false_iff, h.writes, h.deltas,
      Option.merge_eq_none_iff, ← forall_and]
    exact forall_congr' fun c => and_and_and_comm
  cases h₁ : b'.merged.hasWrites <;> cases h₂ : b.merged.hasWrites || e.hasWrites <;> simp_all

end Batch

/-- Joining changes is associative, whatever the first one is, where writes replace and the deltas
of a cell combine by one associative operation. -/
theorem merge_join_assoc {P Q : CellId → Change V → Prop} {c : CellId}
    {o₁ o₂ o₃ : Option (Change V)}
    (hassoc : ∀ a b d, Q c a → P c b → P c d → (a.join b).join d = a.join (b.join d))
    (h₁ : ∀ a, o₁ = some a → Q c a) (h₂ : ∀ a, o₂ = some a → P c a)
    (h₃ : ∀ a, o₃ = some a → P c a) :
    (o₁.merge Change.join o₂).merge Change.join o₃ =
      o₁.merge Change.join (o₂.merge Change.join o₃) := by
  cases o₁ <;> cases o₂ <;> cases o₃ <;> simp
  exact hassoc _ _ _ (h₁ _ rfl) (h₂ _ rfl) (h₃ _ rfl)

namespace Context

variable {types : CellId → ContentType} {ops : CellId → V → V → V} {x y z : Context V}
  {e : Contribution V} {b b' : Batch V}

/-- A mode that a context has after it took a legal contribution over allows what the mode before
did. -/
theorem Adopted.mode_iff (h : x.Adopted e y) :
    (y.mode = .readOnly ↔ x.mode = .readOnly) ∧ y.mode.recordsReads = x.mode.recordsReads := by
  rw [h.mode]
  cases hw : e.hasWrites with
  | false => simp
  | true =>
    have hne := h.allowed hw
    revert hne
    cases x.mode <;> decide

/-- What is taken over after a batch may as well be taken in by the batch before. -/
theorem Adopted.trans (hassoc : ∀ c a b d, ops c (ops c a b) d = ops c a (ops c b d))
    (hx : x.Within (.mixed types ops)) (hb : b.merged.Within (.uniform types ops))
    (he : e.Within (.uniform types ops)) (h₁ : x.Adopted b.merged y) (h₂ : y.Adopted e z)
    (hj : b.Joined e b') : x.Adopted b'.merged z := by
  refine ⟨?_, h₂.life.trans h₁.life, h₂.enclosing.trans h₁.enclosing, ?_, h₂.shared.trans h₁.shared,
    fun hs => ?_, fun c => ?_, fun c => ?_, fun c => ?_, fun c => ?_⟩
  · rw [hj.hasWrites]
    intro hw
    rcases Bool.or_eq_true_iff.1 hw with hw | hw
    · exact h₁.allowed hw
    · exact fun hro => h₂.allowed hw (h₁.mode_iff.1.2 hro)
  · rw [h₂.mode, h₁.mode, hj.hasWrites]
    cases b.merged.hasWrites <;> cases e.hasWrites <;> rfl
  · exact (h₂.own (h₁.shared.trans hs)).trans (h₁.own hs)
  · rw [h₂.writes, h₁.writes, hj.writes]
    refine merge_join_assoc (P := (Discipline.uniform types ops).write)
      (Q := (Discipline.uniform types ops).write) ?_ (hx.buffer c) (hb.writes c) (he.writes c)
    rintro _ _ _ ⟨u, rfl⟩ ⟨v, rfl⟩ ⟨w, rfl⟩
    rfl
  · rw [h₂.deltas, h₁.deltas, hj.deltas]
    refine merge_join_assoc (P := (Discipline.uniform types ops).delta)
      (Q := (Discipline.mixed types ops).delta) ?_ (hx.deltas c) (hb.deltas c) (he.deltas c)
    rintro a _ _ (⟨u, rfl⟩ | ⟨u, hu⟩) ⟨v, rfl⟩ ⟨w, rfl⟩
    · simp [Change.join, hassoc]
    · simp [Change.join, hu]
  · rw [h₂.reads, h₁.reads, hj.reads, h₁.mode_iff.2]
    split <;> simp [Option.or_assoc]
  · have hchild : y.isChild = x.isChild := congrArg (·.kind.isSome) h₁.life
    rw [h₂.asked, h₁.asked, hj.asked, hchild, and_or_left, or_assoc]

end Context

end VersionedMemory
