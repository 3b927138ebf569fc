import VersionedMemory.Proofs.Chronicle
import VersionedMemory.Proofs.TypedBuffers
import VersionedMemory.Proofs.Tasks

/-!
# What buffers show of what was done

What a context holds shows what was done through it, and in children of it that were merged. Its
read-set has the cells that were read from committed records, with the versions that were read, and
its delta for an accumulator is that of the puts, each of them once and in their order. Every access
and every merge adds to both sides alike.

## Main definitions

* `Accrues` says that a value comes of combining deltas in their order, however they are grouped.
* `Contribution.Bears` says that a contribution suits the cells and shows what was done, and
  `Context.Bears` says so of what a context holds.

## Main statements

* `Context.Bears.adopt`: a context that takes a contribution over shows what both show.
* `Context.Bears.read`, `Context.Bears.write`, `Context.Bears.put`: a context shows what was done
  after an access as well.
-/

namespace VersionedMemory

variable {V : Type}

/-! ### Deltas -/

/-- The value comes of combining the deltas of a list in their order, however they are grouped. -/
inductive Accrues (op : V → V → V) : List V → V → Prop
  | one (delta : V) : Accrues op [delta] delta
  | join {l l' : List V} {v w : V} :
    Accrues op l v → Accrues op l' w → Accrues op (l ++ l') (op v w)

/-- An associative operation combines deltas into a value one by one as it does all at once. -/
theorem Accrues.foldl_eq {op : V → V → V} (hop : ∀ u v w, op (op u v) w = op u (op v w))
    {l : List V} {v : V} (h : Accrues op l v) (u : V) : l.foldl op u = op u v := by
  induction h generalizing u with
  | one delta => rfl
  | join _ _ ih ih' => rw [List.foldl_append, ih, ih', hop]

/-- The deltas that were put on a cell. -/
def putsOn (c : CellId) (ds : List (Deed V)) : List V :=
  ds.filterMap fun
    | .put a delta => if a.base = c then some delta else none
    | .read _ _ => none

theorem putsOn_append (c : CellId) (ds ds' : List (Deed V)) :
    putsOn c (ds ++ ds') = putsOn c ds ++ putsOn c ds' :=
  List.filterMap_append

/-- The pending change is the delta that the puts come to. -/
def Pending (op : V → V → V) (puts : List V) (o : Option (Change V)) : Prop :=
  match o with
  | none => puts = []
  | some a => ∃ delta, a.effect = .combine op delta ∧ Accrues op puts delta

theorem Pending.merge {op : V → V → V} {l l' : List V} {o o' : Option (Change V)}
    (h : Pending op l o) (h' : Pending op l' o') :
    Pending op (l ++ l') (o.merge Change.join o') := by
  cases o with
  | none =>
    obtain rfl : l = [] := h
    rw [Option.merge_none_left]
    exact h'
  | some a =>
    cases o' with
    | none =>
      obtain rfl : l' = [] := h'
      rw [Option.merge_none_right, List.append_nil]
      exact h
    | some b =>
      obtain ⟨v, hv, hl⟩ := h
      obtain ⟨w, hw, hl'⟩ := h'
      exact ⟨op v w, by simp [Change.join, hv, hw], hl.join hl'⟩

/-- The discipline allows no other deltas on the base of the accumulator than its own. -/
def Discipline.Combines (D : Discipline V) (a : Accumulator V) : Prop :=
  ∀ b, D.delta a.base b → ∃ delta, b.effect = .combine a.op delta

/-! ### Contributions -/

variable [Inhabited V]

/-- What is handed over suits the cells, and shows what was done at the snapshot `n`. Where all
reads are recorded, none is missing. -/
structure Contribution.Bears (D : Discipline V) (s : Store V) (n : Version) (full : Prop)
    (ds : List (Deed V)) (e : Contribution V) : Prop where
  within : e.Within (D.on s)
  /-- The snapshot sees what was read. -/
  seen : ∀ c r, .read c r ∈ ds → s.Has c ∧ (s.cell c).readAt n = .ok r
  /-- What is recorded was read. -/
  backed : ∀ c v, e.reads.get? c = some v → ∃ r, .read c r ∈ ds ∧ r.version = v
  recorded : full → ∀ c r, .read c r ∈ ds → e.reads.contains c = true
  pending : ∀ a, D.Combines a → Pending a.op (putsOn a.base ds) (e.deltas.get? a.base)

namespace Contribution

variable {D : Discipline V} {s s' : Store V} {n : Version} {full : Prop} {ds ds' : List (Deed V)}
  {e e' d : Contribution V}

theorem bears_empty (D : Discipline V) (s : Store V) (n : Version) (full : Prop) :
    ({} : Contribution V).Bears D s n full [] :=
  ⟨⟨WriteSet.all_empty, WriteSet.all_empty⟩, nofun, nofun, nofun, fun _ _ => rfl⟩

/-- What was seen is seen later, by a snapshot that stays live. -/
theorem Bears.mono (h : e.Bears D s n full ds) (hs : s.Extends n s') :
    e.Bears D s' n full ds where
  within := h.within.mono (hs.within D)
  seen c r hr := by
    obtain ⟨hc, hat⟩ := h.seen c r hr
    exact ⟨hs.has c hc, (hs.readAt c hc).trans hat⟩
  backed := h.backed
  recorded := h.recorded
  pending := h.pending

/-- What a contribution shows does not depend on its writes, as long as they suit the cells. -/
theorem Bears.congr (h : e.Bears D s n full ds) (hw : e'.Within (D.on s))
    (hreads : e'.reads = e.reads) (hdeltas : e'.deltas = e.deltas) : e'.Bears D s n full ds where
  within := hw
  seen := h.seen
  backed := hreads ▸ h.backed
  recorded := hreads ▸ h.recorded
  pending := hdeltas ▸ h.pending

/-- Two contributions together show what was done for the one and then for the other. The reads of
the second may be missing where not all reads are recorded. -/
theorem Bears.append (h : e.Bears D s n full ds) (h' : e'.Bears D s n full ds')
    (hw : d.Within (D.on s))
    (hreads : ∀ c, d.reads.get? c = (e.reads.get? c).or (e'.reads.get? c) ∨
      ¬ full ∧ d.reads.get? c = e.reads.get? c)
    (hdeltas : ∀ c, d.deltas.get? c = (e.deltas.get? c).merge Change.join (e'.deltas.get? c)) :
    d.Bears D s n full (ds ++ ds') := by
  refine ⟨hw, fun c r hr => ?_, fun c v hv => ?_, fun hfull c r hr => ?_, fun a ha => ?_⟩
  · rcases List.mem_append.1 hr with hr | hr
    · exact h.seen c r hr
    · exact h'.seen c r hr
  · have hsome : e.reads.get? c = some v ∨ e'.reads.get? c = some v := by
      rcases hreads c with hc | ⟨-, hc⟩
      · rw [hv] at hc
        exact (Option.or_eq_some_iff.1 hc.symm).imp_right And.right
      · exact .inl (hc.symm.trans hv)
    rcases hsome with hc | hc
    · obtain ⟨r, hr, hrv⟩ := h.backed c v hc
      exact ⟨r, List.mem_append_left _ hr, hrv⟩
    · obtain ⟨r, hr, hrv⟩ := h'.backed c v hc
      exact ⟨r, List.mem_append_right _ hr, hrv⟩
  · have hc := (hreads c).resolve_right fun hno => hno.1 hfull
    unfold Table.contains
    rw [hc, Option.isSome_or, Bool.or_eq_true]
    rcases List.mem_append.1 hr with hr | hr
    · exact .inl (h.recorded hfull c r hr)
    · exact .inr (h'.recorded hfull c r hr)
  · rw [putsOn_append, hdeltas]
    exact (h.pending a ha).merge (h'.pending a ha)

end Contribution

/-- A batch shows what was done in the tasks that it took in. -/
theorem Batch.add_of_bears {D : Discipline V} {s : Store V} {n : Version} {full : Prop}
    {ds ds' : List (Deed V)} {b : Batch V} {e : Contribution V} (hD : D.Within (.plain V))
    (hb : b.merged.Bears D s n full ds) (he : e.Bears D s n full ds') :
    ∃ b', b.add e = (.ok (), b') ∧ b.Joined e b' ∧ b'.merged.Bears D s n full (ds ++ ds') := by
  obtain ⟨b', hb', hj, hw⟩ := add_of_within hD hb.within he.within
  exact ⟨b', hb', hj, hb.append he hw (fun c => .inl (hj.reads c)) hj.deltas⟩

/-! ### Contexts -/

namespace Context

/-- All reads through the context are recorded, those of its children too. -/
def Validates (hooks : Hooks) (x : Context V) : Prop :=
  hooks.modeOfChild = none ∧ x.mode.recordsReads = true

/-- All that the context reads through suits the cells, and what it holds shows what was done. -/
structure Bears (D : Discipline V) (hooks : Hooks) (s : Store V) (ds : List (Deed V))
    (x : Context V) : Prop where
  suits : x.Suits D s
  handed : x.handed.Bears D s x.snapshot (x.Validates hooks) ds
  allowed : x.handed.hasWrites = true → x.mode.recordsReads = true

variable {D : Discipline V} {hooks : Hooks} {s s' : Store V} {ds ds' : List (Deed V)}
  {x y : Context V} {e : Contribution V} {c : CellId}

theorem Bears.mono (h : x.Bears D hooks s ds) (hs : s.Extends x.snapshot s') :
    x.Bears D hooks s' ds :=
  ⟨h.suits.mono hs, h.handed.mono hs, h.allowed⟩

theorem bears_begin (D : Discipline V) (hooks : Hooks) (s : Store V) (id : TxnId)
    (engine : EngineId) (anchor : Anchor) (mode : Mode) :
    (begin id engine anchor mode : Context V).Bears D hooks s [] :=
  ⟨⟨within_begin .., nofun⟩, Contribution.bears_empty .., fun h => absurd h Bool.false_ne_true⟩

theorem bears_child (hooks : Hooks) (x : Context V) (kind : ChildKind) (mode : Mode)
    {below : List (Layer V)} {shared : Option (WriteSet V)}
    (hbelow : ∀ l ∈ below, l.Within (D.on s))
    (hshared : ∀ ws, shared = some ws → ws.All (D.on s).write) :
    (x.child kind mode below shared).Bears D hooks s [] :=
  ⟨⟨within_child x kind mode below hshared, hbelow⟩, Contribution.bears_empty ..,
    fun h => absurd h Bool.false_ne_true⟩

omit [Inhabited V] in
/-- What a context may write does not change the reads that it records. -/
theorem Adopted.validates (h : x.Adopted e y) : y.Validates hooks ↔ x.Validates hooks := by
  unfold Validates
  rw [h.mode_iff.2]

omit [Inhabited V] in
/-- What a context holds after it took a contribution over, it held before or took over. -/
theorem Adopted.hasWrites_or (h : x.Adopted e y) (hy : y.handed.hasWrites = true) :
    x.handed.hasWrites = true ∨ e.hasWrites = true := by
  refine Classical.byContradiction fun hnone => ?_
  obtain ⟨hx, he⟩ := not_or.1 hnone
  have hx' := Contribution.hasWrites_eq_false_iff.1 (Bool.eq_false_iff.2 hx)
  have he' := Contribution.hasWrites_eq_false_iff.1 (Bool.eq_false_iff.2 he)
  refine Bool.eq_false_iff.1 (Contribution.hasWrites_eq_false_iff.2 fun c => ⟨?_, ?_⟩) hy
  · change y.writes.get? c = none
    cases hs : x.shared.isSome with
    | true =>
      rw [h.own hs]
      exact (hx' c).1
    | false =>
      have hys : y.shared = none := by simpa [hs] using h.shared
      have hxs : x.shared = none := by simpa using hs
      have hc := h.writes c
      simp only [buffer, hys, hxs, Option.getD_none, (he' c).1, Option.merge_none_right] at hc
      exact hc.trans (hx' c).1
  · have hc := h.deltas c
    rw [(he' c).2, Option.merge_none_right] at hc
    exact hc.trans (hx' c).2

/-- A context that takes a contribution over shows what both show; it may refuse what it may not
write. -/
theorem Bears.adopt (hD : D.Within (.plain V)) (h : x.Bears D hooks s ds)
    (he : e.Bears D s x.snapshot (x.Validates hooks) ds') :
    (∃ y, x.adopt e = (.ok (), y) ∧ y.Bears D hooks s (ds ++ ds')) ∨
      e.hasWrites = true ∧ x.adopt e = (.error (.illegal (.writeInReadOnly x.id)), x) := by
  rcases h.suits.adopt hD he.within with ⟨y, hy, ha, hsuits⟩ | hill
  · refine .inl ⟨y, hy, hsuits, ?_, fun hw => ?_⟩
    · have hsnap : y.snapshot = x.snapshot := congrArg Life.snapshot ha.life
      rw [hsnap, propext ha.validates]
      refine h.handed.append he ⟨hsuits.within.writes, hsuits.within.deltas⟩ (fun c => ?_)
        ha.deltas
      have hc : y.handed.reads.get? c = if x.mode.recordsReads then
        (x.handed.reads.get? c).or (e.reads.get? c) else x.handed.reads.get? c := ha.reads c
      cases hm : x.mode.recordsReads with
      | true => exact .inl (by simpa [hm] using hc)
      | false =>
        refine .inr ⟨fun hv => ?_, by simpa [hm] using hc⟩
        exact absurd (hm.symm.trans hv.2) Bool.false_ne_true
    · rw [ha.mode_iff.2]
      rcases ha.hasWrites_or hw with hx | he
      · exact h.allowed hx
      · exact Mode.recordsReads_of_ne (ha.allowed he)
  · exact .inr hill

/-! ### Accesses -/

/-- What a read hands over shows the record that is sighted. -/
theorem bears_glimpse (hD : D.Within (.plain V)) (h : x.Suits D s) (ha : x.status = .active)
    (hc : s.Has c) {r : Record V} (hr : (s.cell c).readAt x.snapshot = .ok r) :
    (x.glimpse (s.cell c)).Bears D s x.snapshot (x.Validates hooks)
      ((x.sighted s c).toList.map (.read c)) := by
  have hsight : x.sighted s c = none ∧ (x.glimpse (s.cell c)).reads = ∅ ∨
      x.sighted s c = some r ∧
        (x.glimpse (s.cell c)).reads = (∅ : ReadSet).insert c r.version := by
    unfold sighted glimpse valueFor
    simp only [Store.id_cell, checkActive_eq_ok ha, hr, if_pos hc, Except.toOption]
    cases hw : x.writeFor c with
    | none => exact .inr ⟨rfl, rfl⟩
    | some a =>
      obtain ⟨hw, -, ht⟩ := writeThrough_within h.layers hw
      obtain ⟨-, v, hv⟩ := hD.write c a hw
      exact .inl ⟨by simp [Change.assigned?, hv, ht], rfl⟩
  have hwithin : (x.glimpse (s.cell c)).Within (D.on s) :=
    ⟨WriteSet.all_empty, WriteSet.all_empty⟩
  rcases hsight with ⟨hs, hg⟩ | ⟨hs, hg⟩ <;> rw [hs]
  · exact (Contribution.bears_empty D s _ _).congr hwithin hg rfl
  · refine ⟨hwithin, fun d r' hd => ?_, fun d v hv => ?_, fun _ d r' hd => ?_, fun _ _ => rfl⟩
    · obtain ⟨rfl, rfl⟩ : d = c ∧ r' = r := by simpa using hd
      exact ⟨hc, hr⟩
    · rw [hg, Table.get?_insert] at hv
      split at hv
      · next hd =>
        cases hv
        exact ⟨r, by simp [hd], rfl⟩
      · cases hv
    · obtain ⟨rfl, -⟩ : d = c ∧ r' = r := by simpa using hd
      simp [hg, Table.contains]

theorem Bears.read (hD : D.Within (.plain V)) (h : x.Bears D hooks s ds) (ha : x.status = .active)
    (hc : s.Has c) {r : Record V} (hr : (s.cell c).readAt x.snapshot = .ok r) :
    (x.read (s.cell c)).2.Bears D hooks s (ds ++ (x.sighted s c).toList.map (.read c)) := by
  rw [read_eq_adopt ha]
  rcases h.adopt hD (bears_glimpse hD h.suits ha hc hr) with ⟨y, hy, hb⟩ | ⟨hw, -⟩
  · rwa [hy]
  · exact absurd hw Bool.false_ne_true

/-- A write of a cell that is there suits the cell and shows nothing. -/
theorem bears_one_write (hc : s.Has c) {n : Version} {full : Prop} {value : V}
    (hw : D.write c ⟨c, (s.cell c).type, .assign value⟩) :
    ({ writes := (∅ : WriteSet V).insert c ⟨c, (s.cell c).type, .assign value⟩ } :
      Contribution V).Bears D s n full [] :=
  (Contribution.bears_empty D s n full).congr
    ⟨WriteSet.all_empty.insert ⟨hw, hc, rfl⟩, WriteSet.all_empty⟩ rfl rfl

/-- A delta for a cell that is there shows one put. -/
theorem bears_one_put {a : Accumulator V} {delta : V} (hc : s.Has a.base) {n : Version}
    {full : Prop} (hd : D.delta a.base ⟨a.base, (s.cell a.base).type, .combine a.op delta⟩) :
    ({ deltas := (∅ : WriteSet V).insert a.base
        ⟨a.base, (s.cell a.base).type, .combine a.op delta⟩ } :
      Contribution V).Bears D s n full [.put a delta] := by
  refine ⟨⟨WriteSet.all_empty, WriteSet.all_empty.insert ⟨hd, hc, rfl⟩⟩, fun c r hr => ?_, nofun,
    fun _ c r hr => ?_, fun b hb => ?_⟩
  · simp at hr
  · simp at hr
  · rw [Table.get?_insert]
    by_cases hab : a.base = b.base
    · rw [if_pos hab.symm]
      obtain ⟨delta', he⟩ := hb _ (hab ▸ hd)
      obtain ⟨hop, rfl⟩ := Effect.combine.inj he
      refine ⟨delta, by rw [← hop], ?_⟩
      simp only [putsOn, List.filterMap_cons, if_pos hab, List.filterMap_nil]
      exact .one delta
    · rw [if_neg (Ne.symm hab)]
      simp [Pending, putsOn, hab]

theorem Bears.write (hD : D.Within (.plain V)) (h : x.Bears D hooks s ds)
    (ha : x.status = .active) (hc : s.Has c) {value : V}
    (hw : D.write c ⟨c, (s.cell c).type, .assign value⟩) :
    ((x.write (s.cell c) value).1 = .ok () ∨
        (x.write (s.cell c) value).1 = .error (.illegal (.writeInReadOnly x.id))) ∧
      (x.write (s.cell c) value).2.Bears D hooks s ds := by
  rw [write_eq_adopt ha, Store.id_cell]
  rcases h.adopt hD (bears_one_write hc hw) with ⟨y, hy, hb⟩ | ⟨-, hill⟩
  · rw [hy]
    exact ⟨.inl rfl, by simpa using hb⟩
  · rw [hill]
    exact ⟨.inr rfl, h⟩

theorem Bears.put (hD : D.Within (.plain V)) (h : x.Bears D hooks s ds) (ha : x.status = .active)
    {a : Accumulator V} {delta : V} (hc : s.Has a.base)
    (hd : D.delta a.base ⟨a.base, (s.cell a.base).type, .combine a.op delta⟩) :
    (∃ y, x.put (s.cell a.base) a.op delta = (.ok (), y) ∧
        y.Bears D hooks s (ds ++ [.put a delta])) ∨
      x.put (s.cell a.base) a.op delta = (.error (.illegal (.writeInReadOnly x.id)), x) := by
  unfold Context.put
  rw [stage_eq_adopt ha, Store.id_cell]
  exact (h.adopt hD (bears_one_put hc hd)).imp_right And.right

end Context

end VersionedMemory
