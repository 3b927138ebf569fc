import VersionedMemory.Proofs.Replay

/-!
# What the log of an open transaction tells

The buffers of an open transaction are the draft of its log: what is pending depends on the accesses
alone, not on the values read. Its read-set holds, with their versions, the cells whose committed
values the answers depend on. So the answers stay right on every plain store that agrees with the
snapshot of the transaction on these cells; that is what validation at commit relies on.

## Main definitions

* `Shows` says that a plain store holds what a snapshot sees of every cell.
* `Context.Agrees` says so of the cells that a transaction relies on.
* `Tracks` ties an open transaction to its log.

## Main statements

* `Tracks.serve`: every access keeps a transaction tied to its log.
* `Tracks.mono`: what others do keeps it too.
-/

namespace VersionedMemory

variable {V : Type} [Inhabited V]

/-- The plain store holds, of every cell, the newest value at a version. -/
def Shows (s : Store V) (past : History V) (v : Version) (m : Plain V) : Prop :=
  ∀ c, s.Has c → (newestAt (past c) v).map Record.value = some (m c)

namespace Context

omit [Inhabited V] in
/-- The answers to the transaction depend on the committed value of the cell at most if it recorded
a read there, provided that it records any. -/
def Relies (x : Context V) (c : CellId) : Prop :=
  x.mode.recordsReads = true → x.reads.contains c = true

/-- The plain store holds what the snapshot sees of the cells that the transaction relies on. -/
def Agrees (x : Context V) (s : Store V) (past : History V) (m : Plain V) : Prop :=
  ∀ c, s.Has c → x.Relies c → (newestAt (past c) x.snapshot).map Record.value = some (m c)

end Context

/-- An open transaction and the log of its accesses. -/
structure Tracks (s : Store V) (past : History V) (x : Context V) (es : List (Event V)) : Prop where
  alone : x.enclosing = [] ∧ x.shared = none
  writes : ∀ c, x.writes.get? c =
    ((draftOf es).writes c).map fun value => ⟨c, (s.cell c).type, .assign value⟩
  deltas : ∀ c, x.deltas.get? c =
    ((draftOf es).deltas c).map fun p => ⟨c, (s.cell c).type, .combine p.1 p.2⟩
  known : ∀ c, (draftOf es).Changes c → s.Has c
  readOnly : x.mode = .readOnly → ∀ c, ¬ (draftOf es).Changes c
  reads : ∀ c v, x.reads.get? c = some v →
    s.Has c ∧ (newestAt (past c) x.snapshot).map Record.version = some v
  explains : ∀ m, x.Agrees s past m → Explains m {} es

variable {s : Store V} {past : History V} {x y : Context V} {es : List (Event V)}

theorem tracks_begin (id : TxnId) (engine : EngineId) (anchor : Anchor) (mode : Mode) :
    Tracks s past (.begin id engine anchor mode) [] where
  alone := ⟨rfl, rfl⟩
  writes _ := rfl
  deltas _ := rfl
  known _ h := by simp [draftOf, Draft.Changes] at h
  readOnly _ _ h := by simp [draftOf, Draft.Changes] at h
  reads _ _ h := nomatch h
  explains _ _ := trivial

namespace Tracks

omit [Inhabited V] in
theorem draftOf_append (es es' : List (Event V)) :
    draftOf (es ++ es') = es'.foldl Draft.after (draftOf es) := List.foldl_append

theorem writeFor_eq (h : Tracks s past x es) (c : CellId) : x.writeFor c = x.writes.get? c := by
  simp [Context.writeFor, Context.layers, h.alone.1, writeThrough, Layer.write?, Context.layer,
    h.alone.2]

theorem deltasFor_eq (h : Tracks s past x es) (c : CellId) :
    x.deltasFor c = (x.deltas.get? c).toList := by
  simp only [Context.deltasFor, Context.layers, h.alone.1, deltasThrough, Context.layer,
    List.filterMap_cons, List.filterMap_nil]
  cases x.deltas.get? c <;> rfl

/-- An access that leaves nothing pending is logged with an answer that is right on every plain
store that agrees with the snapshot. -/
theorem tell (h : Tracks s past x es) {e : Event V} (hd : (draftOf es).after e = draftOf es)
    (ha : ∀ m, x.Agrees s past m → (draftOf es).Answers m e) : Tracks s past x (es ++ [e]) := by
  have hdraft : draftOf (es ++ [e]) = draftOf es := by
    rw [draftOf_append]
    exact hd
  refine ⟨h.alone, hdraft ▸ h.writes, hdraft ▸ h.deltas, hdraft ▸ h.known, hdraft ▸ h.readOnly,
    h.reads, fun m hm => ?_⟩
  exact explains_append.2 ⟨h.explains m hm, ha m hm, trivial⟩

/-- A transaction stays tied to its log when it records a read of what the snapshot sees. -/
theorem observe (h : Tracks s past x es) {c : CellId} (hc : s.Has c) {r : Record V}
    (hn : newestAt (past c) x.snapshot = some r) : Tracks s past (x.observe c r.version) es := by
  unfold Context.observe
  split
  · next hm =>
    refine ⟨h.alone, h.writes, h.deltas, h.known, h.readOnly, fun d v hv => ?_, fun m ha => ?_⟩
    · simp only [Table.get?_insertNew] at hv
      split at hv
      · next hd =>
        subst hd
        refine ⟨hc, ?_⟩
        cases hold : x.reads.get? d with
        | none =>
          rw [hold] at hv
          rw [← hv, hn]
          rfl
        | some v₀ =>
          rw [hold] at hv
          cases hv
          exact (h.reads d v₀ hold).2
      · exact h.reads d v hv
    · refine h.explains m fun d hd hr => ha d hd fun hrec => ?_
      have hold := hr hrec
      simp only [Table.contains, Table.get?_insertNew] at hold ⊢
      split
      · rfl
      · exact hold
  · exact h

omit [Inhabited V] in
theorem relies_observe (x : Context V) (c : CellId) (v : Version) : (x.observe c v).Relies c := by
  intro hm
  unfold Context.observe at hm ⊢
  split
  · simp [Table.contains, Table.get?_insertNew]
  · next hx =>
    rw [if_neg hx] at hm
    exact absurd hm hx

/-- A read is answered as it is on every plain store that agrees with the snapshot. -/
theorem read (h : Tracks s past x es) (ha : x.status = .active) (hk : x.kind = none) {c : CellId}
    (hc : s.Has c) {r : Record V} (hn : newestAt (past c) x.snapshot = some r)
    (hr : (s.cell c).readAt x.snapshot = .ok r) :
    ∃ value y, x.read (s.cell c) = (.ok value, y) ∧ Tracks s past y es ∧
      ∀ m, y.Agrees s past m → (draftOf es).read m c = value := by
  have hact : x.checkActive = .ok () := by simp [Context.checkActive, Context.isActive, ha]
  have htouch : x.touch c = x := by simp [Context.touch, Context.isChild, hk]
  have hw := h.writes c
  rw [← h.writeFor_eq] at hw
  cases hp : (draftOf es).writes c with
  | some value =>
    rw [hp] at hw
    refine ⟨value, x, ?_, h, fun m _ => by simp [Draft.read, hp]⟩
    simp [Context.read, hact, htouch, Context.valueFor, hw, Change.assigned?]
  | none =>
    rw [hp] at hw
    have hread := Context.read_of_writeFor_eq_none (s.cell c) ha
      (by rw [Store.id_cell]; exact hw) hr
    rw [Store.id_cell, htouch] at hread
    refine ⟨r.value, _, hread, h.observe hc hn, fun m hm => ?_⟩
    have hs : (x.observe c r.version).snapshot = x.snapshot :=
      congrArg Life.snapshot (x.life_observe c r.version)
    have := hm c hc (relies_observe x c r.version)
    rw [hs, hn] at this
    simpa [Draft.read, hp, eq_comm] using this

/-- The reading of an accumulator is answered as it is on every plain store that agrees with the
snapshot. -/
theorem get (h : Tracks s past x es) (ha : x.status = .active) (hk : x.kind = none)
    (a : Accumulator V) (hc : s.Has a.base) {r : Record V}
    (hn : newestAt (past a.base) x.snapshot = some r)
    (hr : (s.cell a.base).readAt x.snapshot = .ok r) :
    ∃ value y, x.get (s.cell a.base) a.op = (.ok value, y) ∧ Tracks s past y es ∧
      ∀ m, y.Agrees s past m → (draftOf es).get m a = value := by
  obtain ⟨base, y, hread, hy, hm⟩ := h.read ha hk hc hn hr
  have hd := hy.deltas a.base
  unfold Context.get
  simp only [hread, Store.id_cell, hy.deltasFor_eq, hd]
  cases hp : (draftOf es).deltas a.base with
  | none =>
    refine ⟨base, y, rfl, hy, fun m hmy => ?_⟩
    simp [Draft.get, hp, hm m hmy]
  | some p =>
    refine ⟨a.op base p.2, y, ?_, hy, fun m hmy => ?_⟩
    · simp [Change.delta?, Context.combined]
    · simp [Draft.get, hp, hm m hmy]

omit [Inhabited V] in
theorem recordsReads_of_onWrite {m m' : Mode} (h : m.onWrite = some m') :
    m.recordsReads = true ∧ m'.recordsReads = true ∧ m' ≠ .readOnly := by
  cases m <;> cases h <;> decide

/-- A write is refused, or is pending from then on. -/
theorem write (h : Tracks s past x es) (ha : x.status = .active) {c : CellId} (hc : s.Has c)
    (value : V) : ∃ answer y, x.write (s.cell c) value = (answer, y) ∧
      Tracks s past y (es ++ if answer.isOk then [.write c value] else []) := by
  have hact : x.checkActive = .ok () := by simp [Context.checkActive, Context.isActive, ha]
  cases hm : x.mode.onWrite with
  | none =>
    refine ⟨.error (.illegal (.writeInReadOnly x.id)), x,
      by simp [Context.write, hact, Context.forWriting, hm], ?_⟩
    simpa [Except.isOk, Except.toBool] using h
  | some mode =>
    have hstage : x.writes.stage c ⟨c, (s.cell c).type, .assign value⟩ =
        .ok (x.writes.insert c ⟨c, (s.cell c).type, .assign value⟩) := by
      rw [WriteSet.stage, h.writes c]
      cases (draftOf es).writes c <;> simp [Change.merge, Except.map]
    refine ⟨.ok (), { x with
      mode, writes := x.writes.insert c ⟨c, (s.cell c).type, .assign value⟩ }, ?_, ?_⟩
    · simp [Context.write, hact, Context.forWriting, hm, Context.bufferWrite, h.alone.2, hstage,
        Except.map]
    obtain ⟨hrec, -, hne⟩ := recordsReads_of_onWrite hm
    have hdraft : draftOf (es ++ [.write c value]) = (draftOf es).write c value := draftOf_append ..
    change Tracks s past _ (es ++ [.write c value])
    refine ⟨h.alone, fun d => ?_, ?_, fun d hd => ?_, fun hro => absurd hro hne, h.reads,
      fun m hm' => ?_⟩
    · rw [hdraft]
      by_cases hdc : d = c
      · subst hdc
        simp [Draft.write]
      · simpa [Draft.write, hdc] using h.writes d
    · rw [hdraft]
      exact h.deltas
    · rw [hdraft] at hd
      by_cases hdc : d = c
      · exact hdc ▸ hc
      · exact h.known d (by simpa [Draft.Changes, Draft.write, hdc] using hd)
    · refine explains_append.2 ⟨h.explains m fun d hd hr => ?_, trivial, trivial⟩
      exact hm' d hd fun _ => hr hrec

/-- A put is refused, or is pending from then on, combined with those before it. -/
theorem put (h : Tracks s past x es) (ha : x.status = .active) (a : Accumulator V)
    (hc : s.Has a.base) (delta : V) :
    ∃ answer y, x.put (s.cell a.base) a.op delta = (answer, y) ∧
      Tracks s past y (es ++ if answer.isOk then [.put a delta] else []) := by
  have hact : x.checkActive = .ok () := by simp [Context.checkActive, Context.isActive, ha]
  cases hm : x.mode.onWrite with
  | none =>
    refine ⟨.error (.illegal (.writeInReadOnly x.id)), x,
      by simp [Context.put, Context.stage, hact, Context.forWriting, hm], ?_⟩
    simpa [Except.isOk, Except.toBool] using h
  | some mode =>
    have hdraft : draftOf (es ++ [.put a delta]) = (draftOf es).put a delta := draftOf_append ..
    obtain ⟨p, hp⟩ : ∃ p, ((draftOf es).put a delta).deltas a.base = some p := by
      cases hd : (draftOf es).deltas a.base <;> simp [Draft.put, hd]
    have hstage : x.deltas.stage a.base ⟨a.base, (s.cell a.base).type, .combine a.op delta⟩ =
        .ok (x.deltas.insert a.base ⟨a.base, (s.cell a.base).type, .combine p.1 p.2⟩) := by
      rw [WriteSet.stage, h.deltas a.base]
      cases hd : (draftOf es).deltas a.base <;>
        simp [Draft.put, hd, Change.merge, Except.map] at hp ⊢ <;> simp [← hp]
    refine ⟨.ok (), { x with
      mode, deltas := x.deltas.insert a.base ⟨a.base, (s.cell a.base).type, .combine p.1 p.2⟩ },
      ?_, ?_⟩
    · simp [Context.put, Context.stage, hact, Context.forWriting, hm, Context.bufferDelta, hstage,
        Except.map]
    obtain ⟨hrec, -, hne⟩ := recordsReads_of_onWrite hm
    change Tracks s past _ (es ++ [.put a delta])
    refine ⟨h.alone, ?_, fun d => ?_, fun d hd => ?_, fun hro => absurd hro hne, h.reads,
      fun m hm' => ?_⟩
    · rw [hdraft]
      exact h.writes
    · rw [hdraft]
      by_cases hdc : d = a.base
      · subst hdc
        simp [hp]
      · simpa [Draft.put, hdc] using h.deltas d
    · rw [hdraft] at hd
      by_cases hdc : d = a.base
      · exact hdc ▸ hc
      · exact h.known d (by simpa [Draft.Changes, Draft.put, hdc] using hd)
    · refine explains_append.2 ⟨h.explains m fun d hd hr => ?_, trivial, trivial⟩
      exact hm' d hd fun _ => hr hrec

/-- Every access of a live transaction keeps it tied to its log. -/
theorem serve (h : Tracks s past x es) (ha : x.status = .active) (hk : x.kind = none)
    (hsee : ∀ c, s.Has c → ∃ r, newestAt (past c) x.snapshot = some r ∧
      (s.cell c).readAt x.snapshot = .ok r) (q : Request V) (hq : s.Has q.cell) :
    Tracks s past (q.serve s x).2 (es ++ (q.serve s x).1) ∧ (q.serve s x).2.life = x.life := by
  cases q with
  | read c =>
    obtain ⟨r, hn, hr⟩ := hsee c hq
    obtain ⟨value, y, hread, hy, hm⟩ := h.read (c := c) ha hk hq hn hr
    have hl := x.life_read (s.cell c)
    simp only [Request.serve, hread] at hl ⊢
    exact ⟨hy.tell rfl fun m hmy => congrArg Except.ok (hm m hmy).symm, hl⟩
  | get a =>
    obtain ⟨r, hn, hr⟩ := hsee a.base hq
    obtain ⟨value, y, hget, hy, hm⟩ := h.get ha hk a hq hn hr
    have hl : (x.get (s.cell a.base) a.op).2.life = x.life := by simp
    simp only [Request.serve, hget] at hl ⊢
    exact ⟨hy.tell rfl fun m hmy => congrArg Except.ok (hm m hmy).symm, hl⟩
  | write c value =>
    obtain ⟨answer, y, hwrite, hy⟩ := h.write ha (c := c) hq value
    have hl := x.life_write (s.cell c) value
    simp only [Request.serve, hwrite] at hl ⊢
    exact ⟨hy, hl⟩
  | put a delta =>
    obtain ⟨answer, y, hput, hy⟩ := h.put ha a hq delta
    have hl : (x.put (s.cell a.base) a.op delta).2.life = x.life := x.life_stage _ _
    simp only [Request.serve, hput] at hl ⊢
    exact ⟨hy, hl⟩
  | modify c f =>
    obtain ⟨r, hn, hr⟩ := hsee c hq
    obtain ⟨value, y, hread, hy, hm⟩ := h.read (c := c) ha hk hq hn hr
    have hl := x.life_read (s.cell c)
    rw [hread] at hl
    have hy' := hy.tell (e := .read c (.ok value)) rfl
      fun m hmy => congrArg Except.ok (hm m hmy).symm
    obtain ⟨answer, z, hwrite, hz⟩ :=
      hy'.write (c := c) ((congrArg Life.status hl).trans ha) hq (f value)
    have hl' := y.life_write (s.cell c) (f value)
    simp only [Request.serve, hread, hwrite] at hl' ⊢
    rw [List.append_assoc] at hz
    exact ⟨hz, hl'.trans hl⟩

/-- What others do leaves a transaction tied to its log. -/
theorem mono {w w' : World V} {lives lives' : List Life} {past' : History V}
    (h : Tracks w.store past x es) (hp : w.Precedes lives past w' lives' past')
    (hs : x.snapshot ≤ (w.engine sole).version) : Tracks w'.store past' x es := by
  have hhas : ∀ c, w.store.Has c → w'.store.Has c :=
    fun c hc => ⟨hc.1, Nat.le_trans hc.2 hp.created_le⟩
  refine ⟨h.alone, fun c => ?_, fun c => ?_, fun c hc => hhas c (h.known c hc), h.readOnly,
    fun c v hv => ?_, fun m hm => ?_⟩
  · cases hd : (draftOf es).writes c with
    | none => simp [h.writes c, hd]
    | some value =>
      have hc : w.store.Has c := h.known c (.inl (by simp [hd]))
      simp [h.writes c, hd, hp.type_eq c hc]
  · cases hd : (draftOf es).deltas c with
    | none => simp [h.deltas c, hd]
    | some p =>
      have hc : w.store.Has c := h.known c (.inr (by simp [hd]))
      simp [h.deltas c, hd, hp.type_eq c hc]
  · obtain ⟨hc, hn⟩ := h.reads c v hv
    exact ⟨hhas c hc, by rw [hp.newestAt_eq c hc _ hs]; exact hn⟩
  · refine h.explains m fun c hc hr => ?_
    rw [← hp.newestAt_eq c hc _ hs]
    exact hm c (hhas c hc) hr

end Tracks

end VersionedMemory
