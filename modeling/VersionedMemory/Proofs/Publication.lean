import VersionedMemory.Proofs.Buffers

/-!
# Commit is all or nothing

Publication carries changes out one after the other and stops where a cell refuses. What keeps it
from stopping in the middle is the test before it: if every cell to be changed is behind the new
version, then each plain write is pushed on its chain, and a delta is either pushed or combined into
the record that the write before it has just published. So the changes of one commit to one cell
come to a single record.

## Main definitions

* `Store.Arises` is every store that cells can be brought to, by hand or by engines.
* `Store.publishing` is the store that an unhindered publication leaves.
* `Context.Ordinary` is a top-level transaction whose bodies wrote and put, but staged nothing by
  hand.
* `Engine.Committed.PublishesAll` and `World.PublishesNothing` are the two ways a commit ends.

## Main statements

* `publishAll_eq`: publication is unhindered where every change fits.
* `commit_all_or_nothing`: a read-write commit publishes all that is buffered, and a failed one
  nothing.
-/

namespace VersionedMemory

variable {V : Type}

/-- What the effect makes of the newest value. -/
def Effect.apply : Effect V → V → V
  | .assign value, _ => value
  | .combine op delta, current => op current delta

namespace Chain

/-- The chain with `f` of its newest value published at `version`, where `version` is not older than
the head. -/
def advance (c : Chain V) (version : Version) (f : V → V) : Chain V :=
  ⟨⟨version, f c.head.value⟩, if c.head.version = version then c.older else c.records⟩

@[simp] theorem head_advance (c : Chain V) (version : Version) (f : V → V) :
    (c.advance version f).head = ⟨version, f c.head.value⟩ := rfl

theorem records_advance {c : Chain V} {version : Version} (h : c.head.version < version)
    (f : V → V) : (c.advance version f).records = ⟨version, f c.head.value⟩ :: c.records := by
  simp [advance, records, Nat.ne_of_lt h]

theorem push_eq_advance {c : Chain V} {version : Version} (h : c.head.version < version)
    (value : V) : c.push value version = .ok (c.advance version fun _ => value) := by
  rw [push_eq_ok_iff]
  simp [h, advance, Nat.ne_of_lt h]

theorem update_eq_advance {c : Chain V} {version : Version} (h : c.head.version ≤ version)
    (f : V → V) : c.update version f = .ok (c.advance version f) := by
  rw [update_eq_ok_iff]
  rcases Nat.eq_or_lt_of_le h with he | hl
  · exact .inl ⟨he, by simp [advance, he]⟩
  · exact .inr ⟨hl, by simp [advance, Nat.ne_of_lt hl]⟩

/-- What is published twice at one version leaves one record. -/
theorem advance_advance (c : Chain V) (version : Version) (f g : V → V) :
    (c.advance version f).advance version g = c.advance version (g ∘ f) := by
  simp [advance]

end Chain

/-- The cell with `f` of its newest value published at `version`. -/
def Cell.advance (x : Cell V) (version : Version) (f : V → V) : Cell V :=
  { x with chain := x.chain.advance version f, latest := version }

theorem Cell.advance_advance (x : Cell V) (version : Version) (f g : V → V) :
    (x.advance version f).advance version g = x.advance version (g ∘ f) := by
  simp [advance, Chain.advance_advance]

variable [Inhabited V]

namespace Store

/-- The store with `f` of a cell's newest value published at `version`. -/
def advance (s : Store V) (c : CellId) (version : Version) (f : V → V) : Store V :=
  s.set c ((s.cell c).advance version f)

theorem cell_advance (s : Store V) (c d : CellId) (version : Version) (f : V → V) :
    (s.advance c version f).cell d =
      if d = c then (s.cell d).advance version f else s.cell d := by
  rw [advance, cell_set]
  split
  · next h =>
    subst h
    simp [Cell.advance]
  · rfl

/-- The newest version of every cell is the one kept beside its chain. -/
def Mirrored (s : Store V) : Prop := ∀ c, s.latest c = (s.cell c).chain.head.version

/-- The stores that come about: cells are created, given and taken handles on, published to and
compacted, by hand at whatever version a cell accepts or by the commits of engines. -/
inductive Arises : Store V → Prop
  | empty : Arises .empty
  | create {s} (type : ContentType) (value : V) : Arises s → Arises (s.create type value).2
  | assign {s s'} {c : CellId} {value : V} {version : Version} :
    Arises s → s.assign c value version = .ok s' → Arises s'
  | update {s s'} {c : CellId} {version : Version} {f : V → V} :
    Arises s → s.update c version f = .ok s' → Arises s'
  | compact {s} (c : CellId) (floor : Version) : Arises s → Arises (s.compact c floor)
  | retain {s} (c : CellId) : Arises s → Arises (s.retain c)
  | release {s} (c : CellId) : Arises s → Arises (s.release c)

theorem Mirrored.set {s : Store V} (h : s.Mirrored) (c : CellId) {x : Cell V}
    (hx : x.latest = x.chain.head.version) : (s.set c x).Mirrored := by
  intro d
  rw [latest, cell_set]
  split
  · exact hx
  · exact h d

theorem Arises.mirrored {s : Store V} (h : s.Arises) : s.Mirrored := by
  induction h with
  | empty => exact fun _ => rfl
  | create type value _ ih =>
    intro d
    rw [latest, cell_create]
    split
    · rfl
    · exact ih d
  | assign _ hs ih =>
    obtain ⟨x, hx, rfl⟩ := map_eq_ok_iff.1 hs
    obtain ⟨chain, hc, rfl⟩ := map_eq_ok_iff.1 hx
    obtain ⟨-, rfl⟩ := Chain.push_eq_ok_iff.1 hc
    exact ih.set _ rfl
  | update _ hs ih =>
    obtain ⟨x, hx, rfl⟩ := map_eq_ok_iff.1 hs
    obtain ⟨chain, hc, rfl⟩ := map_eq_ok_iff.1 hx
    refine ih.set _ ?_
    rcases Chain.update_eq_ok_iff.1 hc with ⟨-, rfl⟩ | ⟨-, rfl⟩ <;> rfl
  | compact c floor _ ih => exact ih.set c (by simpa [Cell.compact, latest] using ih c)
  | retain c _ ih => exact ih.set c (ih c)
  | release c _ ih => exact ih.set c (ih c)

/-- The store after the changes were all carried out at `version`. -/
def publishing (s : Store V) (version : Version) (changes : List (Change V)) : Store V :=
  changes.foldl (fun s c => s.advance c.target version c.effect.apply) s

/-- A cell only sees the changes that target it. -/
theorem cell_publishing (s : Store V) (version : Version) (changes : List (Change V))
    (d : CellId) :
    (s.publishing version changes).cell d =
      (changes.filter (·.target = d)).foldl (fun x c => x.advance version c.effect.apply)
        (s.cell d) := by
  induction changes generalizing s with
  | nil => rfl
  | cons c rest ih =>
    rw [publishing, List.foldl_cons, ← publishing, ih, cell_advance]
    by_cases h : d = c.target
    · simp [h]
    · simp [h, Ne.symm h]

end Store

namespace Change

/-- The target accepts the change at `version`: a write needs an older head, a delta one that is not
newer. -/
def Fits (version : Version) (s : Store V) (c : Change V) : Prop :=
  (s.cell c.target).chain.head.version < version ∨
    ((s.cell c.target).chain.head.version = version ∧ ∃ op delta, c.effect = .combine op delta)

theorem publish_eq {version : Version} {s : Store V} {c : Change V} (h : c.Fits version s) :
    c.publish version s = .ok (s.advance c.target version c.effect.apply) := by
  unfold publish
  cases he : c.effect with
  | assign value =>
    have hl : (s.cell c.target).chain.head.version < version := by
      rcases h with h | ⟨-, op, delta, hd⟩
      · exact h
      · rw [he] at hd
        cases hd
    simp only [Store.assign, Cell.assign, Chain.push_eq_advance hl]
    rfl
  | combine op delta =>
    have hl : (s.cell c.target).chain.head.version ≤ version :=
      h.elim Nat.le_of_lt fun h => Nat.le_of_eq h.1
    simp only [Store.update, Cell.update, Chain.update_eq_advance hl]
    rfl

/-- A change goes on fitting while others are carried out, as long as no write follows a change to
the same cell. -/
theorem Fits.advance {version : Version} {s : Store V} {c d : Change V} (hd : d.Fits version s)
    (h : c.target = d.target → ∃ op delta, d.effect = .combine op delta) :
    d.Fits version (s.advance c.target version c.effect.apply) := by
  unfold Fits at hd ⊢
  rw [Store.cell_advance]
  by_cases ht : d.target = c.target
  · rw [if_pos ht]
    exact .inr ⟨rfl, h ht.symm⟩
  · rw [if_neg ht]
    exact hd

end Change

/-- Where every change fits, and no write follows a change to the same cell, all are carried out. -/
theorem publishAll_eq {version : Version} {s : Store V} {changes : List (Change V)}
    (hf : ∀ c ∈ changes, c.Fits version s)
    (hp : changes.Pairwise fun c d =>
      c.target = d.target → ∃ op delta, d.effect = .combine op delta) :
    publishAll version changes s =
      { store := s.publishing version changes, changed := changes.map Change.target } := by
  induction changes generalizing s with
  | nil => rfl
  | cons c rest ih =>
    obtain ⟨hc, hrest⟩ := List.pairwise_cons.1 hp
    simp only [List.forall_mem_cons] at hf
    simp only [publishAll, Change.publish_eq hf.1]
    rw [ih (fun d hd => (hf.2 d hd).advance (hc d hd)) hrest]
    rfl

namespace Context

/-- What a commit makes of the newest value of a cell: the write, then the delta. -/
def resultAt (x : Context V) (c : CellId) (current : V) : V :=
  let written := (x.writes.get? c).elim current (·.effect.apply current)
  (x.deltas.get? c).elim written (·.effect.apply written)

def Changes (x : Context V) (c : CellId) : Prop :=
  x.writes.contains c = true ∨ x.deltas.contains c = true

instance (x : Context V) (c : CellId) : Decidable (x.Changes c) :=
  inferInstanceAs (Decidable (_ ∨ _))

omit [Inhabited V] in
theorem changes_eq_nil_iff_forall {x : Context V} : x.changes = [] ↔ ∀ c, ¬ x.Changes c := by
  simp [changes, Table.values_eq_nil_iff, Changes, Table.contains, forall_and]

/-- The transactions whose buffers were filled by writes and puts alone: bodies ran on them, one
after the other, which opened whatever children and batches. -/
inductive Ordinary : Context V → Prop
  | begin (id : TxnId) (engine : EngineId) (anchor : Anchor) (mode : Mode) :
    Ordinary (.begin id engine anchor mode)
  | perform {σ R : Type} {x : Context V} (p : Program V R) (h : Host V σ) :
    Ordinary x → p.Obeys (.plain V) → Ordinary (p.run.run ⟨x, h⟩).2.context

theorem Ordinary.within {x : Context V} (h : x.Ordinary) : x.Within (.plain V) := by
  induction h with
  | begin id engine anchor mode => exact within_begin id engine anchor mode
  | perform p h _ hp ih => exact p.run_keeps hp _ ih

end Context

omit [Inhabited V] in
/-- Where each change stands under the cell that it changes, a cell is changed once. -/
theorem WriteSet.filter_values {ws : WriteSet V} (h : ws.All fun c x => x.target = c)
    (d : CellId) : ws.values.filter (·.target = d) = (Table.get? ws d).toList := by
  have he : ∀ e ∈ ws.entries, (decide (e.2.target = d)) = decide (e.1 = d) :=
    fun e he => by rw [h e.1 e.2 (Table.get?_eq_some_iff.2 he)]
  rw [Table.values, List.filter_map]
  have hf : ws.entries.filter ((fun x => decide (x.target = d)) ∘ Prod.snd) =
      ws.entries.filter (·.1 = d) := List.filter_congr he
  rw [hf, Table.filter_entries]
  cases Table.get? ws d <;> rfl

omit [Inhabited V] in
theorem WriteSet.map_target_values {ws : WriteSet V} (h : ws.All fun c x => x.target = c) :
    ws.values.map Change.target = ws.keys := by
  rw [Table.values, List.map_map]
  exact List.map_congr_left fun e he => h e.1 e.2 (Table.get?_eq_some_iff.2 he)

namespace Context

variable {x : Context V}

omit [Inhabited V] in
/-- No write follows a change to the same cell. -/
theorem Within.pairwise_changes (h : x.Within (.plain V)) :
    x.changes.Pairwise fun c d =>
      c.target = d.target → ∃ op delta, d.effect = .combine op delta := by
  have hd : ∀ d ∈ x.deltas.values, ∃ op delta, d.effect = .combine op delta := by
    intro d hd
    obtain ⟨k, hk⟩ := Table.mem_values.1 hd
    exact (h.deltas k d hk).2
  have hk : x.writes.values.Pairwise fun c d => c.target ≠ d.target := by
    rw [← List.pairwise_map (f := Change.target) (R := (· ≠ ·)),
      WriteSet.map_target_values fun c a ha => (h.writes c a ha).1]
    exact x.writes.nodup_keys
  refine List.pairwise_append.2 ⟨hk.imp fun hne he => absurd he hne, ?_, ?_⟩
  · exact List.pairwise_of_forall_mem_list fun c _ d hd' _ => hd d hd'
  · exact fun c _ d hd' _ => hd d hd'

/-- Publication of buffers within the plain discipline goes through where every cell to be changed
is behind the new version. -/
theorem Within.publishAll_eq (h : x.Within (.plain V)) {s : Store V} (hs : s.Mirrored)
    {version : Version} (ha : aheadOf? version x.changes s = none) :
    publishAll version x.changes s =
      { store := s.publishing version x.changes, changed := x.changes.map Change.target } := by
  refine VersionedMemory.publishAll_eq (fun c hc => .inl ?_) h.pairwise_changes
  rw [← hs]
  simp only [aheadOf?, Option.map_eq_none_iff, List.find?_eq_none] at ha
  simpa using ha c hc

theorem Within.cell_publishing (h : x.Within (.plain V)) (s : Store V) (version : Version)
    (c : CellId) :
    (s.publishing version x.changes).cell c =
      if x.Changes c then (s.cell c).advance version (x.resultAt c) else s.cell c := by
  rw [Store.cell_publishing, changes, List.filter_append,
    WriteSet.filter_values (fun c a ha => (h.writes c a ha).1),
    WriteSet.filter_values (fun c a ha => (h.deltas c a ha).1)]
  by_cases hc : x.Changes c
  · rw [if_pos hc]
    unfold Changes Table.contains at hc
    unfold resultAt
    revert hc
    cases Table.get? x.writes c <;> cases Table.get? x.deltas c <;>
      simp [Cell.advance_advance, Function.comp_def]
  · rw [if_neg hc]
    unfold Changes Table.contains at hc
    revert hc
    cases Table.get? x.writes c <;> cases Table.get? x.deltas c <;> simp

end Context

namespace Engine

variable {g : Engine} {x : Context V} {s : Store V}

/-- The answer of publication, and the store that it leaves. -/
theorem publish_outcome (g : Engine) (x : Context V) (s : Store V) :
    ((g.publish x s).result, (g.publish x s).store) =
      match x.superseded? s with
      | some cause => (.error (.conflict x.id cause), s)
      | none =>
        match aheadOf? (g.version + 1) x.changes s with
        | some c => (.error (.internal (.aheadOfHead c (s.latest c) g.version)), s)
        | none =>
          let p := publishAll (g.version + 1) x.changes s
          (p.failed.elim (.ok ⟨x.id, g.version + 1, x.written.length, false⟩) .error, p.store) := by
  unfold publish
  cases x.superseded? s with
  | some cause => rfl
  | none =>
    dsimp only
    cases aheadOf? (g.version + 1) x.changes s with
    | some c => rfl
    | none =>
      dsimp only
      cases (publishAll (g.version + 1) x.changes s).failed <;> rfl

/-- The answer of a commit that has something to publish, and the store that it leaves. -/
theorem commit_outcome (g : Engine) {x : Context V} (hx : x.changes ≠ []) (s : Store V) :
    ((g.commit x s).result, (g.commit x s).store) =
      match g.hooks.observer.bind fun refuse => refuse x.id x.written with
      | some reason => (.error (.conflict x.id (.vetoed reason)), s)
      | none => ((g.publish x s).result, (g.publish x s).store) := by
  unfold commit
  rw [if_neg fun he => hx (Context.changes_eq_nil_iff.2 he)]
  unfold observe
  cases g.hooks.observer.bind fun refuse => refuse x.id x.written with
  | some reason => rfl
  | none =>
    refine (publish_outcome _ x s).trans (publish_outcome g x s).symm

/-- Publication of plain writes and puts is not stopped midway, so a commit that fails has changed
nothing but the anchors. -/
theorem commit_error (hs : s.Mirrored) (hx : x.Within (.plain V)) {e : Error}
    (he : (g.commit x s).result = .error e) :
    ((∃ cause, e = .conflict x.id cause) ∨
        ∃ c held head, e = .internal (.aheadOfHead c held head)) ∧
      (g.commit x s).store = s ∧ (g.commit x s).engine.timeline = g.timeline.leave x.anchor := by
  rcases (g.commit_cases x s).2 with ⟨-, hok, -⟩ | ⟨e', he', hkind, hst, htl⟩ |
    ⟨-, -, ha, p, rfl, -, -, hres⟩
  · cases hok.symm.trans he
  · cases he'.symm.trans he
    exact ⟨hkind, hst, htl⟩
  · rw [hx.publishAll_eq hs ha] at hres
    cases hres.symm.trans he

/-- What a read-write commit of plain writes and puts publishes. -/
theorem commit_ok (hs : s.Mirrored) (hx : x.Within (.plain V)) {r : Receipt}
    (hr : (g.commit x s).result = .ok r) (hro : r.readOnly = false) :
    r.version = g.version + 1 ∧ (g.commit x s).engine.version = r.version ∧
      aheadOf? r.version x.changes s = none ∧
      (g.commit x s).store = s.publishing r.version x.changes := by
  rcases (g.commit_cases x s).2 with ⟨-, hok, -⟩ | ⟨e, he, -⟩ |
    ⟨-, -, ha, p, rfl, hst, htl, hres⟩
  · cases hok.symm.trans hr
    cases hro
  · cases he.symm.trans hr
  · rw [hx.publishAll_eq hs ha] at hres hst htl
    cases hres.symm.trans hr
    refine ⟨rfl, ?_, ha, hst⟩
    rw [version, htl]
    simp [Timeline.publish]

end Engine

/-- A cell with a buffered change is behind the version that a commit publishes. -/
theorem Context.Changes.behind {x : Context V} (hx : x.Within (.plain V)) {s : Store V}
    (hs : s.Mirrored) {version : Version} (ha : aheadOf? version x.changes s = none) {c : CellId}
    (hc : x.Changes c) : (s.cell c).chain.head.version < version := by
  have ht : ∃ d ∈ x.changes, d.target = c := by
    rcases hc with h | h <;> obtain ⟨d, hd⟩ := Option.isSome_iff_exists.1 h
    · exact ⟨d, List.mem_append_left _ (Table.mem_values.2 ⟨c, hd⟩), (hx.writes c d hd).1⟩
    · exact ⟨d, List.mem_append_right _ (Table.mem_values.2 ⟨c, hd⟩), (hx.deltas c d hd).1⟩
  obtain ⟨d, hd, rfl⟩ := ht
  simp only [aheadOf?, Option.map_eq_none_iff, List.find?_eq_none] at ha
  rw [← hs]
  simpa using ha d hd

/-- The commit publishes all that the transaction has buffered. The head moves by one version, and
every cell with a buffered change gains a record of that version, which holds the pending value, or
the newest one, with the delta combined in. -/
structure Engine.Committed.PublishesAll (done : Engine.Committed V) (w : World V) (x : Context V)
    (r : Receipt) : Prop where
  version : r.version = (w.engine x.engine).version + 1
  head : done.engine.version = r.version
  latest : ∀ c, x.Changes c → (done.store.cell c).latest = r.version
  records : ∀ c, x.Changes c → (done.store.cell c).chain.records =
    ⟨r.version, x.resultAt c (w.store.cell c).value⟩ :: (w.store.cell c).chain.records
  unchanged : ∀ c, ¬ x.Changes c → done.store.cell c = w.store.cell c

/-- The commit fails before anything is published. It changes no cell, and nothing on the timeline
but the anchor that it gives back. -/
structure World.PublishesNothing (w after : World V) (x : Context V) (e : Error) : Prop where
  cause : (∃ cause, e = .conflict x.id cause) ∨
    ∃ c held head, e = .internal (.aheadOfHead c held head)
  store : after.store = w.store
  timeline : (after.engine x.engine).timeline = (w.engine x.engine).timeline.leave x.anchor
  version : (after.engine x.engine).version = (w.engine x.engine).version

/-- Commit is all or nothing, over whatever cells and for whatever observer. -/
theorem commit_all_or_nothing {w : World V} {x : Context V} (hw : w.store.Arises)
    (hx : x.Ordinary) (ha : x.isActive = true) (ht : x.isChild = false) :
    let done := (w.engine x.engine).commit x w.store
    (w.commit x).1 = done.result ∧
      (∀ r, done.result = .ok r → r.readOnly = false → done.PublishesAll w x r) ∧
      ∀ e, done.result = .error e → w.PublishesNothing (w.commit x).2 x e := by
  intro done
  have hm := hw.mirrored
  obtain ⟨hres, hafter⟩ := w.commit_eq ha ht
  refine ⟨hres, fun r hr hro => ?_, fun e he => ?_⟩
  · obtain ⟨hv, hhead, haway, hst⟩ := Engine.commit_ok hm hx.within hr hro
    have hcell : ∀ c, done.store.cell c =
        if x.Changes c then (w.store.cell c).advance r.version (x.resultAt c)
        else w.store.cell c := by
      rw [hst]
      exact hx.within.cell_publishing w.store r.version
    refine ⟨hv, hhead, fun c hc => ?_, fun c hc => ?_, fun c hc => ?_⟩
    · rw [hcell, if_pos hc]
      rfl
    · rw [hcell, if_pos hc]
      exact Chain.records_advance (hc.behind hx.within hm haway) _
    · rw [hcell, if_neg hc]
  · obtain ⟨hkind, hst, htl⟩ := Engine.commit_error hm hx.within he
    -- No reclamation pass follows a commit that failed.
    have hw' : (w.commit x).2 =
        { w with store := done.store }.setEngine x.engine done.engine := by
      rcases hafter with h | ⟨receipt, hr, -⟩
      · exact h
      · cases hr.symm.trans he
    have hg : (w.commit x).2.engine x.engine = done.engine := by
      rw [hw', World.engine_setEngine, if_pos rfl]
    refine ⟨hkind, by rw [hw']; exact hst, by rw [hg]; exact htl, ?_⟩
    rw [hg, Engine.version, htl]
    exact Timeline.version_head_leave _ _

/-- A cell that is written and put to in one transaction gains one record for both. -/
theorem commit_write_and_put :
    let w : World Nat := ((World.create [Engine.create]).createCell 0 0 5).2
    let p : Program Nat Unit := .write ⟨1⟩ 7 fun _ => .put ⟨⟨1⟩, (· + ·)⟩ 3 fun _ => .done ()
    let x := (p.run.run ⟨.begin ⟨1⟩ 0 ⟨0, 0⟩ .readWrite, ⟨w, ()⟩⟩).2.context
    (((w.engine x.engine).commit x w.store).store.cell ⟨1⟩).chain.records =
      [⟨1, 10⟩, ⟨0, 5⟩] := by
  intro w p x
  have hp : p.Obeys (.plain Nat) :=
    ⟨fun _ => ⟨rfl, 7, rfl⟩, fun _ => ⟨fun _ => ⟨rfl, _, 3, rfl⟩, fun _ => trivial⟩⟩
  have hx : x.Ordinary := .perform p ⟨w, ()⟩ (.begin ⟨1⟩ 0 ⟨0, 0⟩ .readWrite) hp
  have h := commit_all_or_nothing (w := w) (x := x) (.create 0 5 .empty) hx
    (by decide +kernel) (by decide +kernel)
  have hr : ((w.engine x.engine).commit x w.store).result = .ok ⟨⟨1⟩, 1, 2, false⟩ := by rfl
  have hc : x.Changes ⟨1⟩ := by decide +kernel
  rw [(h.2.1 _ hr rfl).records ⟨1⟩ hc]
  decide +kernel

end VersionedMemory
