import VersionedMemory.Proofs.Anchors
import VersionedMemory.Proofs.Publication

/-!
# What cells still know of their history

From the floor on, a cell answers a snapshot as if nothing had ever been given up. A commit keeps
that, also one that is stopped midway: it publishes at a version newer than every cell. Compaction
keeps it because the floor to compact to is the floor from which the answers have to be right.

## Main definitions

* `Chain.Recalls` says that a chain answers every snapshot from a floor on as the whole history of
  the cell does.
* `Store.Recalls` says so of all cells, none of which is newer than the head of the engine.
-/

namespace VersionedMemory

variable {V : Type}

/-- The newest of some records, newest first, that a snapshot sees. -/
def newestAt (records : List (Record V)) (snapshot : Version) : Option (Record V) :=
  records.find? (·.version ≤ snapshot)

/-- The chain answers snapshots from the floor on as the history `past` of its cell does. -/
structure Chain.Recalls (c : Chain V) (floor : Version) (past : List (Record V)) : Prop where
  newest : past.head? = some c.head
  decreasing : past.Pairwise fun r r' => r'.version < r.version
  genesis : ∃ r ∈ past, r.version = genesis
  asOf_eq : ∀ v, floor ≤ v → c.asOf v = newestAt past v

namespace Chain.Recalls

variable {c : Chain V} {floor : Version} {past : List (Record V)}

theorem head_mem (h : c.Recalls floor past) : c.head ∈ past :=
  List.mem_of_mem_head? (by rw [h.newest]; rfl)

theorem exists_newestAt (h : c.Recalls floor past) (v : Version) :
    ∃ r, newestAt past v = some r := by
  obtain ⟨r, hr, hg⟩ := h.genesis
  refine Option.isSome_iff_exists.1 (List.find?_isSome.2 ⟨r, hr, ?_⟩)
  simp [hg, VersionedMemory.genesis]

theorem mono (h : c.Recalls floor past) {floor' : Version} (hf : floor ≤ floor') :
    c.Recalls floor' past :=
  ⟨h.newest, h.decreasing, h.genesis, fun v hv => h.asOf_eq v (Nat.le_trans hf hv)⟩

theorem compact (h : c.Recalls floor past) : (c.compact floor).Recalls floor past :=
  ⟨by rw [head_compact]; exact h.newest, h.decreasing, h.genesis,
    fun v hv => (asOf_compact hv c).trans (h.asOf_eq v hv)⟩

theorem single (value : V) : (Chain.single value VersionedMemory.genesis).Recalls floor
    [⟨VersionedMemory.genesis, value⟩] :=
  ⟨rfl, List.pairwise_singleton _ _, ⟨_, List.mem_singleton.2 rfl, rfl⟩, fun _ _ => rfl⟩

theorem version_le_head (h : c.Recalls floor past) {r : Record V} (hr : r ∈ past) :
    r.version ≤ c.head.version := by
  obtain ⟨rest, rfl⟩ := List.head?_eq_some_iff.1 h.newest
  rcases List.mem_cons.1 hr with rfl | hr
  · exact Nat.le_refl _
  · exact Nat.le_of_lt (List.rel_of_pairwise_cons h.decreasing hr)

/-- A snapshot that is not older than the head sees the head. -/
theorem newestAt_of_head_le (h : c.Recalls floor past) {v : Version} (hv : c.head.version ≤ v) :
    newestAt past v = some c.head := by
  obtain ⟨rest, rfl⟩ := List.head?_eq_some_iff.1 h.newest
  simp [newestAt, hv]

theorem eq_head (h : c.Recalls floor past) {r : Record V} (hr : r ∈ past)
    (hv : c.head.version ≤ r.version) : r = c.head := by
  obtain ⟨rest, rfl⟩ := List.head?_eq_some_iff.1 h.newest
  rcases List.mem_cons.1 hr with rfl | hr
  · rfl
  · exact absurd hv (Nat.not_le.2 (List.rel_of_pairwise_cons h.decreasing hr))

/-- Publishing at a newer version adds to the chain what it adds to the history. -/
theorem advance (h : c.Recalls floor past) {version : Version} (hv : c.head.version < version)
    (f : V → V) :
    (c.advance version f).Recalls floor (⟨version, f c.head.value⟩ :: past) where
  newest := rfl
  decreasing := List.pairwise_cons.2
    ⟨fun _ hr => Nat.lt_of_le_of_lt (h.version_le_head hr) hv, h.decreasing⟩
  genesis := by
    obtain ⟨r, hr, hg⟩ := h.genesis
    exact ⟨r, List.mem_cons_of_mem _ hr, hg⟩
  asOf_eq v hf := by
    have ha := h.asOf_eq v hf
    unfold asOf newestAt at ha ⊢
    rw [records_advance hv, List.find?_cons, List.find?_cons, ha]

end Chain.Recalls

/-- The record is the newest of the history that is not newer than the snapshot. -/
structure Record.IsNewest (r : Record V) (past : List (Record V)) (snapshot : Version) : Prop where
  mem : r ∈ past
  version_le : r.version ≤ snapshot
  newest : ∀ r' ∈ past, r'.version ≤ snapshot → r'.version ≤ r.version

theorem isNewest_of_newestAt {past : List (Record V)}
    (hd : past.Pairwise fun r r' => r'.version < r.version) {v : Version} {r : Record V}
    (h : newestAt past v = some r) : r.IsNewest past v := by
  refine ⟨List.mem_of_find?_eq_some h, by simpa using List.find?_some h, fun r' hr' hv => ?_⟩
  obtain ⟨-, l₁, l₂, rfl, hl⟩ := List.find?_eq_some_iff_append.1 h
  rcases List.mem_append.1 hr' with hm | hm
  · exact absurd hv (by simpa using hl r' hm)
  · rcases List.mem_cons.1 hm with rfl | hm
    · exact Nat.le_refl _
    · exact Nat.le_of_lt (List.rel_of_pairwise_cons (List.pairwise_append.1 hd).2.1 hm)

variable [Inhabited V]

/-- A change that is carried out publishes in its cell, at a version that is not older than the
head. -/
theorem Change.eq_advance_of_publish {c : Change V} {version : Version} {s s' : Store V}
    (h : c.publish version s = .ok s') :
    (s.cell c.target).chain.head.version ≤ version ∧
      ∃ f, s' = s.advance c.target version f := by
  unfold publish at h
  split at h
  · obtain ⟨x, hx, rfl⟩ := map_eq_ok_iff.1 h
    obtain ⟨chain, hc, rfl⟩ := map_eq_ok_iff.1 hx
    have hlt := (Chain.push_eq_ok_iff.1 hc).1
    rw [Chain.push_eq_advance hlt] at hc
    cases hc
    exact ⟨Nat.le_of_lt hlt, _, rfl⟩
  · obtain ⟨x, hx, rfl⟩ := map_eq_ok_iff.1 h
    obtain ⟨chain, hc, rfl⟩ := map_eq_ok_iff.1 hx
    have hle : (s.cell c.target).chain.head.version ≤ version := by
      rcases Chain.update_eq_ok_iff.1 hc with ⟨h, -⟩ | ⟨h, -⟩
      · exact Nat.le_of_eq h
      · exact Nat.le_of_lt h
    rw [Chain.update_eq_advance hle] at hc
    cases hc
    exact ⟨hle, _, rfl⟩

/-- Publication leaves a cell alone, or publishes in it, however often the cell is changed and
wherever publication stops. -/
theorem publishAll_cell (version : Version) (changes : List (Change V)) (s : Store V)
    (d : CellId) :
    let p := publishAll version changes s
    (d ∉ p.changed ∧ p.store.cell d = s.cell d) ∨
      (d ∈ p.changed ∧ d ∈ changes.map Change.target ∧
        ∃ f, p.store.cell d = (s.cell d).advance version f) := by
  induction changes generalizing s with
  | nil => exact .inl ⟨by simp [publishAll], rfl⟩
  | cons c rest ih =>
    unfold publishAll
    cases hc : c.publish version s with
    | error e => exact .inl ⟨by simp, rfl⟩
    | ok s' =>
      obtain ⟨-, f, rfl⟩ := Change.eq_advance_of_publish hc
      dsimp only
      have hcell := s.cell_advance c.target d version f
      by_cases hd : d = c.target
      · rw [if_pos hd] at hcell
        refine .inr ⟨by simp [hd], by simp [hd], ?_⟩
        rcases ih (s.advance c.target version f) with ⟨-, h⟩ | ⟨-, -, g, h⟩
        · exact ⟨f, h.trans hcell⟩
        · exact ⟨g ∘ f, by rw [h, hcell, Cell.advance_advance]⟩
      · rw [if_neg hd] at hcell
        rcases ih (s.advance c.target version f) with ⟨hn, h⟩ | ⟨hm, ht, g, h⟩
        · exact .inl ⟨by simpa [hd] using hn, h.trans hcell⟩
        · exact .inr ⟨by simp [hm], by simp [ht], g, by rw [h, hcell]⟩

theorem created_publishAll (version : Version) (changes : List (Change V)) (s : Store V) :
    (publishAll version changes s).store.created = s.created := by
  induction changes generalizing s with
  | nil => rfl
  | cons c rest ih =>
    unfold publishAll
    cases hc : c.publish version s with
    | error e => rfl
    | ok s' =>
      obtain ⟨-, f, rfl⟩ := Change.eq_advance_of_publish hc
      exact ih _

/-- Compaction leaves a cell alone or compacts it, once or more. -/
theorem compactAll_cell {floor : Version} {P : Cell V → Prop}
    (hP : ∀ x, P x → P (x.compact floor)) (cells : List CellId) {s : Store V} {d : CellId}
    (h : P (s.cell d)) : P ((compactAll floor cells s).2.cell d) := by
  induction cells generalizing s with
  | nil => exact h
  | cons c rest ih =>
    refine ih (s := s.compact c floor) ?_
    rw [Store.compact, Store.cell_set]
    split
    · next hd =>
      subst hd
      have := hP _ h
      simpa [Cell.compact] using this
    · exact h

theorem created_compactAll (floor : Version) (cells : List CellId) (s : Store V) :
    (compactAll floor cells s).2.created = s.created := by
  induction cells generalizing s with
  | nil => rfl
  | cons c rest ih => exact ih (s.compact c floor)

theorem type_compactAll (floor : Version) (cells : List CellId) (s : Store V) (d : CellId) :
    ((compactAll floor cells s).2.cell d).type = (s.cell d).type :=
  compactAll_cell (P := fun x => x.type = (s.cell d).type) (fun _ hx => hx) cells rfl

theorem head_compactAll (floor : Version) (cells : List CellId) (s : Store V) (d : CellId) :
    ((compactAll floor cells s).2.cell d).chain.head = (s.cell d).chain.head :=
  compactAll_cell (P := fun x => x.chain.head = (s.cell d).chain.head)
    (fun x hx => (x.chain.head_compact floor).trans hx) cells rfl

theorem Store.cell_set_handles (s : Store V) (c : CellId) (n : Nat) (d : CellId) :
    ((s.set c { s.cell c with handles := n }).cell d).chain = (s.cell d).chain ∧
      ((s.set c { s.cell c with handles := n }).cell d).latest = (s.cell d).latest ∧
      ((s.set c { s.cell c with handles := n }).cell d).type = (s.cell d).type := by
  rw [cell_set]
  split
  · next hd =>
    subst hd
    exact ⟨rfl, rfl, rfl⟩
  · exact ⟨rfl, rfl, rfl⟩

/-- The cells of a store answer snapshots from the floor on as the history does, and none of them is
newer than the head. What stands under identities that were not handed out yet has no history. -/
structure Store.Recalls (s : Store V) (floor head : Version) (past : History V) : Prop where
  mirrored : s.Mirrored
  behind : ∀ c, (s.cell c).chain.head.version ≤ head
  cells : ∀ c, s.Has c → (s.cell c).chain.Recalls floor (past c)
  unborn : ∀ c, ¬ s.Has c → past c = []

/-- What is noted of a store depends on the heads of its cells only. -/
theorem History.note_congr {past : History V} {s s' : Store V} (hc : s'.created = s.created)
    (h : ∀ c, (s'.cell c).chain.head = (s.cell c).chain.head) : past.note s' = past.note s := by
  funext c
  have hh : s'.Has c ↔ s.Has c := by simp only [Store.Has, hc]
  unfold note
  rw [h c]
  exact ite_congr (by rw [hh]) (fun _ => rfl) fun _ => rfl

namespace Store.Recalls

variable {s s' : Store V} {floor head : Version} {past : History V}

/-- There is nothing to note as long as every head is part of the history. -/
theorem note_eq (h : s.Recalls floor head past) : past.note s = past := by
  funext c
  refine if_neg fun ⟨hc, hall⟩ => ?_
  exact Nat.lt_irrefl _ (hall _ (h.cells c hc).head_mem)

theorem mono (h : s.Recalls floor head past) {floor' head' : Version} (hf : floor ≤ floor')
    (hh : head ≤ head') : s.Recalls floor' head' past where
  mirrored := h.mirrored
  behind c := Nat.le_trans (h.behind c) hh
  cells c hc := (h.cells c hc).mono hf
  unborn := h.unborn

/-- Whether the cells recall their history does not depend on the handles on them. -/
theorem quiet (h : s.Recalls floor head past) (hc : s'.created = s.created)
    (hs : ∀ c, (s'.cell c).chain = (s.cell c).chain ∧ (s'.cell c).latest = (s.cell c).latest) :
    s'.Recalls floor head past where
  mirrored c := by
    have := h.mirrored c
    simpa [Store.latest, (hs c).1, (hs c).2] using this
  behind c := (hs c).1 ▸ h.behind c
  cells c hc' := (hs c).1 ▸ h.cells c (by simpa [Has, hc] using hc')
  unborn c hn := h.unborn c (by simpa [Has, hc] using hn)

theorem note_of_head (h : s.Recalls floor head past) {c : CellId} (hc : s.Has c)
    (hh : (s'.cell c).chain.head = (s.cell c).chain.head) : past.note s' c = past c := by
  refine if_neg fun ⟨_, hall⟩ => ?_
  rw [hh] at hall
  exact Nat.lt_irrefl _ (hall _ (h.cells c hc).head_mem)

theorem cell_create_of_has (type : ContentType) (value : V) {c : CellId} (hc : s.Has c) :
    (s.create type value).2.cell c = s.cell c := by
  rw [cell_create, if_neg]
  rintro rfl
  exact Nat.not_succ_le_self _ hc.2

theorem note_create (h : s.Recalls floor head past) (type : ContentType) (value : V)
    {c : CellId} (hc : s.Has c) : past.note (s.create type value).2 c = past c :=
  h.note_of_head hc (by rw [cell_create_of_has type value hc])

/-- The history of a new cell is its first value. -/
theorem note_new (h : s.Recalls floor head past) (type : ContentType) (value : V) {c : CellId}
    (hc : (s.create type value).2.Has c) (hn : ¬ s.Has c) :
    past.note (s.create type value).2 c = [⟨genesis, value⟩] := by
  obtain rfl := ((s.has_create type value c).1 hc).resolve_left hn
  rw [History.note, h.unborn _ hn, cell_create, if_pos rfl]
  exact if_pos ⟨hc, fun r hr => nomatch hr⟩

theorem create (h : s.Recalls floor head past) (type : ContentType) (value : V) :
    (s.create type value).2.Recalls floor head (past.note (s.create type value).2) := by
  have hcell := s.cell_create type value
  have hhas := s.has_create type value
  refine ⟨fun c => ?_, fun c => ?_, fun c hc => ?_, fun c hc => ?_⟩
  · rw [Store.latest, hcell]
    split
    · rfl
    · exact h.mirrored c
  · rw [hcell]
    split
    · exact Nat.zero_le _
    · exact h.behind c
  · rcases (hhas c).1 hc with ho | rfl
    · rw [h.note_create type value ho, cell_create_of_has type value ho]
      exact h.cells c ho
    · rw [h.note_new type value hc fun ho => Nat.not_succ_le_self _ ho.2, hcell, if_pos rfl]
      exact .single value
  · rw [History.note, if_neg fun hc' => hc hc'.1]
    exact h.unborn c fun ho => hc ((hhas c).2 (.inl ho))

/-- Publication at a version newer than the head adds to the history of a cell what it adds to its
chain. -/
theorem note_publishAll (h : s.Recalls floor head past) {version : Version} (hv : head < version)
    (changes : List (Change V)) {c : CellId} (hc : s.Has c) :
    let p := VersionedMemory.publishAll version changes s
    (p.store.cell c = s.cell c ∧ past.note p.store c = past c) ∨
      ∃ f, p.store.cell c = (s.cell c).advance version f ∧
        past.note p.store c = ⟨version, f (s.cell c).chain.head.value⟩ :: past c := by
  intro p
  rcases publishAll_cell version changes s c with ⟨-, he⟩ | ⟨-, -, f, he⟩
  · exact .inl ⟨he, h.note_of_head hc (by rw [he])⟩
  · refine .inr ⟨f, he, ?_⟩
    have hc' : p.store.Has c := by simpa only [Has, p, created_publishAll] using hc
    rw [History.note, he]
    refine if_pos ⟨hc', fun r hr => ?_⟩
    exact Nat.lt_of_le_of_lt ((h.cells c hc).version_le_head hr)
      (Nat.lt_of_le_of_lt (h.behind c) hv)

/-- The cells recall their history after a publication at a version newer than the head, also if it
stops midway. -/
theorem publishAll (h : s.Recalls floor head past) {version : Version} (hv : head < version)
    (changes : List (Change V)) :
    let p := VersionedMemory.publishAll version changes s
    p.store.Recalls floor version (past.note p.store) := by
  intro p
  have hhas : ∀ c, p.store.Has c ↔ s.Has c := fun c => by
    simp only [Has, p, created_publishAll]
  have hlt : ∀ c, (s.cell c).chain.head.version < version :=
    fun c => Nat.lt_of_le_of_lt (h.behind c) hv
  refine ⟨fun c => ?_, fun c => ?_, fun c hc => ?_, fun c hc => ?_⟩
  · rw [Store.latest]
    rcases publishAll_cell version changes s c with ⟨-, he⟩ | ⟨-, -, f, he⟩
    · rw [he]
      exact h.mirrored c
    · rw [he]
      rfl
  · rcases publishAll_cell version changes s c with ⟨-, he⟩ | ⟨-, -, f, he⟩
    · rw [he]
      exact Nat.le_of_lt (hlt c)
    · rw [he]
      exact Nat.le_refl _
  · have hr := h.cells c ((hhas c).1 hc)
    rcases h.note_publishAll hv changes ((hhas c).1 hc) with ⟨he, hn⟩ | ⟨f, he, hn⟩
    · rw [hn, he]
      exact hr
    · rw [hn, he]
      exact hr.advance (hlt c) f
  · rw [History.note, if_neg fun hc' => hc hc'.1]
    exact h.unborn c fun ho => hc ((hhas c).2 ho)

/-- The cells recall their history after a compaction to the floor. -/
theorem compactAll (h : s.Recalls floor head past) (cells : List CellId) :
    (VersionedMemory.compactAll floor cells s).2.Recalls floor head past := by
  have hcreated := created_compactAll floor cells s
  refine ⟨fun c => ?_, fun c => ?_, fun c hc => ?_, fun c hc => ?_⟩
  · exact compactAll_cell (P := fun x => x.latest = x.chain.head.version)
      (fun x hx => by simpa [Cell.compact] using hx) cells (h.mirrored c)
  · exact compactAll_cell (P := fun x => x.chain.head.version ≤ head)
      (fun x hx => by simpa [Cell.compact] using hx) cells (h.behind c)
  · exact compactAll_cell (P := fun x => x.chain.Recalls floor (past c))
      (fun x hx => hx.compact) cells (h.cells c (by simpa [Has, hcreated] using hc))
  · exact h.unborn c (by simpa [Has, hcreated] using hc)

end Store.Recalls

end VersionedMemory
