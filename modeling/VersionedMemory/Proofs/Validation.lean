import VersionedMemory.Proofs.Logs

/-!
# What validation is for

What a committed transaction read is what was committed right before the version that it published:
validation found no newer version of a cell that it relies on. So its log is right on the committed
state before it, and leads from there to the committed state after it.

## Main definitions

* `Commitment.Fits` says that the log of a committed transaction leads from one committed state to
  the next.

## Main statements

* `Tracks.agrees_of_shows`: what a transaction that passed validation relies on is what is newest.
* `Tracks.fits_readOnly`, `Tracks.fits_publication`: its log fits when it is committed.
-/

namespace VersionedMemory

variable {V : Type} [Inhabited V]

omit [Inhabited V] in
/-- The version after which a committed transaction is replayed: its snapshot, or the version that
it published. -/
def Commitment.place (t : Commitment V) : Version :=
  if t.receipt.readOnly then t.snapshot else t.receipt.version

omit [Inhabited V] in
/-- The version whose state a committed transaction has read: its snapshot, or what was committed
right before it. -/
def Commitment.base (t : Commitment V) : Version :=
  if t.receipt.readOnly then t.snapshot else t.receipt.version - 1

/-- The log of a committed transaction is right on the committed state before it, and what it makes
of this state is the committed state after it. -/
structure Commitment.Fits (t : Commitment V) (s : Store V) (past : History V) (head : Version) :
    Prop where
  place_le : t.place ≤ head
  known : ∀ c, (draftOf t.events).Changes c → s.Has c
  explains : ∀ m, Shows s past t.base m → Explains m {} t.events
  shows : ∀ m, Shows s past t.base m → Shows s past t.place (t.apply m)

section

variable {w w' : World V} {lives lives' : List Life} {past past' : History V}

/-- What is shown later was shown before. -/
theorem Shows.of_precedes {m : Plain V} {v : Version} (hp : w.Precedes lives past w' lives' past')
    (hv : v ≤ (w.engine sole).version) (h : Shows w'.store past' v m) :
    Shows w.store past v m := by
  intro c hc
  rw [← hp.newestAt_eq c hc v hv]
  exact h c ⟨hc.1, Nat.le_trans hc.2 hp.created_le⟩

omit [Inhabited V] in
theorem Commitment.base_le (t : Commitment V) : t.base ≤ t.place := by
  unfold base place
  split
  · exact Nat.le_refl _
  · exact Nat.sub_le _ _

theorem Commitment.Fits.mono {t : Commitment V}
    (h : t.Fits w.store past (w.engine sole).version)
    (hp : w.Precedes lives past w' lives' past') :
    t.Fits w'.store past' (w'.engine sole).version := by
  have hb : t.base ≤ (w.engine sole).version := Nat.le_trans t.base_le h.place_le
  refine ⟨Nat.le_trans h.place_le hp.version_le, fun c hc => ?_, fun m hm => ?_,
    fun m hm c hc => ?_⟩
  · have := h.known c hc
    exact ⟨this.1, Nat.le_trans this.2 hp.created_le⟩
  · exact h.explains m (hm.of_precedes hp hb)
  · by_cases hold : w.store.Has c
    · rw [hp.newestAt_eq c hold _ h.place_le]
      exact h.shows m (hm.of_precedes hp hb) c hold
    · -- A cell created since is none that the transaction changed.
      have hm' : t.apply m c = m c := Draft.apply_of_not_changes (fun hch => hold (h.known c hch)) m
      rw [hm', hp.born c hc hold _ h.place_le, ← hp.born c hc hold _ hb]
      exact hm c hc

end

/-- What a transaction that only wrote and put has buffered stands under the cells that it changes:
its writes assign, and its deltas combine. -/
theorem Tracks.within {s : Store V} {past : History V} {x : Context V} {es : List (Event V)}
    (h : Tracks s past x es) : x.Within (.plain V) := by
  refine ⟨fun c a ha => ?_, fun c a ha => ?_, fun ws hws => ?_⟩
  · rw [h.writes c] at ha
    obtain ⟨value, -, rfl⟩ := Option.map_eq_some_iff.1 ha
    exact ⟨rfl, value, rfl⟩
  · rw [h.deltas c] at ha
    obtain ⟨p, -, rfl⟩ := Option.map_eq_some_iff.1 ha
    exact ⟨rfl, p.1, p.2, rfl⟩
  · rw [h.alone.2] at hws
    cases hws

section

variable {w : World V} {past : History V} {x : Context V} {es : List (Event V)}
  {lives : List Life}

/-- What a commit makes of the newest value is what the replay makes of it. -/
theorem Tracks.resultAt_eq {s : Store V} (h : Tracks s past x es) (m : Plain V) (c : CellId) :
    x.resultAt c (m c) = (draftOf es).apply m c := by
  unfold Context.resultAt Draft.apply Draft.read
  rw [h.writes c, h.deltas c]
  cases (draftOf es).writes c <;> cases (draftOf es).deltas c <;> rfl

theorem Tracks.changes_iff {s : Store V} (h : Tracks s past x es) (c : CellId) :
    x.Changes c ↔ (draftOf es).Changes c := by
  simp [Context.Changes, Draft.Changes, Table.contains, h.writes c, h.deltas c]

/-- Validation: where no recorded read was superseded, the newest values are those that the snapshot
sees, as far as the transaction relies on them. -/
theorem Tracks.agrees_of_shows (h : Tracks w.store past x es) (hs : w.Serves lives past)
    (hrec : x.mode.recordsReads = true)
    (hsup : x.superseded? w.store = none) {m : Plain V}
    (hm : Shows w.store past (w.engine sole).version m) : x.Agrees w.store past m := by
  intro c hc hr
  obtain ⟨v, hv⟩ := Option.isSome_iff_exists.1 (hr hrec)
  obtain ⟨-, hn⟩ := h.reads c v hv
  obtain ⟨rec, hrec', rfl⟩ := Option.map_eq_some_iff.1 hn
  have hcell := hs.recalls.cells c hc
  have hlatest : (w.store.cell c).chain.head.version ≤ rec.version := by
    have hnone := List.findSome?_eq_none_iff.1 hsup (c, rec.version) (Table.get?_eq_some_iff.1 hv)
    rw [← hs.recalls.mirrored c]
    simpa using hnone
  have hnewest := isNewest_of_newestAt hcell.decreasing hrec'
  rw [hrec', hcell.eq_head hnewest.mem hlatest]
  rw [← hm c hc, hcell.newestAt_of_head_le (hs.recalls.behind c)]

/-- A commit that had nothing to publish fits at its snapshot. -/
theorem Tracks.fits_readOnly (h : Tracks w.store past x es)
    (hle : x.snapshot ≤ (w.engine sole).version) (hch : x.changes = []) (begun ended : Nat) :
    (⟨⟨x.id, x.snapshot, 0, true⟩, x.snapshot, begun, ended, es⟩ : Commitment V).Fits w.store past
      (w.engine sole).version := by
  have hnone : ∀ c, ¬ (draftOf es).Changes c := fun c hc =>
    Context.changes_eq_nil_iff_forall.1 hch c ((h.changes_iff c).2 hc)
  have happly : ∀ m, (draftOf es).apply m = m := fun m =>
    funext fun c => Draft.apply_of_not_changes (hnone c) m
  refine ⟨hle, fun c hc => absurd hc (hnone c), fun m hm => h.explains m fun c hc _ => hm c hc,
    fun m hm => ?_⟩
  change Shows w.store past x.snapshot ((draftOf es).apply m)
  rw [happly]
  exact hm

/-- A commit that published fits at the version that it published. -/
theorem Tracks.fits_publication {w' : World V} {lives' : List Life}
    (h : Tracks w.store past x es) (hs : w.Serves lives past)
    (hp : w.Passes lives past w' lives') (hch : x.changes ≠ [])
    (hsup : x.superseded? w.store = none)
    (hv : (w'.engine sole).version = (w.engine sole).version + 1)
    (hcr : w'.store.created = w.store.created)
    (hheads : ∀ c, (w'.store.cell c).chain.head =
      ((w.store.publishing ((w.engine sole).version + 1) x.changes).cell c).chain.head)
    (receipt : Receipt) (hro : receipt.readOnly = false)
    (hrv : receipt.version = (w.engine sole).version + 1) (begun ended : Nat) :
    (⟨receipt, x.snapshot, begun, ended, es⟩ : Commitment V).Fits w'.store (past.note w'.store)
      (w'.engine sole).version := by
  have hbase : (⟨receipt, x.snapshot, begun, ended, es⟩ : Commitment V).base =
      (w.engine sole).version := by
    simp [Commitment.base, hro, hrv]
  have hhas : ∀ c, w'.store.Has c ↔ w.store.Has c := fun c => by simp only [Store.Has, hcr]
  have hrec : x.mode.recordsReads = true := by
    refine decide_eq_true fun hro => hch (Context.changes_eq_nil_iff_forall.2 fun c hc => ?_)
    exact h.readOnly hro c ((h.changes_iff c).1 hc)
  have hplace : (⟨receipt, x.snapshot, begun, ended, es⟩ : Commitment V).place =
      (w.engine sole).version + 1 := by
    simp [Commitment.place, hro, hrv]
  refine ⟨Nat.le_of_eq (hplace.trans hv.symm), fun c hc => (hhas c).2 (h.known c hc),
    fun m hm => ?_, fun m hm c hc => ?_⟩
  · rw [hbase] at hm
    exact h.explains m (h.agrees_of_shows hs hrec hsup (hm.of_precedes hp.precedes (Nat.le_refl _)))
  · rw [hbase] at hm
    have hold := hm.of_precedes hp.precedes (Nat.le_refl _) c ((hhas c).1 hc)
    have hcell := hs.recalls.cells c ((hhas c).1 hc)
    rw [hcell.newestAt_of_head_le (hs.recalls.behind c)] at hold
    have hmc : (w.store.cell c).chain.head.value = m c := Option.some.inj hold
    have hnew := (hp.serves.recalls.cells c hc).newestAt_of_head_le (hp.serves.recalls.behind c)
    rw [hv, ← hplace] at hnew
    refine (congrArg (Option.map Record.value) hnew).trans (congrArg some ?_)
    rw [hheads c, h.within.cell_publishing]
    change _ = (draftOf es).apply m c
    split
    · rw [← h.resultAt_eq m c, ← hmc]
      rfl
    · next hn => rw [Draft.apply_of_not_changes fun hc => hn ((h.changes_iff c).2 hc), hmc]

end

end VersionedMemory
