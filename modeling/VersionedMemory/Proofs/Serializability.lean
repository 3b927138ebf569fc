import Mathlib.Data.List.Perm.Basic
import VersionedMemory.Proofs.Commitments

/-!
# Strict serializability

The plain store of a replay goes through the committed states of the run, one version after the
other, and every transaction finds in it the state that it read.

## Main statements

* `Run.Sound.replays_upTo`: the replay up to a version ends in what was committed at this version.
* `Run.strictly_serializable`: the replay gives every answer of the run and ends in the newest
  committed values, and no transaction is replayed after one that was begun when its commit had
  returned.
-/

namespace VersionedMemory

/-- Elements with bounded keys may be gathered key by key. -/
theorem flatMap_filter_perm {α : Type} (key : α → Nat) (n : Nat) {l : List α}
    (h : ∀ a ∈ l, key a < n) : ((List.range n).flatMap fun v => l.filter (key · = v)).Perm l := by
  induction n generalizing l with
  | zero =>
    obtain rfl : l = [] := List.eq_nil_iff_forall_not_mem.2 fun a ha => Nat.not_lt_zero _ (h a ha)
    exact .refl _
  | succ n ih =>
    have hlt := ih (l := l.filter (key · < n)) (by simp)
    have hfilter : ∀ v ∈ List.range n,
        (l.filter (key · < n)).filter (key · = v) = l.filter (key · = v) := by
      intro v hv
      rw [List.filter_filter]
      refine List.filter_congr fun a _ => ?_
      have := List.mem_range.1 hv
      simp only [Bool.and_eq_left_iff_imp, decide_eq_true_eq]
      omega
    have hlast : l.filter (key · = n) = l.filter fun a => !decide (key a < n) := by
      refine List.filter_congr fun a ha => ?_
      have := h a ha
      rw [← decide_not, decide_eq_decide]
      omega
    rw [List.flatMap_congr hfilter] at hlt
    rw [List.range_succ, List.flatMap_append, List.flatMap_singleton, hlast]
    exact (hlt.append_right _).trans (List.filter_append_perm _ l)

/-- Of elements keyed 1, 2, 3, ... each key has one. -/
theorem exists_filter_eq_singleton {α : Type} {key : α → Nat} {n : Nat} {l : List α}
    (h : l.map key = List.range' 1 n) {v : Nat} (hv : 1 ≤ v) (hn : v ≤ n) :
    ∃ a ∈ l, key a = v ∧ l.filter (key · = v) = [a] := by
  have hmap : (l.filter (key · = v)).map key = [v] := by
    have hf : (l.map key).filter (· = v) = (l.filter (key · = v)).map key := List.filter_map
    rw [← hf, h, List.filter_eq, List.Nodup.count List.nodup_range', if_pos]
    · rfl
    · simp only [List.mem_range'_1]
      omega
  obtain ⟨a, rest, hcons, hkey, hrest⟩ := List.map_eq_cons_iff.1 hmap
  obtain rfl := List.map_eq_nil_iff.1 hrest
  refine ⟨a, ?_, hkey, hcons⟩
  exact (List.mem_filter.1 (hcons ▸ List.mem_singleton.2 rfl : a ∈ l.filter (key · = v))).1

variable {V : Type} [Inhabited V]

namespace Run

variable {r : Run V} {past : History V}

omit [Inhabited V] in
theorem mem_writers {t : Commitment V} :
    t ∈ r.writers ↔ t ∈ r.committed ∧ t.receipt.readOnly = false := by
  simp [writers]

omit [Inhabited V] in
theorem mem_readers {t : Commitment V} :
    t ∈ r.readers ↔ t ∈ r.committed ∧ t.receipt.readOnly = true := by
  simp [readers]

omit [Inhabited V] in
/-- The transactions that are replayed at a version: the one that published it, and those that read
at it. -/
def slot (r : Run V) (v : Version) : List (Commitment V) :=
  r.writers.filter (·.receipt.version = v) ++ r.readers.filter (·.snapshot = v)

omit [Inhabited V] in
theorem order_eq (r : Run V) : r.order = (List.range (r.version + 1)).flatMap r.slot := rfl

omit [Inhabited V] in
theorem mem_slot {v : Version} {t : Commitment V} :
    t ∈ r.slot v ↔ t ∈ r.committed ∧ t.place = v := by
  simp only [slot, List.mem_append, List.mem_filter, mem_writers, mem_readers, Commitment.place]
  cases t.receipt.readOnly <;> simp

/-- The replay misses nobody. -/
theorem Sound.order_perm (h : r.Sound past) : r.order.Perm r.committed := by
  have hw : ∀ t ∈ r.writers, t.receipt.version < r.version + 1 := fun t ht => by
    obtain ⟨hmem, hro⟩ := mem_writers.1 ht
    have := (h.fits t hmem).place_le
    simp only [Commitment.place, hro] at this
    exact Nat.lt_succ_of_le this
  have hr : ∀ t ∈ r.readers, t.snapshot < r.version + 1 := fun t ht => by
    obtain ⟨hmem, hro⟩ := mem_readers.1 ht
    have := (h.fits t hmem).place_le
    simp only [Commitment.place, hro] at this
    exact Nat.lt_succ_of_le this
  have hsplit := List.flatMap_append_perm (List.range (r.version + 1))
    (fun v => r.writers.filter (·.receipt.version = v)) fun v => r.readers.filter (·.snapshot = v)
  have hboth : (r.readers ++ r.writers).Perm r.committed := List.filter_append_perm _ r.committed
  exact hsplit.symm.trans
    (((flatMap_filter_perm _ _ hw).append (flatMap_filter_perm _ _ hr)).trans
      (List.perm_append_comm.trans hboth))

theorem Sound.version_pos (h : r.Sound past) {t : Commitment V} (ht : t ∈ r.writers) :
    1 ≤ t.receipt.version := by
  have hmem : t.receipt.version ∈ r.writers.map (·.receipt.version) := List.mem_map_of_mem ht
  rw [h.versions, List.mem_range'_1] at hmem
  exact hmem.1

/-- Transactions that only read leave the plain store as it is. -/
theorem Sound.replays_readers (h : r.Sound past) {v : Version} {ts : List (Commitment V)}
    (hts : ∀ t ∈ ts, t ∈ r.committed ∧ t.base = v ∧ t.place = v) {m : Plain V}
    (hm : Shows r.world.store past v m) :
    Replays m ts ∧ Shows r.world.store past v (ts.foldl Commitment.apply m) := by
  induction ts generalizing m with
  | nil => exact ⟨trivial, hm⟩
  | cons t rest ih =>
    obtain ⟨⟨hmem, hbase, hplace⟩, hrest⟩ := List.forall_mem_cons.1 hts
    have hfit := h.fits t hmem
    rw [← hbase] at hm
    have hshows := hfit.shows m hm
    rw [hplace] at hshows
    obtain ⟨hrep, hend⟩ := ih hrest hshows
    exact ⟨⟨hfit.explains m hm, hrep⟩, hend⟩

theorem Sound.replays_slot_readers (h : r.Sound past) (v : Version) {m : Plain V}
    (hm : Shows r.world.store past v m) :
    Replays m (r.readers.filter (·.snapshot = v)) ∧
      Shows r.world.store past v
        ((r.readers.filter (·.snapshot = v)).foldl Commitment.apply m) := by
  refine h.replays_readers (fun t ht => ?_) hm
  obtain ⟨hread, hv⟩ := List.mem_filter.1 ht
  obtain ⟨hmem, hro⟩ := mem_readers.1 hread
  simpa [Commitment.base, Commitment.place, hro, hmem] using hv

/-- The replay up to a version ends in what was committed at this version. -/
theorem Sound.replays_upTo (h : r.Sound past) {v : Version} (hv : v ≤ r.version) :
    let ts := (List.range (v + 1)).flatMap r.slot
    Replays r.initial ts ∧ Shows r.world.store past v (ts.foldl Commitment.apply r.initial) := by
  induction v with
  | zero =>
    have hnone : r.writers.filter (·.receipt.version = 0) = [] :=
      List.filter_eq_nil_iff.2 fun t ht he => by
        have hpos := h.version_pos ht
        rw [of_decide_eq_true he] at hpos
        exact Nat.not_succ_le_self _ hpos
    have hslot := h.replays_slot_readers 0 h.initial
    simpa [slot, hnone, List.range_succ] using hslot
  | succ v ih =>
    obtain ⟨hrep, hshow⟩ := ih (Nat.le_of_succ_le hv)
    obtain ⟨t, hwriter, hversion, hfilter⟩ :=
      exists_filter_eq_singleton h.versions (Nat.le_add_left 1 v) hv
    obtain ⟨hmem, hro⟩ := mem_writers.1 hwriter
    have hfit := h.fits t hmem
    have hbase : t.base = v := by simp [Commitment.base, hro, hversion]
    have hplace : t.place = v + 1 := by simp [Commitment.place, hro, hversion]
    have hbefore := hshow
    rw [← hbase] at hbefore
    have hexplains := hfit.explains _ hbefore
    have hafter := hfit.shows _ hbefore
    rw [hplace, hbase] at hafter
    rw [hbase] at hexplains
    obtain ⟨hrep', hshow'⟩ := h.replays_slot_readers (v + 1) hafter
    intro ts
    have hts : ts = (List.range (v + 1)).flatMap r.slot ++
        t :: r.readers.filter (·.snapshot = v + 1) := by
      simp only [ts, List.range_succ (n := v + 1), List.flatMap_append, List.flatMap_singleton,
        slot, hfilter]
      rfl
    rw [hts, replays_append, List.foldl_append]
    exact ⟨⟨hrep, hexplains, hrep'⟩, hshow'⟩

/-- A transaction begun after another one's commit returned is not replayed before it. -/
theorem Sound.order_realTime (h : r.Sound past) :
    r.order.Pairwise fun a b => ¬ b.ended < a.begun := by
  -- Among transactions in the order of their commits it holds anyway.
  have hcommits : r.committed.Pairwise fun a b => ¬ b.ended < a.begun := by
    refine h.ended.imp_of_mem fun ha _ hlt hlt' => ?_
    have := (h.realTime _ ha).1
    omega
  have hsub : ∀ p : Commitment V → Bool, (r.committed.filter p).Pairwise fun a b =>
      ¬ b.ended < a.begun := fun p => hcommits.sublist List.filter_sublist
  rw [order_eq, List.pairwise_flatMap]
  refine ⟨fun v _ => ?_, List.pairwise_lt_range.imp fun hvu a ha b hb hlt => ?_⟩
  · refine List.pairwise_append.2 ⟨(hsub _).sublist List.filter_sublist,
      (hsub _).sublist List.filter_sublist, fun a ha b hb hlt => ?_⟩
    obtain ⟨hwriter, hva⟩ := List.mem_filter.1 ha
    obtain ⟨hreader, hvb⟩ := List.mem_filter.1 hb
    obtain ⟨hamem, hro⟩ := mem_writers.1 hwriter
    obtain ⟨hbmem, hro'⟩ := mem_readers.1 hreader
    have hle := (h.realTime a hamem).2 b hbmem hlt
    have hpos := h.version_pos hwriter
    simp only [decide_eq_true_eq] at hva hvb
    simp only [Commitment.place, Commitment.base, hro, hro', if_true, Bool.false_eq_true, if_false,
      hva, hvb] at hle
    rw [hva] at hpos
    exact absurd hle (Nat.not_le.2 (Nat.sub_lt hpos Nat.one_pos))
  · obtain ⟨hamem, hva⟩ := mem_slot.1 ha
    obtain ⟨hbmem, hvb⟩ := mem_slot.1 hb
    have hle := Nat.le_trans ((h.realTime a hamem).2 b hbmem hlt) a.base_le
    rw [hva, hvb] at hle
    exact absurd hle (Nat.not_le.2 hvu)

/-- One engine is strictly serializable. The read-write commits of a run carry the versions 1, 2, 3,
and so on. The committed transactions, replayed in order on a plain store that holds what every cell
was created with, are given the answers that they were given in the run, and leave the plain store
with the newest committed value of every cell. And no transaction is replayed before another one
that had returned from its commit when the first was begun. -/
theorem strictly_serializable (config : Config) (hooks : Hooks) (moves : List (Move V)) :
    let r := after config hooks moves
    r.writers.map (·.receipt.version) = List.range' 1 r.version ∧
      r.order.Perm r.committed ∧
      Replays r.initial r.order ∧
      (∀ c, r.world.store.Has c →
        r.order.foldl Commitment.apply r.initial c = (r.world.store.cell c).value) ∧
      r.order.Pairwise fun a b => ¬ b.ended < a.begun := by
  intro r
  obtain ⟨past, h⟩ : ∃ past, r.Sound past := sound_after config hooks moves
  obtain ⟨hrep, hshow⟩ := h.replays_upTo (Nat.le_refl r.version)
  refine ⟨h.versions, h.order_perm, hrep, fun c hc => ?_, h.order_realTime⟩
  have hcell := hshow c hc
  rw [version,
    (h.serves.recalls.cells c hc).newestAt_of_head_le (h.serves.recalls.behind c)] at hcell
  exact (Option.some.inj hcell).symm

end Run

end VersionedMemory
