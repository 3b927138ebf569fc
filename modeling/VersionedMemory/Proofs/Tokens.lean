import VersionedMemory.Proofs.EngineInvariant

/-!
# Tokens of parked transactions

Whoever parks a transaction gets its identity as a token, and with the engine that it is parked with
this is the key under which it is found again. As long as nobody deals with the key, the token is
good for the very transaction that was parked; once that is taken back, the token is refused, until
somebody is parked under the key again.

So a token is not bound to one parking. A transaction that is taken back and parked again makes its
old token good again. And engines number their transactions each for itself: a transaction that is
parked with another engine than its own may find the key taken, and then the one that is parked
there is dropped and its token is good for the newcomer. Where every transaction is parked with its
own engine, parking drops nobody.

## Main definitions

* `Scene.Deals` is any number of turns whose deals are restricted.
* `Scene.Homely` is a turn that parks nobody with another engine than his own.

## Main statements

* `Scene.Turn.parked`: what a turn does to the table of parked transactions.
* `Scene.redeem_parked`: a token gives back the transaction that was parked for it.
* `Scene.not_redeemed_again`: a token that was redeemed is refused.
* `Scene.redeem_second_parking`: unless the same transaction is parked again.
* `Scene.park_drops_nobody`: in homely runs, parking drops nobody.
-/

namespace VersionedMemory

variable {V : Type} [Inhabited V]

namespace World

variable {w : World V} {x : Context V} {e : EngineId} {txn : TxnId}

omit [Inhabited V] in
theorem parked_bind (w : World V) (t : ThreadId) (x : Context V) :
    (w.bind t x).2.parked = w.parked := by
  unfold bind
  split <;> rfl

theorem parked_commit (w : World V) (x : Context V) : (w.commit x).2.parked = w.parked := by
  unfold commit
  split
  · rfl
  · split
    · rfl
    · dsimp only
      split
      · rfl
      · split <;> rfl

omit [Inhabited V] in
/-- Whoever can be parked is put under his key, and his identity is the token; nobody else is. -/
theorem park_cases (w : World V) (e : EngineId) (x : Context V) :
    (∃ err, (w.park e x).1 = .error err ∧ (w.park e x).2.parked = w.parked) ∨
      ((w.park e x).1 = .ok x.id ∧ (w.park e x).2.parked = w.parked.insert (e, x.id) x) := by
  unfold park
  split
  · next err _ => exact .inl ⟨err, rfl, rfl⟩
  · split
    · exact .inl ⟨_, rfl, rfl⟩
    · refine .inr ⟨rfl, ?_⟩
      dsimp only
      split <;> rfl

omit [Inhabited V] in
theorem park_eq_ok (h : (w.park e x).1 = .ok txn) :
    txn = x.id ∧ (w.park e x).2.parked = w.parked.insert (e, x.id) x := by
  rcases w.park_cases e x with ⟨err, herr, -⟩ | ⟨hok, hput⟩
  · cases herr.symm.trans h
  · exact ⟨Except.ok.inj (h.symm.trans hok), hput⟩

omit [Inhabited V] in
/-- Parking a live transaction where nobody is parked does nothing else. -/
theorem park_of_free (ha : x.isActive = true) (ht : x.isChild = false)
    (hfree : w.parked.get? (e, x.id) = none) :
    w.park e x = (.ok x.id, { w with parked := w.parked.insert (e, x.id) x }) := by
  have hc : x.checkActive = .ok () := by simp [Context.checkActive, ha]
  unfold park
  simp only [hc, ht, Bool.false_eq_true, if_false, hfree]

omit [Inhabited V] in
theorem unpark_of_some (h : w.parked.get? (e, txn) = some x) :
    w.unpark e txn = (.ok x, { w with parked := w.parked.erase (e, txn) }) := by
  unfold unpark
  rw [h]

omit [Inhabited V] in
theorem unpark_of_none (h : w.parked.get? (e, txn) = none) :
    w.unpark e txn = (.error (.illegal (.notParked txn)), w) := by
  unfold unpark
  rw [h]

end World

namespace Scene

/-- The key that a deal has to do with. -/
def Deal.key : Deal → Option (EngineId × TxnId)
  | .parks k | .redeems k => some k
  | .aside | .serves _ => none

/-- Any number of turns, all of whose deals are allowed. -/
def Deals (allowed : Deal → Prop) : Scene V → Scene V → Prop :=
  Relation.ReflTransGen fun s s' => ∃ d, Turn d s s' ∧ allowed d

/-- A turn in which nobody is parked, or somebody is, with his own engine. -/
def Homely (s s' : Scene V) : Prop :=
  (∃ d, Turn d s s' ∧ ∀ k, d ≠ .parks k) ∨
    ∃ x rest, s.running.Perm (x :: rest) ∧ s' = s.next (s.world.park x.engine x).2 rest

/-- Everybody who is parked is parked with his own engine, under his own identity. -/
def Home (s : Scene V) : Prop :=
  ∀ k y, s.world.parked.get? k = some y → k = (y.engine, y.id)

variable {s s' : Scene V} {d : Deal} {e : EngineId} {txn : TxnId} {k : EngineId × TxnId}
  {x y : Context V} {rest running : List (Context V)}

/-! ### What one turn does to the parked transactions -/

/-- Only parking binds a key, to a transaction of that identity, only redeeming frees one, and no
other turn touches what is parked. -/
theorem Turn.parked (h : Turn d s s') :
    (d.key = none ∧ s'.world.parked = s.world.parked) ∨
    (∃ k, d = .parks k ∧ (s'.world.parked = s.world.parked ∨
      ∃ x ∈ s.running, x.id = k.2 ∧ s'.world.parked = s.world.parked.insert k x)) ∨
    ∃ k, d = .redeems k ∧ s'.world.parked = s.world.parked.erase k := by
  cases h with
  | park e hp =>
    rename_i x rest
    refine .inr (.inl ⟨_, rfl, ?_⟩)
    rcases s.world.park_cases e x with ⟨err, -, hsame⟩ | ⟨-, hput⟩
    · exact .inl hsame
    · exact .inr ⟨x, hp.mem_iff.2 (List.mem_cons_self ..), rfl, hput⟩
  | unpark hu =>
    obtain ⟨-, rfl⟩ := World.unpark_eq_ok hu
    exact .inr (.inr ⟨_, rfl, rfl⟩)
  | take ht =>
    obtain ⟨_, -, he⟩ := Option.map_eq_some_iff.1 ht
    cases he
    exact .inl ⟨rfl, rfl⟩
  | bind t hp => exact .inl ⟨rfl, World.parked_bind _ _ _⟩
  | unbind hu =>
    cases (Prod.mk.inj hu).2
    exact .inl ⟨rfl, rfl⟩
  | commit hp => exact .inl ⟨rfl, World.parked_commit _ _⟩
  | _ => exact .inl ⟨rfl, rfl⟩

/-- What is parked under a key is left alone by deals with other keys. -/
theorem Turn.parked_get? (h : Turn d s s') (hk : d.key ≠ some k) :
    s'.world.parked.get? k = s.world.parked.get? k := by
  rcases h.parked with ⟨-, hp⟩ | ⟨j, rfl, hp | ⟨x, -, -, hp⟩⟩ | ⟨j, rfl, hp⟩
  · rw [hp]
  · rw [hp]
  · rw [hp, Table.get?_insert, if_neg fun he => hk (congrArg some he.symm)]
  · rw [hp, Table.get?_erase, if_neg fun he => hk (congrArg some he.symm)]

/-- A key under which nobody is parked stays free while nobody is parked under it. -/
theorem Turn.free (h : Turn d s s') (hd : d ≠ .parks k) (hfree : s.world.parked.get? k = none) :
    s'.world.parked.get? k = none := by
  rcases h.parked with ⟨-, hp⟩ | ⟨j, rfl, hp | ⟨x, -, -, hp⟩⟩ | ⟨j, rfl, hp⟩
  · rw [hp, hfree]
  · rw [hp, hfree]
  · rw [hp, Table.get?_insert, if_neg fun he => hd (congrArg Deal.parks he.symm), hfree]
  · rw [hp, Table.get?_erase, hfree, ite_self]

/-! ### Runs -/

theorem Deals.parked_get? (h : Deals (fun d => d.key ≠ some k) s s') :
    s'.world.parked.get? k = s.world.parked.get? k := by
  induction h with
  | refl => rfl
  | tail _ hd ih =>
    obtain ⟨d, ht, hk⟩ := hd
    exact (ht.parked_get? hk).trans ih

theorem Deals.free (h : Deals (fun d => d ≠ .parks k) s s')
    (hfree : s.world.parked.get? k = none) : s'.world.parked.get? k = none := by
  induction h with
  | refl => exact hfree
  | tail _ hd ih =>
    obtain ⟨d, ht, hk⟩ := hd
    exact ht.free hk ih

/-- A token gives back the transaction that was parked for it, with all that it holds, whatever
happens meanwhile, as long as nobody deals with its key; and it can be used to abort it instead. -/
theorem redeem_parked (hpark : (s.world.park e x).1 = .ok txn)
    (hrun : Deals (fun d => d.key ≠ some (e, txn)) (s.next (s.world.park e x).2 rest) s') :
    let left := { s'.world with parked := s'.world.parked.erase (e, txn) }
    s'.world.unpark e txn = (.ok x, left) ∧
      s'.world.abortParked e txn = (.ok (), left.abort x World.callerAbort) := by
  intro left
  obtain ⟨rfl, hput⟩ := World.park_eq_ok hpark
  have hkept : s'.world.parked.get? (e, x.id) = some x := by
    rw [hrun.parked_get?, world_next, hput, Table.get?_insert, if_pos rfl]
  have hunpark := World.unpark_of_some hkept
  refine ⟨hunpark, ?_⟩
  unfold World.abortParked
  rw [hunpark]

/-- A token that was redeemed is refused from then on, and nothing changes, as long as nobody is
parked under its key. -/
theorem not_redeemed_again {w : World V} (hu : s.world.unpark e txn = (.ok x, w))
    (hrun : Deals (fun d => d ≠ .parks (e, txn)) (s.next w running) s') :
    s'.world.unpark e txn = (.error (.illegal (.notParked txn)), s'.world) ∧
      s'.world.abortParked e txn = (.error (.illegal (.notParked txn)), s'.world) := by
  obtain ⟨-, rfl⟩ := World.unpark_eq_ok hu
  have hfree : s'.world.parked.get? (e, txn) = none :=
    hrun.free (by rw [world_next, Table.get?_erase, if_pos rfl])
  have hunpark := World.unpark_of_none hfree
  refine ⟨hunpark, ?_⟩
  unfold World.abortParked
  rw [hunpark]

/-- Parking a transaction a second time makes the token of the first time good again. -/
theorem redeem_second_parking {s₁ : Scene V} (hfirst : (s₁.world.park e x).1 = .ok txn)
    (hsame : y.id = x.id) (hagain : (s.world.park e y).1 = .ok y.id)
    (hrun : Deals (fun d => d.key ≠ some (e, txn)) (s.next (s.world.park e y).2 rest) s') :
    (s'.world.unpark e txn).1 = .ok y := by
  obtain ⟨rfl, -⟩ := World.park_eq_ok hfirst
  rw [hsame] at hagain
  exact congrArg Prod.fst (redeem_parked hagain hrun).1

/-- One token is redeemed twice, with one parking before each time. -/
theorem token_redeemed_twice :
    let w : World Nat := (World.create [Engine.create]).begin 0 .readWrite |>.2
    let x : Context Nat := ((World.create [Engine.create]).begin 0 .readWrite).1
    let w₁ := (w.park 0 x).2
    let w₂ := (w₁.unpark 0 x.id).2
    let w₃ := (w₂.park 0 x).2
    (w.park 0 x).1.toOption = some ⟨1⟩ ∧ (w₁.unpark 0 ⟨1⟩).1 = .ok x ∧
      (w₂.unpark 0 ⟨1⟩).1.toOption.isNone ∧ (w₂.park 0 x).1.toOption = some ⟨1⟩ ∧
      (w₃.unpark 0 ⟨1⟩).1 = .ok x :=
  ⟨by decide +kernel, rfl, by decide +kernel, by decide +kernel, rfl⟩

/-! ### Parking with one's own engine -/

theorem Homely.round (h : Homely s s') (e : EngineId) : Round e (fun _ => False) s s' := by
  rcases h with ⟨d, ht, -⟩ | ⟨x, rest, hp, rfl⟩
  · exact ⟨d, ht, nofun⟩
  · exact ⟨_, .park x.engine hp, nofun⟩

theorem Homely.home (h : Homely s s') (hs : s.Home) : s'.Home := by
  rcases h with ⟨d, ht, hd⟩ | ⟨x, rest, -, rfl⟩
  · intro k y hk
    rcases ht.parked with ⟨-, hp⟩ | ⟨j, rfl, -⟩ | ⟨j, rfl, hp⟩
    · exact hs k y (hp ▸ hk)
    · exact absurd rfl (hd j)
    · rw [hp, Table.get?_erase] at hk
      split at hk
      · cases hk
      · exact hs k y hk
  · intro k y hk
    rcases s.world.park_cases x.engine x with ⟨err, -, hsame⟩ | ⟨-, hput⟩
    · exact hs k y (hsame ▸ hk)
    · rw [world_next, hput, Table.get?_insert] at hk
      split at hk
      · next hkey =>
        cases hk
        exact hkey
      · exact hs k y hk

/-- Every engine knows its transactions in a homely run. -/
theorem Homely.run {s₀ : Scene V} (h₀ : Opening s₀) (h : Relation.ReflTransGen Homely s₀ s) :
    s.Home ∧ ∀ e, s.Attends e := by
  refine ⟨?_, fun e => ?_⟩
  · induction h with
    | refl =>
      obtain ⟨settings, rfl⟩ := h₀
      exact nofun
    | tail _ ht ih => exact ht.home ih
  · have hrun : Ensues e (fun _ => False) s₀ s :=
      Relation.ReflTransGen.mono (fun _ _ ht => Homely.round ht e) _ _ h
    exact (Attained.settled ⟨s₀, h₀, hrun⟩).1.attends

omit [Inhabited V] in
/-- The place of a running transaction is free where everybody is parked at home. -/
theorem Home.free (hs : s.Home) (ha : s.Attends x.engine) (hp : s.running.Perm (x :: rest)) :
    s.world.parked.get? (x.engine, x.id) = none := by
  by_contra hn
  obtain ⟨y, hy⟩ := Option.ne_none_iff_exists'.1 hn
  obtain ⟨he, hid⟩ := Prod.mk.inj (hs _ y hy)
  -- The two would be live transactions of one engine and one identity.
  have hy' : y ∈ s.world.alive :=
    List.mem_append_left _ (List.mem_append_right _ (Table.mem_values.2 ⟨_, hy⟩))
  have hlives : (s.livesOf x.engine).Perm
      (x.life :: (⟨s.world, rest, s.past⟩ : Scene V).livesOf x.engine) :=
    livesOf_perm_cons ((live_perm_cons hp).map Context.life) rfl
  have hids := (hlives.pairwise_iff fun hne he => hne he.symm).1 ha.ids
  refine (List.pairwise_cons.1 hids).1 y.life (mem_livesOf.2 ⟨?_, he.symm⟩) hid
  exact List.mem_map_of_mem (List.mem_append_left _ hy')

/-- Where every transaction is parked with its own engine, parking one drops nobody: whoever lived
still lives, and all others are parked as they were. -/
theorem park_drops_nobody {s₀ : Scene V} (h₀ : Opening s₀)
    (h : Relation.ReflTransGen Homely s₀ s) (hp : s.running.Perm (x :: rest)) :
    let w := (s.world.park x.engine x).2
    (s.world.park x.engine x).1 = .ok x.id ∧ w.alive.Perm (x :: s.world.alive) ∧
      ∀ k y, s.world.parked.get? k = some y → w.parked.get? k = some y := by
  intro w
  obtain ⟨hhome, hattends⟩ := Homely.run h₀ h
  obtain ⟨ha, ht⟩ := (hattends x.engine).proper
    ((live_perm_cons hp).mem_iff.2 (List.mem_cons_self ..)) rfl
  have hfree := hhome.free (hattends x.engine) hp
  have hpark := World.park_of_free ha ht hfree
  have hw : w = { s.world with parked := s.world.parked.insert (x.engine, x.id) x } :=
    congrArg Prod.snd hpark
  refine ⟨congrArg Prod.fst hpark, ?_, fun k y hk => ?_⟩
  · rw [hw]
    exact (((Table.values_insert_of_none hfree x).append_left _).trans
      List.perm_middle).append_right _
  · rw [hw, Table.get?_insert, if_neg]
    · exact hk
    · rintro rfl
      cases hfree.symm.trans hk

theorem Step.homely (h : Step s s') (hs : s.Sound) : Homely s s' := by
  obtain ⟨d, ht, -, hd⟩ := h.turn hs
  rcases hd with hd | ⟨x, rest, hp, rfl⟩
  · exact .inl ⟨d, ht, hd⟩
  · have hx : x.life ∈ s.lives :=
      List.mem_map_of_mem ((live_perm_cons hp).mem_iff.2 (List.mem_cons_self ..))
    have he : x.engine = sole := (hs.active _ hx).1
    exact .inr ⟨x, rest, hp, by rw [he]⟩

/-- The runs of one engine are homely: there parking drops nobody. -/
theorem Reachable.homely (h : s.Reachable) :
    ∃ s₀ : Scene V, Opening s₀ ∧ Relation.ReflTransGen Homely s₀ s := by
  obtain ⟨config, hooks, hrun⟩ := h
  refine ⟨start config hooks, ⟨[(config, hooks)], rfl⟩, ?_⟩
  induction hrun with
  | refl => exact .refl
  | tail hrun hst ih =>
    exact .tail ih (hst.homely (sound_of_later (sound_start config hooks) hrun).1)

/-- A transaction that is parked with another engine than its own may drop one that is parked there,
whose token is then good for the newcomer. -/
theorem token_of_dropped :
    let w : World Nat := World.create [Engine.create, Engine.create]
    let x := (w.begin 0 .readWrite).1
    let w₁ := ((w.begin 0 .readWrite).2.park 0 x).2
    let y := (w₁.begin 1 .readWrite).1
    let w₂ := ((w₁.begin 1 .readWrite).2.park 0 y).2
    (w₁.unpark 0 x.id).1 = .ok x ∧ (w₂.unpark 0 x.id).1 = .ok y ∧ x.engine ≠ y.engine ∧
      (w₂.engine 0).metrics.aborted = 1 ∧ w₂.alive.length = 1 :=
  ⟨rfl, rfl, by decide, by decide +kernel, by decide +kernel⟩

end Scene

end VersionedMemory
