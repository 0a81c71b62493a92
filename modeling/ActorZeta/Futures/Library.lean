import ActorZeta.Futures.Release

/-!
# How a member function goes on

* `Inv.release`   `release()` of an object that nobody else is at work on;
* `Inv.finish`    its end, and what its caller does next;
* `Inv.library`   every step of a member function, if the object of a destructor that starts is not
                  in the middle of an operation.
-/

namespace ActorZeta
namespace Futures
variable {T X : Type} {O O' : Heap Object} {F F' : Heap MethodFrame} {S S' : Heap (Shared T X)}
  {K K' ts : List Task} {D : List Handle} {x : Option Handle} {m m' : Futures T X} {g h : Nat}
  {k : After} {a : Handle} {s : Address} {t : Task}

/-! ## entries that are of no object -/

/-- an entry that is of no object -/
structure Task.Plain (t : Task) : Prop where
  touches : ∀ g, t.touches g = false
  takesFrom : ∀ h, t.takesFrom h = false

namespace Task.Plain

theorem operates (h : t.Plain) (g : Nat) : t.operates g = false := by
  cases ho : t.operates g with
  | false => rfl
  | true => rw [← h.touches g, Task.touches_of_operates ho]

theorem kills (h : t.Plain) (g : Nat) : t.kills g = false := by
  cases hk : t.kills g with
  | false => rfl
  | true => rw [← h.touches g, Task.touches_of_kills hk]

theorem deletes (h : t.Plain) (g : Nat) : t.deletes g = false := by
  cases hk : t.deletes g with
  | false => rfl
  | true => rw [← h.operates g, Task.operates_of_deletes hk]

theorem isReleasing (h : t.Plain) (g : Nat) : t.isReleasing g = false :=
  Task.isReleasing_of_not (h.operates g)

theorem not_reclaiming (h : t.Plain) (g : Nat) : t ≠ .reclaiming a g k := by
  rintro rfl
  have := h.touches g
  simp [Task.touches] at this

end Task.Plain

theorem Deaths.plain (h : Deaths O F S K) (ht : t.Plain) : Deaths O F S (t :: K) where
  alive {u g} hu htu := by
    rcases List.mem_cons.mp hu with rfl | hu
    · rw [ht.touches] at htu
      cases htu
    · exact h.alive hu htu
  once g := by
    rw [List.countP_cons_of_neg (by rw [ht.kills]; nofun)]
    exact h.once g
  releasing g := by
    rw [List.countP_cons_of_neg (by rw [ht.isReleasing]; nofun)]
    exact h.releasing g
  source {u h'} hu hs := by
    rcases List.mem_cons.mp hu with rfl | hu
    · rw [ht.takesFrom] at hs
      cases hs
    · obtain ⟨ho, hd⟩ := h.source hu hs
      refine ⟨ho, fun v hv => ?_⟩
      rcases List.mem_cons.mp hv with rfl | hv
      · exact ht.deletes h'
      · exact hd v hv
  apart {u h'} hu hs := by
    rcases List.mem_cons.mp hu with rfl | hu
    · exact ht.touches h'
    · exact h.apart hu hs
  order := by
    refine List.pairwise_cons.mpr ⟨fun _ _ h' hs => ?_, h.order⟩
    rw [ht.takesFrom] at hs
    cases hs
  home {u g o} hu hk ho := by
    rcases List.mem_cons.mp hu with rfl | hu
    · rw [ht.kills] at hk
      cases hk
    · exact h.home hu hk ho
  inner {g o} hu ho := by
    rcases List.mem_cons.mp hu with rfl | hu
    · have := ht.touches g
      simp [Task.touches] at this
    · exact h.inner hu ho

theorem Waits.plain (h : Waits O F S K) (ht : t.Plain) : Waits O F S (t :: K) where
  owned := h.owned
  quiet {a fr g} hf hs u hu := by
    rcases List.mem_cons.mp hu with rfl | hu
    · exact ⟨ht.touches g, ht.takesFrom g⟩
    · exact h.quiet hf hs u hu
  continuation hc hcont := by
    obtain ⟨fr, g, hf, hs, hh⟩ := h.continuation hc hcont
    exact ⟨fr, g, hf, hs, (heldIn_cons (ht.isReleasing g)).trans hh⟩
  outer := h.outer

theorem Custody.plain (h : Custody O S K) (ht : t.Plain) : Custody O S (t :: K) := by
  refine h.congr (fun g => heldIn_cons (ht.isReleasing g)) (fun _ => Iff.rfl) (fun _ => rfl)
    (fun ho => ⟨_, ho, rfl⟩) fun {a g k} hr => ?_
  rcases List.mem_cons.mp hr with he | hr
  · exact absurd he.symm (ht.not_reclaiming g)
  · exact hr

theorem Custody.tail_plain (h : Custody O S (t :: K)) (ht : t.Plain) : Custody O S K :=
  h.congr (fun g => (heldIn_cons (ht.isReleasing g)).symm) (fun _ => Iff.rfl) (fun _ => rfl)
    (fun ho => ⟨_, ho, rfl⟩) fun hr => List.mem_cons_of_mem _ hr

/-- who destroys a frame that is dying -/
theorem isDestroying_cases (h : t.isDestroying a = true) :
    t = .selfDestroying a ∨ ∃ g k, t = .reclaiming a g k := by
  cases t with
  | reclaiming b g k =>
    obtain rfl : b = a := of_decide_eq_true h
    exact Or.inr ⟨g, k, rfl⟩
  | selfDestroying b =>
    obtain rfl : b = a := of_decide_eq_true h
    exact Or.inl rfl
  | _ => cases h

/-- the frame that an idle object owns is neither destroyed nor being destroyed -/
theorem Inv.owned_phase (h : Inv none m) (hi : ∀ t ∈ m.control, t.operates g = false)
    {fr : MethodFrame} {c : Shared T X} (hf : m.frames.get a = some fr)
    (hh : heldIn m.objects m.control g = some fr.state) (hc : m.states.get fr.state = some c)
    (hr : c.released = false) : fr.phase ≠ .dying ∧ fr.phase ≠ .freed := by
  have hacc := h.ledger.frame hf hc
  constructor
  · intro hp
    rw [hp] at hacc
    obtain ⟨-, ht, hs⟩ := hacc
    rw [hr] at hs
    simp only [tally, Prod.mk.injEq] at ht
    obtain ⟨t, ht, hd⟩ := List.countP_pos_iff.mp (by rw [ht.2.1]; exact Nat.one_pos)
    rcases isDestroying_cases hd with rfl | ⟨g', k, rfl⟩
    · exact Bool.false_ne_true (hs.mpr ht)
    · obtain ⟨s, hs', hm'⟩ := h.custody.reclaiming ht
      obtain ⟨c', hc', -⟩ := h.custody.holding.valid hs'
      have hmk : c'.maker = some a := by
        unfold makerIn at hm'
        rwa [hc'] at hm'
      obtain ⟨fr', hf', hst⟩ := h.made.frame hc' hmk
      rw [Option.some.inj (hf'.symm.trans hf)] at hst
      obtain rfl := h.custody.holding.one (hst ▸ hs') hh
      have := hi _ ht
      simp [Task.operates] at this
  · intro hp
    rw [hp] at hacc
    rcases hacc.2.2 with hrel | hx
    · rw [hr] at hrel
      cases hrel
    · cases hx

/-- **`release()`.** -/
theorem Inv.release (h : Inv none m) (hb : Begins m.objects m.frames m.states m.control g k)
    {o : Object} (ho : m.objects.get g = some o) : Inv none (m.release g k) := by
  have hmaker : ∀ {s a fr}, o.state = some s → m.frames.get a = some fr → fr.state = s →
      o.handle = some a := by
    intro s a fr hs hf hst
    obtain ⟨c, hc, hm⟩ := h.made.state hf
    rw [h.custody.handle ho, heldIn_idle hb.idle ho, hs, ← hst]
    show makerIn m.states fr.state = some a
    unfold makerIn
    rw [hc]
    exact hm
  unfold Futures.release
  rw [ho]
  dsimp only
  cases ha : o.handle with
  | none =>
    dsimp only
    refine h.dropState hb ho nofun fun hs hf hst => ?_
    rw [hmaker hs hf hst] at ha
    cases ha
  | some a =>
    obtain ⟨fr, c, hf, hh, hc, -, hr⟩ := h.owner ho ha
    obtain ⟨hnd, hnf⟩ := h.owned_phase hb.idle hf hh hc hr
    dsimp only
    rw [hf]
    dsimp only
    rw [if_neg hnf]
    split
    · rename_i hdone
      refine h.release_reclaims hb ho ha hf ?_
      rcases Bool.or_eq_true_iff.mp hdone with hp | hp
      · exact of_decide_eq_true hp
      · exact absurd (of_decide_eq_true hp) hnd
    · rename_i hdone
      refine h.dropState hb ho nofun fun hs hf' hst => ⟨fun hp => ?_, fun hp => ?_⟩
      · rw [← Option.some.inj ((hmaker hs hf' hst).symm.trans ha)] at hf
        rw [Option.some.inj (hf'.symm.trans hf)] at hp
        exact hdone (by rw [MethodFrame.done, hp]; rfl)
      · rw [← Option.some.inj ((hmaker hs hf' hst).symm.trans ha)] at hf
        rw [Option.some.inj (hf'.symm.trans hf)] at hp
        exact hnd hp

/-! ## an entry goes -/

theorem Deaths.tail (h : Deaths O F S (t :: K)) : Deaths O F S K where
  alive hu := h.alive (List.mem_cons_of_mem _ hu)
  once g := Nat.le_trans (by rw [List.countP_cons]; exact Nat.le_add_right ..) (h.once g)
  releasing g := Nat.le_trans (by rw [List.countP_cons]; exact Nat.le_add_right ..) (h.releasing g)
  source hu hs := by
    obtain ⟨ho, hd⟩ := h.source (List.mem_cons_of_mem _ hu) hs
    exact ⟨ho, fun v hv => hd v (List.mem_cons_of_mem _ hv)⟩
  apart hu := h.apart (List.mem_cons_of_mem _ hu)
  order := (List.pairwise_cons.mp h.order).2
  home hu := h.home (List.mem_cons_of_mem _ hu)
  inner hu := h.inner (List.mem_cons_of_mem _ hu)

/-- what waits waits, whatever happens to other objects -/
theorem Waits.objects (h : Waits O F S K) (hsub : ∀ t ∈ K', t ∈ K)
    (hO : ∀ {a fr g o}, F.get a = some fr → fr.phase = .suspended g → O.get g = some o →
      O'.get g = some o)
    (hH : ∀ {a fr g}, F.get a = some fr → fr.phase = .suspended g →
      heldIn O' K' g = heldIn O K g) : Waits O' F S K' where
  owned hf hs := by
    obtain ⟨o, ho, hh⟩ := h.owned hf hs
    exact ⟨o, hO hf hs ho, hh⟩
  quiet hf hs t ht := h.quiet hf hs t (hsub t ht)
  continuation hc hcont := by
    obtain ⟨fr, g, hf, hs, hh⟩ := h.continuation hc hcont
    exact ⟨fr, g, hf, hs, (hH hf hs).trans hh⟩
  outer := h.outer

/-- an entry that is of no frame and of no operation goes -/
theorem Inv.pop (h : Inv x m) (hK : m.control = t :: K)
    (ht : t = .user ∨ ∃ g, t = .destructor g) : Inv x m.pop := by
  have hpop : m.pop.control = K := by
    show m.control.tail = K
    rw [hK]
    rfl
  have hof : ∀ a, t.isBody a = false ∧ t.isDestroying a = false ∧ t.isCancelled a = false := by
    rcases ht with rfl | ⟨g, rfl⟩ <;> exact fun _ => ⟨rfl, rfl, rfl⟩
  have hrel : ∀ g, t.isReleasing g = false := by
    rcases ht with rfl | ⟨g, rfl⟩ <;> exact fun _ => rfl
  have hheld : ∀ g, heldIn m.objects K g = heldIn m.objects m.control g := fun g => by
    rw [hK, heldIn_cons (hrel g)]
  refine ⟨h.clean, h.settled, h.made, ?_, ?_, ?_, ?_⟩ <;> rw [hpop]
  · refine h.custody.congr hheld (fun _ => Iff.rfl) (fun _ => rfl) (fun ho => ⟨_, ho, rfl⟩) ?_
    intro a g k hr
    rw [hK]
    exact List.mem_cons_of_mem _ hr
  · refine h.ledger.stack (fun a => ?_) fun a => ?_
    · rw [hK, tally_cons (hof a)]
    · rw [hK, List.mem_cons]
      refine (or_iff_right fun he => ?_).symm
      have := (hof a).2.1
      rw [← he] at this
      simp [Task.isDestroying] at this
  · have := h.deaths
    rw [hK] at this
    exact this.tail
  · refine h.waits.objects (fun t ht => ?_) (fun _ _ ho => ho) fun _ _ => hheld _
    rw [hK]
    exact List.mem_cons_of_mem _ ht

/-! ## the end of release() -/

/-- the entry of an operation is the only one of its object -/
theorem Inv.alone (h : Inv x m) (hK : m.control = .releasing g k :: K) :
    (∃ o, m.objects.get g = some o) ∧ heldIn m.objects m.control g = none ∧
      (∀ t ∈ K, t.operates g = false) ∧
      ∀ {h'}, k = .assign h' → (∃ o, m.objects.get h' = some o) ∧ g ≠ h' ∧
        ∀ t ∈ K, t.operates h' = false := by
  have hmem : Task.releasing g k ∈ m.control := by rw [hK]; exact List.mem_cons_self
  have hnone : heldIn m.objects m.control g = none :=
    heldIn_releasing hmem (decide_eq_true rfl)
  refine ⟨h.deaths.alive (g:=g) hmem (decide_eq_true rfl), hnone, fun t ht => ?_, ?_⟩
  · cases hop : t.operates g with
    | false => rfl
    | true =>
      have hone := h.deaths.releasing g
      have hpos : Task.isReleasing g (.releasing g k) = true := decide_eq_true rfl
      rw [hK, List.countP_cons_of_pos hpos] at hone
      have h0 : K.countP (Task.isReleasing g) = 0 := by omega
      have hn := List.countP_eq_zero.mp h0 t ht
      cases t with
      | reclaiming a g' k' =>
        obtain rfl : g' = g := of_decide_eq_true hop
        obtain ⟨s, hs, -⟩ := h.custody.reclaiming (hK ▸ List.mem_cons_of_mem _ ht)
        rw [hnone] at hs
        cases hs
      | releasing g' k' => exact absurd hop hn
      | _ => cases hop
  · rintro h' rfl
    have htakes : (Task.releasing g (.assign h')).takesFrom h' = true := decide_eq_true rfl
    have horder := h.deaths.order
    rw [hK] at horder
    refine ⟨(h.deaths.source hmem htakes).1, ?_, fun t ht =>
      (List.pairwise_cons.mp horder).1 t ht h' htakes⟩
    have := h.deaths.apart hmem htakes
    exact of_decide_eq_false this

/-- objects that are not waited for, and that hold what they held -/
theorem Inv.set_objects (h : Inv x m) (hK : m.control = .releasing g k :: K)
    (hH : Custody O' m.states K)
    (hO : ∀ {g' o}, g' ≠ g → (∀ h', k = .assign h' → g' ≠ h') → m.objects.get g' = some o →
      O'.get g' = some o)
    (hD : Deaths O' m.frames m.states K)
    (hheld : ∀ g', g' ≠ g → (∀ h', k = .assign h' → g' ≠ h') →
      heldIn O' K g' = heldIn m.objects m.control g') :
    Inv x { m with objects := O', control := K } := by
  have hwait : ∀ {a fr g'}, m.frames.get a = some fr → fr.phase = .suspended g' →
      g' ≠ g ∧ ∀ h', k = .assign h' → g' ≠ h' := by
    intro a fr g' hf hs
    have hq := h.waits.quiet hf hs (.releasing g k) (by rw [hK]; exact List.mem_cons_self)
    refine ⟨fun he => ?_, fun h' hk he => ?_⟩
    · rw [he] at hq
      simp [Task.touches] at hq
    · rw [hk, he] at hq
      simp [Task.takesFrom] at hq
  refine ⟨h.clean, h.settled, h.made, hH, ?_, hD, ?_⟩
  · refine h.ledger.stack (fun a => ?_) fun a => ?_
    · rw [hK, tally_cons (t:=.releasing g k) ⟨rfl, rfl, rfl⟩]
    · rw [hK, List.mem_cons]
      exact (or_iff_right fun he => by cases he).symm
  · refine h.waits.objects (fun t ht => ?_) (fun hf hs => ?_) fun hf hs => ?_
    · rw [hK]
      exact List.mem_cons_of_mem _ ht
    · obtain ⟨h1, h2⟩ := hwait hf hs
      exact hO h1 h2
    · obtain ⟨h1, h2⟩ := hwait hf hs
      exact hheld _ h1 h2

/-- an object dies that nothing on the call stack is about -/
theorem Deaths.free (h : Deaths O F S K)
    (hn : ∀ t ∈ K, t.touches g = false ∧ t.takesFrom g = false) : Deaths (O.free g) F S K := by
  have hne : ∀ {t g'}, t ∈ K → t.touches g' = true → g' ≠ g := by
    rintro t g' ht htg rfl
    rw [(hn t ht).1] at htg
    cases htg
  refine ⟨fun ht htg => ?_, h.once, h.releasing, fun {t h'} ht hs => ?_, h.apart, h.order,
    fun ht hk ho => h.home ht hk (Heap.get_free_some ho).2,
    fun ht ho => h.inner ht (Heap.get_free_some ho).2⟩
  · obtain ⟨o, ho⟩ := h.alive ht htg
    exact ⟨o, (Heap.get_free_ne (hne ht htg)).trans ho⟩
  · obtain ⟨⟨o, ho⟩, hd⟩ := h.source ht hs
    refine ⟨⟨o, (Heap.get_free_ne ?_).trans ho⟩, hd⟩
    rintro rfl
    rw [(hn t ht).2] at hs
    cases hs

/-- the end of a move assignment: what `h` held is in `g` -/
theorem Custody.assign (h : Custody O S K) (hg : heldIn O K g = none)
    (hig : ∀ t ∈ K, t.operates g = false) {h' : Nat} (hih : ∀ t ∈ K, t.operates h' = false)
    (hne : g ≠ h') {o o' : Object} (ho : O.get g = some o) (ho' : O.get h' = some o') :
    Custody ((O.modify h' .clear).modify g
      ({ · with state := o'.state, handle := o'.handle })) S K := by
  have hget : ∀ g', (((O.modify h' .clear).modify g
      ({ · with state := o'.state, handle := o'.handle })).get g').bind Object.state
      = if g' = g then o'.state else if g' = h' then none else (O.get g').bind Object.state := by
    intro g'
    by_cases h1 : g' = g
    · subst h1
      rw [if_pos rfl, Heap.get_modify_self ((Heap.get_modify_ne hne).trans ho)]
      rfl
    · rw [if_neg h1, Heap.get_modify_ne h1]
      by_cases h2 : g' = h'
      · subst h2
        rw [if_pos rfl, Heap.get_modify_self ho']
        rfl
      · rw [if_neg h2, Heap.get_modify_ne h2]
  have hH : heldIn ((O.modify h' .clear).modify g
      ({ · with state := o'.state, handle := o'.handle })) K
      = Function.update (Function.update (heldIn O K) h' none) g (heldIn O K h') := by
    funext g'
    by_cases h1 : g' = g
    · subst h1
      rw [Function.update_self, heldIn_idle hih ho',
        heldIn_of_not fun t ht => Task.isReleasing_of_not (hig t ht), hget, if_pos rfl]
    · rw [Function.update_of_ne h1]
      by_cases h2 : g' = h'
      · subst h2
        rw [Function.update_self,
          heldIn_of_not fun t ht => Task.isReleasing_of_not (hih t ht), hget, if_neg h1, if_pos rfl]
      · rw [Function.update_of_ne h2]
        exact heldIn_congr (by rw [hget, if_neg h1, if_neg h2])
  refine ⟨h.holding.move hg hH hne.symm, fun {g' o₁} hg' => ?_, fun {a g' k'} hr => ?_⟩
  · rw [hH]
    obtain ⟨o₂, ho₂, rfl⟩ := Heap.get_modify_some hg'
    by_cases h1 : g' = g
    · subst h1
      rw [if_pos rfl, Function.update_self]
      show o'.handle = _
      exact h.handle ho'
    · rw [if_neg h1, Function.update_of_ne h1]
      obtain ⟨o₃, ho₃, rfl⟩ := Heap.get_modify_some ho₂
      by_cases h2 : g' = h'
      · subst h2
        rw [if_pos rfl, Function.update_self]
        rfl
      · rw [if_neg h2, Function.update_of_ne h2]
        exact h.handle ho₃
  · have hop : Task.operates g' (.reclaiming a g' k') = true := decide_eq_true rfl
    have h1 : g' ≠ g := by
      rintro rfl
      rw [hig _ hr] at hop
      cases hop
    have h2 : g' ≠ h' := by
      rintro rfl
      rw [hih _ hr] at hop
      cases hop
    rw [hH, Function.update_of_ne h1, Function.update_of_ne h2]
    exact h.reclaiming hr

/-- **The end of `release()`**, and what its caller does next. -/
theorem Inv.finish (h : Inv none m) (hK : m.control = .releasing g k :: K) :
    Inv none (m.pop.finish g k) := by
  obtain ⟨⟨o, ho⟩, hnone, hidle, hassign⟩ := h.alone hK
  have hpop : m.pop.control = K := by
    show m.control.tail = K
    rw [hK]
    rfl
  have hdeaths := h.deaths
  rw [hK] at hdeaths
  have hmem : ∀ {t}, t ∈ K → t ∈ m.control := fun ht => hK ▸ List.mem_cons_of_mem _ ht
  -- the other objects hold what they held
  have hheld : ∀ {O' : Heap Object} {g' : Nat}, g' ≠ g →
      (O'.get g').bind Object.state = (m.objects.get g').bind Object.state →
      heldIn O' K g' = heldIn m.objects m.control g' := by
    intro O' g' hne he
    rw [hK, heldIn_cons (t:=.releasing g k) (decide_eq_false (Ne.symm hne))]
    exact heldIn_congr he
  have hself : ∀ {O' : Heap Object}, (O'.get g).bind Object.state = none →
      heldIn O' K g = heldIn m.objects m.control g := by
    intro O' he
    rw [hnone, heldIn_of_not fun t ht => Task.isReleasing_of_not (hidle t ht), he]
  have hstate : ∀ {g₁ o₁}, m.objects.get g₁ = some o₁ → ∃ o',
      (m.objects.modify g ({ · with state := none })).get g₁ = some o' ∧
        o'.home = o₁.home ∧ o'.handle = o₁.handle := by
    intro g₁ o₁ ho₁
    refine ⟨_, Heap.get_modify_of ho₁, ?_⟩
    split <;> exact ⟨rfl, rfl⟩
  have hclear : ((m.objects.modify g ({ · with state := none })).get g).bind Object.state
      = none := by
    rw [Heap.get_modify_self ho]
    rfl
  have hdeaths' : Deaths (m.objects.modify g ({ · with state := none })) m.frames m.states K := by
    refine hdeaths.tail.congr (fun ho => (hstate ho).imp fun _ hh => hh.1) ?_ fun hg => hg
    intro g₁ o' ho' o₁ ho₁
    obtain ⟨o₂, ho₂, he, -⟩ := hstate ho₁
    rw [Option.some.inj (ho'.symm.trans ho₂)]
    exact he
  have hcustody : Custody (m.objects.modify g ({ · with state := none })) m.states K := by
    refine h.custody.congr (fun g' => ?_) (fun _ => Iff.rfl) (fun _ => rfl) ?_ hmem
    · by_cases hg : g' = g
      · subst hg
        exact hself hclear
      · exact hheld hg (by rw [Heap.get_modify_ne hg])
    · intro g₁ o' ho'
      obtain ⟨o₁, ho₁, rfl⟩ := Heap.get_modify_some ho'
      refine ⟨o₁, ho₁, ?_⟩
      split <;> rfl
  unfold Futures.finish
  cases k with
  | nothing =>
    have := h.set_objects hK hcustody
      (fun hne _ ho => (Heap.get_modify_ne hne).trans ho) hdeaths'
      (fun g' hne _ => hheld hne (by rw [Heap.get_modify_ne hne]))
    rwa [← hpop] at this
  | destroy =>
    have hkills : ∀ t ∈ K, t.kills g = false := by
      have hone := hdeaths.once g
      have hpos : Task.kills g (.releasing g .destroy) = true := decide_eq_true rfl
      rw [List.countP_cons_of_pos hpos] at hone
      have h0 : K.countP (Task.kills g) = 0 := by omega
      intro t ht
      exact Bool.eq_false_iff.mpr (List.countP_eq_zero.mp h0 t ht)
    have hquiet : ∀ t ∈ K, t.touches g = false ∧ t.takesFrom g = false := by
      intro t ht
      refine ⟨?_, ?_⟩
      · have h1 := hkills t ht
        have h2 := hidle t ht
        cases t <;> first | exact h1 | exact h2
      · cases hs : t.takesFrom g with
        | false => rfl
        | true =>
          have := (hdeaths.source (List.mem_cons_of_mem _ ht) hs).2 _ List.mem_cons_self
          simp [Task.deletes] at this
    have hfree : Custody ((m.objects.modify g ({ · with state := none })).free g) m.states K := by
      refine hcustody.congr (fun g' => ?_) (fun _ => Iff.rfl) (fun _ => rfl)
        (fun ho => ⟨_, (Heap.get_free_some ho).2, rfl⟩) id
      by_cases hg : g' = g
      · subst hg
        rw [hself hclear, hnone]
        exact heldIn_none (if_pos rfl)
      · exact heldIn_congr (by rw [Heap.get_free_ne hg])
    have := h.set_objects hK hfree
      (fun hne _ ho => (Heap.get_free_ne hne).trans ((Heap.get_modify_ne hne).trans ho))
      (hdeaths'.free hquiet)
      (fun g' hne _ => hheld hne (by rw [Heap.get_free_ne hne, Heap.get_modify_ne hne]))
    rwa [← hpop] at this
  | assign h' =>
    obtain ⟨⟨o', ho'⟩, hne, hih⟩ := hassign rfl
    have ho₁ : (m.objects.modify g ({ · with state := none })).get h' = some o' :=
      (Heap.get_modify_ne hne.symm).trans ho'
    have hfound : (m.pop.onObject g ({ · with state := none })).objects.get h' = some o' := ho₁
    dsimp only
    rw [hfound]
    have := h.set_objects hK
      (hcustody.assign ((hself hclear).trans hnone) hidle hih hne (Heap.get_modify_self ho) ho₁)
      (fun {g' o₂} h1 h2 ho₂ => ?_) (hdeaths'.congr (fun ho₂ => ?_) (fun ho₂ _ ho₃ => ?_) id)
      (fun g' h1 h2 => hheld h1 ?_)
    · rw [← hpop] at this
      exact this
    · rw [Heap.get_modify_ne h1, Heap.get_modify_ne (h2 h' rfl), Heap.get_modify_ne h1]
      exact ho₂
    · exact ⟨_, Heap.get_modify_of (Heap.get_modify_of ho₂)⟩
    · rw [Option.some.inj (ho₂.symm.trans (Heap.get_modify_of (Heap.get_modify_of ho₃)))]
      split <;> split <;> rfl
    · rw [Heap.get_modify_ne h1, Heap.get_modify_ne (h2 h' rfl), Heap.get_modify_ne h1]

/-! ## the end of destroy() -/

/-- a frame with an entry that destroys it is dying -/
theorem Inv.dying_of (h : Inv x m) (ht : t ∈ m.control) (hd : t.isDestroying a = true) :
    ∃ fr c, m.frames.get a = some fr ∧ fr.phase = .dying ∧ m.states.get fr.state = some c ∧
      c.maker = some a ∧ Accounted x m.control m.destroyed a c .dying := by
  have hpos : m.control.countP (Task.isDestroying a) ≠ 0 :=
    fun h0 => List.countP_eq_zero.mp h0 t ht hd
  cases hf : m.frames.get a with
  | none =>
    have := h.ledger.absent hf
    simp only [tally, Prod.mk.injEq] at this
    exact absurd this.2.1 hpos
  | some fr =>
    obtain ⟨c, hc, hm⟩ := h.made.state hf
    have hacc := h.ledger.frame hf hc
    refine ⟨fr, c, rfl, ?_⟩
    have hno : ∀ {b k n}, tally a m.control m.destroyed ≠ (b, 0, k, n) := by
      intro b k n he
      simp only [tally, Prod.mk.injEq] at he
      exact hpos he.2.1
    cases hp : fr.phase with
    | running => rw [hp] at hacc; exact absurd hacc.2.2 hno
    | suspended g => rw [hp] at hacc; exact absurd hacc.2.2 hno
    | leaving => rw [hp] at hacc; exact absurd hacc.2 hno
    | parked => rw [hp] at hacc; exact absurd hacc.2 hno
    | dying => rw [hp] at hacc; exact ⟨rfl, hc, hm, hacc⟩
    | freed => rw [hp] at hacc; exact absurd hacc.2.1 hno

/-- `destroy()` ends: the frame is freed -/
theorem Inv.freed (h : Inv none m) (hK : m.control = t :: K) (hd : t.isDestroying a = true) :
    Inv (some a) (m.pop.onFrame a (.goto .freed)) ∧
      (t = .selfDestroying a → Inv none (m.pop.onFrame a (.goto .freed))) := by
  have hmem : t ∈ m.control := hK ▸ List.mem_cons_self
  obtain ⟨fr, c, hf, hp, hc, -, hready, htally, hrel⟩ := h.dying_of hmem hd
  have hpop : (m.pop.onFrame a (.goto .freed)).control = K := by
    show m.control.tail = K
    rw [hK]
    rfl
  have hother : ∀ b, b ≠ a → t.isBody b = false ∧ t.isDestroying b = false ∧
      t.isCancelled b = false := by
    intro b hb
    rcases isDestroying_cases hd with rfl | ⟨g, k, rfl⟩ <;>
      exact ⟨rfl, decide_eq_false (Ne.symm hb), rfl⟩
  have hthis : t.isBody a = false ∧ t.isCancelled a = false := by
    rcases isDestroying_cases hd with rfl | ⟨g, k, rfl⟩ <;> exact ⟨rfl, rfl⟩
  have hnotrel : ∀ g, t.isReleasing g = false := by
    rcases isDestroying_cases hd with rfl | ⟨g, k, rfl⟩ <;> exact fun _ => rfl
  have hheld : ∀ g, heldIn m.objects K g = heldIn m.objects m.control g := fun g => by
    rw [hK, heldIn_cons (hnotrel g)]
  have htail : tally a K m.destroyed = (0, 0, 0, 1) := by
    rw [hK] at htally
    simp only [tally, List.countP_cons, hthis.1, hthis.2, hd, Prod.mk.injEq] at htally ⊢
    obtain ⟨h1, h2, h3, h4⟩ := htally
    refine ⟨?_, ?_, ?_, h4⟩ <;> simp_all
  have hledger : ∀ x', (c.released = true ∨ x' = some a) →
      Ledger x' (m.frames.modify a (.goto .freed)) m.states K m.destroyed := by
    intro x' hx'
    refine h.ledger.goto hf (fun _ _ hc' => ⟨_, hc', .refl _⟩) (fun b hb => ?_)
      fun _ _ he => by cases he
      fun c' hc' => ?_
    · rw [hK, tally_cons (hother b hb), List.mem_cons]
      refine ⟨rfl, (or_iff_right fun he => ?_).symm⟩
      have := (hother b hb).2.1
      rw [← he] at this
      simp [Task.isDestroying] at this
    · obtain rfl : c' = c := Option.some.inj (hc'.symm.trans hc)
      exact ⟨hready, htail, hx'⟩
  have hrest : ∀ x', Ledger x' (m.frames.modify a (.goto .freed)) m.states K m.destroyed →
      Inv x' (m.pop.onFrame a (.goto .freed)) := by
    intro x' hl
    refine ⟨h.clean, h.settled, h.made.goto _, ?_, ?_, ?_, ?_⟩ <;> rw [hpop]
    · refine h.custody.congr hheld (fun _ => Iff.rfl) (fun _ => rfl) (fun ho => ⟨_, ho, rfl⟩) ?_
      intro b g k hr
      rw [hK]
      exact List.mem_cons_of_mem _ hr
    · exact hl
    · have hdeaths := h.deaths
      rw [hK] at hdeaths
      exact hdeaths.tail.congr (fun ho => ⟨_, ho⟩)
        (fun ho' _ ho => by rw [Option.some.inj (ho'.symm.trans ho)]) fun hg => hg.goto (Or.inr rfl)
    · refine (h.waits.objects (fun t ht => ?_) (fun _ _ ho => ho) fun _ _ => hheld _).goto
        (fun hf' hs => ?_) ⟨(fun he => by cases he), fun _ he => by cases he⟩
      · rw [hK]
        exact List.mem_cons_of_mem _ ht
      · rw [Option.some.inj (hf'.symm.trans hf), hp] at hs
        cases hs
  refine ⟨hrest _ (hledger _ (Or.inr rfl)), ?_⟩
  rintro rfl
  exact hrest _ (hledger _ (Or.inl (hrel.mpr hmem)))

/-- the first half of `release()` ends, and the second begins -/
theorem Inv.reclaimed (h : Inv none m) (hK : m.control = .reclaiming a g k :: K) :
    Inv none ((m.pop.onFrame a (.goto .freed)).dropState g k) := by
  have hmem : Task.reclaiming a g k ∈ m.control := hK ▸ List.mem_cons_self
  obtain ⟨hfreed, -⟩ := h.freed (a:=a) hK (decide_eq_true rfl)
  obtain ⟨s, hs, hm⟩ := h.custody.reclaiming hmem
  obtain ⟨o, ho, hos⟩ := Object.held_of hs
  obtain ⟨fr, c, hf, hp, hc, hmk, -, htally, -⟩ := h.dying_of (a:=a) hmem (decide_eq_true rfl)
  have hpop : (m.pop.onFrame a (.goto .freed)).control = K := by
    show m.control.tail = K
    rw [hK]
    rfl
  have hdeaths := h.deaths
  rw [hK] at hdeaths
  have hdestroying : ∀ t ∈ K, t.isDestroying a = false := by
    rw [hK] at htally
    have hpos : Task.isDestroying a (.reclaiming a g k) = true := decide_eq_true rfl
    simp only [tally, Prod.mk.injEq] at htally
    rw [List.countP_cons_of_pos hpos] at htally
    have h0 : K.countP (Task.isDestroying a) = 0 := by omega
    exact fun t ht => Bool.eq_false_iff.mpr (List.countP_eq_zero.mp h0 t ht)
  have hidle : ∀ t ∈ K, t.operates g = false := by
    intro t ht
    cases hop : t.operates g with
    | false => rfl
    | true =>
      have htm : t ∈ m.control := hK ▸ List.mem_cons_of_mem _ ht
      cases t with
      | reclaiming a' g' k' =>
        obtain rfl : g' = g := of_decide_eq_true hop
        obtain ⟨s', hs', hm'⟩ := h.custody.reclaiming htm
        obtain rfl := Option.some.inj (hs'.symm.trans hs)
        obtain rfl := Option.some.inj (hm'.symm.trans hm)
        have := hdestroying _ ht
        simp [Task.isDestroying] at this
      | releasing g' k' =>
        rw [heldIn_releasing htm hop] at hs
        cases hs
      | _ => cases hop
  have hquiet : ∀ {b fr' g'}, (m.frames.modify a (.goto .freed)).get b = some fr' →
      fr'.phase = .suspended g' → g' ≠ g ∧ ∀ h', k = .assign h' → g' ≠ h' := by
    intro b fr' g' hf' hsus
    obtain ⟨fr₁, hfr₁, -, -, hph⟩ := goto_modify hf'
    rw [hph] at hsus
    split at hsus
    · cases hsus
    · have hq := h.waits.quiet hfr₁ hsus _ hmem
      refine ⟨fun he => ?_, fun h' hk he => ?_⟩
      · rw [he] at hq
        simp [Task.touches] at hq
      · rw [hk, he] at hq
        simp [Task.takesFrom] at hq
  refine hfreed.dropState ⟨?_, fun hf' hsus => (hquiet hf' hsus).1 rfl, ?_, ?_⟩ ho ?_ ?_ <;>
    try rw [hpop]
  · exact hidle
  · rintro rfl
    refine ⟨fun t ht => ⟨?_, ?_⟩, fun ho' => ?_⟩
    · have hone := hdeaths.once g
      have hpos : Task.kills g (.reclaiming a g .destroy) = true := decide_eq_true rfl
      rw [List.countP_cons_of_pos hpos] at hone
      have h0 : K.countP (Task.kills g) = 0 := by omega
      exact Bool.eq_false_iff.mpr (List.countP_eq_zero.mp h0 t ht)
    · cases hsrc : t.takesFrom g with
      | false => rfl
      | true =>
        have := (hdeaths.source (List.mem_cons_of_mem _ ht) hsrc).2 _ List.mem_cons_self
        simp [Task.deletes] at this
    · exact (h.deaths.home (g:=g) hmem (decide_eq_true rfl) ho').goto (Or.inr rfl)
  · rintro h' rfl
    have htakes : (Task.reclaiming a g (.assign h')).takesFrom h' = true := decide_eq_true rfl
    refine ⟨(h.deaths.source hmem htakes).1, fun t ht =>
      (List.pairwise_cons.mp hdeaths.order).1 t ht h' htakes, fun hf' hsus =>
        (hquiet hf' hsus).2 h' rfl rfl, of_decide_eq_false (h.deaths.apart hmem htakes)⟩
  · intro b hb
    obtain rfl := Option.some.inj hb
    exact ⟨s, hos, hm⟩
  · intro s' b fr' hs' hf' hst
    obtain ⟨fr₁, hfr₁, hst₁, -, hph⟩ := goto_modify hf'
    -- the state is that of the frame which has just been freed
    obtain ⟨c₁, hc₁, hm₁⟩ := h.made.state hfr₁
    have hsame : s' = s := Option.some.inj (hs'.symm.trans hos)
    have hb : b = a := by
      unfold makerIn at hm
      rw [← hsame, ← hst, hst₁, hc₁] at hm
      exact Option.some.inj (hm₁.symm.trans hm)
    rw [hph, if_pos hb]
    exact ⟨(fun he => by cases he), fun he => by cases he⟩

/-- the final awaiter of a coroutine whose future is gone destroys the frame -/
theorem Inv.cancelled (h : Inv none m) (hK : m.control = .cancelled a :: K) :
    Inv none ((m.pop.push [.selfDestroying a]).destroyFrame a) := by
  have hmem : Task.cancelled a ∈ m.control := hK ▸ List.mem_cons_self
  have hpop : (m.pop.push [.selfDestroying a]).control = .selfDestroying a :: K := by
    show .selfDestroying a :: m.control.tail = _
    rw [hK]
    rfl
  have hpos : m.control.countP (Task.isCancelled a) ≠ 0 :=
    fun h0 => List.countP_eq_zero.mp h0 _ hmem (decide_eq_true rfl)
  obtain ⟨fr, c, hf, hp, hc, hready, hrel, htally⟩ : ∃ fr c, m.frames.get a = some fr ∧
      fr.phase = .parked ∧ m.states.get fr.state = some c ∧ c.ready = true ∧ c.released = true ∧
      tally a m.control m.destroyed = (0, 0, 1, 0) := by
    have hno : ∀ {b d n}, tally a m.control m.destroyed ≠ (b, d, 0, n) := by
      intro b d n he
      simp only [tally, Prod.mk.injEq] at he
      exact hpos he.2.2.1
    cases hf : m.frames.get a with
    | none => exact absurd (h.ledger.absent hf) hno
    | some fr =>
      obtain ⟨c, hc, -⟩ := h.made.state hf
      have hacc := h.ledger.frame hf hc
      refine ⟨fr, c, rfl, ?_⟩
      cases hp : fr.phase with
      | running => rw [hp] at hacc; exact absurd hacc.2.2 hno
      | suspended g => rw [hp] at hacc; exact absurd hacc.2.2 hno
      | leaving => rw [hp] at hacc; exact absurd hacc.2 hno
      | parked =>
        rw [hp] at hacc
        obtain ⟨hready, ht⟩ := hacc
        cases hr : c.released with
        | true => rw [hr] at ht; exact ⟨rfl, hc, hready, rfl, ht⟩
        | false => rw [hr] at ht; exact absurd ht hno
      | dying => rw [hp] at hacc; exact absurd hacc.2.1 hno
      | freed => rw [hp] at hacc; exact absurd hacc.2.1 hno
  have hdeaths := h.deaths
  rw [hK] at hdeaths
  have hheld : ∀ g, heldIn m.objects (.selfDestroying a :: K) g = heldIn m.objects m.control g :=
    fun g => by rw [hK, heldIn_cons rfl, heldIn_cons rfl]
  have hsub : ∀ {t}, t ∈ K → t ∈ m.control := fun ht => hK ▸ List.mem_cons_of_mem _ ht
  have hself : ∀ {t}, t ∈ Task.selfDestroying a :: K → t = .selfDestroying a ∨ t ∈ m.control :=
    fun ht => (List.mem_cons.mp ht).imp_right hsub
  have hmid : Inv none { m with
      frames := m.frames.modify a (.goto .dying)
      control := .selfDestroying a :: K
      destroyed := a :: m.destroyed } := by
    refine ⟨h.clean, h.settled, h.made.goto _, ?_, ?_, ?_, ?_⟩
    · have hc := h.custody
      rw [hK] at hc
      exact (hc.tail_plain ⟨fun _ => rfl, fun _ => rfl⟩).plain ⟨fun _ => rfl, fun _ => rfl⟩
    · refine h.ledger.goto hf (fun _ _ hc' => ⟨_, hc', .refl _⟩) (fun b hb => ⟨?_, ?_⟩)
        (fun _ _ hx => hx) fun c' hc' => ?_
      · rw [tally_destroying (fun _ => ⟨rfl, rfl, rfl⟩) hb, hK]
        exact (tally_cons (t:=.cancelled a) ⟨rfl, rfl, decide_eq_false (Ne.symm hb)⟩).symm
      · rw [hK, List.mem_cons, List.mem_cons]
        refine or_congr_left ⟨fun he => ?_, fun he => by cases he⟩
        cases he
        exact absurd rfl hb
      · obtain rfl : c' = c := Option.some.inj (hc'.symm.trans hc)
        refine ⟨hready, ?_, iff_of_true hrel List.mem_cons_self⟩
        rw [hK] at htally
        simp only [tally, List.countP_cons, Task.isBody, Task.isDestroying, Task.isCancelled,
          Prod.mk.injEq, decide_true, if_true, Bool.false_eq_true, if_false,
          List.count_cons_self] at htally ⊢
        omega
    · refine Deaths.congr (F:=m.frames) (O:=m.objects) ?_ (fun ho => ⟨_, ho⟩)
        (fun ho' _ ho => by rw [Option.some.inj (ho'.symm.trans ho)]) fun hg => hg.goto (Or.inl rfl)
      exact hdeaths.tail.plain ⟨fun _ => rfl, fun _ => rfl⟩
    · have hw : Waits m.objects m.frames m.states (.selfDestroying a :: K) := by
        refine (h.waits.objects (fun t ht => hsub ht) (fun _ _ ho => ho) fun _ _ => ?_).plain
          ⟨fun _ => rfl, fun _ => rfl⟩
        rw [← hheld, heldIn_cons rfl]
      refine hw.goto (fun hf' hs => ?_) ⟨(fun he => by cases he), fun _ he => by cases he⟩
      rw [Option.some.inj (hf'.symm.trans hf), hp] at hs
      cases hs
  have hng : ¬ Gone m.frames m.states (.param a) := by
    rintro ⟨fr', hf', hd⟩
    rw [Option.some.inj (hf'.symm.trans hf), hp] at hd
    rcases hd with hd | hd <;> cases hd
  rw [destroyFrame_parked (m:=m.pop.push [.selfDestroying a]) hf hp]
  rw [← hpop] at hmid
  refine hmid.destructors rfl ⟨_, Heap.get_modify_self hf, Or.inl rfl⟩ fun {g o} ho hp' t ht => ?_
  rw [show (m.pop.push [.selfDestroying a]).control = .selfDestroying a :: K from hpop] at ht
  rcases hself ht with rfl | ht
  · rfl
  · exact h.deaths.not_kills hng ho hp' ht

/-! ## a step of a member function -/

theorem busy_eq_false : m.busy g = false ↔ ∀ t ∈ m.control, t.operates g = false := by
  rw [busy, List.any_eq_false]
  exact forall₂_congr fun t _ => Bool.eq_false_iff.symm

theorem sourced_eq_false : m.sourced h = false ↔ ∀ t ∈ m.control, t.takesFrom h = false := by
  rw [sourced, List.any_eq_false]
  exact forall₂_congr fun t _ => Bool.eq_false_iff.symm

/-- the destructor of an object that is in no operation -/
theorem Inv.destructor (h : Inv none m) (hK : m.control = .destructor g :: K)
    (hb : m.busy g = false) (hs : m.sourced g = false) : Inv none (m.pop.release g .destroy) := by
  have hmem : Task.destructor g ∈ m.control := hK ▸ List.mem_cons_self
  obtain ⟨o, ho⟩ := h.deaths.alive (g:=g) hmem (decide_eq_true rfl)
  have hpop : m.pop.control = K := by
    show m.control.tail = K
    rw [hK]
    rfl
  have hsub : ∀ {t}, t ∈ m.pop.control → t ∈ m.control := by
    intro t ht
    rw [hpop] at ht
    exact hK ▸ List.mem_cons_of_mem _ ht
  have hdeaths := h.deaths
  rw [hK] at hdeaths
  refine (h.pop hK (Or.inr ⟨g, rfl⟩)).release ⟨fun t ht => busy_eq_false.mp hb t (hsub ht),
    fun hf hsus => ?_, fun _ => ⟨fun t ht => ⟨?_, sourced_eq_false.mp hs t (hsub ht)⟩,
      fun ho => h.deaths.home (g:=g) hmem (decide_eq_true rfl) ho⟩, nofun⟩ ho
  · have := (h.waits.quiet hf hsus _ hmem).1
    simp [Task.touches] at this
  · have hone := hdeaths.once g
    have hpos : Task.kills g (.destructor g) = true := decide_eq_true rfl
    rw [List.countP_cons_of_pos hpos] at hone
    have h0 : K.countP (Task.kills g) = 0 := by omega
    exact Bool.eq_false_iff.mpr (List.countP_eq_zero.mp h0 t (hpop ▸ ht))

theorem Inv.library (h : Inv none m) (ha : m.Apart (.library : Act T X))
    (hs : m.library = some m') : Inv none m' := by
  unfold Futures.library at hs
  cases hK : m.control with
  | nil => rw [hK] at hs; cases hs
  | cons t K =>
    rw [hK] at hs
    cases t with
    | body a => cases hs
    | user => cases hs
    | destructor g =>
      cases hs
      obtain ⟨hb, hsrc⟩ := ha g (by rw [hK]; rfl)
      exact h.destructor hK hb hsrc
    | reclaiming a g k => cases hs; exact h.reclaimed hK
    | releasing g k => cases hs; exact h.finish hK
    | cancelled a => cases hs; exact h.cancelled hK
    | selfDestroying a => cases hs; exact (h.freed (a:=a) hK (decide_eq_true rfl)).2 rfl

end Futures
end ActorZeta
