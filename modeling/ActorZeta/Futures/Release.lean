import ActorZeta.Futures.Changes

/-!
# release()

* `Begins`               nobody else is at work on the object, and nobody waits for it;
* `Inv.destructors`      what lives in a place that is gone gets its destructors;
* `Inv.release_reclaims`, `Inv.dropState`   the two halves of `release()`.
-/

namespace ActorZeta
namespace Futures
variable {T X : Type} {O O' : Heap Object} {F F' : Heap MethodFrame} {S S' : Heap (Shared T X)}
  {K K' ts : List Task} {D : List Handle} {x : Option Handle} {m : Futures T X} {g h : Nat}
  {k : After} {a : Handle} {s : Address} {t : Task}

/-! ## the destructors of what lives in a frame or in a value -/

theorem mem_residents {p : Home} : g ∈ m.residents p ↔
    ∃ o, m.objects.get g = some o ∧ o.home = p := by
  unfold residents
  rw [List.mem_filter, List.mem_range]
  constructor
  · rintro ⟨-, hany⟩
    cases ho : m.objects.get g with
    | none => rw [ho] at hany; cases hany
    | some o =>
      rw [ho] at hany
      exact ⟨o, rfl, of_decide_eq_true hany⟩
  · rintro ⟨o, ho, hp⟩
    refine ⟨Heap.lt_next ho, ?_⟩
    rw [ho]
    exact decide_eq_true hp

theorem mem_destructors {p : Home} (ht : t ∈ m.destructors p) :
    t = .user ∨ ∃ g o, t = .destructor g ∧ m.objects.get g = some o ∧ o.home = p := by
  rcases List.mem_append.mp ht with ht | ht
  · obtain ⟨g, hg, ht⟩ := List.mem_flatMap.mp ht
    rcases List.mem_cons.mp ht with rfl | ht
    · exact Or.inl rfl
    · obtain ⟨o, ho, hp⟩ := mem_residents.mp hg
      exact Or.inr ⟨g, o, List.mem_singleton.mp ht, ho, hp⟩
  · exact Or.inl (List.mem_singleton.mp ht)

/-- no object has two destructors in line -/
theorem countP_kills_destructors (p : Home) (g : Nat) :
    (m.destructors p).countP (Task.kills g) = (m.residents p).count g := by
  unfold destructors
  rw [List.countP_append]
  have hl : ∀ l : List Nat, (l.flatMap fun g' => [Task.user, .destructor g']).countP (Task.kills g)
      = l.count g := by
    intro l
    induction l with
    | nil => rfl
    | cons g' l ih =>
      rw [List.flatMap_cons, List.countP_append, ih, List.count_cons, Nat.add_comm]
      by_cases hg : g' = g
      · subst hg
        simp [Task.kills]
      · simp [Task.kills, hg]
  rw [hl]
  rfl

theorem residents_nodup (p : Home) : (m.residents p).Nodup := List.nodup_range.filter _

/-- **What lives in a place that is gone gets its destructors.** -/
theorem Inv.destructors (h : Inv x m) {p : Home} (hp : p.inner = true)
    (hg : Gone m.frames m.states p)
    (hn : ∀ {g o}, m.objects.get g = some o → o.home = p → ∀ t ∈ m.control, t.kills g = false) :
    Inv x (m.push (m.destructors p)) := by
  have hplain : ∀ t ∈ m.destructors p, (∀ a, t.isBody a = false ∧ t.isDestroying a = false ∧
      t.isCancelled a = false) ∧ (∀ g, t.operates g = false ∧ t.takesFrom g = false) := by
    intro t ht
    rcases mem_destructors ht with rfl | ⟨g, o, rfl, -, -⟩
    · exact ⟨fun _ => ⟨rfl, rfl, rfl⟩, fun _ => ⟨rfl, rfl⟩⟩
    · exact ⟨fun _ => ⟨rfl, rfl, rfl⟩, fun _ => ⟨rfl, rfl⟩⟩
  have hheld : ∀ g, heldIn m.objects (m.destructors p ++ m.control) g
      = heldIn m.objects m.control g := fun g =>
    heldIn_append fun t ht => Task.isReleasing_of_not ((hplain t ht).2 g).1
  have hin : ∀ {t}, t ∈ m.destructors p → ∀ {g}, t.touches g = true →
      ∃ o, m.objects.get g = some o ∧ o.home = p := by
    intro t ht g htg
    rcases mem_destructors ht with rfl | ⟨g', o, rfl, ho, hp⟩
    · cases htg
    · obtain rfl : g' = g := of_decide_eq_true htg
      exact ⟨o, ho, hp⟩
  refine ⟨h.clean, h.settled, h.made, ?_, ?_, ?_, ?_⟩
  · refine h.custody.congr hheld (fun _ => Iff.rfl) (fun _ => rfl) (fun ho => ⟨_, ho, rfl⟩) ?_
    intro a g k hr
    rcases List.mem_append.mp hr with hr | hr
    · have := ((hplain _ hr).2 g).1
      simp [Task.operates] at this
    · exact hr
  · refine h.ledger.stack (fun a => tally_append fun t ht => (hplain t ht).1 a) fun a => ?_
    rw [show (m.push (m.destructors p)).control = m.destructors p ++ m.control from rfl,
      List.mem_append]
    refine or_iff_right fun hs => ?_
    have := ((hplain _ hs).1 a).2.1
    simp [Task.isDestroying] at this
  · have hd := h.deaths
    refine ⟨fun {t g} ht htg => ?_, fun g => ?_, fun g => ?_, fun {t h'} ht hs => ?_,
      fun {t h'} ht hs => ?_, ?_, ?_, ?_⟩
    · rcases List.mem_append.mp ht with ht | ht
      · obtain ⟨o, ho, -⟩ := hin ht htg
        exact ⟨o, ho⟩
      · exact hd.alive ht htg
    · show (m.destructors p ++ m.control).countP _ ≤ 1
      rw [List.countP_append, countP_kills_destructors]
      by_cases hr : g ∈ m.residents p
      · obtain ⟨o, ho, hop⟩ := mem_residents.mp hr
        rw [List.countP_eq_zero.mpr fun t ht => by rw [hn ho hop t ht]; nofun]
        exact List.nodup_iff_count_le_one.mp (residents_nodup p) g
      · rw [List.count_eq_zero_of_not_mem hr, Nat.zero_add]
        exact hd.once g
    · show (m.destructors p ++ m.control).countP _ ≤ 1
      rw [List.countP_append, List.countP_eq_zero.mpr fun t ht => by
        rw [Task.isReleasing_of_not ((hplain t ht).2 g).1]; nofun, Nat.zero_add]
      exact hd.releasing g
    · rcases List.mem_append.mp ht with ht | ht
      · rw [((hplain t ht).2 h').2] at hs
        cases hs
      · obtain ⟨ho, hdel⟩ := hd.source ht hs
        refine ⟨ho, fun u hu => ?_⟩
        rcases List.mem_append.mp hu with hu | hu
        · cases hud : u.deletes h' with
          | false => rfl
          | true =>
            have := Task.operates_of_deletes hud
            rw [((hplain u hu).2 h').1] at this
            cases this
        · exact hdel u hu
    · rcases List.mem_append.mp ht with ht | ht
      · rw [((hplain t ht).2 h').2] at hs
        cases hs
      · exact hd.apart ht hs
    · refine List.pairwise_append.mpr ⟨?_, hd.order, ?_⟩
      · refine List.pairwise_iff_forall_sublist.mpr fun {t u} htu h' hs => ?_
        rw [((hplain t (htu.subset List.mem_cons_self)).2 h').2] at hs
        cases hs
      · intro t ht u _ h' hs
        rw [((hplain t ht).2 h').2] at hs
        cases hs
    · intro t g o ht hk ho
      rcases List.mem_append.mp ht with ht | ht
      · obtain ⟨o', ho', hop⟩ := hin ht (Task.touches_of_kills hk)
        obtain rfl : o' = o := Option.some.inj (ho'.symm.trans ho)
        rw [hop]
        exact hg
      · exact hd.home ht hk ho
    · intro g o ht ho
      rcases List.mem_append.mp ht with ht | ht
      · obtain ⟨o', ho', hop⟩ := hin (g := g) ht (by simp [Task.touches])
        obtain rfl : o' = o := Option.some.inj (ho'.symm.trans ho)
        rw [hop]
        exact hp
      · exact hd.inner ht ho
  · refine ⟨h.waits.owned, fun {a fr g} hf hs t ht => ?_, fun hc hcont => ?_, h.waits.outer⟩
    · rcases List.mem_append.mp ht with ht | ht
      · refine ⟨?_, ((hplain t ht).2 g).2⟩
        cases htg : t.touches g with
        | false => rfl
        | true =>
          -- an awaiter is not in the place that is gone
          obtain ⟨o, ho, hop⟩ := hin ht htg
          obtain ⟨o', ho', haw⟩ := h.waits.owned hf hs
          obtain rfl : o' = o := Option.some.inj (ho'.symm.trans ho)
          rw [← hop, haw] at hp
          cases hp
      · exact h.waits.quiet hf hs t ht
    · obtain ⟨fr, g, hf, hs, hh⟩ := h.waits.continuation hc hcont
      exact ⟨fr, g, hf, hs, (hheld g).trans hh⟩

/-! ## an operation begins -/

/-- nobody else operates on `g` and on the source of the assignment, and nobody waits for them -/
structure Begins (O : Heap Object) (F : Heap MethodFrame) (S : Heap (Shared T X)) (K : List Task)
    (g : Nat) (k : After) : Prop where
  idle : ∀ t ∈ K, t.operates g = false
  waited : ∀ {a fr}, F.get a = some fr → fr.phase ≠ .suspended g
  ending : k = .destroy → (∀ t ∈ K, t.kills g = false ∧ t.takesFrom g = false) ∧
    ∀ {o}, O.get g = some o → Gone F S o.home
  taking : ∀ {h}, k = .assign h → (∃ o, O.get h = some o) ∧ (∀ t ∈ K, t.operates h = false) ∧
    (∀ {a fr}, F.get a = some fr → fr.phase ≠ .suspended h) ∧ g ≠ h

/-- one of the two halves of `release()` of `g`, followed by `k` -/
structure Task.Is (t : Task) (g : Nat) (k : After) : Prop where
  operates : ∀ g', t.operates g' = decide (g = g')
  touches : ∀ g', t.touches g' = decide (g = g')
  kills : ∀ g', t.kills g' = (decide (k = .destroy) && decide (g = g'))
  deletes : ∀ g', t.deletes g' = (decide (k = .destroy) && decide (g = g'))
  takesFrom : ∀ h, t.takesFrom h = decide (k = .assign h)

theorem Task.is_reclaiming : (Task.reclaiming a g k).Is g k := by
  refine ⟨fun _ => rfl, fun _ => rfl, fun g' => ?_, fun g' => ?_, fun h => ?_⟩ <;>
    cases k <;> simp [Task.kills, Task.deletes, Task.takesFrom]

theorem Task.is_releasing : (Task.releasing g k).Is g k := by
  refine ⟨fun _ => rfl, fun _ => rfl, fun g' => ?_, fun g' => ?_, fun h => ?_⟩ <;>
    cases k <;> simp [Task.kills, Task.deletes, Task.takesFrom]

theorem isReleasing_count (hi : ∀ t ∈ K, t.operates g = false) :
    K.countP (Task.isReleasing g) = 0 :=
  List.countP_eq_zero.mpr fun t ht => by rw [Task.isReleasing_of_not (hi t ht)]; nofun

/-- an entry of an operation that begins -/
theorem Deaths.begin (h : Deaths O F S K) (hb : Begins O F S K g k) (ht : t.Is g k)
    (hg : ∃ o, O.get g = some o) :
    Deaths O F S (t :: K) where
  alive {u g'} hu htu := by
    rcases List.mem_cons.mp hu with rfl | hu
    · rw [ht.touches] at htu
      obtain rfl : g = g' := of_decide_eq_true htu
      exact hg
    · exact h.alive hu htu
  once g' := by
    rw [List.countP_cons, ht.kills]
    by_cases he : k = .destroy ∧ g = g'
    · obtain ⟨rfl, rfl⟩ := he
      rw [List.countP_eq_zero.mpr fun t ht => by rw [((hb.ending rfl).1 t ht).1]; nofun]
      simp
    · have h1 := h.once g'
      rw [if_neg]
      · exact h1
      · intro hand
        rw [Bool.and_eq_true, decide_eq_true_iff, decide_eq_true_iff] at hand
        exact he hand
  releasing g' := by
    rw [List.countP_cons]
    by_cases he : g = g'
    · subst he
      rw [isReleasing_count hb.idle]
      split <;> simp
    · have h1 := h.releasing g'
      have h2 : t.isReleasing g' = false :=
        Task.isReleasing_of_not (by rw [ht.operates]; exact decide_eq_false he)
      rw [h2]
      exact h1
  source {u h'} hu hs := by
    have hkeep : (∀ u ∈ K, u.deletes h' = false) → t.deletes h' = false →
        ∀ v ∈ t :: K, v.deletes h' = false := fun h1 h2 v hv => by
      rcases List.mem_cons.mp hv with rfl | hv
      · exact h2
      · exact h1 v hv
    rcases List.mem_cons.mp hu with rfl | hu
    · rw [ht.takesFrom] at hs
      obtain rfl : k = .assign h' := of_decide_eq_true hs
      obtain ⟨ho, hidle, -⟩ := hb.taking rfl
      refine ⟨ho, hkeep (fun v hv => ?_) ?_⟩
      · cases hd : v.deletes h' with
        | false => rfl
        | true =>
          have := Task.operates_of_deletes hd
          rw [hidle v hv] at this
          cases this
      · rw [ht.deletes]
        rfl
    · obtain ⟨ho, hdel⟩ := h.source hu hs
      refine ⟨ho, hkeep hdel ?_⟩
      rw [ht.deletes, Bool.and_eq_false_iff, decide_eq_false_iff_not, decide_eq_false_iff_not,
        ← not_and_or]
      rintro ⟨rfl, rfl⟩
      rw [((hb.ending rfl).1 u hu).2] at hs
      cases hs
  apart {u h'} hu hs := by
    rcases List.mem_cons.mp hu with rfl | hu
    · rw [ht.takesFrom] at hs
      rw [ht.touches]
      exact decide_eq_false (hb.taking (of_decide_eq_true hs)).2.2.2
    · exact h.apart hu hs
  order := by
    refine List.pairwise_cons.mpr ⟨fun u hu h' hs => ?_, h.order⟩
    rw [ht.takesFrom] at hs
    obtain rfl : k = .assign h' := of_decide_eq_true hs
    exact (hb.taking rfl).2.1 u hu
  home {u g' o} hu hk ho := by
    rcases List.mem_cons.mp hu with rfl | hu
    · rw [ht.kills, Bool.and_eq_true, decide_eq_true_iff, decide_eq_true_iff] at hk
      obtain ⟨rfl, rfl⟩ := hk
      exact (hb.ending rfl).2 ho
    · exact h.home hu hk ho
  inner {g' o} hu ho := by
    rcases List.mem_cons.mp hu with rfl | hu
    · have := ht.operates g'
      have h2 := ht.touches g'
      simp [Task.operates, Task.touches] at this h2
      exact absurd h2 this
    · exact h.inner hu ho

theorem Custody.reclaim (h : Custody O S K) (hh : heldIn O K g = some s)
    (hm : makerIn S s = some a) : Custody O S (.reclaiming a g k :: K) where
  holding := h.holding.congr (fun _ => heldIn_cons rfl) fun _ => Iff.rfl
  handle ho := by rw [heldIn_cons rfl]; exact h.handle ho
  reclaiming {a' g' k'} hr := by
    rw [heldIn_cons rfl]
    rcases List.mem_cons.mp hr with he | hr
    · cases he
      exact ⟨s, hh, hm⟩
    · exact h.reclaiming hr

/-- the second half of `release()` begins: the object holds nothing any more, and what it held is
released -/
theorem Custody.drop (h : Custody O S K) (hi : ∀ t ∈ K, t.operates g = false) {o : Object}
    (ho : O.get g = some o) (hU : ∀ s, Unreleased S' s ↔ Unreleased S s ∧ o.state ≠ some s)
    (hM : ∀ s, makerIn S' s = makerIn S s) :
    Custody (O.modify g ({ · with handle := none })) S' (.releasing g k :: K) := by
  have hself : heldIn (O.modify g ({ · with handle := none })) (.releasing g k :: K) g = none :=
    heldIn_releasing List.mem_cons_self (decide_eq_true rfl)
  have hother : ∀ g', g' ≠ g →
      heldIn (O.modify g ({ · with handle := none })) (.releasing g k :: K) g' = heldIn O K g' := by
    intro g' hg
    rw [heldIn_cons (t:=.releasing g k) (decide_eq_false (Ne.symm hg))]
    exact heldIn_congr (by rw [Heap.get_modify_ne hg])
  have hheld : heldIn O K g = o.state := by
    rw [heldIn_of_not fun t ht => Task.isReleasing_of_not (hi t ht), ho]
    rfl
  have hH : heldIn (O.modify g ({ · with handle := none })) (.releasing g k :: K)
      = Function.update (heldIn O K) g none := by
    funext g'
    by_cases hg : g' = g
    · subst hg
      rw [hself, Function.update_self]
    · rw [hother g' hg, Function.update_of_ne hg]
  refine ⟨?_, fun {g' o'} hg => ?_, fun {a g' k'} hr => ?_⟩
  · cases hs : o.state with
    | none =>
      rw [hs] at hheld hU
      refine h.holding.congr (fun g' => ?_) fun s => (hU s).trans (and_iff_left nofun)
      rw [hH, ← hheld, Function.update_eq_self]
    | some s =>
      rw [hs] at hheld hU
      refine h.holding.drop hheld hH fun s' => (hU s').trans (and_congr_right fun _ => ?_)
      rw [Ne, Option.some_inj, eq_comm]
  · obtain ⟨o₁, ho₁, rfl⟩ := Heap.get_modify_some hg
    by_cases he : g' = g
    · subst he
      rw [hself, if_pos rfl]
      rfl
    · rw [hother g' he, if_neg he, h.handle ho₁]
      exact congrArg _ (funext fun s => (hM s).symm)
  · rcases List.mem_cons.mp hr with he | hK
    · cases he
    · have hg : g' ≠ g := by
        rintro rfl
        have := hi _ hK
        simp [Task.operates] at this
      obtain ⟨s, hs, hm⟩ := h.reclaiming hK
      exact ⟨s, (hother g' hg).trans hs, (hM s).trans hm⟩

/-- an operation begins on an object that nobody waits for -/
theorem Waits.begin (h : Waits O F S K) (hb : Begins O F S K g k) (ht : t.Is g k)
    (hH : ∀ g', g' ≠ g → heldIn O' (t :: K) g' = heldIn O K g')
    (hO : ∀ {g o}, O.get g = some o → ∃ o', O'.get g = some o' ∧ o'.home = o.home)
    (hS : ∀ {s c'}, S'.get s = some c' →
      ∃ c, S.get s = some c ∧ c'.mem.st.continuation = c.mem.st.continuation)
    (hS' : ∀ {s c}, S.get s = some c →
      ∃ c', S'.get s = some c' ∧ c'.mem.st.continuation = c.mem.st.continuation) :
    Waits O' F S' (t :: K) where
  owned hf hs := by
    obtain ⟨o, ho, hh⟩ := h.owned hf hs
    obtain ⟨o', ho', hh'⟩ := hO ho
    exact ⟨o', ho', hh'.trans hh⟩
  quiet {a fr g'} hf hs u hu := by
    rcases List.mem_cons.mp hu with rfl | hu
    · rw [ht.touches, ht.takesFrom]
      refine ⟨decide_eq_false ?_, decide_eq_false ?_⟩
      · rintro rfl
        exact hb.waited hf hs
      · intro hk
        exact (hb.taking hk).2.2.1 hf hs
    · exact h.quiet hf hs u hu
  continuation {s c' a} hc hcont := by
    obtain ⟨c, hc, he⟩ := hS hc
    obtain ⟨fr, g', hf, hs, hh⟩ := h.continuation hc (he.symm.trans hcont)
    refine ⟨fr, g', hf, hs, (hH g' ?_).trans hh⟩
    rintro rfl
    exact hb.waited hf hs
  outer hf ha ho := by
    obtain ⟨c, hc, hcont⟩ := h.outer hf ha ho
    obtain ⟨c', hc', he⟩ := hS' hc
    exact ⟨c', hc', he.trans hcont⟩

/-! ## release() -/

/-- an object with a handle holds the state of that coroutine, whose future is not released -/
theorem Inv.owner (h : Inv x m) {o : Object} (ho : m.objects.get g = some o)
    (ha : o.handle = some a) : ∃ fr c, m.frames.get a = some fr ∧
      heldIn m.objects m.control g = some fr.state ∧ m.states.get fr.state = some c ∧
      c.maker = some a ∧ c.released = false := by
  have hb := h.custody.handle ho
  rw [ha, eq_comm, Option.bind_eq_some_iff] at hb
  obtain ⟨s, hs, hm⟩ := hb
  obtain ⟨c, hc, hr⟩ := h.custody.holding.valid hs
  have hmk : c.maker = some a := by
    unfold makerIn at hm
    rw [hc] at hm
    exact hm
  obtain ⟨fr, hfr, rfl⟩ := h.made.frame hc hmk
  exact ⟨fr, c, hfr, hs, hc, hmk, hr⟩

/-- a tally that one more `destroy()` changes -/
theorem tally_destroying {b : Handle} (ht : ∀ b, t.isBody b = false ∧
    t.isDestroying b = decide (a = b) ∧ t.isCancelled b = false) (hb : b ≠ a) :
    tally b (t :: K) (a :: D) = tally b K D := by
  obtain ⟨h1, h2, h3⟩ := ht b
  rw [decide_eq_false (Ne.symm hb)] at h2
  rw [tally_cons ⟨h1, h2, h3⟩]
  unfold tally
  rw [List.count_cons_of_ne (Ne.symm hb)]

/-- the frame that a `unique_future` reclaims is dying -/
theorem Inv.reclaiming (h : Inv none m) (hb : Begins m.objects m.frames m.states m.control g k)
    {o : Object} (ho : m.objects.get g = some o) (ha : o.handle = some a) {fr : MethodFrame}
    (hf : m.frames.get a = some fr) (hp : fr.phase = .parked) :
    Inv none { m with
      frames := m.frames.modify a (.goto .dying)
      control := .reclaiming a g k :: m.control
      destroyed := a :: m.destroyed } := by
  obtain ⟨fr', c, hf', hh, hc, hm, hr⟩ := h.owner ho ha
  obtain rfl : fr' = fr := Option.some.inj (hf'.symm.trans hf)
  have hmk : makerIn m.states fr'.state = some a := by
    unfold makerIn
    rw [hc]
    exact hm
  have hsus : ∀ {fr g}, m.frames.get a = some fr → fr.phase ≠ .suspended g := by
    intro fr g hfr hs
    rw [Option.some.inj (hfr.symm.trans hf), hp] at hs
    cases hs
  refine ⟨h.clean, h.settled, h.made.goto _, h.custody.reclaim hh hmk, ?_, ?_, ?_⟩
  · refine h.ledger.goto hf (fun _ _ hc' => ⟨_, hc', .refl _⟩) (fun b hne => ?_)
      (fun _ _ hx => hx) fun c' hc' => ?_
    · refine ⟨tally_destroying (fun _ => ⟨rfl, rfl, rfl⟩) hne, ?_⟩
      rw [List.mem_cons]
      exact or_iff_right nofun
    · obtain rfl : c' = c := Option.some.inj (hc'.symm.trans hc)
      have hacc := h.ledger.frame hf hc'
      rw [hp] at hacc
      obtain ⟨hready, htally⟩ := hacc
      rw [hr, if_neg Bool.false_ne_true] at htally
      simp only [tally, Prod.mk.injEq] at htally
      obtain ⟨t1, t2, t3, t4⟩ := htally
      refine ⟨hready, ?_, ?_⟩
      · simp [tally, Task.isBody, Task.isDestroying, Task.isCancelled, t1, t2, t3, t4]
      · rw [hr]
        refine iff_of_false Bool.false_ne_true fun hs => ?_
        rcases List.mem_cons.mp hs with hs | hs
        · cases hs
        · exact absurd (List.countP_eq_zero.mp t2 _ hs) (by simp [Task.isDestroying])
  · exact (h.deaths.begin hb Task.is_reclaiming ⟨o, ho⟩).congr (fun ho => ⟨_, ho⟩)
      (fun ho' _ ho => by rw [Option.some.inj (ho'.symm.trans ho)]) fun hg => hg.goto (Or.inl rfl)
  · exact (h.waits.begin hb Task.is_reclaiming (fun _ _ => heldIn_cons rfl)
      (fun ho => ⟨_, ho, rfl⟩) (fun hc => ⟨_, hc, rfl⟩) fun hc => ⟨_, hc, rfl⟩).goto hsus
        ⟨nofun, nofun⟩

theorem destroyFrame_parked {fr : MethodFrame} (hf : m.frames.get a = some fr)
    (hp : fr.phase = .parked) :
    m.destroyFrame a = push
      { m with frames := m.frames.modify a (.goto .dying), destroyed := a :: m.destroyed }
      (destructors
        { m with frames := m.frames.modify a (.goto .dying), destroyed := a :: m.destroyed }
        (.param a)) := by
  unfold destroyFrame
  dsimp only
  rw [hf]
  dsimp only
  rw [if_pos hp]
  rfl

/-- an object in a place that is not gone is not about to die -/
theorem Deaths.not_kills (h : Deaths O F S K) {p : Home} (hp : ¬ Gone F S p) {o : Object}
    (ho : O.get g = some o) (ho' : o.home = p) (ht : t ∈ K) : t.kills g = false := by
  cases hk : t.kills g with
  | false => rfl
  | true => exact absurd (ho' ▸ h.home ht hk ho) hp

theorem Inv.release_reclaims (h : Inv none m)
    (hb : Begins m.objects m.frames m.states m.control g k) {o : Object}
    (ho : m.objects.get g = some o) (ha : o.handle = some a) {fr : MethodFrame}
    (hf : m.frames.get a = some fr) (hp : fr.phase = .parked) :
    Inv none ((m.push [.reclaiming a g k]).destroyFrame a) := by
  have hmid := h.reclaiming hb ho ha hf hp
  have hng : ¬ Gone m.frames m.states (.param a) := by
    rintro ⟨fr', hf', hd⟩
    rw [Option.some.inj (hf'.symm.trans hf), hp] at hd
    rcases hd with hd | hd <;> cases hd
  rw [destroyFrame_parked (m:=m.push [.reclaiming a g k]) hf hp]
  refine hmid.destructors rfl ⟨_, Heap.get_modify_self hf, Or.inl rfl⟩ fun {g' o'} ho' hp' t ht => ?_
  rcases List.mem_cons.mp ht with rfl | ht
  · rw [Task.is_reclaiming.kills, Bool.and_eq_false_iff, decide_eq_false_iff_not,
      decide_eq_false_iff_not, ← not_and_or]
    rintro ⟨rfl, rfl⟩
    exact hng (hp' ▸ (hb.ending rfl).2 ho')
  · exact h.deaths.not_kills hng ho' hp' ht

theorem Ledger.dropped {c : Shared T X} (h : Ledger x F S K D) (hM : Made F S)
    (hc : S.get s = some c) (hset : c.Settled) (hr : c.released = false)
    (hx : ∀ a, x = some a → makerIn S s = some a)
    (hnot : ∀ {a fr}, F.get a = some fr → fr.state = s → fr.phase ≠ .parked ∧ fr.phase ≠ .dying) :
    Ledger none F (S.modify s (.onMem Mem.releaseFuture)) (.releasing g k :: K) D := by
  obtain ⟨-, h1, h2, h3, -, -⟩ := hset.releaseFuture hr
  have hs : ∀ b : Handle, .selfDestroying b ∈ Task.releasing g k :: K ↔ .selfDestroying b ∈ K :=
    fun b => by rw [List.mem_cons]; exact or_iff_right nofun
  have hown : ∀ {b fr}, F.get b = some fr → fr.state = s → makerIn S s = some b := by
    intro b fr hf hst
    obtain ⟨c', hc', hm⟩ := hM.state hf
    unfold makerIn
    rw [← hst, hc']
    exact hm
  refine h.at (makerIn S s) (fun _ _ fr hf => ⟨fr, hf, rfl, rfl⟩) (fun _ _ hn => hn)
    (fun b hb fr hf c' hc' => ?_) (fun b _ => ⟨tally_cons ⟨rfl, rfl, rfl⟩, hs b⟩)
    (fun b hb hxb => absurd (hx b hxb) hb) fun b hb => ?_
  · obtain ⟨c₁, hc₁, rfl⟩ := states_modify hc'
    rw [if_neg fun hst => hb (hown hf hst)]
    exact ⟨c₁, hc₁, .refl _⟩
  · have hmk : c.maker = some b := by
      unfold makerIn at hb
      rwa [hc] at hb
    obtain ⟨fr, hf, hst⟩ := hM.frame hc hmk
    refine ⟨fr, hf, fun c' hc' => ?_⟩
    obtain ⟨c₁, hc₁, rfl⟩ := states_modify hc'
    rw [hst] at hc₁
    obtain rfl : c₁ = c := Option.some.inj (hc₁.symm.trans hc)
    rw [if_pos hst]
    have hacc := h.frame hf (hst ▸ hc)
    obtain ⟨hnp, hnd⟩ := hnot hf hst
    have ht : tally b (.releasing g k :: K) D = tally b K D := tally_cons ⟨rfl, rfl, rfl⟩
    cases hp : fr.phase with
    | running => rw [hp] at hacc; exact ⟨h2.trans hacc.1, h3.trans hacc.2.1, ht.trans hacc.2.2⟩
    | suspended g => rw [hp] at hacc; exact ⟨h2.trans hacc.1, h3.trans hacc.2.1, ht.trans hacc.2.2⟩
    | leaving => rw [hp] at hacc; exact ⟨h2.trans hacc.1, ht.trans hacc.2⟩
    | parked => exact absurd hp hnp
    | dying => exact absurd hp hnd
    | freed => rw [hp] at hacc; exact ⟨h2.trans hacc.1, ht.trans hacc.2.1, Or.inl h1⟩

/-- **The second half of `release()`.**  `x` is the frame that the first half has just freed. -/
theorem Inv.dropState (h : Inv x m) (hb : Begins m.objects m.frames m.states m.control g k)
    {o : Object} (ho : m.objects.get g = some o)
    (hx : ∀ a, x = some a → ∃ s, o.state = some s ∧ makerIn m.states s = some a)
    (hnot : ∀ {s a fr}, o.state = some s → m.frames.get a = some fr → fr.state = s →
      fr.phase ≠ .parked ∧ fr.phase ≠ .dying) : Inv none (m.dropState g k) := by
  have hobj : ∀ {g₁ o₁}, m.objects.get g₁ = some o₁ → ∃ o',
      (m.objects.modify g ({ · with handle := none })).get g₁ = some o' ∧ o'.home = o₁.home := by
    intro g₁ o₁ ho₁
    refine ⟨_, Heap.get_modify_of ho₁, ?_⟩
    split <;> rfl
  have hother : ∀ g', g' ≠ g → heldIn (m.objects.modify g ({ · with handle := none }))
      (.releasing g k :: m.control) g' = heldIn m.objects m.control g' := by
    intro g' hne
    rw [heldIn_cons (t:=.releasing g k) (decide_eq_false (Ne.symm hne))]
    exact heldIn_congr (by rw [Heap.get_modify_ne hne])
  have hhome : ∀ {g₁ o'}, (m.objects.modify g ({ · with handle := none })).get g₁ = some o' →
      ∀ {o₁}, m.objects.get g₁ = some o₁ → o'.home = o₁.home := by
    intro g₁ o' ho' o₁ ho₁
    obtain ⟨o₂, ho₂, he⟩ := hobj ho₁
    rw [Option.some.inj (ho'.symm.trans ho₂)]
    exact he
  unfold Futures.dropState
  rw [ho]
  dsimp only
  cases hs : o.state with
  | none =>
    dsimp only
    obtain rfl : x = none := by
      cases x with
      | none => rfl
      | some a =>
        obtain ⟨s, he, -⟩ := hx a rfl
        rw [hs] at he
        cases he
    refine ⟨h.clean, h.settled, h.made, h.custody.drop hb.idle ho (fun s => ?_) (fun _ => rfl),
      h.ledger.stack (fun _ => tally_cons ⟨rfl, rfl, rfl⟩) (fun a => ?_), ?_, ?_⟩
    · rw [hs]
      exact (and_iff_left nofun).symm
    · rw [show ((m.onObject g ({ · with handle := none })).push [.releasing g k]).control
        = .releasing g k :: m.control from rfl, List.mem_cons]
      exact or_iff_right nofun
    · exact (h.deaths.begin hb Task.is_releasing ⟨o, ho⟩).congr
        (fun ho => (hobj ho).imp fun _ hh => hh.1) hhome fun hg => hg
    · exact h.waits.begin hb Task.is_releasing hother hobj (fun hc => ⟨_, hc, rfl⟩)
        fun hc => ⟨_, hc, rfl⟩
  | some s =>
    have hheld : heldIn m.objects m.control g = some s := (heldIn_idle hb.idle ho).trans hs
    obtain ⟨c, hc, hr⟩ := h.custody.holding.valid hheld
    have hset := h.settled hc
    obtain ⟨k1, k2, k3, k4, k5, k6⟩ := hset.releaseFuture hr
    have hlook : ((m.onObject g ({ · with handle := none })).push [.releasing g k]).look s
        = some c := look_some hc (hset.alive_of_unreleased hr)
    have hcont : ∀ {s' c'}, (m.states.modify s (.onMem Mem.releaseFuture)).get s' = some c' →
        ∃ c, m.states.get s' = some c ∧ c'.mem.st.continuation = c.mem.st.continuation := by
      intro s' c' hc'
      obtain ⟨c₁, hc₁, rfl⟩ := states_modify hc'
      refine ⟨c₁, hc₁, ?_⟩
      split
      · rename_i he
        subst he
        rw [Option.some.inj (hc₁.symm.trans hc)]
        exact k5
      · rfl
    have hcont' : ∀ {s' c₁}, m.states.get s' = some c₁ → ∃ c',
        (m.states.modify s (.onMem Mem.releaseFuture)).get s' = some c' ∧
          c'.mem.st.continuation = c₁.mem.st.continuation := by
      intro s' c₁ hc₁
      refine ⟨_, Heap.get_modify_of hc₁, ?_⟩
      split
      · rename_i he
        subst he
        rw [Option.some.inj (hc₁.symm.trans hc)]
        exact k5
      · rfl
    have hmid : Inv none (((m.onObject g ({ · with handle := none })).push [.releasing g k]).onState
        s Mem.releaseFuture) := by
      refine ⟨h.clean, fun {s' c'} hc' => ?_, h.made.states, ?_, ?_, ?_, ?_⟩
      · obtain ⟨c₁, hc₁, rfl⟩ := states_modify hc'
        split
        · rename_i he
          subst he
          rw [Option.some.inj (hc₁.symm.trans hc)]
          exact k1
        · exact h.settled hc₁
      · refine h.custody.drop hb.idle ho (fun s' => ?_) (makerIn_modify ·)
        rw [hs, Ne, Option.some_inj, eq_comm]
        exact unreleased_drop (fun c₁ hc₁ => by
          rw [Option.some.inj (hc₁.symm.trans hc)]; exact k2) s'
      · refine h.ledger.dropped h.made hc hset hr (fun a ha => ?_) (hnot hs)
        obtain ⟨s', he, hm⟩ := hx a ha
        rw [hs] at he
        cases he
        exact hm
      · refine (h.deaths.begin hb Task.is_releasing ⟨o, ho⟩).congr
          (fun ho => (hobj ho).imp fun _ hh => hh.1) hhome fun hg => hg.mono
            (fun hf hd => ⟨_, hf, hd⟩) fun {s' c₁} hc₁ hd => ?_
        refine ⟨c₁, ?_, hd⟩
        refine (Heap.get_modify_ne ?_).trans hc₁
        rintro rfl
        rw [Option.some.inj (hc₁.symm.trans hc), hset.alive_of_unreleased hr] at hd
        cases hd
      · exact h.waits.begin hb Task.is_releasing hother hobj hcont hcont'
    dsimp only
    rw [hlook]
    dsimp only
    split
    · rename_i hfree
      -- the promise is released too
      refine hmid.destructors rfl ⟨_, Heap.get_modify_self hc, ?_⟩ fun {g' o'} ho' hp t ht => ?_
      · rw [k1.alive, k2, k3, ← k6, hfree]
        rfl
      · have hng : ¬ Gone m.frames m.states (.value s) := by
          rintro ⟨c₁, hc₁, hd⟩
          rw [Option.some.inj (hc₁.symm.trans hc), hset.alive_of_unreleased hr] at hd
          cases hd
        obtain ⟨o₁, ho₁, he⟩ := Heap.get_modify_some ho'
        have hp₁ : o₁.home = .value s := (hhome ho' ho₁).symm.trans hp
        rcases List.mem_cons.mp ht with rfl | ht
        · rw [Task.is_releasing.kills, Bool.and_eq_false_iff, decide_eq_false_iff_not,
            decide_eq_false_iff_not, ← not_and_or]
          rintro ⟨rfl, rfl⟩
          exact hng (hp₁ ▸ (hb.ending rfl).2 ho₁)
        · exact h.deaths.not_kills hng ho₁ hp₁ ht
    · exact hmid

end Futures
end ActorZeta
