import ActorZeta.Futures.Library

/-!
# New objects, states and coroutines

* `Inv.moveInto`  a move construction: the new object holds what the old one held;
* `Inv.promise`, `Inv.start`   a new state with its future, and a call of a method coroutine, which
                  moves its arguments into the parameters of the frame.
-/

namespace ActorZeta
namespace Futures
variable {T X : Type} {O O' : Heap Object} {F F' : Heap MethodFrame} {S S' : Heap (Shared T X)}
  {K K' ts : List Task} {D : List Handle} {x : Option Handle} {m m' : Futures T X} {g h : Nat}
  {k : After} {a : Handle} {s : Address} {t : Task}

/-! ## objects that the program can name -/

theorem reach_some {o : Object} (h : m.reach g = some o) :
    m.objects.get g = some o ∧ ∀ a, o.home ≠ .awaiter a := by
  obtain ⟨ho, hh⟩ := Option.filter_eq_some_iff.mp h
  refine ⟨ho, fun a he => ?_⟩
  rw [he] at hh
  cases hh

theorem kills_cases (h : t.kills g = true) : t = .destructor g ∨ t.operates g = true := by
  cases t with
  | destructor g' =>
    obtain rfl : g' = g := of_decide_eq_true h
    exact Or.inl rfl
  | reclaiming _ _ k =>
    cases k with
    | destroy => exact Or.inr h
    | _ => cases h
  | releasing _ k =>
    cases k with
    | destroy => exact Or.inr h
    | _ => cases h
  | _ => cases h

/-- nobody waits for an object that the program can name -/
theorem Waits.not_waited (h : Waits O F S K) {o : Object} (ho : O.get g = some o)
    (hh : ∀ a, o.home ≠ .awaiter a) {fr : MethodFrame} (hf : F.get a = some fr) :
    fr.phase ≠ .suspended g := by
  intro hs
  obtain ⟨o', ho', hw⟩ := h.owned hf hs
  rw [Option.some.inj (ho'.symm.trans ho)] at hw
  exact hh a hw

/-- an object whose surroundings do not destroy it is not in line for its destructor -/
theorem Deaths.not_kills_outer (h : Deaths O F S K) {o : Object} (ho : O.get g = some o)
    (hh : o.home.inner = false) (hi : ∀ t ∈ K, t.operates g = false) :
    ∀ t ∈ K, t.kills g = false := by
  intro t ht
  cases hk : t.kills g with
  | false => rfl
  | true =>
    rcases kills_cases hk with rfl | hop
    · rw [h.inner ht ho] at hh
      cases hh
    · rw [hi t ht] at hop
      cases hop

/-! ## new objects -/

/-- the objects after one more was made, with the others where they were -/
theorem Custody.alloc (h : Custody O S K) (hK : ∀ t ∈ K, t.touches O.next = false) {o : Object}
    (ho : o.state = none ∧ o.handle = none) : Custody (O.alloc o) S K := by
  have hH : ∀ g, heldIn (O.alloc o) K g = heldIn O K g := by
    intro g
    by_cases hg : g = O.next
    · subst hg
      rw [heldIn_none Heap.get_next, heldIn_of_not fun t ht => ?_, Heap.get_alloc_self]
      · exact ho.1
      · refine Task.isReleasing_of_not ?_
        cases hop : t.operates O.next with
        | false => rfl
        | true => rw [← hK t ht, Task.touches_of_operates hop]
    · exact heldIn_congr (by rw [Heap.get_alloc_ne hg])
  refine ⟨h.holding.congr hH fun _ => Iff.rfl, fun {g o'} hg => ?_, fun {a g k} hr => ?_⟩
  · rcases Heap.get_alloc_some hg with ⟨rfl, rfl⟩ | hg
    · rw [hH, heldIn_none Heap.get_next]
      exact ho.2
    · rw [hH]
      exact h.handle hg
  · rw [hH]
    exact h.reclaiming hr

/-- no entry is about an object that is not there yet -/
theorem Deaths.next (h : Deaths O F S K) : ∀ t ∈ K, t.touches O.next = false := by
  intro t ht
  cases htg : t.touches O.next with
  | false => rfl
  | true =>
    obtain ⟨o, ho⟩ := h.alive ht htg
    rw [Heap.get_next] at ho
    cases ho

theorem Deaths.alloc (h : Deaths O F S K) (o : Object) : Deaths (O.alloc o) F S K :=
  h.congr (fun ho => ⟨_, Heap.get_alloc_of ho⟩)
    (fun ho' _ ho => by rw [Option.some.inj (ho'.symm.trans (Heap.get_alloc_of ho))]) id

theorem Waits.alloc (h : Waits O F S K) (o : Object) : Waits (O.alloc o) F S K := by
  refine h.objects (fun _ ht => ht) (fun _ _ ho => Heap.get_alloc_of ho) fun hf hs => ?_
  obtain ⟨o', ho', -⟩ := h.owned hf hs
  exact heldIn_congr (by rw [Heap.get_alloc_of ho', ho'])

theorem Inv.new (h : Inv x m) :
    Inv x { m with objects := m.objects.alloc ⟨none, none, .outside⟩ } :=
  ⟨h.clean, h.settled, h.made, h.custody.alloc h.deaths.next ⟨rfl, rfl⟩, h.ledger,
    h.deaths.alloc _, h.waits.alloc _⟩

/-- **A move construction.** -/
theorem Inv.moveInto (h : Inv x m) {o : Object} (ho : m.objects.get g = some o)
    (hi : ∀ t ∈ m.control, t.operates g = false)
    (hw : ∀ {a fr}, m.frames.get a = some fr → fr.phase ≠ .suspended g) (p : Home) :
    Inv x (moveInto p m g) ∧
      heldIn (moveInto p m g).objects m.control m.objects.next = o.state := by
  have hne : g ≠ m.objects.next := Heap.ne_next ho
  have hget : ∀ {g'}, g' ≠ m.objects.next →
      ((m.objects.modify g .clear).alloc ⟨o.state, o.handle, p⟩).get g'
        = (m.objects.modify g .clear).get g' := fun hg => Heap.get_alloc_ne hg
  have hnew : ((m.objects.modify g .clear).alloc ⟨o.state, o.handle, p⟩).get m.objects.next
      = some ⟨o.state, o.handle, p⟩ := Heap.get_alloc_self
  have hrel : ∀ t ∈ m.control, t.isReleasing m.objects.next = false := by
    intro t ht
    refine Task.isReleasing_of_not ?_
    cases hop : t.operates m.objects.next with
    | false => rfl
    | true => rw [← h.deaths.next t ht, Task.touches_of_operates hop]
  have hnone : heldIn m.objects m.control m.objects.next = none := heldIn_none Heap.get_next
  have hH : heldIn ((m.objects.modify g .clear).alloc ⟨o.state, o.handle, p⟩) m.control
      = Function.update (Function.update (heldIn m.objects m.control) g none) m.objects.next
        (heldIn m.objects m.control g) := by
    funext g'
    by_cases h1 : g' = m.objects.next
    · subst h1
      rw [Function.update_self, heldIn_idle hi ho, heldIn_of_not hrel, hnew]
      rfl
    · rw [Function.update_of_ne h1]
      by_cases h2 : g' = g
      · subst h2
        rw [Function.update_self,
          heldIn_of_not fun t ht => Task.isReleasing_of_not (hi t ht), hget h1,
          Heap.get_modify_self ho]
        rfl
      · rw [Function.update_of_ne h2]
        exact heldIn_congr (by rw [hget h1, Heap.get_modify_ne h2])
  have hmove : Futures.moveInto p m g
      = { m with objects := (m.objects.modify g .clear).alloc ⟨o.state, o.handle, p⟩ } := by
    unfold Futures.moveInto
    rw [ho]
  rw [hmove]
  refine ⟨⟨h.clean, h.settled, h.made, ⟨h.custody.holding.move hnone hH hne, ?_, ?_⟩, h.ledger,
    ?_, ?_⟩, ?_⟩
  · intro g' o' hg'
    rw [hH]
    rcases Heap.get_alloc_some hg' with ⟨rfl, rfl⟩ | hg'
    · rw [Heap.next_modify, Function.update_self]
      show o.handle = _
      exact h.custody.handle ho
    · obtain ⟨o₁, ho₁, rfl⟩ := Heap.get_modify_some hg'
      rw [Function.update_of_ne (Heap.ne_next ho₁)]
      by_cases h2 : g' = g
      · subst h2
        rw [if_pos rfl, Function.update_self]
        rfl
      · rw [if_neg h2, Function.update_of_ne h2]
        exact h.custody.handle ho₁
  · intro a g' k hr
    have hop : Task.operates g' (.reclaiming a g' k) = true := decide_eq_true rfl
    have h1 : g' ≠ m.objects.next := by
      rintro rfl
      have := h.deaths.next _ hr
      rw [Task.touches_of_operates hop] at this
      cases this
    have h2 : g' ≠ g := by
      rintro rfl
      rw [hi _ hr] at hop
      cases hop
    rw [hH, Function.update_of_ne h1, Function.update_of_ne h2]
    exact h.custody.reclaiming hr
  · refine h.deaths.congr (fun ho₁ => ⟨_, Heap.get_alloc_of (Heap.get_modify_of ho₁)⟩)
      (fun ho' _ ho₁ => ?_) id
    rw [Option.some.inj (ho'.symm.trans (Heap.get_alloc_of (Heap.get_modify_of ho₁)))]
    split <;> rfl
  · have hother : ∀ {a fr g' o'}, m.frames.get a = some fr → fr.phase = .suspended g' →
        m.objects.get g' = some o' →
        ((m.objects.modify g .clear).alloc ⟨o.state, o.handle, p⟩).get g' = some o' := by
      intro a fr g' o' hf hs ho'
      refine Heap.get_alloc_of ((Heap.get_modify_ne ?_).trans ho')
      rintro rfl
      exact hw hf hs
    refine h.waits.objects (fun _ ht => ht) hother fun hf hs => ?_
    obtain ⟨o', ho', -⟩ := h.waits.owned hf hs
    exact heldIn_congr (by rw [hother hf hs ho', ho'])
  · rw [hH, Function.update_self]
    exact heldIn_idle hi ho

/-! ## new states -/

theorem makerIn_alloc {c : Shared T X} (s : Address) :
    makerIn (S.alloc c) s = if s = S.next then c.maker else makerIn S s := by
  unfold makerIn
  by_cases hs : s = S.next
  · subst hs
    rw [if_pos rfl, Heap.get_alloc_self]
    rfl
  · rw [if_neg hs, Heap.get_alloc_ne hs]

theorem unreleased_alloc {c : Shared T X} (hc : c.released = false) (s : Address) :
    Unreleased (S.alloc c) s ↔ Unreleased S s ∨ s = S.next := by
  constructor
  · rintro ⟨c', hc', hr⟩
    rcases Heap.get_alloc_some hc' with ⟨rfl, -⟩ | hc'
    · exact Or.inr rfl
    · exact Or.inl ⟨c', hc', hr⟩
  · rintro (⟨c', hc', hr⟩ | rfl)
    · exact ⟨c', Heap.get_alloc_of hc', hr⟩
    · exact ⟨c, Heap.get_alloc_self, hc⟩

theorem Unreleased.ne_next (h : Unreleased S s) : s ≠ S.next := by
  obtain ⟨c, hc, -⟩ := h
  exact Heap.ne_next hc

/-- a new state, with the object that is its future -/
theorem Custody.make (h : Custody O S K) (hK : ∀ t ∈ K, t.touches O.next = false)
    {c : Shared T X} (hc : c.released = false) (p : Home) :
    Custody (O.alloc ⟨some S.next, c.maker, p⟩) (S.alloc c) K := by
  have hop : ∀ {g : Nat} {t : Task}, t ∈ K → t.operates g = true → g ≠ O.next := by
    rintro g t ht ho rfl
    have := Task.touches_of_operates ho
    rw [hK t ht] at this
    cases this
  have hnone : heldIn O K O.next = none := heldIn_none Heap.get_next
  have hH : heldIn (O.alloc ⟨some S.next, c.maker, p⟩) K
      = Function.update (heldIn O K) O.next (some S.next) := by
    funext g
    by_cases hg : g = O.next
    · subst hg
      rw [Function.update_self, heldIn_of_not fun t ht => ?_, Heap.get_alloc_self]
      · rfl
      · cases hr : t.isReleasing O.next with
        | false => rfl
        | true => exact absurd rfl (hop ht (Task.operates_of_isReleasing hr))
    · rw [Function.update_of_ne hg]
      exact heldIn_congr (by rw [Heap.get_alloc_ne hg])
  have hmaker : ∀ {g s}, heldIn O K g = some s → makerIn (S.alloc c) s = makerIn S s := by
    intro g s hs
    rw [makerIn_alloc, if_neg (h.holding.valid hs).ne_next]
  refine ⟨h.holding.take hnone (fun hu => hu.ne_next rfl) hH (unreleased_alloc hc), ?_, ?_⟩
  · intro g o hg
    rw [hH]
    rcases Heap.get_alloc_some hg with ⟨rfl, rfl⟩ | hg
    · rw [Function.update_self, Option.bind_some, makerIn_alloc, if_pos rfl]
    · rw [Function.update_of_ne (Heap.ne_next hg), h.handle hg]
      cases hs : heldIn O K g with
      | none => rfl
      | some s => exact (hmaker hs).symm
  · intro a g k hr
    obtain ⟨s, hs, hm⟩ := h.reclaiming hr
    rw [hH, Function.update_of_ne (hop hr (decide_eq_true rfl))]
    exact ⟨s, hs, (hmaker hs).trans hm⟩

theorem Gone.alloc {p : Home} {fr : MethodFrame} {c : Shared T X} (h : Gone F S p) :
    Gone (F.alloc fr) (S.alloc c) p :=
  h.mono (fun hf hd => ⟨_, Heap.get_alloc_of hf, hd⟩) fun hc ha => ⟨_, Heap.get_alloc_of hc, ha⟩

theorem Gone.alloc_state {p : Home} {c : Shared T X} (h : Gone F S p) : Gone F (S.alloc c) p :=
  h.mono (fun hf hd => ⟨_, hf, hd⟩) fun hc ha => ⟨_, Heap.get_alloc_of hc, ha⟩

/-- a fresh state has no continuation -/
theorem Waits.make (h : Waits O F S K) {c : Shared T X} (hc : c.mem.st.continuation = none)
    (hF : ∀ {a fr}, F.get a = some fr → F'.get a = some fr)
    (hF' : ∀ {a fr}, F'.get a = some fr → F.get a = some fr ∨
      (fr.outer = none ∧ ∀ g, fr.phase ≠ .suspended g)) :
    Waits O F' (S.alloc c) K where
  owned hf hs := by
    rcases hF' hf with hf | ⟨-, hn⟩
    · exact h.owned hf hs
    · exact absurd hs (hn _)
  quiet hf hs := by
    rcases hF' hf with hf | ⟨-, hn⟩
    · exact h.quiet hf hs
    · exact absurd hs (hn _)
  continuation hc' hca := by
    rcases Heap.get_alloc_some hc' with ⟨-, rfl⟩ | hc'
    · rw [hc] at hca
      cases hca
    · obtain ⟨fr, g, hf, hs, hh⟩ := h.continuation hc' hca
      exact ⟨fr, g, hF hf, hs, hh⟩
  outer hf ha ho := by
    rcases hF' hf with hf | ⟨hn, -⟩
    · obtain ⟨c₁, hc₁, hca⟩ := h.outer hf ha ho
      exact ⟨c₁, Heap.get_alloc_of hc₁, hca⟩
    · rw [hn] at ho
      cases ho

theorem released_fresh {o : Option Handle} : (⟨.fresh, o⟩ : Shared T X).released = false := by
  simp [Shared.released, Mem.fresh, State.fresh]

theorem Inv.promise (h : Inv x m) : Inv x { m with
    states := m.states.alloc ⟨.fresh, none⟩
    objects := m.objects.alloc ⟨some m.states.next, none, .outside⟩ } := by
  have hset : (⟨.fresh, none⟩ : Shared T X).Settled := .fresh none
  refine ⟨h.clean, fun {s c} hc => ?_, ⟨fun hf => ?_, fun {s c a} hc hm => ?_⟩,
    h.custody.make (c:=⟨.fresh, none⟩) h.deaths.next released_fresh .outside, ?_, ?_, ?_⟩
  · rcases Heap.get_alloc_some hc with ⟨-, rfl⟩ | hc
    · exact hset
    · exact h.settled hc
  · obtain ⟨c, hc, hm⟩ := h.made.state hf
    exact ⟨c, Heap.get_alloc_of hc, hm⟩
  · rcases Heap.get_alloc_some hc with ⟨-, rfl⟩ | hc
    · cases hm
    · exact h.made.frame hc hm
  · refine h.ledger.at none (fun _ _ fr hf => ⟨fr, hf, rfl, rfl⟩) (fun _ _ hn => hn)
      (fun a _ fr hf c' hc' => ?_) (fun _ _ => ⟨rfl, Iff.rfl⟩) (fun _ _ hx => hx) nofun
    obtain ⟨c, hc, -⟩ := h.made.state hf
    rw [Option.some.inj (hc'.symm.trans (Heap.get_alloc_of hc))]
    exact ⟨c, hc, .refl c⟩
  · exact (h.deaths.alloc _).congr (fun ho => ⟨_, ho⟩)
      (fun ho' _ ho => by rw [Option.some.inj (ho'.symm.trans ho)]) fun hg => hg.alloc_state
  · exact (h.waits.alloc _).make rfl id Or.inl

/-- a method coroutine is called, up to its parameters -/
theorem Inv.called (h : Inv none m) : Inv none { m with
    frames := m.frames.alloc ⟨m.states.next, .running, none⟩
    states := m.states.alloc ⟨.fresh, some m.frames.next⟩
    objects := m.objects.alloc ⟨some m.states.next, some m.frames.next, .outside⟩
    control := .body m.frames.next :: m.control } := by
  have hset : (⟨.fresh, some m.frames.next⟩ : Shared T X).Settled := .fresh _
  have hplain : (Task.body m.frames.next).Plain := ⟨fun _ => rfl, fun _ => rfl⟩
  refine ⟨h.clean, fun {s c} hc => ?_, ⟨fun {a fr} hf => ?_, fun {s c a} hc hm => ?_⟩,
    (h.custody.make (c:=⟨.fresh, some m.frames.next⟩) h.deaths.next released_fresh
      .outside).plain hplain, ?_, ?_, ?_⟩
  · rcases Heap.get_alloc_some hc with ⟨-, rfl⟩ | hc
    · exact hset
    · exact h.settled hc
  · rcases Heap.get_alloc_some hf with ⟨rfl, rfl⟩ | hf
    · exact ⟨_, Heap.get_alloc_self, rfl⟩
    · obtain ⟨c, hc, hm⟩ := h.made.state hf
      exact ⟨c, Heap.get_alloc_of hc, hm⟩
  · rcases Heap.get_alloc_some hc with ⟨rfl, rfl⟩ | hc
    · obtain rfl := Option.some.inj hm
      exact ⟨_, Heap.get_alloc_self, rfl⟩
    · obtain ⟨fr, hf, hst⟩ := h.made.frame hc hm
      exact ⟨fr, Heap.get_alloc_of hf, hst⟩
  · have hother : ∀ a, some m.frames.next ≠ some a → a ≠ m.frames.next :=
      fun a ha he => ha (congrArg some he.symm)
    refine h.ledger.at (some m.frames.next) (fun a ha fr' hf => ?_) (fun a ha hn => ?_)
      (fun a ha fr hf c' hc' => ?_) (fun a ha => ⟨?_, ?_⟩) (fun _ _ hx => hx) fun a ha => ?_
    · rw [Heap.get_alloc_ne (hother a ha)] at hf
      exact ⟨fr', hf, rfl, rfl⟩
    · rwa [Heap.get_alloc_ne (hother a ha)] at hn
    · obtain ⟨c, hc, -⟩ := h.made.state hf
      rw [Option.some.inj (hc'.symm.trans (Heap.get_alloc_of hc))]
      exact ⟨c, hc, .refl c⟩
    · exact tally_cons (t:=.body m.frames.next) ⟨decide_eq_false (hother a ha).symm, rfl, rfl⟩
    · rw [List.mem_cons]
      exact or_iff_right fun he => by cases he
    · obtain rfl := Option.some.inj ha
      refine ⟨_, Heap.get_alloc_self, fun c' hc' => ?_⟩
      obtain rfl := Option.some.inj (Heap.get_alloc_self.symm.trans hc')
      have h0 := h.ledger.absent (a:=m.frames.next) Heap.get_next
      simp only [tally, Prod.mk.injEq] at h0
      obtain ⟨h1, h2, h3, h4⟩ := h0
      refine ⟨by simp [Shared.ready, Mem.fresh, State.fresh, State.isReady],
        by simp [Mem.fresh, State.fresh, State.hasResult], ?_⟩
      simp [tally, Task.isBody, Task.isDestroying, Task.isCancelled, h1, h2, h3, h4]
  · exact ((h.deaths.alloc _).congr (fun ho => ⟨_, ho⟩)
      (fun ho' _ ho => by rw [Option.some.inj (ho'.symm.trans ho)]) fun hg => hg.alloc).plain hplain
  · refine ((h.waits.alloc _).make rfl (fun hf => Heap.get_alloc_of hf) fun {a fr} hf => ?_).plain
      hplain
    rcases Heap.get_alloc_some hf with ⟨-, rfl⟩ | hf
    · exact Or.inr ⟨rfl, fun _ he => by cases he⟩
    · exact Or.inl hf

/-- a move construction touches the objects only, and leaves every object where it is -/
theorem moveInto_keeps {o : Object} (ho : m.objects.get g = some o) (p : Home) :
    (moveInto p m g).control = m.control ∧ (moveInto p m g).frames = m.frames ∧
      ∀ {g' o'}, m.objects.get g' = some o' →
        ∃ o₁, (moveInto p m g).objects.get g' = some o₁ ∧ o₁.home = o'.home := by
  have hmove : Futures.moveInto p m g
      = { m with objects := (m.objects.modify g .clear).alloc ⟨o.state, o.handle, p⟩ } := by
    unfold Futures.moveInto
    rw [ho]
  rw [hmove]
  refine ⟨rfl, rfl, fun {g' o'} ho' => ⟨_, Heap.get_alloc_of (Heap.get_modify_of ho'), ?_⟩⟩
  split <;> rfl

/-- the arguments of a call go into the parameters, one after the other -/
theorem Inv.moveAll (p : Home) : ∀ (gs : List Nat) {m : Futures T X}, Inv x m →
    (∀ g ∈ gs, (∃ o, m.objects.get g = some o ∧ ∀ a, o.home ≠ .awaiter a) ∧
      ∀ t ∈ m.control, t.operates g = false) → Inv x (gs.foldl (Futures.moveInto p) m)
  | [], _, h, _ => h
  | g :: gs, m, h, hg => by
    obtain ⟨⟨o, ho, hh⟩, hi⟩ := hg g List.mem_cons_self
    obtain ⟨hK, -, hkeep⟩ := moveInto_keeps ho p
    refine Inv.moveAll p gs (h.moveInto ho hi (fun hf => h.waits.not_waited ho hh hf) p).1
      fun g' hg' => ?_
    obtain ⟨⟨o', ho', hh'⟩, hi'⟩ := hg g' (List.mem_cons_of_mem _ hg')
    obtain ⟨o₁, ho₁, he⟩ := hkeep ho'
    rw [hK]
    exact ⟨⟨o₁, ho₁, fun a => he ▸ hh' a⟩, hi'⟩

/-- **A call of a method coroutine.** -/
theorem Inv.start (h : Inv none m) {gs : List Nat} (hr : ∀ g ∈ gs, (m.reach g).isSome = true)
    (hb : ∀ g ∈ gs, m.busy g = false) : Inv none (m.start gs) := by
  refine Inv.moveAll _ gs h.called fun g hg => ?_
  obtain ⟨o, ho⟩ := Option.isSome_iff_exists.mp (hr g hg)
  obtain ⟨ho, hh⟩ := reach_some ho
  refine ⟨⟨o, Heap.get_alloc_of ho, hh⟩, fun t ht => ?_⟩
  rcases List.mem_cons.mp ht with rfl | ht
  · rfl
  · exact busy_eq_false.mp (hb g hg) t ht

end Futures
end ActorZeta
