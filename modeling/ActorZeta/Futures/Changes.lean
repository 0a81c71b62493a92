import ActorZeta.Futures.Invariant

/-!
# How the parts of the invariant take a change

* `heldIn_cons`, `heldIn_congr`   what an object holds after a change elsewhere;
* `unreleased_modify`, `unreleased_drop`   the states whose futures are not released;
* `Custody.congr`, `Deaths.congr`, `Ledger.stack`   changes that mean nothing to a part;
* `Ledger.at`      the accounts after a step that concerns one frame;
* `Ledger.goto`, `Waits.goto`, `Gone.goto`   a frame goes to its next phase;
* `Inv.onState`    a change of one state that the frames do not see.
-/

namespace ActorZeta
namespace Futures
variable {T X : Type} {O O' : Heap Object} {F F' : Heap MethodFrame} {S S' : Heap (Shared T X)}
  {K K' ts : List Task} {D : List Handle} {x : Option Handle} {m : Futures T X} {g h : Nat}
  {a : Handle} {s : Address} {t : Task}

/-! ## what is held -/

theorem heldIn_of_not (hK : ∀ t ∈ K, t.isReleasing g = false) :
    heldIn O K g = (O.get g).bind Object.state := by
  unfold heldIn
  rw [if_neg]
  intro hany
  obtain ⟨t, ht, hr⟩ := List.any_eq_true.mp hany
  rw [hK t ht] at hr
  cases hr

theorem heldIn_releasing (ht : t ∈ K) (hr : t.isReleasing g = true) : heldIn O K g = none :=
  if_pos (List.any_eq_true.mpr ⟨t, ht, hr⟩)

theorem heldIn_append {l : List Task} (h : ∀ t ∈ l, t.isReleasing g = false) :
    heldIn O (l ++ K) g = heldIn O K g := by
  unfold heldIn
  rw [List.any_append, List.any_eq_false.mpr fun t ht => by rw [h t ht]; nofun, Bool.false_or]

theorem heldIn_cons (h : t.isReleasing g = false) : heldIn O (t :: K) g = heldIn O K g :=
  heldIn_append (l:=[t]) fun u hu => by rw [List.mem_singleton.mp hu]; exact h

theorem heldIn_congr (h : (O'.get g).bind Object.state = (O.get g).bind Object.state) :
    heldIn O' K g = heldIn O K g := by
  unfold heldIn
  rw [h]

theorem heldIn_none (h : O.get g = none) : heldIn O K g = none := by
  unfold heldIn
  rw [h]
  split <;> rfl

theorem Object.held_of (h : heldIn O K g = some s) : ∃ o, O.get g = some o ∧ o.state = some s := by
  unfold heldIn at h
  split at h
  · cases h
  · exact Option.bind_eq_some_iff.mp h

/-! ## states that change -/

theorem makerIn_modify {f : Mem T X → Mem T X} (s' : Address) :
    makerIn (S.modify s (.onMem f)) s' = makerIn S s' := by
  unfold makerIn
  by_cases hs : s' = s
  · subst hs
    rw [show (S.modify s' (Shared.onMem f)).get s' = (S.get s').map _ from if_pos rfl]
    cases S.get s' <;> rfl
  · rw [Heap.get_modify_ne hs]

theorem unreleased_modify {f : Mem T X → Mem T X}
    (hf : ∀ c, S.get s = some c → (c.onMem f).released = c.released) (s' : Address) :
    Unreleased (S.modify s (.onMem f)) s' ↔ Unreleased S s' := by
  constructor
  · rintro ⟨c', hc', hr⟩
    obtain ⟨c, hc, rfl⟩ := Heap.get_modify_some hc'
    refine ⟨c, hc, ?_⟩
    by_cases hs : s' = s
    · subst hs
      rw [if_pos rfl] at hr
      exact (hf c hc).symm.trans hr
    · rwa [if_neg hs] at hr
  · rintro ⟨c, hc, hr⟩
    refine ⟨_, Heap.get_modify_of hc, ?_⟩
    by_cases hs : s' = s
    · subst hs
      rw [if_pos rfl]
      exact (hf c hc).trans hr
    · rwa [if_neg hs]

/-- a state whose future is released -/
theorem unreleased_drop {f : Mem T X → Mem T X}
    (hf : ∀ c, S.get s = some c → (c.onMem f).released = true) (s' : Address) :
    Unreleased (S.modify s (.onMem f)) s' ↔ Unreleased S s' ∧ s' ≠ s := by
  constructor
  · rintro ⟨c', hc', hr⟩
    obtain ⟨c, hc, rfl⟩ := Heap.get_modify_some hc'
    by_cases hs : s' = s
    · subst hs
      rw [if_pos rfl, hf c hc] at hr
      cases hr
    · rw [if_neg hs] at hr
      exact ⟨⟨c, hc, hr⟩, hs⟩
  · rintro ⟨⟨c, hc, hr⟩, hs⟩
    exact ⟨_, Heap.get_modify_of hc, by rwa [if_neg hs]⟩

/-- states after one of them changed -/
theorem states_modify {f : Mem T X → Mem T X} {s' : Address} {c' : Shared T X}
    (h : (S.modify s (.onMem f)).get s' = some c') :
    ∃ c, S.get s' = some c ∧ c' = if s' = s then c.onMem f else c := Heap.get_modify_some h

theorem look_some {c : Shared T X} (hc : m.states.get s = some c) (ha : c.mem.alive = true) :
    m.look s = some c := by
  unfold look
  rw [hc]
  exact Option.filter_eq_some_iff.mpr ⟨rfl, ha⟩

theorem Shared.Settled.alive_of_unreleased {c : Shared T X} (h : c.Settled)
    (hr : c.released = false) : c.mem.alive = true := by
  rw [h.alive, hr, Bool.and_false]
  rfl

/-- what an idle object holds -/
theorem heldIn_idle (hi : ∀ t ∈ K, t.operates g = false) {o : Object} (ho : O.get g = some o) :
    heldIn O K g = o.state := by
  rw [heldIn_of_not fun t ht => Task.isReleasing_of_not (hi t ht), ho]
  rfl

/-! ## what changes nothing -/

theorem Custody.congr (h : Custody O S K) (hH : ∀ g, heldIn O' K' g = heldIn O K g)
    (hU : ∀ s, Unreleased S' s ↔ Unreleased S s) (hM : ∀ s, makerIn S' s = makerIn S s)
    (hO : ∀ {g o'}, O'.get g = some o' → ∃ o, O.get g = some o ∧ o'.handle = o.handle)
    (hK : ∀ {a g k}, .reclaiming a g k ∈ K' → .reclaiming a g k ∈ K) : Custody O' S' K' where
  holding := h.holding.congr hH hU
  handle {g o'} hg := by
    obtain ⟨o, ho, hh⟩ := hO hg
    rw [hh, h.handle ho, hH]
    exact congrArg _ (funext fun s => (hM s).symm)
  reclaiming {a g k} hr := by
    obtain ⟨s, hs, hm⟩ := h.reclaiming (hK hr)
    exact ⟨s, (hH g).trans hs, (hM s).trans hm⟩

theorem Gone.mono {p : Home} (h : Gone F S p)
    (hF : ∀ {a fr}, F.get a = some fr → (fr.phase = .dying ∨ fr.phase = .freed) →
      ∃ fr', F'.get a = some fr' ∧ (fr'.phase = .dying ∨ fr'.phase = .freed))
    (hS : ∀ {s c}, S.get s = some c → c.mem.alive = false →
      ∃ c', S'.get s = some c' ∧ c'.mem.alive = false) : Gone F' S' p := by
  cases p with
  | outside => trivial
  | awaiter a => trivial
  | param a =>
    obtain ⟨fr, hfr, hp⟩ := h
    exact hF hfr hp
  | value s =>
    obtain ⟨c, hc, ha⟩ := h
    exact hS hc ha

theorem Deaths.congr (h : Deaths O F S K)
    (hO : ∀ {g o}, O.get g = some o → ∃ o', O'.get g = some o')
    (hH : ∀ {g o'}, O'.get g = some o' → ∀ {o}, O.get g = some o → o'.home = o.home)
    (hG : ∀ {p}, Gone F S p → Gone F' S' p) : Deaths O' F' S' K where
  alive ht hg := by
    obtain ⟨o, ho⟩ := h.alive ht hg
    exact hO ho
  once := h.once
  releasing := h.releasing
  source ht hs := by
    obtain ⟨⟨o, ho⟩, hd⟩ := h.source ht hs
    exact ⟨hO ho, hd⟩
  apart := h.apart
  order := h.order
  home {t g o'} ht hk ho' := by
    obtain ⟨o, ho⟩ := h.alive ht (Task.touches_of_kills hk)
    rw [hH ho' ho]
    exact hG (h.home ht hk ho)
  inner {g o'} ht ho' := by
    obtain ⟨o, ho⟩ := h.alive (g:=g) ht (by simp [Task.touches])
    rw [hH ho' ho]
    exact h.inner ht ho

/-! ## the accounts of the frames -/

/-- two states that the accounts of a frame do not tell apart -/
structure Shared.Alike (c c' : Shared T X) : Prop where
  ready : c'.ready = c.ready
  hasResult : c'.mem.st.hasResult = c.mem.st.hasResult
  released : c'.released = c.released

theorem Shared.Alike.refl (c : Shared T X) : c.Alike c := ⟨rfl, rfl, rfl⟩

theorem Accounted.congr {x' : Option Handle} {D' : List Handle} {c c' : Shared T X} {p : Phase}
    (h : Accounted x K D a c p) (hc : c.Alike c') (ht : tally a K' D' = tally a K D)
    (hs : .selfDestroying a ∈ K' ↔ .selfDestroying a ∈ K) (hx : x = some a → x' = some a) :
    Accounted x' K' D' a c' p := by
  cases p with
  | running => exact ⟨hc.ready.trans h.1, hc.hasResult.trans h.2.1, ht.trans h.2.2⟩
  | suspended g => exact ⟨hc.ready.trans h.1, hc.hasResult.trans h.2.1, ht.trans h.2.2⟩
  | leaving => exact ⟨hc.ready.trans h.1, ht.trans h.2⟩
  | parked => exact ⟨hc.ready.trans h.1, by rw [ht, hc.released]; exact h.2⟩
  | dying => exact ⟨hc.ready.trans h.1, ht.trans h.2.1, by rw [hc.released, hs]; exact h.2.2⟩
  | freed =>
    refine ⟨hc.ready.trans h.1, ht.trans h.2.1, ?_⟩
    rw [hc.released]
    exact h.2.2.imp_right hx

/-- a step that concerns the frame `a₀` alone, if any -/
theorem Ledger.at {x' : Option Handle} {D' : List Handle} (h : Ledger x F S K D)
    (a₀ : Option Handle)
    (hF : ∀ a, a₀ ≠ some a → ∀ fr', F'.get a = some fr' →
      ∃ fr, F.get a = some fr ∧ fr'.phase = fr.phase ∧ fr'.state = fr.state)
    (hN : ∀ a, a₀ ≠ some a → F'.get a = none → F.get a = none)
    (hS : ∀ a, a₀ ≠ some a → ∀ fr, F.get a = some fr → ∀ c', S'.get fr.state = some c' →
      ∃ c, S.get fr.state = some c ∧ c.Alike c')
    (hK : ∀ a, a₀ ≠ some a → tally a K' D' = tally a K D ∧
      (.selfDestroying a ∈ K' ↔ .selfDestroying a ∈ K))
    (hx : ∀ a, a₀ ≠ some a → x = some a → x' = some a)
    (h₀ : ∀ a, a₀ = some a → ∃ fr, F'.get a = some fr ∧
      ∀ c', S'.get fr.state = some c' → Accounted x' K' D' a c' fr.phase) :
    Ledger x' F' S' K' D' where
  frame {a fr' c'} hf hc := by
    by_cases ha : a₀ = some a
    · obtain ⟨fr, hfr, hacc⟩ := h₀ a ha
      obtain rfl : fr = fr' := Option.some.inj (hfr.symm.trans hf)
      exact hacc c' hc
    · obtain ⟨fr, hfr, hp, hst⟩ := hF a ha fr' hf
      rw [hst] at hc
      obtain ⟨c, hc, hal⟩ := hS a ha fr hfr c' hc
      rw [hp]
      exact (h.frame hfr hc).congr hal (hK a ha).1 (hK a ha).2 (hx a ha)
  absent {a} hn := by
    by_cases ha : a₀ = some a
    · obtain ⟨fr, hfr, -⟩ := h₀ a ha
      rw [hfr] at hn
      cases hn
    · exact (hK a ha).1.trans (h.absent (hN a ha hn))

/-- entries that the accounts do not count -/
theorem tally_append {l : List Task} (ht : ∀ t ∈ l, t.isBody a = false ∧ t.isDestroying a = false ∧
    t.isCancelled a = false) : tally a (l ++ K) D = tally a K D := by
  have h0 : ∀ p : Task → Bool, (∀ t ∈ l, p t = false) → (l ++ K).countP p = K.countP p := by
    intro p hp
    rw [List.countP_append, List.countP_eq_zero.mpr fun t h => by rw [hp t h]; nofun, Nat.zero_add]
  unfold tally
  rw [h0 _ fun t h => (ht t h).1, h0 _ fun t h => (ht t h).2.1, h0 _ fun t h => (ht t h).2.2]

theorem tally_cons (h : t.isBody a = false ∧ t.isDestroying a = false ∧ t.isCancelled a = false) :
    tally a (t :: K) D = tally a K D :=
  tally_append (l:=[t]) fun u hu => by rw [List.mem_singleton.mp hu]; exact h

/-- the call stack changes by entries that are of no frame -/
theorem Ledger.stack (h : Ledger x F S K D) (hK : ∀ a, tally a K' D = tally a K D)
    (hs : ∀ a, .selfDestroying a ∈ K' ↔ .selfDestroying a ∈ K) : Ledger x F S K' D :=
  h.at none (fun _ _ fr hf => ⟨fr, hf, rfl, rfl⟩) (fun _ _ hn => hn)
    (fun _ _ _ _ c hc => ⟨c, hc, .refl c⟩) (fun a _ => ⟨hK a, hs a⟩) (fun _ _ hx => hx) nofun

/-! ## a frame in its next phase -/

theorem goto_modify {p : Phase} {b : Handle} {fr' : MethodFrame}
    (h : (F.modify a (.goto p)).get b = some fr') :
    ∃ fr, F.get b = some fr ∧ fr'.state = fr.state ∧ fr'.outer = fr.outer ∧
      fr'.phase = if b = a then p else fr.phase := by
  obtain ⟨fr, hfr, rfl⟩ := Heap.get_modify_some h
  refine ⟨fr, hfr, ?_⟩
  split <;> exact ⟨rfl, rfl, rfl⟩

theorem goto_other {p : Phase} {b : Handle} {fr : MethodFrame} (h : F.get b = some fr)
    (hb : b ≠ a) : (F.modify a (.goto p)).get b = some fr := (Heap.get_modify_ne hb).trans h

theorem Made.goto (h : Made F S) (p : Phase) : Made (F.modify a (.goto p)) S where
  state hf := by
    obtain ⟨fr, hfr, hs, -, -⟩ := goto_modify hf
    rw [hs]
    exact h.state hfr
  frame hc hm := by
    obtain ⟨fr, hfr, hs⟩ := h.frame hc hm
    refine ⟨_, Heap.get_modify_of hfr, ?_⟩
    split <;> exact hs

theorem Made.states (h : Made F S) {f : Mem T X → Mem T X} :
    Made F (S.modify s (.onMem f)) where
  state hf := by
    obtain ⟨c, hc, hm⟩ := h.state hf
    refine ⟨_, Heap.get_modify_of hc, ?_⟩
    split <;> exact hm
  frame hc' hm := by
    obtain ⟨c, hc, rfl⟩ := Heap.get_modify_some hc'
    refine h.frame hc ?_
    split at hm <;> exact hm

/-- a coroutine that did not wait goes to where it will not wait any more -/
theorem Waits.goto (h : Waits O F S K) {p : Phase}
    (hb : ∀ {fr g}, F.get a = some fr → fr.phase ≠ .suspended g)
    (hp : p ≠ .running ∧ ∀ g, p ≠ .suspended g) : Waits O (F.modify a (.goto p)) S K where
  owned {b fr' g} hf hs := by
    obtain ⟨fr, hfr, -, -, hph⟩ := goto_modify hf
    rw [hph] at hs
    split at hs
    · exact absurd hs (hp.2 g)
    · exact h.owned hfr hs
  quiet {b fr' g} hf hs := by
    obtain ⟨fr, hfr, -, -, hph⟩ := goto_modify hf
    rw [hph] at hs
    split at hs
    · exact absurd hs (hp.2 g)
    · exact h.quiet hfr hs
  continuation {s c b} hc hcont := by
    obtain ⟨fr, g, hf, hs, hh⟩ := h.continuation hc hcont
    refine ⟨fr, g, goto_other hf ?_, hs, hh⟩
    rintro rfl
    exact hb hf hs
  outer {i b fr'} hf ha ho := by
    obtain ⟨fr, hfr, hst, hou, hph⟩ := goto_modify hf
    rw [hst]
    refine h.outer hfr ?_ (hou ▸ ho)
    unfold MethodFrame.Active at ha
    rw [hph] at ha
    split at ha
    · rcases ha with ha | ⟨g, ha⟩
      · exact absurd ha hp.1
      · exact absurd ha (hp.2 g)
    · exact ha

/-- a frame that dies stays dead -/
theorem Gone.goto {p : Phase} {q : Home} (h : Gone F S q) (hp : p = .dying ∨ p = .freed) :
    Gone (F.modify a (.goto p)) S q := by
  refine h.mono (fun {b fr} hf hd => ⟨_, Heap.get_modify_of hf, ?_⟩) fun hc ha => ⟨_, hc, ha⟩
  split
  · exact hp
  · exact hd

/-- a frame that is not dying goes on -/
theorem Gone.goto_alive {p : Phase} {q : Home} (h : Gone F S q) {fr : MethodFrame}
    (ha : F.get a = some fr) (hp : fr.phase ≠ .dying ∧ fr.phase ≠ .freed) :
    Gone (F.modify a (.goto p)) S q := by
  refine h.mono (fun {b fr'} hf hd => ⟨fr', goto_other hf ?_, hd⟩) fun hc ha => ⟨_, hc, ha⟩
  rintro rfl
  obtain rfl : fr' = fr := Option.some.inj (hf.symm.trans ha)
  rcases hd with hd | hd
  · exact hp.1 hd
  · exact hp.2 hd

/-- the accounts after one frame went to its next phase -/
theorem Ledger.goto {x' : Option Handle} {D' : List Handle} {p : Phase} {fr : MethodFrame}
    (h : Ledger x F S K D) (hf : F.get a = some fr)
    (hS : ∀ {b fr c'}, b ≠ a → F.get b = some fr → S'.get fr.state = some c' →
      ∃ c, S.get fr.state = some c ∧ c.Alike c')
    (hK : ∀ b, b ≠ a → tally b K' D' = tally b K D ∧
      (.selfDestroying b ∈ K' ↔ .selfDestroying b ∈ K))
    (hx : ∀ b, b ≠ a → x = some b → x' = some b)
    (h₀ : ∀ c', S'.get fr.state = some c' → Accounted x' K' D' a c' p) :
    Ledger x' (F.modify a (.goto p)) S' K' D' := by
  have hne : ∀ {b}, some a ≠ some b → b ≠ a := fun hb he => hb (congrArg some he.symm)
  refine h.at (some a) (fun b hb fr' hf' => ?_) (fun b hb hn => ?_) (fun b hb fr hfr c' hc' =>
    hS (hne hb) hfr hc') (fun b hb => hK b (hne hb)) (fun b hb => hx b (hne hb)) fun b hb => ?_
  · rw [Heap.get_modify_ne (hne hb)] at hf'
    exact ⟨fr', hf', rfl, rfl⟩
  · rwa [Heap.get_modify_ne (hne hb)] at hn
  · obtain rfl := Option.some.inj hb
    exact ⟨_, Heap.get_modify_self hf, h₀⟩

/-! ## a state in its next phase -/

/-- two coroutines make the results of two states -/
theorem Made.apart (h : Made F S) {b : Handle} {fr fr' : MethodFrame} (hf : F.get a = some fr)
    (hf' : F.get b = some fr') (hb : b ≠ a) : fr'.state ≠ fr.state := by
  intro he
  obtain ⟨c, hc, hm⟩ := h.state hf
  obtain ⟨c', hc', hm'⟩ := h.state hf'
  rw [he] at hc'
  rw [Option.some.inj (hc'.symm.trans hc)] at hm'
  exact hb (Option.some.inj (hm'.symm.trans hm))

theorem settled_modify (h : ∀ {s c}, S.get s = some c → Shared.Settled c) {c : Shared T X}
    (hc : S.get s = some c) {f : Mem T X → Mem T X} (hset : (c.onMem f).Settled) {s' : Address}
    {c' : Shared T X} (hc' : (S.modify s (.onMem f)).get s' = some c') : c'.Settled := by
  obtain ⟨c₁, hc₁, rfl⟩ := states_modify hc'
  by_cases he : s' = s
  · subst he
    rw [Option.some.inj (hc₁.symm.trans hc), if_pos rfl]
    exact hset
  · rw [if_neg he]
    exact h hc₁

theorem Custody.onState (h : Custody O S K) {c : Shared T X} (hc : S.get s = some c)
    {f : Mem T X → Mem T X} (hrel : (c.onMem f).released = c.released) :
    Custody O (S.modify s (.onMem f)) K := by
  refine h.congr (fun _ => rfl) (unreleased_modify fun c₁ hc₁ => ?_) (makerIn_modify ·)
    (fun ho => ⟨_, ho, rfl⟩) id
  rw [Option.some.inj (hc₁.symm.trans hc)]
  exact hrel

theorem Deaths.onState (h : Deaths O F S K) {c : Shared T X} (hc : S.get s = some c)
    {f : Mem T X → Mem T X} (hdead : c.mem.alive = false → (c.onMem f).mem.alive = false) :
    Deaths O F (S.modify s (.onMem f)) K := by
  refine h.congr (fun ho => ⟨_, ho⟩)
    (fun ho' _ ho => by rw [Option.some.inj (ho'.symm.trans ho)]) fun hg => hg.mono
      (fun hf hd => ⟨_, hf, hd⟩) fun {s' c₁} hc₁ hd => ?_
  refine ⟨_, Heap.get_modify_of hc₁, ?_⟩
  split
  · rename_i he
    rw [he] at hc₁
    rw [Option.some.inj (hc₁.symm.trans hc)] at hd ⊢
    exact hdead hd
  · exact hd

theorem Waits.onState (h : Waits O F S K) {c : Shared T X} (hc : S.get s = some c)
    {f : Mem T X → Mem T X}
    (hcont : (c.onMem f).mem.st.continuation = c.mem.st.continuation) :
    Waits O F (S.modify s (.onMem f)) K where
  owned := h.owned
  quiet := h.quiet
  continuation {s' c' a} hc' hca := by
    obtain ⟨c₁, hc₁, rfl⟩ := states_modify hc'
    refine h.continuation hc₁ ?_
    split at hca
    · rename_i he
      rw [he] at hc₁
      rw [Option.some.inj (hc₁.symm.trans hc)] at hca ⊢
      exact hcont.symm.trans hca
    · exact hca
  outer hf ha ho := by
    obtain ⟨c₁, hc₁, hca⟩ := h.outer hf ha ho
    refine ⟨_, Heap.get_modify_of hc₁, ?_⟩
    split
    · rename_i he
      rw [he] at hc₁
      rw [Option.some.inj (hc₁.symm.trans hc)] at hca ⊢
      exact hcont.trans hca
    · exact hca

/-- a change of one state that the frames do not see, and that leaves its future where it is -/
theorem Inv.onState (h : Inv x m) {c : Shared T X} (hc : m.states.get s = some c)
    {f : Mem T X → Mem T X} (hset : (c.onMem f).Settled)
    (hal : c.maker = none ∨ c.Alike (c.onMem f))
    (hrel : (c.onMem f).released = c.released)
    (hcont : (c.onMem f).mem.st.continuation = c.mem.st.continuation)
    (hdead : c.mem.alive = false → (c.onMem f).mem.alive = false) : Inv x (m.onState s f) := by
  refine ⟨h.clean, settled_modify h.settled hc hset, h.made.states, h.custody.onState hc hrel, ?_,
    h.deaths.onState hc hdead, h.waits.onState hc hcont⟩
  refine h.ledger.at none (fun _ _ fr hf => ⟨fr, hf, rfl, rfl⟩) (fun _ _ hn => hn)
    (fun a _ fr hf c' hc' => ?_) (fun _ _ => ⟨rfl, Iff.rfl⟩) (fun _ _ hx => hx) nofun
  obtain ⟨c₁, hc₁, rfl⟩ := states_modify hc'
  split
  · rename_i he
    rw [he] at hc₁ ⊢
    obtain rfl := Option.some.inj (hc₁.symm.trans hc)
    refine ⟨c₁, hc₁, ?_⟩
    rcases hal with hn | hal
    · obtain ⟨c₂, hc₂, hm⟩ := h.made.state hf
      rw [he] at hc₂
      rw [Option.some.inj (hc₂.symm.trans hc), hn] at hm
      cases hm
    · exact hal
  · exact ⟨c₁, hc₁, .refl c₁⟩

end Futures
end ActorZeta
