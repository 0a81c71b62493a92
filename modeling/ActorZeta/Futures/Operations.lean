import ActorZeta.Futures.Creation

/-!
# What the program does

Each operation of the program keeps the invariant, if it does not meet another operation on its
object.

* `Inv.begins`    an object that the program can name and that is in no operation;
* `Inv.resume`, `Inv.finalSuspend`, `Inv.await`   the steps of a coroutine;
* `Inv.exec`      all operations.
-/

namespace ActorZeta
open StateFlags
namespace Futures
variable {T X : Type} {O O' : Heap Object} {F F' : Heap MethodFrame} {S S' : Heap (Shared T X)}
  {K K' ts : List Task} {D : List Handle} {x : Option Handle} {m m' : Futures T X} {g h : Nat}
  {k : After} {a : Handle} {s : Address} {t : Task}

/-! ## release() of an object that the program can name -/

theorem Inv.waited (h : Inv x m) {o : Object} (hr : m.reach g = some o) {fr : MethodFrame}
    (hf : m.frames.get a = some fr) : fr.phase ≠ .suspended g :=
  h.waits.not_waited (reach_some hr).1 (reach_some hr).2 hf

/-- an object that the program can name and that is in no operation -/
theorem Inv.begins (h : Inv x m) {o : Object} (hr : m.reach g = some o)
    (hb : m.busy g = false) : Begins m.objects m.frames m.states m.control g .nothing where
  idle := busy_eq_false.mp hb
  waited := h.waited hr
  ending := nofun
  taking := nofun

theorem Inv.detach (h : Inv none m) {o : Object} (hr : m.reach g = some o)
    (hb : m.busy g = false) : Inv none (m.release g .nothing) :=
  h.release (h.begins hr hb) (reach_some hr).1

/-- the program destroys an object of its own -/
theorem Inv.destroy (h : Inv none m) {o : Object} (ho : m.objects.get g = some o)
    (hi : o.home.inner = false) (hw : ∀ {a fr}, m.frames.get a = some fr → fr.phase ≠ .suspended g)
    (hb : m.busy g = false) (hs : m.sourced g = false) : Inv none (m.release g .destroy) := by
  have hidle := busy_eq_false.mp hb
  refine h.release ⟨hidle, hw, fun _ => ⟨fun t ht => ⟨?_, sourced_eq_false.mp hs t ht⟩,
    fun {o'} ho' => ?_⟩, nofun⟩ ho
  · exact h.deaths.not_kills_outer ho hi hidle t ht
  · obtain rfl : o' = o := Option.some.inj (ho'.symm.trans ho)
    cases hp : o'.home with
    | outside => trivial
    | awaiter a => trivial
    | param a => rw [hp] at hi; cases hi
    | value s => rw [hp] at hi; cases hi

theorem Inv.assign (h : Inv none m) {h' : Nat} {o o' : Object} (hr : m.reach g = some o)
    (hr' : m.reach h' = some o') (hne : g ≠ h') (hb : m.busy g = false) (hb' : m.busy h' = false) :
    Inv none (m.release g (.assign h')) := by
  refine h.release ⟨busy_eq_false.mp hb, h.waited hr, nofun, fun he => ?_⟩ (reach_some hr).1
  obtain rfl := After.assign.inj he
  exact ⟨⟨o', (reach_some hr').1⟩, busy_eq_false.mp hb', h.waited hr', hne⟩

/-- what the program can name and holds a state may be looked at -/
theorem Inv.look (h : Inv x m) {o : Object} (hr : m.reach g = some o) (hb : m.busy g = false)
    (hs : o.state = some s) : ∃ c, m.look s = some c ∧ m.states.get s = some c ∧
      c.released = false ∧ c.mem.alive = true ∧ heldIn m.objects m.control g = some s := by
  have hheld : heldIn m.objects m.control g = some s :=
    (heldIn_idle (busy_eq_false.mp hb) (reach_some hr).1).trans hs
  obtain ⟨c, hc, hrel⟩ := h.custody.holding.valid hheld
  have halive := (h.settled hc).alive_of_unreleased hrel
  exact ⟨c, look_some hc halive, hc, hrel, halive, hheld⟩

theorem look_get {c : Shared T X} (h : m.look s = some c) :
    m.states.get s = some c ∧ c.mem.alive = true := Option.filter_eq_some_iff.mp h

/-- the frame of an object that the program can name is there -/
theorem Inv.live (h : Inv none m) {o : Object} (hr : m.reach g = some o) (hb : m.busy g = false)
    (ha : o.handle = some a) : m.live a = true := by
  obtain ⟨fr, c, hf, hh, hc, -, hrel⟩ := h.owner (reach_some hr).1 ha
  unfold Futures.live
  rw [hf]
  exact decide_eq_true (h.owned_phase (busy_eq_false.mp hb) hf hh hc hrel).2

theorem Inv.inspect (h : Inv none m) {o : Object} (hr : m.reach g = some o)
    (hb : m.busy g = false) : m.inspect o = m := by
  unfold Futures.inspect
  cases hs : o.state with
  | none => rfl
  | some s =>
    obtain ⟨c, hl, -⟩ := h.look hr hb hs
    dsimp only
    rw [hl]
    dsimp only
    split
    · rfl
    · cases ha : o.handle with
      | none => rfl
      | some a => exact if_pos (h.live hr hb ha)

/-- the value is taken, and the state is released -/
theorem Inv.takeReady (h : Inv none m) {o : Object} (hr : m.reach g = some o)
    (hb : m.busy g = false) {c : Shared T X} (hl : m.look s = some c)
    {v : T × State T X} (hv : c.mem.st.takeValue = some v) :
    Inv none ((m.onState s (·.access fun _ => v.2)).release g .nothing) := by
  have hflags : v.2.flags = c.mem.st.flags ||| consumed ∧
      v.2.continuation = c.mem.st.continuation := by
    unfold State.takeValue at hv
    obtain ⟨w, -, rfl⟩ := Option.map_eq_some_iff.mp hv
    exact ⟨rfl, rfl⟩
  obtain ⟨hc, -⟩ := look_get hl
  have hhas : ∀ n, v.2.flags.has n = (c.mem.st.flags.has n || consumed.has n) := fun n => by
    rw [hflags.1, Word.has_or]
  have hrel : (c.onMem (·.access fun _ => v.2)).released = c.released := by
    show v.2.flags.has futureReleased = _
    rw [hhas]
    simp [Shared.released]
  have hready : (c.onMem (·.access fun _ => v.2)).ready = c.ready := by
    show v.2.flags.has promiseReleased = _
    rw [hhas]
    simp [Shared.ready, State.isReady]
  have hresult : v.2.hasResult = c.mem.st.hasResult := by
    show v.2.flags.has resultSet = _
    rw [hhas]
    simp [State.hasResult]
  have hmid : Inv none (m.onState s (·.access fun _ => v.2)) := by
    refine h.onState hc ((h.settled hc).access hrel hready ?_) (Or.inr ⟨hready, hresult, hrel⟩) hrel
      hflags.2 id
    rw [hhas]
    simp
  exact hmid.detach (m:=m.onState s (·.access fun _ => v.2)) hr hb

/-! ## a promise that settles -/

/-- a state that is there holds nothing that is about to die -/
theorem Inv.not_kills_value (h : Inv x m) {c : Shared T X} (hc : m.states.get s = some c)
    (ha : c.mem.alive = true) {o : Object} (ho : m.objects.get g = some o)
    (hp : o.home = .value s) : ∀ t ∈ m.control, t.kills g = false := by
  have hng : ¬ Gone m.frames m.states (.value s) := by
    rintro ⟨c', hc', hd⟩
    rw [Option.some.inj (hc'.symm.trans hc), ha] at hd
    cases hd
  exact fun t ht => h.deaths.not_kills hng ho hp ht

theorem Inv.settle (h : Inv none m) {c : Shared T X} (hl : m.look s = some c)
    (hm : c.maker = none) (hr : c.ready = false) (o : Outcome T X) :
    Inv none (m.settle s c o) := by
  obtain ⟨hc, halive⟩ := look_get hl
  obtain ⟨k1, k2, k3⟩ := Shared.setOutcome_has c.mem.st o
  have hset : (c.onMem (·.access (·.setOutcome o))).Settled := (h.settled hc).access k2 k1 k3
  obtain ⟨j1, j2, j3, j4, j5, j6⟩ := hset.finalize (k1.trans hr)
  have hcont : (c.mem.st.setOutcome o).continuation = c.mem.st.continuation := by
    cases o <;> rfl
  have hmid : Inv none (m.onState s fun _ => (c.mem.access (·.setOutcome o)).finalize.2) :=
    h.onState hc j1 (Or.inl hm) (j3.trans k2) (j5.trans hcont) fun hd => by
      rw [halive] at hd
      cases hd
  unfold Futures.settle
  dsimp only
  split
  · rename_i hfree
    refine hmid.destructors rfl ⟨_, Heap.get_modify_self hc, ?_⟩
      fun ho hp => h.not_kills_value hc halive ho hp
    refine j4.trans ?_
    rw [← j6]
    exact congrArg (!·) hfree
  · exact hmid

/-! ## the coroutine that has control -/

/-- what is known of the coroutine whose body has control -/
structure InControl (m : Futures T X) (a : Handle) (fr : MethodFrame) (K : List Task)
    (c : Shared T X) : Prop where
  control : m.control = .body a :: K
  frame : m.frames.get a = some fr
  state : m.states.get fr.state = some c
  maker : c.maker = some a
  ready : c.ready = false
  phase : (fr.phase = .running ∧ c.mem.st.hasResult = false) ∨ fr.phase = .leaving
  tally : tally a m.control m.destroyed = (1, 0, 0, 0)

theorem Inv.current (h : Inv none m) {fr : MethodFrame} (hc : m.current = some (a, fr)) :
    ∃ K c, InControl m a fr K c := by
  unfold Futures.current at hc
  split at hc
  · rename_i b K hK
    obtain ⟨fr', hf, he⟩ := Option.map_eq_some_iff.mp hc
    obtain ⟨rfl, rfl⟩ := Prod.mk.inj he
    obtain ⟨c, hs, hm⟩ := h.made.state hf
    have hacc := h.ledger.frame hf hs
    have hpos : m.control.countP (Task.isBody b) ≠ 0 := by
      rw [hK]
      exact fun h0 => List.countP_eq_zero.mp h0 _ List.mem_cons_self (decide_eq_true rfl)
    have hno : ∀ {d k n}, Futures.tally b m.control m.destroyed ≠ (0, d, k, n) := by
      intro d k n he
      simp only [Futures.tally, Prod.mk.injEq] at he
      exact hpos he.1
    refine ⟨K, c, ?_⟩
    cases hp : fr'.phase with
    | running =>
      rw [hp] at hacc
      exact ⟨hK, hf, hs, hm, hacc.1, Or.inl ⟨hp, hacc.2.1⟩, hacc.2.2⟩
    | leaving =>
      rw [hp] at hacc
      exact ⟨hK, hf, hs, hm, hacc.1, Or.inr hp, hacc.2⟩
    | suspended g => rw [hp] at hacc; exact absurd hacc.2.2 hno
    | parked => rw [hp] at hacc; exact absurd hacc.2 hno
    | dying => rw [hp] at hacc; exact absurd hacc.2.1 hno
    | freed => rw [hp] at hacc; exact absurd hacc.2.1 hno
  · cases hc

namespace InControl
variable {fr : MethodFrame} {c : Shared T X}

theorem not_suspended (h : InControl m a fr K c) {fr' : MethodFrame}
    (hf : m.frames.get a = some fr') : fr'.phase ≠ .suspended g := by
  rw [Option.some.inj (hf.symm.trans h.frame)]
  intro hs
  rcases h.phase with ⟨hp, -⟩ | hp
  · rw [hp] at hs; cases hs
  · rw [hp] at hs; cases hs

theorem not_gone (h : InControl m a fr K c) : fr.phase ≠ .dying ∧ fr.phase ≠ .freed := by
  rcases h.phase with ⟨hp, -⟩ | hp <;> rw [hp] <;> exact ⟨nofun, nofun⟩

end InControl

/-- the end of the full expression of a `co_await` -/
theorem Inv.endAwait (h : Inv none m) {fr : MethodFrame} (hc : m.current = some (a, fr))
    {o : Object} (ho : m.objects.get g = some o) (hp : o.home = .awaiter a)
    (hb : m.busy g = false) (hs : m.sourced g = false) : Inv none (m.release g .destroy) := by
  obtain ⟨K, c, hin⟩ := h.current hc
  refine h.destroy ho (by rw [hp]; rfl) (fun {b fr'} hf hsus => ?_) hb hs
  obtain ⟨o', ho', hw⟩ := h.waits.owned hf hsus
  rw [Option.some.inj (ho'.symm.trans ho), hp] at hw
  obtain rfl := Home.awaiter.inj hw
  exact hin.not_suspended hf hsus

/-- `return_value`, `return_void`, `unhandled_exception` -/
theorem Inv.coReturn (h : Inv none m) {fr : MethodFrame} (hc : m.current = some (a, fr))
    (o : Outcome T X) :
    Inv none ((m.onState fr.state (·.access (·.setOutcome o))).onFrame a (.goto .leaving)) := by
  obtain ⟨K, c, hin⟩ := h.current hc
  obtain ⟨k1, k2, k3⟩ := Shared.setOutcome_has c.mem.st o
  have hcont : (c.mem.st.setOutcome o).continuation = c.mem.st.continuation := by
    cases o <;> rfl
  have hset : (c.onMem (·.access (·.setOutcome o))).Settled :=
    (h.settled hin.state).access k2 k1 k3
  refine ⟨h.clean, settled_modify h.settled hin.state hset,
    h.made.states.goto _, h.custody.onState hin.state k2, ?_,
    (h.deaths.onState hin.state id).congr (fun ho => ⟨_, ho⟩)
      (fun ho' _ ho => by rw [Option.some.inj (ho'.symm.trans ho)])
      fun hg => hg.goto_alive hin.frame hin.not_gone,
    (h.waits.onState (f:=(·.access (·.setOutcome o))) hin.state hcont).goto hin.not_suspended
      ⟨nofun, nofun⟩⟩
  refine h.ledger.goto hin.frame (fun {b fr' c'} hb hf hc' => ?_) (fun _ _ => ⟨rfl, Iff.rfl⟩)
    (fun _ _ hx => hx) fun c' hc' => ?_
  · refine ⟨c', ?_, .refl c'⟩
    exact (Heap.get_modify_ne (h.made.apart hin.frame hf hb)).symm.trans hc'
  · obtain rfl := Option.some.inj ((Heap.get_modify_self hin.state).symm.trans hc')
    exact ⟨k1.trans hin.ready, hin.tally⟩

/-! ## a coroutine is resumed -/

/-- the outer promises of a coroutine are all of the kind that `P` is about -/
theorem outers_all {P : Handle → Prop}
    (hstep : ∀ {b fr o}, P b → F.get b = some fr → fr.outer = some o → P o) :
    ∀ (n : Nat) {b : Handle}, P b → ∀ o ∈ outers n F b, P o
  | 0, _, _ => nofun
  | n + 1, b, hb => fun o ho => by
    unfold outers at ho
    split at ho
    · cases ho
    · rename_i o' he
      obtain ⟨fr, hf, hout⟩ := Option.bind_eq_some_iff.mp he
      rcases List.mem_cons.mp ho with rfl | ho
      · exact hstep hb hf hout
      · exact outers_all hstep n (hstep hb hf hout) o ho

/-- a frame with a coroutine that has not come to its `co_return` -/
def ActiveIn (F : Heap MethodFrame) (a : Handle) : Prop := ∃ fr, F.get a = some fr ∧ fr.Active

theorem live_of_active (h : ActiveIn m.frames a) : m.live a = true := by
  obtain ⟨fr, hf, ha⟩ := h
  unfold Futures.live
  rw [hf]
  refine decide_eq_true ?_
  rcases ha with hp | ⟨g, hp⟩ <;> rw [hp] <;> nofun

theorem updateOuters_of {P : Handle → Prop} (hP : ∀ {b}, P b → ActiveIn m.frames b)
    (hstep : ∀ {b fr o}, P b → m.frames.get b = some fr → fr.outer = some o → P o) (ha : P a) :
    m.updateOuters a = m := by
  refine if_pos (List.all_eq_true.mpr fun o ho => ?_)
  exact live_of_active (hP (outers_all hstep _ ha o ho))

/-- whoever waits for an active coroutine is active -/
theorem Waits.outer_active (h : Waits O F S K) {i b : Handle} {fr : MethodFrame}
    (hi : ActiveIn F i) (hf : F.get i = some fr) (ho : fr.outer = some b) : ActiveIn F b := by
  obtain ⟨fr', hf', ha⟩ := hi
  obtain rfl : fr' = fr := Option.some.inj (hf'.symm.trans hf)
  obtain ⟨c, hc, hca⟩ := h.outer hf' ha ho
  obtain ⟨frb, g, hfb, hs, -⟩ := h.continuation hc hca
  exact ⟨frb, hfb, Or.inr ⟨g, hs⟩⟩

theorem Inv.updateOuters (h : Inv x m) (ha : ActiveIn m.frames a) : m.updateOuters a = m :=
  updateOuters_of (P := ActiveIn m.frames) id (fun hb hf ho => h.waits.outer_active hb hf ho) ha

/-- an active coroutine has not set its result -/
theorem Ledger.noResult (h : Ledger x F S K D) {fr : MethodFrame} (hf : F.get a = some fr)
    (ha : fr.Active) {c : Shared T X} (hc : S.get fr.state = some c) :
    c.mem.st.hasResult = false := by
  have hacc := h.frame hf hc
  rcases ha with hp | ⟨g, hp⟩
  · rw [hp] at hacc
    exact hacc.2.1
  · rw [hp] at hacc
    exact hacc.2.1

/-- a coroutine is registered with one state -/
theorem Waits.registered (h : Waits O F S K) {c c' : Shared T X} {s' : Address}
    (hc : S.get s = some c) (ha : c.mem.st.continuation = some a) (hc' : S.get s' = some c')
    (ha' : c'.mem.st.continuation = some a) : s' = s := by
  obtain ⟨fr, g, hf, hs, hh⟩ := h.continuation hc ha
  obtain ⟨fr', g', hf', hs', hh'⟩ := h.continuation hc' ha'
  rw [Option.some.inj (hf'.symm.trans hf), hs] at hs'
  obtain rfl := Phase.suspended.inj hs'
  exact Option.some.inj (hh'.symm.trans hh)

/-- the continuation of a state is taken whose result is there -/
theorem Waits.take (h : Waits O F S K) {c : Shared T X} (hc : S.get s = some c)
    {f : Mem T X → Mem T X} (hf : (c.onMem f).mem.st.continuation = none)
    (hn : ∀ {i fr}, F.get i = some fr → fr.Active → fr.state ≠ s) :
    Waits O F (S.modify s (.onMem f)) K where
  owned := h.owned
  quiet := h.quiet
  continuation {s' c' a} hc' hca := by
    obtain ⟨c₁, hc₁, rfl⟩ := states_modify hc'
    split at hca
    · rename_i he
      rw [he] at hc₁
      rw [Option.some.inj (hc₁.symm.trans hc), hf] at hca
      cases hca
    · exact h.continuation hc₁ hca
  outer hi ha ho := by
    obtain ⟨c₁, hc₁, hca⟩ := h.outer hi ha ho
    exact ⟨c₁, (Heap.get_modify_ne (hn hi ha)).trans hc₁, hca⟩

/-- a coroutine that no state has registered any more goes on -/
theorem Waits.wake (h : Waits O F S K) {fr : MethodFrame} (hf : F.get a = some fr)
    (hs : fr.phase = .suspended g)
    (hn : ∀ {s c}, S.get s = some c → c.mem.st.continuation ≠ some a) :
    Waits O (F.modify a (.goto .running)) S K where
  owned hf' hs' := by
    obtain ⟨fr₁, hf₁, -, -, hp⟩ := goto_modify hf'
    rw [hp] at hs'
    split at hs'
    · cases hs'
    · exact h.owned hf₁ hs'
  quiet hf' hs' := by
    obtain ⟨fr₁, hf₁, -, -, hp⟩ := goto_modify hf'
    rw [hp] at hs'
    split at hs'
    · cases hs'
    · exact h.quiet hf₁ hs'
  continuation {s c b} hc hca := by
    obtain ⟨fr₁, g₁, hf₁, hs₁, hh⟩ := h.continuation hc hca
    refine ⟨fr₁, g₁, goto_other hf₁ ?_, hs₁, hh⟩
    rintro rfl
    exact hn hc hca
  outer {i b fr'} hi ha ho := by
    obtain ⟨fr₁, hf₁, hst, hou, hp⟩ := goto_modify hi
    rw [hst]
    refine h.outer hf₁ ?_ (hou ▸ ho)
    unfold MethodFrame.Active at ha
    rw [hp] at ha
    split at ha
    · rename_i he
      rw [he] at hf₁
      rw [Option.some.inj (hf₁.symm.trans hf)]
      exact Or.inr ⟨g, hs⟩
    · exact ha

theorem Inv.resume (h : Inv none m) {fr : MethodFrame} (hf : m.frames.get a = some fr)
    (hs : fr.phase = .suspended g)
    (hn : ∀ {s c}, m.states.get s = some c → c.mem.st.continuation ≠ some a) :
    Inv none (m.resume a) := by
  have hplain : (Task.body a).Plain := ⟨fun _ => rfl, fun _ => rfl⟩
  have hmid : Inv none ((m.onFrame a (.goto .running)).push [.body a]) := by
    refine ⟨h.clean, h.settled, h.made.goto _, h.custody.plain hplain, ?_,
      (h.deaths.congr (fun ho => ⟨_, ho⟩)
        (fun ho' _ ho => by rw [Option.some.inj (ho'.symm.trans ho)])
        fun hg => hg.goto_alive hf (by rw [hs]; exact ⟨nofun, nofun⟩)).plain hplain,
      (h.waits.wake hf hs hn).plain hplain⟩
    refine h.ledger.goto hf (fun _ _ hc' => ⟨_, hc', .refl _⟩) (fun b hb => ⟨?_, ?_⟩)
      (fun _ _ hx => hx) fun c' hc' => ?_
    · exact tally_cons (t:=.body a) ⟨decide_eq_false (Ne.symm hb), rfl, rfl⟩
    · refine List.mem_cons.trans (or_iff_right nofun)
    · have hacc := h.ledger.frame hf hc'
      rw [hs] at hacc
      obtain ⟨hready, hresult, ht⟩ := hacc
      refine ⟨hready, hresult, ?_⟩
      simp only [tally, Prod.mk.injEq] at ht
      obtain ⟨t1, t2, t3, t4⟩ := ht
      simp [tally, push, onFrame, Task.isBody, Task.isDestroying, Task.isCancelled, t1, t2, t3, t4]
  unfold Futures.resume
  rw [hf]
  dsimp only
  rw [hs]
  dsimp only
  rw [hmid.updateOuters ⟨_, Heap.get_modify_self hf, Or.inl rfl⟩]
  exact hmid

/-- the drivers resume whoever waits for a state whose result is there -/
theorem Inv.drain (h : Inv none m) {c : Shared T X} (hl : m.look s = some c)
    (hr : c.mem.st.hasResult = true) (ha : c.mem.takeContinuation.1 = some a) :
    Inv none ((m.onState s fun mem => mem.takeContinuation.2).resume a) := by
  obtain ⟨hc, -⟩ := look_get hl
  obtain ⟨fr, g, hf, hs, -⟩ := h.waits.continuation hc ha
  have hset : (c.onMem fun mem => mem.takeContinuation.2).Settled :=
    (h.settled hc).access (f:=({ · with continuation := none })) rfl rfl rfl
  have hw : Waits m.objects m.frames (m.states.modify s (.onMem fun mem => mem.takeContinuation.2))
      m.control := by
    refine h.waits.take hc rfl fun {i fr} hi hact he => ?_
    have hno := h.ledger.noResult hi hact (he ▸ hc)
    rw [hr] at hno
    cases hno
  have hmid : Inv none (m.onState s fun mem => mem.takeContinuation.2) := by
    refine ⟨h.clean, settled_modify h.settled hc hset, h.made.states, h.custody.onState hc rfl, ?_,
      h.deaths.onState hc id, hw⟩
    refine h.ledger.at none (fun _ _ fr hf => ⟨fr, hf, rfl, rfl⟩) (fun _ _ hn => hn)
      (fun b _ fr hf c' hc' => ?_) (fun _ _ => ⟨rfl, Iff.rfl⟩) (fun _ _ hx => hx) nofun
    obtain ⟨c₁, hc₁, rfl⟩ := states_modify hc'
    refine ⟨c₁, hc₁, ?_⟩
    split
    · exact ⟨rfl, rfl, rfl⟩
    · exact .refl _
  refine hmid.resume hf hs fun {s' c'} hc' hca => ?_
  obtain ⟨c₁, hc₁, rfl⟩ := states_modify hc'
  split at hca
  · cases hca
  · rename_i he
    exact he (h.waits.registered hc ha hc₁ hca)

/-! ## the final awaiter -/

theorem tally_tail_body {n : Nat × Nat × Nat} (h : tally a (.body a :: K) D = (1, n)) :
    tally a K D = (0, n) := by
  have hpos : Task.isBody a (.body a) = true := decide_eq_true rfl
  simp only [tally, Prod.mk.injEq] at h ⊢
  rw [List.countP_cons_of_pos hpos] at h
  exact ⟨Nat.succ.inj h.1, h.2⟩

theorem tally_cons_cancelled (h : tally a K D = (0, 0, 0, 0)) :
    tally a (.cancelled a :: K) D = (0, 0, 1, 0) := by
  have hpos : Task.isCancelled a (.cancelled a) = true := decide_eq_true rfl
  simp only [tally, Prod.mk.injEq] at h ⊢
  rw [List.countP_cons_of_pos hpos, h.2.2.1]
  exact ⟨h.1, h.2.1, rfl, h.2.2.2⟩

/-- a coroutine parks, and its state is released -/
theorem Inv.park (h : Inv none m) {fr : MethodFrame} {c : Shared T X} (hin : InControl m a fr K c)
    {f : Mem T X → Mem T X} (hset : (c.onMem f).Settled) (hready : (c.onMem f).ready = true)
    (hrel : (c.onMem f).released = c.released)
    (hcont : (c.onMem f).mem.st.continuation = none) :
    Inv none { m with
      states := m.states.modify fr.state (.onMem f)
      frames := m.frames.modify a (.goto .parked)
      control := (if c.released then [.cancelled a] else []) ++ K } := by
  have hplain : (Task.body a).Plain := ⟨fun _ => rfl, fun _ => rfl⟩
  have hplain' : (Task.cancelled a).Plain := ⟨fun _ => rfl, fun _ => rfl⟩
  have hK := hin.control
  have hcustody : Custody m.objects (m.states.modify fr.state (.onMem f)) K := by
    have hcust := h.custody
    rw [hK] at hcust
    exact (hcust.tail_plain hplain).onState hin.state hrel
  have hdeaths : Deaths m.objects (m.frames.modify a (.goto .parked))
      (m.states.modify fr.state (.onMem f)) K := by
    have hd := h.deaths
    rw [hK] at hd
    refine (hd.tail.onState hin.state fun hd => ?_).congr (fun ho => ⟨_, ho⟩)
      (fun ho' _ ho => by rw [Option.some.inj (ho'.symm.trans ho)])
      fun hg => hg.goto_alive hin.frame hin.not_gone
    rw [(h.settled hin.state).alive, hin.ready] at hd
    cases hd
  have hwaits : Waits m.objects (m.frames.modify a (.goto .parked))
      (m.states.modify fr.state (.onMem f)) K := by
    have hw : Waits m.objects m.frames m.states K := by
      refine h.waits.objects (fun t ht => ?_) (fun _ _ ho => ho) fun _ _ => ?_
      · rw [hK]
        exact List.mem_cons_of_mem _ ht
      · rw [hK, heldIn_cons rfl]
    refine (hw.goto (p:=.parked) hin.not_suspended ⟨nofun, nofun⟩).take hin.state hcont
      fun {i fr'} hi hact => ?_
    obtain ⟨fr₁, hf₁, hst, -, hp⟩ := goto_modify hi
    rw [hst]
    refine h.made.apart hin.frame hf₁ ?_
    rintro rfl
    rw [if_pos rfl] at hp
    rcases hact with ha | ⟨g, ha⟩ <;> rw [hp] at ha <;> cases ha
  have hledger : Ledger none (m.frames.modify a (.goto .parked))
      (m.states.modify fr.state (.onMem f)) ((if c.released then [.cancelled a] else []) ++ K)
      m.destroyed := by
    have htally := tally_tail_body (hK ▸ hin.tally)
    refine h.ledger.goto hin.frame (fun {b fr' c'} hb hf hc' => ?_) (fun b hb => ?_)
      (fun _ _ hx => hx) fun c' hc' => ?_
    · exact ⟨c', (Heap.get_modify_ne (h.made.apart hin.frame hf hb)).symm.trans hc', .refl c'⟩
    · rw [hK]
      split
      · refine ⟨?_, ?_⟩
        · rw [List.singleton_append, tally_cons (t:=.body a) ⟨decide_eq_false hb.symm, rfl, rfl⟩,
            tally_cons (t:=.cancelled a) ⟨rfl, rfl, decide_eq_false hb.symm⟩]
        · simp
      · refine ⟨?_, ?_⟩
        · rw [List.nil_append, tally_cons (t:=.body a) ⟨decide_eq_false hb.symm, rfl, rfl⟩]
        · simp
    · obtain rfl := Option.some.inj ((Heap.get_modify_self hin.state).symm.trans hc')
      refine ⟨hready, ?_⟩
      rw [hrel]
      cases c.released with
      | true => exact tally_cons_cancelled htally
      | false => exact htally
  refine ⟨h.clean, settled_modify h.settled hin.state hset, h.made.states.goto _, ?_, hledger, ?_,
    ?_⟩
  · split
    · exact hcustody.plain hplain'
    · exact hcustody
  · split
    · exact hdeaths.plain hplain'
    · exact hdeaths
  · split
    · exact hwaits.plain hplain'
    · exact hwaits

/-- **The final awaiter.** -/
theorem Inv.finalSuspend (h : Inv none m) {fr : MethodFrame} (hc : m.current = some (a, fr)) :
    Inv none (m.finalSuspend a fr) := by
  obtain ⟨K, c, hin⟩ := h.current hc
  have halive : c.mem.alive = true := by
    rw [(h.settled hin.state).alive, hin.ready]
    rfl
  have hset : (c.onMem fun mem => mem.takeContinuation.2).Settled :=
    (h.settled hin.state).access (f:=({ · with continuation := none })) rfl rfl rfl
  obtain ⟨k1, k2, k3, k4, k5, k6⟩ := hset.finalize hin.ready
  have hpark := h.park hin (f:=fun _ => c.mem.takeContinuation.2.finalize.2) k1 k2 k3 k5
  have hstate : (m.states.modify fr.state
      (.onMem fun _ => c.mem.takeContinuation.2.finalize.2)).get fr.state
        = some (c.onMem fun _ => c.mem.takeContinuation.2.finalize.2) :=
    Heap.get_modify_self hin.state
  have hpush : ∀ ts, (((m.onState fr.state fun _ => c.mem.takeContinuation.2.finalize.2).onFrame a
      (.goto .parked)).pop).push ts = { m with
        states := m.states.modify fr.state (.onMem fun _ => c.mem.takeContinuation.2.finalize.2)
        frames := m.frames.modify a (.goto .parked)
        control := ts ++ K } := by
    intro ts
    show { m with
      states := m.states.modify fr.state (.onMem fun _ => c.mem.takeContinuation.2.finalize.2)
      frames := m.frames.modify a (.goto .parked)
      control := ts ++ m.control.tail } = _
    rw [hin.control]
    rfl
  unfold Futures.finalSuspend
  rw [look_some hin.state halive]
  show Inv none (if c.mem.takeContinuation.2.finalize.1 then _ else _)
  split
  · rename_i hfree
    -- the future is gone: the state dies, and the coroutine destroys its own frame
    have hrel : c.released = true := k6.symm.trans hfree
    rw [hrel, if_pos rfl, ← hpush] at hpark
    have hdead : ((c.onMem fun _ => c.mem.takeContinuation.2.finalize.2).mem.alive) = false := by
      refine k4.trans ?_
      rw [show (c.onMem fun mem => mem.takeContinuation.2).released = c.released from rfl, hrel]
      rfl
    have hdest := hpark.destructors (p:=.value fr.state) rfl ⟨_, hstate, hdead⟩
      fun {g o} ho hp t ht => ?_
    · unfold Futures.push at hdest ⊢
      rw [List.append_assoc]
      exact hdest
    · rw [hpush] at ht
      rcases List.mem_cons.mp ht with rfl | ht
      · rfl
      · refine h.not_kills_value hin.state halive ho hp t ?_
        rw [hin.control]
        exact List.mem_cons_of_mem _ ht
  · rename_i hfree
    have hrel : c.released = false := k6.symm.trans (Bool.eq_false_iff.mpr hfree)
    rw [hrel, if_neg Bool.false_ne_true, ← hpush] at hpark
    show Inv none (resumeAny _ c.mem.st.continuation)
    cases hcont : c.mem.st.continuation with
    | none => exact hpark
    | some b =>
      -- control goes to the coroutine that awaits this one
      obtain ⟨frb, g, hfb, hsb, -⟩ := h.waits.continuation hin.state hcont
      have hb : b ≠ a := by
        rintro rfl
        exact hin.not_suspended hfb hsb
      refine hpark.resume (goto_other hfb hb) hsb fun {s' c'} hc' hca => ?_
      rw [hpush] at hc'
      obtain ⟨c₁, hc₁, rfl⟩ := states_modify hc'
      split at hca
      · rw [show (c₁.onMem _).mem.st.continuation = none from k5] at hca
        cases hca
      · rename_i he
        exact he (h.waits.registered hin.state hcont hc₁ hca)

/-! ## co_await -/

/-- a coroutine registers with a state whose future only it can reach -/
theorem Waits.suspend (h : Waits O F S K) {fr : MethodFrame} (hf : F.get a = some fr)
    (hp : fr.phase = .running) {own : Nat} {o : Object} (ho : O.get own = some o)
    (hh : o.home = .awaiter a) (hq : ∀ t ∈ K, t.touches own = false ∧ t.takesFrom own = false)
    (hheld : heldIn O K own = some s) {c : Shared T X} (hc : S.get s = some c)
    (hcont : c.mem.st.continuation = none) :
    Waits O (F.modify a (.goto (.suspended own)))
      (S.modify s (.onMem (·.access ({ · with continuation := some a })))) K where
  owned {b fr' g'} hf' hs := by
    obtain ⟨fr₁, hf₁, -, -, hph⟩ := goto_modify hf'
    rw [hph] at hs
    split at hs
    · rename_i hb
      obtain rfl := Phase.suspended.inj hs
      exact ⟨o, ho, hb ▸ hh⟩
    · exact h.owned hf₁ hs
  quiet {b fr' g'} hf' hs := by
    obtain ⟨fr₁, hf₁, -, -, hph⟩ := goto_modify hf'
    rw [hph] at hs
    split at hs
    · obtain rfl := Phase.suspended.inj hs
      exact hq
    · exact h.quiet hf₁ hs
  continuation {s' c' b} hc' hca := by
    obtain ⟨c₁, hc₁, rfl⟩ := states_modify hc'
    split at hca
    · rename_i he
      obtain rfl : a = b := Option.some.inj hca
      exact ⟨_, own, Heap.get_modify_self hf, rfl, he ▸ hheld⟩
    · obtain ⟨fr₁, g', hf₁, hs, hh'⟩ := h.continuation hc₁ hca
      refine ⟨fr₁, g', goto_other hf₁ ?_, hs, hh'⟩
      rintro rfl
      rw [Option.some.inj (hf₁.symm.trans hf), hp] at hs
      cases hs
  outer {i b fr'} hi hact hout := by
    obtain ⟨fr₁, hf₁, hst, hou, hph⟩ := goto_modify hi
    have hact₁ : fr₁.Active := by
      by_cases hb : i = a
      · rw [hb] at hf₁
        rw [Option.some.inj (hf₁.symm.trans hf)]
        exact Or.inl hp
      · rw [if_neg hb] at hph
        unfold MethodFrame.Active at hact ⊢
        rwa [hph] at hact
    obtain ⟨c₁, hc₁, hca⟩ := h.outer hf₁ hact₁ (hou ▸ hout)
    refine ⟨c₁, (Heap.get_modify_ne ?_).trans (hst ▸ hc₁), hca⟩
    rintro he
    rw [← hst, he] at hc₁
    rw [Option.some.inj (hc₁.symm.trans hc), hcont] at hca
    cases hca

theorem Inv.suspend (h : Inv none m) {fr : MethodFrame} {ca : Shared T X}
    (hin : InControl m a fr K ca) (hp : fr.phase = .running) {own : Nat} {o : Object}
    (ho : m.objects.get own = some o) (hh : o.home = .awaiter a)
    (hq : ∀ t ∈ m.control, t.touches own = false ∧ t.takesFrom own = false)
    (hheld : heldIn m.objects m.control own = some s) {c : Shared T X}
    (hc : m.states.get s = some c) (hcont : c.mem.st.continuation = none) :
    Inv none (((m.onState s (·.access ({ · with continuation := some a }))).onFrame a
      (.goto (.suspended own))).pop) := by
  have hplain : (Task.body a).Plain := ⟨fun _ => rfl, fun _ => rfl⟩
  have hK := hin.control
  have hpop : m.control.tail = K := by rw [hK]; rfl
  have hset : (c.onMem (·.access ({ · with continuation := some a }))).Settled :=
    (h.settled hc).access rfl rfl rfl
  have hresult : ca.mem.st.hasResult = false :=
    h.ledger.noResult hin.frame (Or.inl hp) hin.state
  refine ⟨h.clean, settled_modify h.settled hc hset, h.made.states.goto _, ?_, ?_, ?_, ?_⟩
  · have hcust := h.custody
    rw [hK] at hcust
    show Custody _ _ m.control.tail
    rw [hpop]
    exact (hcust.tail_plain hplain).onState hc rfl
  · show Ledger _ _ _ m.control.tail _
    rw [hpop]
    have halike : ∀ {s' c'}, (m.states.modify s
        (.onMem (·.access ({ · with continuation := some a })))).get s' = some c' →
        ∃ c, m.states.get s' = some c ∧ c.Alike c' := by
      intro s' c' hc'
      obtain ⟨c₁, hc₁, rfl⟩ := states_modify hc'
      refine ⟨c₁, hc₁, ?_⟩
      split
      · exact ⟨rfl, rfl, rfl⟩
      · exact .refl _
    refine h.ledger.goto hin.frame (fun _ _ hc' => halike hc') (fun b hb => ?_)
      (fun _ _ hx => hx) fun c' hc' => ?_
    · rw [hK, tally_cons (t:=.body a) ⟨decide_eq_false hb.symm, rfl, rfl⟩, List.mem_cons]
      exact ⟨rfl, (or_iff_right nofun).symm⟩
    · obtain ⟨c₁, hc₁, hal⟩ := halike hc'
      obtain rfl := Option.some.inj (hc₁.symm.trans hin.state)
      exact ⟨hal.ready.trans hin.ready, hal.hasResult.trans hresult,
        tally_tail_body (hK ▸ hin.tally)⟩
  · have hd := h.deaths
    rw [hK] at hd
    show Deaths _ _ _ m.control.tail
    rw [hpop]
    exact (hd.tail.onState hc id).congr (fun ho => ⟨_, ho⟩)
      (fun ho' _ ho => by rw [Option.some.inj (ho'.symm.trans ho)])
      fun hg => hg.goto_alive hin.frame hin.not_gone
  · show Waits _ _ _ m.control.tail
    rw [hpop]
    have hsub : ∀ t ∈ K, t ∈ m.control := fun t ht => hK ▸ List.mem_cons_of_mem _ ht
    have hheldK : ∀ g, heldIn m.objects K g = heldIn m.objects m.control g := fun g => by
      rw [hK, heldIn_cons rfl]
    have hw : Waits m.objects m.frames m.states K :=
      h.waits.objects hsub (fun _ _ ho => ho) fun _ _ => hheldK _
    exact hw.suspend hin.frame hp ho hh (fun t ht => hq t (hsub t ht)) ((hheldK own).trans hheld)
      hc hcont

/-- the promise that makes a result learns who awaits it -/
theorem Inv.wire (h : Inv x m) {i : Handle} {fr : MethodFrame} (hf : m.frames.get i = some fr)
    {c : Shared T X} (hc : m.states.get fr.state = some c)
    (ha : c.mem.st.continuation = some a) : Inv x (m.onFrame i ({ · with outer := some a })) := by
  have hget : ∀ {b fr'}, (m.frames.modify i ({ · with outer := some a })).get b = some fr' →
      ∃ fr₁, m.frames.get b = some fr₁ ∧ fr'.phase = fr₁.phase ∧ fr'.state = fr₁.state ∧
        (fr'.outer = fr₁.outer ∨ (b = i ∧ fr'.outer = some a)) := by
    intro b fr' hf'
    obtain ⟨fr₁, hf₁, rfl⟩ := Heap.get_modify_some hf'
    refine ⟨fr₁, hf₁, ?_⟩
    split
    · rename_i hb
      exact ⟨rfl, rfl, Or.inr ⟨hb, rfl⟩⟩
    · exact ⟨rfl, rfl, Or.inl rfl⟩
  have hset : ∀ {b fr₁}, m.frames.get b = some fr₁ → ∃ fr',
      (m.frames.modify i ({ · with outer := some a })).get b = some fr' ∧
        fr'.phase = fr₁.phase ∧ fr'.state = fr₁.state := by
    intro b fr₁ hf₁
    refine ⟨_, Heap.get_modify_of hf₁, ?_⟩
    split <;> exact ⟨rfl, rfl⟩
  refine ⟨h.clean, h.settled, ⟨fun hf' => ?_, fun hc hm => ?_⟩, h.custody, ?_, ?_, ?_⟩
  · obtain ⟨fr₁, hf₁, -, hst, -⟩ := hget hf'
    rw [hst]
    exact h.made.state hf₁
  · obtain ⟨fr₁, hf₁, hst⟩ := h.made.frame hc hm
    obtain ⟨fr', hf', -, hst'⟩ := hset hf₁
    exact ⟨fr', hf', hst'.trans hst⟩
  · refine h.ledger.at none (fun b _ fr' hf' => ?_) (fun b _ hn => ?_)
      (fun _ _ _ _ c hc => ⟨c, hc, .refl c⟩) (fun _ _ => ⟨rfl, Iff.rfl⟩) (fun _ _ hx => hx) nofun
    · obtain ⟨fr₁, hf₁, hp, hst, -⟩ := hget hf'
      exact ⟨fr₁, hf₁, hp, hst⟩
    · cases hb : m.frames.get b with
      | none => rfl
      | some fr₁ =>
        obtain ⟨fr', hf', -⟩ := hset hb
        rw [show (m.onFrame i _).frames.get b = some fr' from hf'] at hn
        cases hn
  · refine h.deaths.congr (fun ho => ⟨_, ho⟩)
      (fun ho' _ ho => by rw [Option.some.inj (ho'.symm.trans ho)]) fun hg => hg.mono
        (fun hf hd => ?_) fun hc hd => ⟨_, hc, hd⟩
    obtain ⟨fr', hf', hp, -⟩ := hset hf
    exact ⟨fr', hf', hp ▸ hd⟩
  · refine ⟨fun hf' hs => ?_, fun hf' hs => ?_, fun hc hca => ?_, fun hf' hact hout => ?_⟩
    · obtain ⟨fr₁, hf₁, hp, -⟩ := hget hf'
      exact h.waits.owned hf₁ (hp ▸ hs)
    · obtain ⟨fr₁, hf₁, hp, -⟩ := hget hf'
      exact h.waits.quiet hf₁ (hp ▸ hs)
    · obtain ⟨fr₁, g, hf₁, hs, hh⟩ := h.waits.continuation hc hca
      obtain ⟨fr', hf', hp, -⟩ := hset hf₁
      exact ⟨fr', g, hf', hp.trans hs, hh⟩
    · obtain ⟨fr₁, hf₁, hp, hst, hou⟩ := hget hf'
      rw [hst]
      rcases hou with hou | ⟨rfl, hou⟩
      · refine h.waits.outer hf₁ ?_ (hou ▸ hout)
        unfold MethodFrame.Active at hact ⊢
        rwa [hp] at hact
      · rw [Option.some.inj (hf₁.symm.trans hf)]
        obtain rfl := Option.some.inj (hou.symm.trans hout)
        exact ⟨c, hc, ha⟩

/-- `propagate_awaited_state()` in a coroutine that runs: at most the promise that makes the result
changes -/
theorem Inv.link (h : Inv none m) (ha : ActiveIn m.frames a) {o : Object} (hr : m.reach g = some o)
    (hb : m.busy g = false) (c : Shared T X) :
    m.link a o c = m ∨ ∃ i, o.handle = some i ∧ (c.mem.st.hasResult || c.mem.st.isReady) = false ∧
      m.link a o c = m.onFrame i ({ · with outer := some a }) := by
  unfold Futures.link
  cases hres : c.mem.st.hasResult || c.mem.st.isReady with
  | true => exact Or.inl (h.updateOuters ha)
  | false =>
    rw [if_neg Bool.false_ne_true]
    cases hi : o.handle with
    | none => exact Or.inl (h.updateOuters ha)
    | some i =>
      refine Or.inr ⟨i, rfl, rfl, ?_⟩
      dsimp only
      rw [if_pos (h.live hr hb hi)]
      -- the frames are those that were there, and the new link leads to the coroutine itself
      refine updateOuters_of (P := ActiveIn m.frames) (fun {b} hact => ?_)
        (fun {b fr' p} hact hf' hout => ?_) ha
      · obtain ⟨fr, hf, hact⟩ := hact
        refine ⟨_, Heap.get_modify_of hf, ?_⟩
        split <;> exact hact
      · obtain ⟨fr, hf, rfl⟩ := Heap.get_modify_some hf'
        split at hout
        · obtain rfl := Option.some.inj hout
          exact ha
        · exact h.waits.outer_active hact hf hout

/-- **`co_await`.** -/
theorem Inv.await (h : Inv none m) {fr : MethodFrame} (hc : m.current = some (a, fr))
    (hp : fr.phase = .running) {o : Object} (hr : m.reach g = some o) (hb : m.busy g = false)
    (hs : o.state = some s) {c : Shared T X} (hl : m.look s = some c) :
    Inv none (m.await a g o s c) := by
  obtain ⟨K, ca, hin⟩ := h.current hc
  obtain ⟨ho, hhome⟩ := reach_some hr
  obtain ⟨hget, -⟩ := look_get hl
  have hact : ActiveIn m.frames a := ⟨fr, hin.frame, Or.inl hp⟩
  obtain ⟨hmove, hheld⟩ := h.moveInto ho (busy_eq_false.mp hb) (h.waited hr) (.awaiter a)
  obtain ⟨hMK, hMF, -⟩ := moveInto_keeps ho (.awaiter a)
  have hMS : (Futures.moveInto (.awaiter a) m g).states = m.states := by
    unfold Futures.moveInto
    rw [ho]
  unfold Futures.await
  dsimp only
  cases hres : c.mem.st.hasResult with
  | true =>
    rw [if_pos rfl]
    have hlink : m.link a o c = m := by
      rcases h.link hact hr hb c with he | ⟨-, -, hno, -⟩
      · exact he
      · rw [hres] at hno
        cases hno
    rw [hlink, hmove.updateOuters (hMF ▸ hact)]
    exact hmove
  | false =>
    rw [if_neg Bool.false_ne_true]
    cases hcont : c.mem.st.continuation with
    | some b =>
      -- nobody else awaits this state, for its future is here
      obtain ⟨frb, g', hfb, hsb, hh⟩ := h.waits.continuation hget hcont
      have hheld' : heldIn m.objects m.control g = some s :=
        (heldIn_idle (busy_eq_false.mp hb) ho).trans hs
      rw [h.custody.holding.one hh hheld'] at hsb
      exact absurd hsb (h.waited hr hfb)
    | none =>
      have hown : (Futures.moveInto (.awaiter a) m g).objects.get m.objects.next
          = some ⟨o.state, o.handle, .awaiter a⟩ := by
        unfold Futures.moveInto
        rw [ho]
        exact Heap.get_alloc_self
      have hquiet : ∀ t ∈ (Futures.moveInto (.awaiter a) m g).control,
          t.touches m.objects.next = false ∧ t.takesFrom m.objects.next = false := by
        intro t ht
        rw [hMK] at ht
        refine ⟨h.deaths.next t ht, ?_⟩
        cases htk : t.takesFrom m.objects.next with
        | false => rfl
        | true =>
          obtain ⟨⟨o', ho'⟩, -⟩ := h.deaths.source ht htk
          rw [Heap.get_next] at ho'
          cases ho'
      have hinM : InControl (Futures.moveInto (.awaiter a) m g) a fr K ca := by
        have htally := hin.tally
        refine ⟨hMK.trans hin.control, hMF ▸ hin.frame, hMS ▸ hin.state, hin.maker, hin.ready,
          hin.phase, ?_⟩
        rw [hMK]
        unfold Futures.moveInto
        rw [ho]
        exact htally
      have hsus := hmove.suspend hinM hp hown rfl hquiet (hMK.symm ▸ hheld.trans hs)
        (hMS ▸ hget) hcont
      rcases h.link hact hr hb c with he | ⟨i, hi, hno, he⟩
      · rw [he]
        exact hsus
      · obtain ⟨fri, ci, hfi, hhi, hci, hmi, -⟩ := h.owner ho hi
        have hsi : fri.state = s :=
          Option.some.inj (hhi.symm.trans ((heldIn_idle (busy_eq_false.mp hb) ho).trans hs))
        have hmoved : (Futures.moveInto (.awaiter a) (m.link a o c) g)
            = (Futures.moveInto (.awaiter a) m g).onFrame i ({ · with outer := some a }) := by
          rw [he]
          unfold Futures.moveInto
          rw [show (m.onFrame i ({ · with outer := some a })).objects.get g = some o from ho, ho]
          rfl
        rw [hmoved]
        obtain ⟨fr', hf', hst'⟩ : ∃ fr', ((Futures.moveInto (.awaiter a) m g).frames.modify a
            (.goto (.suspended m.objects.next))).get i = some fr' ∧ fr'.state = s := by
          rw [hMF]
          refine ⟨_, Heap.get_modify_of hfi, ?_⟩
          split <;> exact hsi
        have hst : ((Futures.moveInto (.awaiter a) m g).states.modify s
            (.onMem (·.access ({ · with continuation := some a })))).get fr'.state
              = some (c.onMem (·.access ({ · with continuation := some a }))) := by
          rw [hst', hMS]
          exact Heap.get_modify_self hget
        have hwire := hsus.wire (c:=c.onMem (·.access ({ · with continuation := some a }))) hf' hst rfl
        have hcomm := Heap.modify_comm (h:=(Futures.moveInto (.awaiter a) m g).frames) (i:=i) (j:=a)
          (f:=({ · with outer := some a })) (g:=.goto (.suspended m.objects.next)) fun _ => rfl
        unfold Futures.onFrame Futures.onState Futures.pop at hwire ⊢
        rwa [← hcomm] at hwire

/-! ## every step -/

theorem Inv.exec (h : Inv none m) {act : Act T X} (ha : m.Apart act) (hs : m.exec act = some m') :
    Inv none m' := by
  unfold Futures.exec at hs
  cases act with
  | new => cases hs; exact h.new
  | promise => cases hs; exact h.promise
  | settle s o =>
    obtain ⟨c, hl, hs⟩ := Option.bind_eq_some_iff.mp hs
    split at hs
    · rename_i hif
      cases hs
      obtain ⟨hm, hr⟩ := Bool.and_eq_true_iff.mp hif
      exact h.settle hl (Option.isNone_iff_eq_none.mp hm) (Bool.not_eq_true' _ ▸ hr) o
    · cases hs
  | start gs =>
    dsimp only at hs
    split at hs
    · rename_i hall
      cases hs
      exact h.start (List.all_eq_true.mp hall) ha
    · cases hs
  | move g p =>
    dsimp only at hs
    split at hs
    · rename_i hif
      cases hs
      obtain ⟨o, hr⟩ := Option.isSome_iff_exists.mp (Bool.and_eq_true_iff.mp hif).1
      exact (h.moveInto (reach_some hr).1 (busy_eq_false.mp ha) (h.waited hr) p).1
    · cases hs
  | assign g h' =>
    dsimp only at hs
    split at hs
    · rename_i hif
      obtain ⟨hg, hh⟩ := Bool.and_eq_true_iff.mp hif
      obtain ⟨o, hr⟩ := Option.isSome_iff_exists.mp hg
      obtain ⟨o', hr'⟩ := Option.isSome_iff_exists.mp hh
      cases hs
      split
      · exact h
      · rename_i hne
        exact h.assign hr hr' hne ha.1 ha.2
    · cases hs
  | takeReady g =>
    obtain ⟨o, hr, hs⟩ := Option.bind_eq_some_iff.mp hs
    obtain ⟨s, hst, hs⟩ := Option.bind_eq_some_iff.mp hs
    obtain ⟨c, hl, -⟩ := h.look hr ha hst
    rw [hl] at hs
    dsimp only at hs
    split at hs
    · obtain ⟨v, hv, rfl⟩ := Option.map_eq_some_iff.mp hs
      exact h.takeReady hr ha hl hv
    · cases hs
  | detach g =>
    obtain ⟨o, hr, rfl⟩ := Option.map_eq_some_iff.mp hs
    exact h.detach hr ha
  | destroy g =>
    obtain ⟨o, hr, hs⟩ := Option.bind_eq_some_iff.mp hs
    split at hs
    · rename_i hp
      cases hs
      exact h.destroy (reach_some hr).1 (by rw [hp]; rfl) (h.waited hr) ha.1 ha.2
    · cases hs
  | inspect g =>
    obtain ⟨o, hr, rfl⟩ := Option.map_eq_some_iff.mp hs
    rw [h.inspect hr ha]
    exact h
  | await g =>
    obtain ⟨⟨a, fr⟩, hc, hs⟩ := Option.bind_eq_some_iff.mp hs
    obtain ⟨o, hr, hs⟩ := Option.bind_eq_some_iff.mp hs
    obtain ⟨s, hst, hs⟩ := Option.bind_eq_some_iff.mp hs
    split at hs
    · rename_i hp
      obtain ⟨c, hl, -⟩ := h.look hr ha hst
      rw [hl] at hs
      cases hs
      exact h.await hc hp hr ha hst hl
    · cases hs
  | endAwait g =>
    obtain ⟨⟨a, fr⟩, hc, hs⟩ := Option.bind_eq_some_iff.mp hs
    obtain ⟨o, ho, hs⟩ := Option.bind_eq_some_iff.mp hs
    split at hs
    · rename_i hp
      cases hs
      exact h.endAwait hc ho hp ha.1 ha.2
    · cases hs
  | coReturn o =>
    obtain ⟨⟨a, fr⟩, hc, hs⟩ := Option.bind_eq_some_iff.mp hs
    dsimp only at hs
    split at hs
    · cases hs
      exact h.coReturn hc o
    · cases hs
  | finalSuspend =>
    obtain ⟨⟨a, fr⟩, hc, hs⟩ := Option.bind_eq_some_iff.mp hs
    dsimp only at hs
    split at hs
    · cases hs
      exact h.finalSuspend hc
    · cases hs
  | drain s =>
    obtain ⟨c, hl, hs⟩ := Option.bind_eq_some_iff.mp hs
    split at hs
    · rename_i hr
      obtain ⟨a, hca, rfl⟩ := Option.map_eq_some_iff.mp hs
      exact h.drain hl hr hca
    · cases hs
  | leave =>
    dsimp only at hs
    split at hs
    · rename_i K hK
      cases hs
      exact h.pop hK (Or.inl rfl)
    · cases hs
  | library => cases hs

/-- **A step** whose operation does not meet another one keeps the invariant. -/
theorem Inv.step (h : Inv none m) {act : Act T X} (ha : m.Apart act)
    (hs : Futures.step m act = some m') : Inv none m' := by
  by_cases hact : act = .library
  · subst hact
    exact h.library ha hs
  · have hs' : (if m.hasControl then m.exec act else none) = some m' := by
      unfold Futures.step at hs
      split at hs
      · exact absurd rfl hact
      · exact hs
    split at hs'
    · exact h.exec ha hs'
    · cases hs'

end Futures
end ActorZeta
