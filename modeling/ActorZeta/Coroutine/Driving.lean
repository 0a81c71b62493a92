import ActorZeta.Coroutine.Drain
import ActorZeta.Coroutine.Exceptions
import ActorZeta.Coroutine.Settlement

/-!
# A message on the machine

`resume_impl` pops a message, and the actor is driven again each time that the state has been
settled which its suspended behavior awaits.  What the machine reaches so is what `handle` and
`drains` say.

* `Resting`, `Shows`     what `resume_impl` finds when control has come back to it;
* `Shows.drained`        the state is settled, and the actor is driven;
* `message_simulated`    a message, whatever the states are settled with;
* `exception_unwinds`    a chain of nested methods whose innermost throws.
-/

namespace ActorZeta
open StateFlags

namespace Coros
variable {T X : Type} {slot : Address} {out : Address → Outcome T X} {m m' : Coros T X}
  {δ ε : Driver} {r : Handle} {R : Result T X × World T X} {w : World T X}

section
variable (slot : Address) (out : Address → Outcome T X)

/-- no coroutine runs, and `resume_impl` is at `δ` -/
structure Resting (m : Coros T X) (δ : Driver) (r : Handle) (w : World T X) : Prop where
  live : m.Live
  stack : m.stack = []
  driver : m.driver = δ
  behavior : m.currentBehavior = some r
  world : Rep slot m w

/-- what has become of the behavior `r`; nothing is said where the big steps are undefined -/
inductive Shows (m : Coros T X) (δ : Driver) (r : Handle) : Result T X × World T X → Prop
  | suspended {os : List (Level (Fut T X) T X)} {l : Level (Fut T X) T X} {p : State T X}
      {w : World T X} : Resting slot m δ r w →
      Reads slot out m.frames m.cells (some r) none (.waiting os l p) →
      Shows m δ r (.suspended os l p, w)
  | finished {w : World T X} : Resting slot m δ r w →
      (∃ fr, m.frames.get r = some fr ∧ fr.pc = .finished) → Shows m δ r (.finished r none none, w)
  | aborted {w : World T X} : m.aborted = true → Shows m δ r (.aborted, w)
  | undefined {w : World T X} : Shows m δ r (.undefined, w)

end

/-! ## steps of `resume_impl` -/

theorem Inner.reach (h : Inner m m') : TS.Reach step m m' := by
  obtain ⟨as, has⟩ := h
  exact ⟨as, TS.run_of_restrict has⟩

theorem Live.goto (h : m.Live) (δ : Driver) : ({ m with driver := δ } : Coros T X).Live :=
  ⟨h.ok, h.aborted, h.undefined⟩

theorem Live.step_drive {mail : Mail} (h : m.Live) (hS : m.stack = [])
    (hs : m.drive mail = some m') : TS.Reach step m m' := by
  refine TS.Reach.single (a:=.drive mail) ?_
  show (if m.aborted || m.undefined then none else
    if m.stack.isEmpty then m.drive mail else none) = _
  rw [if_neg (by rw [h.aborted, h.undefined]; decide), hS]
  exact hs

theorem Live.step_resume {max : Nat} (h : m.Live) (hd : m.driver = .outside) (hmax : 0 < max) :
    TS.Reach step m { m with driver := .entry max } := by
  refine TS.Reach.single (a:=.resume max) ?_
  show (if m.aborted || m.undefined then none else if m.driver = .outside ∧ 0 < max then
    some { m with driver := .entry max } else none) = _
  rw [if_neg (by rw [h.aborted, h.undefined]; decide), if_pos ⟨hd, hmax⟩]

theorem Resting.goto (h : Resting slot m δ r w) (ε : Driver) :
    Resting slot { m with driver := ε } ε r w :=
  ⟨h.live.goto ε, h.stack, rfl, h.behavior, h.world.next, h.world.message, h.world.caller,
    h.world.gone, h.world.untaken⟩

/-- `resume_impl` goes on -/
theorem Shows.goto (h : Shows slot out m δ r R) (ε : Driver)
    (hs : m.driver = δ → m.drive .stop = some { m with driver := ε }) :
    ∃ m', TS.Reach step m m' ∧ Shows slot out m' ε r R := by
  cases h with
  | suspended hrest hreads =>
    exact ⟨_, hrest.live.step_drive hrest.stack (hs hrest.driver), .suspended (hrest.goto ε) hreads⟩
  | finished hrest hfin =>
    exact ⟨_, hrest.live.step_drive hrest.stack (hs hrest.driver), .finished (hrest.goto ε) hfin⟩
  | aborted hab => exact ⟨m, .refl m, .aborted hab⟩
  | undefined => exact ⟨m, .refl m, .undefined⟩

/-- a behavior has no state of its own -/
theorem behavior_stateless {S : List Handle} {fr : Frame}
    (hI : Inv m.frames m.cells S m.currentBehavior none) (hr : m.currentBehavior = some r)
    (hfr : m.frames.get r = some fr) : fr.state = none := by
  obtain ⟨fr', hfr', hno, -⟩ := hI.stacked.behavior r hr
  rw [hfr] at hfr'
  cases hfr'
  exact hno

/-- control comes back to `resume_impl` -/
theorem Ends.shows (h : Ends slot out m r [] R) (hr : m.currentBehavior = some r) :
    ∃ m', TS.Reach step m m' ∧ Shows slot out m' m.driver r R := by
  cases h with
  | suspended hlive hS hreads hw =>
    obtain ⟨fr, hfr, -, hown⟩ := hreads.idle
    have hI := hlive.ok.inv hlive.aborted
    rw [← hown, behavior_stateless hI hr hfr] at hreads
    exact ⟨m, .refl m, .suspended ⟨hlive, hS, rfl, hr, hw⟩ hreads⟩
  | @leaving fr st w hon hpc =>
    have hno := behavior_stateless hon.inv hr hon.frame
    have hst : st = none := hon.locals.state.trans (by rw [hno]; rfl)
    subst hst
    have hprom : fr.promises = [] := hon.locals.promises
    have hheld : fr.held = [] := List.eq_nil_of_length_eq_zero hon.locals.length
    have hs : m.exec r fr none = some (m.onFrame r (.goto .finished)).pop := by
      unfold exec
      rw [hpc]
      dsimp only
      unfold leave
      rw [hprom, hheld]
      dsimp only
      unfold final
      rw [hno]
    obtain ⟨hin, hfine⟩ := hon.live.step_op hon.stack hon.frame hs
    refine ⟨_, hin.reach, .finished ⟨hon.live.of_fine hfine hon.live.aborted, ?_, rfl, hr, ?_⟩
      ⟨_, Heap.get_modify_self hon.frame, rfl⟩⟩
    · show m.stack.tail = []
      rw [hon.stack]
      rfl
    · exact hon.world.kept rfl (.modify hon.frame rfl) rfl rfl
  | aborted hab => exact ⟨m, .refl m, .aborted hab⟩
  | undefined => exact ⟨m, .refl m, .undefined⟩

theorem Runs.shows (h : Runs slot out m r [] R) (hr : m.currentBehavior = some r) :
    ∃ m', TS.Reach step m m' ∧ Shows slot out m' m.driver r R := by
  obtain ⟨m₁, hran, hends⟩ := h
  obtain ⟨m₂, hreach, hshows⟩ := hends.shows (hran.behavior.trans hr)
  rw [hran.driver] at hshows
  exact ⟨m₂, hran.inner.reach.trans hreach, hshows⟩

/-! ## the actor is driven -/

theorem settle_hasResult {st : State T X} (hb : st.Blank) (o : Outcome T X) :
    (st.setOutcome o).settle.2.hasResult = true := by
  rw [settle_blank hb]
  cases o <;> simp [State.hasResult, Outcome.flag]

/-- a behavior that is suspended is live -/
theorem live_of_reads {o : Option Address} {os : List (Level (Fut T X) T X)}
    {l : Level (Fut T X) T X} {p : State T X} (hr : m.currentBehavior = some r)
    (h : Reads slot out m.frames m.cells (some r) o (.waiting os l p)) :
    ∃ fr, m.live = some fr ∧ m.frames.get r = some fr ∧ fr.pc ≠ .finished := by
  obtain ⟨fr, hfr, hn⟩ : ∃ fr, m.frames.get r = some fr ∧ fr.pc ≠ .finished := by
    cases h with
    | last hb hpc => exact ⟨_, hb, by rw [hpc]; exact nofun⟩
    | outer hb hpc => exact ⟨_, hb, by rw [hpc]; exact nofun⟩
  refine ⟨fr, ?_, hfr, hn⟩
  unfold live
  rw [hr, Option.bind_some, hfr]
  refine Option.filter_some_pos ?_
  unfold Frame.done
  simpa using hn

/-- `resume_impl` is entered, and the drain resumes the innermost coroutine -/
theorem drive_wakes {max : Nat} {d : Handle} {fr fd : Frame} {s : Address} {c : Cell T X}
    (h : m.Live) (hS : m.stack = []) (hδ : m.driver = .entry max) (hl : m.live = some fr)
    (hfr : m.frames.get r = some fr) (hn : fr.pc ≠ .finished) (hw : Awaits m.frames r d)
    (hd : m.frames.get d = some fd) (hpd : fd.pc = .suspended ⟨s, none⟩)
    (hc : m.cells.get s = some c) (hready : c.mem.st.isReady = true) : ∃ m',
      TS.Reach step m m' ∧ m'.Live ∧ m' = { m with
        frames := m.frames.modify d (.goto (.resuming ⟨s, none⟩))
        cells := m.cells.modify s (.onMem fun mem => mem.takeContinuation.2)
        stack := [d]
        driver := .entryDrained max } := by
  have hI := h.ok.inv h.aborted
  rw [hS] at hI
  obtain ⟨b, u, hb⟩ := innermost hI hfr hn
  obtain ⟨fb, hfb, hpb⟩ := hb.suspended
  obtain rfl : d = b := awaits_end hw hb.chain hd hfb hpd hpb
  rw [hd] at hfb
  cases hfb
  rw [hpd] at hpb
  cases hpb
  obtain ⟨c', -, hl', -⟩ := hb.registered
  have hc' := look_some (f:=⟨s, none⟩) hl'
  rw [hc] at hc'
  cases hc'
  have hdrain := drain_eq hl hfr hb hl'
  rw [if_pos hready, hS] at hdrain
  have hs : m.drive (.next 0) = some { m.drain with driver := .entryDrained max } := by
    unfold drive
    rw [hδ]
    dsimp only
    rw [if_neg (by decide), if_pos (busy_of_live hI hl)]
  have hfine := drain_ok h.ok h.aborted hS
  refine ⟨_, h.step_drive hS hs, (h.of_fine hfine ?_).goto _, ?_⟩
  · rw [hdrain]
    exact h.aborted
  · rw [hdrain]

theorem Shows.resting {os : List (Level (Fut T X) T X)} {l : Level (Fut T X) T X} {p : State T X}
    (h : Shows slot out m δ r (.suspended os l p, w)) : Resting slot m δ r w ∧
      Reads slot out m.frames m.cells (some r) none (.waiting os l p) := by
  cases h with
  | suspended hrest hreads => exact ⟨hrest, hreads⟩

/-- **The state that a suspended behavior awaits is settled, and the actor is driven.** -/
theorem Shows.drained {os : List (Level (Fut T X) T X)} {l : Level (Fut T X) T X} {p : State T X}
    (h : Shows slot out m .outside r (.suspended os l p, w)) : ∃ s m', TS.Reach step m m' ∧
      Shows slot out m' .outside r (ActorZeta.resume l (p.setOutcome (out s)).settle.2 w os) := by
  obtain ⟨hrest, hreads⟩ := h.resting
  obtain ⟨d, fd, s, ⟨mem, mk⟩, hw, hd, hpd, hc, rfl, hblank, hmk⟩ := hreads.bottom r os l p rfl rfl
  obtain rfl : mk = .thread (.start .settle [out s]) := hmk
  -- a thread settles the state, and the actor is driven
  obtain ⟨C, c, q, hC, -, hst, hne, hin, hlive⟩ := hrest.live.settles hc hblank
  have henter := hlive.step_resume hrest.driver Nat.one_pos
  obtain ⟨fr, hl, hfr, hn⟩ := live_of_reads hrest.behavior hreads
  obtain ⟨m₁, hreach₁, hlive₁, rfl⟩ := drive_wakes (hlive.goto (.entry 1)) hrest.stack rfl hl hfr
    hn hw hd hpd hC (by rw [hst]; exact State.settle_ready _)
  have hI := hrest.live.ok.inv hrest.live.aborted
  rw [hrest.stack] at hI
  -- the chain goes on
  have hwoken : Woken m { m with
      frames := m.frames.modify d (.goto (.resuming ⟨s, none⟩))
      cells := C.modify s (.onMem fun mem => mem.takeContinuation.2)
      stack := [d]
      driver := .entryDrained 1 } d s :=
    ⟨hI, ⟨fd, hd, hpd⟩, hI.rooted_of_chain hw (.behavior hrest.behavior), rfl,
      fun t ht => (Heap.get_modify_ne ht).trans (hne t ht)⟩
  have hres := settle_hasResult hblank (out s)
  have hresumed := hwoken.resumed hlive₁ rfl
    (Heap.get_modify_self (f:=.onMem fun mem => mem.takeContinuation.2) hC)
    (by show c.mem.st.hasResult = true; rw [hst]; exact hres)
    (hrest.world.kept rfl (.modify hd rfl) rfl rfl) hreads r os l _ rfl rfl hw
  rw [show (c.onMem fun mem => mem.takeContinuation.2).mem.st =
    { (mem.st.setOutcome (out s)).settle.2 with continuation := none } by
      rw [← hst]; rfl] at hresumed
  obtain ⟨m₂, hreach₂, hshows₂⟩ := (resume_simulated hresumed hres).shows hrest.behavior
  obtain ⟨m₃, hreach₃, hshows₃⟩ := hshows₂.goto .outside fun hδ => by
    unfold drive
    rw [hδ]
    dsimp only
    rw [show (Mail.stop == Mail.stop) = true from rfl, Bool.or_true, if_pos rfl]
  exact ⟨s, m₃, hin.reach.trans (henter.trans (hreach₁.trans (hreach₂.trans hreach₃))), hshows₃⟩

/-- the same of any behavior: one that has ended stays as it is -/
theorem Shows.next (h : Shows slot out m .outside r R) : ∃ s m', TS.Reach step m m' ∧
    Shows slot out m' .outside r (drains R [out s]) := by
  obtain ⟨res, w⟩ := R
  cases res with
  | suspended os l p => exact h.drained
  | _ => exact ⟨0, m, .refl m, h⟩

/-- **A behavior is driven** as often as one likes; its states are settled in the order in which it
awaits them. -/
theorem Shows.driven (h : Shows slot out m .outside r R) : ∃ f : Nat → Outcome T X,
    (∀ i, ∃ s, f i = out s) ∧ ∀ k, ∃ m', TS.Reach step m m' ∧
      Shows slot out m' .outside r (drains R ((List.range k).map f)) := by
  have hstep : ∀ q : { q : Coros T X × (Result T X × World T X) //
      Shows slot out q.1 .outside r q.2 }, ∃ s, ∃ q' : { q : Coros T X × (Result T X × World T X) //
        Shows slot out q.1 .outside r q.2 }, TS.Reach step q.1.1 q'.1.1 ∧
          q'.1.2 = drains q.1.2 [out s] := by
    rintro ⟨⟨m, R⟩, h⟩
    obtain ⟨s, m', hreach, h'⟩ := h.next
    exact ⟨s, ⟨(m', drains R [out s]), h'⟩, hreach, rfl⟩
  choose addr after hreach hdrains using hstep
  refine ⟨fun i => out (addr (after^[i] ⟨(m, R), h⟩)), fun i => ⟨_, rfl⟩, fun k => ?_⟩
  suffices hk : TS.Reach step m (after^[k] ⟨(m, R), h⟩).1.1 ∧ (after^[k] ⟨(m, R), h⟩).1.2 =
      drains R ((List.range k).map fun i => out (addr (after^[i] ⟨(m, R), h⟩))) by
    refine ⟨_, hk.1, ?_⟩
    rw [← hk.2]
    exact (after^[k] ⟨(m, R), h⟩).2
  induction k with
  | zero => exact ⟨.refl m, rfl⟩
  | succ k ih =>
    rw [Function.iterate_succ_apply', List.range_succ, List.map_append, List.map_singleton,
      drains_append, ← ih.2]
    exact ⟨ih.1.trans (hreach _), hdrains _⟩

/-! ## a message -/

/-- `~message_guard` -/
theorem Rep.ended (h : Rep slot m w) : Rep slot m.endMessage w.endMessage := by
  unfold endMessage World.endMessage
  rcases h.message with hmsg | ⟨hmsg, hno⟩
  · rw [hmsg]
    dsimp only
    by_cases ho : w.owned = true
    · rw [if_pos ho, if_pos ho]
      exact ⟨h.next, Or.inr ⟨rfl, rfl⟩, Heap.get_modify_self h.caller, h.gone, nofun⟩
    · rw [if_neg ho, if_neg ho]
      exact ⟨h.next, Or.inr ⟨rfl, Bool.eq_false_iff.mpr ho⟩, h.caller, h.gone, h.untaken⟩
  · rw [hmsg, hno]
    exact h

theorem endMessage_only (m : Coros T X) : m.endMessage = { m with
    currentMessage := m.endMessage.currentMessage
    slots := m.endMessage.slots
    destroyed := m.endMessage.destroyed } := by
  unfold endMessage
  split
  · split <;> rfl
  · rfl

/-- the message ends when control comes back -/
theorem Shows.ended {n : Nat} (h : Shows slot out m (.started n) r R) : ∃ m', TS.Reach step m m' ∧
    Shows slot out m' (.loop n) r (R.1, R.2.endMessage) := by
  have hgo : ∀ {w : World T X}, Resting slot m (.started n) r w → TS.Reach step m
      { m.endMessage with driver := .loop n } ∧
      Resting slot { m.endMessage with driver := .loop n } (.loop n) r w.endMessage := by
    intro w hrest
    have hs : m.drive .stop = some { m.endMessage with driver := .loop n } := by
      unfold drive
      rw [hrest.driver]
    obtain ⟨hfine, hS⟩ := endMessage_fine hrest.live.ok hrest.live.aborted
    have hab : m.endMessage.aborted = false := by
      rw [endMessage_only]
      exact hrest.live.aborted
    have hb : m.endMessage.currentBehavior = some r := by
      rw [endMessage_only]
      exact hrest.behavior
    have hw := hrest.world.ended
    exact ⟨hrest.live.step_drive hrest.stack hs, (hrest.live.of_fine hfine hab).goto _,
      hS.trans hrest.stack, rfl, hb, hw.next, hw.message, hw.caller, hw.gone, hw.untaken⟩
  have hF : m.endMessage.frames = m.frames := by rw [endMessage_only]
  have hC : m.endMessage.cells = m.cells := by rw [endMessage_only]
  cases h with
  | suspended hrest hreads =>
    obtain ⟨hreach, hrest'⟩ := hgo hrest
    refine ⟨_, hreach, .suspended hrest' ?_⟩
    show Reads slot out m.endMessage.frames m.endMessage.cells _ _ _
    rw [hF, hC]
    exact hreads
  | finished hrest hfin =>
    obtain ⟨hreach, hrest'⟩ := hgo hrest
    refine ⟨_, hreach, .finished hrest' ?_⟩
    show ∃ fr, m.endMessage.frames.get r = some fr ∧ _
    rw [hF]
    exact hfin
  | aborted hab => exact ⟨m, .refl m, .aborted hab⟩
  | undefined => exact ⟨m, .refl m, .undefined⟩

/-- a message is popped, and its behavior begins -/
theorem popped {n i : Nat} (out : Address → Outcome T X) (h : m.Live)
    (hδ : m.driver = .loopDrained n) (hS : m.stack = []) (hbusy : m.isBusy = false)
    (hi : m.queue[i]? = some slot) (hslot : m.slots.get slot = some .fresh)
    (hheld : ∀ b fb, m.frames.get b = some fb → slot ∉ fb.promises) :
    ∃ m', TS.Reach step m m' ∧ m'.currentBehavior = some m.frames.next ∧ m'.driver = .started n ∧
      On slot out m' m.frames.next [] (.fresh none) ⟨m.frames.next, none, [], false⟩
        { World.fresh m.frames.next with next := m.frames.next + 1 } := by
  have hs : m.drive (.next i) = some { m.startBehavior i slot with driver := .started n } := by
    unfold drive
    rw [hδ]
    dsimp only
    rw [hbusy, if_neg Bool.false_ne_true, hi]
  have hfine := startBehavior_fine i slot h.ok h.aborted hS hbusy
  have hab : (m.startBehavior i slot).aborted = false := by
    unfold startBehavior
    dsimp only
    split <;> exact h.aborted
  obtain ⟨F, hnext, hF, hstart⟩ : ∃ F : Heap Frame, F.next = m.frames.next ∧
      (∀ b fb, F.get b = some fb → m.frames.get b = some fb) ∧ m.startBehavior i slot = { m with
        frames := F.alloc (.fresh none)
        currentBehavior := some F.next
        stack := [F.next]
        queue := m.queue.eraseIdx i
        currentMessage := some ⟨slot, true⟩ } := by
    unfold startBehavior
    cases hr : m.currentBehavior with
    | none => exact ⟨m.frames, rfl, fun _ _ hb => hb, rfl⟩
    | some r => exact ⟨m.frames.free r, rfl, fun _ _ hb => (Heap.get_free_some hb).2, rfl⟩
  have hlive := (h.of_fine hfine hab).goto (.started n)
  have hreach := h.step_drive hS hs
  rw [hstart] at hlive hreach
  rw [← hnext]
  refine ⟨_, hreach, rfl, rfl, hlive, rfl, Heap.get_alloc_self, ⟨rfl, rfl, rfl, rfl⟩,
    fun j f t hj _ => (by cases hj), rfl, Or.inl rfl, hslot, fun d hd => (by cases hd),
    fun _ b fb hb => ?_⟩
  rcases Heap.get_alloc_some hb with ⟨-, rfl⟩ | hb
  · exact List.not_mem_nil
  · exact hheld b fb (hF b fb hb)

/-- **A message on the machine**: from the state in which `resume_impl` pops it, whatever the other
threads settle their states with. -/
theorem message_simulated {acts : List (CoroAct T X)} {n i : Nat}
    (h : TS.run step init acts = some m) (hδ : m.driver = .loopDrained n) (hS : m.stack = [])
    (hbusy : m.isBusy = false) (hi : m.queue[i]? = some slot) (void : T) (method : Body T X)
    (out : Address → Outcome T X) : ∃ f : Nat → Outcome T X, (∀ i, ∃ s, f i = out s) ∧
      ∀ k, ∃ m', TS.Reach step m m' ∧ Shows slot out m' .outside m.frames.next
        (behaviorRun void m.frames.next method ((List.range k).map f)) := by
  have hacc := account_run h
  have hng : m.driver ≠ .gone := by
    rw [hδ]
    exact nofun
  obtain ⟨hok, hu⟩ := hacc.good.ok hng
  have hab : m.aborted = false := by
    cases hab : m.aborted with
    | false => rfl
    | true =>
      unfold Ok at hok
      rw [if_pos hab] at hok
      exact absurd hS hok
  obtain ⟨hfresh, -, -, hheld⟩ := (hacc.custody hng).waiting slot
    (Or.inl (List.mem_of_getElem? hi))
  have hfree : ∀ b fb, m.frames.get b = some fb → slot ∉ fb.promises :=
    fun b fb hb hmem => hheld ⟨b, by rw [promisesOf_some hb]; exact hmem⟩
  obtain ⟨m₁, hreach₁, hr, hδ₁, hon⟩ := popped out ⟨hok, hab, hu⟩ hδ hS hbusy hi hfresh hfree
  obtain ⟨m₂, hreach₂, hshows₂⟩ :=
    (exec_simulated (behavior void method) m₁ _ [] _ _ _ hon rfl).shows hr
  rw [hδ₁] at hshows₂
  obtain ⟨m₃, hreach₃, hshows₃⟩ := hshows₂.ended
  obtain ⟨m₄, hreach₄, hshows₄⟩ := hshows₃.goto .outside fun hδ => by
    unfold drive
    rw [hδ]
    cases n <;> rfl
  obtain ⟨f, hf, hdriven⟩ := hshows₄.driven
  refine ⟨f, hf, fun k => ?_⟩
  obtain ⟨m₅, hreach₅, hshows₅⟩ := hdriven k
  exact ⟨m₅, hreach₁.trans (hreach₂.trans (hreach₃.trans (hreach₄.trans hreach₅))), hshows₅⟩

/-- **An exception on the machine**: a chain of nested methods whose innermost throws is unwound,
frame by frame, and the caller's state says so. -/
theorem exception_unwinds {acts : List (CoroAct T X)} {n i d : Nat} {ep : X} {method : Body T X}
    (h : TS.run step init acts = some m) (hδ : m.driver = .loopDrained n) (hS : m.stack = [])
    (hbusy : m.isBusy = false) (hi : m.queue[i]? = some slot) (void : T)
    (hchain : Chain ep d method) (v : Address → T) : ∃ m' st, TS.Reach step m m' ∧
      m'.driver = .outside ∧ m'.isBusy = false ∧
      m'.slots.get slot = some st ∧ st.Says (.exception ep) ∧
      ∀ j, m.frames.next + 1 ≤ j → j ≤ m.frames.next + 2 + d → m'.frames.get j = none := by
  obtain ⟨f, hf, hsim⟩ := message_simulated h hδ hS hbusy hi void method fun s => .value (v s)
  choose addr haddr using hf
  obtain ⟨j, -, w, hend, hdel⟩ := hchain.delivered void m.frames.next fun i => v (addr i)
  obtain ⟨m', hreach, hshows⟩ := hsim j
  rw [show (List.range j).map f = firsts (fun i => v (addr i)) j from
    List.map_congr_left fun i _ => haddr i, hend] at hshows
  cases hshows with
  | finished hrest hfin =>
    refine ⟨m', w.slot, hreach, hrest.driver, ?_, hrest.world.caller, hdel.slot, fun i hi hi' => ?_⟩
    · obtain ⟨fr, hfr, hpc⟩ := hfin
      unfold isBusy live
      rw [hrest.behavior, Option.bind_some, hfr, Option.filter_some_neg]
      unfold Frame.done
      rw [hpc]
      decide
    · have hcount := hdel.destroyed i hi hi'
      exact (hrest.world.gone i (List.count_pos_iff.mp (by omega))).2

end Coros
end ActorZeta
