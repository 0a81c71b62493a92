import ActorZeta.Coroutine.Body
import ActorZeta.Coroutine.Calls
import ActorZeta.Coroutine.Control

/-!
# Every step keeps the invariant

* `Ok`                     the invariant of the machine, unless the process has been aborted;
* `body_ok`, `leave_ok`, `awaiting_ok`, `exec_ok`   a step of the running coroutine;
* `drain_ok`, `drive_ok`   a step of `resume_impl`;
* `produce_ok`             a step of a thread that settles a state;
* `Good`, `good_run`       what holds in every state reached.
-/

namespace ActorZeta
open StateFlags

namespace Coros
variable {T X : Type} {m m' : Coros T X} {S : List Handle} {a b : Handle} {fa fr : Frame}
  {f g : Future} {c : Cell T X}

/-- the process is aborted in the middle of a coroutine -/
def Ok (m : Coros T X) : Prop :=
  if m.aborted then m.stack ≠ [] else Inv m.frames m.cells m.stack m.currentBehavior none

theorem Ok.inv (h : m.Ok) (hab : m.aborted = false) :
    Inv m.frames m.cells m.stack m.currentBehavior none := by
  unfold Ok at h
  rwa [hab] at h

theorem Ok.of_inv (hab : m.aborted = false) (hS : m.stack = S)
    (h : Inv m.frames m.cells S m.currentBehavior none) : m.Ok := by
  unfold Ok
  rw [hab, hS]
  exact h

theorem Ok.of_aborted (hab : m.aborted = true) (hS : m.stack ≠ []) : m.Ok := by
  unfold Ok
  rwa [if_pos hab]

/-- a step that reads no freed memory, and leaves `resume_impl` where it is -/
structure Fine (m m' : Coros T X) : Prop where
  ok : m'.Ok
  undefined : m'.undefined = m.undefined
  driver : m'.driver = m.driver

/-! ## the body -/

theorem body_ok {op : Op T X} (h : m.Ok) (hab : m.aborted = false) (hS : m.stack = a :: S)
    (ha : m.frames.get a = some fa) (hpc : fa.pc = .running) (hs : m.body a fa op = some m') :
    Fine m m' := by
  have hI := h.inv hab
  rw [hS] at hI
  cases op with
  | start =>
    cases hs
    exact ⟨.of_inv hab (congrArg (m.frames.next :: ·) hS) (start_ok hI ha hpc), rfl, rfl⟩
  | adopt o =>
    cases hs
    exact ⟨.of_inv hab hS (adopt_ok o hI ha hpc), rfl, rfl⟩
  | await i =>
    obtain ⟨f, hi, hm⟩ := Option.map_eq_some_iff.mp hs
    obtain ⟨c, hl⟩ := look_of_valid (hI.tokens.valid a fa f ha
      (mem_futures_held (List.mem_of_getElem? hi)))
    rw [hl] at hm
    subst hm
    exact ⟨.of_inv hab hS (await_ok hI ha hpc hi hl), rfl, rfl⟩
  | drop i =>
    obtain ⟨f, hi, hm⟩ := Option.map_eq_some_iff.mp hs
    obtain ⟨hlt, hget⟩ := List.getElem?_eq_some_iff.mp hi
    rw [release_modify_eq hI ha (mem_futures_held (List.mem_of_getElem? hi))] at hm
    subst hm
    refine ⟨.of_inv hab hS ?_, rfl, rfl⟩
    refine drop_ok (k:=.unhold i) hI ha (Or.inl hpc) ?_ rfl ⟨rfl, rfl, rfl, rfl, rfl⟩ rfl
    rw [← hget]
    exact (List.getElem_cons_eraseIdx_perm hlt).symm
  | take =>
    simp only [body] at hs
    split at hs
    · cases hs
      exact ⟨.of_inv hab hS (promises_ok hI ha (Or.inl hpc) rfl rfl ⟨rfl, rfl, rfl, rfl, rfl⟩ rfl),
        rfl, rfl⟩
    · cases hs
  | settle i o =>
    obtain ⟨s, -, rfl⟩ := Option.map_eq_some_iff.mp hs
    exact ⟨.of_inv hab hS (promises_ok hI ha (Or.inl hpc) rfl rfl ⟨rfl, rfl, rfl, rfl, rfl⟩ rfl),
      rfl, rfl⟩
  | ret o =>
    have hret := ret_ok o hI ha hpc
    unfold returned at hret
    cases hst : fa.state <;> rw [hst] at hret <;> simp only [body, hst] at hs <;> cases hs <;>
      exact ⟨.of_inv hab hS hret, rfl, rfl⟩

/-! ## the end -/

/-- the final awaiter settles a state whose future is still there -/
theorem finalize_eq {mem : Mem T X} (hr : mem.st.hasResult = true)
    (hf : mem.st.flags.has futureReleased = false) :
    ∃ st, mem.takeContinuation.2.finalize = (false, mem.takeContinuation.2.access fun _ => st) ∧
      st.hasResult = true ∧ st.flags.has futureReleased = false ∧ st.continuation = none := by
  have hs := State.settle_of_hasResult (s:=mem.takeContinuation.2.st) hr hf
  refine ⟨_, by unfold Mem.finalize; rw [hs], ?_, ?_, rfl⟩
  · have hr' : (mem.takeContinuation.2.st.flags).has resultSet = true := hr
    simp only [State.hasResult, State.fetchAnd_flags, State.fetchOr_flags, Word.has_resultSet,
      Word.has_clear_finalizing, Word.has_or] at hr' ⊢
    simp [hr']
  · have hf' : (mem.takeContinuation.2.st.flags).has futureReleased = false := hf
    simp [hf']

/-- **The final awaiter**: it is the caller's turn, or that of the coroutine that awaits the
result. -/
theorem final_ok (h : m.Ok) (hab : m.aborted = false) (hS : m.stack = a :: S)
    (ha : m.frames.get a = some fa) (hpc : fa.pc = .leaving) (hheld : fa.held = []) :
    Fine m (m.final a fa) := by
  have hI := h.inv hab
  rw [hS] at hI
  have hpop : m.stack.tail = S := by rw [hS]; rfl
  unfold final
  cases hst : fa.state with
  | none =>
    obtain ⟨hP, hT, hSt, hhold, hplace⟩ := hI.finished ha hpc hheld (goes_refl _) fun _ => Or.inl rfl
    have hno : fa.outerPromise = none := by
      obtain ⟨fr, hfr, -, hno⟩ := hI.stacked.behavior a (hI.stacked.stateless a fa ha hst)
      rw [ha] at hfr
      cases hfr
      exact hno
    refine ⟨.of_inv hab hpop ⟨hP, hT, ⟨hhold, fun j fr hj _ => hplace j fr hj ?_⟩, hSt, nofun⟩,
      rfl, rfl⟩
    rw [hno]
    exact nofun
  | some s =>
    obtain ⟨c, fc, f, hc, hf, hfa, hcase⟩ := hI.owner ha (by rw [hst]; exact nofun)
    obtain ⟨cl, hcl, halive, hfut, hmk⟩ := hI.tokens.valid c fc f hc hf
    -- its state is there, holds the result, and its future has not been released
    obtain ⟨hs, hr, hcor⟩ : f.state = s ∧ cl.mem.st.hasResult = true ∧ cl.maker = .coroutine a := by
      cases hmk with
      | thread hn =>
        rw [hfa] at hn
        cases hn
      | coroutine hfa' hcor _ ha' hst' hmade =>
        rw [hfa] at hfa'
        cases hfa'
        rw [ha] at ha'
        cases ha'
        unfold Cell.Made at hmade
        rw [if_pos (by rw [hpc]; rfl)] at hmade
        exact ⟨(Option.some.inj (hst.symm.trans hst')).symm, hmade, hcor⟩
    subst hs
    have hlook : m.look f.state = some cl := by
      unfold look
      rw [hcl]
      exact Option.filter_some_pos halive
    obtain ⟨st, hfin, hr', hfut', hnone⟩ := finalize_eq hr hfut
    have hgoes : ∀ t c, m.cells.get t = some c → ∃ c', (m.cells.modify f.state
        (.onMem fun _ => cl.mem.takeContinuation.2.access fun _ => st)).get t = some c' ∧
        c.Goes c' := by
      intro t c ht
      refine Cell.Goes.modify (fun c1 hc1 => ?_) ht
      rw [hcl] at hc1
      cases hc1
      refine ⟨id, hfut'.trans hfut.symm, fun _ => hr', ?_⟩
      rw [hcor]
      exact ⟨hcor, fun he => absurd he (hasResult_ne_empty hr)⟩
    have hcont : ∀ t, contOf (m.cells.modify f.state
        (.onMem fun _ => cl.mem.takeContinuation.2.access fun _ => st)) t = contOf m.cells t ∨
        fa.state = some t ∧ contOf (m.cells.modify f.state
          (.onMem fun _ => cl.mem.takeContinuation.2.access fun _ => st)) t = none := by
      intro t
      by_cases ht : t = f.state
      · subst ht
        exact Or.inr ⟨hst, (contOf_modify_self hcl).trans hnone⟩
      · exact Or.inl (contOf_modify_ne ht)
    obtain ⟨hP, hT, hSt, hhold, hplace⟩ := hI.finished ha hpc hheld hgoes hcont
    dsimp only
    rw [hlook]
    dsimp only
    rw [show cl.mem.takeContinuation = (cl.mem.st.continuation, cl.mem.takeContinuation.2) from rfl]
    dsimp only
    rw [hfin]
    dsimp only
    have hat : contOf m.cells f.state = cl.mem.st.continuation := by
      unfold contOf
      rw [hcl]
      rfl
    rcases hcase with hheldf | ⟨rfl, hpcc, ho, hroot⟩
    · -- nobody awaits it: the caller goes on
      have hno := hI.outer_of_held hc hheldf hfa ha
      rw [← hat, hI.places.held c fc f hc hheldf]
      refine ⟨.of_inv hab hpop ⟨hP, hT, ⟨hhold, fun j fr hj _ => hplace j fr hj ?_⟩, hSt, nofun⟩,
        rfl, rfl⟩
      rw [hno]
      exact nofun
    · -- symmetric transfer
      have hca : c ≠ a := by
        rintro rfl
        rw [ha] at hc
        cases hc
        rw [hpc] at hpcc
        cases hpcc
      have hc' : (m.frames.modify a (.goto .finished)).get c = some fc :=
        (Heap.get_modify_ne hca).trans hc
      rw [← hat, (hI.suspended hc hpcc).1]
      have hroot' : Rooted (m.frames.modify a (.goto .finished)) m.currentBehavior c := by
        refine (Moved.finished ha (by rw [hpc]; rfl)).forth.rooted hI.pointers.linked hroot ?_
          ⟨fc, hc, by rw [hpcc]; exact nofun⟩
        rintro d - fd g hd hpd rfl
        rw [ha] at hd
        cases hd
        rw [hpc] at hpd
        cases hpd
      have hmade : Made (m.frames.modify a (.goto .finished)) f := by
        intro b hb
        rw [hfa] at hb
        cases hb
        exact ⟨_, Heap.get_modify_self ha, rfl⟩
      have hw := woken hP hT hSt hhold (fun j fr hj hjc => hplace j fr hj fun he => hjc
        (Option.some.inj (he.symm.trans ho))) hroot' hc' hpcc hmade
      unfold resumeAny resume
      dsimp only
      rw [show (((m.onCell f.state fun _ => cl.mem.takeContinuation.2.access fun _ => st).onFrame a
        (.goto .finished)).pop).frames.get c = some fc from hc']
      dsimp only
      rw [hpcc]
      exact ⟨.of_inv hab (congrArg (c :: ·) hpop) hw, rfl, rfl⟩

theorem leave_ok (h : m.Ok) (hab : m.aborted = false) (hS : m.stack = a :: S)
    (ha : m.frames.get a = some fa) (hpc : fa.pc = .leaving) : Fine m (m.leave a fa) := by
  have hI := h.inv hab
  rw [hS] at hI
  unfold leave
  split
  · exact ⟨.of_inv hab hS (promises_ok hI ha (Or.inr hpc) rfl rfl ⟨rfl, rfl, rfl, rfl, rfl⟩ rfl),
      rfl, rfl⟩
  · rename_i f held hp hh
    rw [release_modify_eq hI ha (mem_futures_held (by rw [hh]; exact List.mem_cons_self))]
    refine ⟨.of_inv hab hS ?_, rfl, rfl⟩
    refine drop_ok (k:=({ · with held := held })) hI ha (Or.inr hpc) ?_ rfl
      ⟨rfl, rfl, rfl, rfl, rfl⟩ rfl
    rw [hh]
  · rename_i hh
    exact final_ok h hab hS ha hpc hh

/-! ## `co_await` -/

theorem awaiting_ok (h : m.Ok) (hab : m.aborted = false) (hS : m.stack = a :: S)
    (ha : m.frames.get a = some fa) (hcur : fa.pc.current = some f)
    (hl : m.look f.state = some c) : Fine m (m.awaiting a f c fa.pc) := by
  have hI := h.inv hab
  rw [hS] at hI
  have hpop : m.stack.tail = S := by rw [hS]; rfl
  have hact := hI.stacked.top_active ha
  have haborts : ∀ F, Fine m { m with frames := F, aborted := true } :=
    fun F => ⟨.of_aborted rfl (by show m.stack ≠ []; rw [hS]; exact nofun), rfl, rfl⟩
  cases hpc : fa.pc with
  | awaiting g =>
    rw [hpc] at hcur
    cases hcur
    exact ⟨.of_inv hab hS (await_ready_ok hI ha hpc hl), rfl, rfl⟩
  | suspending g =>
    rw [hpc] at hcur
    cases hcur
    obtain ⟨hnone, hsusp⟩ := await_suspend_ok hI ha hpc hl
    unfold awaiting
    dsimp only
    rw [hnone]
    exact ⟨.of_inv hab hS hsusp, rfl, rfl⟩
  | rechecking g =>
    rw [hpc] at hcur
    cases hcur
    unfold awaiting
    dsimp only
    cases hr : c.mem.st.hasResult with
    | false =>
      rw [if_neg nofun]
      exact ⟨.of_inv hab hpop (suspend_ok hI ha hpc), rfl, rfl⟩
    | true =>
      rw [if_pos rfl]
      obtain ⟨hcont, hgo⟩ := recheck_ok hI ha hpc hl hr
      rw [hcont]
      unfold resumeAny resume
      dsimp only
      rw [show ((((m.onFrame a (.goto (.suspended f))).pop).onCell f.state
        fun mem => mem.takeContinuation.2).frames).get a = some (fa.goto (.suspended f))
        from Heap.get_modify_self ha]
      refine ⟨.of_inv hab (congrArg (a :: ·) hpop) ?_, rfl, rfl⟩
      show Inv ((m.frames.modify a (.goto (.suspended f))).modify a (.goto (.resuming f))) _ _ _ _
      rw [Heap.modify_modify]
      exact hgo
  | resuming g =>
    rw [hpc] at hcur
    cases hcur
    unfold awaiting
    dsimp only
    split
    · exact ⟨.of_inv hab hS (await_resume_ok hI ha hpc (Or.inl rfl)), rfl, rfl⟩
    · split
      · exact haborts _
      · exact ⟨.of_inv hab hS (await_resume_ok hI ha hpc (Or.inr rfl)), rfl, rfl⟩
  | extracting g =>
    rw [hpc] at hcur
    cases hcur
    unfold awaiting
    dsimp only
    split
    · rename_i p ht
      obtain ⟨v, st⟩ := p
      exact ⟨.of_inv hab hS (extract_ok hI ha hpc hl ht), rfl, rfl⟩
    · exact haborts _
  | dropping g =>
    rw [hpc] at hcur
    cases hcur
    unfold awaiting
    dsimp only
    rw [release_modify_eq hI ha (mem_futures_current (by rw [hpc]; rfl))]
    exact ⟨.of_inv hab hS (dropping_ok hI ha hpc), rfl, rfl⟩
  | suspended g =>
    rw [hpc] at hact
    cases hact
  | _ =>
    rw [hpc] at hcur
    cases hcur

/-- **A step of the running coroutine.** -/
theorem exec_ok {op : Option (Op T X)} (h : m.Ok) (hab : m.aborted = false)
    (hS : m.stack = a :: S) (ha : m.frames.get a = some fa) (hs : m.exec a fa op = some m') :
    Fine m m' := by
  have hI := h.inv hab
  rw [hS] at hI
  have hact := hI.stacked.top_active ha
  unfold exec at hs
  split at hs
  · rename_i hpc
    exact body_ok h hab hS ha hpc hs
  · cases hs
  · rename_i hpc
    cases hs
    exact leave_ok h hab hS ha hpc
  · rename_i hrunning hleaving
    split at hs
    · rename_i f hf
      obtain ⟨c, hl⟩ := look_of_valid (hI.tokens.valid a fa f ha (mem_futures_current hf))
      rw [hl] at hs
      cases hs
      exact awaiting_ok h hab hS ha hf hl
    · -- a running coroutine that is in no `co_await` is in its body, or leaves
      rename_i hnone
      cases hpc : fa.pc with
      | running => exact (hrunning hpc).elim
      | leaving => exact (hleaving hpc).elim
      | finished => rw [hpc] at hact; cases hact
      | _ => rw [hpc] at hnone; cases hnone
  · cases hs

/-! ## the drain -/

/-- `b` is the innermost coroutine of the chain of `r`, and awaits `p` -/
structure Innermost (m : Coros T X) (r b : Handle) (p : Address) : Prop where
  chain : Awaits m.frames r b
  suspended : ∃ fb, m.frames.get b = some fb ∧ fb.pc = .suspended ⟨p, none⟩
  registered : ∃ c t, m.look p = some c ∧ c.maker = .thread t ∧ c.mem.st.continuation = some b
  copies : ∀ d fd, Awaits m.frames r d → m.frames.get d = some fd →
    fd.awaitedFlags = some p ∧ fd.awaitedContinuation = some p

theorem live_some (h : m.live = some fr) :
    ∃ r, m.currentBehavior = some r ∧ m.frames.get r = some fr ∧ fr.pc ≠ .finished := by
  obtain ⟨hb, hd⟩ := Option.filter_eq_some_iff.mp h
  obtain ⟨r, hr, hfr⟩ := Option.bind_eq_some_iff.mp hb
  refine ⟨r, hr, hfr, fun hfin => ?_⟩
  unfold Frame.done at hd
  rw [hfin] at hd
  cases hd

/-- a behavior that is not live has ended -/
theorem live_none {r : Handle} (h : m.live = none) (hr : m.currentBehavior = some r)
    (hfr : m.frames.get r = some fr) : fr.pc = .finished := by
  unfold live at h
  rw [hr, Option.bind_some, hfr] at h
  by_cases hd : fr.done = true
  · exact beq_iff_eq.mp hd
  · rw [Option.filter_some_pos (by simpa using hd)] at h
    cases h

/-- **Below a live behavior**, when no coroutine runs. -/
theorem innermost {r : Handle} (hI : Inv m.frames m.cells [] m.currentBehavior none)
    (hfr : m.frames.get r = some fr) (hn : fr.pc ≠ .finished) : ∃ b p, m.Innermost r b p := by
  obtain ⟨b, fb, p, hw, hb, hpb, hcont, hall⟩ := hI.leaf hfr hn
  obtain ⟨c, hc, halive, -, hmk⟩ := hI.tokens.valid b fb ⟨p, none⟩ hb
    (mem_futures_current (by rw [hpb]; rfl))
  refine ⟨b, p, hw, ⟨fb, hb, hpb⟩, ?_, hall⟩
  unfold contOf at hcont
  rw [hc] at hcont
  cases hmk with
  | thread _ hp =>
    refine ⟨c, _, ?_, hp, hcont⟩
    unfold look
    rw [hc]
    exact Option.filter_some_pos halive
  | coroutine hb => cases hb

/-- a live behavior is busy -/
theorem busy_of_live (hI : Inv m.frames m.cells [] m.currentBehavior none)
    (h : m.live = some fr) : m.isBusy = true := by
  obtain ⟨r, -, hfr, hn⟩ := live_some h
  obtain ⟨b, p, hb⟩ := innermost hI hfr hn
  unfold isBusy
  rw [h]
  show fr.awaitedFlags.isSome = true
  rw [(hb.copies r fr (.refl r) hfr).1]
  rfl

theorem live_of_idle (hI : Inv m.frames m.cells [] m.currentBehavior none)
    (h : m.isBusy = false) : m.live = none := by
  cases hl : m.live with
  | none => rfl
  | some fr =>
    rw [busy_of_live hI hl] at h
    cases h

/-- **The drain** resumes exactly the innermost coroutine, if what it awaits is ready. -/
theorem drain_eq {r : Handle} {p : Address} (hl : m.live = some fr) (hfr : m.frames.get r = some fr)
    (hb : m.Innermost r b p) (hc : m.look p = some c) : m.drain =
      if c.mem.st.isReady then { m with
        frames := m.frames.modify b (.goto (.resuming ⟨p, none⟩))
        cells := m.cells.modify p (.onMem fun mem => mem.takeContinuation.2)
        stack := b :: m.stack }
      else m := by
  obtain ⟨hflags, hcont⟩ := hb.copies r fr (.refl r) hfr
  obtain ⟨fb, hfb, hpb⟩ := hb.suspended
  obtain ⟨c', -, hc', -, hreg⟩ := hb.registered
  rw [hc] at hc'
  cases hc'
  unfold drain
  rw [hl]
  dsimp only
  rw [hflags, hcont]
  dsimp only
  rw [hc]
  dsimp only
  rw [hreg]
  unfold resumeAny resume
  dsimp only
  rw [show (m.onCell p fun mem => mem.takeContinuation.2).frames.get b = some fb from hfb]
  dsimp only
  rw [hpb]
  rfl

theorem drain_ok (h : m.Ok) (hab : m.aborted = false) (hS : m.stack = []) : Fine m m.drain := by
  have hI := h.inv hab
  rw [hS] at hI
  cases hl : m.live with
  | none =>
    unfold drain
    rw [hl]
    exact ⟨h, rfl, rfl⟩
  | some fr =>
    obtain ⟨r, hr, hfr, hn⟩ := live_some hl
    obtain ⟨b, p, hb⟩ := innermost hI hfr hn
    obtain ⟨c, t, hc, hmk, hreg⟩ := hb.registered
    rw [drain_eq hl hfr hb hc]
    cases c.mem.st.isReady with
    | false => exact ⟨h, rfl, rfl⟩
    | true =>
      obtain ⟨fb, hfb, hpb⟩ := hb.suspended
      have hcur : fb.pc.current = some ⟨p, none⟩ := by rw [hpb]; rfl
      have hgoes : ∀ t c, m.cells.get t = some c → ∃ c', (m.cells.modify p
          (.onMem fun mem => mem.takeContinuation.2)).get t = some c' ∧ c.Goes c' :=
        fun t c ht => Cell.Goes.modify (fun c _ => goes_continuation none c.mem c.maker) ht
      refine ⟨.of_inv hab (congrArg (b :: ·) hS) (woken hI.pointers ?_ hI.stacked
        (fun j fj f hj hf => ?_) (fun j fj hj hjb => ?_)
        (hI.rooted_of_chain hb.chain (.behavior hr)) hfb hpb nofun), rfl, rfl⟩
      · exact hI.tokens.moved (.refl _ b) (fun j _ f _ _ hv => hv.goes (hgoes _)
          fun d fd _ hd _ => ⟨fd, hd, rfl, rfl⟩) (goes_own hgoes)
      · refine (contOf_modify_ne fun he => ?_).trans (hI.places.held j fj f hj hf)
        by_cases hjb : j = b
        · subst hjb
          rw [hfb] at hj
          cases hj
          exact hI.tokens.held_ne_current hfb hf hcur he
        · exact hI.tokens.state_ne hj hfb (mem_futures_held hf) (mem_futures_current hcur) hjb he
      · refine (Moved.refl m.frames b).forth.place (hI.places.place j fj hj nofun)
          (Or.inr (hI.stacked.idle_places hj)) hj hj hjb (fun f hf => contOf_modify_ne ?_) ?_
        · exact hI.tokens.state_ne hj hfb (mem_futures_current hf) (mem_futures_current hcur) hjb
        · intro fb' _ hfb' hfb'' hfin
          rw [hfb'] at hfb''
          cases hfb''
          rw [hfb] at hfb'
          cases hfb'
          rw [hpb] at hfin
          cases hfin

/-! ## other threads -/

/-- a producer that spares the future leaves it as it is, but for the result -/
theorem producer_spares {mem mem' : Mem T X} {p p' : Producer T X} (hp : p.spares = true)
    (hf : mem.st.flags.has futureReleased = false) (hs : p.step .settle mem = some (mem', p')) :
    (⟨mem, .thread p⟩ : Cell T X).Goes ⟨mem', .thread p'⟩ ∧
      mem'.st.continuation = mem.st.continuation := by
  suffices h : (mem.alive = true → mem'.alive = true) ∧
      mem'.st.flags.has futureReleased = mem.st.flags.has futureReleased ∧
      (mem.st.flags.has resultSet = true → mem'.st.flags.has resultSet = true) ∧
      p'.spares = true ∧ mem'.st.continuation = mem.st.continuation from
    ⟨⟨h.1, h.2.1, h.2.2.1, _, rfl, fun _ => h.2.2.2.1⟩, h.2.2.2.2⟩
  have hor : ∀ k : Word, k.has futureReleased = false → (mem.st.flags ||| k).has futureReleased
      = mem.st.flags.has futureReleased ∧ (mem.st.flags.has resultSet = true →
        (mem.st.flags ||| k).has resultSet = true) := by
    intro k hk
    refine ⟨by rw [Word.has_or, hk, Bool.or_false], fun hr => ?_⟩
    rw [Word.has_or, hr]
    rfl
  have hand : (mem.st.flags &&& ~~~promiseFinalizing).has futureReleased
      = mem.st.flags.has futureReleased ∧ (mem.st.flags.has resultSet = true →
        (mem.st.flags &&& ~~~promiseFinalizing).has resultSet = true) := by
    refine ⟨(Word.has_clear_finalizing _).2.2.2.2.1, fun hr => ?_⟩
    simpa using hr
  cases p with
  | writing o todo =>
    cases hs
    exact ⟨id, by simp [Mem.access], by simp [Mem.access], rfl, by cases o <;> rfl⟩
  | publishing o todo =>
    cases hs
    obtain ⟨h1, h2⟩ := hor o.flag (by cases o <;> simp [Outcome.flag])
    exact ⟨id, h1, h2, by cases todo <;> rfl, rfl⟩
  | finalizing =>
    cases hs
    obtain ⟨h1, h2⟩ := hor promiseFinalizing (by simp)
    exact ⟨id, h1, h2, rfl, rfl⟩
  | relLoad =>
    cases hs
    refine ⟨id, rfl, id, ?_, rfl⟩
    split
    · show (!promiseReleased.has futureReleased) = true
      simp
    · rfl
  | relError =>
    cases hs
    refine ⟨id, rfl, id, ?_, rfl⟩
    show (!(promiseReleased ||| errorSet).has futureReleased) = true
    simp
  | relOr bits =>
    cases hs
    obtain ⟨h1, h2⟩ := hor bits (by simpa [Producer.spares] using hp)
    refine ⟨id, h1, h2, ?_, rfl⟩
    rw [if_neg (by rw [hf]; exact Bool.false_ne_true)]
    rfl
  | finLoad =>
    cases hs
    exact ⟨id, rfl, id, rfl, rfl⟩
  | finCas current =>
    simp only [Producer.step] at hs
    split at hs
    · rename_i hcas
      cases hs
      obtain ⟨h1, h2⟩ := hand
      refine ⟨id, ?_, ?_, rfl, rfl⟩
      · show (_ &&& ~~~promiseFinalizing).has futureReleased = _
        rw [← hcas]
        exact h1
      · show _ → (_ &&& ~~~promiseFinalizing).has resultSet = true
        rw [← hcas]
        exact h2
    · rw [if_neg (by rw [hf]; exact Bool.false_ne_true)] at hs
      cases hs
      exact ⟨id, rfl, id, rfl, rfl⟩
  | finAnd =>
    cases hs
    obtain ⟨h1, h2⟩ := hand
    exact ⟨id, h1, h2, rfl, rfl⟩
  | done d f => cases hs
  | _ => cases hp

/-- **Another thread settles** a promise-backed state, step by step. -/
theorem produce_ok {s : Address} (h : m.Ok) (hab : m.aborted = false)
    (hs : m.produce s = some m') : Fine m m' ∧ m'.stack = m.stack ∧ m'.live = m.live := by
  obtain ⟨c, hc, hs⟩ := Option.bind_eq_some_iff.mp hs
  split at hs
  · rename_i p hp
    obtain ⟨⟨mem, p'⟩, hstep, rfl⟩ := Option.map_eq_some_iff.mp hs
    refine ⟨⟨.of_inv hab rfl ((h.inv hab).cells (fun j fr f _ _ hv => ?_) fun t c1 b ht hb => ?_),
      rfl, rfl⟩, rfl, rfl⟩
    · -- the producer of a future that somebody owns
      obtain ⟨c1, hc1, halive, hfut, hmk⟩ := hv
      by_cases hfs : f.state = s
      · rw [hfs, hc] at hc1
        cases hc1
        cases hmk with
        | thread _ hp' hsp =>
          rw [hp] at hp'
          cases hp'
          obtain ⟨hgo, hcont⟩ := producer_spares hsp hfut hstep
          have hce : c = ⟨c.mem, .thread p⟩ := by rw [← hp]
          subst hfs
          refine ⟨fun c2 hc2 => ?_, ?_⟩
          · rw [hc] at hc2
            cases hc2
            exact ⟨_, Heap.get_modify_self hc, by rw [hce]; exact hgo⟩
          · rw [contOf_modify_self hc]
            unfold contOf
            rw [hc]
            exact hcont
        | coroutine _ hcor =>
          rw [hp] at hcor
          cases hcor
      · exact ⟨fun c2 hc2 => ⟨c2, (Heap.get_modify_ne hfs).trans hc2, .refl c2⟩,
          contOf_modify_ne hfs⟩
    · by_cases hts : t = s
      · subst hts
        rw [hc] at ht
        cases ht
        rw [hp] at hb
        cases hb
      · exact ⟨c1, (Heap.get_modify_ne hts).trans ht, hb⟩
  · cases hs

end Coros
end ActorZeta
