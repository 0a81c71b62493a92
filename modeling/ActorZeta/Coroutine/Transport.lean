import ActorZeta.Coroutine.Resumption

/-!
# dispatch() and the outcome of a method

The method of a message, by itself and under `dispatch()` and `behavior()`, with the same states
becoming ready in the same order.

* `World.Keeps`       a method leaves the state of the caller's future alone;
* `dispatched`        what `dispatch()` and `behavior()` make of what the method does;
* `run_dispatched`    they make nothing else of it, at any number of suspensions;
* `transported_iff`   the outcomes that reach the caller.
-/

namespace ActorZeta
open StateFlags
variable {T X : Type}

/-! ## the caller's promise -/

/-- nothing inside holds the caller's promise -/
inductive Fut.Clean : Fut T X → Prop
  | ready (h : Handle) (st : State T X) : Clean (.ready h st)
  | promised (st : State T X) : Clean (.promised st)
  | waiting {os : List (Level (Fut T X) T X)} {l : Level (Fut T X) T X} (p : State T X) :
      (∀ o ∈ os, o.locals.promise = false) → (∀ o ∈ os, ∀ f ∈ o.locals.held, Clean f) →
      l.locals.promise = false → (∀ f ∈ l.locals.held, Clean f) → Clean (.waiting os l p)

def Locals.Clean (fr : Locals (Fut T X) T X) : Prop :=
  fr.promise = false ∧ ∀ f ∈ fr.held, f.Clean

def Result.Clean : Result T X → Prop
  | .suspended os l _ => (∀ o ∈ os, o.locals.Clean) ∧ l.locals.Clean
  | _ => True

/-- the message is somebody else's, and the caller's state is left alone -/
structure World.Keeps (w w' : World T X) : Prop where
  owned : w'.owned = w.owned
  slot : w'.slot = w.slot
  settled : w'.settled = w.settled

theorem World.Keeps.refl (w : World T X) : w.Keeps w := ⟨rfl, rfl, rfl⟩

theorem World.Keeps.trans {w w' w'' : World T X} (h : w.Keeps w') (h' : w'.Keeps w'') :
    w.Keeps w'' :=
  ⟨h'.owned.trans h.owned, h'.slot.trans h.slot, h'.settled.trans h.settled⟩

theorem World.release_keeps (w : World T X) (f : Fut T X) : w.Keeps (w.release f) := by
  cases f <;> exact ⟨rfl, rfl, rfl⟩

theorem World.leave_keeps (w : World T X) {fr : Locals (Fut T X) T X} (h : fr.promise = false) :
    w.Keeps (w.leave fr) := by
  have hfold : ∀ (fs : List (Fut T X)) (w : World T X), w.Keeps (fs.foldl World.release w) := by
    intro fs
    induction fs with
    | nil => exact fun w => .refl w
    | cons f fs ih => exact fun w => (w.release_keeps f).trans (ih (w.release f))
  unfold World.leave
  rw [h]
  exact hfold fr.held w

theorem finalSuspend_keeps (h : Handle) (st : Option (State T X)) (w : World T X) :
    w.Keeps (finalSuspend h st w).2 ∧ (finalSuspend h st w).1.Clean := by
  cases st with
  | none => exact ⟨.refl w, trivial⟩
  | some st =>
    unfold finalSuspend
    dsimp only
    split
    · exact ⟨⟨rfl, rfl, rfl⟩, trivial⟩
    · exact ⟨⟨rfl, rfl, rfl⟩, trivial⟩

theorem Locals.Clean.hold {fr : Locals (Fut T X) T X} (h : fr.Clean) {f : Fut T X} (hf : f.Clean) :
    Locals.Clean { fr with held := fr.held ++ [f] } := by
  refine ⟨h.1, fun g hg => ?_⟩
  rcases List.mem_append.mp hg with hg | hg
  · exact h.2 g hg
  · rw [List.mem_singleton.mp hg]
    exact hf

theorem Locals.Clean.erase {fr : Locals (Fut T X) T X} (h : fr.Clean) (i : Nat) :
    Locals.Clean { fr with held := fr.held.eraseIdx i } :=
  ⟨h.1, fun g hg => h.2 g (List.mem_of_mem_eraseIdx hg)⟩

theorem registerAll_clean {h : Handle} {os : List (Level (Fut T X) T X)} {l : Level (Fut T X) T X}
    (ho : ∀ o ∈ os, o.locals.Clean) (hl : l.locals.Clean) :
    (∀ o ∈ (Level.registerAll h os l).1, o.locals.Clean) ∧
      (Level.registerAll h os l).2.locals.Clean := by
  cases os with
  | nil => exact ⟨ho, hl⟩
  | cons o os =>
    refine ⟨fun u hu => ?_, hl⟩
    rcases List.mem_cons.mp hu with rfl | hu
    · exact ho o List.mem_cons_self
    · exact ho u (List.mem_cons_of_mem _ hu)

/-- a method that does not hold the caller's promise leaves it alone -/
theorem exec_keeps (b : Body T X) : ∀ (fr : Locals (Fut T X) T X) (w : World T X),
    w.owned = false → fr.Clean → w.Keeps (exec b fr w).2 ∧ (exec b fr w).1.Clean := by
  induction b with
  | coReturn o =>
    intro fr w _ hfr
    obtain ⟨hk, hc⟩ := finalSuspend_keeps fr.id (fr.state.map (·.setOutcome o)) (w.leave fr)
    exact ⟨(w.leave_keeps hfr.1).trans hk, hc⟩
  | start child k ihc ihk =>
    intro fr w hw hfr
    have hchild := ihc ⟨w.next, some .fresh, [], false⟩ { w with next := w.next + 1 } hw
      ⟨rfl, fun _ hf => (List.not_mem_nil hf).elim⟩
    simp only [exec]
    generalize exec child ⟨w.next, some .fresh, [], false⟩ { w with next := w.next + 1 } = R
      at hchild ⊢
    obtain ⟨r, w'⟩ := R
    obtain ⟨hkeep, hclean⟩ := hchild
    have hsame : w.Keeps w' := ⟨hkeep.owned, hkeep.slot, hkeep.settled⟩
    have hw' : w'.owned = false := hsame.owned.trans hw
    rcases r with ⟨i, c, _ | st⟩ | _ | ⟨os, l, p⟩ | _ | _
    · exact ⟨hsame, trivial⟩
    · obtain ⟨hk, hc⟩ := ihk { fr with held := fr.held ++ [.ready i st] } w' hw' (hfr.hold (.ready i st))
      exact ⟨hsame.trans hk, hc⟩
    · exact ⟨hsame, trivial⟩
    · obtain ⟨hk, hc⟩ := ihk { fr with held := fr.held ++ [.waiting os l p] } w' hw'
        (hfr.hold (.waiting p (fun o ho => (hclean.1 o ho).1) (fun o ho => (hclean.1 o ho).2)
          hclean.2.1 hclean.2.2))
      exact ⟨hsame.trans hk, hc⟩
    · exact ⟨hsame, trivial⟩
    · exact ⟨hsame, trivial⟩
  | adopt ready k ihk =>
    intro fr w hw hfr
    exact ihk _ w hw (hfr.hold (.promised _))
  | await i k ihk =>
    intro fr w hw hfr
    have hgo : ∀ f r, w.Keeps (exec (k r) { fr with held := fr.held.eraseIdx i } (w.release f)).2 ∧
        (exec (k r) { fr with held := fr.held.eraseIdx i } (w.release f)).1.Clean := by
      intro f r
      have hrel := w.release_keeps f
      obtain ⟨hk, hc⟩ := ihk r { fr with held := fr.held.eraseIdx i } (w.release f)
        (hrel.owned.trans hw) (hfr.erase i)
      exact ⟨hrel.trans hk, hc⟩
    have hmem : ∀ f, fr.held[i]? = some f → f.Clean := fun f hf =>
      hfr.2 f (List.mem_of_getElem? hf)
    simp only [exec]
    rcases hf : fr.held[i]? with _ | ⟨j, st⟩ | ⟨os, l, p⟩ | st
    · exact ⟨.refl w, trivial⟩
    · dsimp only
      rcases st.awaitResume with _ | r
      · exact ⟨.refl w, trivial⟩
      · exact hgo _ r
    · refine ⟨.refl w, ?_⟩
      rcases hmem _ hf with _ | _ | ⟨_, ho, hoh, hp, hl⟩
      obtain ⟨ho', hl'⟩ := registerAll_clean (h:=fr.id) (fun o hu => ⟨ho o hu, hoh o hu⟩) ⟨hp, hl⟩
      refine ⟨fun u hu => ?_, hl'⟩
      rcases List.mem_cons.mp hu with rfl | hu
      · exact hfr.erase i
      · exact ho' u hu
    · dsimp only
      by_cases hr : st.hasResult = true
      · rw [if_pos hr]
        rcases st.awaitResume with _ | r
        · exact ⟨.refl w, trivial⟩
        · exact hgo _ r
      · rw [if_neg hr]
        exact ⟨.refl w, fun _ hu => (List.not_mem_nil hu).elim, hfr.erase i⟩
  | drop i k ihk =>
    intro fr w hw hfr
    simp only [exec]
    rcases fr.held[i]? with _ | f
    · exact ⟨.refl w, trivial⟩
    · have hrel := w.release_keeps f
      obtain ⟨hk, hc⟩ := ihk { fr with held := fr.held.eraseIdx i } (w.release f)
        (hrel.owned.trans hw) (hfr.erase i)
      exact ⟨hrel.trans hk, hc⟩
  | take k _ =>
    intro fr w hw _
    simp only [exec]
    rw [hw]
    exact ⟨.refl w, trivial⟩
  | settle o k _ =>
    intro fr w _ hfr
    simp only [exec]
    rw [hfr.1]
    exact ⟨.refl w, trivial⟩

theorem goOn_keeps {l : Level (Fut T X) T X} (hl : l.locals.Clean) (cont : Option Handle)
    (f : Fut T X) (st : State T X) {w : World T X} (hw : w.owned = false) :
    w.Keeps (l.goOn cont f st w).2 ∧ (l.goOn cont f st w).1.Clean := by
  unfold Level.goOn
  split
  · split
    · exact ⟨.refl w, trivial⟩
    · have hrel := w.release_keeps f
      obtain ⟨hk, hc⟩ := exec_keeps (l.k _) l.locals (w.release f) (hrel.owned.trans hw) hl
      exact ⟨hrel.trans hk, hc⟩
  · exact ⟨.refl w, trivial⟩

theorem resume_keeps {l : Level (Fut T X) T X} (hl : l.locals.Clean) (p : State T X) {w : World T X}
    (hw : w.owned = false) : ∀ os : List (Level (Fut T X) T X), (∀ o ∈ os, o.locals.Clean) →
      w.Keeps (resume l p w os).2 ∧ (resume l p w os).1.Clean := by
  intro os
  induction os with
  | nil => exact fun _ => goOn_keeps hl _ _ p hw
  | cons o os ih =>
    intro hos
    have hin := ih fun u hu => hos u (List.mem_cons_of_mem _ hu)
    simp only [resume]
    generalize resume l p w os = R at hin ⊢
    obtain ⟨r, w'⟩ := R
    obtain ⟨hkeep, hclean⟩ := hin
    have hw' : w'.owned = false := hkeep.owned.trans hw
    rcases r with ⟨i, c, _ | st⟩ | _ | ⟨us, u, q⟩ | _ | _
    · exact ⟨hkeep, trivial⟩
    · obtain ⟨hk, hc⟩ := goOn_keeps (hos o List.mem_cons_self) c (.ready i st) st hw'
      exact ⟨hkeep.trans hk, hc⟩
    · exact ⟨hkeep, trivial⟩
    · refine ⟨hkeep, fun v hv => ?_, hclean.2⟩
      rcases List.mem_cons.mp hv with rfl | hv
      · exact hos v List.mem_cons_self
      · exact hclean.1 v hv
    · exact ⟨hkeep, trivial⟩
    · exact ⟨hkeep, trivial⟩

theorem drains_keeps (rest : List (Outcome T X)) : ∀ R : Result T X × World T X,
    R.2.owned = false → R.1.Clean → R.2.Keeps (drains R rest).2 := by
  induction rest with
  | nil => exact fun R _ _ => .refl R.2
  | cons o rest ih =>
    rintro ⟨r, w⟩ hw hc
    cases r with
    | suspended os l p =>
      obtain ⟨hk, hc'⟩ := resume_keeps hc.2 (p.setOutcome o).settle.2 hw os hc.1
      exact hk.trans (ih _ (hk.owned.trans hw) hc')
    | _ => exact .refl w

/-! ## dispatch() and behavior() around the method -/

section
variable (void : T) (n : Handle)

def behaviorFrame : Locals (Fut T X) T X := ⟨n, none, [], false⟩

/-- the frame of `dispatch()`, with the caller's promise -/
def dispatchFrame : Locals (Fut T X) T X := ⟨n + 1, some .fresh, [], true⟩

/-- what becomes of the behavior, given what becomes of the method -/
def dispatched (R : Result T X × World T X) : Result T X × World T X :=
  awaited (behaviorFrame n) (behaviorEnd void) (awaited (dispatchFrame n) (dispatchEnd void) R)

/-- the method of a message, by itself, in the frame that `dispatch()` would give it -/
def methodRun (m : Body T X) (rest : List (Outcome T X)) : Result T X × World T X :=
  drains (exec m ⟨n + 2, some .fresh, [], false⟩
    { World.fresh n with next := n + 3, owned := false }) rest

/-- the message itself -/
def behaviorRun (m : Body T X) (rest : List (Outcome T X)) : Result T X × World T X :=
  drains (handle void m (World.fresh n)) rest

/-- what `dispatch()` puts into the caller's promise -/
def outcomeOf : Except X T → Outcome T X
  | .ok v => .value v
  | .error ep => .exception ep

theorem dispatchEnd_exec (r : Except X T) (w : World T X) :
    exec (dispatchEnd void r) (dispatchFrame n) w =
      (.finished (n + 1) none (some (.settledWith (.value void))), { w.settle (outcomeOf r) with
        finished := w.finished ++ [(n + 1, .settledWith (.value void))] }) := by
  cases r with
  | ok v => exact finalSuspend_blank blank_fresh _ _ _
  | error ep => exact finalSuspend_blank blank_fresh _ _ _

theorem behaviorEnd_exec (r : Except X T) (w : World T X) :
    exec (behaviorEnd void r) (behaviorFrame n) w = (.finished n none none, w) := by
  cases r <;> rfl

/-- a method that returned: `dispatch()` refuses, or it settles the caller's promise and returns to
the behavior, which returns -/
theorem dispatched_finished (h : Handle) (c : Option Handle) (st : State T X) (w : World T X) :
    dispatched void n (.finished h c (some st), w) = match st.awaitResume with
      | none => (.aborted, w)
      | some r => (.finished n none none, { w.settle (outcomeOf r) with
          destroyed := w.destroyed ++ [h] ++ [n + 1]
          finished := w.finished ++ [(n + 1, .settledWith (.value void))] }) := by
  unfold dispatched
  simp only [awaited]
  rcases st.awaitResume with _ | r
  · rfl
  · simp only [dispatchEnd_exec, awaitResume_value, behaviorEnd_exec]
    rfl

theorem dispatched_owned (R : Result T X × World T X) :
    (dispatched void n R).2.owned = R.2.owned := by
  obtain ⟨r, w⟩ := R
  rcases r with ⟨i, c, _ | st⟩ | _ | ⟨os, l, p⟩ | _ | _
  · rfl
  · rw [dispatched_finished]
    rcases st.awaitResume with _ | r
    · rfl
    · rfl
  · rfl
  · rfl
  · rfl
  · rfl

theorem clean_new (h : Handle) (st : Option (State T X)) :
    (⟨h, st, [], false⟩ : Locals (Fut T X) T X).Clean :=
  ⟨rfl, fun _ hf => (List.not_mem_nil hf).elim⟩

/-- a message up to its first suspension or its end -/
theorem handle_dispatched (m : Body T X) : handle void m (World.fresh n) =
    dispatched void n (exec m ⟨n + 2, some .fresh, [], false⟩
      { World.fresh n with next := n + 3, owned := false }) := by
  have hexec : exec (behavior void m) ⟨n, none, [], false⟩ { World.fresh n with next := n + 1 } =
      dispatched void n (exec m ⟨n + 2, some .fresh, [], false⟩
        { World.fresh n with next := n + 3, owned := false }) := by
    unfold behavior
    rw [exec_call _ _ rfl]
    show awaited _ _ (exec (.start m (.await 0 (dispatchEnd void))) (dispatchFrame n) _) = _
    rw [exec_call _ _ rfl]
    rfl
  have howned : (dispatched void n (exec m ⟨n + 2, some .fresh, [], false⟩
      { World.fresh n with next := n + 3, owned := false })).2.owned = false := by
    rw [dispatched_owned]
    exact (exec_keeps m _ _ rfl (clean_new _ _)).1.owned
  unfold handle
  rw [show (World.fresh n : World T X).next = n from rfl, hexec]
  unfold World.endMessage
  generalize dispatched void n _ = R at howned ⊢
  obtain ⟨r, w⟩ := R
  dsimp only at howned ⊢
  rw [if_neg (Bool.eq_false_iff.mp howned)]

theorem run_dispatched (m : Body T X) (rest : List (Outcome T X)) :
    behaviorRun void n m rest = dispatched void n (methodRun n m rest) := by
  unfold behaviorRun methodRun dispatched
  rw [handle_dispatched]
  unfold dispatched
  rw [drains_awaited, drains_awaited]
  · intro r w
    rw [dispatchEnd_exec]
    rfl
  · intro r w
    rw [behaviorEnd_exec]
    rfl

/-- the future of the caller is ready and says what the method said -/
def State.Says (st : State T X) (o : Outcome T X) : Prop :=
  st.isReady = true ∧ match o with
    | .value v => st.holdsValue = true ∧ st.value = some v
    | .error ec => st.hasError = true ∧ st.getError = ec ∧ st.exception = none
    | .exception ep => st.hasError = true ∧ st.getError = .errc .interrupted ∧
        st.exception = some ep

theorem settledWith_says (o : Outcome T X) : (State.settledWith o : State T X).Says o := by
  rw [settledWith_eq]
  refine ⟨?_, ?_⟩
  · simp [State.isReady]
  · cases o with
    | value v =>
      refine ⟨?_, rfl⟩
      show ((valueSet ||| promiseReleased) &&& (valueSet ||| errorSet ||| consumed) == valueSet) = true
      decide
    | error ec => exact ⟨by simp [State.hasError, Outcome.flag], rfl, rfl⟩
    | exception ep => exact ⟨by simp [State.hasError, Outcome.flag], rfl, rfl⟩

/-- the behavior has run to its end, and `dispatch()` has settled the caller's promise once, with
`o` -/
def Transported (m : Body T X) (rest : List (Outcome T X)) (o : Outcome T X) : Prop :=
  ∃ w, behaviorRun void n m rest = (.finished n none none, w) ∧ w.settled = [o] ∧ w.slot.Says o

/-- **What `dispatch()` transports.**  A method that returned, after any number of suspensions, has
left one outcome in its state.  Unless that is an exception, the outcome reaches the caller if and
only if it is not an error code. -/
theorem transported_iff (m : Body T X) (rest : List (Outcome T X)) (h : Handle) (c : Option Handle)
    (st : Option (State T X)) (w : World T X) (hrun : methodRun n m rest = (.finished h c st, w)) :
    ∃ o, st = some (.settledWith o) ∧ ((∀ ep, o ≠ .exception ep) →
      (Transported void n m rest o ↔ ∀ ec, o ≠ .error ec)) := by
  let w₀ : World T X := { World.fresh n with next := n + 3, owned := false }
  have hof := drains_of blank_fresh rest _
    (exec_of blank_fresh m ⟨n + 2, some .fresh, [], false⟩ w₀ rfl rfl)
  obtain ⟨hkeep, hclean⟩ := exec_keeps m ⟨n + 2, some .fresh, [], false⟩ w₀ rfl (clean_new _ _)
  have hkeep := hkeep.trans (drains_keeps rest _ (hkeep.owned.trans rfl) hclean)
  rw [show drains _ rest = (.finished h c st, w) from hrun] at hof hkeep
  obtain ⟨rfl, -, o, rfl⟩ := hof
  have hbeh : behaviorRun void n m rest = dispatched void n
      (.finished (n + 2) c (some (.settledWith o)), w) := by
    rw [run_dispatched, hrun]
  rw [dispatched_finished] at hbeh
  refine ⟨o, rfl, fun hne => ?_⟩
  cases o with
  | value v =>
    refine ⟨fun _ ec => nofun, fun _ => ?_⟩
    rw [awaitResume_value] at hbeh
    refine ⟨_, hbeh, ?_, ?_⟩
    · show w.settled ++ [_] = _
      rw [hkeep.settled]
      rfl
    · show (w.slot.setOutcome _).settle.2.Says _
      rw [hkeep.slot]
      exact settledWith_says _
  | error ec =>
    refine ⟨fun ht => ?_, fun hno => absurd rfl (hno ec)⟩
    obtain ⟨w', hw', -⟩ := ht
    rw [awaitResume_error] at hbeh
    rw [hbeh] at hw'
    cases hw'
  | exception ep => exact absurd rfl (hne ep)

/-- a method that awaits a number and returns the next one -/
def nextNumber : Body Nat Unit :=
  .adopt none (.await 0 fun
    | .ok v => .coReturn (.value (v + 1))
    | .error ep => .coReturn (.exception ep))

theorem transported_iff_suspended : ∃ o, Transported 0 0 nextNumber [.value 6] o := by
  have hrun : methodRun 0 nextNumber [.value 6] = (.finished 2 none (some (.settledWith (.value 7))),
      { World.fresh 0 with next := 3, owned := false, finished := [(2, .settledWith (.value 7))] }) := by
    unfold methodRun nextNumber
    rw [exec_wait _ rfl]
    simp only [drains]
    refine (resume_value 6 _ _).trans ?_
    simp only [exec]
    exact finalSuspend_blank blank_fresh 2 _ _
  obtain ⟨o, ho, hiff⟩ := transported_iff 0 0 nextNumber [.value 6] _ _ _ _ hrun
  have hres : (State.settledWith o : State Nat Unit).awaitResume = some (.ok 7) := by
    rw [← Option.some.inj ho]
    exact awaitResume_value 7
  refine ⟨o, (hiff fun ep he => ?_).mpr fun ec he => ?_⟩
  · rw [he, awaitResume_exception] at hres
    cases hres
  · rw [he, awaitResume_error] at hres
    cases hres

/-- A method that returns an error code: `dispatch()` awaits it, and `await_resume` aborts. -/
theorem error_aborts : ∃ (m : Body Nat Unit) (ec : ErrorCode) (w w' : World Nat Unit),
    methodRun 0 m [] = (.finished 2 none (some (.settledWith (.error ec))), w) ∧
      behaviorRun 0 0 m [] = (.aborted, w') ∧ ¬ Transported 0 0 m [] (.error ec) := by
  have hrun : methodRun 0 (.coReturn (.error (.user 1 5))) [] =
      ((.finished 2 none (some (.settledWith (.error (.user 1 5)))), { World.fresh 0 with
        next := 3, owned := false, finished := [(2, .settledWith (.error (.user 1 5)))] }) :
          Result Nat Unit × World Nat Unit) := by
    simp only [methodRun, drains, exec]
    exact finalSuspend_blank blank_fresh 2 _ _
  have hbeh := run_dispatched 0 0 (.coReturn (.error (.user 1 5)) : Body Nat Unit) []
  rw [hrun, dispatched_finished, awaitResume_error] at hbeh
  refine ⟨_, _, _, _, hrun, hbeh, fun ht => ?_⟩
  obtain ⟨w, hw, -⟩ := ht
  rw [hbeh] at hw
  cases hw

end

end ActorZeta
