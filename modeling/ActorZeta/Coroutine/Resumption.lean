import ActorZeta.SharedState.State

/-!
# Coroutines as resumptions

What a coroutine still does, as a tree of the operations of its body; and the two ways the actor's
thread runs it, a call and the drain, as functions.  A suspended behavior is the list of the
coroutines between the behavior and the promise-backed state that the innermost awaits, which is
where the drain goes.

* `Body`       the rest of a body: calls, awaits, drops, the caller's promise, `co_return`;
* `Fut`        a `unique_future` in the hand of a coroutine, with everything it owns;
* `Level`      a coroutine inside `co_await`;
* `World`      what the run leaves behind: frames, settled states, the caller's state;
* `exec`       a body up to its first suspension or its end;
* `resume`     the drain, and the transfers from final suspension to final suspension;
* `dispatch`, `behavior`, `handle`   a message of the actor.

An exception that leaves a body is `coReturn (.exception ep)`: `unhandled_exception()` captures it.
The coroutines of `Coroutine.Machine` take the same steps one by one: `Coros.message_simulated` in
`Coroutine.Driving` carries a message of this file over to them.
-/

namespace ActorZeta

/-- what a body does next; a continuation is given what `await_resume()` returns or throws -/
inductive Body (T X : Type) where
  /-- `co_return`, or the exception that leaves the body -/
  | coReturn (o : Outcome T X)
  /-- a call of a method coroutine, which runs at once -/
  | start (child k : Body T X)
  /-- a future of `send()`, and its outcome if it is ready when it is awaited -/
  | adopt (ready : Option (Outcome T X)) (k : Body T X)
  | await (i : Nat) (k : Except X T → Body T X)
  | drop (i : Nat) (k : Body T X)
  /-- `get_result_promise()` and `transfer_ownership()` -/
  | take (k : Body T X)
  /-- `set_value` or `exception` of that promise -/
  | settle (o : Outcome T X) (k : Body T X)

/-- a coroutine with its locals: its own state (a behavior has none), the futures and the promise
that it holds -/
structure Locals (F T X : Type) where
  id : Handle
  state : Option (State T X)
  held : List F
  promise : Bool

/-- a coroutine inside `co_await` -/
structure Level (F T X : Type) where
  locals : Locals F T X
  k : Except X T → Body T X

/-- `unique_future`: of a coroutine that is done, of a suspended one, or of a promise -/
inductive Fut (T X : Type) where
  | ready (h : Handle) (st : State T X)
  | waiting (outers : List (Level (Fut T X) T X)) (inner : Level (Fut T X) T X) (p : State T X)
  | promised (st : State T X)

/-- what a run leaves behind: the frames, the states as final suspension left them, and the state
of the caller's future with what was put into its promise -/
structure World (T X : Type) where
  next : Handle
  destroyed : List Handle
  finished : List (Handle × State T X)
  slot : State T X
  owned : Bool
  settled : List (Outcome T X)

/-- where control comes back -/
inductive Result (T X : Type) where
  /-- at final suspension, with the continuation it took and its own state -/
  | finished (h : Handle) (cont : Option Handle) (st : Option (State T X))
  /-- at final suspension, which destroyed the frame -/
  | gone
  /-- `inner` awaits `p`, and each of `outers` the coroutine after it -/
  | suspended (outers : List (Level (Fut T X) T X)) (inner : Level (Fut T X) T X) (p : State T X)
  | aborted
  | undefined

namespace State
variable {T X : Type}

/-- a promise that was never anything else is settled -/
def settledWith (o : Outcome T X) : State T X := (fresh.setOutcome o).settle.2

/-- `await_suspend`: nobody else awaits the future -/
def register (h : Handle) (st : State T X) : State T X := { st with continuation := some h }

/-- `await_resume()`: what it returns or throws, `none` where it refuses and aborts -/
def awaitResume (st : State T X) : Option (Except X T) :=
  match st.rethrowIfException with
  | some ep => some (.error ep)
  | none => if st.hasError then none else st.takeValue.map fun r => .ok r.1

end State

namespace World
variable {T X : Type}

/-- an actor that has made `n` frames handles a message -/
def fresh (n : Handle) : World T X := ⟨n, [], [], .fresh, true, []⟩

/-- `unique_future::release()`: the frame goes if it is done; a suspended one stays behind, and
nobody resumes it -/
def release (w : World T X) : Fut T X → World T X
  | .ready h _ => { w with destroyed := w.destroyed ++ [h] }
  | _ => w

/-- `promise<T>::set_value`, `exception`, and the `broken_pipe` of its destructor -/
def settle (w : World T X) (o : Outcome T X) : World T X :=
  { w with slot := (w.slot.setOutcome o).settle.2, settled := w.settled ++ [o] }

/-- the locals of a coroutine die -/
def leave (w : World T X) (fr : Locals (Fut T X) T X) : World T X :=
  fr.held.foldl release (if fr.promise then w.settle (.error (.errc .brokenPipe)) else w)

/-- `~message_guard`: the message dies, and its slot with it if it is still its own -/
def endMessage (w : World T X) : World T X :=
  if w.owned then { w with slot := w.slot.cleanupFn.2, owned := false } else w

end World

/-- the state of a coroutine gets a continuation -/
def Locals.register {F T X : Type} (h : Handle) (fr : Locals F T X) : Locals F T X :=
  { fr with state := fr.state.map (.register h) }

namespace Level
variable {F T X : Type}

def register (h : Handle) (l : Level F T X) : Level F T X :=
  { l with locals := l.locals.register h }

/-- the outermost coroutine of a chain gets a continuation -/
def registerAll (h : Handle) (os : List (Level F T X)) (l : Level F T X) :
    List (Level F T X) × Level F T X :=
  match os with
  | [] => ([], l.register h)
  | o :: os => (o.register h :: os, l)

end Level

section
variable {T X : Type}

/-- `final_suspend()`: the final awaiter takes the continuation and releases the producer side -/
def finalSuspend (h : Handle) (state : Option (State T X)) (w : World T X) :
    Result T X × World T X :=
  match state with
  | none => (.finished h none none, w)
  | some st => match { st with continuation := none : State T X }.settle with
    | (true, _) => (.gone, { w with destroyed := w.destroyed ++ [h] })
    | (false, st') =>
      (.finished h st.continuation (some st'), { w with finished := w.finished ++ [(h, st')] })

/-- a body up to its first suspension or its end -/
def exec : Body T X → Locals (Fut T X) T X → World T X → Result T X × World T X
  | .coReturn o, fr, w => finalSuspend fr.id (fr.state.map (·.setOutcome o)) (w.leave fr)
  | .start child k, fr, w =>
    match exec child ⟨w.next, some .fresh, [], false⟩ { w with next := w.next + 1 } with
    | (.finished h _ (some st), w) => exec k { fr with held := fr.held ++ [.ready h st] } w
    | (.suspended os l p, w) => exec k { fr with held := fr.held ++ [.waiting os l p] } w
    | (.aborted, w) => (.aborted, w)
    | (_, w) => (.undefined, w)
  | .adopt ready k, fr, w =>
    exec k { fr with held := fr.held ++ [.promised (ready.elim .fresh .settledWith)] } w
  | .await i k, fr, w => match fr.held[i]? with
    | none => (.undefined, w)
    | some (.ready h st) => match st.awaitResume with
      | none => (.aborted, w)
      | some r => exec (k r) { fr with held := fr.held.eraseIdx i } (w.release (.ready h st))
    | some (.promised st) =>
      if st.hasResult then match st.awaitResume with
        | none => (.aborted, w)
        | some r => exec (k r) { fr with held := fr.held.eraseIdx i } (w.release (.promised st))
      else (.suspended [] ⟨{ fr with held := fr.held.eraseIdx i }, k⟩ (st.register fr.id), w)
    | some (.waiting os l p) =>
      let chain := Level.registerAll fr.id os l
      (.suspended (⟨{ fr with held := fr.held.eraseIdx i }, k⟩ :: chain.1) chain.2 p, w)
  | .drop i k, fr, w => match fr.held[i]? with
    | none => (.undefined, w)
    | some f => exec k { fr with held := fr.held.eraseIdx i } (w.release f)
  | .take k, fr, w =>
    if w.owned then exec k { fr with promise := true } { w with owned := false }
    else (.undefined, w)
  | .settle o k, fr, w =>
    if fr.promise then exec k { fr with promise := false } (w.settle o) else (.undefined, w)

/-- the continuation of a state is resumed: `co_await` ends, and its future with it -/
def Level.goOn (l : Level (Fut T X) T X) (cont : Option Handle) (f : Fut T X) (st : State T X)
    (w : World T X) : Result T X × World T X :=
  if cont = some l.locals.id then match st.awaitResume with
    | none => (.aborted, w)
    | some r => exec (l.k r) l.locals (w.release f)
  else (.undefined, w)

/-- the drain, when `p` is ready: the innermost coroutine is resumed, and whoever finishes resumes
its continuation -/
def resume (inner : Level (Fut T X) T X) (p : State T X) (w : World T X) :
    List (Level (Fut T X) T X) → Result T X × World T X
  | [] => inner.goOn p.continuation (.promised p) p w
  | o :: os => match resume inner p w os with
    | (.finished h cont (some st), w) => o.goOn cont (.ready h st) st w
    | (.suspended os l p, w) => (.suspended (o :: os) l p, w)
    | (.aborted, w) => (.aborted, w)
    | (_, w) => (.undefined, w)

/-- the awaited states become ready one after the other, and the actor is driven each time -/
def drains : Result T X × World T X → List (Outcome T X) → Result T X × World T X
  | r, [] => r
  | (.suspended os l p, w), o :: rest => drains (resume l (p.setOutcome o).settle.2 w os) rest
  | r, _ :: _ => r

/-! ## a message -/

variable (void : T)

/-- `dispatch()` from its `co_await` on: `set_value`, or the `catch` -/
def dispatchEnd : Except X T → Body T X
  | .ok v => .settle (.value v) (.coReturn (.value void))
  | .error ep => .settle (.exception ep) (.coReturn (.value void))

/-- `dispatch(this, &method, msg)`; `void` is the value of a `unique_future<void>` -/
def dispatch (method : Body T X) : Body T X :=
  .take (.start method (.await 0 (dispatchEnd void)))

def behaviorEnd : Except X T → Body T X
  | .ok _ => .coReturn (.value void)
  | .error ep => .coReturn (.exception ep)

/-- `behavior(msg)`: `co_await dispatch(this, &method, msg)` -/
def behavior (method : Body T X) : Body T X :=
  .start (dispatch void method) (.await 0 (behaviorEnd void))

/-- `current_behavior_ = behavior(msg)` in `resume_impl`, and the end of the message -/
def handle (method : Body T X) (w : World T X) : Result T X × World T X :=
  match exec (behavior void method) ⟨w.next, none, [], false⟩ { w with next := w.next + 1 } with
  | (r, w) => (r, w.endMessage)

end

section
open StateFlags
variable {T X : Type}

/-- the same, in a coroutine whose state has a continuation -/
def Result.register (h : Handle) : Result T X → Result T X
  | .finished i _ (some st) => .finished i (some h) (some st)
  | .suspended os l p => .suspended (Level.registerAll h os l).1 (Level.registerAll h os l).2 p
  | r => r

theorem finalSuspend_register (h i : Handle) (st : Option (State T X)) (o : Outcome T X)
    (w : World T X) :
    finalSuspend i ((st.map (State.register h)).map fun st => st.setOutcome o) w =
      ((finalSuspend i (st.map fun st => st.setOutcome o) w).1.register h,
        (finalSuspend i (st.map fun st => st.setOutcome o) w).2) := by
  cases st with
  | none => rfl
  | some st =>
    have hsame : ({ (st.register h).setOutcome o with continuation := none } : State T X)
        = { st.setOutcome o with continuation := none } := by
      cases o <;> rfl
    have hcont : ((st.register h).setOutcome o).continuation = some h := by
      cases o <;> rfl
    unfold finalSuspend
    dsimp only [Option.map_some]
    rw [hsame, hcont]
    rcases ({ st.setOutcome o with continuation := none } : State T X).settle with ⟨d, st'⟩
    cases d <;> rfl

/-- whoever awaits a coroutine learns of its end by the continuation, and the coroutine does
nothing else with it -/
theorem exec_register (h : Handle) (b : Body T X) : ∀ (fr : Locals (Fut T X) T X) (w : World T X),
    exec b (fr.register h) w = ((exec b fr w).1.register h, (exec b fr w).2) := by
  induction b with
  | coReturn o =>
    intro fr w
    exact finalSuspend_register h fr.id fr.state o (w.leave fr)
  | start child k _ ihk =>
    intro fr w
    simp only [exec]
    rcases exec child ⟨w.next, some .fresh, [], false⟩ { w with next := w.next + 1 } with ⟨r, w'⟩
    rcases r with ⟨i, c, _ | st⟩ | _ | ⟨os, l, p⟩ | _ | _
    · rfl
    · exact ihk { fr with held := fr.held ++ [.ready i st] } w'
    · rfl
    · exact ihk { fr with held := fr.held ++ [.waiting os l p] } w'
    · rfl
    · rfl
  | adopt ready k ihk =>
    intro fr w
    exact ihk { fr with held := fr.held ++ [.promised (ready.elim .fresh .settledWith)] } w
  | await i k ihk =>
    intro fr w
    simp only [exec]
    rw [show (fr.register h).held = fr.held from rfl]
    rcases fr.held[i]? with _ | ⟨j, st⟩ | ⟨os, l, p⟩ | st
    · rfl
    · dsimp only
      rcases st.awaitResume with _ | r
      · rfl
      · exact ihk r { fr with held := fr.held.eraseIdx i } _
    · rfl
    · dsimp only
      by_cases hr : st.hasResult = true
      · rw [if_pos hr, if_pos hr]
        rcases st.awaitResume with _ | r
        · rfl
        · exact ihk r { fr with held := fr.held.eraseIdx i } _
      · rw [if_neg hr, if_neg hr]
        rfl
  | drop i k ihk =>
    intro fr w
    simp only [exec]
    rw [show (fr.register h).held = fr.held from rfl]
    rcases fr.held[i]? with _ | f
    · rfl
    · exact ihk { fr with held := fr.held.eraseIdx i } _
  | take k ihk =>
    intro fr w
    simp only [exec]
    by_cases ho : w.owned = true
    · rw [if_pos ho, if_pos ho]
      exact ihk { fr with promise := true } _
    · rw [if_neg ho, if_neg ho]
      rfl
  | settle o k ihk =>
    intro fr w
    simp only [exec]
    rw [show (fr.register h).promise = fr.promise from rfl]
    by_cases hp : fr.promise = true
    · rw [if_pos hp, if_pos hp]
      exact ihk { fr with promise := false } _
    · rw [if_neg hp, if_neg hp]
      rfl

theorem goOn_register (h : Handle) (l : Level (Fut T X) T X) (cont : Option Handle) (f : Fut T X)
    (st : State T X) (w : World T X) :
    (l.register h).goOn cont f st w = ((l.goOn cont f st w).1.register h, (l.goOn cont f st w).2) := by
  unfold Level.goOn
  show (if cont = some l.locals.id then _ else _) = _
  split
  · split
    · rfl
    · exact exec_register h _ l.locals _
  · rfl

theorem resume_register (h : Handle) (os : List (Level (Fut T X) T X)) (l : Level (Fut T X) T X)
    (p : State T X) (w : World T X) :
    resume (Level.registerAll h os l).2 p w (Level.registerAll h os l).1 =
      ((resume l p w os).1.register h, (resume l p w os).2) := by
  cases os with
  | nil => exact goOn_register h l _ _ _ w
  | cons o os =>
    show resume l p w (o.register h :: os) = _
    simp only [resume]
    split
    · exact goOn_register h o _ _ _ _
    · rfl
    · rfl
    · rfl

/-- `co_await self->method()`, in a coroutine that holds no other future: the rest of it, given
what the method did -/
def awaited (fr : Locals (Fut T X) T X) (k : Except X T → Body T X) :
    Result T X × World T X → Result T X × World T X
  | (.finished h _ (some st), w) => match st.awaitResume with
    | none => (.aborted, w)
    | some r => exec (k r) fr (w.release (.ready h st))
  | (.suspended os l p, w) =>
    (.suspended (⟨fr, k⟩ :: (Level.registerAll fr.id os l).1) (Level.registerAll fr.id os l).2 p, w)
  | (.aborted, w) => (.aborted, w)
  | (_, w) => (.undefined, w)

theorem exec_call (child : Body T X) (k : Except X T → Body T X) {fr : Locals (Fut T X) T X}
    (hfr : fr.held = []) (w : World T X) : exec (.start child (.await 0 k)) fr w =
      awaited fr k (exec child ⟨w.next, some .fresh, [], false⟩ { w with next := w.next + 1 }) := by
  obtain ⟨id, state, held, promise⟩ := fr
  have hfr : held = [] := hfr
  subst hfr
  simp only [exec]
  rcases exec child ⟨w.next, some .fresh, [], false⟩ { w with next := w.next + 1 } with ⟨r, w'⟩
  rcases r with ⟨i, c, _ | st⟩ | _ | ⟨os, l, p⟩ | _ | _ <;> rfl

/-- a coroutine that awaits a suspended method goes on when the method returned -/
theorem resume_awaited (fr : Locals (Fut T X) T X) (k : Except X T → Body T X)
    (os : List (Level (Fut T X) T X)) (l : Level (Fut T X) T X) (p : State T X) (w : World T X) :
    resume (Level.registerAll fr.id os l).2 p w (⟨fr, k⟩ :: (Level.registerAll fr.id os l).1) =
      awaited fr k (resume l p w os) := by
  simp only [resume]
  rw [resume_register]
  rcases resume l p w os with ⟨r, w'⟩
  rcases r with ⟨i, c, _ | st⟩ | _ | ⟨us, u, q⟩ | _ | _
  · rfl
  · show (if some fr.id = some fr.id then _ else _) = _
    rw [if_pos rfl]
    rfl
  · rfl
  · rfl
  · rfl
  · rfl

def Result.isSuspended : Result T X → Bool
  | .suspended _ _ _ => true
  | _ => false

theorem drains_of_not_suspended {R : Result T X × World T X} (h : R.1.isSuspended = false)
    (rest : List (Outcome T X)) : drains R rest = R := by
  obtain ⟨r, w⟩ := R
  cases rest with
  | nil => rfl
  | cons o rest =>
    cases r with
    | suspended os l p => cases h
    | _ => rfl

theorem drains_append (rest : List (Outcome T X)) (o : Outcome T X) :
    ∀ R : Result T X × World T X, drains R (rest ++ [o]) = drains (drains R rest) [o] := by
  induction rest with
  | nil => exact fun R => rfl
  | cons u rest ih =>
    rintro ⟨r, w⟩
    cases r with
    | suspended os l p => exact ih _
    | _ => rfl

/-- the same, when the states below become ready one after the other and what comes after the
`co_await` does not suspend again -/
theorem drains_awaited {fr : Locals (Fut T X) T X} {k : Except X T → Body T X}
    (hk : ∀ r w, (exec (k r) fr w).1.isSuspended = false) (rest : List (Outcome T X)) :
    ∀ R : Result T X × World T X, drains (awaited fr k R) rest = awaited fr k (drains R rest) := by
  induction rest with
  | nil => exact fun R => rfl
  | cons o rest ih =>
    rintro ⟨r, w⟩
    rcases r with ⟨i, c, _ | st⟩ | _ | ⟨os, l, p⟩ | _ | _
    · rfl
    · have hdone : (awaited fr k (.finished i c (some st), w)).1.isSuspended = false := by
        simp only [awaited]
        rcases st.awaitResume with _ | r
        · rfl
        · exact hk r _
      exact drains_of_not_suspended hdone _
    · rfl
    · show drains (resume _ _ w (⟨fr, k⟩ :: _)) rest = awaited fr k (drains (resume l _ w os) rest)
      rw [resume_awaited]
      exact ih _
    · rfl
    · rfl

/-! ## the state of a coroutine -/

/-- a state that no outcome was written to -/
def State.Blank (st : State T X) : Prop := { st with continuation := none } = State.fresh

theorem blank_fresh : (State.fresh : State T X).Blank := rfl

theorem blank_register (h : Handle) : (State.fresh.register h : State T X).Blank := rfl

/-- what a settled state shows -/
theorem settle_blank {st : State T X} (h : st.Blank) (o : Outcome T X) : (st.setOutcome o).settle =
    (false, { (st.write o : State T X) with flags := o.flag ||| promiseReleased }) := by
  have hempty : st.flags = empty := congrArg State.flags h
  have hfuture : (st.setOutcome o).flags.has futureReleased = false := by
    show ((st.write o).flags ||| o.flag).has futureReleased = false
    rw [State.write_flags, hempty]
    cases o <;> simp [Outcome.flag]
  rw [State.settle_of_hasResult (State.setOutcome_hasResult _ o) hfuture]
  have hflags : (((empty ||| o.flag) ||| promiseFinalizing) ||| promiseReleased)
      &&& ~~~promiseFinalizing = o.flag ||| promiseReleased := by
    rcases o with v | ec | ep <;> simp only [Outcome.flag] <;> decide
  rw [← hempty] at hflags
  cases o <;> exact congrArg _ (congrArg (fun w => State.mk w _ _ _ _) hflags)

theorem settledWith_settle (o : Outcome T X) :
    (State.fresh.setOutcome o : State T X).settle = (false, State.settledWith o) := by
  unfold State.settledWith
  rw [settle_blank blank_fresh]

theorem settledWith_eq (o : Outcome T X) : (State.settledWith o : State T X) =
    { (State.fresh.write o : State T X) with flags := o.flag ||| promiseReleased } := by
  unfold State.settledWith
  rw [settle_blank blank_fresh]

@[simp] theorem awaitResume_value (v : T) :
    (State.settledWith (.value v) : State T X).awaitResume = some (.ok v) := by
  rw [settledWith_eq]
  simp [State.awaitResume, State.rethrowIfException, State.hasError, State.takeValue, State.write,
    Outcome.flag]

@[simp] theorem awaitResume_error (ec : ErrorCode) :
    (State.settledWith (.error ec) : State T X).awaitResume = none := by
  rw [settledWith_eq]
  simp [State.awaitResume, State.rethrowIfException, State.hasError, State.write, State.fresh,
    Outcome.flag]

@[simp] theorem awaitResume_exception (ep : X) :
    (State.settledWith (.exception ep) : State T X).awaitResume = some (.error ep) := by
  rw [settledWith_eq]
  simp [State.awaitResume, State.rethrowIfException, State.write, Outcome.flag]

theorem fresh_hasResult : (State.fresh : State T X).hasResult = false := by
  simp [State.hasResult, State.fresh]

theorem settledWith_hasResult (o : Outcome T X) : (State.settledWith o : State T X).hasResult = true := by
  rw [settledWith_eq]
  cases o <;> simp [State.hasResult, Outcome.flag]

/-- `co_await` of a promise-backed future that is not ready -/
theorem exec_wait (k : Except X T → Body T X) {fr : Locals (Fut T X) T X} (hfr : fr.held = [])
    (w : World T X) : exec (.adopt none (.await 0 k)) fr w =
      (.suspended [] ⟨fr, k⟩ (State.fresh.register fr.id), w) := by
  obtain ⟨id, state, held, promise⟩ := fr
  have hfr : held = [] := hfr
  subst hfr
  simp only [exec]
  show (if (State.fresh : State T X).hasResult = true then _ else _) = _
  rw [fresh_hasResult]
  rfl

/-- and of one that is ready with a value -/
theorem exec_ready (v : T) (k : Except X T → Body T X) {fr : Locals (Fut T X) T X}
    (hfr : fr.held = []) (w : World T X) :
    exec (.adopt (some (.value v)) (.await 0 k)) fr w = exec (k (.ok v)) fr w := by
  obtain ⟨id, state, held, promise⟩ := fr
  have hfr : held = [] := hfr
  subst hfr
  simp only [exec]
  show (if (State.settledWith (.value v) : State T X).hasResult = true then _ else _) = _
  rw [settledWith_hasResult, if_pos rfl]
  show (match (State.settledWith (.value v) : State T X).awaitResume with
    | none => (Result.aborted, w)
    | some r => exec (k r) _ _) = _
  rw [awaitResume_value]
  rfl

/-- the drain, when the state that the innermost coroutine awaits has got a value -/
theorem resume_value (v : T) (l : Level (Fut T X) T X) (w : World T X) :
    resume l (((State.fresh.register l.locals.id).setOutcome (.value v)).settle.2 : State T X) w [] =
      exec (l.k (.ok v)) l.locals w := by
  have hres : (((State.fresh.register l.locals.id).setOutcome (.value v)).settle.2 :
      State T X).awaitResume = some (.ok v) := by
    rw [settle_blank (blank_register _)]
    simp [State.awaitResume, State.rethrowIfException, State.hasError, State.takeValue, State.write,
      Outcome.flag]
  have hcont : (((State.fresh.register l.locals.id).setOutcome (.value v)).settle.2 :
      State T X).continuation = some l.locals.id := by
    rw [settle_blank (blank_register _)]
    rfl
  simp only [resume, Level.goOn]
  rw [hcont, if_pos rfl, hres]
  rfl

theorem finalSuspend_blank {st : State T X} (h : st.Blank) (i : Handle) (o : Outcome T X)
    (w : World T X) : finalSuspend i (some (st.setOutcome o)) w =
      (.finished i st.continuation (some (.settledWith o)),
        { w with finished := w.finished ++ [(i, .settledWith o)] }) := by
  have hsame : ({ st.setOutcome o with continuation := none } : State T X)
      = (State.fresh.setOutcome o) := by
    rw [← h]
    cases o <;> rfl
  have hcont : (st.setOutcome o).continuation = st.continuation := by
    cases o <;> rfl
  unfold finalSuspend
  dsimp only
  rw [hsame, settledWith_settle, hcont]

/-- the coroutine `i`, whose state is `st` until it returns -/
def Result.Of (i : Handle) (st : State T X) : Result T X → Prop
  | .finished h c s => h = i ∧ c = st.continuation ∧ ∃ o, s = some (.settledWith o)
  | .suspended os l _ => (os.headD l).locals.id = i ∧ (os.headD l).locals.state = some st
  | _ => True

theorem exec_of {i : Handle} {st : State T X} (hst : st.Blank) (b : Body T X) :
    ∀ (fr : Locals (Fut T X) T X) (w : World T X), fr.id = i → fr.state = some st →
      (exec b fr w).1.Of i st := by
  induction b with
  | coReturn o =>
    intro fr w hi hs
    simp only [exec]
    rw [hs, Option.map_some, finalSuspend_blank hst]
    exact ⟨hi, rfl, o, rfl⟩
  | start child k _ ihk =>
    intro fr w hi hs
    simp only [exec]
    rcases exec child ⟨w.next, some .fresh, [], false⟩ { w with next := w.next + 1 } with ⟨r, w'⟩
    rcases r with ⟨i, c, _ | st⟩ | _ | ⟨os, l, p⟩ | _ | _
    · trivial
    · exact ihk { fr with held := fr.held ++ [.ready i st] } w' hi hs
    · trivial
    · exact ihk { fr with held := fr.held ++ [.waiting os l p] } w' hi hs
    · trivial
    · trivial
  | adopt ready k ihk =>
    intro fr w hi hs
    exact ihk { fr with held := fr.held ++ [.promised (ready.elim .fresh .settledWith)] } w hi hs
  | await j k ihk =>
    intro fr w hi hs
    simp only [exec]
    rcases fr.held[j]? with _ | ⟨h, s⟩ | ⟨os, l, p⟩ | s
    · trivial
    · dsimp only
      rcases s.awaitResume with _ | r
      · trivial
      · exact ihk r { fr with held := fr.held.eraseIdx j } _ hi hs
    · exact ⟨hi, hs⟩
    · dsimp only
      by_cases hr : s.hasResult = true
      · rw [if_pos hr]
        rcases s.awaitResume with _ | r
        · trivial
        · exact ihk r { fr with held := fr.held.eraseIdx j } _ hi hs
      · rw [if_neg hr]
        exact ⟨hi, hs⟩
  | drop j k ihk =>
    intro fr w hi hs
    simp only [exec]
    rcases fr.held[j]? with _ | f
    · trivial
    · exact ihk { fr with held := fr.held.eraseIdx j } _ hi hs
  | take k ihk =>
    intro fr w hi hs
    simp only [exec]
    by_cases ho : w.owned = true
    · rw [if_pos ho]
      exact ihk { fr with promise := true } _ hi hs
    · rw [if_neg ho]
      trivial
  | settle o k ihk =>
    intro fr w hi hs
    simp only [exec]
    by_cases hp : fr.promise = true
    · rw [if_pos hp]
      exact ihk { fr with promise := false } _ hi hs
    · rw [if_neg hp]
      trivial

theorem goOn_of {i : Handle} {st : State T X} (hst : st.Blank) {l : Level (Fut T X) T X}
    (hi : l.locals.id = i) (hs : l.locals.state = some st) (cont : Option Handle) (f : Fut T X)
    (s : State T X) (w : World T X) : (l.goOn cont f s w).1.Of i st := by
  unfold Level.goOn
  split
  · split
    · trivial
    · exact exec_of hst _ l.locals _ hi hs
  · trivial

theorem resume_of {i : Handle} {st : State T X} (hst : st.Blank)
    {os : List (Level (Fut T X) T X)} {l : Level (Fut T X) T X} (hi : (os.headD l).locals.id = i)
    (hs : (os.headD l).locals.state = some st) (p : State T X) (w : World T X) :
    (resume l p w os).1.Of i st := by
  cases os with
  | nil => exact goOn_of hst hi hs _ _ _ w
  | cons o os =>
    simp only [resume]
    split
    · exact goOn_of hst hi hs _ _ _ _
    · exact ⟨hi, hs⟩
    · trivial
    · trivial

theorem drains_of {i : Handle} {st : State T X} (hst : st.Blank) (rest : List (Outcome T X)) :
    ∀ R : Result T X × World T X, R.1.Of i st → (drains R rest).1.Of i st := by
  induction rest with
  | nil => exact fun R h => h
  | cons o rest ih =>
    rintro ⟨r, w⟩ h
    cases r with
    | suspended os l p => exact ih _ (resume_of hst h.1 h.2 _ w)
    | _ => exact h

end

end ActorZeta
