import ActorZeta.SharedState.Fate
import ActorZeta.Coroutine.Frame

/-!
# One `co_await` on one state

The consumer of a state, the drain of its actor and the producer of the state, one atomic access
at a time.  The consumer, the drain and a method coroutine that makes the result all run on the
thread that holds `running`, so only one of them is inside a function at any moment; the producer
of a promise-backed state is on another thread, and its steps fall anywhere.

* `Turn`             what the thread that holds `running` is doing;
* `Suspension.step`  one step of anybody;
* `Shape`            who has the consumer's handle, for every turn;
* `resumed_once`     a suspended consumer is resumed once, and not before there is a result.
-/

namespace ActorZeta
open StateFlags

/-- What the thread that holds `running` is doing: nothing here; `propagate_awaited_state()`,
`await_ready()`, the compare-exchange, the second look and the exchange of `await_suspend()`; the
load and the exchange of the drain; the body and the final awaiter of a method coroutine; resuming
a handle. -/
inductive Turn where
  | idle
  | transforming
  | readying
  | registering
  | rechecking
  | exchanging
  | polling
  | taking
  | producing
  | resuming
  deriving DecidableEq, Repr

/-- where the consumer is with this state -/
inductive Awaiter where
  | before
  | inside
  | suspended
  | resumed
  | gone
  deriving DecidableEq, Repr

/-- A state, its producer and its consumer.  With the exit `finalAwaiter` the producer is a method
coroutine, on the thread of the consumer.  `awaitedFlags`: the pointer the drain reads; `inHand`:
the handle in a local variable of the thread that holds `running`; `resumes` counts the
resumptions of a suspended consumer, `early` is set by one without a result, `misused` by one of a
coroutine that is not suspended. -/
structure Suspension (T X : Type) where
  exit : Exit
  self : Handle
  mem : Mem T X
  prod : Producer T X
  turn : Turn
  place : Awaiter
  awaitedFlags : Bool
  inHand : Option Handle
  resumes : Nat
  early : Bool
  misused : Bool
  deriving DecidableEq

/-- who moves: the consumer reaches its `co_await`, the driver begins a drain pass, the producer
takes a step, the producing coroutine gets the thread or suspends, the consumer drops the future,
the thread goes on with what it is doing -/
inductive SuspAct where
  | await
  | drain
  | produce
  | enter
  | leave
  | release
  | go
  deriving DecidableEq, Repr

/-- the final awaiter has taken the continuation -/
def Producer.claimed {T X : Type} : Producer T X → Bool
  | .writing _ _ | .publishing _ _ | .claiming => false
  | _ => true

/-- about to deallocate -/
def Producer.frees {T X : Type} : Producer T X → Bool
  | .relDealloc | .finDealloc => true
  | _ => false

/-- the last step was taken -/
def Producer.isDone {T X : Type} : Producer T X → Bool
  | .done _ _ => true
  | _ => false

namespace Suspension
variable {T X : Type}

def init (exit : Exit) (own : Option (Outcome T X)) (self : Handle) : Suspension T X :=
  ⟨exit, self, .fresh, .start exit (Race.outcomes exit own), .idle, .before, false, none, 0, false,
    false⟩

/-- the producer took a step; the final awaiter keeps what it took from `continuation_`, and
transfers to it at the end if the state is still there -/
def produced (c : Suspension T X) (mem : Mem T X) (prod : Producer T X) : Suspension T X :=
  if c.exit = .finalAwaiter then
    let inHand := match c.prod with
      | .claiming => c.mem.st.continuation
      | _ => c.inHand
    match prod with
    | .done true _ | .done _ (some false) =>
      { c with mem := mem, prod := prod, inHand := none, turn := .idle }
    | .done _ _ => { c with
        mem := mem, prod := prod, inHand := inHand
        turn := if inHand.isSome then .resuming else .idle }
    | _ => { c with mem := mem, prod := prod, inHand := inHand }
  else { c with mem := mem, prod := prod }

/-- `continuation_.exchange(nullptr)`, and whoever was there is resumed -/
def exchange (c : Suspension T X) : Suspension T X := { c with
  inHand := c.mem.takeContinuation.1
  mem := c.mem.takeContinuation.2
  turn := if c.mem.takeContinuation.1.isSome then .resuming else .idle }

/-- `handle.resume()`; the consumer goes on in `await_resume()`, which clears the chain -/
def resume (c : Suspension T X) : Suspension T X :=
  if c.inHand = some c.self ∧ c.place = .suspended then { c with
    inHand := none, turn := .idle, place := .resumed, awaitedFlags := false
    resumes := c.resumes + 1, early := c.early || !c.mem.st.hasResult }
  else { c with inHand := none, turn := .idle, misused := true }

/-- the thread goes on -/
def go (c : Suspension T X) : Option (Suspension T X) :=
  match c.turn with
  | .idle | .producing => none
  | .transforming => some { c with
      mem := c.mem.load, awaitedFlags := !c.mem.st.hasResult, turn := .readying }
  | .readying => some (if c.mem.st.hasResult then { c with
        mem := c.mem.load, turn := .idle, place := .resumed, awaitedFlags := false }
      else { c with
        mem := c.mem.load, turn := .registering, place := .suspended, inHand := some c.self })
  | .registering => some (match c.mem.st.continuation with
    | none => { c with
        mem := c.mem.access ({ · with continuation := some c.self })
        inHand := none, turn := .rechecking }
    -- a second `co_await` on one future: the assertion, and without it an immediate resumption
    | some _ => { c with mem := c.mem.load, turn := .resuming })
  | .rechecking => some { c with
      mem := c.mem.load, turn := if c.mem.st.hasResult then .exchanging else .idle }
  | .exchanging => some c.exchange
  | .polling => some { c with
      mem := c.mem.load, turn := if c.mem.st.isReady then .taking else .idle }
  | .taking => some c.exchange
  | .resuming => some c.resume

def step (c : Suspension T X) : SuspAct → Option (Suspension T X)
  | .await => if c.turn = .idle ∧ c.place = .before then
      some { c with turn := .transforming, place := .inside } else none
  | .drain => if c.turn = .idle ∧ c.awaitedFlags = true then
      some { c with turn := .polling } else none
  | .enter => if c.exit = .finalAwaiter ∧ c.turn = .idle ∧ c.prod.claimed = false then
      some { c with turn := .producing } else none
  | .leave => match c.prod with
    | .writing _ _ => if c.turn = .producing then some { c with turn := .idle } else none
    | _ => none
  | .produce => if c.exit = .finalAwaiter ∧ c.turn ≠ .producing then none
      else (c.prod.step c.exit c.mem).map fun p => c.produced p.1 p.2
  | .release => if c.turn = .idle ∧ (c.place = .before ∨ c.place = .resumed) then
      some { c with mem := c.mem.releaseFuture, place := .gone } else none
  | .go => c.go

end Suspension

/-! ## what the producer does to the state -/

namespace Producer
variable {T X : Type}

/-- `promise_released` comes with a result, and every place after it has it -/
structure Sound (p : Producer T X) (st : State T X) : Prop where
  ready : st.isReady = true → st.hasResult = true
  released : p.released = true → st.isReady = true
  bits : ∀ bits, p = .relOr bits →
    bits = promiseReleased ∧ st.hasResult = true ∨ bits = promiseReleased ||| errorSet
  frees : p.frees = true → st.flags.has futureReleased = true

/-- what a step of the producer keeps of the state -/
structure Kept (p : Producer T X) (st st' : State T X) : Prop where
  result : st.hasResult = true → st'.hasResult = true
  future : st'.flags.has futureReleased = st.flags.has futureReleased
  continuation : p ≠ .claiming → st'.continuation = st.continuation

variable {exit : Exit} {m : Mem T X} {p : Producer T X} {st st' : State T X}

theorem start_sound {todo : List (Outcome T X)} (h : st.isReady = true → st.hasResult = true) :
    (start exit todo).Sound st := by
  refine ⟨h, fun hr => ?_, fun bits hb => ?_, fun hf => ?_⟩
  · rw [Race.start_released] at hr
    cases hr
  · cases todo <;> cases exit <;> cases hb
  · cases todo <;> cases exit <;> cases hf

/-- a step that leaves the flags -/
theorem Sound.flags {q : Producer T X} (h : p.Sound st) (hf : st'.flags = st.flags)
    (hr : q.released = true → p.released = true) (hb : ∀ bits, q = .relOr bits →
      bits = promiseReleased ∧ st.hasResult = true ∨ bits = promiseReleased ||| errorSet)
    (hd : q.frees = true → st.flags.has futureReleased = true) : q.Sound st' := by
  have hready : st'.isReady = st.isReady := congrArg (Word.has · promiseReleased) hf
  have hres : st'.hasResult = st.hasResult := congrArg (Word.has · resultSet) hf
  refine ⟨?_, ?_, ?_, ?_⟩
  · rw [hready, hres]
    exact h.ready
  · rw [hready]
    exact fun hq => h.released (hr hq)
  · rw [hres]
    exact hb
  · rw [hf]
    exact hd

/-- a `fetch_or` of `o` before the release -/
theorem Sound.publish {exit : Exit} {o : Word} {todo : List (Outcome T X)} (h : p.Sound st)
    (ho : o.has promiseReleased = false) : (start exit todo).Sound (st.fetchOr o) := by
  refine start_sound fun hr => ?_
  have hr : (st.flags ||| o).has promiseReleased = true := hr
  rw [Word.has_or, ho, Bool.or_false] at hr
  show (st.flags ||| o).has resultSet = true
  rw [Word.has_or, show st.flags.has resultSet = true from h.ready hr, Bool.true_or]

theorem kept_or {o : Word} (ho : o.has futureReleased = false) : p.Kept st (st.fetchOr o) := by
  refine ⟨fun hr => ?_, ?_, fun _ => rfl⟩
  · show (st.flags ||| o).has resultSet = true
    rw [Word.has_or, show st.flags.has resultSet = true from hr, Bool.true_or]
  · show (st.flags ||| o).has futureReleased = _
    rw [Word.has_or, ho, Bool.or_false]

/-- `promise_finalizing` is cleared after the release -/
theorem Sound.clear {q : Producer T X} (h : p.Sound st) (hq : q.released = true → p.released = true)
    (hb : ∀ bits, q ≠ .relOr bits) (hd : q.frees = false) : q.Sound (st.fetchAnd (~~~promiseFinalizing)) := by
  have hready : (st.fetchAnd (~~~promiseFinalizing)).isReady = st.isReady :=
    Word.has_clear_other (by decide) _
  have hres : (st.fetchAnd (~~~promiseFinalizing)).hasResult = st.hasResult :=
    Word.has_clear_other (by decide) _
  refine ⟨?_, ?_, fun bits he => absurd he (hb bits), fun hf => absurd (hd.symm.trans hf) (by simp)⟩
  · rw [hready, hres]
    exact h.ready
  · rw [hready]
    exact fun hr => h.released (hq hr)

theorem kept_clear : p.Kept st (st.fetchAnd (~~~promiseFinalizing)) := by
  refine ⟨fun hr => ?_, by simp, fun _ => rfl⟩
  show (st.flags &&& ~~~promiseFinalizing).has resultSet = true
  rw [Word.has_clear_other (by decide)]
  exact hr

/-- **One step of a producer**: its outcome and the release stay, and it leaves the future's bit and
the continuation alone. -/
theorem Sound.step (h : p.Sound m.st) {r : Mem T X × Producer T X}
    (hs : p.step exit m = some r) : r.2.Sound r.1.st ∧ p.Kept m.st r.1.st := by
  have hsame : p.Kept m.st m.st := ⟨id, rfl, fun _ => rfl⟩
  cases p <;> simp only [Producer.step] at hs
  case writing o todo =>
    cases hs
    refine ⟨h.flags (State.write_flags m.st o) (fun hq => (by cases hq)) (fun _ hb => (by cases hb))
      fun hf => (by cases hf), fun hr => ?_, ?_, fun _ => ?_⟩
    · show (m.st.write o).flags.has resultSet = true
      rw [State.write_flags]
      exact hr
    · show (m.st.write o).flags.has futureReleased = _
      rw [State.write_flags]
    · cases o <;> rfl
  case publishing o todo =>
    cases hs
    exact ⟨h.publish (Outcome.flag_has o).1, kept_or (Outcome.flag_has o).2.1⟩
  case claiming =>
    cases hs
    exact ⟨h.flags rfl (fun hq => (by cases hq)) (fun _ hb => (by cases hb)) fun hf => (by cases hf),
      id, rfl, fun hn => absurd rfl hn⟩
  case finalizing =>
    cases hs
    have hor : (start .cleanup []).Sound (m.st.fetchOr promiseFinalizing) := h.publish (by simp)
    exact ⟨hor, kept_or (by simp)⟩
  case relLoad =>
    cases hs
    refine ⟨h.flags rfl (fun hq => ?_) (fun bits hb => ?_) fun hf => ?_, hsame⟩
    · split at hq <;> cases hq
    · split at hb
      · rename_i hres
        cases hb
        exact Or.inl ⟨rfl, hres⟩
      · cases hb
    · split at hf <;> cases hf
  case relError =>
    cases hs
    exact ⟨h.flags rfl (fun hq => (by cases hq)) (fun _ hb => Or.inr (by cases hb; rfl))
      fun hf => (by cases hf), id, rfl, fun _ => rfl⟩
  case relOr bits =>
    cases hs
    have hfut : bits.has futureReleased = false := by
      rcases h.bits bits rfl with ⟨rfl, -⟩ | rfl <;> simp
    have hprom : bits.has promiseReleased = true := by
      rcases h.bits bits rfl with ⟨rfl, -⟩ | rfl <;> simp
    have hres : (m.st.fetchOr bits).hasResult = true := by
      show (m.st.flags ||| bits).has resultSet = true
      rcases h.bits bits rfl with ⟨-, hr⟩ | rfl
      · rw [Word.has_or, show m.st.flags.has resultSet = true from hr, Bool.true_or]
      · simp
    have hready : (m.st.fetchOr bits).isReady = true := by
      show (m.st.flags ||| bits).has promiseReleased = true
      rw [Word.has_or, hprom, Bool.or_true]
    refine ⟨⟨fun _ => hres, fun _ => hready, fun b hb => ?_, fun hf => ?_⟩, kept_or hfut⟩
    · split at hb
      · cases hb
      · cases exit <;> cases hb
    · show (m.st.flags ||| bits).has futureReleased = true
      split at hf
      · rename_i hrel
        rw [Word.has_or, hrel, Bool.true_or]
      · cases exit <;> cases hf
  case relDealloc =>
    cases hs
    exact ⟨h.flags rfl (fun _ => rfl) (fun _ hb => (by cases hb)) fun hf => (by cases hf), hsame⟩
  case finLoad =>
    cases hs
    exact ⟨h.flags rfl (fun _ => rfl) (fun _ hb => (by cases hb)) fun hf => (by cases hf), hsame⟩
  case finCas current =>
    split at hs
    · rename_i heq
      cases hs
      show (Producer.done false (some true)).Sound { m.st with flags := _ } ∧
        Kept _ m.st { m.st with flags := _ }
      rw [← heq]
      exact ⟨h.clear (fun _ => rfl) (fun _ hb => (by cases hb)) rfl, kept_clear⟩
    · split at hs
      · rename_i hrel
        cases hs
        exact ⟨h.flags rfl (fun _ => rfl) (fun _ hb => (by cases hb)) fun _ => hrel, hsame⟩
      · cases hs
        exact ⟨h.flags rfl (fun _ => rfl) (fun _ hb => (by cases hb)) fun hf => (by cases hf), hsame⟩
  case finDealloc =>
    cases hs
    exact ⟨h.flags rfl (fun _ => rfl) (fun _ hb => (by cases hb)) fun hf => (by cases hf), hsame⟩
  case finAnd =>
    cases hs
    exact ⟨h.clear (fun _ => rfl) (fun _ hb => (by cases hb)) rfl, kept_clear⟩
  case done d f => cases hs

theorem start_claiming (he : exit ≠ .finalAwaiter) (todo : List (Outcome T X)) :
    start exit todo ≠ .claiming := by
  intro hs
  cases todo with
  | cons o os => cases hs
  | nil =>
    cases exit with
    | finalAwaiter => exact he rfl
    | settle => cases hs
    | cleanup => cases hs

/-- only a coroutine takes a continuation -/
theorem step_claiming (he : exit ≠ .finalAwaiter) {r : Mem T X × Producer T X}
    (hs : p.step exit m = some r) : r.2 ≠ .claiming := by
  cases p <;> simp only [step] at hs
  case publishing o todo =>
    cases hs
    exact start_claiming he todo
  case relLoad =>
    cases hs
    show (if m.st.flags.has resultSet = true then _ else _) ≠ claiming
    split <;> simp
  case relOr bits =>
    cases hs
    show (if m.st.flags.has futureReleased = true then _ else afterRelease exit) ≠ claiming
    split
    · simp
    · cases exit <;> simp [afterRelease]
  case finCas current =>
    split at hs
    · cases hs
      simp
    · split at hs <;> cases hs <;> simp
  all_goals
    first
    | cases hs; simp
    | cases hs

/-- the final awaiter takes the continuation first, keeps it to its end, and deallocates nothing that
the consumer still holds -/
theorem step_final {r : Mem T X × Producer T X} (hp : p.Sound m.st)
    (hs : p.step .finalAwaiter m = some r) :
    (p ≠ .claiming → r.2.claimed = p.claimed) ∧
      (p = .claiming → r.2 = .finalizing ∧ r.1.st.continuation = none) ∧
      (r.2.isDone = true → p.claimed = true ∧ (r.2 = .done false (some true) ∨
        m.st.flags.has futureReleased = true ∧
          ((∃ f, r.2 = .done true f) ∨ ∃ d, r.2 = .done d (some false)))) := by
  cases p <;> simp only [step] at hs
  case publishing o todo =>
    cases hs
    refine ⟨fun _ => ?_, fun he => (by cases he), fun hd => ?_⟩
    · cases todo <;> rfl
    · cases todo <;> cases hd
  case claiming =>
    cases hs
    exact ⟨fun hn => absurd rfl hn, fun _ => ⟨rfl, rfl⟩, fun hd => (by cases hd)⟩
  case relLoad =>
    cases hs
    refine ⟨fun _ => ?_, fun he => (by cases he), fun hd => ?_⟩
    · show Producer.claimed (if m.st.flags.has resultSet = true then _ else _) = true
      split <;> rfl
    · split at hd <;> cases hd
  case relOr bits =>
    cases hs
    refine ⟨fun _ => ?_, fun he => (by cases he), fun hd => ?_⟩
    · show Producer.claimed (if m.st.flags.has futureReleased = true then _ else _) = true
      split <;> rfl
    · split at hd <;> cases hd
  case finCas current =>
    split at hs
    · cases hs
      exact ⟨fun _ => rfl, fun he => (by cases he), fun _ => ⟨rfl, Or.inl rfl⟩⟩
    · split at hs <;> cases hs <;>
        exact ⟨fun _ => rfl, fun he => (by cases he), fun hd => (by cases hd)⟩
  case relDealloc =>
    cases hs
    exact ⟨fun _ => rfl, fun he => (by cases he),
      fun _ => ⟨rfl, Or.inr ⟨hp.frees rfl, Or.inl ⟨none, rfl⟩⟩⟩⟩
  case finDealloc =>
    cases hs
    exact ⟨fun _ => rfl, fun he => (by cases he),
      fun _ => ⟨rfl, Or.inr ⟨hp.frees rfl, Or.inr ⟨false, rfl⟩⟩⟩⟩
  case finAnd =>
    cases hs
    exact ⟨fun _ => rfl, fun he => (by cases he), fun _ => ⟨rfl, Or.inl rfl⟩⟩
  case done d f => cases hs
  all_goals
    cases hs
    exact ⟨fun _ => rfl, fun he => (by cases he), fun hd => (by cases hd)⟩

end Producer

/-! ## who has the handle -/

namespace Suspension
variable {T X : Type}

/-- nobody is inside a function: a suspended consumer is in `continuation_` -/
def Parked (c : Suspension T X) : Prop :=
  c.place ≠ .inside ∧ c.inHand = none ∧
    c.mem.st.continuation = if c.place = .suspended then some c.self else none

/-- the handle is in a local variable -/
def InHand (c : Suspension T X) : Prop :=
  c.place = .suspended ∧ c.mem.st.continuation = none ∧ c.inHand = some c.self

/-- the final awaiter has taken the continuation -/
def Claimed (c : Suspension T X) : Prop :=
  c.place ≠ .inside ∧ c.mem.st.continuation = none ∧
    c.inHand = if c.place = .suspended then some c.self else none

/-- where the handle of the consumer is, for every turn -/
def Shape (c : Suspension T X) : Prop :=
  match c.turn with
  | .idle => c.Parked
  | .transforming | .readying =>
    c.place = .inside ∧ c.mem.st.continuation = none ∧ c.inHand = none
  | .registering => c.InHand
  | .rechecking | .polling => c.place = .suspended ∧ c.Parked
  | .exchanging | .taking => c.place = .suspended ∧ c.Parked ∧ c.mem.st.hasResult = true
  | .producing => c.exit = .finalAwaiter ∧ c.prod.isDone = false ∧
      if c.prod.claimed then c.Claimed else c.Parked
  | .resuming => c.InHand ∧ c.mem.st.hasResult = true

structure Inv (c : Suspension T X) : Prop where
  sound : c.prod.Sound c.mem.st
  open_ : c.mem.st.flags.has futureReleased = true → c.place = .gone
  thread : c.exit ≠ .finalAwaiter → c.prod ≠ .claiming
  shape : c.Shape
  looked : c.turn = .readying → c.awaitedFlags = false → c.mem.st.hasResult = true
  awaited : c.place ≠ .inside → (c.awaitedFlags = true ↔ c.place = .suspended)
  once : c.resumes ≤ 1
  fresh : c.place = .before ∨ c.place = .inside ∨ c.place = .suspended → c.resumes = 0
  early : c.early = false
  misused : c.misused = false

theorem inv_init (exit : Exit) (own : Option (Outcome T X)) (self : Handle) :
    Inv (init exit own self) := by
  refine ⟨Producer.start_sound fun hr => ?_, fun hf => ?_, fun _ => ?_, ?_, fun ht => ?_, fun _ => ?_,
    Nat.zero_le 1, fun _ => rfl, rfl, rfl⟩
  · simp [State.fresh, Mem.fresh, init, State.isReady] at hr
  · simp [State.fresh, Mem.fresh, init] at hf
  · exact Producer.start_claiming ‹_› _
  · exact ⟨by simp [init], rfl, rfl⟩
  · cases ht
  · simp [init]

variable {c d : Suspension T X}

/-- the shape is about the consumer and its handle; a result can only appear -/
theorem Shape.mono {mem : Mem T X} {prod : Producer T X} (h : c.Shape)
    (ht : c.exit ≠ .finalAwaiter) (hc : mem.st.continuation = c.mem.st.continuation)
    (hr : c.mem.st.hasResult = true → mem.st.hasResult = true) :
    Shape { c with mem := mem, prod := prod } := by
  unfold Shape Parked InHand Claimed at h ⊢
  dsimp only at h ⊢
  rw [hc]
  cases hturn : c.turn <;> rw [hturn] at h
  case exchanging => exact ⟨h.1, h.2.1, hr h.2.2⟩
  case taking => exact ⟨h.1, h.2.1, hr h.2.2⟩
  case producing => exact absurd h.1 ht
  case resuming => exact ⟨h.1, hr h.2⟩
  all_goals exact h

/-- a producer on another thread -/
theorem Inv.elsewhere (h : Inv c) (ht : c.exit ≠ .finalAwaiter) {r : Mem T X × Producer T X}
    (hs : c.prod.step c.exit c.mem = some r) : Inv (c.produced r.1 r.2) := by
  obtain ⟨hsound, hkept⟩ := h.sound.step hs
  have heq : c.produced r.1 r.2 = { c with mem := r.1, prod := r.2 } := if_neg ht
  rw [heq]
  exact ⟨hsound, fun hf => h.open_ (hkept.future ▸ hf), fun _ => Producer.step_claiming ht hs,
    h.shape.mono ht (hkept.continuation (h.thread ht)) hkept.result,
    fun hr hl => hkept.result (h.looked hr hl), h.awaited, h.once, h.fresh, h.early, h.misused⟩

/-- the consumer stays where it is -/
theorem Inv.stays (h : Inv c) {mem : Mem T X} {prod : Producer T X} {i : Option Handle}
    {turn : Turn} (hs : prod.Sound mem.st)
    (hf : mem.st.flags.has futureReleased = c.mem.st.flags.has futureReleased)
    (hp : c.exit ≠ .finalAwaiter → prod ≠ .claiming) (ht : turn ≠ .readying)
    (hshape : Shape { c with mem := mem, prod := prod, inHand := i, turn := turn }) :
    Inv { c with mem := mem, prod := prod, inHand := i, turn := turn } :=
  ⟨hs, fun hr => h.open_ (hf ▸ hr), hp, hshape, fun hr => absurd hr ht, h.awaited, h.once, h.fresh,
    h.early, h.misused⟩

/-- a method coroutine on the thread of the consumer -/
theorem Inv.here (h : Inv c) (he : c.exit = .finalAwaiter) (ht : c.turn = .producing)
    {r : Mem T X × Producer T X} (hs : c.prod.step c.exit c.mem = some r) :
    Inv (c.produced r.1 r.2) := by
  obtain ⟨hsound, hkept⟩ := h.sound.step hs
  rw [he] at hs
  obtain ⟨hclaim, htake, hdone⟩ := Producer.step_final h.sound hs
  have hshape := h.shape
  unfold Shape at hshape
  rw [ht] at hshape
  obtain ⟨-, hnd, hshape⟩ := hshape
  have hthread : c.exit ≠ .finalAwaiter → r.2 ≠ .claiming := fun hn => absurd he hn
  by_cases hc : c.prod = .claiming
  · -- the exchange: whoever was in `continuation_` is in the awaiter's hand
    obtain ⟨hr2, hcont⟩ := htake hc
    rw [hc] at hshape
    obtain ⟨hin, -, hpark⟩ := hshape
    have heq : c.produced r.1 r.2 = { c with
        mem := r.1, prod := .finalizing, inHand := c.mem.st.continuation } := by
      unfold produced
      rw [if_pos he, hr2, hc]
    rw [heq]
    rw [hr2] at hsound
    refine h.stays hsound hkept.future (fun hn => absurd he hn) (by rw [ht]; simp) ?_
    unfold Shape
    dsimp only
    rw [ht]
    exact ⟨he, rfl, hin, hcont, hpark⟩
  · have hcont := hkept.continuation hc
    have hold : (match c.prod with
        | .claiming => c.mem.st.continuation
        | _ => c.inHand) = c.inHand := by
      split
      · exact absurd ‹_› hc
      · rfl
    cases hd : r.2.isDone with
    | false =>
      have heq : c.produced r.1 r.2 = { c with mem := r.1, prod := r.2, inHand := c.inHand } := by
        unfold produced
        rw [if_pos he, hold]
        cases hr2 : r.2 <;> rw [hr2] at hd
        case done => cases hd
      rw [heq]
      refine h.stays hsound hkept.future hthread (by rw [ht]; simp) ?_
      unfold Shape
      dsimp only
      rw [ht, hclaim hc]
      refine ⟨he, hd, ?_⟩
      unfold Claimed Parked
      dsimp only
      rw [hcont]
      exact hshape
    | true =>
      obtain ⟨hcl, hends⟩ := hdone hd
      rw [if_pos hcl] at hshape
      obtain ⟨hin, hnone, hhand⟩ := hshape
      obtain hr2 | ⟨hfut, hends⟩ := hends
      · -- the state is still there: control goes to the consumer
        have heq : c.produced r.1 r.2 = { c with
            mem := r.1, prod := r.2, inHand := c.inHand
            turn := if c.inHand.isSome then .resuming else .idle } := by
          unfold produced
          rw [if_pos he, hold, hr2]
        rw [heq]
        have hready := hsound.released (by rw [hr2]; rfl)
        by_cases hp : c.place = .suspended
        · rw [if_pos hp] at hhand
          rw [hhand]
          refine h.stays hsound hkept.future hthread (by simp) ?_
          exact ⟨⟨hp, hcont.trans hnone, rfl⟩, hsound.ready hready⟩
        · rw [if_neg hp] at hhand
          rw [hhand]
          refine h.stays hsound hkept.future hthread (by simp) ?_
          exact ⟨hin, rfl, by rw [hcont, hnone, if_neg hp]⟩
      · -- nobody awaits a state whose future is gone
        have hgone := h.open_ hfut
        have heq : c.produced r.1 r.2 = { c with
            mem := r.1, prod := r.2, inHand := none, turn := .idle } := by
          unfold produced
          rw [if_pos he]
          obtain ⟨f, hr2⟩ | ⟨b, hr2⟩ := hends
          · rw [hr2]
          · rw [hr2]
            cases b <;> rfl
        rw [heq]
        refine h.stays hsound hkept.future hthread (by simp) ?_
        exact ⟨hin, rfl, by rw [hcont, hnone, if_neg (by rw [hgone]; simp)]⟩

theorem Inv.produce (h : Inv c) (hs : c.step .produce = some d) : Inv d := by
  simp only [step] at hs
  obtain ⟨hturn, hs⟩ := Option.ite_none_left_eq_some.mp hs
  obtain ⟨r, hr, rfl⟩ := Option.map_eq_some_iff.mp hs
  by_cases he : c.exit = .finalAwaiter
  · exact h.here he (Decidable.not_not.mp fun hn => hturn ⟨he, hn⟩) hr
  · exact h.elsewhere he hr

/-- a consumer that is not suspended has no handle anywhere -/
theorem Parked.away (h : c.Parked) (hp : c.place ≠ .suspended) :
    c.mem.st.continuation = none ∧ c.inHand = none :=
  ⟨h.2.2.trans (if_neg hp), h.2.1⟩

/-- the drain or the second look takes the handle out -/
theorem Inv.exchange (h : Inv c) (hp : c.place = .suspended) (hpark : c.Parked)
    (hr : c.mem.st.hasResult = true) : Inv c.exchange := by
  have hcont : c.mem.st.continuation = some c.self := hpark.2.2.trans (if_pos hp)
  have heq : c.exchange = { c with
      mem := c.mem.access ({ · with continuation := none }), prod := c.prod
      inHand := some c.self, turn := .resuming } := by
    unfold Suspension.exchange Mem.takeContinuation
    rw [hcont]
    rfl
  rw [heq]
  refine h.stays (h.sound.flags rfl id h.sound.bits h.sound.frees) rfl h.thread (by simp) ?_
  exact ⟨⟨hp, rfl, rfl⟩, hr⟩

theorem Inv.go (h : Inv c) (hs : c.go = some d) : Inv d := by
  have hshape := h.shape
  unfold Shape at hshape
  unfold Suspension.go at hs
  cases ht : c.turn <;> rw [ht] at hs hshape <;> dsimp only at hs hshape
  case idle => cases hs
  case producing => cases hs
  case transforming =>
    cases hs
    refine ⟨h.sound, h.open_, h.thread, hshape, fun _ hl => ?_, fun hn => absurd hshape.1 hn, h.once,
      h.fresh, h.early, h.misused⟩
    have hl : (!c.mem.st.hasResult) = false := hl
    show c.mem.st.hasResult = true
    simpa using hl
  case readying =>
    obtain ⟨hin, hcont, hhand⟩ := hshape
    have hbefore : c.resumes = 0 := h.fresh (Or.inr (Or.inl hin))
    have hfut : c.mem.st.flags.has futureReleased = false := by
      refine Bool.eq_false_iff.mpr fun hf => ?_
      have hgone := h.open_ hf
      rw [hin] at hgone
      cases hgone
    cases hr : c.mem.st.hasResult with
    | true =>
      rw [hr] at hs
      cases hs
      refine ⟨h.sound, fun hf => ?_, h.thread, ⟨by simp, hhand, hcont⟩, fun hn => (by cases hn),
        fun _ => (by simp), h.once, fun hp => ?_, h.early, h.misused⟩
      · exact absurd (hfut.symm.trans hf) (by simp)
      · rcases hp with hp | hp | hp <;> cases hp
    | false =>
      rw [hr] at hs
      cases hs
      have hlook : c.awaitedFlags = true := by
        refine Bool.eq_false_imp_eq_true.mp fun hl => ?_
        rw [h.looked ht hl] at hr
        cases hr
      refine ⟨h.sound, fun hf => ?_, h.thread, ⟨rfl, hcont, rfl⟩, fun hn => (by cases hn),
        fun _ => ⟨fun _ => rfl, fun _ => hlook⟩, h.once, fun _ => hbefore, h.early, h.misused⟩
      exact absurd (hfut.symm.trans hf) (by simp)
  case registering =>
    obtain ⟨hp, hcont, hhand⟩ := hshape
    rw [hcont] at hs
    cases hs
    refine h.stays (h.sound.flags rfl id h.sound.bits h.sound.frees) rfl h.thread (by simp) ?_
    exact ⟨hp, by rw [hp]; simp, rfl, by rw [hp]; rfl⟩
  case rechecking =>
    obtain ⟨hp, hpark⟩ := hshape
    cases hs
    refine h.stays (i:=c.inHand) h.sound rfl h.thread (by split <;> simp) ?_
    cases hr : c.mem.st.hasResult with
    | true => exact ⟨hp, hpark, hr⟩
    | false => exact hpark
  case exchanging =>
    cases hs
    exact h.exchange hshape.1 hshape.2.1 hshape.2.2
  case polling =>
    obtain ⟨hp, hpark⟩ := hshape
    cases hs
    refine h.stays (i:=c.inHand) h.sound rfl h.thread (by split <;> simp) ?_
    cases hr : c.mem.st.isReady with
    | true => exact ⟨hp, hpark, h.sound.ready hr⟩
    | false => exact hpark
  case taking =>
    cases hs
    exact h.exchange hshape.1 hshape.2.1 hshape.2.2
  case resuming =>
    obtain ⟨⟨hp, hcont, hhand⟩, hr⟩ := hshape
    have hbefore : c.resumes = 0 := h.fresh (Or.inr (Or.inr hp))
    have hfut : c.mem.st.flags.has futureReleased = false := by
      refine Bool.eq_false_iff.mpr fun hf => ?_
      have hgone := h.open_ hf
      rw [hp] at hgone
      cases hgone
    unfold Suspension.resume at hs
    rw [if_pos ⟨hhand, hp⟩] at hs
    cases hs
    refine ⟨h.sound, fun hf => ?_, h.thread, ⟨by simp, rfl, hcont⟩, fun hn => (by cases hn),
      fun _ => (by simp), ?_, fun hp => ?_, ?_, h.misused⟩
    · exact absurd (hfut.symm.trans hf) (by simp)
    · show c.resumes + 1 ≤ 1
      omega
    · rcases hp with hp | hp | hp <;> cases hp
    · show (c.early || !c.mem.st.hasResult) = false
      rw [h.early, hr]
      rfl

theorem Inv.idle (h : Inv c) (ht : c.turn = .idle) : c.Parked := by
  have hshape := h.shape
  unfold Shape at hshape
  rw [ht] at hshape
  exact hshape

theorem releaseFuture_st (m : Mem T X) : m.releaseFuture.st = m.st.releaseFuture.2 := by
  unfold Mem.releaseFuture
  dsimp only
  split <;> rfl

/-- the future is dropped by a consumer that does not await it -/
theorem Inv.release (h : Inv c) (ht : c.turn = .idle)
    (hp : c.place = .before ∨ c.place = .resumed) :
    Inv { c with mem := c.mem.releaseFuture, place := .gone } := by
  have hsusp : c.place ≠ .suspended := by rcases hp with hp | hp <;> rw [hp] <;> simp
  have hin : c.place ≠ .inside := by rcases hp with hp | hp <;> rw [hp] <;> simp
  obtain ⟨hcont, hhand⟩ := (h.idle ht).away hsusp
  have hflag : c.awaitedFlags = false := by
    refine Bool.eq_false_iff.mpr fun hf => ?_
    exact hsusp ((h.awaited hin).mp hf)
  have hor : ∀ k : Word, c.mem.st.flags.has k = true →
      (c.mem.st.flags ||| futureReleased).has k = true := by
    intro k hk
    rw [Word.has_or, hk, Bool.true_or]
  have hst := releaseFuture_st c.mem
  refine ⟨⟨fun hr => ?_, fun hr => ?_, fun bits hb => ?_, fun _ => ?_⟩, fun _ => rfl, h.thread, ?_,
    fun hn => ?_, fun _ => ?_, h.once, fun hn => ?_, h.early, h.misused⟩
  · show c.mem.releaseFuture.st.flags.has resultSet = true
    rw [hst]
    refine hor resultSet (h.sound.ready ?_)
    have hr : c.mem.releaseFuture.st.flags.has promiseReleased = true := hr
    rw [hst] at hr
    have hr : (c.mem.st.flags ||| futureReleased).has promiseReleased = true := hr
    rw [Word.has_or] at hr
    show c.mem.st.flags.has promiseReleased = true
    simpa using hr
  · show c.mem.releaseFuture.st.flags.has promiseReleased = true
    rw [hst]
    exact hor promiseReleased (h.sound.released hr)
  · rcases h.sound.bits bits hb with ⟨h1, h2⟩ | h1
    · refine Or.inl ⟨h1, ?_⟩
      show c.mem.releaseFuture.st.flags.has resultSet = true
      rw [hst]
      exact hor resultSet h2
    · exact Or.inr h1
  · show c.mem.releaseFuture.st.flags.has futureReleased = true
    rw [hst]
    show (c.mem.st.flags ||| futureReleased).has futureReleased = true
    simp
  · unfold Shape
    dsimp only
    rw [ht]
    refine ⟨by simp, hhand, ?_⟩
    show c.mem.releaseFuture.st.continuation = none
    rw [hst]
    exact hcont
  · have hn : c.turn = .readying := hn
    rw [ht] at hn
    cases hn
  · show c.awaitedFlags = true ↔ _
    rw [hflag]
    simp
  · rcases hn with hn | hn | hn <;> cases hn

theorem inv_step {a : SuspAct} (h : Inv c) (hs : c.step a = some d) : Inv d := by
  cases a with
  | await =>
    obtain ⟨⟨ht, hp⟩, hs⟩ := Option.ite_none_right_eq_some.mp hs
    cases hs
    obtain ⟨hcont, hhand⟩ := (h.idle ht).away (by rw [hp]; simp)
    refine ⟨h.sound, fun hf => ?_, h.thread, ⟨rfl, hcont, hhand⟩, fun hn => (by cases hn),
      fun hn => absurd rfl hn, h.once, fun _ => h.fresh (Or.inl hp), h.early, h.misused⟩
    have hgone := h.open_ hf
    rw [hp] at hgone
    cases hgone
  | drain =>
    obtain ⟨⟨ht, hf⟩, hs⟩ := Option.ite_none_right_eq_some.mp hs
    cases hs
    have hpark := h.idle ht
    exact h.stays (i:=c.inHand) h.sound rfl h.thread (by simp)
      ⟨(h.awaited hpark.1).mp hf, hpark⟩
  | produce => exact h.produce hs
  | enter =>
    obtain ⟨⟨he, ht, hc⟩, hs⟩ := Option.ite_none_right_eq_some.mp hs
    cases hs
    refine h.stays (i:=c.inHand) h.sound rfl h.thread (by simp) ⟨he, ?_, ?_⟩
    · cases hp : c.prod <;> rw [hp] at hc <;> first | rfl | cases hc
    · dsimp only
      rw [hc]
      exact h.idle ht
  | leave =>
    simp only [step] at hs
    split at hs
    · rename_i o todo hprod
      obtain ⟨ht, hs⟩ := Option.ite_none_right_eq_some.mp hs
      cases hs
      refine h.stays (i:=c.inHand) h.sound rfl h.thread (by simp) ?_
      have hshape := h.shape
      unfold Shape at hshape
      rw [ht, hprod] at hshape
      exact hshape.2.2
    · cases hs
  | release =>
    obtain ⟨⟨ht, hp⟩, hs⟩ := Option.ite_none_right_eq_some.mp hs
    cases hs
    exact h.release ht hp
  | go => exact h.go hs

theorem inv_of_run {exit : Exit} {own : Option (Outcome T X)} {self : Handle}
    {as : List SuspAct} (h : TS.run step (init exit own self) as = some c) : Inv c :=
  TS.run_inv (fun _ _ _ hi hs => inv_step hi hs) (inv_init exit own self) h

/-! ## a finished producer and a suspended consumer -/

/-- the thread that holds `running` can go on until the consumer is resumed -/
def Resumable (c : Suspension T X) : Prop :=
  ∃ as d, TS.run step c as = some d ∧ d.place = .resumed ∧ d.resumes = 1

theorem Resumable.cons {a : SuspAct} (hs : c.step a = some d) (h : d.Resumable) :
    c.Resumable := by
  obtain ⟨as, e, hrun, he⟩ := h
  exact ⟨a :: as, e, TS.run_cons_some.mpr ⟨d, hs, hrun⟩, he⟩

theorem Inv.resuming (h : Inv c) (ht : c.turn = .resuming) : c.Resumable := by
  have hshape := h.shape
  unfold Shape at hshape
  rw [ht] at hshape
  obtain ⟨⟨hp, -, hhand⟩, -⟩ := hshape
  have hres := h.fresh (Or.inr (Or.inr hp))
  refine ⟨[.go], c.resume, TS.run_cons_some.mpr ⟨c.resume, ?_, rfl⟩, ?_⟩
  · show c.go = _
    unfold Suspension.go
    rw [ht]
  · unfold Suspension.resume
    rw [if_pos ⟨hhand, hp⟩]
    exact ⟨rfl, congrArg (· + 1) hres⟩

theorem Inv.taken (h : Inv c) (ht : c.turn = .exchanging ∨ c.turn = .taking) : c.Resumable := by
  have hs : c.step .go = some c.exchange := by
    show c.go = _
    unfold Suspension.go
    rcases ht with ht | ht <;> rw [ht]
  have hcont : c.mem.st.continuation = some c.self := by
    have hshape := h.shape
    unfold Shape at hshape
    rcases ht with ht | ht <;> rw [ht] at hshape <;>
      exact hshape.2.1.2.2.trans (if_pos hshape.1)
  refine Resumable.cons hs ((inv_step h hs).resuming ?_)
  show (if c.mem.takeContinuation.1.isSome then Turn.resuming else Turn.idle) = .resuming
  unfold Mem.takeContinuation
  rw [hcont]
  rfl

theorem Inv.polled (h : Inv c) (hr : c.mem.st.isReady = true)
    (ht : c.turn = .rechecking ∨ c.turn = .polling) : c.Resumable := by
  rcases ht with ht | ht
  · have hs : c.step .go = some { c with mem := c.mem.load, turn := .exchanging } := by
      show c.go = _
      unfold Suspension.go
      rw [ht]
      dsimp only
      rw [if_pos (h.sound.ready hr)]
    exact Resumable.cons hs ((inv_step h hs).taken (Or.inl rfl))
  · have hs : c.step .go = some { c with mem := c.mem.load, turn := .taking } := by
      show c.go = _
      unfold Suspension.go
      rw [ht]
      dsimp only
      rw [if_pos hr]
    exact Resumable.cons hs ((inv_step h hs).taken (Or.inr rfl))

/-- **No wakeup is lost**: once the producer has finished, a suspended consumer is resumed by
whoever is at it, or by the next drain pass. -/
theorem Inv.resumable (h : Inv c) (hd : c.prod.isDone = true) (hp : c.place = .suspended) :
    c.Resumable := by
  have hr : c.mem.st.isReady = true := by
    refine h.sound.released ?_
    cases hprod : c.prod <;> rw [hprod] at hd <;> first | rfl | cases hd
  have hshape := h.shape
  unfold Shape at hshape
  cases ht : c.turn <;> rw [ht] at hshape
  case idle =>
    have hs : c.step .drain = some { c with turn := .polling } :=
      if_pos ⟨ht, (h.awaited (by rw [hp]; simp)).mpr hp⟩
    exact Resumable.cons hs ((inv_step h hs).polled hr (Or.inr rfl))
  case transforming => exact absurd (hp.symm.trans hshape.1) (by simp)
  case readying => exact absurd (hp.symm.trans hshape.1) (by simp)
  case registering =>
    have hs : c.step .go = some { c with
        mem := c.mem.access ({ · with continuation := some c.self })
        inHand := none, turn := .rechecking } := by
      show c.go = _
      unfold Suspension.go
      rw [ht]
      dsimp only
      rw [hshape.2.1]
    exact Resumable.cons hs ((inv_step h hs).polled hr (Or.inl rfl))
  case rechecking => exact h.polled hr (Or.inl ht)
  case exchanging => exact h.taken (Or.inl ht)
  case polling => exact h.polled hr (Or.inr ht)
  case taking => exact h.taken (Or.inr ht)
  case producing => exact absurd (hshape.2.1.symm.trans hd) (by simp)
  case resuming => exact h.resuming ht

/-- **Every suspension is resumed exactly once.**  In every interleaving of the consumer, the
drain and the producer the consumer is never resumed without a result, nor a second time; while it
is suspended its handle is in `continuation_` or in the hand of somebody who is about to resume
it; and once the producer has finished it can be resumed. -/
theorem resumed_once (exit : Exit) (own : Option (Outcome T X)) (self : Handle)
    (as : List SuspAct) (c : Suspension T X)
    (h : TS.run step (init exit own self) as = some c) :
    c.early = false ∧ c.misused = false ∧ c.resumes ≤ 1 ∧
    (c.place = .suspended → c.resumes = 0 ∧
      (c.mem.st.continuation = some c.self ∧ c.inHand = none ∨
        c.mem.st.continuation = none ∧ c.inHand = some c.self ∧
          (c.turn = .registering ∨ c.turn = .resuming ∨ c.turn = .producing))) ∧
    (c.prod.isDone = true → c.place = .suspended → c.Resumable) := by
  have hI := inv_of_run h
  refine ⟨hI.early, hI.misused, hI.once, fun hp => ⟨hI.fresh (Or.inr (Or.inr hp)), ?_⟩,
    hI.resumable⟩
  have hpark : c.Parked → c.mem.st.continuation = some c.self ∧ c.inHand = none :=
    fun hk => ⟨hk.2.2.trans (if_pos hp), hk.2.1⟩
  have hshape := hI.shape
  unfold Shape at hshape
  cases ht : c.turn <;> rw [ht] at hshape
  case idle => exact Or.inl (hpark hshape)
  case transforming => exact absurd (hp.symm.trans hshape.1) (by simp)
  case readying => exact absurd (hp.symm.trans hshape.1) (by simp)
  case registering => exact Or.inr ⟨hshape.2.1, hshape.2.2, Or.inl rfl⟩
  case rechecking => exact Or.inl (hpark hshape.2)
  case exchanging => exact Or.inl (hpark hshape.2.1)
  case polling => exact Or.inl (hpark hshape.2)
  case taking => exact Or.inl (hpark hshape.2.1)
  case producing =>
    obtain ⟨-, -, hshape⟩ := hshape
    split at hshape
    · exact Or.inr ⟨hshape.2.1, hshape.2.2.trans (if_pos hp), Or.inr (Or.inr rfl)⟩
    · exact Or.inl (hpark hshape)
  case resuming => exact Or.inr ⟨hshape.1.2.1, hshape.1.2.2, Or.inr (Or.inl rfl)⟩

/-- The value is published between the compare-exchange and the second look: the consumer takes its
own handle back. -/
theorem resumed_once_rechecked :
    ∃ c : Suspension Nat Unit, TS.run step (init .settle (some (.value 7)) 3)
      [.await, .go, .go, .go, .produce, .produce, .go, .go, .go] = some c ∧
      c.place = .resumed ∧ c.resumes = 1 ∧ c.early = false := by
  refine ⟨_, rfl, rfl, rfl, (resumed_once .settle (some (.value 7)) 3
    [.await, .go, .go, .go, .produce, .produce, .go, .go, .go] _ rfl).1⟩

end Suspension
end ActorZeta
