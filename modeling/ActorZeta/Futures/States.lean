import ActorZeta.Futures.Program

/-!
# The states of one thread

With one thread, nobody comes between the pieces of a member function of a state.

* `Shared.Settled`   the state is freed as soon as both sides have released it, and once;
* `Settled.releaseFuture`, `Settled.finalize`   what the two releases do, and which of them frees.
-/

namespace ActorZeta
open StateFlags

namespace Futures
variable {T X : Type}

namespace Shared

/-- `promise_released` -/
def ready (c : Shared T X) : Bool := c.mem.st.isReady

/-- `future_released` -/
def released (c : Shared T X) : Bool := c.mem.st.flags.has futureReleased

/-- no producer is inside `settle()`, and the state is freed once both sides have released it -/
structure Settled (c : Shared T X) : Prop where
  finalizing : c.released = false → c.mem.st.flags.has promiseFinalizing = false
  alive : c.mem.alive = !(c.ready && c.released)
  freed : c.mem.freedBy.length = if c.mem.alive then 0 else 1

variable {c : Shared T X} {f : State T X → State T X}

theorem Settled.fresh (o : Option Handle) : Settled (⟨.fresh, o⟩ : Shared T X) :=
  ⟨fun _ => by simp [Mem.fresh, State.fresh],
    by simp [ready, released, Mem.fresh, State.fresh, State.isReady], rfl⟩

/-- an access that leaves the flags of the protocol alone -/
theorem Settled.access (h : c.Settled) (hf : (c.onMem (·.access f)).released = c.released)
    (hr : (c.onMem (·.access f)).ready = c.ready)
    (hp : (f c.mem.st).flags.has promiseFinalizing = c.mem.st.flags.has promiseFinalizing) :
    (c.onMem (·.access f)).Settled where
  finalizing hn := hp.trans (h.finalizing (hf ▸ hn))
  alive := by
    rw [hf, hr]
    exact h.alive
  freed := h.freed

theorem setOutcome_flags (s : State T X) (o : Outcome T X) :
    (s.setOutcome o).flags = s.flags ||| o.flag := by
  rw [State.setOutcome, State.fetchOr_flags, State.write_flags]

theorem setOutcome_has (s : State T X) (o : Outcome T X) :
    (s.setOutcome o).flags.has promiseReleased = s.flags.has promiseReleased ∧
      (s.setOutcome o).flags.has futureReleased = s.flags.has futureReleased ∧
      (s.setOutcome o).flags.has promiseFinalizing = s.flags.has promiseFinalizing := by
  rw [setOutcome_flags]
  cases o <;> simp [Outcome.flag]

/-- `release_future()` of a state whose future is there: it frees the state if the promise is
released -/
theorem Settled.releaseFuture (h : c.Settled) (hf : c.released = false) :
    (c.onMem Mem.releaseFuture).Settled ∧ (c.onMem Mem.releaseFuture).released = true ∧
      (c.onMem Mem.releaseFuture).ready = c.ready ∧
      (c.onMem Mem.releaseFuture).mem.st.hasResult = c.mem.st.hasResult ∧
      (c.onMem Mem.releaseFuture).mem.st.continuation = c.mem.st.continuation ∧
      c.mem.st.releaseFuture.1 = c.ready := by
  have hfree : c.mem.st.releaseFuture.1 = c.ready := by
    show (c.mem.st.flags.has promiseReleased && !c.mem.st.flags.has promiseFinalizing) = _
    rw [h.finalizing hf, Bool.not_false, Bool.and_true]
    rfl
  have hst : c.mem.releaseFuture.st = c.mem.st.fetchOr futureReleased := by
    unfold Mem.releaseFuture
    split <;> rfl
  have halive : c.mem.alive = true := by rw [h.alive, hf, Bool.and_false]; rfl
  have hrel : (c.onMem Mem.releaseFuture).released = true := by
    show c.mem.releaseFuture.st.flags.has futureReleased = true
    rw [hst]
    simp
  have hready : (c.onMem Mem.releaseFuture).ready = c.ready := by
    show c.mem.releaseFuture.st.isReady = c.mem.st.isReady
    rw [hst]
    simp [State.isReady]
  refine ⟨⟨fun hn => ?_, ?_, ?_⟩, hrel, hready, ?_, ?_, hfree⟩
  · rw [hrel] at hn
    cases hn
  · rw [hrel, hready, Bool.and_true]
    show c.mem.releaseFuture.alive = _
    unfold Mem.releaseFuture
    rw [hfree]
    cases c.ready with
    | true => rfl
    | false => exact halive
  · have hlen : c.mem.freedBy.length = 0 := by rw [h.freed, halive]; rfl
    show c.mem.releaseFuture.freedBy.length = if c.mem.releaseFuture.alive then 0 else 1
    unfold Mem.releaseFuture
    rw [hfree]
    cases c.ready with
    | true => exact congrArg (· + 1) hlen
    | false =>
      show c.mem.freedBy.length = if c.mem.alive then 0 else 1
      exact h.freed
  · show c.mem.releaseFuture.st.hasResult = c.mem.st.hasResult
    rw [hst]
    simp [State.hasResult]
  · show c.mem.releaseFuture.st.continuation = c.mem.st.continuation
    rw [hst]
    rfl

/-- `settle()` with nobody in between deallocates if the future is released -/
theorem settle_has (s : State T X) : s.settle.1 = s.flags.has futureReleased ∧
    s.settle.2.flags.has promiseReleased = true ∧
    s.settle.2.flags.has futureReleased = s.flags.has futureReleased ∧
    (s.flags.has futureReleased = false → s.settle.2.flags.has promiseFinalizing = false) ∧
    s.settle.2.continuation = s.continuation := by
  have hcont : ∀ r : State T X, r.repair.continuation = r.continuation := fun r => by
    unfold State.repair
    split <;> rfl
  have hbits : ∀ w : Word, (State.releaseBits w).has promiseReleased = true ∧
      (State.releaseBits w).has futureReleased = false := fun w => by
    unfold State.releaseBits
    split <;> simp
  have hflags : (s.fetchOr promiseFinalizing).releasePromise = (s.flags.has futureReleased,
      (s.fetchOr promiseFinalizing).repair.fetchOr
        (State.releaseBits (s.fetchOr promiseFinalizing).flags)) := by
    unfold State.releasePromise
    simp
  have hrep : ∀ r : State T X, r.repair.flags = r.flags := fun r => by
    unfold State.repair
    split <;> rfl
  unfold State.settle
  rw [hflags]
  cases hf : s.flags.has futureReleased with
  | true =>
    refine ⟨rfl, ?_, ?_, nofun, hcont _⟩
    · simp [hrep, (hbits _).1]
    · simp [hrep, hf]
  | false =>
    dsimp only
    unfold State.tryCompleteFinalize
    rw [if_neg]
    · refine ⟨rfl, ?_, ?_, fun _ => ?_, hcont _⟩
      · simp [hrep, (hbits _).1]
      · simp [hrep, (hbits _).2, hf]
      · simp [hrep]
    · simp [hrep, (hbits _).2, hf]

/-- the producer finalizes a state that it has not released: a released future leaves the
deallocation to it -/
theorem Settled.finalize (h : c.Settled) (hr : c.ready = false) :
    (c.onMem fun mem => mem.finalize.2).Settled ∧
      (c.onMem fun mem => mem.finalize.2).ready = true ∧
      (c.onMem fun mem => mem.finalize.2).released = c.released ∧
      (c.onMem fun mem => mem.finalize.2).mem.alive = !c.released ∧
      (c.onMem fun mem => mem.finalize.2).mem.st.continuation = c.mem.st.continuation ∧
      c.mem.finalize.1 = c.released := by
  obtain ⟨h1, h2, h3, h4, h5⟩ := settle_has c.mem.st
  have halive : c.mem.alive = true := by rw [h.alive, hr]; rfl
  have hfin : c.mem.finalize = (c.mem.st.settle.1, if c.mem.st.settle.1
      then (c.mem.access fun _ => c.mem.st.settle.2).deallocate .releasePromise
      else c.mem.access fun _ => c.mem.st.settle.2) := by
    unfold Mem.finalize
    split <;> rename_i he <;> rw [he] <;> rfl
  have hst : c.mem.finalize.2.st = c.mem.st.settle.2 := by
    rw [hfin]
    dsimp only
    split <;> rfl
  have hrel : (c.onMem fun mem => mem.finalize.2).released = c.released := by
    show c.mem.finalize.2.st.flags.has futureReleased = _
    rw [hst]
    exact h3
  have hready : (c.onMem fun mem => mem.finalize.2).ready = true := by
    show c.mem.finalize.2.st.flags.has promiseReleased = true
    rw [hst]
    exact h2
  have hal : (c.onMem fun mem => mem.finalize.2).mem.alive = !c.released := by
    show c.mem.finalize.2.alive = _
    rw [hfin, h1]
    show (if c.released = true then _ else _ : Mem T X).alive = _
    cases c.released with
    | true => rfl
    | false => exact halive
  refine ⟨⟨fun hn => ?_, ?_, ?_⟩, hready, hrel, hal, ?_, ?_⟩
  · show c.mem.finalize.2.st.flags.has promiseFinalizing = false
    rw [hst]
    exact h4 (hrel.symm.trans hn)
  · rw [hal, hrel, hready, Bool.true_and]
  · have hlen : c.mem.freedBy.length = 0 := by rw [h.freed, halive]; rfl
    rw [hal]
    show c.mem.finalize.2.freedBy.length = _
    rw [hfin, h1]
    show (if c.released = true then _ else _ : Mem T X).freedBy.length = _
    cases c.released with
    | true => exact congrArg (· + 1) hlen
    | false => exact hlen
  · show c.mem.finalize.2.st.continuation = _
    rw [hst]
    exact h5
  · rw [hfin]
    exact h1

end Shared
end Futures
end ActorZeta
