import ActorZeta.Lib.Heap
import ActorZeta.SharedState.Race

/-!
# Coroutine frames and the awaited chain

The frames of the behavior and of the method coroutines, with the pointers that
`future_awaiter_mixin` keeps in every promise, and the member functions that move them.  A pointer
to `flags_` or to `continuation_` of a state is the address of the state; a pointer to a field of
a promise, or to the promise itself, is the handle of its coroutine.

* `Frame`    a coroutine: its locals, the mixin, and where it is;
* `Cell`     a state with whoever makes its result: a coroutine, or another thread;
* `updatePropagatedOuter`, `propagateAwaitedState`, `clearAwaitedChain`   the mixin.
-/

namespace ActorZeta
open StateFlags

/-- `unique_future`: the handle is there if a coroutine makes the result -/
structure Future where
  state : Address
  handle : Option Handle
  deriving DecidableEq, Repr

/-- where a coroutine is; from `awaiting` to `dropping` inside `co_await f` -/
inductive Place where
  | running
  | awaiting (f : Future)
  | suspending (f : Future)
  | rechecking (f : Future)
  | suspended (f : Future)
  | resuming (f : Future)
  | extracting (f : Future)
  | dropping (f : Future)
  | leaving
  | finished
  deriving DecidableEq, Repr

namespace Place

/-- the future inside `owning_awaiter` -/
def current : Place → Option Future
  | .awaiting f | .suspending f | .rechecking f | .suspended f | .resuming f | .extracting f
  | .dropping f => some f
  | _ => none

end Place

/-- a coroutine frame; a `behavior()` has no state of its own -/
structure Frame where
  state : Option Address
  awaitedFlags : Option Address
  awaitedContinuation : Option Address
  propagatedToFlags : Option Handle
  propagatedToCont : Option Handle
  outerPromise : Option Handle
  held : List Future
  promises : List Address
  pc : Place
  deriving DecidableEq, Repr

namespace Frame

/-- a frame whose body is about to run -/
def fresh (state : Option Address) : Frame :=
  ⟨state, none, none, none, none, none, [], [], .running⟩

/-- the futures a frame owns -/
def futures (fr : Frame) : List Future := fr.held ++ fr.pc.current.toList

def done (fr : Frame) : Bool := fr.pc == .finished

def goto (pc : Place) (fr : Frame) : Frame := { fr with pc := pc }

def hold (f : Future) (fr : Frame) : Frame := { fr with held := fr.held ++ [f] }

def unhold (i : Nat) (fr : Frame) : Frame := { fr with held := fr.held.eraseIdx i }

/-- a held future moves into `owning_awaiter` -/
def await (i : Nat) (f : Future) (fr : Frame) : Frame :=
  { fr with held := fr.held.eraseIdx i, pc := .awaiting f }

/-- the promise of an inner coroutine learns whom it propagates to -/
def linkTo (outer : Handle) (fr : Frame) : Frame :=
  { fr with propagatedToFlags := some outer, propagatedToCont := some outer,
            outerPromise := some outer }

/-- the two pointers to the deepest awaited state -/
def point (flags cont : Option Address) (fr : Frame) : Frame :=
  { fr with awaitedFlags := flags, awaitedContinuation := cont }

end Frame

/-- who makes the result of a state -/
inductive Maker (T X : Type) where
  | coroutine (h : Handle)
  | thread (p : Producer T X)
  deriving DecidableEq

/-- a state that a coroutine of the actor awaits, or may await -/
structure Cell (T X : Type) where
  mem : Mem T X
  maker : Maker T X
  deriving DecidableEq

namespace Mem
variable {T X : Type}

/-- `release_future()`, the deallocation included -/
def releaseFuture (m : Mem T X) : Mem T X :=
  let m' := m.access fun st => st.releaseFuture.2
  if m.st.releaseFuture.1 then m'.deallocate .releaseFuture else m'

/-- `continuation_.exchange(nullptr)`: what was there, and the state it leaves -/
def takeContinuation (m : Mem T X) : Option Handle × Mem T X :=
  (m.st.continuation, m.access ({ · with continuation := none }))

/-- the final awaiter after it took the continuation: whether it deallocated -/
def finalize (m : Mem T X) : Bool × Mem T X :=
  match m.st.settle with
  | (true, st) => (true, (m.access fun _ => st).deallocate .releasePromise)
  | (false, st) => (false, m.access fun _ => st)

end Mem

namespace Cell
variable {T X : Type}

def onMem (f : Mem T X → Mem T X) (c : Cell T X) : Cell T X := { c with mem := f c.mem }

end Cell

/-- a frame that is done is destroyed with the future that owns it -/
def reclaimed (h : Heap Frame) : Option Handle → Heap Frame
  | some b => match h.get b with
    | some fb => if fb.done then h.free b else h
    | none => h
  | none => h

theorem reclaimed_some {h : Heap Frame} {o : Option Handle} {j : Handle} {fr : Frame} :
    (reclaimed h o).get j = some fr ↔ h.get j = some fr ∧ ¬(o = some j ∧ fr.done = true) := by
  cases o with
  | none => exact ⟨fun hj => ⟨hj, nofun⟩, fun hj => hj.1⟩
  | some b =>
    simp only [reclaimed]
    split
    · rename_i fb hb
      by_cases hd : fb.done = true
      · rw [if_pos hd]
        refine ⟨fun hj => ?_, fun ⟨hj, hn⟩ => ?_⟩
        · obtain ⟨hne, hj⟩ := Heap.get_free_some hj
          exact ⟨hj, fun he => hne (Option.some.inj he.1).symm⟩
        · refine (Heap.get_free_ne ?_).trans hj
          rintro rfl
          rw [hb] at hj
          cases hj
          exact hn ⟨rfl, hd⟩
      · rw [if_neg hd]
        refine ⟨fun hj => ⟨hj, fun he => hd ?_⟩, fun hj => hj.1⟩
        obtain ⟨rfl, hdone⟩ : b = j ∧ _ := ⟨Option.some.inj he.1, he.2⟩
        rw [hb] at hj
        cases hj
        exact hdone
    · rename_i hb
      refine ⟨fun hj => ⟨hj, fun he => ?_⟩, fun hj => hj.1⟩
      rw [← Option.some.inj he.1, hb] at hj
      cases hj

/-! ## the mixin -/

/-- a promise writes its copy of the pointers into the outer promise -/
def Frame.writeOuter (fr : Frame) (h : Heap Frame) : Heap Frame :=
  let h := match fr.propagatedToFlags with
    | some o => h.modify o ({ · with awaitedFlags := fr.awaitedFlags })
    | none => h
  match fr.propagatedToCont with
    | some o => h.modify o ({ · with awaitedContinuation := fr.awaitedContinuation })
    | none => h

/-- `update_propagated_outer()`: outwards through the type-erased pointers -/
def updatePropagatedOuter : Nat → Heap Frame → Handle → Heap Frame
  | 0, h, _ => h
  | n + 1, h, a => match h.get a with
    | none => h
    | some fr => match fr.outerPromise with
      | some o => updatePropagatedOuter n (fr.writeOuter h) o
      | none => fr.writeOuter h

/-- a promise sets its own pointers, then `update_propagated_outer()` -/
def setAwaited (h : Heap Frame) (a : Handle) (flags cont : Option Address) : Heap Frame :=
  updatePropagatedOuter h.next (h.modify a (.point flags cont)) a

/-- `propagate_awaited_state(future)`; `st` is the state of the future -/
def propagateAwaitedState {T X : Type} (st : State T X) (h : Heap Frame) (a : Handle)
    (f : Future) : Heap Frame :=
  if st.hasResult then setAwaited h a none none
  -- `coroutine_handle()` withholds the handle of a ready state
  else match if st.isReady then none else f.handle with
    | some inner =>
      let h := h.modify inner (.linkTo a)
      match h.get inner with
      | some fi =>
        if fi.awaitedFlags.isSome then setAwaited h a fi.awaitedFlags fi.awaitedContinuation
        else setAwaited h a (some f.state) (some f.state)
      | none => h
    | none => setAwaited h a (some f.state) (some f.state)

/-- `clear_awaited_chain()` -/
def clearAwaitedChain (h : Heap Frame) (a : Handle) : Heap Frame := setAwaited h a none none

end ActorZeta
