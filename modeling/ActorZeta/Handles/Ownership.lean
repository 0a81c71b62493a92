import ActorZeta.Lib.Tally
import ActorZeta.SharedState.Outcomes
import ActorZeta.Handles.Program

/-!
# promise, unique_future and message: every side is released once

* `State.Tells`      what a state says once an outcome was published;
* `Known`            the account of one state: who owns its producer side, who its future, and what
                     it says (`Here`);
* `Inv.moved`, `Inv.releaseProducer`, `Inv.releaseFuture`, `Inv.allocate`   what an operation can do
                     to the accounts; each operation of a program is one or two of them;
* `freed_iff_asked`  promises and futures: a state is freed once, if a future was ever made;
* `one_release`      messages: every slot is released once.
-/

namespace ActorZeta
open StateFlags

namespace State
variable {T X : Type}

/-- nothing was set and nothing taken -/
structure Unset (st : State T X) : Prop where
  value : st.flags.has valueSet = false
  error : st.flags.has errorSet = false
  consumed : st.flags.has StateFlags.consumed = false
  exception : st.exception = none

/-- what a future reads from a settled state -/
def Tells (st : State T X) : Outcome T X → Prop
  | .value v => st.hasError = false ∧ st.holdsValue = true ∧ st.value = some v
  | .error ec => st.hasError = true ∧ st.getError = ec ∧ st.exception = none
  | .exception ep => st.hasError = true ∧ st.getError = .errc .interrupted ∧ st.exception = some ep

/-- a change of flags that keeps the outcome -/
theorem Tells.flags {st st' : State T X} {o : Outcome T X} (h : st.Tells o)
    (hv : st'.flags.has valueSet = st.flags.has valueSet)
    (he : st'.flags.has errorSet = st.flags.has errorSet)
    (hc : st'.flags.has StateFlags.consumed = st.flags.has StateFlags.consumed)
    (hval : st'.value = st.value) (herr : st'.error = st.error)
    (hexc : st'.exception = st.exception) : st'.Tells o := by
  have hhold : st'.holdsValue = st.holdsValue := by rw [holdsValue_eq, holdsValue_eq, hv, he, hc]
  have herror : st'.hasError = st.hasError := he
  cases o with
  | value v =>
    obtain ⟨h1, h2, h3⟩ := h
    exact ⟨herror.trans h1, hhold.trans h2, hval.trans h3⟩
  | error ec =>
    obtain ⟨h1, h2, h3⟩ := h
    exact ⟨herror.trans h1, herr.trans h2, hexc.trans h3⟩
  | exception ep =>
    obtain ⟨h1, h2, h3⟩ := h
    exact ⟨herror.trans h1, herr.trans h2, hexc.trans h3⟩

theorem Unset.setOutcome {st : State T X} (h : st.Unset) (o : Outcome T X) :
    (st.setOutcome o).Tells o := by
  have hflags : (st.setOutcome o).flags = st.flags ||| o.flag := by cases o <;> rfl
  cases o with
  | value v =>
    refine ⟨?_, ?_, rfl⟩
    · show (st.setOutcome _).flags.has errorSet = false
      rw [hflags, Word.has_or, h.error]
      simp [Outcome.flag]
    · rw [holdsValue_eq, hflags, Word.has_or, Word.has_or, Word.has_or, h.value, h.error,
        h.consumed]
      simp [Outcome.flag]
  | error ec =>
    refine ⟨?_, rfl, h.exception⟩
    show (st.setOutcome _).flags.has errorSet = true
    rw [hflags, Word.has_or]
    simp [Outcome.flag]
  | exception ep =>
    refine ⟨?_, rfl, rfl⟩
    show (st.setOutcome _).flags.has errorSet = true
    rw [hflags, Word.has_or]
    simp [Outcome.flag]

theorem setOutcome_other (st : State T X) (o : Outcome T X) {k : Word}
    (hk : o.flag.has k = false) : (st.setOutcome o).flags.has k = st.flags.has k := by
  have hflags : (st.setOutcome o).flags = st.flags ||| o.flag := by cases o <;> rfl
  rw [hflags, Word.has_or, hk, Bool.or_false]

/-- a settled state nobody deallocated -/
structure Left (st : State T X) (o : Outcome T X) : Prop where
  tells : st.Tells o
  ready : st.flags.has promiseReleased = true
  open_ : st.flags.has futureReleased = false
  steady : st.flags.has promiseFinalizing = false

theorem settle_released {st : State T X} (hf : st.flags.has futureReleased = true) :
    st.settle.1 = true := by
  have hrel : (st.fetchOr promiseFinalizing).releasePromise.1 = true := by
    show (st.flags ||| promiseFinalizing).has futureReleased = true
    rw [Word.has_or, hf, Bool.true_or]
  unfold settle
  cases hp : (st.fetchOr promiseFinalizing).releasePromise with
  | mk b st' =>
    rw [hp] at hrel
    cases hrel
    rfl

/-- a promise settles a state: it deallocates if the future is gone, and otherwise leaves a state
that says the outcome -/
theorem Unset.settle {st : State T X} (h : st.Unset) (o : Outcome T X) :
    (st.setOutcome o).settle.1 = st.flags.has futureReleased ∧
      (st.flags.has futureReleased = false → (st.setOutcome o).settle.2.Left o) := by
  have hfut : (st.setOutcome o).flags.has futureReleased = st.flags.has futureReleased :=
    setOutcome_other st o (by cases o <;> simp [Outcome.flag])
  cases hf : st.flags.has futureReleased with
  | true => exact ⟨settle_released (hfut.trans hf), fun hn => (by cases hn)⟩
  | false =>
    rw [settle_of_hasResult (setOutcome_hasResult st o) (hfut.trans hf)]
    refine ⟨rfl, fun _ => ⟨?_, ?_, ?_, ?_⟩⟩
    · exact (h.setOutcome o).flags (by simp) (by simp) (by simp) rfl rfl rfl
    · simp
    · simp [hfut, hf]
    · simp

/-- a message that dies releases its slot -/
theorem Unset.cleanup {st : State T X} (h : st.Unset)
    (hz : st.flags.has promiseFinalizing = false) :
    st.cleanupFn.1 = st.flags.has futureReleased ∧ (st.flags.has futureReleased = false →
      st.cleanupFn.2.Left (.error (.errc .operationCanceled))) := by
  have hfut : (st.setError (.errc .operationCanceled)).flags.has futureReleased
      = st.flags.has futureReleased := setOutcome_other st _ (by simp [Outcome.flag])
  have hfin : (st.setError (.errc .operationCanceled)).flags.has promiseFinalizing
      = st.flags.has promiseFinalizing := setOutcome_other st _ (by simp [Outcome.flag])
  have hres : (st.setError (.errc .operationCanceled)).hasResult = true := setOutcome_hasResult st _
  have hbits : releaseBits (st.setError (.errc .operationCanceled)).flags = promiseReleased :=
    if_pos hres
  refine ⟨hfut, fun hf => ?_⟩
  show Left ((st.setError _).repair.fetchOr (releaseBits _)) _
  rw [repair_of_hasResult hres, hbits]
  refine ⟨?_, ?_, ?_, ?_⟩
  · exact (h.setOutcome (.error (.errc .operationCanceled))).flags (by simp [setError])
      (by simp [setError]) (by simp [setError]) rfl rfl rfl
  · simp
  · simp [hfut, hf]
  · simp [hfin, hz]

/-- taking a value leaves the flags that the release of the future reads -/
theorem takeValue_spec {st : State T X} {v : T} (hv : st.value = some v) :
    ∃ st', st.takeValue = some (v, st') ∧
      st'.flags.has promiseReleased = st.flags.has promiseReleased ∧
      st'.flags.has promiseFinalizing = st.flags.has promiseFinalizing := by
  unfold takeValue
  rw [hv]
  exact ⟨_, rfl, by simp, by simp⟩

end State

theorem Release.call_spec {T X : Type} (r : Release T X) {st : State T X} (hu : st.Unset)
    (hz : st.flags.has promiseFinalizing = false) :
    (r.call st).1 = st.flags.has futureReleased ∧
      (st.flags.has futureReleased = false → (r.call st).2.Left r.outcome) := by
  cases r with
  | set o => exact hu.settle o
  | abandoned => exact hu.settle _
  | cleanup => exact hu.cleanup hz

/-! ## the account of one address -/

/-- the promises, messages and futures that own a side of a state, the futures released and made,
the deallocations, the releases of the producer side, the state, and whether it is a message's slot
and was transferred -/
structure Sides (T X : Type) where
  proms : Nat
  msgs : Nat
  futs : Nat
  drops : Nat
  asks : Nat
  frees : Nat
  releases : List (Release T X)
  state : Option (State T X)
  slot : Bool
  transferred : Bool

namespace Sides
variable {T X : Type}

/-- of an address that was not allocated -/
def zero : Sides T X := ⟨0, 0, 0, 0, 0, 0, [], none, false, false⟩

/-- a state that is still allocated -/
structure Here (s : Sides T X) (st : State T X) : Prop where
  ready : st.flags.has promiseReleased = decide (s.releases.length = 1)
  left : st.flags.has futureReleased = decide (s.drops = 1)
  steady : st.flags.has promiseFinalizing = false
  unset : s.releases = [] → st.Unset
  tells : ∀ r ∈ s.releases, st.Tells r.outcome

/-- what holds of every state a program has allocated -/
structure Known (s : Sides T X) : Prop where
  producer : s.proms + s.msgs + s.releases.length = 1
  future : s.futs + s.drops = s.asks
  once : s.asks ≤ 1
  frees : s.frees = if s.releases.length = 1 ∧ s.drops = 1 then 1 else 0
  gone : s.state = none ↔ s.releases.length = 1 ∧ s.drops = 1
  here : ∀ st, s.state = some st → s.Here st
  message : 0 < s.msgs → s.slot = true ∧ s.transferred = false
  promise : 0 < s.proms → s.transferred = true ∨ s.slot = false
  kinds : ∀ r ∈ s.releases, r = .cleanup ↔ s.slot = true ∧ s.transferred = false

variable {s : Sides T X}

theorem Known.releases_le (h : s.Known) : s.releases.length ≤ 1 := by
  have hpr := h.producer
  omega

theorem Known.alive (h : s.Known) (hr : s.releases = [] ∨ s.drops = 0) :
    ∃ st, s.state = some st := by
  cases hst : s.state with
  | some st => exact ⟨st, rfl⟩
  | none =>
    obtain ⟨h1, h2⟩ := h.gone.mp hst
    rcases hr with hr | hr
    · rw [hr] at h1
      cases h1
    · rw [hr] at h2
      cases h2

/-- the account after a call on its state -/
def call (s : Sides T X) (f : State T X → Bool × State T X) : Sides T X :=
  match s.state with
  | none => s
  | some st => { s with
      frees := s.frees + (f st).1.toNat
      state := if (f st).1 then none else some (f st).2 }

/-- the owner of the producer side releases it -/
theorem Known.release (h : s.Known) {r : Release T X} (proms msgs : Nat)
    (hp : proms ≤ s.proms) (hm : msgs ≤ s.msgs) (hsum : proms + msgs + 1 = s.proms + s.msgs)
    (hkind : r = .cleanup ↔ s.slot = true ∧ s.transferred = false) :
    Known { s.call r.call with proms := proms, msgs := msgs, releases := s.releases ++ [r] } := by
  have hnil : s.releases = [] := by
    apply List.eq_nil_of_length_eq_zero
    have hpr := h.producer
    omega
  obtain ⟨st, hst⟩ := h.alive (Or.inl hnil)
  have hh := h.here st hst
  obtain ⟨hfree, hleft⟩ := r.call_spec (hh.unset hnil) hh.steady
  have hfrees : s.frees = 0 := by
    rw [h.frees, hnil]
    rfl
  have hdrops : s.drops ≤ 1 := by
    have hfu := h.future
    have hon := h.once
    omega
  rw [hh.left] at hfree hleft
  unfold call
  rw [hst, hnil]
  dsimp only
  rw [hfree, hfrees]
  refine ⟨?_, h.future, h.once, ?_, ?_, fun st' hst' => ?_, fun h0 => h.message (Nat.lt_of_lt_of_le h0 hm),
    fun h0 => h.promise (Nat.lt_of_lt_of_le h0 hp), fun r' hr' => ?_⟩
  · show proms + msgs + 1 = 1
    have hpr := h.producer
    rw [hnil] at hpr
    simp only [List.length_nil] at hpr
    omega
  · by_cases hd : s.drops = 1 <;> simp [hd]
  · by_cases hd : s.drops = 1 <;> simp [hd]
  · by_cases hd : s.drops = 1
    · simp [hd] at hst'
    · have hd0 : decide (s.drops = 1) = false := decide_eq_false hd
      rw [hd0] at hst' hleft
      cases hst'
      have hl := hleft rfl
      refine ⟨hl.ready, hl.open_.trans hd0.symm, hl.steady, fun hn => (by cases hn), fun r' hr' => ?_⟩
      rw [List.mem_singleton.mp hr']
      exact hl.tells
  · rw [List.mem_singleton.mp hr']
    exact hkind

/-- the owner of the future releases it; `st'` is what it has made of the state before -/
theorem Known.leave (h : s.Known) {futs : Nat} (hf : futs + 1 = s.futs) {st st' : State T X}
    (hst : s.state = some st) (hst' : st' = st ∨ s.releases.length = 1 ∧
      st'.flags.has promiseReleased = st.flags.has promiseReleased ∧
      st'.flags.has promiseFinalizing = st.flags.has promiseFinalizing) :
    Known { call { s with state := some st' } State.releaseFuture with
      futs := futs, drops := s.drops + 1 } := by
  have hh := h.here st hst
  have hfu := h.future
  have hon := h.once
  have hdrops : s.drops = 0 := by omega
  have hfrees : s.frees = 0 := by
    rw [h.frees, hdrops]
    simp
  have hpr := h.producer
  have hcall : (State.releaseFuture st').1 = decide (s.releases.length = 1) := by
    show (st'.flags.has promiseReleased && !st'.flags.has promiseFinalizing) = _
    rcases hst' with rfl | ⟨-, h1, h2⟩
    · rw [hh.steady, hh.ready, Bool.not_false, Bool.and_true]
    · rw [h1, h2, hh.steady, hh.ready, Bool.not_false, Bool.and_true]
  unfold call
  dsimp only
  rw [hcall, hfrees, hdrops]
  refine ⟨hpr, ?_, h.once, ?_, ?_, fun u hu => ?_, h.message, h.promise, h.kinds⟩
  · show futs + 1 = s.asks
    omega
  · by_cases hr : s.releases.length = 1 <;> simp [hr]
  · by_cases hr : s.releases.length = 1 <;> simp [hr]
  · by_cases hr : s.releases.length = 1
    · simp [hr] at hu
    · have hr0 : decide (s.releases.length = 1) = false := decide_eq_false hr
      have hnil : s.releases = [] := by
        apply List.eq_nil_of_length_eq_zero
        omega
      rcases hst' with rfl | ⟨h1, -⟩
      · rw [hr0] at hu
        cases hu
        have hun := hh.unset hnil
        refine ⟨?_, ?_, ?_, fun _ => ⟨?_, ?_, ?_, hun.exception⟩, fun r hmem => ?_⟩
        · show (st'.flags ||| futureReleased).has promiseReleased = _
          rw [Word.has_or, hh.ready, hr0]
          rfl
        · show (st'.flags ||| futureReleased).has futureReleased = _
          rw [Word.has_or]
          simp
        · show (st'.flags ||| futureReleased).has promiseFinalizing = _
          rw [Word.has_or, hh.steady]
          rfl
        · show (st'.flags ||| futureReleased).has valueSet = _
          rw [Word.has_or, hun.value]
          rfl
        · show (st'.flags ||| futureReleased).has errorSet = _
          rw [Word.has_or, hun.error]
          rfl
        · show (st'.flags ||| futureReleased).has StateFlags.consumed = _
          rw [Word.has_or, hun.consumed]
          rfl
        · have hmem : r ∈ s.releases := hmem
          rw [hnil] at hmem
          cases hmem
      · exact absurd h1 hr

/-- a new state, owned by a promise or by a message with its future -/
theorem known_promise : Known { (zero : Sides T X) with proms := 1, state := some .fresh } := by
  refine ⟨rfl, rfl, Nat.zero_le 1, rfl, by simp [zero], fun st hst => ?_, fun h0 => (by cases h0),
    fun _ => Or.inr rfl, fun r hr => (by cases hr)⟩
  cases hst
  exact ⟨by simp [State.fresh, zero], by simp [State.fresh, zero], by simp [State.fresh],
    fun _ => ⟨by simp [State.fresh], by simp [State.fresh], by simp [State.fresh], rfl⟩,
    fun r hr => (by cases hr)⟩

theorem known_message : Known { (zero : Sides T X) with
    msgs := 1, futs := 1, asks := 1, slot := true, state := some .fresh } := by
  refine ⟨rfl, rfl, Nat.le_refl 1, rfl, by simp [zero], fun st hst => ?_, fun _ => ⟨rfl, rfl⟩,
    fun h0 => (by cases h0), fun r hr => (by cases hr)⟩
  cases hst
  exact ⟨by simp [State.fresh, zero], by simp [State.fresh, zero], by simp [State.fresh],
    fun _ => ⟨by simp [State.fresh], by simp [State.fresh], by simp [State.fresh], rfl⟩,
    fun r hr => (by cases hr)⟩

/-- `get_future()` -/
theorem Known.ask (h : s.Known) (ha : s.asks = 0) :
    Known { s with futs := s.futs + 1, asks := s.asks + 1 } := by
  have hfu := h.future
  refine ⟨h.producer, ?_, ?_, h.frees, h.gone, fun st hst => ?_, h.message, h.promise, h.kinds⟩
  · show s.futs + 1 + s.drops = s.asks + 1
    omega
  · show s.asks + 1 ≤ 1
    omega
  · have hh := h.here st hst
    exact ⟨hh.ready, hh.left, hh.steady, hh.unset, hh.tells⟩

/-- the slot of a message goes to a promise -/
theorem Known.transfer (h : s.Known) {msgs : Nat} (hm : msgs + 1 = s.msgs) :
    Known { s with proms := s.proms + 1, msgs := msgs, transferred := true } := by
  have hpr := h.producer
  refine ⟨?_, h.future, h.once, h.frees, h.gone, fun st hst => ?_, fun (h0 : 0 < msgs) => ?_,
    fun _ => Or.inl rfl, fun r hr => ?_⟩
  · show s.proms + 1 + msgs + s.releases.length = 1
    omega
  · have hh := h.here st hst
    exact ⟨hh.ready, hh.left, hh.steady, hh.unset, hh.tells⟩
  · omega
  · have hpos : 0 < s.releases.length := List.length_pos_of_mem hr
    omega

end Sides

/-! ## the accounts of a program -/

namespace Handles
variable {T X : Type}

def sides (m : Handles T X) (a : Address) : Sides T X where
  proms := m.promises.countP (· == some a)
  msgs := m.messages.countP (·.owned == some a)
  futs := m.futures.countP (· == some a)
  drops := m.dropped.countP (· == a)
  asks := m.asked.countP (· == a)
  frees := m.freed.countP (· == a)
  releases := m.released.filterMap fun e => if e.1 = a then some e.2 else none
  state := m.states.get a
  slot := decide (a ∈ m.slots)
  transferred := decide (a ∈ m.transferred)

structure Inv (m : Handles T X) : Prop where
  known : ∀ a : Address, a < m.states.next → (m.sides a).Known
  unknown : ∀ a : Address, m.states.next ≤ a → m.sides a = .zero
  takes : ∀ e ∈ m.taken, (e.1, Release.set (.value e.2)) ∈ m.released
  dangling : m.dangling = false
  refused : m.refused = false

theorem inv_init : Inv (init : Handles T X) :=
  ⟨fun a ha => absurd ha (Nat.not_lt_zero a), fun _ _ => rfl, fun _ he => (by cases he), rfl, rfl⟩

variable {m : Handles T X} {a b : Address}

/-- an owner shows that the state was allocated -/
theorem Inv.of_owner (h : Inv m)
    (ho : 0 < (m.sides a).proms + (m.sides a).msgs + (m.sides a).futs) :
    a < m.states.next := by
  refine Nat.lt_of_not_le fun hle => ?_
  rw [h.unknown a hle] at ho
  exact absurd ho (Nat.lt_irrefl 0)

theorem countP_beq_snoc {l : List Address} :
    (l ++ [a]).countP (· == b) = l.countP (· == b) + if b = a then 1 else 0 := by
  rw [List.countP_append, List.countP_singleton]
  by_cases hb : b = a
  · simp [hb]
  · simp [hb, Ne.symm hb]

theorem sides_onState {st : State T X} (hst : m.states.get a = some st)
    (f : State T X → Bool × State T X) (b : Address) :
    (m.onState a f).sides b = if b = a then (m.sides b).call f else m.sides b := by
  have hcall : (m.sides a).call f = { m.sides a with
      frees := m.freed.countP (· == a) + (f st).1.toNat
      state := if (f st).1 then none else some (f st).2 } := by
    unfold Sides.call sides
    rw [hst]
  unfold onState
  rw [hst]
  dsimp only
  by_cases hb : b = a
  · subst hb
    rw [if_pos rfl, hcall]
    cases hf : (f st).1 with
    | true =>
      show sides { m with states := m.states.free b, freed := m.freed ++ [b] } b = _
      simp only [sides, countP_beq_snoc, if_pos]
      congr 1
      exact if_pos rfl
    | false =>
      show sides { m with states := m.states.modify b fun _ => (f st).2 } b = _
      simp only [sides, Heap.get_modify_self hst]
      rfl
  · rw [if_neg hb]
    cases hf : (f st).1 with
    | true =>
      show sides { m with states := m.states.free a, freed := m.freed ++ [a] } b = _
      simp only [sides, countP_beq_snoc, if_neg hb, Heap.get_free_ne hb]
      rfl
    | false =>
      show sides { m with states := m.states.modify a fun _ => (f st).2 } b = _
      simp only [sides, Heap.get_modify_ne hb]

theorem onState_rest (a : Address) (f : State T X → Bool × State T X) :
    (m.onState a f).promises = m.promises ∧ (m.onState a f).futures = m.futures ∧
      (m.onState a f).messages = m.messages ∧ (m.onState a f).released = m.released ∧
      (m.onState a f).dropped = m.dropped ∧ (m.onState a f).asked = m.asked ∧
      (m.onState a f).slots = m.slots ∧ (m.onState a f).transferred = m.transferred ∧
      (m.onState a f).taken = m.taken ∧ (m.onState a f).refused = m.refused := by
  unfold onState
  split
  · exact ⟨rfl, rfl, rfl, rfl, rfl, rfl, rfl, rfl, rfl, rfl⟩
  · split <;> exact ⟨rfl, rfl, rfl, rfl, rfl, rfl, rfl, rfl, rfl, rfl⟩

theorem onState_next (a : Address) (f : State T X → Bool × State T X) :
    (m.onState a f).states.next = m.states.next := by
  unfold onState
  split
  · rfl
  · split <;> rfl

theorem onState_dangling {st : State T X} (hst : m.states.get a = some st)
    (f : State T X → Bool × State T X) : (m.onState a f).dangling = m.dangling := by
  unfold onState
  rw [hst]
  dsimp only
  split <;> rfl

/-! ### what an operation does to the accounts -/

/-- the handles change hands, and no side changes its owner -/
theorem Inv.moved (h : Inv m) {promises futures : List (Option Address)}
    {messages : List SlotMessage}
    (hp : ∀ a, promises.countP (· == some a) = m.promises.countP (· == some a))
    (hf : ∀ a, futures.countP (· == some a) = m.futures.countP (· == some a))
    (hm : ∀ a, messages.countP (·.owned == some a) = m.messages.countP (·.owned == some a)) :
    Inv { m with promises := promises, futures := futures, messages := messages } := by
  have hacc : ∀ a, sides { m with
      promises := promises, futures := futures, messages := messages } a = m.sides a := by
    intro a
    simp only [sides, hp, hf, hm]
  refine ⟨fun a ha => ?_, fun a ha => ?_, h.takes, h.dangling, h.refused⟩
  · rw [hacc]
    exact h.known a ha
  · rw [hacc]
    exact h.unknown a ha

/-- an owner of the producer side at `a` releases it: a promise (`dp = 1`) or a message -/
theorem Inv.releaseProducer (h : Inv m) {r : Release T X} (promises : List (Option Address))
    (messages : List SlotMessage) (dp dm : Nat) (hd : dp + dm = 1)
    (hp : ∀ b, promises.countP (· == some b) + (if b = a then dp else 0)
      = m.promises.countP (· == some b))
    (hm : ∀ b, messages.countP (·.owned == some b) + (if b = a then dm else 0)
      = m.messages.countP (·.owned == some b))
    (hkind : r = .cleanup ↔ a ∈ m.slots ∧ a ∉ m.transferred) :
    Inv { m.releaseProducer a r with promises := promises, messages := messages } := by
  have hpa := hp a
  have hma := hm a
  rw [if_pos rfl] at hpa hma
  have hlt : a < m.states.next := by
    apply h.of_owner
    show 0 < m.promises.countP _ + m.messages.countP _ + m.futures.countP _
    omega
  have hk := h.known a hlt
  have hnil : (m.sides a).releases = [] := by
    apply List.eq_nil_of_length_eq_zero
    have hpr := hk.producer
    have h1 : (m.sides a).proms = m.promises.countP (· == some a) := rfl
    have h2 : (m.sides a).msgs = m.messages.countP (·.owned == some a) := rfl
    omega
  obtain ⟨st, hst⟩ := hk.alive (Or.inl hnil)
  have hst : m.states.get a = some st := hst
  obtain ⟨-, hfut, -, hrel, hdr, has, hsl, htr, htk, hre⟩ := onState_rest (m:=m) a r.call
  have hacc : ∀ b, sides { m.releaseProducer a r with
      promises := promises, messages := messages } b =
      { (m.onState a r.call).sides b with
        proms := promises.countP (· == some b)
        msgs := messages.countP (·.owned == some b)
        releases := (m.released ++ [(a, r)]).filterMap fun e =>
          if e.1 = b then some e.2 else none } := fun b => rfl
  refine ⟨fun b hb => ?_, fun b hb => ?_, fun e he => ?_, ?_, hre.trans h.refused⟩
  · have hbn : b < m.states.next := Nat.lt_of_lt_of_eq hb (onState_next a r.call)
    have hpb := hp b
    have hmb := hm b
    rw [hacc, sides_onState hst, List.filterMap_append]
    by_cases hba : b = a
    · subst hba
      rw [if_pos rfl] at hpb hmb ⊢
      have hkind' : r = .cleanup ↔
          (m.sides b).slot = true ∧ (m.sides b).transferred = false := by
        rw [hkind]
        simp [sides]
      have h1 : (m.sides b).proms = m.promises.countP (· == some b) := rfl
      have h2 : (m.sides b).msgs = m.messages.countP (·.owned == some b) := rfl
      have hrun := hk.release (r:=r) (promises.countP (· == some b))
        (messages.countP (·.owned == some b)) (by omega) (by omega) (by omega) hkind'
      have hone : [(b, r)].filterMap (fun e => if e.1 = b then some e.2 else none) = [r] := by
        simp
      rw [hone]
      exact hrun
    · rw [if_neg hba] at hpb hmb ⊢
      have hone : [(a, r)].filterMap (fun e => if e.1 = b then some e.2 else none) = [] := by
        simp [Ne.symm hba]
      rw [hone, List.append_nil]
      rw [Nat.add_zero] at hpb hmb
      rw [hpb, hmb]
      exact h.known b hbn
  · have hbn : m.states.next ≤ b := Nat.le_trans (Nat.le_of_eq (onState_next a r.call).symm) hb
    have hba : b ≠ a := Nat.ne_of_gt (Nat.lt_of_lt_of_le hlt hbn)
    have hpb := hp b
    have hmb := hm b
    rw [hacc, sides_onState hst, List.filterMap_append]
    rw [if_neg hba] at hpb hmb ⊢
    have hone : [(a, r)].filterMap (fun e => if e.1 = b then some e.2 else none) = [] := by
      simp [Ne.symm hba]
    rw [hone, List.append_nil]
    rw [Nat.add_zero] at hpb hmb
    rw [hpb, hmb]
    exact h.unknown b hbn
  · have he' : e ∈ m.taken := htk ▸ he
    exact List.mem_append_left _ (h.takes e he')
  · exact (onState_dangling hst r.call).trans h.dangling

/-- the future at `a` is released by its owner, in a program `n` in which the owner may have taken
the value before -/
theorem Inv.releaseFuture (h : Inv m) {n : Handles T X} {st st' : State T X}
    (hst : m.states.get a = some st) (hst' : st' = st ∨ (m.sides a).releases.length = 1 ∧
      st'.flags.has promiseReleased = st.flags.has promiseReleased ∧
      st'.flags.has promiseFinalizing = st.flags.has promiseFinalizing)
    (hn : n.sides a = { m.sides a with state := some st' })
    (hother : ∀ b, b ≠ a → n.sides b = m.sides b) (hnext : n.states.next = m.states.next)
    (htakes : ∀ e ∈ n.taken, (e.1, Release.set (.value e.2)) ∈ n.released)
    (hdang : n.dangling = false) (href : n.refused = false) {futures : List (Option Address)}
    (hf : ∀ b, futures.countP (· == some b) + (if b = a then 1 else 0)
      = (m.sides b).futs) :
    Inv { n.releaseFuture a with futures := futures } := by
  have hfa := hf a
  rw [if_pos rfl] at hfa
  have hlt : a < m.states.next := by
    apply h.of_owner
    omega
  have hgetn : n.states.get a = some st' := congrArg Sides.state hn
  obtain ⟨hpr, -, hms, hrel, hdr, has, hsl, htr, htk, hre⟩ := onState_rest (m:=n) a
    (State.releaseFuture (T:=T) (X:=X))
  have hacc : ∀ b, sides { n.releaseFuture a with futures := futures } b =
      { (n.onState a State.releaseFuture).sides b with
        futs := futures.countP (· == some b)
        drops := (n.dropped ++ [a]).countP (· == b) } := fun b => rfl
  refine ⟨fun b hb => ?_, fun b hb => ?_, fun e he => ?_, ?_, hre.trans href⟩
  · have hbn : b < m.states.next :=
      Nat.lt_of_lt_of_eq hb ((onState_next a State.releaseFuture).trans hnext)
    have hfb := hf b
    rw [hacc, sides_onState hgetn, countP_beq_snoc]
    by_cases hba : b = a
    · subst hba
      rw [if_pos rfl] at hfb
      rw [if_pos rfl, if_pos rfl, hn]
      have hdb : n.dropped.countP (· == b) = (m.sides b).drops := congrArg Sides.drops hn
      rw [hdb]
      exact (h.known b hbn).leave hfb hst hst'
    · rw [if_neg hba, Nat.add_zero] at hfb
      rw [if_neg hba, if_neg hba, Nat.add_zero, hother b hba, hfb]
      have hdb : n.dropped.countP (· == b) = (m.sides b).drops :=
        congrArg Sides.drops (hother b hba)
      rw [hdb]
      exact h.known b hbn
  · have hbn : m.states.next ≤ b :=
      Nat.le_trans (Nat.le_of_eq ((onState_next a State.releaseFuture).trans hnext).symm) hb
    have hba : b ≠ a := Nat.ne_of_gt (Nat.lt_of_lt_of_le hlt hbn)
    have hfb := hf b
    rw [if_neg hba, Nat.add_zero] at hfb
    rw [hacc, sides_onState hgetn, countP_beq_snoc, if_neg hba, if_neg hba, Nat.add_zero,
      hother b hba, hfb]
    have hdb : n.dropped.countP (· == b) = (m.sides b).drops :=
      congrArg Sides.drops (hother b hba)
    rw [hdb]
    exact h.unknown b hbn
  · have he' : e ∈ n.taken := htk ▸ he
    have hmem := htakes e he'
    show _ ∈ (n.onState a State.releaseFuture).released
    rw [hrel]
    exact hmem
  · exact (onState_dangling hgetn State.releaseFuture).trans hdang

theorem sides_allocate (b : Address) : m.allocate.sides b =
    if b = m.states.next then { m.sides b with state := some .fresh } else m.sides b := by
  by_cases hb : b = m.states.next
  · subst hb
    rw [if_pos rfl]
    simp only [sides, allocate, Heap.get_alloc_self]
    rfl
  · rw [if_neg hb]
    simp only [sides, allocate, Heap.get_alloc_ne hb]
    rfl

/-- a new state at `m.states.next`, and its first owners -/
theorem Inv.allocate (h : Inv m) {n : Handles T X} (hnext : n.states.next = m.states.next + 1)
    (hnew : (n.sides m.states.next).Known)
    (hother : ∀ b, b ≠ m.states.next → n.sides b = m.allocate.sides b)
    (ht : n.taken = m.taken) (hr : n.released = m.released) (hd : n.dangling = m.dangling)
    (href : n.refused = m.refused) : Inv n := by
  refine ⟨fun b hb => ?_, fun b hb => ?_, ?_, hd.trans h.dangling, href.trans h.refused⟩
  · by_cases hbn : b = m.states.next
    · rw [hbn]
      exact hnew
    · rw [hother b hbn, sides_allocate, if_neg hbn]
      rw [hnext] at hb
      exact h.known b (Nat.lt_of_le_of_ne (Nat.le_of_lt_succ hb) hbn)
  · rw [hnext] at hb
    have hbn : b ≠ m.states.next := Nat.ne_of_gt hb
    rw [hother b hbn, sides_allocate, if_neg hbn]
    exact h.unknown b (Nat.le_of_succ_le hb)
  · rw [ht, hr]
    exact h.takes

/-! ### one operation -/

theorem owner_toNat : (some a == some b).toNat = if b = a then 1 else 0 := by
  by_cases hb : b = a
  · simp [hb]
  · simp [hb, Ne.symm hb]

/-- a promise that owns a state does not own a slot that a message should release -/
theorem Inv.promise_kind (h : Inv m) (ho : 0 < m.promises.countP (· == some a))
    {r : Release T X} (hr : r ≠ .cleanup) : r = .cleanup ↔ a ∈ m.slots ∧ a ∉ m.transferred := by
  refine ⟨fun he => absurd he hr, fun ⟨hs, ht⟩ => ?_⟩
  have hlt : a < m.states.next := by
    apply h.of_owner
    show 0 < m.promises.countP _ + m.messages.countP _ + m.futures.countP _
    omega
  rcases (h.known a hlt).promise ho with h1 | h1
  · exact absurd (of_decide_eq_true h1) ht
  · exact absurd hs (of_decide_eq_false h1)

theorem Inv.message_kind (h : Inv m) (ho : 0 < m.messages.countP (·.owned == some a)) :
    a ∈ m.slots ∧ a ∉ m.transferred := by
  have hlt : a < m.states.next := by
    apply h.of_owner
    show 0 < m.promises.countP _ + m.messages.countP _ + m.futures.countP _
    omega
  obtain ⟨h1, h2⟩ := (h.known a hlt).message ho
  exact ⟨of_decide_eq_true h1, of_decide_eq_false h2⟩

/-- a promise with a state gives it up -/
theorem Inv.settle (h : Inv m) {r : Release T X} (hr : r ≠ .cleanup)
    {promises : List (Option Address)}
    (hp : ∀ b, promises.countP (· == some b) + (some a == some b).toNat
      = m.promises.countP (· == some b)) :
    Inv { m.releaseProducer a r with promises := promises } := by
  have hpa := hp a
  rw [owner_toNat, if_pos rfl] at hpa
  refine h.releaseProducer promises (m.releaseProducer a r).messages 1 0 rfl (fun b => ?_)
    (fun b => ?_) (h.promise_kind (by omega) hr)
  · rw [← hp b, owner_toNat]
  · rw [show (m.releaseProducer a r).messages = m.messages from (onState_rest a r.call).2.2.1]
    split <;> rfl

theorem Inv.dropPromise (h : Inv m) {o : Option Address} {promises : List (Option Address)}
    (hp : ∀ b, promises.countP (· == some b) + (o == some b).toNat
      = m.promises.countP (· == some b)) : Inv { m.dropPromise o with promises := promises } := by
  cases o with
  | none => exact h.moved hp (fun _ => rfl) (fun _ => rfl)
  | some a => exact h.settle (by simp) hp

theorem Inv.dropFuture (h : Inv m) {o : Option Address} {futures : List (Option Address)}
    (hf : ∀ b, futures.countP (· == some b) + (o == some b).toNat
      = m.futures.countP (· == some b)) : Inv { m.dropFuture o with futures := futures } := by
  cases o with
  | none => exact h.moved (fun _ => rfl) hf (fun _ => rfl)
  | some a =>
    have hfa := hf a
    rw [owner_toNat, if_pos rfl] at hfa
    have hlt : a < m.states.next := by
      apply h.of_owner
      show 0 < m.promises.countP _ + m.messages.countP _ + m.futures.countP _
      omega
    have hk := h.known a hlt
    have hdrops : (m.sides a).drops = 0 := by
      have hfu := hk.future
      have hon := hk.once
      have h1 : (m.sides a).futs = m.futures.countP (· == some a) := rfl
      omega
    obtain ⟨st, hst⟩ := hk.alive (Or.inr hdrops)
    refine h.releaseFuture hst (Or.inl rfl) ?_ (fun _ _ => rfl) rfl h.takes h.dangling h.refused
      (fun b => ?_)
    · rw [← hst]
    · rw [← owner_toNat]
      exact hf b

theorem Inv.dropMessage (h : Inv m) {msg : SlotMessage} {messages : List SlotMessage}
    (hm : ∀ b, messages.countP (·.owned == some b) + (msg.owned == some b).toNat
      = m.messages.countP (·.owned == some b)) :
    Inv { m.dropMessage msg with messages := messages } := by
  unfold Handles.dropMessage
  cases ho : msg.owned with
  | none =>
    rw [ho] at hm
    exact h.moved (fun _ => rfl) (fun _ => rfl) hm
  | some a =>
    rw [ho] at hm
    have hma := hm a
    rw [owner_toNat, if_pos rfl] at hma
    have hkind := h.message_kind (a:=a) (by omega)
    refine h.releaseProducer (m.releaseProducer a .cleanup).promises _ 0 1 rfl (fun b => ?_)
      (fun b => ?_) ⟨fun _ => hkind, fun _ => rfl⟩
    · rw [show (m.releaseProducer a .cleanup).promises = m.promises from (onState_rest a _).1]
      split <;> rfl
    · rw [← hm b, owner_toNat]

/-- `take_ready()` finds a value: it neither touches a freed state nor aborts -/
theorem Inv.takeReady (h : Inv m) {i : Nat} (hi : m.futures[i]? = some (some a)) {n : Handles T X}
    (hs : m.takeReady i a = some n) : Inv n := by
  have hset := fun b => TS.countP_set hi (· == some b) none
  have hfa := hset a
  simp only [owner_toNat, if_pos] at hfa
  have hlt : a < m.states.next := by
    apply h.of_owner
    show 0 < m.promises.countP _ + m.messages.countP _ + m.futures.countP _
    have hz : (none == some a).toNat = 0 := rfl
    omega
  have hk := h.known a hlt
  have hdrops : (m.sides a).drops = 0 := by
    have hfu := hk.future
    have hon := hk.once
    have h1 : (m.sides a).futs = m.futures.countP (· == some a) := rfl
    have hz : (none == some a).toNat = 0 := rfl
    omega
  obtain ⟨st, hst⟩ := hk.alive (Or.inr hdrops)
  have hst : m.states.get a = some st := hst
  have hh := hk.here st hst
  unfold Handles.takeReady at hs
  rw [hst] at hs
  dsimp only at hs
  obtain ⟨hready, hs⟩ := Option.ite_none_right_eq_some.mp hs
  obtain ⟨hr, he⟩ := Bool.and_eq_true_iff.mp hready
  have hone : (m.sides a).releases.length = 1 := of_decide_eq_true (hh.ready.symm.trans hr)
  obtain ⟨r, hrel⟩ := List.length_eq_one_iff.mp hone
  have htell := hh.tells r (by rw [hrel]; exact List.mem_singleton.mpr rfl)
  have hmem : (a, r) ∈ m.released := by
    have hm : r ∈ (m.sides a).releases := by rw [hrel]; exact List.mem_singleton.mpr rfl
    obtain ⟨⟨b, r'⟩, hemem, hee⟩ := List.mem_filterMap.mp hm
    obtain ⟨hba, heq⟩ := Option.ite_none_right_eq_some.mp hee
    rw [show b = a from hba, show r' = r from Option.some.inj heq] at hemem
    exact hemem
  -- the outcome is a value, because the state has not failed
  have hval : ∃ v, r = .set (.value v) ∧ st.value = some v := by
    have herr : st.hasError = false := by simpa using he
    cases r with
    | set o =>
      cases o with
      | value v => exact ⟨v, rfl, htell.2.2⟩
      | error ec => exact absurd (htell.1.symm.trans herr) (by simp)
      | exception ep => exact absurd (htell.1.symm.trans herr) (by simp)
    | abandoned => exact absurd (htell.1.symm.trans herr) (by simp)
    | cleanup => exact absurd (htell.1.symm.trans herr) (by simp)
  obtain ⟨v, rfl, hv⟩ := hval
  obtain ⟨st', htake, hprom, hfin⟩ := State.takeValue_spec hv
  rw [htake] at hs
  cases hs
  let n : Handles T X := { m with
    states := m.states.modify a fun _ => st'
    taken := m.taken ++ [(a, v)] }
  refine Inv.releaseFuture (n:=n) h hst (Or.inr ⟨hone, hprom, hfin⟩) ?_ (fun b hb => ?_) rfl
    (fun e he => ?_) h.dangling h.refused (fun b => ?_)
  · simp only [n, sides, Heap.get_modify_self hst]
  · simp only [n, sides, Heap.get_modify_ne hb]
  · rcases List.mem_append.mp he with he | he
    · exact h.takes e he
    · rw [List.mem_singleton.mp he]
      exact hmem
  · rw [← owner_toNat]
    exact hset b

/-- move assignment onto a different handle: the source `j` is emptied, the target `i` gets what
it held, and what the target held is given up -/
theorem countP_assign {l : List (Option Address)} {i j : Nat} {x y : Option Address}
    (hi : l[i]? = some x) (hj : l[j]? = some y) (hij : i ≠ j) (b : Address) :
    ((l.set j none).set i y).countP (· == some b) + (x == some b).toNat
      = l.countP (· == some b) := by
  have hi' : (l.set j none)[i]? = some x := by rw [List.getElem?_set_ne (Ne.symm hij), hi]
  have h1 := TS.countP_set hi' (· == some b) y
  have h2 := TS.countP_set hj (· == some b) none
  have hz : (none == some b).toNat = 0 := rfl
  omega

/-- a handle is emptied -/
theorem countP_reset {l : List (Option Address)} {i : Nat} {x : Option Address}
    (hi : l[i]? = some x) (b : Address) :
    (l.set i none).countP (· == some b) + (x == some b).toNat = l.countP (· == some b) := by
  have h1 := TS.countP_set hi (· == some b) none
  have hz : (none == some b).toNat = 0 := rfl
  omega

/-- move construction -/
theorem countP_move {l : List (Option Address)} {i : Nat} {x : Option Address}
    (hi : l[i]? = some x) (b : Address) :
    (l.set i none ++ [x]).countP (· == some b) = l.countP (· == some b) := by
  have h1 := countP_reset hi b
  rw [List.countP_append, List.countP_singleton]
  cases hx : x == some b <;> simp [hx] at h1 ⊢ <;> omega

theorem countP_snoc_none (l : List (Option Address)) (b : Address) :
    (l ++ [none]).countP (· == some b) = l.countP (· == some b) := by
  rw [List.countP_append, List.countP_singleton]
  rfl

theorem countP_snoc_some (l : List (Option Address)) (a b : Address) :
    (l ++ [some a]).countP (· == some b)
      = l.countP (· == some b) + if b = a then 1 else 0 := by
  rw [List.countP_append, List.countP_singleton]
  by_cases hb : b = a
  · simp [hb]
  · simp [hb, Ne.symm hb]

theorem Inv.newPromise (h : Inv m) :
    Inv { m.allocate with promises := m.promises ++ [some m.states.next] } := by
  have hz := h.unknown m.states.next (Nat.le_refl _)
  have hacc : ∀ b, sides { m.allocate with promises := m.promises ++ [some m.states.next] } b =
      { m.allocate.sides b with
        proms := (m.sides b).proms + if b = m.states.next then 1 else 0 } := by
    intro b
    simp only [sides, countP_snoc_some]
  refine h.allocate rfl ?_ (fun b hb => ?_) rfl rfl rfl rfl
  · rw [hacc, sides_allocate, if_pos rfl, if_pos rfl, hz]
    exact Sides.known_promise
  · rw [hacc, if_neg hb]
    rfl

theorem countP_owned_snoc (l : List SlotMessage) (msg : SlotMessage) (b : Address) :
    (l ++ [msg]).countP (·.owned == some b)
      = l.countP (·.owned == some b) + (msg.owned == some b).toNat := by
  rw [List.countP_append, List.countP_singleton]
  cases msg.owned == some b <;> rfl

theorem Inv.makeMessage (h : Inv m) (command : Nat) :
    Inv { m.allocate with
      messages := m.messages ++ [(SlotMessage.empty command).initFutureSlot m.states.next]
      futures := m.futures ++ [some m.states.next]
      asked := m.asked ++ [m.states.next]
      slots := m.slots ++ [m.states.next] } := by
  have hz := h.unknown m.states.next (Nat.le_refl _)
  have hacc : ∀ b, sides { m.allocate with
      messages := m.messages ++ [(SlotMessage.empty command).initFutureSlot m.states.next]
      futures := m.futures ++ [some m.states.next]
      asked := m.asked ++ [m.states.next]
      slots := m.slots ++ [m.states.next] } b =
      { m.allocate.sides b with
        msgs := (m.sides b).msgs + if b = m.states.next then 1 else 0
        futs := (m.sides b).futs + if b = m.states.next then 1 else 0
        asks := (m.sides b).asks + if b = m.states.next then 1 else 0
        slot := (m.sides b).slot || decide (b = m.states.next) } := by
    intro b
    simp only [sides, countP_owned_snoc, countP_snoc_some, countP_beq_snoc, List.mem_append,
      List.mem_singleton, Bool.decide_or]
    rw [show ((SlotMessage.empty command).initFutureSlot m.states.next).owned
      = some m.states.next from rfl, owner_toNat]
  refine h.allocate rfl ?_ (fun b hb => ?_) rfl rfl rfl rfl
  · rw [hacc, sides_allocate, if_pos rfl, if_pos rfl, hz, decide_eq_true rfl]
    exact Sides.known_message
  · rw [hacc, if_neg hb, decide_eq_false hb, Bool.or_false]
    rfl

/-- the accounts of one address change, and nothing else -/
theorem Inv.change (h : Inv m) {n : Handles T X} (hnext : n.states.next = m.states.next)
    (hlt : a < m.states.next) (hnew : (n.sides a).Known)
    (hother : ∀ b, b ≠ a → n.sides b = m.sides b)
    (ht : n.taken = m.taken) (hr : n.released = m.released) (hd : n.dangling = m.dangling)
    (href : n.refused = m.refused) : Inv n := by
  refine ⟨fun b hb => ?_, fun b hb => ?_, ?_, hd.trans h.dangling, href.trans h.refused⟩
  · by_cases hba : b = a
    · rw [hba]
      exact hnew
    · rw [hother b hba]
      rw [hnext] at hb
      exact h.known b hb
  · rw [hnext] at hb
    have hba : b ≠ a := Nat.ne_of_gt (Nat.lt_of_lt_of_le hlt hb)
    rw [hother b hba]
    exact h.unknown b hb
  · rw [ht, hr]
    exact h.takes

theorem Inv.getFuture (h : Inv m) {i : Nat} (hi : m.promises[i]? = some (some a))
    (ha : a ∉ m.asked) :
    Inv { m with futures := m.futures ++ [some a], asked := m.asked ++ [a] } := by
  have hpos : 0 < m.promises.countP (· == some a) :=
    List.countP_pos_iff.mpr ⟨some a, List.mem_of_getElem? hi, by simp⟩
  have hlt : a < m.states.next := by
    apply h.of_owner
    show 0 < m.promises.countP _ + m.messages.countP _ + m.futures.countP _
    omega
  have hasks : (m.sides a).asks = 0 := by
    show m.asked.countP (· == a) = 0
    rw [List.countP_eq_zero]
    intro b hb hba
    rw [eq_of_beq hba] at hb
    exact ha hb
  have hacc : ∀ b, sides { m with futures := m.futures ++ [some a], asked := m.asked ++ [a] } b =
      { m.sides b with
        futs := (m.sides b).futs + if b = a then 1 else 0
        asks := (m.sides b).asks + if b = a then 1 else 0 } := by
    intro b
    simp only [sides, countP_snoc_some, countP_beq_snoc]
  refine h.change rfl hlt ?_ (fun b hb => ?_) rfl rfl rfl rfl
  · rw [hacc, if_pos rfl]
    exact (h.known a hlt).ask hasks
  · rw [hacc, if_neg hb]
    rfl

theorem Inv.dispatch (h : Inv m) {i : Nat} {msg : SlotMessage} (hi : m.messages[i]? = some msg)
    (ho : msg.owned = some a) :
    Inv { m with
      promises := m.promises ++ [some a]
      messages := m.messages.set i { msg with ownershipTransferred := true }
      transferred := m.transferred ++ [a] } := by
  have hset : ∀ b, (m.messages.set i { msg with ownershipTransferred := true }).countP
      (·.owned == some b) + (if b = a then 1 else 0) = (m.sides b).msgs := by
    intro b
    have h1 := TS.countP_set hi (·.owned == some b) { msg with ownershipTransferred := true }
    have hz : (SlotMessage.owned { msg with ownershipTransferred := true } == some b) = false := rfl
    rw [ho, owner_toNat, hz] at h1
    exact h1
  have hseta := hset a
  rw [if_pos rfl] at hseta
  have hlt : a < m.states.next := by
    apply h.of_owner
    omega
  have hacc : ∀ b, sides { m with
      promises := m.promises ++ [some a]
      messages := m.messages.set i { msg with ownershipTransferred := true }
      transferred := m.transferred ++ [a] } b =
      { m.sides b with
        proms := (m.sides b).proms + if b = a then 1 else 0
        msgs := (m.messages.set i { msg with ownershipTransferred := true }).countP
          (·.owned == some b)
        transferred := (m.sides b).transferred || decide (b = a) } := by
    intro b
    simp only [sides, countP_snoc_some, List.mem_append, List.mem_singleton, Bool.decide_or]
  refine h.change rfl hlt ?_ (fun b hb => ?_) rfl rfl rfl rfl
  · rw [hacc, if_pos rfl, decide_eq_true rfl, Bool.or_true]
    exact (h.known a hlt).transfer hseta
  · have hsetb := hset b
    rw [if_neg hb, Nat.add_zero] at hsetb
    rw [hacc, if_neg hb, decide_eq_false hb, Bool.or_false, hsetb]
    rfl

end Handles
end ActorZeta
