import ActorZeta.SharedState.Fate

/-!
# shared_state: what the flags say about the outcome

The flags are read one load at a time by a thread that knows nothing else.  Here every flag is
tied to what has happened: to the outcomes the producer has published and to `take_value()`.

* `stepVisible`        the two sides, with a consumer that may call `take_value()` as soon as it has
                       seen a result, and again (the callers in the library are stricter: `Race.step`);
* `published`, `taken` what has happened in a history;
* `Account`            flags, error, exception and value as functions of the history;
* `settled_outcome`    the invariants of the flag word, over whole runs.
-/

namespace ActorZeta
open StateFlags

/-- the flags that are never cleared: all but `promise_finalizing` -/
def StateFlags.lasting : List Word := [valueSet, errorSet, consumed, promiseReleased, futureReleased]

namespace Outcome
variable {T X : Type}

def isValue : Outcome T X → Bool
  | .value _ => true
  | _ => false

theorem flag_value (o : Outcome T X) : o.flag.has valueSet = o.isValue := by
  cases o <;> simp [flag, isValue]

theorem flag_error (o : Outcome T X) : o.flag.has errorSet = !o.isValue := by
  cases o <;> simp [flag, isValue]

/-- an outcome is a value or a failure -/
theorem any_isValue (os : List (Outcome T X)) :
    (os.any isValue || os.any fun o => !o.isValue) = !os.isEmpty := by
  cases os with
  | nil => rfl
  | cons o os => cases h : o.isValue <;> simp [h]

theorem flag_consumed (o : Outcome T X) : o.flag.has consumed = false := by
  cases o <;> simp [flag]

end Outcome

namespace State
variable {T X : Type}

/-- the plain writes of several outcomes, one after the other -/
def record (os : List (Outcome T X)) : State T X := os.foldl write fresh

theorem record_snoc (os : List (Outcome T X)) (o : Outcome T X) :
    record (os ++ [o]) = (record os).write o := by
  unfold record
  rw [List.foldl_append]
  rfl

theorem holdsValue_eq (s : State T X) : s.holdsValue =
    (s.flags.has valueSet && !s.flags.has errorSet && !s.flags.has consumed) := by
  have h : ∀ w : Word, (w &&& (valueSet ||| errorSet ||| consumed) == valueSet) =
      (w.has valueSet && !w.has errorSet && !w.has consumed) := by decide +kernel
  exact h s.flags

end State

namespace Producer
variable {T X : Type}

/-- the outcomes still to be published -/
def pending : Producer T X → List (Outcome T X)
  | .writing o todo | .publishing o todo => o :: todo
  | _ => []

/-- the outcome whose fields are written and whose flag is not raised yet -/
def inFlight : Producer T X → List (Outcome T X)
  | .publishing o _ => [o]
  | _ => []

/-- past the load of `release_promise()` and the repair it may have asked for -/
def repaired : Producer T X → Bool
  | .relOr _ => true
  | p => p.released

theorem start_pending (exit : Exit) (todo : List (Outcome T X)) :
    (start exit todo).pending = todo := by
  cases todo <;> cases exit <;> rfl

theorem start_inFlight (exit : Exit) (todo : List (Outcome T X)) :
    (start exit todo).inFlight = [] := by
  cases todo <;> cases exit <;> rfl

theorem start_repaired (exit : Exit) (todo : List (Outcome T X)) :
    (start exit todo).repaired = false := by
  cases todo <;> cases exit <;> rfl

theorem start_early (exit : Exit) (todo : List (Outcome T X)) :
    (start exit todo ≠ .relError) ∧ ∀ bits, start exit todo ≠ .relOr bits := by
  cases todo <;> cases exit <;> simp [start]

theorem afterRelease_place (exit : Exit) :
    (afterRelease exit : Producer T X) = .done false none ∨
      (afterRelease exit : Producer T X) = .finLoad := by
  cases exit
  · exact Or.inr rfl
  · exact Or.inr rfl
  · exact Or.inl rfl

end Producer

namespace Consumer
variable {T X : Type}

/-- one step of a consumer that calls `take_value()` whenever its last load saw a result.  Where
there is no value a `take()` of a non-void type aborts, and one of `void` takes nothing. -/
def stepVisible (m : Mem T X) : RaceAct → Consumer T → Option (Mem T X × Consumer T)
  | .take, .holding seen _ _ =>
    if seen.has resultSet then some (m.access (·.fetchOr consumed), .taking seen) else none
  | .consume, .taking seen =>
    some (m.access ({ · with value := none }), .holding seen true m.st.value)
  | a, c => c.step m a

theorem step_visible {m : Mem T X} {a : RaceAct} {c : Consumer T} {n : Mem T X × Consumer T}
    (h : c.step m a = some n) : c.stepVisible m a = some n := by
  cases a <;> cases c <;> try exact h
  case take seen took got =>
    cases took with
    | true => cases h
    | false =>
      obtain ⟨he, h⟩ := Option.ite_none_right_eq_some.mp h
      have hr : seen.has resultSet = true := (Bool.and_eq_true_iff.mp he).1
      exact (if_pos hr).trans h
  case consume seen =>
    obtain ⟨v, hv, rfl⟩ := Option.map_eq_some_iff.mp h
    show some (_, _) = _
    rw [hv]

end Consumer

namespace Race
variable {T X : Type}

def stepVisible (r : Race T X) : RaceAct → Option (Race T X)
  | .produce => r.step .produce
  | a => (r.cons.stepVisible r.mem a).map fun p => { r with mem := p.1, cons := p.2 }

/-- the consumer of the library is one of these -/
theorem step_visible {r r' : Race T X} {a : RaceAct} (h : r.step a = some r') :
    r.stepVisible a = some r' := by
  cases a with
  | produce => exact h
  | poll | take | release | consume =>
    obtain ⟨p, hp, rfl⟩ := Option.map_eq_some_iff.mp h
    exact Option.map_eq_some_iff.mpr ⟨p, Consumer.step_visible hp, rfl⟩

/-! ## the history -/

/-- the outcome whose flag this step raises -/
def publishes : Race T X × RaceAct → Option (Outcome T X)
  | (r, .produce) => match r.prod with
    | .publishing o _ => some o
    | _ => none
  | _ => none

/-- the outcomes set so far, in order -/
def published (V : List (Race T X × RaceAct)) : List (Outcome T X) := V.filterMap publishes

/-- `take_value()` has been called -/
def taken (V : List (Race T X × RaceAct)) : Bool := V.any fun v => v.2 == .take

theorem published_snoc (V : List (Race T X × RaceAct)) (v : Race T X × RaceAct) :
    published (V ++ [v]) = published V ++ (publishes v).toList := by
  unfold published
  rw [List.filterMap_append]
  cases h : publishes v <;> simp [h]

theorem taken_snoc (V : List (Race T X × RaceAct)) (v : Race T X × RaceAct) :
    taken (V ++ [v]) = (taken V || v.2 == .take) := by
  unfold taken
  rw [List.any_append, List.any_cons, List.any_nil, Bool.or_false]

/-! ## the account -/

/-- flags and fields as functions of the history `V` of a producer that sets the outcomes `outs` -/
structure Account (outs : List (Outcome T X)) (V : List (Race T X × RaceAct)) (r : Race T X) :
    Prop where
  todo : published V ++ r.prod.pending = outs
  bits : ∀ bits, r.prod = .relOr bits →
    bits = if outs.isEmpty then promiseReleased ||| errorSet else promiseReleased
  repair : r.prod = .relError → outs = []
  taking : ∀ seen, r.cons = .taking seen → taken V = true
  value : r.mem.st.flags.has valueSet = (published V).any Outcome.isValue
  error : r.mem.st.flags.has errorSet =
    ((published V).any (fun o => !o.isValue) || (outs.isEmpty && r.prod.released))
  consumed : r.mem.st.flags.has consumed = taken V
  released : r.mem.st.flags.has promiseReleased = r.prod.released
  code : r.mem.st.error = if outs.isEmpty && r.prod.repaired then .errc .stateNotRecoverable
    else (State.record (published V ++ r.prod.inFlight)).error
  exception : r.mem.st.exception = (State.record (published V ++ r.prod.inFlight)).exception
  stored : r.mem.st.value = (State.record (published V ++ r.prod.inFlight)).value ∨
    taken V = true ∧ r.mem.st.value = none

variable {outs : List (Outcome T X)} {V : List (Race T X × RaceAct)} {r : Race T X} {a : RaceAct}

theorem account_init (exit : Exit) (outs : List (Outcome T X)) :
    Account outs [] ⟨exit, .fresh, .start exit outs, .holding empty false none⟩ := by
  obtain ⟨herr, hor⟩ := Producer.start_early (T:=T) (X:=X) exit outs
  have hr := start_released exit outs
  refine ⟨Producer.start_pending exit outs, fun bits hb => absurd hb (hor bits),
    fun he => absurd he herr, fun _ hc => (by cases hc), ?_, ?_, ?_, ?_, ?_, ?_, ?_⟩
  · simp [Mem.fresh, State.fresh, published]
  · simp [Mem.fresh, State.fresh, published, hr]
  · simp [Mem.fresh, State.fresh, taken]
  · simp [Mem.fresh, State.fresh, hr]
  · simp [Mem.fresh, State.fresh, published, Producer.start_inFlight, Producer.start_repaired,
      State.record]
  · simp [Mem.fresh, State.fresh, published, Producer.start_inFlight, State.record]
  · exact Or.inl (by simp [Mem.fresh, State.fresh, published, Producer.start_inFlight, State.record])

/-- the steps at which nothing happens to the outcome -/
theorem Account.keep (h : Account outs V r) (hp : publishes (r, a) = none) (ha : (a == .take) = false)
    {m : Mem T X} {p : Producer T X} {c : Consumer T}
    (hflags : ∀ k ∈ [valueSet, errorSet, StateFlags.consumed, promiseReleased],
      m.st.flags.has k = r.mem.st.flags.has k)
    (hcode : m.st.error = r.mem.st.error) (hexc : m.st.exception = r.mem.st.exception)
    (hval : m.st.value = r.mem.st.value ∨ taken V = true ∧ m.st.value = none)
    (hpend : p.pending = r.prod.pending) (hfl : p.inFlight = r.prod.inFlight)
    (hrel : p.released = r.prod.released) (hrep : p.repaired = r.prod.repaired)
    (hor : ∀ bits, p = .relOr bits → r.prod = .relOr bits)
    (herr : p = .relError → r.prod = .relError)
    (htk : ∀ seen, c = .taking seen → r.cons = .taking seen) :
    Account outs (V ++ [(r, a)]) { r with mem := m, prod := p, cons := c } := by
  have hpub : published (V ++ [(r, a)]) = published V := by
    rw [published_snoc, hp]
    exact List.append_nil _
  have htaken : taken (V ++ [(r, a)]) = taken V := by
    rw [taken_snoc, ha, Bool.or_false]
  refine ⟨?_, fun b hb => h.bits b (hor b hb), fun he => h.repair (herr he), ?_, ?_, ?_, ?_, ?_,
    ?_, ?_, ?_⟩
  · rw [hpub, hpend]
    exact h.todo
  · intro seen hc
    rw [htaken]
    exact h.taking seen (htk seen hc)
  · rw [hpub, hflags _ (by simp)]
    exact h.value
  · rw [hpub, hrel, hflags _ (by simp)]
    exact h.error
  · rw [htaken, hflags _ (by simp)]
    exact h.consumed
  · rw [hflags _ (by simp), hrel]
    exact h.released
  · rw [hpub, hfl, hrep, hcode]
    exact h.code
  · rw [hpub, hfl, hexc]
    exact h.exception
  · rw [hpub, hfl, htaken]
    rcases hval with he | hn
    · rw [he]
      exact h.stored
    · exact Or.inr hn

/-- the plain writes of an outcome: `set_value`, `set_error`, `set_exception` before their
`fetch_or` -/
theorem Account.write (h : Account outs V r) {o : Outcome T X} {todo : List (Outcome T X)}
    (hpc : r.prod = .writing o todo) : Account outs (V ++ [(r, .produce)])
      { r with mem := r.mem.access (·.write o), prod := .publishing o todo } := by
  have hpub : published (V ++ [(r, .produce)]) = published V := by
    rw [published_snoc, publishes, hpc]
    exact List.append_nil _
  have htaken : taken (V ++ [(r, .produce)]) = taken V := by
    rw [taken_snoc]
    exact Bool.or_false _
  have hfl : r.prod.inFlight = [] := by rw [hpc]; rfl
  have htodo := h.todo
  have hcode := h.code
  have hexc := h.exception
  have hst := h.stored
  rw [hfl, List.append_nil] at hcode hexc hst
  rw [hpc] at htodo hcode
  have hne : outs.isEmpty = false := by
    rw [← htodo]
    simp [Producer.pending]
  refine ⟨?_, fun b hb => (by cases hb), fun he => (by cases he), ?_, ?_, ?_, ?_, ?_, ?_, ?_, ?_⟩
  · rw [hpub]
    exact htodo
  · rw [htaken]
    exact h.taking
  · rw [hpub]
    exact (congrArg (Word.has · valueSet) (State.write_flags _ o)).trans h.value
  · rw [hpub, hne]
    have he := h.error
    rw [hne] at he
    exact (congrArg (Word.has · errorSet) (State.write_flags _ o)).trans he
  · rw [htaken]
    exact (congrArg (Word.has · StateFlags.consumed) (State.write_flags _ o)).trans h.consumed
  · have hr := h.released
    rw [hpc] at hr
    exact (congrArg (Word.has · promiseReleased) (State.write_flags _ o)).trans hr
  · rw [hpub, hne]
    rw [hne] at hcode
    show _ = (State.record (published V ++ [o])).error
    rw [State.record_snoc]
    cases o with
    | value v => exact hcode
    | error ec => rfl
    | exception ep => rfl
  · rw [hpub]
    show _ = (State.record (published V ++ [o])).exception
    rw [State.record_snoc]
    cases o with
    | value v => exact hexc
    | error ec => exact hexc
    | exception ep => rfl
  · rw [hpub, htaken]
    show _ = (State.record (published V ++ [o])).value ∨ _
    rw [State.record_snoc]
    cases o with
    | value v => exact Or.inl rfl
    | error ec => exact hst
    | exception ep => exact hst

/-- the `fetch_or` that raises an outcome's flag -/
theorem Account.publish (h : Account outs V r) {o : Outcome T X} {todo : List (Outcome T X)}
    (hpc : r.prod = .publishing o todo) : Account outs (V ++ [(r, .produce)])
      { r with mem := r.mem.access (·.fetchOr o.flag), prod := .start r.exit todo } := by
  have hpub : published (V ++ [(r, .produce)]) = published V ++ [o] := by
    rw [published_snoc, publishes, hpc]
    rfl
  have htaken : taken (V ++ [(r, .produce)]) = taken V := by
    rw [taken_snoc]
    exact Bool.or_false _
  have htodo := h.todo
  have hcode := h.code
  have hexc := h.exception
  have hst := h.stored
  have herror := h.error
  have hrel := h.released
  rw [hpc] at htodo hcode hexc hst herror hrel
  have hne : outs.isEmpty = false := by
    rw [← htodo]
    simp [Producer.pending]
  obtain ⟨herr, hor⟩ := Producer.start_early (T:=T) (X:=X) r.exit todo
  refine ⟨?_, fun b hb => absurd hb (hor b), fun he => absurd he herr, ?_, ?_, ?_, ?_, ?_, ?_, ?_,
    ?_⟩
  · rw [hpub, Producer.start_pending, List.append_assoc]
    exact htodo
  · rw [htaken]
    exact h.taking
  · rw [hpub, List.any_append, ← h.value]
    show (r.mem.st.flags ||| o.flag).has valueSet = _
    rw [Word.has_or, Outcome.flag_value]
    simp
  · rw [hne] at herror ⊢
    rw [hpub, List.any_append]
    show (r.mem.st.flags ||| o.flag).has errorSet = _
    rw [Word.has_or, Outcome.flag_error, herror]
    simp
  · rw [htaken, ← h.consumed]
    show (r.mem.st.flags ||| o.flag).has StateFlags.consumed = _
    rw [Word.has_or, Outcome.flag_consumed, Bool.or_false]
  · rw [start_released]
    show (r.mem.st.flags ||| o.flag).has promiseReleased = _
    rw [Word.has_or, hrel, (Outcome.flag_has o).1]
    rfl
  · rw [hne] at hcode ⊢
    rw [hpub, Producer.start_inFlight, List.append_nil]
    exact hcode
  · rw [hpub, Producer.start_inFlight, List.append_nil]
    exact hexc
  · rw [hpub, htaken, Producer.start_inFlight, List.append_nil]
    exact hst

/-- a result is visible exactly when something was set, or the repair has been published -/
theorem Account.hasResult (h : Account outs V r) : r.mem.st.hasResult =
    (!(published V).isEmpty || (outs.isEmpty && r.prod.released)) := by
  unfold State.hasResult
  rw [Word.has_resultSet, h.value, h.error, ← Bool.or_assoc, Outcome.any_isValue]

/-- the load of `release_promise()` finds no result exactly when nothing was set -/
theorem Account.relLoad (h : Account outs V r) (hpc : r.prod = .relLoad) :
    Account outs (V ++ [(r, .produce)]) { r with
      mem := r.mem.load
      prod := if r.mem.st.flags.has resultSet then .relOr promiseReleased else .relError } := by
  have hpub : published (V ++ [(r, .produce)]) = published V := by
    rw [published_snoc, publishes, hpc]
    exact List.append_nil _
  have htaken : taken (V ++ [(r, .produce)]) = taken V := by
    rw [taken_snoc]
    exact Bool.or_false _
  have hall : published V = outs := by
    have htodo := h.todo
    rw [hpc] at htodo
    rwa [show (Producer.relLoad : Producer T X).pending = [] from rfl, List.append_nil] at htodo
  have hres : r.mem.st.flags.has resultSet = !outs.isEmpty := by
    have hr := h.hasResult
    rw [hpc, hall, show (Producer.relLoad : Producer T X).released = false from rfl,
      Bool.and_false, Bool.or_false] at hr
    exact hr
  have hcode := h.code
  have hexc := h.exception
  have hst := h.stored
  have herror := h.error
  have hrel := h.released
  rw [hpc] at hcode hexc hst herror hrel
  rw [hres]
  cases houts : outs.isEmpty with
  | false =>
    rw [houts] at hcode herror
    rw [Bool.not_false, if_pos rfl]
    refine ⟨by rw [hpub, hall]; exact List.append_nil _, fun bits hb => ?_,
      fun he => (by cases he), by rw [htaken]; exact h.taking, by rw [hpub]; exact h.value, ?_,
      by rw [htaken]; exact h.consumed, hrel, ?_, by rw [hpub]; exact hexc,
      by rw [hpub, htaken]; exact hst⟩
    · cases hb
      rw [houts]
      rfl
    · rw [hpub, houts]
      exact herror
    · rw [hpub, houts]
      exact hcode
  | true =>
    rw [Bool.not_true, if_neg Bool.false_ne_true]
    refine ⟨by rw [hpub, hall]; exact List.append_nil _, fun bits hb => (by cases hb),
      fun _ => List.isEmpty_iff.mp houts, by rw [htaken]; exact h.taking,
      by rw [hpub]; exact h.value, by rw [hpub]; exact herror,
      by rw [htaken]; exact h.consumed, hrel, by rw [hpub]; exact hcode, by rw [hpub]; exact hexc,
      by rw [hpub, htaken]; exact hst⟩

/-- the repair: `state_not_recoverable` for a producer that set nothing -/
theorem Account.relError (h : Account outs V r) (hpc : r.prod = .relError) :
    Account outs (V ++ [(r, .produce)]) { r with
      mem := r.mem.access ({ · with error := .errc .stateNotRecoverable })
      prod := .relOr (promiseReleased ||| errorSet) } := by
  have hpub : published (V ++ [(r, .produce)]) = published V := by
    rw [published_snoc, publishes, hpc]
    exact List.append_nil _
  have htaken : taken (V ++ [(r, .produce)]) = taken V := by
    rw [taken_snoc]
    exact Bool.or_false _
  have houts : outs.isEmpty = true := List.isEmpty_iff.mpr (h.repair hpc)
  have htodo := h.todo
  have hexc := h.exception
  have hst := h.stored
  have herror := h.error
  have hrel := h.released
  rw [hpc] at htodo hexc hst herror hrel
  refine ⟨by rw [hpub]; exact htodo, fun bits hb => ?_, fun he => (by cases he),
    by rw [htaken]; exact h.taking, by rw [hpub]; exact h.value, by rw [hpub]; exact herror,
    by rw [htaken]; exact h.consumed, hrel, ?_, by rw [hpub]; exact hexc,
    by rw [hpub, htaken]; exact hst⟩
  · cases hb
    rw [houts]
    rfl
  · rw [houts]
    rfl

/-- the `fetch_or` of `release_promise()`: one access publishes the release and, where nothing was
set, the error -/
theorem Account.relOr (h : Account outs V r) {bits : Word} (hpc : r.prod = .relOr bits)
    {p : Producer T X} (hp : p.released = true) (hpend : p.pending = []) (hfl : p.inFlight = [])
    (hrep : p.repaired = true) (hor : ∀ b, p ≠ .relOr b) (herr : p ≠ .relError) :
    Account outs (V ++ [(r, .produce)])
      { r with mem := r.mem.access (·.fetchOr bits), prod := p } := by
  have hpub : published (V ++ [(r, .produce)]) = published V := by
    rw [published_snoc, publishes, hpc]
    exact List.append_nil _
  have htaken : taken (V ++ [(r, .produce)]) = taken V := by
    rw [taken_snoc]
    exact Bool.or_false _
  have hbits := h.bits bits hpc
  have htodo := h.todo
  have hcode := h.code
  have hexc := h.exception
  have hst := h.stored
  have herror := h.error
  rw [hpc] at htodo hcode hexc hst herror
  have hor' : ∀ k, (r.mem.access (·.fetchOr bits)).st.flags.has k
      = (r.mem.st.flags.has k || bits.has k) := fun k => Word.has_or _ _ k
  have hb : bits.has valueSet = false ∧ bits.has errorSet = outs.isEmpty ∧
      bits.has StateFlags.consumed = false ∧ bits.has promiseReleased = true := by
    rw [hbits]
    cases outs.isEmpty <;> simp
  refine ⟨by rw [hpub, hpend]; exact htodo, fun b he => absurd he (hor b),
    fun he => absurd he herr, by rw [htaken]; exact h.taking, ?_, ?_, ?_, ?_, ?_, ?_, ?_⟩
  · rw [hpub, hor', hb.1, Bool.or_false]
    exact h.value
  · rw [hpub, hor', hb.2.1, hp, Bool.and_true, herror]
    show (_ || (_ && false) || _) = _
    rw [Bool.and_false, Bool.or_false]
  · rw [htaken, hor', hb.2.2.1, Bool.or_false]
    exact h.consumed
  · rw [hor', hb.2.2.2, Bool.or_true, hp]
  · rw [hpub, hfl, hrep]
    exact hcode
  · rw [hpub, hfl]
    exact hexc
  · rw [hpub, hfl, htaken]
    exact hst

theorem account_produce {r' : Race T X} (h : Account outs V r) (hs : r.step .produce = some r') :
    Account outs (V ++ [(r, .produce)]) r' := by
  obtain ⟨⟨m', p'⟩, hp, rfl⟩ := Option.map_eq_some_iff.mp hs
  show Account outs _ { r with mem := m', prod := p' }
  -- a step that publishes nothing keeps the account, if it keeps the result flags and fields
  have hkeep : publishes (r, .produce) = none → m'.st.error = r.mem.st.error →
      m'.st.exception = r.mem.st.exception → m'.st.value = r.mem.st.value →
      (∀ k ∈ [valueSet, errorSet, StateFlags.consumed, promiseReleased],
        m'.st.flags.has k = r.mem.st.flags.has k) →
      p'.pending = r.prod.pending → p'.inFlight = r.prod.inFlight →
      p'.released = r.prod.released → p'.repaired = r.prod.repaired →
      (∀ bits, p' = .relOr bits → r.prod = .relOr bits) → (p' = .relError → r.prod = .relError) →
      Account outs (V ++ [(r, .produce)]) { r with mem := m', prod := p' } :=
    fun hn he hx hv hf h1 h2 h3 h4 h5 h6 =>
      h.keep (c:=r.cons) hn rfl hf he hx (Or.inl hv) h1 h2 h3 h4 h5 h6 fun _ hc => hc
  cases hpc : r.prod <;> rw [hpc] at hp hkeep
  case writing o todo => cases hp; exact h.write hpc
  case publishing o todo => cases hp; exact h.publish hpc
  case relLoad => cases hp; exact h.relLoad hpc
  case relError => cases hp; exact h.relError hpc
  case relOr bits =>
    cases hp
    split
    · exact h.relOr hpc rfl rfl rfl rfl (by simp) (by simp)
    · rcases Producer.afterRelease_place (T:=T) (X:=X) r.exit with he | he <;> rw [he] <;>
        exact h.relOr hpc rfl rfl rfl rfl (by simp) (by simp)
  case done d f => cases hp
  case finCas current =>
    have hn : publishes (r, .produce) = none := by rw [publishes, hpc]
    simp only [Producer.step] at hp
    split at hp
    · rename_i heq
      cases hp
      refine hkeep hn rfl rfl rfl ?_ rfl rfl rfl rfl (by simp) (by simp)
      intro k hk
      show ((current &&& ~~~futureReleased) &&& ~~~promiseFinalizing).has k = _
      rw [← heq]
      simp only [List.mem_cons, List.not_mem_nil, or_false] at hk
      rcases hk with rfl | rfl | rfl | rfl <;> simp
    · split at hp <;> cases hp <;>
        exact hkeep hn rfl rfl rfl (fun _ _ => rfl) rfl rfl rfl rfl (by simp) (by simp)
  all_goals
    have hn : publishes (r, .produce) = none := by rw [publishes, hpc]
    cases hp
    refine hkeep hn rfl rfl rfl ?_ rfl rfl rfl rfl (by simp) (by simp)
    intro k hk
    simp only [List.mem_cons, List.not_mem_nil, or_false] at hk
    rcases hk with rfl | rfl | rfl | rfl <;> simp [Mem.access, Mem.load, Mem.deallocate]

theorem account_consumer {m : Mem T X} {c : Consumer T} (h : Account outs V r) (ha : a ≠ .produce)
    (hs : r.cons.stepVisible r.mem a = some (m, c)) :
    Account outs (V ++ [(r, a)]) { r with mem := m, cons := c } := by
  have hn : publishes (r, a) = none := by
    cases a with
    | produce => exact absurd rfl ha
    | _ => rfl
  have hkeep : (a == .take) = false → m.st.error = r.mem.st.error →
      m.st.exception = r.mem.st.exception →
      (m.st.value = r.mem.st.value ∨ taken V = true ∧ m.st.value = none) →
      (∀ k ∈ [valueSet, errorSet, StateFlags.consumed, promiseReleased],
        m.st.flags.has k = r.mem.st.flags.has k) →
      (∀ seen, c = .taking seen → r.cons = .taking seen) →
      Account outs (V ++ [(r, a)]) { r with mem := m, cons := c } :=
    fun hk he hx hv hf ht =>
      h.keep (p:=r.prod) hn hk hf he hx hv rfl rfl rfl rfl (fun _ hb => hb) id ht
  have hpub : published (V ++ [(r, a)]) = published V := by
    rw [published_snoc, hn]
    exact List.append_nil _
  cases hc : r.cons with
  | holding seen took got =>
    rw [hc] at hs
    cases a with
    | poll => cases hs; exact hkeep rfl rfl rfl (Or.inl rfl) (fun _ _ => rfl) (by simp)
    | take =>
      have htaken : taken (V ++ [(r, .take)]) = true := by
        rw [taken_snoc]
        exact Bool.or_true _
      obtain ⟨-, hs⟩ := Option.ite_none_right_eq_some.mp hs
      cases hs
      have hor : ∀ k, (r.mem.access (·.fetchOr StateFlags.consumed)).st.flags.has k
          = (r.mem.st.flags.has k || StateFlags.consumed.has k) := fun k => Word.has_or _ _ k
      refine ⟨by rw [hpub]; exact h.todo, h.bits, h.repair, fun _ _ => htaken, ?_, ?_, ?_, ?_,
        by rw [hpub]; exact h.code, by rw [hpub]; exact h.exception, ?_⟩
      · rw [hpub, hor, h.value]
        simp
      · rw [hpub, hor, h.error]
        simp
      · rw [htaken, hor]
        simp
      · rw [hor, h.released]
        simp
      · rw [hpub, htaken]
        rcases h.stored with he | ⟨-, hv⟩
        · exact Or.inl he
        · exact Or.inr ⟨rfl, hv⟩
    | release =>
      cases hs
      refine hkeep rfl rfl rfl (Or.inl rfl) ?_ ?_
      · intro k hk
        simp only [List.mem_cons, List.not_mem_nil, or_false] at hk
        rcases hk with rfl | rfl | rfl | rfl <;> simp [Mem.access]
      · intro seen' he
        split at he <;> cases he
    | consume => cases hs
    | produce => exact absurd rfl ha
  | taking seen =>
    have htk := h.taking seen hc
    rw [hc] at hs
    cases a with
    | consume => cases hs; exact hkeep rfl rfl rfl (Or.inr ⟨htk, rfl⟩) (fun _ _ => rfl) (by simp)
    | poll | take | release => cases hs
    | produce => exact absurd rfl ha
  | deallocating =>
    rw [hc] at hs
    cases a with
    | consume => cases hs; exact hkeep rfl rfl rfl (Or.inl rfl) (fun _ _ => rfl) (by simp)
    | poll | take | release => cases hs
    | produce => exact absurd rfl ha
  | done => rw [hc] at hs; cases a <;> cases hs

theorem account_step {r' : Race T X} (h : Account outs V r) (hs : r.stepVisible a = some r') :
    Account outs (V ++ [(r, a)]) r' := by
  cases a with
  | produce => exact account_produce h hs
  | poll | take | release | consume =>
    obtain ⟨⟨m, c⟩, hc, rfl⟩ := Option.map_eq_some_iff.mp hs
    exact account_consumer h (by simp) hc

theorem account_of_run {exit : Exit} {own : Option (Outcome T X)} {as : List RaceAct} {r : Race T X}
    (h : TS.run stepVisible (init exit own) as = some r) :
    Account (outcomes exit own) (TS.visits stepVisible (init exit own) as) r :=
  TS.run_history (J:=Account (outcomes exit own)) (fun _ _ _ _ => account_step)
    (account_init exit (outcomes exit own)) h

/-! ## the flag word -/

/-- **No access clears a flag, but `promise_finalizing`.**  The compare-exchange of
`try_complete_finalize()` computes what it writes from an older load, but it writes only over the
word it computed from. -/
theorem flags_kept {r' : Race T X} (hs : r.stepVisible a = some r') {k : Word} (hk : k ∈ lasting)
    (hset : r.mem.st.flags.has k = true) : r'.mem.st.flags.has k = true := by
  have hor : ∀ b : Word, (r.mem.st.flags ||| b).has k = true := fun b => by
    rw [Word.has_or, hset, Bool.true_or]
  have hclear : (r.mem.st.flags &&& ~~~promiseFinalizing).has k = true := by
    obtain ⟨h1, h2, h3, h4, h5, -⟩ := Word.has_clear_finalizing r.mem.st.flags
    simp only [lasting, List.mem_cons, List.not_mem_nil, or_false] at hk
    rcases hk with rfl | rfl | rfl | rfl | rfl
    · exact h1.trans hset
    · exact h2.trans hset
    · exact h3.trans hset
    · exact h4.trans hset
    · exact h5.trans hset
  cases a with
  | produce =>
    obtain ⟨⟨m', p'⟩, hp, rfl⟩ := Option.map_eq_some_iff.mp hs
    show m'.st.flags.has k = true
    cases hpc : r.prod <;> rw [hpc] at hp
    case finCas current =>
      simp only [Producer.step] at hp
      split at hp
      · rename_i heq
        cases hp
        show ((current &&& ~~~futureReleased) &&& ~~~promiseFinalizing).has k = true
        rw [← heq]
        exact hclear
      · split at hp <;> cases hp <;> exact hset
    case done d f => cases hp
    case writing o todo =>
      cases hp
      exact (congrArg (Word.has · k) (State.write_flags _ o)).trans hset
    case finAnd => cases hp; exact hclear
    all_goals
      cases hp
      first | exact hset | exact hor _
  | poll | take | release | consume =>
    obtain ⟨⟨m, c⟩, hc, rfl⟩ := Option.map_eq_some_iff.mp hs
    show m.st.flags.has k = true
    cases hcc : r.cons with
    | holding seen took got =>
      rw [hcc] at hc
      first
        | (obtain ⟨-, hc⟩ := Option.ite_none_right_eq_some.mp hc; cases hc; exact hor _)
        | (cases hc <;> first | exact hset | exact hor _)
    | taking seen => rw [hcc] at hc; cases hc <;> exact hset
    | deallocating => rw [hcc] at hc; cases hc <;> exact hset
    | done => rw [hcc] at hc; cases hc

/-- what the flags and fields say after the history `V` -/
structure Settled (V : List (Race T X × RaceAct)) (r : Race T X) : Prop where
  /-- I1: a released promise has a result -/
  total : r.mem.st.isReady = true → r.mem.st.hasResult = true
  /-- I2: whatever happens next, the flags stay -/
  monotone : ∀ as r', TS.run stepVisible r as = some r' → ∀ k ∈ lasting,
    r.mem.st.flags.has k = true → r'.mem.st.flags.has k = true
  /-- `release_promise()` publishes an error of its own exactly for a producer that set nothing -/
  repair : ∀ bits, r.prod = .relOr bits → (bits.has errorSet = true ↔ published V = []) ∧
    (bits.has errorSet = true → r.mem.st.error = .errc .stateNotRecoverable)
  /-- what was set is there, but for a value that was taken -/
  kept : published V ≠ [] →
    r.mem.st.error = (State.record (published V ++ r.prod.inFlight)).error ∧
    r.mem.st.exception = (State.record (published V ++ r.prod.inFlight)).exception ∧
    (r.mem.st.value = (State.record (published V ++ r.prod.inFlight)).value ∨
      taken V = true ∧ r.mem.st.value = none)
  /-- I3: the extraction predicate -/
  holds : r.mem.st.holdsValue = true ↔ (∃ v, Outcome.value v ∈ published V) ∧
    (∀ o ∈ published V, o.isValue = true) ∧ taken V = false

/-- **The outcome is settled.**  Whatever the producer sets and however it leaves, at every instant
of every run with a consumer a ready state has a result, no flag but `promise_finalizing` is ever
cleared, the repair of `release_promise()` fires exactly for a producer that set nothing, what was
set is never replaced, and `holds_value()` tells exactly whether there is a value to take. -/
theorem settled_outcome (exit : Exit) (own : Option (Outcome T X)) (as : List RaceAct)
    (r : Race T X) (h : TS.run stepVisible (init exit own) as = some r) :
    Settled (TS.visits stepVisible (init exit own) as) r := by
  have hA := account_of_run h
  generalize TS.visits stepVisible (init exit own) as = V at hA
  have hreleased : ∀ p : Producer T X, p.released = true → p.pending = [] := by
    intro p hp
    cases p <;> first | rfl | cases hp
  refine ⟨fun hr => ?_, fun bs r' hrun k hk hset => ?_, fun bits hpc => ?_, fun hne => ?_, ?_⟩
  · have hrel : r.prod.released = true := hA.released.symm.trans hr
    have htodo := hA.todo
    rw [hreleased _ hrel, List.append_nil] at htodo
    rw [hA.hasResult, hrel, htodo, Bool.and_true]
    cases (outcomes exit own).isEmpty <;> rfl
  · exact TS.run_inv (I:=fun u => u.mem.st.flags.has k = true)
      (fun _ _ _ hu hs => flags_kept hs hk hu) hset hrun
  · have htodo := hA.todo
    have hcode := hA.code
    rw [hpc] at htodo hcode
    rw [show (Producer.relOr bits : Producer T X).pending = [] from rfl, List.append_nil] at htodo
    rw [hA.bits bits hpc, htodo]
    cases hempty : (outcomes exit own).isEmpty with
    | true =>
      rw [hempty] at hcode
      exact ⟨⟨fun _ => List.isEmpty_iff.mp hempty, fun _ => by simp⟩, fun _ => hcode⟩
    | false =>
      have hne : outcomes exit own ≠ [] := fun he => by rw [he] at hempty; cases hempty
      exact ⟨⟨fun hb => by simp at hb, fun he => absurd he hne⟩, fun hb => by simp at hb⟩
  · have hempty : (outcomes exit own).isEmpty = false := by
      rw [← hA.todo]
      simp [hne]
    have hcode := hA.code
    rw [hempty] at hcode
    exact ⟨hcode, hA.exception, hA.stored⟩
  · rw [State.holdsValue_eq, hA.value, hA.error, hA.consumed]
    have hval : (published V).any Outcome.isValue = true ↔ ∃ v, Outcome.value v ∈ published V := by
      rw [List.any_eq_true]
      constructor
      · rintro ⟨o, ho, hv⟩
        cases o with
        | value v => exact ⟨v, ho⟩
        | error ec => cases hv
        | exception ep => cases hv
      · rintro ⟨v, hv⟩
        exact ⟨_, hv, rfl⟩
    rw [Bool.and_eq_true_iff, Bool.and_eq_true_iff, hval, Bool.not_eq_true', Bool.not_eq_true',
      Bool.or_eq_false_iff, List.any_eq_false, and_assoc]
    refine and_congr_right fun ⟨v, hv⟩ => and_congr_left fun _ => ?_
    -- something was set, so there is no repair
    have hempty : (outcomes exit own).isEmpty = false := by
      rw [← hA.todo]
      cases hp : published V with
      | nil => rw [hp] at hv; cases hv
      | cons o os => rfl
    rw [hempty]
    simp

/-- a value taken while the producer is still leaving -/
theorem settled_outcome_taken : ∃ r : Race Nat Unit, r.cons = .holding valueSet true (some 7) ∧
    Settled (TS.visits stepVisible (init .finalAwaiter (some (.value 7)))
      [.produce, .produce, .poll, .take, .produce, .consume]) r :=
  ⟨_, rfl, settled_outcome .finalAwaiter (some (.value 7)) _
    ⟨.finalAwaiter, ⟨⟨valueSet ||| StateFlags.consumed, none, none, .none, none⟩, true, [], false⟩,
      .finalizing, .holding valueSet true (some 7)⟩ rfl⟩

end Race
end ActorZeta
