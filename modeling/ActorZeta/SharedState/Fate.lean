import ActorZeta.SharedState.Race

/-!
# shared_state: who frees it

* `Race.Inv`      ties the three protocol flags to the places of the two sides, and says for every
                  pair of places which calls have deallocated so far (`Fate`);
* `Race.inv_step`, `Race.inv_of_run`   it holds in every state a run reaches.
-/

namespace ActorZeta
open StateFlags

@[simp] theorem Outcome.flag_has {T X : Type} (o : Outcome T X) :
    o.flag.has promiseReleased = false ∧ o.flag.has futureReleased = false ∧
      o.flag.has promiseFinalizing = false := by
  cases o <;> simp [Outcome.flag]

namespace Producer
variable {T X : Type}

/-- past the `fetch_or` that publishes `promise_released` -/
def released : Producer T X → Bool
  | .relDealloc | .finLoad | .finCas _ | .finDealloc | .finAnd | .done _ _ => true
  | _ => false

/-- the exits with the finalizing handshake -/
def shakes (exit : Exit) : Bool := exit != .cleanup

/-- between setting `promise_finalizing` and clearing it, or freed in between -/
def finalizes (exit : Exit) : Producer T X → Bool
  | .relLoad | .relError | .relOr _ | .relDealloc | .done true _ => shakes exit
  | .finLoad | .finCas _ | .finDealloc | .finAnd | .done false (some false) => true
  | _ => false

/-- the places a producer with this exit can be at -/
def onRoute (exit : Exit) : Producer T X → Bool
  | .claiming | .finalizing | .finLoad | .finCas _ | .finDealloc | .finAnd
  | .done false (some _) => shakes exit
  | .done true (some _) => false
  | .done false none => !shakes exit
  | .relOr bits => bits == promiseReleased || bits == promiseReleased ||| errorSet
  | _ => true

end Producer

/-- past the `fetch_or` of `release_future()` -/
def Consumer.released {T : Type} : Consumer T → Bool
  | .deallocating | .done => true
  | _ => false

/-- the calls that have deallocated, for every pair of places -/
def Fate {T X : Type} : Producer T X → Consumer T → List Call → Prop
  | .relDealloc, c, fs | .finDealloc, c, fs => c = .done ∧ fs = []
  | .done true _, c, fs => c = .done ∧ fs = [.releasePromise]
  | .done false (some false), c, fs => c = .done ∧ fs = [.tryCompleteFinalize]
  | .done false none, .done, fs => fs = [.releaseFuture]
  | .done false (some true), .done, fs => fs = [] ∨ fs = [.releaseFuture]
  | .done false _, _, fs => fs = []
  | _, c, fs => c ≠ .deallocating ∧ fs = []

namespace Race
variable {T X : Type}

structure Inv (r : Race T X) : Prop where
  promise : r.mem.st.flags.has promiseReleased = r.prod.released
  future : r.mem.st.flags.has futureReleased = r.cons.released
  finalizing : r.mem.st.flags.has promiseFinalizing = r.prod.finalizes r.exit
  route : r.prod.onRoute r.exit = true
  alive : r.mem.alive = r.mem.freedBy.isEmpty
  clean : r.mem.touchedFreed = false
  fate : Fate r.prod r.cons r.mem.freedBy

theorem inv_init (exit : Exit) (own : Option (Outcome T X)) : Inv (init exit own) := by
  cases exit <;> cases own <;>
    constructor <;> simp [init, outcomes, Producer.start, Mem.fresh, State.fresh, Producer.released,
      Consumer.released, Producer.finalizes, Producer.onRoute, Producer.shakes, Fate]

/-- an access while nobody has deallocated -/
theorem Inv.access {r : Race T X} (h : Inv r) (hfs : r.mem.freedBy = []) {f : State T X → State T X}
    {p : Producer T X} {c : Consumer T}
    (hp : (f r.mem.st).flags.has promiseReleased = p.released)
    (hc : (f r.mem.st).flags.has futureReleased = c.released)
    (hz : (f r.mem.st).flags.has promiseFinalizing = p.finalizes r.exit)
    (hr : p.onRoute r.exit = true) (hF : Fate p c []) :
    Inv { r with mem := r.mem.access f, prod := p, cons := c } := by
  have halive : r.mem.alive = true := by rw [h.alive, hfs]; rfl
  refine ⟨hp, hc, hz, hr, h.alive, ?_, ?_⟩
  · show (r.mem.touchedFreed || !r.mem.alive) = false
    rw [h.clean, halive]; rfl
  · show Fate p c r.mem.freedBy
    rw [hfs]; exact hF

/-- the deallocation, while nobody has deallocated -/
theorem Inv.deallocate {r : Race T X} (h : Inv r) (hfs : r.mem.freedBy = []) {call : Call}
    {p : Producer T X} {c : Consumer T} (hp : r.prod.released = p.released)
    (hc : r.cons.released = c.released) (hz : r.prod.finalizes r.exit = p.finalizes r.exit)
    (hr : p.onRoute r.exit = true) (hF : Fate p c [call]) :
    Inv { r with mem := r.mem.deallocate call, prod := p, cons := c } := by
  have hl := h.access (f := id) (p := r.prod) (c := r.cons) hfs h.promise h.future h.finalizing
    h.route (hfs ▸ h.fate)
  refine ⟨h.promise.trans hp, h.future.trans hc, h.finalizing.trans hz, hr, rfl, hl.clean, ?_⟩
  show Fate p c (call :: r.mem.freedBy)
  rw [hfs]; exact hF

theorem fate_early {p : Producer T X} {c : Consumer T} (hp : p.released = false)
    (hc : c ≠ .deallocating) : Fate p c [] := by
  cases p <;> first | exact ⟨hc, rfl⟩ | cases hp

theorem start_released (exit : Exit) (todo : List (Outcome T X)) :
    (Producer.start exit todo).released = false := by
  cases todo <;> cases exit <;> rfl

theorem start_finalizes (exit : Exit) (todo : List (Outcome T X)) :
    (Producer.start exit todo).finalizes exit = false := by
  cases todo <;> cases exit <;> rfl

theorem start_onRoute (exit : Exit) (todo : List (Outcome T X)) :
    (Producer.start exit todo).onRoute exit = true := by
  cases todo <;> cases exit <;> rfl

theorem consumer_done {c : Consumer T} (hc : c ≠ .deallocating) (hr : c.released = true) :
    c = .done := by
  cases c <;> first | rfl | exact absurd rfl hc | cases hr

theorem inv_produce {r r' : Race T X} (h : Inv r) (hs : r.step .produce = some r') : Inv r' := by
  obtain ⟨⟨m', p'⟩, hp, rfl⟩ := Option.map_eq_some_iff.mp hs
  show Inv { r with mem := m', prod := p' }
  have h1 := h.promise
  have h2 := h.future
  have h3 := h.finalizing
  have h4 := h.route
  have h7 := h.fate
  cases hpc : r.prod <;> rw [hpc] at hp h1 h3 h4 h7
  case writing o todo =>
    cases hp
    obtain ⟨hc, hfs⟩ := h7
    refine h.access hfs ?_ ?_ ?_ rfl ⟨hc, rfl⟩ <;> simp [h1, h2, h3, Producer.released, Producer.finalizes]
  case publishing o todo =>
    cases hp
    obtain ⟨hc, hfs⟩ := h7
    refine h.access hfs ?_ ?_ ?_ (start_onRoute ..) (fate_early (start_released ..) hc)
    · rw [start_released]; simpa [Producer.released] using h1
    · simp [h2]
    · rw [start_finalizes]; simpa [Producer.finalizes] using h3
  case claiming =>
    cases hp
    obtain ⟨hc, hfs⟩ := h7
    exact h.access hfs h1 h2 h3 h4 ⟨hc, rfl⟩
  case finalizing =>
    cases hp
    obtain ⟨hc, hfs⟩ := h7
    refine h.access hfs ?_ ?_ ?_ rfl ⟨hc, rfl⟩
    · simp [h1, Producer.released]
    · simp [h2]
    · simpa [Producer.finalizes, Producer.onRoute] using h4.symm
  case relLoad =>
    cases hp
    obtain ⟨hc, hfs⟩ := h7
    split
    · exact h.access hfs h1 h2 h3 rfl ⟨hc, rfl⟩
    · exact h.access hfs h1 h2 h3 rfl ⟨hc, rfl⟩
  case relError =>
    cases hp
    obtain ⟨hc, hfs⟩ := h7
    exact h.access hfs h1 h2 h3 rfl ⟨hc, rfl⟩
  case relOr bits =>
    cases hp
    obtain ⟨hc, hfs⟩ := h7
    -- the published bits are `promise_released`, with or without `error_set`
    have hbits : bits.has promiseReleased = true ∧ bits.has futureReleased = false ∧
        bits.has promiseFinalizing = false := by
      simp only [Producer.onRoute, Bool.or_eq_true, beq_iff_eq] at h4
      rcases h4 with rfl | rfl <;> simp
    split
    · rename_i hf
      rw [h2] at hf
      refine h.access hfs ?_ ?_ ?_ rfl ⟨consumer_done hc hf, rfl⟩
      · simp [hbits, Producer.released]
      · simp [h2, hbits]
      · simp [h3, hbits, Producer.finalizes]
    · rename_i hf
      have hF : Fate (Producer.afterRelease (T:=T) (X:=X) r.exit) r.cons [] := by
        rw [h2] at hf
        cases r.exit <;> cases hcc : r.cons <;> rw [hcc] at hf hc <;>
          first | exact ⟨hc, rfl⟩ | rfl | exact absurd rfl hf
      refine h.access hfs ?_ ?_ ?_ ?_ hF
      · simp only [State.fetchOr_flags, Word.has_or, hbits, Bool.or_true]
        cases r.exit <;> rfl
      · simp [h2, hbits]
      · simp only [State.fetchOr_flags, Word.has_or, h3, hbits, Bool.or_false]
        cases r.exit <;> rfl
      · cases r.exit <;> rfl
  case relDealloc =>
    cases hp
    obtain ⟨hc, hfs⟩ := h7
    exact h.deallocate hfs (by rw [hpc]; rfl) rfl (by rw [hpc]; rfl) rfl ⟨hc, rfl⟩
  case finLoad =>
    cases hp
    obtain ⟨hc, hfs⟩ := h7
    exact h.access hfs h1 h2 h3 h4 ⟨hc, rfl⟩
  case finCas current =>
    obtain ⟨hc, hfs⟩ := h7
    simp only [Producer.step] at hp
    split at hp
    · rename_i heq
      cases hp
      -- the word the compare-exchange matched has no `future_released` in it
      have hf : r.mem.st.flags.has futureReleased = false := by rw [heq]; simp
      rw [← heq]
      refine h.access hfs ?_ ?_ ?_ h4 ?_
      · simp [h1, Producer.released]
      · simp [h2]
      · simp [Producer.finalizes]
      · rw [h2] at hf
        cases hcc : r.cons <;> rw [hcc] at hf <;> first | rfl | cases hf
    · split at hp
      · rename_i hf
        cases hp
        rw [h2] at hf
        exact h.access hfs h1 h2 h3 h4 ⟨consumer_done hc hf, rfl⟩
      · cases hp
        exact h.access hfs h1 h2 h3 h4 ⟨hc, rfl⟩
  case finDealloc =>
    cases hp
    obtain ⟨hc, hfs⟩ := h7
    exact h.deallocate hfs (by rw [hpc]; rfl) rfl (by rw [hpc]; rfl) h4 ⟨hc, rfl⟩
  case finAnd =>
    cases hp
    obtain ⟨hc, hfs⟩ := h7
    refine h.access hfs ?_ ?_ ?_ h4 ?_
    · simp [h1, Producer.released]
    · simp [h2]
    · simp [Producer.finalizes]
    · cases hcc : r.cons <;> first | rfl | exact Or.inl rfl
  case done d f => cases hp

/-! ### the consumer's steps -/

/-- while the consumer holds the future nobody has deallocated, wherever it is -/
theorem fate_holding {p : Producer T X} {c c' : Consumer T} {fs : List Call} (hF : Fate p c fs)
    (hc : c.released = false) (hc' : c'.released = false) : fs = [] ∧ Fate p c' [] := by
  have hne : c ≠ .done := by rintro rfl; cases hc
  have hne' : c' ≠ .deallocating := by rintro rfl; cases hc'
  cases p with
  | relDealloc | finDealloc => exact absurd hF.1 hne
  | done d f =>
    cases d with
    | true => exact absurd hF.1 hne
    | false =>
      cases f with
      | none =>
        cases c <;> cases c' <;> first | exact ⟨hF, rfl⟩ | exact absurd rfl hne | exact absurd hc' nofun
      | some b =>
        cases b with
        | false => exact absurd hF.1 hne
        | true =>
          cases c <;> cases c' <;>
            first | exact ⟨hF, rfl⟩ | exact absurd rfl hne | exact absurd hc' nofun
  | _ => exact ⟨hF.2, hne', rfl⟩

/-- the last one out: `release_future()` deallocates exactly when the producer has left for good -/
theorem fate_release {p : Producer T X} {c : Consumer T} {fs : List Call} (exit : Exit)
    (hF : Fate p c fs) (hc : c.released = false) :
    Fate p (if p.released && !p.finalizes exit then Consumer.deallocating else .done) [] := by
  have hne : c ≠ .done := by rintro rfl; cases hc
  cases p with
  | relDealloc | finDealloc => exact absurd hF.1 hne
  | done d f =>
    cases d with
    | true => exact absurd hF.1 hne
    | false =>
      cases f with
      | none => rfl
      | some b =>
        cases b with
        | false => exact absurd hF.1 hne
        | true => rfl
  | _ => exact ⟨nofun, rfl⟩

theorem fate_deallocating {p : Producer T X} {fs : List Call} (hF : Fate p .deallocating fs) :
    fs = [] ∧ Fate p .done [.releaseFuture] := by
  cases p with
  | relDealloc | finDealloc => exact nomatch hF.1
  | done d f =>
    cases d with
    | true => exact nomatch hF.1
    | false =>
      cases f with
      | none => exact ⟨hF, rfl⟩
      | some b =>
        cases b with
        | false => exact nomatch hF.1
        | true => exact ⟨hF, Or.inr rfl⟩
  | _ => exact absurd rfl hF.1

/-- a step that keeps the future: the protocol flags stay -/
theorem Inv.consume {r : Race T X} (h : Inv r) (hc : r.cons.released = false)
    {f : State T X → State T X} {c : Consumer T} (hc' : c.released = false)
    (hf : (f r.mem.st).flags.has promiseReleased = r.mem.st.flags.has promiseReleased ∧
      (f r.mem.st).flags.has futureReleased = r.mem.st.flags.has futureReleased ∧
      (f r.mem.st).flags.has promiseFinalizing = r.mem.st.flags.has promiseFinalizing) :
    Inv { r with mem := r.mem.access f, cons := c } := by
  obtain ⟨hfs, hF⟩ := fate_holding h.fate hc hc'
  refine h.access hfs ?_ ?_ ?_ h.route hF
  · rw [hf.1, h.promise]
  · rw [hf.2.1, h.future, hc, hc']
  · rw [hf.2.2, h.finalizing]

theorem inv_consumer {r : Race T X} {a : RaceAct} {m : Mem T X} {c : Consumer T} (h : Inv r)
    (hs : r.cons.step r.mem a = some (m, c)) : Inv { r with mem := m, cons := c } := by
  cases hc : r.cons with
  | holding seen took got =>
    rw [hc] at hs
    have hh : r.cons.released = false := by rw [hc]; rfl
    cases a with
    | poll => cases hs; exact h.consume hh rfl ⟨rfl, rfl, rfl⟩
    | take =>
      cases took with
      | true => cases hs
      | false =>
        simp only [Consumer.step] at hs
        split at hs
        · cases hs
          exact h.consume hh rfl (by simp)
        · cases hs
    | release =>
      cases hs
      have hF := fate_release r.exit h.fate hh
      refine h.access (fate_holding h.fate hh hh).1 ?_ ?_ ?_ h.route ?_
      · simp [h.promise]
      · split <;> simp [Consumer.released]
      · simp [h.finalizing]
      · show Fate r.prod (if r.mem.st.flags.has promiseReleased &&
          !r.mem.st.flags.has promiseFinalizing then Consumer.deallocating else .done) []
        rw [h.promise, h.finalizing]; exact hF
    | consume => cases hs
    | produce => cases hs
  | taking seen =>
    rw [hc] at hs
    cases a with
    | consume =>
      obtain ⟨v, _, hv⟩ := Option.map_eq_some_iff.mp hs
      cases hv
      exact h.consume (by rw [hc]; rfl) rfl ⟨rfl, rfl, rfl⟩
    | poll => cases hs
    | take => cases hs
    | release => cases hs
    | produce => cases hs
  | deallocating =>
    rw [hc] at hs
    cases a with
    | consume =>
      cases hs
      have hF := h.fate
      rw [hc] at hF
      obtain ⟨hfs, hF'⟩ := fate_deallocating hF
      exact h.deallocate hfs rfl (by rw [hc]; rfl) rfl h.route hF'
    | poll => cases hs
    | take => cases hs
    | release => cases hs
    | produce => cases hs
  | done => rw [hc] at hs; cases a <;> cases hs

theorem inv_step {r r' : Race T X} {a : RaceAct} (h : Inv r) (hs : r.step a = some r') : Inv r' := by
  cases a with
  | produce => exact inv_produce h hs
  | poll | take | release | consume =>
    obtain ⟨⟨m, c⟩, hc, rfl⟩ := Option.map_eq_some_iff.mp hs
    exact inv_consumer h hc

theorem inv_of_run {exit : Exit} {own : Option (Outcome T X)} {as : List RaceAct} {r : Race T X}
    (h : TS.run step (init exit own) as = some r) : Inv r :=
  TS.run_inv (fun _ _ _ => inv_step) (inv_init exit own) h

end Race
end ActorZeta
