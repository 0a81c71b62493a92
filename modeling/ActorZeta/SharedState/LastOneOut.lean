import ActorZeta.SharedState.Fate

/-!
# shared_state: the last one out frees it, except through one window

* `freed_at_most_once`     no double free, no use after free, and the two producer calls report
                           their own deallocation truly, in every run of every exit;
* `Missed`                 the places that end with a state nobody frees; `missed_step`: only a
                           `release_future()` that finds the producer at its `fetch_and` leads
                           there;
* `freed_iff_no_late_release`   a run of both sides to their end frees the state exactly when no
                           `release_future()` fell between the failed compare-exchange of
                           `try_complete_finalize()` and the `fetch_and` after it;
* `leak`                   a run through that window.
-/

namespace ActorZeta
open StateFlags

namespace Producer
variable {T X : Type}

/-- what `release_promise()` returned, once it did -/
def releaseReturned : Producer T X → Option Bool
  | .finLoad | .finCas _ | .finDealloc | .finAnd => some false
  | .done deallocated _ => some deallocated
  | _ => none

/-- `try_complete_finalize()` is going to answer true, or has -/
def late : Producer T X → Bool
  | .finAnd | .done false (some true) => true
  | _ => false

/-- what `try_complete_finalize()` returned, once it did -/
def finalizeReturned : Producer T X → Option Bool
  | .done _ finalized => finalized
  | _ => none

end Producer

namespace Race
variable {T X : Type}

/-! ## at most once -/

/-- what a fate says about the places: nobody has freed the state, or exactly one call has, and
then it is over -/
theorem fate_cases {p : Producer T X} {c : Consumer T} {fs : List Call} (h : Fate p c fs) :
    (fs = [] ∧ (∀ f, p ≠ .done true f) ∧ p ≠ .done false (some false)) ∨
    (fs = [.releasePromise] ∧ ∃ f, p = .done true f) ∨
    (fs = [.tryCompleteFinalize] ∧ p = .done false (some false)) ∨
    (fs = [.releaseFuture] ∧ ∃ f, p = .done false f ∧ f ≠ some false) := by
  cases p with
  | done d f =>
    cases d with
    | true => exact Or.inr (Or.inl ⟨h.2, f, rfl⟩)
    | false =>
      cases f with
      | none =>
        cases c with
        | done => exact Or.inr (Or.inr (Or.inr ⟨h, none, rfl, nofun⟩))
        | _ => exact Or.inl ⟨h, nofun, nofun⟩
      | some b =>
        cases b with
        | false => exact Or.inr (Or.inr (Or.inl ⟨h.2, rfl⟩))
        | true =>
          cases c with
          | done =>
            rcases h with h | h
            · exact Or.inl ⟨h, nofun, nofun⟩
            · exact Or.inr (Or.inr (Or.inr ⟨h, some true, rfl, nofun⟩))
          | _ => exact Or.inl ⟨h, nofun, nofun⟩
  | _ => exact Or.inl ⟨h.2, nofun, nofun⟩

/-- **No double free and no use after free.**  Whatever the producer sets and however it leaves,
the state is deallocated at most once, no side touches it after that, and the values that
`release_promise()` and `try_complete_finalize()` return tell who did it. -/
theorem freed_at_most_once (exit : Exit) (own : Option (Outcome T X)) (as : List RaceAct)
    (r : Race T X) (h : TS.run step (init exit own) as = some r) :
    r.mem.freedBy.length ≤ 1 ∧ r.mem.touchedFreed = false ∧
      (∀ b, r.prod.releaseReturned = some b → (b = true ↔ Call.releasePromise ∈ r.mem.freedBy)) ∧
      ∀ b, r.prod.finalizeReturned = some b →
        (b = false ↔ Call.tryCompleteFinalize ∈ r.mem.freedBy) := by
  have hI := inv_of_run h
  have hrt := hI.route
  refine ⟨?_, hI.clean, fun b hb => ?_, fun b hb => ?_⟩
  · rcases fate_cases hI.fate with ⟨e, _⟩ | ⟨e, _⟩ | ⟨e, _⟩ | ⟨e, _⟩ <;> rw [e] <;> simp
  · rcases fate_cases hI.fate with ⟨e, hn, _⟩ | ⟨e, f, hp⟩ | ⟨e, hp⟩ | ⟨e, f, hp, _⟩
    · have hbf : b ≠ true := by
        rintro rfl
        cases hp : r.prod <;> rw [hp] at hb <;> cases hb
        exact hn _ hp
      simp [e, hbf]
    · rw [hp] at hb; cases hb; simp [e]
    · rw [hp] at hb; cases hb; simp [e]
    · rw [hp] at hb; cases hb; simp [e]
  · rcases fate_cases hI.fate with ⟨e, hn, hn'⟩ | ⟨e, f, hp⟩ | ⟨e, hp⟩ | ⟨e, f, hp, hf⟩
    · have hbt : b ≠ false := by
        rintro rfl
        cases hp : r.prod with
        | done d f =>
          rw [hp] at hb
          cases hb
          cases d with
          | true => exact hn _ hp
          | false => exact hn' hp
        | _ => rw [hp] at hb; cases hb
      simp [e, hbt]
    · -- after a deallocating `release_promise()` there is no second call
      rw [hp] at hb hrt
      cases hb
      exact nomatch hrt
    · rw [hp] at hb; cases hb; simp [e]
    · rw [hp] at hb
      cases hb
      have hbt : b ≠ false := fun e => hf (by rw [e])
      simp [e, hbt]

/-- the consumer's release makes the compare-exchange fail: `try_complete_finalize()` deallocates
and answers false -/
theorem freed_at_most_once_cas_fails :
    ∃ r : Race Nat Unit, r.prod = .done false (some false) ∧
      r.mem.freedBy = [.tryCompleteFinalize] ∧
      r.mem.freedBy.length ≤ 1 ∧ r.mem.touchedFreed = false ∧
      (∀ b, r.prod.releaseReturned = some b → (b = true ↔ Call.releasePromise ∈ r.mem.freedBy)) ∧
      ∀ b, r.prod.finalizeReturned = some b →
        (b = false ↔ Call.tryCompleteFinalize ∈ r.mem.freedBy) :=
  ⟨_, rfl, rfl, freed_at_most_once .settle (some (.value 0))
    [.produce, .produce, .produce, .produce, .produce, .produce, .release, .produce, .produce]
    ⟨.settle, ⟨⟨valueSet ||| promiseReleased ||| futureReleased ||| promiseFinalizing, some 0,
      none, .none, none⟩, false, [.tryCompleteFinalize], false⟩, .done false (some false), .done⟩
    rfl⟩

/-! ## at least once, except through the window -/

/-- the producer has decided that the consumer will deallocate, and the consumer has left the
deallocation to the producer -/
def Missed (r : Race T X) : Prop :=
  r.prod.late = true ∧ r.cons = .done ∧ r.mem.freedBy = []

/-- once both sides have left, the state is still allocated exactly if it was missed -/
theorem freed_iff_not_missed {r : Race T X} (h : Inv r) (hf : r.Final) :
    r.mem.freedBy ≠ [] ↔ ¬ r.Missed := by
  obtain ⟨⟨d, f, hp⟩, hc⟩ := hf
  rw [Missed, hp, hc]
  have hF := h.fate
  have hrt := h.route
  rw [hp, hc] at hF
  rw [hp] at hrt
  cases d with
  | true =>
    have hfs : r.mem.freedBy = [.releasePromise] := hF.2
    simp [hfs]
  | false =>
    cases f with
    | none =>
      have hfs : r.mem.freedBy = [.releaseFuture] := hF
      simp [hfs]
    | some b =>
      cases b with
      | false =>
        have hfs : r.mem.freedBy = [.tryCompleteFinalize] := hF.2
        simp [hfs]
      | true => simp [Producer.late]

theorem start_late (exit : Exit) (todo : List (Outcome T X)) :
    (Producer.start exit todo).late = false := by
  cases todo <;> cases exit <;> rfl

theorem afterRelease_late (exit : Exit) :
    (Producer.afterRelease (T:=T) (X:=X) exit).late = false := by
  cases exit <;> rfl

/-- the producer decides to answer true only on a word without `future_released` -/
theorem late_produce {exit : Exit} {m m' : Mem T X} {p p' : Producer T X}
    (h : p.step exit m = some (m', p')) (hl : p'.late = true) :
    (p = .finAnd ∧ m'.freedBy = m.freedBy) ∨ m.st.flags.has futureReleased = false := by
  cases p with
  | publishing o todo => cases h; rw [start_late] at hl; cases hl
  | relLoad =>
    cases h
    split at hl <;> cases hl
  | relOr bits =>
    cases h
    split at hl
    · cases hl
    · rw [afterRelease_late] at hl; cases hl
  | finCas current =>
    simp only [Producer.step] at h
    split at h
    · rename_i heq
      exact Or.inr (by rw [heq]; simp)
    · split at h
      · cases h; cases hl
      · rename_i hf
        exact Or.inr (Bool.eq_false_iff.mpr hf)
  | finAnd => cases h; exact Or.inl ⟨rfl, rfl⟩
  | done d f => cases h
  | _ => cases h; cases hl

/-- the consumer's other steps neither start from a released future nor leave one without a
deallocation -/
theorem consumer_keeps {m m' : Mem T X} {a : RaceAct} {c c' : Consumer T}
    (h : c.step m a = some (m', c')) (ha : a ≠ .release) :
    c ≠ .done ∧ ¬ (c' = .done ∧ m'.freedBy = []) := by
  cases c with
  | holding seen took got =>
    refine ⟨by simp, fun hn => ?_⟩
    cases a with
    | poll => cases h; cases hn.1
    | take =>
      cases took with
      | true => cases h
      | false =>
        simp only [Consumer.step] at h
        split at h
        · cases h; cases hn.1
        · cases h
    | release => exact ha rfl
    | consume | produce => cases h
  | taking seen =>
    refine ⟨by simp, fun hn => ?_⟩
    cases a with
    | consume =>
      obtain ⟨v, _, hv⟩ := Option.map_eq_some_iff.mp h
      cases hv
      cases hn.1
    | poll | take | release | produce => cases h
  | deallocating =>
    refine ⟨by simp, fun hn => ?_⟩
    cases a with
    | consume => cases h; cases hn.2
    | poll | take | release | produce => cases h
  | done => cases a <;> cases h

theorem consumer_releases {m m' : Mem T X} {c c' : Consumer T}
    (h : c.step m .release = some (m', c')) : c.released = false ∧ m'.freedBy = m.freedBy ∧
      c' = if m.st.flags.has promiseReleased && !m.st.flags.has promiseFinalizing
        then .deallocating else .done := by
  cases c with
  | holding seen took got => cases h; exact ⟨rfl, rfl, rfl⟩
  | taking seen => cases h
  | deallocating => cases h
  | done => cases h

/-- **One step opens the window.**  A state becomes missed exactly when `release_future()` runs
while the producer stands between its failed compare-exchange and its `fetch_and`. -/
theorem missed_step {r r' : Race T X} {a : RaceAct} (h : Inv r) (hs : r.step a = some r') :
    r'.Missed ↔ r.Missed ∨ (a = .release ∧ r.prod = .finAnd) := by
  cases a with
  | produce =>
    obtain ⟨⟨m', p'⟩, hp, rfl⟩ := Option.map_eq_some_iff.mp hs
    constructor
    · rintro ⟨hl, hc, hfs⟩
      rcases late_produce hp hl with ⟨he, hm⟩ | hf
      · exact Or.inl ⟨by rw [he]; rfl, hc, hm ▸ hfs⟩
      · -- the consumer has not released yet
        have hc : r.cons = .done := hc
        rw [h.future, hc] at hf
        cases hf
    · rintro (⟨hl, hc, hfs⟩ | ⟨h', _⟩)
      · cases hpc : r.prod <;> rw [hpc] at hl hp <;> first | cases hl | skip
        · cases hp; exact ⟨rfl, hc, hfs⟩
        · cases hp
      · cases h'
  | poll | take | consume =>
    obtain ⟨⟨m, c⟩, hc, rfl⟩ := Option.map_eq_some_iff.mp hs
    have hne := consumer_keeps hc (by decide)
    constructor
    · rintro ⟨_, hc', hfs⟩
      exact absurd ⟨hc', hfs⟩ hne.2
    · rintro (⟨_, hc', _⟩ | ⟨h', _⟩)
      · exact absurd hc' hne.1
      · cases h'
  | release =>
    obtain ⟨⟨m, c⟩, hc, rfl⟩ := Option.map_eq_some_iff.mp hs
    obtain ⟨hh, hm, hc⟩ := consumer_releases hc
    have hfs := (fate_holding h.fate hh hh).1
    have hnd : r.cons ≠ .done := by intro e; rw [e] at hh; cases hh
    rw [h.promise, h.finalizing] at hc
    constructor
    · rintro ⟨hl, hc', _⟩
      have hl : r.prod.late = true := hl
      have hc' : c = .done := hc'
      cases hpc : r.prod <;> rw [hpc] at hl hc <;> first | cases hl | skip
      · exact Or.inr ⟨rfl, rfl⟩
      · rename_i d f
        rcases d with _ | _ <;> rcases f with _ | _ | _ <;> cases hl
        rw [hc] at hc'
        cases hc'
    · rintro (⟨_, hc', _⟩ | ⟨_, hp⟩)
      · exact absurd hc' hnd
      · refine ⟨by show r.prod.late = true; rw [hp]; rfl, ?_, by rw [← hfs]; exact hm⟩
        rw [hp] at hc
        exact hc

/-- **A state is freed, unless the release falls into the window.**  For every exit and every
outcome of the producer, a run of both sides to their end frees the state exactly when no
`release_future()` ran between the failed compare-exchange of `try_complete_finalize()` and its
`fetch_and`. -/
theorem freed_iff_no_late_release (exit : Exit) (own : Option (Outcome T X)) (as : List RaceAct)
    (r : Race T X) (h : TS.run step (init exit own) as = some r) (hf : r.Final) :
    r.mem.freedBy ≠ [] ↔ ∀ v ∈ TS.visits step (init exit own) as,
      ¬ (v.2 = .release ∧ v.1.prod = .finAnd) := by
  have hB := TS.run_flag (fun _ _ _ => inv_step) (fun _ _ _ => missed_step) (inv_init exit own) h
  have h0 : ¬ (init exit own).Missed := fun hm => nomatch hm.2.1
  rw [freed_iff_not_missed (inv_of_run h) hf, hB]
  simp only [h0, false_or, not_exists, not_and]

/-- the consumer takes the value and releases between the load and the `fetch_and` of
`try_complete_finalize()` -/
def leakSchedule : List RaceAct :=
  [.produce, .produce, .produce, .produce, .produce, .produce, .poll, .take, .consume, .produce,
    .release, .produce]

/-- **The leak.**  Both sides have executed their last step, the value was taken, and nobody has
deallocated. -/
theorem leak : ∃ r : Race Nat Unit,
    TS.run step (init .settle (some (.value 0))) leakSchedule = some r ∧ r.Final ∧
      r.mem.freedBy = [] :=
  ⟨_, rfl, ⟨⟨false, some true, rfl⟩, rfl⟩, rfl⟩

/-- the same calls, released before the compare-exchange failed -/
theorem freed_iff_no_late_release_early :
    ∃ r : Race Nat Unit, r.mem.freedBy = [.tryCompleteFinalize] ∧
      (r.mem.freedBy ≠ [] ↔ ∀ v ∈ TS.visits step (init (X:=Unit) .settle (some (.value 0)))
        [.produce, .produce, .produce, .produce, .produce, .produce, .poll, .take, .consume,
          .release, .produce, .produce],
        ¬ (v.2 = .release ∧ v.1.prod = .finAnd)) :=
  ⟨_, rfl, freed_iff_no_late_release .settle (some (.value 0)) _
    ⟨.settle, ⟨⟨valueSet ||| promiseReleased ||| promiseFinalizing ||| consumed |||
      futureReleased, none, none, .none, none⟩, false, [.tryCompleteFinalize], false⟩,
      .done false (some false), .done⟩
    rfl ⟨⟨false, some false, rfl⟩, rfl⟩⟩

end Race
end ActorZeta
