import ActorZeta.Coroutine.Run

/-!
# The await chain of a live behavior

* `Good`, `good_run`   what holds in every state that a run reaches;
* `AwaitChain`         what `resume_impl` finds when control returns to it;
* `await_chain`        it finds that, in every run.
-/

namespace ActorZeta

/-- no coroutine runs while `resume_impl` is there -/
def Driver.atRest : Driver → Bool
  | .outside | .entry _ | .loop _ | .parking | .gone => true
  | _ => false

namespace Coros
variable {T X : Type} {m m' : Coros T X} {fr : Frame}

/-- the invariant of a run, up to the destructor -/
structure Good (m : Coros T X) : Prop where
  ok : m.driver ≠ .gone → m.Ok ∧ m.undefined = false
  rest : m.driver.atRest = true → m.stack = []
  parking : m.driver = .parking → m.live = none

theorem inv_empty : Inv (.empty : Heap Frame) (.empty : Heap (Cell T X)) [] none none := by
  have hF : ∀ {j : Handle} {fr : Frame} {P : Prop}, (Heap.empty : Heap Frame).get j = some fr → P :=
    fun hj => nomatch hj
  exact {
    pointers := ⟨⟨fun _ _ hj => hF hj, fun _ _ _ hj _ => hF hj⟩, fun _ _ _ _ hj _ _ => hF hj⟩
    tokens := ⟨fun _ _ hj => hF hj, fun _ _ _ _ _ _ hj _ _ _ _ => hF hj, fun _ _ _ hj _ => hF hj,
      fun _ _ _ hj _ => hF hj⟩
    places := ⟨fun _ _ _ hj _ => hF hj, fun _ _ hj _ => hF hj⟩
    stacked := ⟨nofun, fun _ _ hj _ => hF hj, .nil, trivial, nofun, fun _ _ hj _ => hF hj⟩
    hole := nofun }

theorem good_init : (init : Coros T X).Good where
  ok _ := ⟨.of_inv rfl rfl inv_empty, rfl⟩
  rest _ := rfl
  parking := nofun

/-- `resume_impl` goes on -/
theorem Good.goto {d : Driver} (hf : m.Ok) (hu : m.undefined = false)
    (hr : d.atRest = true → m.stack = []) (hp : d = .parking → m.live = none) :
    Good { m with driver := d } :=
  ⟨fun _ => ⟨hf, hu⟩, hr, hp⟩

theorem startBehavior_fine (i : Nat) (s : Address) (h : m.Ok) (hab : m.aborted = false)
    (hS : m.stack = []) (hbusy : m.isBusy = false) : Fine m (m.startBehavior i s) := by
  have hI := h.inv hab
  rw [hS] at hI
  have hlive := live_of_idle hI hbusy
  have hstart := startBehavior_ok hI fun r fr hr hfr => live_none hlive hr hfr
  unfold restarted at hstart
  unfold startBehavior
  cases hr : m.currentBehavior with
  | none =>
    rw [hr] at hstart
    exact ⟨.of_inv hab rfl hstart, rfl, rfl⟩
  | some r =>
    rw [hr] at hstart
    exact ⟨.of_inv hab rfl hstart, rfl, rfl⟩

theorem endMessage_fine (h : m.Ok) (hab : m.aborted = false) :
    Fine m m.endMessage ∧ m.endMessage.stack = m.stack := by
  have hI := h.inv hab
  unfold endMessage
  split
  · split
    · exact ⟨⟨.of_inv hab rfl hI, rfl, rfl⟩, rfl⟩
    · exact ⟨⟨.of_inv hab rfl hI, rfl, rfl⟩, rfl⟩
  · exact ⟨⟨h, rfl, rfl⟩, rfl⟩

/-- **A step of `resume_impl`.** -/
theorem drive_good {mail : Mail} (h : m.Ok) (hab : m.aborted = false) (hu : m.undefined = false)
    (hS : m.stack = []) (hs : m.drive mail = some m') : m'.Good := by
  have hI := h.inv hab
  rw [hS] at hI
  have hdrain := drain_ok h hab hS
  have hstay : ∀ d : Driver, (d = .parking → m.live = none) → Good { m with driver := d } :=
    fun d hp => .goto h hu (fun _ => hS) hp
  unfold drive at hs
  split at hs
  · cases hs
  · cases hs
  · split at hs
    · cases hs
      exact hstay _ nofun
    · split at hs
      · cases hs
        exact .goto hdrain.ok (hdrain.undefined.trans hu) nofun nofun
      · cases hs
        exact hstay _ nofun
  · cases hs
    split
    · exact hstay _ nofun
    · rename_i hbusy
      have hidle : m.isBusy = false := by
        cases hb : m.isBusy with
        | false => rfl
        | true => rw [hb] at hbusy; exact absurd rfl hbusy
      split
      · exact hstay _ fun _ => live_of_idle hI hidle
      · exact hstay _ nofun
  · cases hs
    split
    · exact hstay _ nofun
    · rename_i hbusy
      refine hstay _ fun _ => live_of_idle hI ?_
      cases hb : m.isBusy with
      | false => rfl
      | true => rw [hb, Bool.or_true] at hbusy; exact absurd rfl hbusy
  · split at hs
    · cases hs
      exact hstay _ nofun
    · split at hs
      · split at hs
        · cases hs
          exact .goto hdrain.ok (hdrain.undefined.trans hu) nofun nofun
        · cases hs
          exact hstay _ nofun
      · cases hs
        exact hstay _ nofun
  · split at hs
    · cases hs
      exact hstay _ nofun
    · rename_i hbusy
      have hidle : m.isBusy = false := Bool.eq_false_iff.mpr hbusy
      split at hs
      · split at hs
        · cases hs
          exact hstay _ nofun
        · cases hs
      · split at hs
        · cases hs
          exact .goto (startBehavior_fine _ _ h hab hS hidle).ok
            ((startBehavior_fine _ _ h hab hS hidle).undefined.trans hu) nofun nofun
        · split at hs
          · cases hs
            exact hstay _ fun _ => live_of_idle hI hidle
          · cases hs
  · cases hs
    obtain ⟨hend, hstack⟩ := endMessage_fine h hab
    exact .goto hend.ok (hend.undefined.trans hu) (fun _ => hstack.trans hS) nofun
  · cases hs
    exact hstay _ nofun

theorem produce_only {s : Address} (hs : m.produce s = some m') :
    ∃ C, m' = { m with cells := C } := by
  obtain ⟨c, -, hs⟩ := Option.bind_eq_some_iff.mp hs
  split at hs
  · obtain ⟨r, -, rfl⟩ := Option.map_eq_some_iff.mp hs
    exact ⟨_, rfl⟩
  · cases hs

/-- **Every step.** -/
theorem step_good {act : CoroAct T X} (hg : m.Good) (hs : m.step act = some m') : m'.Good := by
  unfold step at hs
  split at hs
  · cases hs
  rename_i hstop
  obtain ⟨hab, hu⟩ : m.aborted = false ∧ m.undefined = false := by
    simpa using hstop
  cases act with
  | op op =>
    dsimp only at hs
    split at hs
    · rename_i a S hS
      have hrest : m.driver.atRest ≠ true := fun hr => by
        rw [hg.rest hr] at hS
        cases hS
      have hgone : m.driver ≠ .gone := fun hd => hrest (by rw [hd]; rfl)
      obtain ⟨fa, ha, hs⟩ := Option.bind_eq_some_iff.mp hs
      have hf := exec_ok (hg.ok hgone).1 hab hS ha hs
      exact ⟨fun _ => ⟨hf.ok, hf.undefined.trans hu⟩,
        fun hr => absurd (hf.driver ▸ hr) hrest,
        fun hp => absurd (by rw [← hf.driver, hp]; rfl) hrest⟩
    · cases hs
  | produce s =>
    obtain ⟨C, hC⟩ := produce_only hs
    refine ⟨fun hgone => ?_, ?_, ?_⟩
    · have hf := (produce_ok (hg.ok fun hd => hgone (by rw [hC]; exact hd)).1 hab hs).1
      exact ⟨hf.ok, hf.undefined.trans hu⟩
    · rw [hC]
      exact hg.rest
    · rw [hC]
      exact hg.parking
  | drive mail =>
    dsimp only at hs
    split at hs
    · rename_i hS
      have hgone : m.driver ≠ .gone := by
        intro hd
        unfold drive at hs
        rw [hd] at hs
        cases hs
      exact drive_good (hg.ok hgone).1 hab hu (List.isEmpty_iff.mp hS) hs
    · cases hs
  | resume max =>
    dsimp only at hs
    split at hs
    · rename_i hd
      cases hs
      exact .goto (hg.ok (by rw [hd.1]; exact nofun)).1 hu (fun _ => hg.rest (by rw [hd.1]; rfl))
        nofun
    · cases hs
  | send =>
    dsimp only at hs
    split at hs
    · cases hs
    · cases hs
      exact ⟨hg.ok, hg.rest, hg.parking⟩
  | destroy =>
    dsimp only at hs
    split at hs
    · rename_i hd
      cases hs
      refine ⟨fun hgone => absurd rfl hgone, fun _ => ?_, nofun⟩
      show m.destroyBehavior.destroyMailbox.stack = []
      obtain ⟨F, C, R, slots, u, h⟩ := destroyBehavior_only m
      rw [h]
      exact hd.2
    · cases hs

theorem good_run {acts : List (CoroAct T X)} (h : TS.run step init acts = some m) : m.Good :=
  TS.run_inv (fun _ _ _ => step_good) good_init h

/-- what `resume_impl` finds in the behavior `r` -/
structure AwaitChain (m : Coros T X) (r : Handle) : Prop where
  busy : m.isBusy = true
  chain : ∃ b p, m.Innermost r b p
  drain : ∀ b p c, m.Innermost r b p → m.look p = some c → m.drain =
    if c.mem.st.isReady then { m with
      frames := m.frames.modify b (.goto (.resuming ⟨p, none⟩))
      cells := m.cells.modify p (.onMem fun mem => mem.takeContinuation.2)
      stack := [b] }
    else m

/-- **The await chain.**  In every run: nobody reads freed memory, `park()` is not entered with a
live behavior, and whenever `resume_impl` has control the behavior is done, or it and all of its
chain point to the allocated promise-backed state that the innermost coroutine is registered at; the
drain resumes that coroutine. -/
theorem await_chain {acts : List (CoroAct T X)} (h : TS.run step init acts = some m)
    (hgone : m.driver ≠ .gone) : m.undefined = false ∧ (m.driver = .parking → m.live = none) ∧
      (m.stack = [] → ∀ r, m.currentBehavior = some r → ∃ fr, m.frames.get r = some fr ∧
        (fr.done = true ∨ m.AwaitChain r)) := by
  have hg := good_run h
  obtain ⟨hok, hu⟩ := hg.ok hgone
  refine ⟨hu, hg.parking, fun hS r hr => ?_⟩
  have hab : m.aborted = false := by
    cases hab : m.aborted with
    | false => rfl
    | true =>
      unfold Ok at hok
      rw [if_pos hab] at hok
      exact absurd hS hok
  have hI := hok.inv hab
  rw [hS] at hI
  obtain ⟨fr, hfr, -⟩ := hI.stacked.behavior r hr
  refine ⟨fr, hfr, ?_⟩
  by_cases hd : fr.done = true
  · exact Or.inl hd
  · have hl : m.live = some fr := by
      unfold live
      rw [hr, Option.bind_some, hfr]
      exact Option.filter_some_pos (by simpa using hd)
    refine Or.inr ⟨busy_of_live hI hl, innermost hI hfr fun hfin => hd (beq_iff_eq.mpr hfin),
      fun b p c hb hc => ?_⟩
    rw [drain_eq hl hfr hb hc, hS]

/-- a behavior that awaits a method coroutine, which awaits a promise-backed future -/
def nestedAwait : List (CoroAct Nat Unit) :=
  [.send, .resume 5, .drive (.next 0), .drive (.next 0), .drive (.next 0), .drive (.next 0),
    .op (some .start), .op (some (.adopt (.value 7))), .op (some (.await 0)), .op none, .op none,
    .op none, .op (some (.await 0)), .op none, .op none, .op none]

/-- `await_chain` at a suspended behavior -/
theorem await_chain_nested : ∃ m, TS.run step init nestedAwait = some m ∧ m.stack = [] ∧
    m.currentBehavior = some 0 ∧ m.AwaitChain 0 := by
  have hrun : ∃ m : Coros Nat Unit, TS.run step init nestedAwait = some m ∧ m.driver = .started 4 ∧
      m.stack = [] ∧ m.currentBehavior = some 0 ∧ (m.frames.get 0).map Frame.done = some false :=
    ⟨_, rfl, rfl, rfl, rfl, rfl⟩
  obtain ⟨m, hm, hd, hS, hr, hlive⟩ := hrun
  obtain ⟨-, -, hchain⟩ := await_chain hm (by rw [hd]; exact nofun)
  obtain ⟨fr, hfr, hdone | hchain⟩ := hchain hS 0 hr
  · rw [hfr, Option.map_some, hdone] at hlive
    cases hlive
  · exact ⟨m, hm, hS, hr, hchain⟩

end Coros
end ActorZeta
