import ActorZeta.Coroutine.Moves

/-!
# Inside `co_await`

* `await_ready_ok`, `await_suspend_ok`, `suspend_ok`, `recheck_ok`   until the coroutine is
                                                     suspended, or goes on;
* `await_resume_ok`, `extract_ok`                    after the result is there.
-/

namespace ActorZeta
open StateFlags

namespace Coros
variable {T X : Type} {m m' : Coros T X} {S : List Handle} {a b : Handle} {fa : Frame} {f : Future}
  {c : Cell T X}

theorem look_some (h : m.look f.state = some c) : m.cells.get f.state = some c :=
  (Option.filter_eq_some_iff.mp h).1

theorem no_hole : ∀ x : Handle, (none : Option Handle) = some x → x = a := nofun

/-- `await_ready()` -/
theorem await_ready_ok (h : Inv m.frames m.cells (a :: S) m.currentBehavior none)
    (ha : m.frames.get a = some fa) (hpc : fa.pc = .awaiting f)
    (hl : m.look f.state = some c) :
    Inv (m.frames.modify a (.goto (if c.mem.st.hasResult then .resuming f else .suspending f)))
      m.cells (a :: S) m.currentBehavior none := by
  have hcur : fa.pc.current = some f := by rw [hpc]; rfl
  have hmem := mem_futures_current hcur
  have hc := look_some hl
  have hplace : contOf m.cells f.state = none ∧ (fa.awaitedFlags = none ∧
      hasResultAt m.cells f.state ∨ Target m.frames a fa f) := by
    have hp := h.places.place a fa ha nofun
    unfold AtPlace at hp
    rw [hpc] at hp
    exact hp
  refine (h.goto no_hole ha hcur ?_ ?_ (goes_refl _) fun _ _ => rfl).settled fun fa' ha' => ?_
  · split <;> rfl
  · split <;> rfl
  · rw [Heap.get_modify_self ha] at ha'
    cases ha'
    have hself := h.not_self ha hmem
    cases hr : c.mem.st.hasResult with
    | true => exact (h.made_of_result ha hmem hc hr).modify hself
    | false =>
      rcases hplace.2 with ⟨-, c', hc', hr'⟩ | ht
      · rw [hc] at hc'
        cases hc'
        rw [hr] at hr'
        cases hr'
      · exact ⟨hplace.1, ht.modify rfl hself⟩

/-- the continuation changes, and nothing else -/
theorem goes_continuation (cont : Option Handle) (mem : Mem T X) (mk : Maker T X) :
    (⟨mem, mk⟩ : Cell T X).Goes ⟨mem.access ({ · with continuation := cont }), mk⟩ where
  alive := id
  future := rfl
  result := id
  maker := by
    split
    · exact ⟨by assumption, id⟩
    · exact ⟨_, by assumption, id⟩

/-- the compare-exchange of `await_suspend` -/
theorem await_suspend_ok (h : Inv m.frames m.cells (a :: S) m.currentBehavior none)
    (ha : m.frames.get a = some fa) (hpc : fa.pc = .suspending f)
    (hl : m.look f.state = some c) :
    c.mem.st.continuation = none ∧
    Inv (m.frames.modify a (.goto (.rechecking f)))
      (m.cells.modify f.state (.onMem (·.access ({ · with continuation := some a }))))
      (a :: S) m.currentBehavior none := by
  have hcur : fa.pc.current = some f := by rw [hpc]; rfl
  have hc := look_some hl
  have hplace : contOf m.cells f.state = none ∧ Target m.frames a fa f := by
    have hp := h.places.place a fa ha nofun
    unfold AtPlace at hp
    rw [hpc] at hp
    exact hp
  have hcont : c.mem.st.continuation = none := by
    have := hplace.1
    unfold contOf at this
    rw [hc] at this
    exact this
  refine ⟨hcont, (h.goto no_hole ha hcur rfl rfl (fun t c ht => Cell.Goes.modify (fun c hc => ?_) ht)
    fun t ht => contOf_modify_ne ht).settled fun fa' ha' => ?_⟩
  · exact goes_continuation _ c.mem c.maker
  · rw [Heap.get_modify_self ha] at ha'
    cases ha'
    exact ⟨contOf_modify_self hc,
      hplace.2.modify rfl (h.not_self ha (mem_futures_current hcur))⟩

/-- the second look of `await_suspend`, without a result: the coroutine is suspended -/
theorem suspend_ok (h : Inv m.frames m.cells (a :: S) m.currentBehavior none)
    (ha : m.frames.get a = some fa) (hpc : fa.pc = .rechecking f) :
    Inv (m.frames.modify a (.goto (.suspended f))) m.cells S m.currentBehavior none := by
  have hcur : fa.pc.current = some f := by rw [hpc]; rfl
  have hplace : contOf m.cells f.state = some a ∧ Target m.frames a fa f := by
    have hp := h.places.place a fa ha nofun
    unfold AtPlace at hp
    rw [hpc] at hp
    exact hp
  have hM : Moved m.frames (m.frames.modify a (.goto (.suspended f))) a := .goto ha hcur rfl
  have hcont : ∀ j fr g, m.frames.get j = some fr → g ∈ fr.futures → j ≠ a →
      contOf m.cells g.state = contOf m.cells g.state := fun _ _ _ _ _ _ => rfl
  have hsame : ∀ t, t ≠ f.state → contOf m.cells t = contOf m.cells t := fun _ _ => rfl
  have ha' := Heap.get_modify_self (f:=.goto (.suspended f)) ha
  refine ⟨h.pointers.modify ha ⟨rfl, rfl, rfl, rfl, rfl⟩ fun g hg => ?_,
    h.tokens.moved hM (fun _ _ _ _ _ hv => hv.goto ha ?_ (goes_refl _)) (goes_own (goes_refl _)),
    ⟨h.held_moved hM hcont (h.goto_held ha hcur hsame), fun j fr hj _ => ?_⟩,
    hM.popped h.pointers.linked h.stacked fun fa' hfa' => ?_, nofun⟩
  · rw [hcur] at hg
    cases hg
    rfl
  · rw [hpc]; rfl
  · by_cases hja : j = a
    · subst hja
      rw [ha'] at hj
      cases hj
      exact ⟨hplace.1, hplace.2.modify rfl (h.not_self ha (mem_futures_current hcur))⟩
    · refine h.place_moved no_hole hM hcont hj hja fun fa0 fa' _ hfa' hfin => ?_
      rw [ha'] at hfa'
      cases hfa'
      cases hfin
  · rw [ha'] at hfa'
    cases hfa'
    rfl

/-- with a result the coroutine takes its continuation back and goes on -/
theorem recheck_ok (h : Inv m.frames m.cells (a :: S) m.currentBehavior none)
    (ha : m.frames.get a = some fa) (hpc : fa.pc = .rechecking f) (hl : m.look f.state = some c)
    (hr : c.mem.st.hasResult = true) :
    c.mem.st.continuation = some a ∧
    Inv (m.frames.modify a (.goto (.resuming f)))
      (m.cells.modify f.state (.onMem fun mem => mem.takeContinuation.2)) (a :: S)
      m.currentBehavior none := by
  have hcur : fa.pc.current = some f := by rw [hpc]; rfl
  have hmem := mem_futures_current hcur
  have hc := look_some hl
  have hcont : contOf m.cells f.state = some a := by
    have hp := h.places.place a fa ha nofun
    unfold AtPlace at hp
    rw [hpc] at hp
    exact hp.1
  unfold contOf at hcont
  rw [hc] at hcont
  refine ⟨hcont, (h.goto no_hole ha hcur rfl rfl (fun t c ht => Cell.Goes.modify (fun c hc => ?_) ht)
    fun t ht => contOf_modify_ne ht).settled fun fa' ha' => ?_⟩
  · exact goes_continuation _ c.mem c.maker
  · rw [Heap.get_modify_self ha] at ha'
    cases ha'
    exact (h.made_of_result ha hmem hc hr).modify (h.not_self ha hmem)

/-- `await_resume()` clears the chain; then it throws, refuses, or extracts -/
theorem await_resume_ok {pc : Place} (h : Inv m.frames m.cells (a :: S) m.currentBehavior none)
    (ha : m.frames.get a = some fa) (hpc : fa.pc = .resuming f)
    (hnext : pc = .dropping f ∨ pc = .extracting f) :
    Inv ((clearAwaitedChain m.frames a).modify a (.goto pc)) m.cells (a :: S)
      m.currentBehavior none := by
  have hcur : fa.pc.current = some f := by rw [hpc]; rfl
  have hmade : Made m.frames f := by
    have hp := h.places.place a fa ha nofun
    unfold AtPlace at hp
    rw [hpc] at hp
    exact hp
  obtain ⟨h1, ha1, hR⟩ := h.setAwaited (p:=none) no_hole ha (by rw [hpc]; rfl) fun b fb hb ho =>
    h.inner_cleared ha (fun g hg => by rw [hcur] at hg; cases hg; exact hmade) hb ho
  have hself := h.not_self ha (mem_futures_current hcur)
  have hpc' : pc.current = some f ∧ pc.active = true := by
    rcases hnext with rfl | rfl <;> exact ⟨rfl, rfl⟩
  refine (h1.goto (fun x hx => (Option.some.inj hx).symm) ha1 hcur hpc'.1 hpc'.2 (goes_refl _)
    fun _ _ => rfl).settled fun fa' ha' => ?_
  rw [Heap.get_modify_self ha1] at ha'
  cases ha'
  have hm' := (hmade.repointed hR).modify (k:=.goto pc) hself
  rcases hnext with rfl | rfl <;> exact ⟨rfl, hm'⟩

/-- `take_value()` -/
theorem extract_ok {v : T} {st : State T X} (h : Inv m.frames m.cells (a :: S) m.currentBehavior none)
    (ha : m.frames.get a = some fa) (hpc : fa.pc = .extracting f) (hl : m.look f.state = some c)
    (ht : c.mem.st.takeValue = some (v, st)) :
    Inv (m.frames.modify a (.goto (.dropping f)))
      (m.cells.modify f.state (.onMem (·.access fun _ => st))) (a :: S) m.currentBehavior none := by
  have hcur : fa.pc.current = some f := by rw [hpc]; rfl
  have hc := look_some hl
  have hplace : fa.awaitedFlags = none ∧ Made m.frames f := by
    have hp := h.places.place a fa ha nofun
    unfold AtPlace at hp
    rw [hpc] at hp
    exact hp
  -- the value is moved out, and `consumed` is set
  obtain ⟨v', -, he⟩ := Option.map_eq_some_iff.mp ht
  cases he
  have hcont : ∀ t, contOf (m.cells.modify f.state (.onMem (·.access fun _ =>
      { c.mem.st.fetchOr consumed with value := none }))) t = contOf m.cells t := by
    refine contOf_modify_same fun c' hc' => ?_
    rw [hc] at hc'
    cases hc'
    rfl
  refine (h.goto no_hole ha hcur rfl rfl (fun t c' ht' => Cell.Goes.modify (fun c1 hc1 => ?_) ht')
    fun t _ => hcont t).settled fun fa' ha' => ?_
  · rw [hc] at hc1
    cases hc1
    refine ⟨id, ?_, fun hr => ?_, ?_⟩
    · show (c.mem.st.flags ||| consumed).has futureReleased = _
      simp
    · show (c.mem.st.flags ||| consumed).has resultSet = true
      rw [Word.has_or, show c.mem.st.flags.has resultSet = true from hr]
      rfl
    · split
      · rename_i b hb
        refine ⟨hb, fun he => ?_⟩
        have hmem := mem_futures_current hcur
        exact absurd he (hasResult_ne_empty (h.tokens.result_of_made ha hmem hc hplace.2 hb))
      · exact ⟨_, by assumption, id⟩
  · rw [Heap.get_modify_self ha] at ha'
    cases ha'
    exact ⟨hplace.1, hplace.2.modify (h.not_self ha (mem_futures_current hcur))⟩

end Coros
end ActorZeta
