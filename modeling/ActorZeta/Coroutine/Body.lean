import ActorZeta.Coroutine.Steps

/-!
# What a body does

* `drop_ok`, `dropping_ok`    a future dies, with the frame it owns if that is done;
* `await_ok`                  `propagate_awaited_state()`: the running coroutine and all outside of
                              it point to the innermost awaited state;
* `adopt_ok`, `start_ok`      new futures;
* `ret_ok`                    the outcome of a method coroutine.
-/

namespace ActorZeta
open StateFlags

namespace Coros
variable {T X : Type} {m m' : Coros T X} {S : List Handle} {a b : Handle} {fa : Frame}
  {f g : Future} {c : Cell T X}

/-! ## futures that die -/

theorem look_of_valid {F : Heap Frame} (h : Valid F m.cells a f) : ∃ c, m.look f.state = some c := by
  obtain ⟨c, hc, halive, -⟩ := h
  refine ⟨c, ?_⟩
  unfold look
  rw [hc]
  exact Option.filter_some_pos halive

theorem release_eq (hl : ∃ c, m.look f.state = some c)
    (hb : ∀ b, f.handle = some b → ∃ fb, m.frames.get b = some fb) :
    m.release f = { m with
      frames := reclaimed m.frames f.handle
      cells := m.cells.modify f.state (.onMem Mem.releaseFuture) } := by
  obtain ⟨c, hc⟩ := hl
  have hne : f.handle.map m.frames.get ≠ some none := by
    intro hn
    obtain ⟨b, hf, hnone⟩ := Option.map_eq_some_iff.mp hn
    obtain ⟨fb, hfb⟩ := hb b hf
    rw [hfb] at hnone
    cases hnone
  have hlook : (m.reclaim f.handle).look f.state = some c := by
    unfold reclaim
    rw [if_neg hne]
    exact hc
  unfold release
  dsimp only
  rw [hlook]
  unfold reclaim
  rw [if_neg hne]
  rfl

/-- releasing after a change of the owner's frame -/
theorem release_modify_eq {k : Frame → Frame}
    (h : Inv m.frames m.cells (a :: S) m.currentBehavior none) (ha : m.frames.get a = some fa)
    (hf : f ∈ fa.futures) : (m.onFrame a k).release f = { m with
      frames := reclaimed (m.frames.modify a k) f.handle
      cells := m.cells.modify f.state (.onMem Mem.releaseFuture) } := by
  have hv := h.tokens.valid a fa f ha hf
  refine release_eq (m:=m.onFrame a k) (look_of_valid (m:=m) hv) fun b hb => ?_
  obtain ⟨-, fb, hfb, -⟩ := hv.handle hb
  have hba : b ≠ a := fun he => h.not_self ha hf (hb.trans (congrArg some he))
  exact ⟨fb, (Heap.get_modify_ne hba).trans hfb⟩

/-- a held future dies: the owner is in its body, or has returned -/
theorem drop_ok {k : Frame → Frame} (h : Inv m.frames m.cells (a :: S) m.currentBehavior none)
    (ha : m.frames.get a = some fa) (hpc : fa.pc = .running ∨ fa.pc = .leaving)
    (hheld : fa.held.Perm (f :: (k fa).held)) (hst : (k fa).state = fa.state)
    (hk : fa.SamePointers (k fa)) (hkpc : (k fa).pc = fa.pc) :
    Inv (reclaimed (m.frames.modify a k) f.handle)
      (m.cells.modify f.state (.onMem Mem.releaseFuture)) (a :: S) m.currentBehavior none := by
  have hcur : fa.pc.current = none := by rcases hpc with hpc | hpc <;> rw [hpc] <;> rfl
  have hfut : fa.futures.Perm (f :: (k fa).futures) := by
    unfold Frame.futures
    rw [hkpc, hcur]
    simpa using hheld
  have hact : (k fa).pc.active = true := by
    rw [hkpc]
    rcases hpc with hpc | hpc <;> rw [hpc] <;> rfl
  obtain ⟨hInv, ha'⟩ := h.release no_hole ha hfut
    (fun g hg => hheld.mem_iff.mpr (List.mem_cons_of_mem _ hg)) hst hk (by rw [hkpc]) hact
    fun g hg => by rw [hcur] at hg; cases hg
  refine hInv.settled fun fa' hfa' => ?_
  rw [ha'] at hfa'
  cases hfa'
  have hplace := h.places.place a fa ha nofun
  unfold AtPlace at hplace ⊢
  rw [hkpc, hk.2.2.2.1]
  rcases hpc with hpc | hpc <;> rw [hpc] at hplace ⊢ <;> exact hplace

/-- the awaited future dies at the end of the full expression -/
theorem dropping_ok (h : Inv m.frames m.cells (a :: S) m.currentBehavior none)
    (ha : m.frames.get a = some fa) (hpc : fa.pc = .dropping f) :
    Inv (reclaimed (m.frames.modify a (.goto .running)) f.handle)
      (m.cells.modify f.state (.onMem Mem.releaseFuture)) (a :: S) m.currentBehavior none := by
  have hcur : fa.pc.current = some f := by rw [hpc]; rfl
  have hplace : fa.awaitedFlags = none ∧ Made m.frames f := by
    have hp := h.places.place a fa ha nofun
    unfold AtPlace at hp
    rw [hpc] at hp
    exact hp
  have hfut : fa.futures.Perm (f :: (fa.goto .running).futures) := by
    show (fa.held ++ fa.pc.current.toList).Perm (f :: (fa.held ++ []))
    rw [hcur, List.append_nil]
    exact List.perm_append_singleton f fa.held
  obtain ⟨hInv, ha'⟩ := h.release (k:=.goto .running) no_hole ha hfut (fun g hg => hg) rfl
    ⟨rfl, rfl, rfl, rfl, rfl⟩ (by rw [hpc]; rfl) rfl
    fun g hg => by rw [hcur] at hg; cases hg; exact Or.inl ⟨rfl, hplace.2⟩
  refine hInv.settled fun fa' hfa' => ?_
  rw [ha'] at hfa'
  cases hfa'
  exact hplace.1

/-! ## promises and outcomes -/

/-- a step of a body that leaves the futures alone -/
theorem local_inv {k : Frame → Frame} {C' : Heap (Cell T X)}
    (h : Inv m.frames m.cells (a :: S) m.currentBehavior none)
    (ha : m.frames.get a = some fa) (hcur : fa.pc.current = none)
    (hkcur : (k fa).pc.current = none) (hact : (k fa).pc.active = true)
    (hheld : (k fa).held = fa.held) (hst : (k fa).state = fa.state) (hk : fa.SamePointers (k fa))
    (hV : ∀ b g, Valid m.frames m.cells b g → Valid (m.frames.modify a k) C' b g)
    (hO : ∀ s c b, m.cells.get s = some c → c.maker = .coroutine b →
      ∃ c', C'.get s = some c' ∧ c'.maker = .coroutine b)
    (hcont : ∀ t, contOf C' t = contOf m.cells t) :
    Inv (m.frames.modify a k) C' (a :: S) m.currentBehavior (some a) := by
  have hfut : (k fa).futures = fa.futures := by
    unfold Frame.futures
    rw [hheld, hkcur, hcur]
  refine h.moved no_hole (.modify ha hst hk.2.2.1 (hfut ▸ List.Subperm.refl _))
    ⟨_, Heap.get_modify_self ha, hact⟩
    (h.pointers.modify ha hk fun g hg => by rw [hcur] at hg; cases hg)
    (fun j _ g _ _ hv => hV j g hv) hO (fun _ _ _ _ _ _ => hcont _) fun fa' g hfa' hg => ?_
  rw [Heap.get_modify_self ha] at hfa'
  cases hfa'
  exact (hcont _).trans (h.places.held a fa g ha (hheld ▸ hg))

/-- promises come and go -/
theorem promises_ok {k : Frame → Frame} (h : Inv m.frames m.cells (a :: S) m.currentBehavior none)
    (ha : m.frames.get a = some fa) (hpc : fa.pc = .running ∨ fa.pc = .leaving)
    (hheld : (k fa).held = fa.held) (hst : (k fa).state = fa.state) (hk : fa.SamePointers (k fa))
    (hkpc : (k fa).pc = fa.pc) :
    Inv (m.frames.modify a k) m.cells (a :: S) m.currentBehavior none := by
  have hcur : fa.pc.current = none := by rcases hpc with hpc | hpc <;> rw [hpc] <;> rfl
  have hact : (k fa).pc.active = true := by
    rw [hkpc]
    rcases hpc with hpc | hpc <;> rw [hpc] <;> rfl
  refine (local_inv h ha hcur (hkpc ▸ hcur) hact hheld hst hk (fun b g hv => ?_)
    (goes_own (goes_refl _)) fun _ => rfl).settled fun fa' hfa' => ?_
  · refine hv.goes (goes_refl _ _) fun d fd _ hd _ => ?_
    by_cases hda : d = a
    · subst hda
      rw [ha] at hd
      cases hd
      exact ⟨_, Heap.get_modify_self ha, hst, by rw [hkpc]⟩
    · exact ⟨fd, (Heap.get_modify_ne hda).trans hd, rfl, rfl⟩
  · rw [Heap.get_modify_self ha] at hfa'
    cases hfa'
    have hplace := h.places.place a fa ha nofun
    unfold AtPlace at hplace ⊢
    rw [hkpc, hk.2.2.2.1]
    rcases hpc with hpc | hpc <;> rw [hpc] at hplace ⊢ <;> exact hplace

theorem setOutcome_future (st : State T X) (o : Outcome T X) :
    (st.setOutcome o).flags.has futureReleased = st.flags.has futureReleased := by
  show ((st.write o).flags ||| o.flag).has futureReleased = _
  rw [State.write_flags, Word.has_or]
  cases o <;> simp [Outcome.flag]

theorem setOutcome_continuation (st : State T X) (o : Outcome T X) :
    (st.setOutcome o).continuation = st.continuation := by
  cases o <;> rfl

/-- what `co_return` does to the state of the coroutine -/
def returned (m : Coros T X) (fr : Frame) (o : Outcome T X) : Heap (Cell T X) :=
  match fr.state with
  | some s => m.cells.modify s (.onMem (·.access (·.setOutcome o)))
  | none => m.cells

/-- **`co_return`** -/
theorem ret_ok (o : Outcome T X) (h : Inv m.frames m.cells (a :: S) m.currentBehavior none)
    (ha : m.frames.get a = some fa) (hpc : fa.pc = .running) :
    Inv (m.frames.modify a (.goto .leaving)) (m.returned fa o) (a :: S) m.currentBehavior none := by
  have hcur : fa.pc.current = none := by rw [hpc]; rfl
  -- only the coroutine's own state changes
  have hcell : ∀ t c, m.cells.get t = some c →
      fa.state ≠ some t ∧ (m.returned fa o).get t = some c ∨
      fa.state = some t ∧ (m.returned fa o).get t = some (c.onMem (·.access (·.setOutcome o))) := by
    intro t c hc
    unfold returned
    cases hs : fa.state with
    | none => exact Or.inl ⟨nofun, hc⟩
    | some s =>
      by_cases hts : t = s
      · subst hts
        exact Or.inr ⟨rfl, Heap.get_modify_self hc⟩
      · exact Or.inl ⟨fun he => hts (Option.some.inj he).symm, (Heap.get_modify_ne hts).trans hc⟩
  refine (local_inv h ha hcur rfl rfl rfl rfl ⟨rfl, rfl, rfl, rfl, rfl⟩ (fun b g hv => ?_)
    (fun t c b hc hb => ?_) fun t => ?_).settled fun fa' hfa' => ?_
  · obtain ⟨c, hc, halive, hfut, hm⟩ := hv
    rcases hcell _ c hc with ⟨hstate, hsame⟩ | ⟨hstate, hnew⟩
    · -- another state
      refine Valid.goes ⟨c, hc, halive, hfut, hm⟩ (fun c' hc' => ?_) fun d fd hgd hd hst => ?_
      · rw [hc] at hc'
        cases hc'
        exact ⟨c, hsame, .refl c⟩
      · have hda : d ≠ a := by
          rintro rfl
          rw [ha] at hd
          cases hd
          exact hstate hst
        exact ⟨fd, (Heap.get_modify_ne hda).trans hd, rfl, rfl⟩
    · -- the coroutine's own: now there is a result
      obtain ⟨c', hc', hcor⟩ := h.tokens.own a fa _ ha hstate
      rw [hc] at hc'
      cases hc'
      refine ⟨_, hnew, halive, (setOutcome_future _ o).trans hfut, ?_⟩
      cases hm with
      | thread _ hp =>
        rw [hcor] at hp
        cases hp
      | coroutine hs hcor' hlt hb hst hmade =>
        rw [hcor] at hcor'
        cases hcor'
        exact .coroutine hs hcor hlt (Heap.get_modify_self ha) hstate
          (State.setOutcome_hasResult _ o)
  · rcases hcell t c hc with ⟨-, hsame⟩ | ⟨-, hnew⟩
    · exact ⟨c, hsame, hb⟩
    · exact ⟨_, hnew, hb⟩
  · unfold returned
    split
    · exact contOf_modify_same (fun c _ => setOutcome_continuation _ o) t
    · rfl
  · rw [Heap.get_modify_self ha] at hfa'
    cases hfa'
    have hplace := h.places.place a fa ha nofun
    unfold AtPlace at hplace
    rw [hpc] at hplace
    exact hplace

/-! ## `co_await` begins -/

/-- the held future moves into `owning_awaiter` -/
theorem moveHeld_ok {i : Nat} (h : Inv m.frames m.cells (a :: S) m.currentBehavior none)
    (ha : m.frames.get a = some fa) (hpc : fa.pc = .running) (hi : fa.held[i]? = some f) :
    Inv (m.frames.modify a (.await i f)) m.cells (a :: S) m.currentBehavior (some a) := by
  obtain ⟨hlt, hget⟩ := List.getElem?_eq_some_iff.mp hi
  have hfut : (fa.await i f).futures.Perm fa.futures := by
    unfold Frame.futures
    rw [show fa.pc.current = none by rw [hpc]; rfl]
    show (fa.held.eraseIdx i ++ [f]).Perm (fa.held ++ [])
    rw [List.append_nil]
    refine (List.perm_append_singleton f _).trans ?_
    rw [← hget]
    exact List.getElem_cons_eraseIdx_perm hlt
  refine h.moved no_hole (.modify ha rfl rfl hfut.subperm) ⟨_, Heap.get_modify_self ha, rfl⟩
    (h.pointers.modify ha ⟨rfl, rfl, rfl, rfl, rfl⟩ fun g hg => by rw [hpc] at hg; cases hg)
    (fun j _ g _ _ hv => hv.goes (goes_refl _ _) fun d fd _ hd _ => ?_) (goes_own (goes_refl _))
    (fun _ _ _ _ _ _ => rfl) fun fa' g hfa' hg => ?_
  · by_cases hda : d = a
    · subst hda
      rw [ha] at hd
      cases hd
      exact ⟨_, Heap.get_modify_self ha, rfl, by rw [hpc]; rfl⟩
    · exact ⟨fd, (Heap.get_modify_ne hda).trans hd, rfl, rfl⟩
  · rw [Heap.get_modify_self ha] at hfa'
    cases hfa'
    exact h.places.held a fa g ha (List.mem_of_mem_eraseIdx hg)

/-- linking moves nothing but pointers -/
theorem Moved.link {F F' : Heap Frame} {fb : Frame} {p : Option Address}
    (hb : F.get b = some fb) (hst : fb.state ≠ none) (ho : fb.outerPromise = none)
    (hR : Repointed ((F.modify b (.linkTo a)).modify a (.point p p)) F' a) : Moved F F' a where
  back j fr' hj := by
    obtain ⟨fr1, p', q', h1, rfl⟩ := hR.origin hj
    obtain ⟨fr2, h2, rfl⟩ := Heap.get_modify_some h1
    obtain ⟨fr, hfr, rfl⟩ := Heap.get_modify_some h2
    refine ⟨fr, hfr, ?_, ?_, fun _ => ?_⟩
    · split <;> split <;> rfl
    · split <;> split <;> exact List.Subperm.refl _
    · split <;> split <;> exact ⟨rfl, rfl⟩
  forth j fr hj := by
    refine Or.inr ?_
    by_cases hjb : j = b
    · subst hjb
      rw [hb] at hj
      cases hj
      obtain ⟨p', q', h'⟩ := hR.place (Heap.get_modify_self hb)
      refine ⟨_, h', rfl, fun _ => ⟨rfl, rfl⟩, fun hor => ?_, fun hja hf => ?_⟩
      · exact (hor.resolve_left (fun hne => hne ho) |> hst).elim
      · rw [hR.others j _ ((Heap.get_modify_ne hja).trans (Heap.get_modify_self hb)) (Or.inr hf)]
          at h'
        rw [← Option.some.inj h']
        rfl
    · have hj1 : (F.modify b (.linkTo a)).get j = some fr := (Heap.get_modify_ne hjb).trans hj
      obtain ⟨p', q', h'⟩ := hR.place hj1
      refine ⟨_, h', rfl, fun _ => ⟨rfl, rfl⟩, fun _ => rfl, fun hja hf => ?_⟩
      rw [hR.others j _ ((Heap.get_modify_ne hja).trans hj1) (Or.inr hf)] at h'
      rw [← Option.some.inj h']
  behavior j fr hj _ := by
    obtain ⟨p', q', h'⟩ := hR.place (Heap.get_modify_of hj)
    exact ⟨_, h'⟩

/-- **`propagate_awaited_state()`**: the running coroutine and all outside of it point to the
innermost awaited state. -/
theorem await_ok {i : Nat} (h : Inv m.frames m.cells (a :: S) m.currentBehavior none)
    (ha : m.frames.get a = some fa) (hpc : fa.pc = .running) (hi : fa.held[i]? = some f)
    (hl : m.look f.state = some c) :
    Inv (propagateAwaitedState c.mem.st (m.frames.modify a (.await i f)) a f) m.cells (a :: S)
      m.currentBehavior none := by
  have hheld : f ∈ fa.held := List.mem_of_getElem? hi
  have hmem := mem_futures_held hheld
  have hc := look_some hl
  have hcont : contOf m.cells f.state = none := h.places.held a fa f ha hheld
  have hflags : fa.awaitedFlags = none := by
    have hplace := h.places.place a fa ha nofun
    unfold AtPlace at hplace
    rw [hpc] at hplace
    exact hplace
  have h1 := moveHeld_ok h ha hpc hi
  have hh : ∀ x, some a = some x → x = a := fun x hx => (Option.some.inj hx).symm
  have ha1 : (m.frames.modify a (.await i f)).get a = some (fa.await i f) := Heap.get_modify_self ha
  have hget : ∀ {b fb}, f.handle = some b → (m.frames.modify a (.await i f)).get b = some fb →
      m.frames.get b = some fb := by
    intro b fb hb hfb
    have hba : b ≠ a := fun he => h.not_self ha hmem (hb.trans (congrArg some he))
    rw [← hfb]
    exact (Heap.get_modify_ne hba).symm
  -- nobody propagates to it yet
  have hno : ∀ {b fb}, (m.frames.modify a (.await i f)).get b = some fb →
      fb.outerPromise ≠ some a := by
    intro b fb hb ho
    obtain ⟨-, fa', g, ha', hg, hgb⟩ := h1.pointers.linked.outer b fb a hb ho
    rw [ha1] at ha'
    cases ha'
    cases hg
    rw [h.outer_of_held ha hheld hgb (hget hgb hb)] at ho
    cases ho
  have hset : ∀ p, (∀ fa' : Frame, fa'.pc = .awaiting f → fa'.awaitedFlags = p →
      AtPlace (setAwaited (m.frames.modify a (.await i f)) a p p) m.cells a fa') →
      Inv (setAwaited (m.frames.modify a (.await i f)) a p p) m.cells (a :: S) m.currentBehavior
        none := by
    intro p hplace
    obtain ⟨h2, ha2, -⟩ := h1.setAwaited (p:=p) hh ha1 rfl fun b fb hb ho => absurd ho (hno hb)
    refine h2.settled fun fa' ha' => ?_
    rw [ha2] at ha'
    cases ha'
    exact hplace _ rfl rfl
  unfold propagateAwaitedState
  cases hr : c.mem.st.hasResult with
  | true =>
    refine hset none fun fa' hpc' hp => ?_
    unfold AtPlace
    rw [hpc']
    exact ⟨hcont, Or.inl ⟨hp, c, hc, hr⟩⟩
  | false =>
    rw [if_neg nofun]
    cases hb : f.handle with
    | none =>
      rw [show (if c.mem.st.isReady = true then (none : Option Handle) else none) = none by
        split <;> rfl]
      refine hset _ fun fa' hpc' hp => ?_
      unfold AtPlace
      rw [hpc']
      refine ⟨hcont, Or.inr ?_⟩
      unfold Target
      rw [hb]
      exact hp
    | some b =>
      obtain ⟨hempty, fb, g, hfb, hpb⟩ := h.unmade_of_no_result ha hmem hc hr hb
      obtain ⟨hlt, fb', hfb', hst⟩ := (h.tokens.valid a fa f ha hmem).handle hb
      rw [hfb] at hfb'
      cases hfb'
      obtain ⟨p, hp⟩ := h.innermost_of_held ha hheld hb hfb hpb
      have hsame : fb.awaitedContinuation = fb.awaitedFlags :=
        (h.pointers.linked.same b fb hfb).2.2
      have hab : a ≠ b := Nat.ne_of_lt hlt
      have hb1 : (m.frames.modify a (.await i f)).get b = some fb :=
        (Heap.get_modify_ne hab.symm).trans hfb
      have hready : c.mem.st.isReady = false := by simp [State.isReady, hempty]
      rw [hready, if_neg nofun]
      dsimp only
      rw [Heap.get_modify_self hb1]
      dsimp only
      rw [if_pos (by show fb.awaitedFlags.isSome = true; rw [hp]; rfl)]
      show Inv (setAwaited _ a fb.awaitedFlags fb.awaitedContinuation) _ _ _ _
      rw [hsame]
      have ho : fb.outerPromise = none := h.outer_of_held ha hheld hb hfb
      obtain ⟨hP, ha3, hR⟩ := link_spec h1.pointers ha1 hb1 rfl hb hlt rfl
      have hM := Moved.link hb1 (by rw [hst]; exact nofun) ho hR
      refine (h1.moved hh hM ⟨_, ha3, rfl⟩ hP (fun j _ g _ _ hv => hv.goes (goes_refl _ _)
        fun d fd _ hd _ => ?_) (goes_own (goes_refl _)) (fun _ _ _ _ _ _ => rfl)
        fun fa' g hfa' hg => ?_).settled fun fa' hfa' => ?_
      · by_cases hdb : d = b
        · subst hdb
          rw [hb1] at hd
          cases hd
          obtain ⟨p', q', h'⟩ := hR.place (Heap.get_modify_self hb1)
          exact ⟨_, h', rfl, rfl⟩
        · obtain ⟨p', q', h'⟩ := hR.place ((Heap.get_modify_ne hdb).trans hd)
          exact ⟨_, h', rfl, rfl⟩
      · rw [ha3] at hfa'
        cases hfa'
        exact h1.places.held a _ g ha1 hg
      · rw [ha3] at hfa'
        cases hfa'
        obtain ⟨p', q', hb3⟩ := hR.place (Heap.get_modify_self hb1)
        refine ⟨hcont, Or.inr ?_⟩
        unfold Target
        rw [hb]
        exact ⟨_, hb3, by show fb.pc ≠ _; rw [hpb]; exact nofun, rfl⟩

end Coros
end ActorZeta
