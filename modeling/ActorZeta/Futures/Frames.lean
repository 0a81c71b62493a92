import ActorZeta.Futures.Ownership

/-!
# What a step does to the frames

`handle.destroy()` and `handle.resume()` are called in few places.  What a step can do to the frames
is said once, and from it, for every step of a run, which frames it destroys and which it resumes.

* `Quiet`             a piece of a step that destroys nothing and resumes nothing;
* `Change`            a step destroys a parked frame, resumes a suspended one, or makes a new one;
* `Careful`           and a frame it destroys or resumes is there, and not on the call stack;
* `frame_ownership`   the steps of a run are, and a frame that everybody is through with is gone;
* `destroyed_again`   a destructor meets the `release()` that runs it.
-/

namespace ActorZeta
namespace Futures
variable {T X : Type} {m m' m'' : Futures T X} {acts : List (Act T X)} {act : Act T X} {g : Nat}
  {a : Handle} {s : Address} {k : After}

/-! ## pieces of a step -/

/-- no frame is destroyed, and no body comes onto the call stack -/
structure Quiet (m m' : Futures T X) : Prop where
  destroyed : m'.destroyed = m.destroyed
  bodies : ∀ b, .body b ∈ m'.control → .body b ∈ m.control

theorem Quiet.of_eq (hD : m'.destroyed = m.destroyed) (hK : m'.control = m.control) : Quiet m m' :=
  ⟨hD, fun _ hb => hK ▸ hb⟩

theorem Quiet.refl : Quiet m m := .of_eq rfl rfl

theorem Quiet.undef : Quiet m m.undef := .of_eq rfl rfl

theorem Quiet.trans (h : Quiet m m') (h' : Quiet m' m'') : Quiet m m'' :=
  ⟨h'.destroyed.trans h.destroyed, fun b hb => h.bodies b (h'.bodies b hb)⟩

theorem Quiet.pop : Quiet m m.pop := ⟨rfl, fun _ => List.mem_of_mem_tail⟩

theorem Quiet.push {ts : List Task} (h : ∀ b, .body b ∉ ts) : Quiet m (m.push ts) := by
  refine ⟨rfl, fun b hb => ?_⟩
  rcases List.mem_append.mp hb with hb | hb
  · exact absurd hb (h b)
  · exact hb

theorem not_body_destructors (p : Home) (b : Handle) : .body b ∉ m.destructors p := by
  intro hb
  rcases mem_destructors hb with he | ⟨g, o, he, -⟩
  · cases he
  · cases he

theorem Quiet.destructors (p : Home) : Quiet m (m.push (m.destructors p)) :=
  .push (not_body_destructors p)

theorem Quiet.dropState : Quiet m (m.dropState g k) := by
  unfold Futures.dropState
  cases m.objects.get g with
  | none => exact .undef
  | some o =>
    have hclear : Quiet m (m.onObject g ({ · with handle := none })) := .of_eq rfl rfl
    have hpush : Quiet m ((m.onObject g ({ · with handle := none })).push [.releasing g k]) :=
      hclear.trans (.push fun b hb => by cases List.mem_singleton.mp hb)
    dsimp only
    cases o.state with
    | none => exact hpush
    | some s =>
      dsimp only
      cases ((m.onObject g ({ · with handle := none })).push [.releasing g k]).look s with
      | none => exact hpush.trans .undef
      | some c =>
        dsimp only
        have hstate : Quiet m (((m.onObject g ({ · with handle := none })).push
            [.releasing g k]).onState s Mem.releaseFuture) := hpush.trans (.of_eq rfl rfl)
        by_cases hd : c.mem.st.releaseFuture.1 = true
        · rw [if_pos hd]
          exact hstate.trans (.destructors _)
        · rw [if_neg hd]
          exact hstate

theorem Quiet.finish : Quiet m (m.finish g k) := by
  unfold Futures.finish
  cases k with
  | nothing => exact .of_eq rfl rfl
  | destroy => exact .of_eq rfl rfl
  | assign h =>
    dsimp only
    cases (m.onObject g ({ · with state := none })).objects.get h with
    | none => exact .of_eq rfl rfl
    | some o => exact .of_eq rfl rfl

theorem Quiet.moveInto (p : Home) : Quiet m (moveInto p m g) := by
  unfold Futures.moveInto
  cases m.objects.get g with
  | none => exact .undef
  | some o => exact .of_eq rfl rfl

theorem Quiet.moveAll (p : Home) : ∀ (gs : List Nat) (m : Futures T X),
    Quiet m (gs.foldl (Futures.moveInto p) m)
  | [], _ => .refl
  | _ :: gs, _ => .trans (.moveInto p) (Quiet.moveAll p gs _)

theorem Quiet.inspect (o : Object) : Quiet m (m.inspect o) := by
  unfold Futures.inspect
  cases o.state with
  | none => exact .refl
  | some s =>
    dsimp only
    cases m.look s with
    | none => exact .undef
    | some c =>
      dsimp only
      by_cases hr : c.mem.st.isReady = true
      · rw [if_pos hr]
        exact .refl
      · rw [if_neg hr]
        cases o.handle with
        | none => exact .refl
        | some a =>
          dsimp only
          by_cases hl : m.live a = true
          · rw [if_pos hl]
            exact .refl
          · rw [if_neg hl]
            exact .undef

theorem Quiet.updateOuters : Quiet m (m.updateOuters a) := by
  unfold Futures.updateOuters
  by_cases hall : (outers m.frames.next m.frames a).all m.live = true
  · rw [if_pos hall]
    exact .refl
  · rw [if_neg hall]
    exact .undef

theorem Quiet.link (o : Object) (c : Shared T X) : Quiet m (m.link a o c) := by
  unfold Futures.link
  refine .trans ?_ .updateOuters
  cases (if c.mem.st.hasResult || c.mem.st.isReady then none else o.handle) with
  | none => exact .refl
  | some i =>
    dsimp only
    by_cases hl : m.live i = true
    · rw [if_pos hl]
      exact .of_eq rfl rfl
    · rw [if_neg hl]
      exact .undef

theorem Quiet.await (o : Object) (c : Shared T X) : Quiet m (m.await a g o s c) := by
  have hmove : Quiet m (Futures.moveInto (.awaiter a) (m.link a o c) g) :=
    (Quiet.link o c).trans (.moveInto _)
  unfold Futures.await
  dsimp only
  by_cases hr : c.mem.st.hasResult = true
  · rw [if_pos hr]
    exact hmove.trans .updateOuters
  · rw [if_neg hr]
    cases c.mem.st.continuation with
    | none => exact hmove.trans ⟨rfl, fun _ => List.mem_of_mem_tail⟩
    | some _ => exact hmove.trans .updateOuters

theorem Quiet.settle (c : Shared T X) (o : Outcome T X) : Quiet m (m.settle s c o) := by
  unfold Futures.settle
  dsimp only
  have hstate : Quiet m (m.onState s fun _ => (c.mem.access (·.setOutcome o)).finalize.2) :=
    .of_eq rfl rfl
  by_cases hd : (c.mem.access (·.setOutcome o)).finalize.1 = true
  · rw [if_pos hd]
    exact hstate.trans (.destructors _)
  · rw [if_neg hd]
    exact hstate

/-! ## a step -/

/-- what a step can do to the frames -/
inductive Change (m m' : Futures T X) : Prop
  | quiet : Quiet m m' → Change m m'
  | destroys {a : Handle} {fr : MethodFrame} : m.frames.get a = some fr → fr.phase = .parked →
      m'.destroyed = a :: m.destroyed → (∀ b, .body b ∈ m'.control → .body b ∈ m.control) →
      Change m m'
  | resumes {a : Handle} {fr : MethodFrame} {g : Nat} : m.frames.get a = some fr →
      fr.phase = .suspended g → m'.destroyed = m.destroyed →
      (∀ b, .body b ∈ m'.control → b = a ∨ .body b ∈ m.control) → Change m m'
  | starts : m'.destroyed = m.destroyed →
      (∀ b, .body b ∈ m'.control → b = m.frames.next ∨ .body b ∈ m.control) → Change m m'
  | undefined : m'.undefined = true → Change m m'

/-- quiet pieces before it that leave the frames alone -/
theorem Quiet.change (hq : Quiet m m') (hF : m'.frames = m.frames) (h : Change m' m'') :
    Change m m'' := by
  cases h with
  | quiet h => exact .quiet (hq.trans h)
  | destroys hf hp hD hK =>
    exact .destroys (hF ▸ hf) hp (hD.trans (congrArg _ hq.destroyed)) fun b hb =>
      hq.bodies b (hK b hb)
  | resumes hf hp hD hK =>
    exact .resumes (hF ▸ hf) hp (hD.trans hq.destroyed) fun b hb =>
      (hK b hb).imp_right (hq.bodies b)
  | starts hD hK =>
    exact .starts (hD.trans hq.destroyed) fun b hb => (hF ▸ hK b hb).imp_right (hq.bodies b)
  | undefined hu => exact .undefined hu

theorem Change.destroyFrame : Change m (m.destroyFrame a) := by
  cases hf : m.frames.get a with
  | none =>
    unfold Futures.destroyFrame
    dsimp only
    rw [hf]
    exact .undefined rfl
  | some fr =>
    by_cases hp : fr.phase = .parked
    · rw [destroyFrame_parked hf hp]
      refine .destroys hf hp rfl fun b hb => ?_
      exact (Quiet.destructors (m:={ m with
        frames := m.frames.modify a (.goto .dying), destroyed := a :: m.destroyed }) _).bodies b hb
    · unfold Futures.destroyFrame
      dsimp only
      rw [hf]
      dsimp only
      rw [if_neg hp]
      exact .undefined rfl

theorem Change.release : Change m (m.release g k) := by
  unfold Futures.release
  cases m.objects.get g with
  | none => exact .quiet .undef
  | some o =>
    dsimp only
    cases o.handle with
    | none => exact .quiet .dropState
    | some a =>
      dsimp only
      cases m.frames.get a with
      | none => exact .quiet .undef
      | some fr =>
        dsimp only
        by_cases hfreed : fr.phase = .freed
        · rw [if_pos hfreed]
          exact .quiet .undef
        · rw [if_neg hfreed]
          by_cases hd : fr.done = true
          · rw [if_pos hd]
            have hpush : Quiet m (m.push [.reclaiming a g k]) :=
              .push fun b hb => by cases List.mem_singleton.mp hb
            exact hpush.change rfl .destroyFrame
          · rw [if_neg hd]
            exact .quiet .dropState

/-- `handle.resume()`: of a coroutine that is suspended in a `co_await` -/
theorem resume_cases : Quiet m (m.resume a) ∨ ∃ fr g, m.frames.get a = some fr ∧
    fr.phase = .suspended g ∧ (m.resume a).destroyed = m.destroyed ∧
    ∀ b, .body b ∈ (m.resume a).control → b = a ∨ .body b ∈ m.control := by
  unfold Futures.resume
  cases hf : m.frames.get a with
  | none => exact Or.inl .undef
  | some fr =>
    dsimp only
    cases hp : fr.phase with
    | suspended g =>
      have hq := Quiet.updateOuters (m:=(m.onFrame a (.goto .running)).push [.body a]) (a:=a)
      refine Or.inr ⟨fr, g, rfl, hp, hq.destroyed, fun b hb => ?_⟩
      rcases List.mem_cons.mp (hq.bodies b hb) with he | hb
      · cases he
        exact Or.inl rfl
      · exact Or.inr hb
    | _ => exact Or.inl .undef

theorem Change.resume : Change m (m.resume a) := by
  rcases resume_cases (m:=m) (a:=a) with h | ⟨fr, g, hf, hp, hD, hK⟩
  · exact .quiet h
  · exact .resumes hf hp hD hK

theorem Change.start (gs : List Nat) : Change m (m.start gs) := by
  have hq := Quiet.moveAll (.param m.frames.next) gs { m with
    frames := m.frames.alloc ⟨m.states.next, .running, none⟩
    states := m.states.alloc ⟨.fresh, some m.frames.next⟩
    objects := m.objects.alloc ⟨some m.states.next, some m.frames.next, .outside⟩
    control := .body m.frames.next :: m.control }
  refine .starts hq.destroyed fun b hb => ?_
  rcases List.mem_cons.mp (hq.bodies b hb) with he | hb
  · cases he
    exact Or.inl rfl
  · exact Or.inr hb

/-- the final awaiter parks its own frame, and resumes another one at most -/
theorem Change.finalSuspend (fr : MethodFrame) : Change m (m.finalSuspend a fr) := by
  unfold Futures.finalSuspend
  cases m.look fr.state with
  | none => exact .quiet .undef
  | some c =>
    dsimp only
    have hpark : ∀ mem : Mem T X, Quiet m
        ((m.onState fr.state fun _ => mem).onFrame a (.goto .parked)).pop :=
      fun _ => ⟨rfl, fun _ => List.mem_of_mem_tail⟩
    rcases c.mem.takeContinuation with ⟨cont, mem⟩
    dsimp only
    by_cases hd : mem.finalize.1 = true
    · rw [if_pos hd]
      refine .quiet ((hpark _).trans (.push fun b hb => ?_))
      rcases List.mem_append.mp hb with hb | hb
      · exact not_body_destructors _ b hb
      · cases List.mem_singleton.mp hb
    · rw [if_neg hd]
      cases cont with
      | none => exact .quiet (hpark _)
      | some b =>
        show Change m (Futures.resume _ b)
        rcases resume_cases (m:=((m.onState fr.state fun _ => mem.finalize.2).onFrame a
          (.goto .parked)).pop) (a:=b) with h | ⟨fb, g, hf, hp, hD, hK⟩
        · exact .quiet ((hpark _).trans h)
        · obtain ⟨fb₀, hf₀, rfl⟩ := Heap.get_modify_some hf
          by_cases hba : b = a
          · rw [if_pos hba] at hp
            cases hp
          · rw [if_neg hba] at hp
            exact .resumes hf₀ hp hD fun d hd => (hK d hd).imp_right ((hpark _).bodies d)

theorem exec_change (hs : m.exec act = some m') : Change m m' := by
  unfold Futures.exec at hs
  cases act with
  | new => cases hs; exact .quiet (.of_eq rfl rfl)
  | promise => cases hs; exact .quiet (.of_eq rfl rfl)
  | settle s o =>
    obtain ⟨c, -, hs⟩ := Option.bind_eq_some_iff.mp hs
    split at hs
    · cases hs
      exact .quiet (.settle c o)
    · cases hs
  | start gs =>
    dsimp only at hs
    split at hs
    · cases hs
      exact .start gs
    · cases hs
  | move g p =>
    dsimp only at hs
    split at hs
    · cases hs
      exact .quiet (.moveInto p)
    · cases hs
  | assign g h =>
    dsimp only at hs
    split at hs
    · cases hs
      by_cases he : g = h
      · rw [if_pos he]
        exact .quiet .refl
      · rw [if_neg he]
        exact .release
    · cases hs
  | takeReady g =>
    obtain ⟨o, -, hs⟩ := Option.bind_eq_some_iff.mp hs
    obtain ⟨s, -, hs⟩ := Option.bind_eq_some_iff.mp hs
    cases hl : m.look s with
    | none =>
      rw [hl] at hs
      cases hs
      exact .quiet .undef
    | some c =>
      rw [hl] at hs
      dsimp only at hs
      split at hs
      · obtain ⟨v, -, rfl⟩ := Option.map_eq_some_iff.mp hs
        have hq : Quiet m (m.onState s (·.access fun _ => v.2)) := .of_eq rfl rfl
        exact hq.change rfl .release
      · cases hs
  | detach g =>
    obtain ⟨o, -, rfl⟩ := Option.map_eq_some_iff.mp hs
    exact .release
  | destroy g =>
    obtain ⟨o, -, hs⟩ := Option.bind_eq_some_iff.mp hs
    split at hs
    · cases hs
      exact .release
    · cases hs
  | inspect g =>
    obtain ⟨o, -, rfl⟩ := Option.map_eq_some_iff.mp hs
    exact .quiet (.inspect o)
  | await g =>
    obtain ⟨⟨a, fr⟩, -, hs⟩ := Option.bind_eq_some_iff.mp hs
    obtain ⟨o, -, hs⟩ := Option.bind_eq_some_iff.mp hs
    obtain ⟨s, -, hs⟩ := Option.bind_eq_some_iff.mp hs
    split at hs
    · cases hl : m.look s with
      | none =>
        rw [hl] at hs
        cases hs
        exact .quiet .undef
      | some c =>
        rw [hl] at hs
        cases hs
        exact .quiet (.await o c)
    · cases hs
  | endAwait g =>
    obtain ⟨⟨a, fr⟩, -, hs⟩ := Option.bind_eq_some_iff.mp hs
    obtain ⟨o, -, hs⟩ := Option.bind_eq_some_iff.mp hs
    split at hs
    · cases hs
      exact .release
    · cases hs
  | coReturn o =>
    obtain ⟨⟨a, fr⟩, -, hs⟩ := Option.bind_eq_some_iff.mp hs
    dsimp only at hs
    split at hs
    · cases hs
      exact .quiet (.of_eq rfl rfl)
    · cases hs
  | finalSuspend =>
    obtain ⟨⟨a, fr⟩, -, hs⟩ := Option.bind_eq_some_iff.mp hs
    dsimp only at hs
    split at hs
    · cases hs
      exact .finalSuspend fr
    · cases hs
  | drain s =>
    obtain ⟨c, -, hs⟩ := Option.bind_eq_some_iff.mp hs
    split at hs
    · obtain ⟨a, -, rfl⟩ := Option.map_eq_some_iff.mp hs
      have hq : Quiet m (m.onState s fun mem => mem.takeContinuation.2) := .of_eq rfl rfl
      exact hq.change rfl .resume
    · cases hs
  | leave =>
    dsimp only at hs
    split at hs
    · cases hs
      exact .quiet .pop
    · cases hs
  | library => cases hs

theorem library_change (hs : m.library = some m') : Change m m' := by
  unfold Futures.library at hs
  cases hK : m.control with
  | nil => rw [hK] at hs; cases hs
  | cons t K =>
    rw [hK] at hs
    cases t with
    | body a => cases hs
    | user => cases hs
    | destructor g =>
      cases hs
      exact Quiet.pop.change rfl .release
    | reclaiming a g k =>
      cases hs
      have hfreed : Quiet m (m.pop.onFrame a (.goto .freed)) := ⟨rfl, fun _ => List.mem_of_mem_tail⟩
      exact .quiet (hfreed.trans .dropState)
    | releasing g k =>
      cases hs
      exact .quiet (Quiet.pop.trans .finish)
    | cancelled a =>
      cases hs
      have hpush : Quiet m.pop (m.pop.push [.selfDestroying a]) :=
        .push fun b hb => by cases List.mem_singleton.mp hb
      exact (Quiet.pop.trans hpush).change rfl .destroyFrame
    | selfDestroying a =>
      cases hs
      exact .quiet ⟨rfl, fun _ => List.mem_of_mem_tail⟩

/-- **Every step.** -/
theorem step_change (hs : Futures.step m act = some m') : Change m m' := by
  by_cases hact : act = .library
  · subst hact
    exact library_change hs
  · have hs' : (if m.hasControl then m.exec act else none) = some m' := by
      unfold Futures.step at hs
      split at hs
      · exact absurd rfl hact
      · exact hs
    by_cases hc : m.hasControl = true
    · rw [if_pos hc] at hs'
      exact exec_change hs'
    · rw [if_neg hc] at hs'
      cases hs'

/-! ## whose frame it is -/

/-- what a step may do to the frames -/
structure Careful (m m' : Futures T X) : Prop where
  /-- no frame is looked at that is gone, none is resumed or destroyed where it may not be -/
  clean : m'.undefined = false
  /-- a frame that is destroyed is at its final suspension, it has not been destroyed before, and
  its body is not on the call stack -/
  destroys : ∀ {a : Handle}, m'.destroyed.count a ≠ m.destroyed.count a →
    a ∉ m.destroyed ∧ .body a ∉ m.control ∧ ∃ fr, m.frames.get a = some fr ∧ fr.phase = .parked
  /-- a coroutine that is resumed is suspended in a `co_await`, and has not been destroyed -/
  resumes : ∀ {a : Handle} {fr : MethodFrame}, m.frames.get a = some fr → .body a ∉ m.control →
    .body a ∈ m'.control → a ∉ m.destroyed ∧ ∃ g, fr.phase = .suspended g

/-- a parked or a suspended frame has not been destroyed, and its body is not on the call stack -/
theorem Inv.waiting_frame (h : Inv none m) {fr : MethodFrame} (hf : m.frames.get a = some fr)
    (hp : fr.phase = .parked ∨ ∃ g, fr.phase = .suspended g) :
    a ∉ m.destroyed ∧ .body a ∉ m.control := by
  obtain ⟨c, hc, -⟩ := h.made.state hf
  have hacc := h.ledger.frame hf hc
  have htally : ∃ n, tally a m.control m.destroyed = (0, 0, n, 0) := by
    rcases hp with hp | ⟨g, hp⟩
    · rw [hp] at hacc
      exact ⟨_, hacc.2⟩
    · rw [hp] at hacc
      exact ⟨_, hacc.2.2⟩
  obtain ⟨n, ht⟩ := htally
  simp only [tally, Prod.mk.injEq] at ht
  refine ⟨fun hd => ?_, fun hb => ?_⟩
  · exact absurd ht.2.2.2 (Nat.ne_of_gt (List.count_pos_iff.mpr hd))
  · exact List.countP_eq_zero.mp ht.1 _ hb (decide_eq_true rfl)

/-- **A step is careful** whose operation does not meet another one. -/
theorem Inv.careful (h : Inv none m) (ha : m.Apart act) (hs : Futures.step m act = some m') :
    Careful m m' := by
  have h' := h.step ha hs
  refine ⟨h'.clean, fun {a} hn => ?_, fun {a fr} hf hb hb' => ?_⟩
  · cases step_change hs with
    | quiet hq => exact absurd (congrArg _ hq.destroyed) hn
    | @destroys b fr hf hp hD _ =>
      by_cases hba : b = a
      · subst hba
        obtain ⟨hd, hbody⟩ := h.waiting_frame hf (Or.inl hp)
        exact ⟨hd, hbody, fr, hf, hp⟩
      · rw [hD, List.count_cons_of_ne hba] at hn
        exact absurd rfl hn
    | resumes _ _ hD => exact absurd (congrArg _ hD) hn
    | starts hD => exact absurd (congrArg _ hD) hn
    | undefined hu => rw [h'.clean] at hu; cases hu
  · cases step_change hs with
    | quiet hq => exact absurd (hq.bodies a hb') hb
    | destroys _ _ _ hK => exact absurd (hK a hb') hb
    | @resumes b fb g hfb hp _ hK =>
      rcases hK a hb' with rfl | hold
      · rw [hf] at hfb
        cases hfb
        exact ⟨(h.waiting_frame hf (Or.inr ⟨g, hp⟩)).1, g, hp⟩
      · exact absurd hold hb
    | starts _ hK =>
      rcases hK a hb' with rfl | hold
      · exact absurd (Heap.lt_next hf) (Nat.lt_irrefl _)
      · exact absurd hold hb
    | undefined hu => rw [h'.clean] at hu; cases hu

/-- **Whose frame it is, step by step.**  In every run whose operations do not meet, every step is
careful with the frames: it destroys a frame at its final suspension that has not been destroyed,
and resumes one that is suspended.  A coroutine that came to its final suspension, and whose future
is released and whose final awaiter has returned, has been destroyed exactly once, and its state
freed exactly once. -/
theorem frame_ownership (h : TS.run step init acts = some m)
    (ha : ∀ v ∈ TS.visits step init acts, v.1.Apart v.2) :
    (∀ v ∈ TS.visits step init acts, ∀ m', step v.1 v.2 = some m' → Careful v.1 m') ∧
    ∀ {a : Handle} {fr : MethodFrame}, m.frames.get a = some fr →
      m.destroyed.count a ≤ 1 ∧ (.body a ∈ m.control → a ∉ m.destroyed) ∧
      ∃ c, m.states.get fr.state = some c ∧ c.mem.freedBy.length ≤ 1 ∧
        (fr.done = true ∨ fr.phase = .freed → c.released = true → m.Through a →
          m.destroyed.count a = 1 ∧ c.mem.freedBy.length = 1) := by
  refine ⟨fun v hv m' hs => ?_, fun {a fr} hf => ?_⟩
  · obtain ⟨V, W, hVW⟩ := List.append_of_mem hv
    obtain ⟨bs, -, hrun, hV, -⟩ := TS.visits_split h hVW
    have hbefore : ∀ w ∈ TS.visits step init bs, w.1.Apart w.2 := by
      intro w hw
      rw [hV] at hw
      exact ha w (hVW ▸ List.mem_append_left _ hw)
    exact (inv_of_run hrun hbefore).careful (ha v hv) hs
  · have hI := inv_of_run h ha
    have hown := hI.owned
    obtain ⟨c, hc, -⟩ := hI.made.state hf
    refine ⟨hown.once a, fun hb hd => (hown.late hf hd).2 hb, c, hc, hown.state hc, ?_⟩
    intro hend hr hth
    obtain ⟨-, hcount, -, hfreed⟩ := hown.gone hf hend hc hr hth
    exact ⟨hcount, hfreed⟩

/-- a coroutine awaits another, and releases its future when the final awaiter of that one has
transferred control to it; then it detaches its own future, and finishes -/
def transferRun : List (Act Nat Unit) :=
  [.promise, .start [], .await 0, .start [], .await 1, .settle 0 (.value 3), .drain 0, .endAwait 2,
    .leave, .library, .coReturn (.value 4), .finalSuspend, .endAwait 4, .leave, .library, .leave,
    .library, .detach 3, .library, .coReturn (.value 5), .finalSuspend, .leave, .library, .leave,
    .library]

/-- The first is destroyed by its future, the second by its own final awaiter. -/
theorem frame_ownership_transfer : ∃ m, TS.run step init transferRun = some m ∧
    m.destroyed = [1, 0] ∧
    (∀ v ∈ TS.visits step init transferRun, ∀ m', step v.1 v.2 = some m' → Careful v.1 m') ∧
    ∀ {a : Handle} {fr : MethodFrame}, m.frames.get a = some fr → m.destroyed.count a ≤ 1 := by
  have hrun : (TS.run step init transferRun).map Futures.destroyed = some [1, 0] := by
    decide +kernel
  obtain ⟨m, hm, hd⟩ := Option.map_eq_some_iff.mp hrun
  have hown := frame_ownership hm (by decide +kernel)
  exact ⟨m, hm, hd, hown.1, fun hf => (hown.2 hf).1⟩

/-! ## operations that meet -/

/-- the future of a finished coroutine is detached, and a destructor among its parameters detaches
it once more -/
def detachedTwice : List (Act Nat Unit) :=
  [.start [], .coReturn (.value 1), .finalSuspend, .detach 0, .detach 0]

/-- a coroutine keeps its own future in its parameters, where it is detached -/
def ownedByItself : List (Act Nat Unit) :=
  [.new, .start [0], .coReturn (.value 1), .finalSuspend, .assign 2 1, .library, .detach 2, .leave,
    .library]

/-- a future is assigned from a parameter of the coroutine whose frame it owns -/
def assignedFromWithin : List (Act Nat Unit) :=
  [.new, .start [0], .coReturn (.value 1), .finalSuspend, .assign 1 2, .leave, .library, .library,
    .leave, .library, .leave, .library]

/-- Inside of `release()` the handle is still there, and the assignment has not read its source:
the first two destroy a frame twice, the third reads what is gone with the frame. -/
theorem destroyed_again :
    (TS.run step init detachedTwice).map Futures.destroyed = some [0, 0] ∧
    (TS.run step init ownedByItself).map Futures.destroyed = some [0, 0] ∧
    (TS.run step init assignedFromWithin).map Futures.undefined = some true ∧
    ¬ ∀ (acts : List (Act Nat Unit)) (m : Futures Nat Unit), TS.run step init acts = some m →
      ∀ a, m.destroyed.count a ≤ 1 := by
  have hrun : (TS.run step init detachedTwice).map Futures.destroyed = some [0, 0] := by
    decide +kernel
  refine ⟨hrun, by decide +kernel, by decide +kernel, fun hall => ?_⟩
  obtain ⟨m, hm, hd⟩ := Option.map_eq_some_iff.mp hrun
  have htwice := hall detachedTwice m hm 0
  rw [hd] at htwice
  exact absurd htwice (by decide)

end Futures
end ActorZeta
