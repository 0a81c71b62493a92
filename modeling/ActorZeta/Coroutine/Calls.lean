import ActorZeta.Coroutine.Moves

/-!
# New futures and new frames

* `Added`            the running coroutine gets a future, maybe with a frame that makes its result;
* `Inv.added`        the invariant survives, up to the native stack;
* `adopt_ok`, `start_ok`   the two ways a body gets a future;
* `startBehavior_ok`       `behavior(msg)`: the old frame goes, and the new one is the lowest.
-/

namespace ActorZeta
open StateFlags

section
variable {T X : Type} {F F' : Heap Frame} {C C' : Heap (Cell T X)} {S : List Handle}
  {R hole : Option Handle} {a b c : Handle} {fa fb fb' fc : Frame} {f g : Future} {c0 : Cell T X}

/-- `a` holds one more future, and the frame that its handle names is new -/
structure Added (F F' : Heap Frame) (a : Handle) (fa : Frame) (f : Future) : Prop where
  self : F'.get a = some (fa.hold f)
  forth : ∀ j fr, F.get j = some fr → j ≠ a → F'.get j = some fr
  back : ∀ j fr', F'.get j = some fr' → j = a ∧ fr' = fa.hold f ∨
    j ≠ a ∧ F.get j = some fr' ∨ f.handle = some j ∧ fr' = .fresh (some f.state)
  fresh : ∀ b, f.handle = some b → F.get b = none ∧ F'.get b = some (.fresh (some f.state)) ∧ a < b

/-- a state that nobody has touched, made by whom the future names -/
def Cell.Fresh (c : Cell T X) (f : Future) : Prop :=
  c.mem = .fresh ∧ match f.handle with
    | some b => c.maker = .coroutine b
    | none => ∃ p, c.maker = .thread p ∧ p.spares = true

theorem fresh_unreleased : (Mem.fresh : Mem T X).st.flags.has futureReleased = false := by
  show empty.has futureReleased = false
  decide

theorem Added.kept (hA : Added F F' a fa f) (ha : F.get a = some fa) :
    Kept F F' a := by
  intro j fr hj
  refine Or.inr ?_
  by_cases hja : j = a
  · subst hja
    rw [ha] at hj
    cases hj
    exact ⟨_, hA.self, rfl, fun hne => absurd rfl hne, fun _ => rfl, fun hne => absurd rfl hne⟩
  · exact ⟨fr, hA.forth j fr hj hja, rfl, fun _ => ⟨rfl, rfl⟩, fun _ => rfl, fun _ _ => rfl⟩

/-- where the futures of the new heap come from -/
theorem Added.futures (hA : Added F F' a fa f) (ha : F.get a = some fa) (hpc : fa.pc = .running)
    (hb : F'.get b = some fb) (hg : g ∈ fb.futures) :
    b = a ∧ g = f ∨ ∃ fb0, F.get b = some fb0 ∧ g ∈ fb0.futures := by
  rcases hA.back b fb hb with ⟨rfl, rfl⟩ | ⟨-, hb0⟩ | ⟨-, rfl⟩
  · have hmem : g ∈ (fa.held ++ [f]) ++ fa.pc.current.toList := hg
    rw [hpc] at hmem
    rcases List.mem_append.mp (List.mem_append.mp hmem |>.resolve_right nofun) with hh | hf
    · exact Or.inr ⟨fa, ha, mem_futures_held hh⟩
    · exact Or.inl ⟨rfl, List.mem_singleton.mp hf⟩
  · exact Or.inr ⟨fb, hb0, hg⟩
  · cases hg

theorem Added.tokens (h : Inv F C (a :: S) R none) (hA : Added F F' a fa f)
    (ha : F.get a = some fa) (hpc : fa.pc = .running) (hf : f.state = C.next)
    (hc : c0.Fresh f) : Tokens F' (C.alloc c0) := by
  -- an older future has an older state
  have hold : ∀ {j fr g}, F.get j = some fr → g ∈ fr.futures → g.state ≠ f.state := by
    intro j fr g hj hg
    obtain ⟨c, hc, -⟩ := h.tokens.valid j fr g hj hg
    rw [hf]
    exact Heap.ne_next hc
  have hself : (C.alloc c0).get f.state = some c0 := by rw [hf]; exact Heap.get_alloc_self
  refine ⟨fun j fr' hj => ?_, fun i fi g j fj g' hi hj hg hg' hs => ?_, fun j fr' g hj hg => ?_,
    fun j fr' s hj hs => ?_⟩
  · rcases hA.back j fr' hj with ⟨rfl, rfl⟩ | ⟨-, hj0⟩ | ⟨-, rfl⟩
    · have hn := h.tokens.nodup _ fa ha
      unfold Frame.futures at hn ⊢
      rw [show (fa.hold f).pc = fa.pc from rfl, hpc] at *
      simp only [Place.current, Option.toList_none, List.append_nil] at hn ⊢
      show ((fa.held ++ [f]).map Future.state).Nodup
      rw [List.map_append]
      refine List.nodup_append.mpr ⟨hn, List.nodup_cons.mpr ⟨nofun, List.nodup_nil⟩, ?_⟩
      rintro s hs _ ht
      obtain ⟨g, hg, rfl⟩ := List.mem_map.mp hs
      rw [List.mem_singleton.mp ht]
      exact hold ha (mem_futures_held hg)
    · exact h.tokens.nodup j fr' hj0
    · exact List.nodup_nil
  · rcases hA.futures ha hpc hi hg with ⟨rfl, rfl⟩ | ⟨fi0, hi0, hg0⟩ <;>
      rcases hA.futures ha hpc hj hg' with ⟨rfl, rfl⟩ | ⟨fj0, hj0, hg0'⟩
    · rfl
    · exact absurd hs.symm (hold hj0 hg0')
    · exact absurd hs (hold hi0 hg0)
    · exact h.tokens.unique i fi0 g j fj0 g' hi0 hj0 hg0 hg0' hs
  · rcases hA.futures ha hpc hj hg with ⟨rfl, rfl⟩ | ⟨fr, hj0, hg0⟩
    · -- the new one
      obtain ⟨hmem, hmk⟩ := hc
      refine ⟨c0, hself, by rw [hmem]; rfl, by rw [hmem]; exact fresh_unreleased, ?_⟩
      cases hb : g.handle with
      | none =>
        rw [hb] at hmk
        obtain ⟨p, hp, hs⟩ := hmk
        exact .thread hb hp hs
      | some b =>
        rw [hb] at hmk
        obtain ⟨-, hb', hlt⟩ := hA.fresh b hb
        refine .coroutine hb hmk hlt hb' rfl ?_
        show c0.mem.st.flags = empty
        rw [hmem]
        rfl
    · refine (h.tokens.valid j fr g hj0 hg0).goes
        (fun c hc' => ⟨c, Heap.get_alloc_of hc', .refl c⟩) fun b fb _ hb _ => ?_
      by_cases hba : b = a
      · subst hba
        rw [ha] at hb
        cases hb
        exact ⟨_, hA.self, rfl, rfl⟩
      · exact ⟨fb, hA.forth b fb hb hba, rfl, rfl⟩
  · have hown : ∀ {fr}, F.get j = some fr → fr.state = some s →
        ∃ c, (C.alloc c0).get s = some c ∧ c.maker = .coroutine j := by
      intro fr hfr hst
      obtain ⟨c, hc', hm⟩ := h.tokens.own j fr s hfr hst
      exact ⟨c, Heap.get_alloc_of hc', hm⟩
    rcases hA.back j fr' hj with ⟨rfl, rfl⟩ | ⟨-, hj0⟩ | ⟨hb, rfl⟩
    · exact hown ha hs
    · exact hown hj0 hs
    · cases hs
      obtain ⟨-, hmk⟩ := hc
      rw [hb] at hmk
      exact ⟨c0, hself, hmk⟩

theorem Added.pointers (hA : Added F F' a fa f) (hP : Pointers F) (ha : F.get a = some fa)
    (hpc : fa.pc = .running) : Pointers F' := by
  refine hP.keep (fun j fr' hj => ?_) fun b fb c fc g _ hc hg _ => ?_
  · rcases hA.back j fr' hj with ⟨rfl, rfl⟩ | ⟨-, hj0⟩ | ⟨-, rfl⟩
    · exact Or.inl ⟨fa, ha, rfl, rfl, rfl, rfl, rfl⟩
    · exact Or.inl ⟨fr', hj0, rfl, rfl, rfl, rfl, rfl⟩
    · exact Or.inr ⟨rfl, rfl, rfl, rfl, rfl, rfl⟩
  · refine ⟨fc, hA.forth c fc hc ?_, hg⟩
    rintro rfl
    rw [ha] at hc
    cases hc
    rw [hpc] at hg
    cases hg

theorem Added.places (h : Inv F C (a :: S) R none) (hA : Added F F' a fa f)
    (ha : F.get a = some fa) (hpc : fa.pc = .running) (hf : f.state = C.next) (hc : c0.Fresh f) :
    Places F' (C.alloc c0) none := by
  have hcont : ∀ {j fr g}, F.get j = some fr → g ∈ fr.futures →
      contOf (C.alloc c0) g.state = contOf C g.state := by
    intro j fr g hj hg
    obtain ⟨c, hc, -⟩ := h.tokens.valid j fr g hj hg
    unfold contOf
    rw [hc, Heap.get_alloc_of hc]
  have hflags : fa.awaitedFlags = none := by
    have hplace := h.places.place a fa ha nofun
    unfold AtPlace at hplace
    rw [hpc] at hplace
    exact hplace
  refine ⟨fun j fr' g hj hg => ?_, fun j fr' hj _ => ?_⟩
  · rcases hA.back j fr' hj with ⟨rfl, rfl⟩ | ⟨-, hj0⟩ | ⟨-, rfl⟩
    · rcases List.mem_append.mp hg with hg | hg
      · exact (hcont ha (mem_futures_held hg)).trans (h.places.held _ fa g ha hg)
      · rw [List.mem_singleton.mp hg, hf]
        unfold contOf
        rw [Heap.get_alloc_self]
        show c0.mem.st.continuation = none
        rw [hc.1]
        rfl
    · exact (hcont hj0 (mem_futures_held hg)).trans (h.places.held j fr' g hj0 hg)
    · cases hg
  · rcases hA.back j fr' hj with ⟨rfl, rfl⟩ | ⟨hja, hj0⟩ | ⟨-, rfl⟩
    · show AtPlace F' _ _ (fa.hold f)
      unfold AtPlace
      rw [show (fa.hold f).pc = fa.pc from rfl, hpc]
      exact hflags
    · refine (hA.kept ha).place (h.places.place j fr' hj0 nofun) (h.stacked.others hj0 hja) hj0 hj
        hja (fun g hg => hcont hj0 (mem_futures_current hg)) fun fa0 fa' _ ha' hfin => ?_
      rw [hA.self] at ha'
      cases ha'
      rw [show (fa.hold f).pc = fa.pc from rfl, hpc] at hfin
      cases hfin
    · rfl

/-- the new coroutine runs at once -/
theorem Added.stacked (h : Inv F C (a :: S) R none) (hA : Added F F' a fa f)
    (ha : F.get a = some fa) (hpc : fa.pc = .running) :
    Stacked F' (f.handle.toList ++ a :: S) R where
  active b hb := by
    rcases List.mem_append.mp hb with hb | hb
    · exact ⟨_, (hA.fresh b (Option.mem_toList.mp hb)).2.1, rfl⟩
    · obtain ⟨fb, hfb, hact⟩ := h.stacked.active b hb
      by_cases hba : b = a
      · subst hba
        rw [ha] at hfb
        cases hfb
        exact ⟨_, hA.self, hact⟩
      · exact ⟨fb, hA.forth b fb hfb hba, hact⟩
  idle b fb' hb' hnot := by
    have hnot' : b ∉ a :: S := fun hb => hnot (List.mem_append_right _ hb)
    rcases hA.back b fb' hb' with ⟨rfl, -⟩ | ⟨-, hb0⟩ | ⟨hb0, -⟩
    · exact absurd List.mem_cons_self hnot'
    · exact h.stacked.idle b fb' hb0 hnot'
    · exact absurd (List.mem_append_left _ (Option.mem_toList.mpr hb0)) hnot
  sorted := by
    refine List.pairwise_append.mpr ⟨?_, h.stacked.sorted, fun x hx y hy => ?_⟩
    · cases f.handle with
      | none => exact List.Pairwise.nil
      | some b => exact List.pairwise_singleton _ _
    · have hax := (hA.fresh x (Option.mem_toList.mp hx)).2.2
      rcases List.mem_cons.mp hy with rfl | hy
      · exact hax
      · exact Nat.lt_trans (List.rel_of_pairwise_cons h.stacked.sorted hy) hax
  calls := by
    have hcalls : Calls F' R (a :: S) :=
      (hA.kept ha).calls h.pointers.linked (fun _ ha => h.stacked.top_active ha)
        h.stacked.calls h.stacked.active fun _ hb => h.stacked.below_ne hb
    cases hf : f.handle with
    | none => exact hcalls
    | some b => exact ⟨⟨_, f, hA.self, hpc, List.mem_append_right _ List.mem_cons_self, hf⟩, hcalls⟩
  behavior r hr := by
    obtain ⟨fr, hfr, hst, ho⟩ := h.stacked.behavior r hr
    by_cases hra : r = a
    · subst hra
      rw [ha] at hfr
      cases hfr
      exact ⟨_, hA.self, hst, ho⟩
    · exact ⟨fr, hA.forth r fr hfr hra, hst, ho⟩
  stateless b fb' hb' hst := by
    rcases hA.back b fb' hb' with ⟨rfl, rfl⟩ | ⟨-, hb0⟩ | ⟨-, rfl⟩
    · exact h.stacked.stateless _ fa ha hst
    · exact h.stacked.stateless b fb' hb0 hst
    · cases hst

/-- **The running coroutine gets a future.** -/
theorem Inv.added (h : Inv F C (a :: S) R none) (hA : Added F F' a fa f)
    (ha : F.get a = some fa) (hpc : fa.pc = .running) (hf : f.state = C.next) (hc : c0.Fresh f) :
    Inv F' (C.alloc c0) (f.handle.toList ++ a :: S) R none where
  pointers := hA.pointers h.pointers ha hpc
  tokens := hA.tokens h ha hpc hf hc
  places := hA.places h ha hpc hf hc
  stacked := hA.stacked h ha hpc
  hole := nofun

end

namespace Coros
variable {T X : Type} {m : Coros T X} {S : List Handle} {a : Handle} {fa : Frame}

/-- a promise-backed future -/
theorem adopt_ok (o : Outcome T X) (h : Inv m.frames m.cells (a :: S) m.currentBehavior none)
    (ha : m.frames.get a = some fa) (hpc : fa.pc = .running) :
    Inv (m.frames.modify a (.hold ⟨m.cells.next, none⟩))
      (m.cells.alloc ⟨.fresh, .thread (.start .settle [o])⟩) (a :: S) m.currentBehavior none := by
  have hA : Added m.frames (m.frames.modify a (.hold ⟨m.cells.next, none⟩)) a fa
      ⟨m.cells.next, none⟩ := by
    refine ⟨Heap.get_modify_self ha, fun j fr hj hja => (Heap.get_modify_ne hja).trans hj,
      fun j fr' hj => ?_, nofun⟩
    obtain ⟨fr, hfr, rfl⟩ := Heap.get_modify_some hj
    by_cases hja : j = a
    · subst hja
      rw [ha] at hfr
      cases hfr
      exact Or.inl ⟨rfl, if_pos rfl⟩
    · rw [if_neg hja]
      exact Or.inr (Or.inl ⟨hja, hfr⟩)
  have hc : (⟨.fresh, .thread (.start .settle [o])⟩ : Cell T X).Fresh ⟨m.cells.next, none⟩ :=
    ⟨rfl, _, rfl, rfl⟩
  exact h.added hA ha hpc rfl hc

/-- a call of a method coroutine -/
theorem start_ok (h : Inv m.frames m.cells (a :: S) m.currentBehavior none)
    (ha : m.frames.get a = some fa) (hpc : fa.pc = .running) :
    Inv ((m.frames.modify a (.hold ⟨m.cells.next, some m.frames.next⟩)).alloc
        (.fresh (some m.cells.next)))
      (m.cells.alloc ⟨.fresh, .coroutine m.frames.next⟩) (m.frames.next :: a :: S)
      m.currentBehavior none := by
  have hA : Added m.frames ((m.frames.modify a (.hold ⟨m.cells.next, some m.frames.next⟩)).alloc
      (.fresh (some m.cells.next))) a fa ⟨m.cells.next, some m.frames.next⟩ := by
    refine ⟨Heap.get_alloc_of (Heap.get_modify_self ha),
      fun j fr hj hja => Heap.get_alloc_of ((Heap.get_modify_ne hja).trans hj),
      fun j fr' hj => ?_, fun b hb => ?_⟩
    · rcases Heap.get_alloc_some hj with ⟨rfl, rfl⟩ | hj
      · exact Or.inr (Or.inr ⟨rfl, rfl⟩)
      · obtain ⟨fr, hfr, rfl⟩ := Heap.get_modify_some hj
        by_cases hja : j = a
        · subst hja
          rw [ha] at hfr
          cases hfr
          exact Or.inl ⟨rfl, if_pos rfl⟩
        · rw [if_neg hja]
          exact Or.inr (Or.inl ⟨hja, hfr⟩)
    · cases hb
      exact ⟨Heap.get_next, Heap.get_alloc_self, Heap.lt_next ha⟩
  exact h.added hA ha hpc rfl ⟨rfl, rfl⟩

/-- the frames after `current_behavior_ = behavior(msg)` -/
def restarted (F : Heap Frame) (R : Option Handle) : Heap Frame :=
  (match R with
    | some r => F.free r
    | none => F).alloc (.fresh none)

theorem restarted_next {F : Heap Frame} {R : Option Handle} :
    (restarted F R).get F.next = some (.fresh none) := by
  unfold restarted
  cases R <;> exact Heap.get_alloc_self

theorem restarted_some {F : Heap Frame} {R : Option Handle} {j : Handle} {fr : Frame} :
    (restarted F R).get j = some fr ↔
      j = F.next ∧ fr = .fresh none ∨ R ≠ some j ∧ F.get j = some fr := by
  constructor
  · intro hj
    unfold restarted at hj
    rcases Heap.get_alloc_some hj with ⟨rfl, rfl⟩ | hj
    · refine Or.inl ⟨?_, rfl⟩
      cases R <;> rfl
    · cases R with
      | none => exact Or.inr ⟨nofun, hj⟩
      | some r =>
        obtain ⟨hne, hj⟩ := Heap.get_free_some hj
        exact Or.inr ⟨fun he => hne (Option.some.inj he).symm, hj⟩
  · rintro (⟨rfl, rfl⟩ | ⟨hR, hj⟩)
    · exact restarted_next
    · unfold restarted
      cases R with
      | none => exact Heap.get_alloc_of hj
      | some r =>
        exact Heap.get_alloc_of ((Heap.get_free_ne fun he => hR (congrArg some he.symm)).trans hj)

/-- **`behavior(msg)`**: the old frame is done when the assignment destroys it. -/
theorem startBehavior_ok (h : Inv m.frames m.cells [] m.currentBehavior none)
    (hdone : ∀ r fr, m.currentBehavior = some r → m.frames.get r = some fr → fr.pc = .finished) :
    Inv (restarted m.frames m.currentBehavior) m.cells [m.frames.next] (some m.frames.next)
      none := by
  have hkept : Kept m.frames (restarted m.frames m.currentBehavior) m.frames.next := by
    intro j fr hj
    by_cases hR : m.currentBehavior = some j
    · refine Or.inl ⟨Option.eq_none_iff_forall_not_mem.mpr fun fr' hj' => ?_, hdone j fr hR hj⟩
      rcases restarted_some.mp hj' with ⟨rfl, -⟩ | ⟨hne, -⟩
      · rw [Heap.get_next] at hj
        cases hj
      · exact hne hR
    · exact Or.inr ⟨fr, restarted_some.mpr (Or.inr ⟨hR, hj⟩), rfl, fun _ => ⟨rfl, rfl⟩, fun _ => rfl,
        fun _ _ => rfl⟩
  have hold : ∀ {j fr' f}, (restarted m.frames m.currentBehavior).get j = some fr' →
      f ∈ fr'.futures → m.frames.get j = some fr' := by
    intro j fr' f hj hf
    rcases restarted_some.mp hj with ⟨-, rfl⟩ | ⟨-, hj⟩
    · cases hf
    · exact hj
  have hidle : ∀ {j fr}, m.frames.get j = some fr →
      (∃ f, fr.pc = .suspended f) ∨ fr.pc = .finished := by
    intro j fr hj
    have hidle := h.stacked.idle j fr hj List.not_mem_nil
    cases hpc : fr.pc with
    | suspended f => exact Or.inl ⟨f, rfl⟩
    | finished => exact Or.inr rfl
    | _ => rw [hpc] at hidle; cases hidle
  refine ⟨?_, ⟨fun j fr' hj => ?_, fun i fi f j fj g hi hj hf hg => ?_, fun j fr' f hj hf => ?_,
    fun j fr' s hj hs => ?_⟩, ⟨fun j fr' f hj hf => ?_, fun j fr' hj _ => ?_⟩,
    ⟨fun b hb => ?_, fun j fr' hj hnot => ?_, List.pairwise_singleton _ _, .behavior rfl,
      fun r hr => ?_, fun j fr' hj hst => ?_⟩, nofun⟩
  · -- the promises of the others stay as they are
    refine h.pointers.keep (fun j fr' hj => ?_) fun b fb c fc f _ hc hf _ => ?_
    · rcases restarted_some.mp hj with ⟨-, rfl⟩ | ⟨-, hj⟩
      · exact Or.inr ⟨rfl, rfl, rfl, rfl, rfl, rfl⟩
      · exact Or.inl ⟨fr', hj, rfl, rfl, rfl, rfl, rfl⟩
    · refine ⟨fc, restarted_some.mpr (Or.inr ⟨fun hR => ?_, hc⟩), hf⟩
      rw [hdone c fc hR hc] at hf
      cases hf
  · rcases restarted_some.mp hj with ⟨-, rfl⟩ | ⟨-, hj⟩
    · exact List.nodup_nil
    · exact h.tokens.nodup j fr' hj
  · exact h.tokens.unique i fi f j fj g (hold hi hf) (hold hj hg) hf hg
  · refine (h.tokens.valid j fr' f (hold hj hf) hf).goes (goes_refl _ _) fun b fb _ hb hst => ?_
    refine ⟨fb, restarted_some.mpr (Or.inr ⟨fun hR => ?_, hb⟩), rfl, rfl⟩
    obtain ⟨fr, hr, hno, -⟩ := h.stacked.behavior b hR
    rw [hb] at hr
    cases hr
    rw [hno] at hst
    cases hst
  · rcases restarted_some.mp hj with ⟨-, rfl⟩ | ⟨-, hj⟩
    · cases hs
    · exact h.tokens.own j fr' s hj hs
  · exact h.places.held j fr' f (hold hj (mem_futures_held hf)) hf
  · rcases restarted_some.mp hj with ⟨-, rfl⟩ | ⟨-, hj0⟩
    · rfl
    · refine hkept.place (h.places.place j fr' hj0 nofun) (Or.inr (hidle hj0)) hj0 hj
        (Heap.ne_next hj0) (fun _ _ => rfl) fun fa _ ha => ?_
      rw [Heap.get_next] at ha
      cases ha
  · rw [List.mem_singleton.mp hb]
    exact ⟨_, restarted_next, rfl⟩
  · rcases restarted_some.mp hj with ⟨rfl, -⟩ | ⟨-, hj⟩
    · exact absurd List.mem_cons_self hnot
    · exact h.stacked.idle j fr' hj List.not_mem_nil
  · cases hr
    exact ⟨_, restarted_next, rfl, rfl⟩
  · rcases restarted_some.mp hj with ⟨rfl, -⟩ | ⟨hne, hj⟩
    · rfl
    · exact absurd (h.stacked.stateless j fr' hj hst) hne

end Coros
end ActorZeta
