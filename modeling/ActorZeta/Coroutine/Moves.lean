import Mathlib.Data.List.Perm.Subperm
import ActorZeta.Coroutine.Invariant

/-!
# The running coroutine moves

What a step of the running coroutine may do to the others' frames and states, and that the
invariant survives it, up to the place of the coroutine itself.

* `Cell.Goes`, `Valid.goes`   a state goes on as the state of a future;
* `Kept`, `Moved`             nobody else moves;
* `Inv.moved`                 the invariant survives;
* `Inv.goto`, `Inv.setAwaited`, `Inv.release`   going on inside `co_await`, setting the pointers,
                              releasing a future.
-/

namespace ActorZeta
open StateFlags

section
variable {T X : Type} {F F' : Heap Frame} {C C' : Heap (Cell T X)} {S : List Handle}
  {R hole : Option Handle} {a b c : Handle} {fa fb fb' fc : Frame} {f g : Future}

/-- a state goes on as the state of a future -/
structure Cell.Goes (c c' : Cell T X) : Prop where
  alive : c.mem.alive = true → c'.mem.alive = true
  future : c'.mem.st.flags.has futureReleased = c.mem.st.flags.has futureReleased
  result : c.mem.st.hasResult = true → c'.mem.st.hasResult = true
  maker : match c.maker with
    | .coroutine b => c'.maker = .coroutine b ∧
        (c.mem.st.flags = empty → c'.mem.st.flags = empty)
    | .thread p => ∃ p', c'.maker = .thread p' ∧ (p.spares = true → p'.spares = true)

theorem Cell.Goes.refl (c : Cell T X) : c.Goes c where
  alive := id
  future := rfl
  result := id
  maker := by
    split
    · exact ⟨by assumption, id⟩
    · exact ⟨_, by assumption, id⟩

theorem goes_refl (C : Heap (Cell T X)) (t : Address) (c : Cell T X) (hc : C.get t = some c) :
    ∃ c', C.get t = some c' ∧ c.Goes c' := ⟨c, hc, .refl c⟩

theorem Valid.goes (h : Valid F C a f)
    (hC : ∀ c, C.get f.state = some c → ∃ c', C'.get f.state = some c' ∧ c.Goes c')
    (hF : ∀ b fb, f.handle = some b → F.get b = some fb → fb.state = some f.state →
      ∃ fb', F'.get b = some fb' ∧ fb'.state = fb.state ∧ fb'.pc.returned = fb.pc.returned) :
    Valid F' C' a f := by
  obtain ⟨c, hc, halive, hfut, hm⟩ := h
  obtain ⟨c', hc', hgo⟩ := hC c hc
  refine ⟨c', hc', hgo.alive halive, hgo.future.trans hfut, ?_⟩
  have hmaker := hgo.maker
  cases hm with
  | thread hn hp hs =>
    rw [hp] at hmaker
    obtain ⟨p', hp', hspares⟩ := hmaker
    exact .thread hn hp' (hspares hs)
  | coroutine hs hcor hlt hb hst hmade =>
    rw [hcor] at hmaker
    obtain ⟨hcor', hempty⟩ := hmaker
    obtain ⟨fb', hb', hst', hret⟩ := hF _ _ hs hb hst
    refine .coroutine hs hcor' hlt hb' (hst'.trans hst) ?_
    unfold Cell.Made at hmade ⊢
    rw [hret]
    split at hmade <;> rename_i hr
    · rw [if_pos hr]
      exact hgo.result hmade
    · rw [if_neg hr]
      exact hempty hmade

/-- the frames that a step of `a` leaves: none goes unless it has finished -/
def Kept (F F' : Heap Frame) (a : Handle) : Prop :=
  ∀ j fr, F.get j = some fr → (F'.get j = none ∧ fr.pc = .finished) ∨
    ∃ fr', F'.get j = some fr' ∧ fr'.state = fr.state ∧ (j ≠ a → fr'.pc = fr.pc ∧
      fr'.held = fr.held) ∧ (fr.outerPromise ≠ none ∨ fr.state = none →
        fr'.outerPromise = fr.outerPromise) ∧
      (j ≠ a → (∀ f, fr.pc.current = some f → f.handle = none) →
        fr'.awaitedFlags = fr.awaitedFlags)

/-- no frame and no future appears, and the behavior stays -/
structure Moved (F F' : Heap Frame) (a : Handle) : Prop where
  back : ∀ j fr', F'.get j = some fr' → ∃ fr, F.get j = some fr ∧ fr'.state = fr.state ∧
    fr'.futures.Subperm fr.futures ∧ (j ≠ a → fr'.pc = fr.pc ∧ fr'.held = fr.held)
  forth : Kept F F' a
  behavior : ∀ j fr, F.get j = some fr → fr.state = none → ∃ fr', F'.get j = some fr'

theorem Moved.refl (F : Heap Frame) (a : Handle) : Moved F F a :=
  ⟨fun _ fr hj => ⟨fr, hj, rfl, List.Subperm.refl _, fun _ => ⟨rfl, rfl⟩⟩,
    fun _ fr hj => Or.inr ⟨fr, hj, rfl, fun _ => ⟨rfl, rfl⟩, fun _ => rfl, fun _ _ => rfl⟩,
    fun _ fr hj _ => ⟨fr, hj⟩⟩

theorem Place.active_ne {p : Place} (h : p.active = true) : p ≠ .finished := by
  rintro rfl
  cases h

/-- the other coroutines that have not finished stay where they are -/
theorem Kept.other (hK : Kept F F' a) (hb : F.get b = some fb) (hba : b ≠ a)
    (hn : fb.pc ≠ .finished) :
    ∃ fb', F'.get b = some fb' ∧ fb'.pc = fb.pc ∧ fb'.held = fb.held := by
  rcases hK b fb hb with ⟨-, hfin⟩ | ⟨fb', hb', -, hsame, -⟩
  · exact absurd hfin hn
  · exact ⟨fb', hb', hsame hba⟩

/-- whoever is awaited stays so -/
theorem Kept.outer (hK : Kept F F' a) (hb : F.get b = some fb) (hn : fb.pc ≠ .finished)
    (ho : fb.outerPromise ≠ none) :
    ∃ fb', F'.get b = some fb' ∧ fb'.outerPromise = fb.outerPromise := by
  rcases hK b fb hb with ⟨-, hfin⟩ | ⟨fb', hb', -, -, hout, -⟩
  · exact absurd hfin hn
  · exact ⟨fb', hb', hout (Or.inl ho)⟩

theorem Kept.rooted (hK : Kept F F' a) (hL : Linked F) (h : Rooted F R b)
    (hne : ∀ c < b, ∀ fc f, F.get c = some fc → fc.pc = .suspended f → c ≠ a)
    (hb : ∃ fb, F.get b = some fb ∧ fb.pc ≠ .finished) : Rooted F' R b := by
  induction h with
  | behavior hR => exact .behavior hR
  | awaited hb0 ho hc hpc hf hroot ih =>
    rename_i b c fb fc f
    obtain ⟨fb', hb', hn⟩ := hb
    rw [hb0] at hb'
    cases hb'
    have hlt : c < b := (hL.outer b fb c hb0 ho).1
    have hcn : fc.pc ≠ .finished := by rw [hpc]; exact nofun
    obtain ⟨fc', hc', hpc', -⟩ := hK.other hc (hne c hlt fc f hc hpc) hcn
    obtain ⟨fb'', hb'', ho'⟩ := hK.outer hb0 hn (by rw [ho]; exact nofun)
    exact .awaited hb'' (ho'.trans ho) hc' (hpc'.trans hpc) hf
      (ih (fun d hd => hne d (Nat.lt_trans hd hlt)) ⟨fc, hc, hcn⟩)

theorem Kept.calls (hK : Kept F F' a) (hL : Linked F)
    (ha : ∀ fa, F.get a = some fa → fa.pc.active = true)
    (h : Calls F R S) (hact : ∀ b ∈ S, ∃ fb, F.get b = some fb ∧ fb.pc.active = true)
    (htop : ∀ b ∈ S.tail, b ≠ a) : Calls F' R S := by
  induction S with
  | nil => trivial
  | cons x S ih =>
    cases S with
    | nil =>
      obtain ⟨fx, hx, hax⟩ := hact x List.mem_cons_self
      refine hK.rooted hL h (fun c _ fc f hc hpc => ?_) ⟨fx, hx, Place.active_ne hax⟩
      rintro rfl
      have := ha fc hc
      rw [hpc] at this
      cases this
    | cons y rest =>
      obtain ⟨⟨fy, f, hy, hpc, hf, hx⟩, hcalls⟩ := h
      have hya := htop y List.mem_cons_self
      obtain ⟨fy', hy', hpc', hheld⟩ := hK.other hy hya (by rw [hpc]; exact nofun)
      exact ⟨⟨fy', f, hy', hpc'.trans hpc, hheld ▸ hf, hx⟩,
        ih hcalls (fun b hb => hact b (List.mem_cons_of_mem _ hb))
          fun b hb => htop b (List.mem_cons_of_mem _ hb)⟩

/-- a coroutine that is not inside `co_await`, or that is suspended there, keeps its place, unless
the one it awaits has finished -/
theorem Kept.place (hK : Kept F F' a) (hp : AtPlace F C b fb)
    (hpc : fb.pc = .running ∨ (∃ f, fb.pc = .suspended f) ∨ fb.pc = .finished)
    (hb : F.get b = some fb) (hb' : F'.get b = some fb') (hba : b ≠ a)
    (hcont : ∀ f, fb.pc.current = some f → contOf C' f.state = contOf C f.state)
    (hout : ∀ fa fa', F.get a = some fa → F'.get a = some fa' → fa'.pc = .finished →
      fa.outerPromise ≠ some b) : AtPlace F' C' b fb' := by
  obtain ⟨hnone, -⟩ | ⟨fb'', hb'', -, hsame, -, hflags⟩ := hK b fb hb
  · rw [hnone] at hb'; cases hb'
  rw [hb'] at hb''
  cases hb''
  obtain ⟨hpc', hheld⟩ := hsame hba
  unfold AtPlace at hp ⊢
  rw [hpc']
  rcases hpc with hpc | ⟨f, hpc⟩ | hpc
  · rw [hpc] at hp ⊢
    rw [hflags hba (by rw [hpc]; exact nofun)]
    exact hp
  · rw [hpc] at hp ⊢
    refine ⟨(hcont f (by rw [hpc]; rfl)).trans hp.1, ?_⟩
    have ht := hp.2
    unfold Target at ht ⊢
    split at ht
    · rename_i hnone
      rw [hflags hba (fun g hg => by rw [hpc] at hg; cases hg; exact hnone)]
      exact ht
    · rename_i d _
      obtain ⟨fd, hd, hn, ho⟩ := ht
      obtain ⟨fd', hd', ho'⟩ := hK.outer hd hn (by rw [ho]; exact nofun)
      refine ⟨fd', hd', fun hfin => ?_, ho'.trans ho⟩
      by_cases hda : d = a
      · subst hda
        exact hout fd fd' hd hd' hfin ho
      · obtain ⟨fd'', hd'', hpd, -⟩ := hK.other hd hda hn
        rw [hd'] at hd''
        cases hd''
        exact hn (hpd ▸ hfin)
  · rw [hpc] at hp ⊢
    rw [hflags hba (by rw [hpc]; exact nofun), hheld]
    exact hp

theorem Stacked.top_active (hS : Stacked F (a :: S) R) (ha : F.get a = some fa) :
    fa.pc.active = true := by
  obtain ⟨fa', ha', hact⟩ := hS.active a List.mem_cons_self
  rw [ha] at ha'
  cases ha'
  exact hact

theorem Stacked.below_ne (hS : Stacked F (a :: S) R) (hb : b ∈ S) : b ≠ a :=
  Nat.ne_of_lt (List.rel_of_pairwise_cons hS.sorted hb)

/-- the behavior is still nobody's -/
theorem Moved.behaviors (hM : Moved F F' a) (hS : Stacked F S R) :
    ∀ r, R = some r → ∃ fr, F'.get r = some fr ∧ fr.state = none ∧ fr.outerPromise = none := by
  intro r hr
  obtain ⟨fr, hfr, hst, ho⟩ := hS.behavior r hr
  obtain ⟨fr', hfr'⟩ := hM.behavior r fr hfr hst
  rcases hM.forth r fr hfr with ⟨hnone, -⟩ | ⟨fr'', hfr'', hst', -, hout, -⟩
  · rw [hfr'] at hnone
    cases hnone
  · exact ⟨fr'', hfr'', hst'.trans hst, (hout (Or.inr hst)).trans ho⟩

theorem Moved.stacked (hM : Moved F F' a) (hL : Linked F) (hS : Stacked F (a :: S) R)
    (hact' : ∃ fa', F'.get a = some fa' ∧ fa'.pc.active = true) : Stacked F' (a :: S) R where
  active b hb := by
    obtain ⟨fb, hfb, hact⟩ := hS.active b hb
    by_cases hba : b = a
    · subst hba
      exact hact'
    · obtain ⟨fb', hb', hpc, -⟩ := hM.forth.other hfb hba (Place.active_ne hact)
      exact ⟨fb', hb', hpc ▸ hact⟩
  idle b fb' hb' hnot := by
    obtain ⟨fb, hfb, -, -, hsame⟩ := hM.back b fb' hb'
    have hba : b ≠ a := fun he => hnot (he ▸ List.mem_cons_self)
    rw [(hsame hba).1]
    exact hS.idle b fb hfb hnot
  sorted := hS.sorted
  calls := hM.forth.calls hL (fun _ ha => hS.top_active ha) hS.calls hS.active
    fun _ hb => hS.below_ne hb
  behavior := hM.behaviors hS
  stateless b fb' hb' hst := by
    obtain ⟨fb, hfb, hst', -⟩ := hM.back b fb' hb'
    exact hS.stateless b fb hfb (hst' ▸ hst)

theorem Tokens.moved (hT : Tokens F C) (hM : Moved F F' a)
    (hV : ∀ j fr' f, F'.get j = some fr' → f ∈ fr'.futures → Valid F C j f → Valid F' C' j f)
    (hO : ∀ s c b, C.get s = some c → c.maker = .coroutine b →
      ∃ c', C'.get s = some c' ∧ c'.maker = .coroutine b) : Tokens F' C' where
  nodup j fr' hj := by
    obtain ⟨fr, hfr, -, ⟨l, hp, hsub⟩, -⟩ := hM.back j fr' hj
    exact ((hT.nodup j fr hfr).sublist (hsub.map _)).perm (hp.map _)
  unique i fi' f j fj' g hi hj hf hg hs := by
    obtain ⟨fi, hfi, -, hsubi, -⟩ := hM.back i fi' hi
    obtain ⟨fj, hfj, -, hsubj, -⟩ := hM.back j fj' hj
    exact hT.unique i fi f j fj g hfi hfj (hsubi.subset hf) (hsubj.subset hg) hs
  valid j fr' f hj hf := by
    obtain ⟨fr, hfr, -, hsub, -⟩ := hM.back j fr' hj
    exact hV j fr' f hj hf (hT.valid j fr f hfr (hsub.subset hf))
  own j fr' s hj hs := by
    obtain ⟨fr, hfr, hst, -⟩ := hM.back j fr' hj
    obtain ⟨c, hc, hm⟩ := hT.own j fr s hfr (hst ▸ hs)
    exact hO s c j hc hm

/-- whoever has called is running -/
theorem Calls.running (h : Calls F R (a :: S)) (hbS : b ∈ S) (hb : F.get b = some fb) :
    fb.pc = .running := by
  induction S generalizing a with
  | nil => cases hbS
  | cons y rest ih =>
    obtain ⟨⟨fy, f, hy, hpc, -⟩, hcalls⟩ := h
    rcases List.mem_cons.mp hbS with rfl | hbS
    · rw [hb] at hy
      cases hy
      exact hpc
    · exact ih hcalls hbS

/-- who is not on top of the stack runs below, is suspended, or has finished -/
theorem Stacked.others (hS : Stacked F (a :: S) R) (hb : F.get b = some fb) (hba : b ≠ a) :
    fb.pc = .running ∨ (∃ f, fb.pc = .suspended f) ∨ fb.pc = .finished := by
  by_cases hbS : b ∈ a :: S
  · exact Or.inl (hS.calls.running ((List.mem_cons.mp hbS).resolve_left hba) hb)
  · have hidle := hS.idle b fb hb hbS
    cases hpc : fb.pc with
    | suspended f => exact Or.inr (Or.inl ⟨f, rfl⟩)
    | finished => exact Or.inr (Or.inr rfl)
    | _ => rw [hpc] at hidle; cases hidle

/-- the futures that are held -/
theorem Inv.held_moved (h : Inv F C (a :: S) R hole) (hM : Moved F F' a)
    (hcont : ∀ j fr f, F.get j = some fr → f ∈ fr.futures → j ≠ a →
      contOf C' f.state = contOf C f.state)
    (hheld : ∀ fa' f, F'.get a = some fa' → f ∈ fa'.held → contOf C' f.state = none) :
    ∀ j fr' f, F'.get j = some fr' → f ∈ fr'.held → contOf C' f.state = none := by
  intro j fr' f hj hf
  by_cases hja : j = a
  · subst hja
    exact hheld fr' f hj hf
  · obtain ⟨fr, hfr, -, -, hsame⟩ := hM.back j fr' hj
    have hf0 : f ∈ fr.held := (hsame hja).2 ▸ hf
    exact (hcont j fr f hfr (mem_futures_held hf0) hja).trans (h.places.held j fr f hfr hf0)

/-- the place of another coroutine -/
theorem Inv.place_moved (h : Inv F C (a :: S) R hole) (hh : ∀ x, hole = some x → x = a)
    (hM : Moved F F' a)
    (hcont : ∀ j fr f, F.get j = some fr → f ∈ fr.futures → j ≠ a →
      contOf C' f.state = contOf C f.state)
    (hb' : F'.get b = some fb') (hba : b ≠ a)
    (hout : ∀ fa fa', F.get a = some fa → F'.get a = some fa' → fa'.pc = .finished →
      fa.outerPromise ≠ some b) : AtPlace F' C' b fb' := by
  obtain ⟨fb, hb, -⟩ := hM.back b fb' hb'
  exact hM.forth.place (h.places.place b fb hb fun he => hba (hh b he.symm))
    (h.stacked.others hb hba) hb hb' hba
    (fun f hf => hcont b fb f hb (mem_futures_current hf) hba) hout

/-- **The running coroutine moves**: the invariant survives, up to its own place. -/
theorem Inv.moved (h : Inv F C (a :: S) R hole) (hh : ∀ x, hole = some x → x = a)
    (hM : Moved F F' a) (hact : ∃ fa', F'.get a = some fa' ∧ fa'.pc.active = true)
    (hP : Pointers F')
    (hV : ∀ j fr' f, F'.get j = some fr' → f ∈ fr'.futures → Valid F C j f → Valid F' C' j f)
    (hO : ∀ s c b, C.get s = some c → c.maker = .coroutine b →
      ∃ c', C'.get s = some c' ∧ c'.maker = .coroutine b)
    (hcont : ∀ j fr f, F.get j = some fr → f ∈ fr.futures → j ≠ a →
      contOf C' f.state = contOf C f.state)
    (hheld : ∀ fa' f, F'.get a = some fa' → f ∈ fa'.held → contOf C' f.state = none) :
    Inv F' C' (a :: S) R (some a) where
  pointers := hP
  tokens := h.tokens.moved hM hV hO
  stacked := hM.stacked h.pointers.linked h.stacked hact
  hole x hx := by
    cases hx
    exact List.mem_cons_self
  places := by
    refine ⟨h.held_moved hM hcont hheld, fun j fr' hj hja => ?_⟩
    refine h.place_moved hh hM hcont hj (fun he => hja (congrArg some he)) ?_
    intro fa fa' _ ha' hfin
    obtain ⟨fa'', ha'', hact⟩ := hact
    rw [ha'] at ha''
    cases ha''
    exact absurd hfin (Place.active_ne hact)

/-- and with the place of the one that moved it is whole again -/
theorem Inv.settled (h : Inv F C (a :: S) R (some a))
    (ha : ∀ fa, F.get a = some fa → AtPlace F C a fa) : Inv F C (a :: S) R none where
  pointers := h.pointers
  tokens := h.tokens
  stacked := h.stacked
  hole := nofun
  places := by
    refine ⟨h.places.held, fun j fr hj _ => ?_⟩
    by_cases hja : j = a
    · subst hja
      exact ha fr hj
    · exact h.places.place j fr hj fun he => hja (Option.some.inj he)

/-! ## what a modified frame and a modified state leave alone -/

theorem Moved.modify {k : Frame → Frame} (ha : F.get a = some fa) (hst : (k fa).state = fa.state)
    (ho : (k fa).outerPromise = fa.outerPromise) (hf : (k fa).futures.Subperm fa.futures) :
    Moved F (F.modify a k) a where
  back j fr' hj := by
    obtain ⟨fr, hfr, rfl⟩ := Heap.get_modify_some hj
    by_cases hja : j = a
    · subst hja
      rw [ha] at hfr
      cases hfr
      rw [if_pos rfl]
      exact ⟨fa, ha, hst, hf, fun hne => absurd rfl hne⟩
    · rw [if_neg hja]
      exact ⟨fr, hfr, rfl, List.Subperm.refl _, fun _ => ⟨rfl, rfl⟩⟩
  forth j fr hj := by
    refine Or.inr ?_
    by_cases hja : j = a
    · subst hja
      rw [ha] at hj
      cases hj
      exact ⟨k fa, Heap.get_modify_self ha, hst, fun hne => absurd rfl hne, fun _ => ho,
        fun hne => absurd rfl hne⟩
    · exact ⟨fr, (Heap.get_modify_ne hja).trans hj, rfl, fun _ => ⟨rfl, rfl⟩, fun _ => rfl,
        fun _ _ => rfl⟩
  behavior j fr hj _ := ⟨_, Heap.get_modify_of hj⟩

/-- the pointers of a frame stay -/
def Frame.SamePointers (fr fr' : Frame) : Prop :=
  fr'.propagatedToFlags = fr.propagatedToFlags ∧ fr'.propagatedToCont = fr.propagatedToCont ∧
    fr'.outerPromise = fr.outerPromise ∧ fr'.awaitedFlags = fr.awaitedFlags ∧
    fr'.awaitedContinuation = fr.awaitedContinuation

theorem modify_pointers {k : Frame → Frame} (ha : F.get a = some fa) (hk : fa.SamePointers (k fa))
    {j : Handle} {fr' : Frame} (hj : (F.modify a k).get j = some fr') :
    ∃ fr, F.get j = some fr ∧ fr.SamePointers fr' := by
  obtain ⟨fr, hfr, rfl⟩ := Heap.get_modify_some hj
  by_cases hja : j = a
  · subst hja
    rw [ha] at hfr
    cases hfr
    rw [if_pos rfl]
    exact ⟨fa, ha, hk⟩
  · rw [if_neg hja]
    exact ⟨fr, hfr, rfl, rfl, rfl, rfl, rfl⟩

/-- a frame whose promise propagates to nobody -/
def Frame.Unlinked (fr : Frame) : Prop :=
  fr.propagatedToFlags = none ∧ fr.propagatedToCont = none ∧ fr.outerPromise = none ∧
    fr.awaitedFlags = none ∧ fr.awaitedContinuation = none ∧ fr.pc.current = none

/-- frames come and go, and those that stay keep their pointers -/
theorem Pointers.keep (hP : Pointers F)
    (hkeep : ∀ j fr', F'.get j = some fr' → (∃ fr, F.get j = some fr ∧ fr.SamePointers fr') ∨
      fr'.Unlinked)
    (hcur : ∀ b fb' c fc f, F'.get b = some fb' → F.get c = some fc → fc.pc.current = some f →
      f.handle = some b → ∃ fc', F'.get c = some fc' ∧ fc'.pc.current = some f) : Pointers F' := by
  have houter : ∀ b fb c, F'.get b = some fb → fb.outerPromise = some c →
      ∃ fr, F.get b = some fr ∧ fr.SamePointers fb ∧ fr.outerPromise = some c := by
    intro b fb c hb hc
    rcases hkeep b fb hb with ⟨fr, hfr, hsame⟩ | hun
    · exact ⟨fr, hfr, hsame, hsame.2.2.1 ▸ hc⟩
    · rw [hun.2.2.1] at hc
      cases hc
  have hlink : ∀ b fb c, F'.get b = some fb → fb.outerPromise = some c → c < b ∧
      ∃ fc f, F'.get c = some fc ∧ fc.pc.current = some f ∧ f.handle = some b := by
    intro b fb c hb hc
    obtain ⟨fr, hfr, -, ho⟩ := houter b fb c hb hc
    obtain ⟨hlt, fc, f, hfc, hf, hh⟩ := hP.linked.outer b fr c hfr ho
    obtain ⟨fc', hfc', hf'⟩ := hcur b fb c fc f hb hfc hf hh
    exact ⟨hlt, fc', f, hfc', hf', hh⟩
  refine ⟨⟨fun b fb hb => ?_, hlink⟩, fun b fb c fc hb hc hfc => ?_⟩
  · rcases hkeep b fb hb with ⟨fr, hfr, e1, e2, e3, e4, e5⟩ | ⟨e1, e2, e3, e4, e5, -⟩
    · rw [e1, e2, e3, e4, e5]
      exact hP.linked.same b fr hfr
    · rw [e1, e2, e3, e4, e5]
      exact ⟨rfl, rfl, rfl⟩
  · obtain ⟨fr, hfr, ⟨-, -, -, e4, -⟩, ho⟩ := houter b fb c hb hc
    obtain ⟨-, fc', f, hfc', hf, -⟩ := hlink b fb c hb hc
    rw [hfc] at hfc'
    cases hfc'
    rcases hkeep c fc hfc with ⟨fr', hfr', -, -, -, e4', -⟩ | hun
    · rw [e4, e4']
      exact hP.copied b fr c fr' hfr ho hfr'
    · rw [hun.2.2.2.2.2] at hf
      cases hf

theorem Pointers.modify {k : Frame → Frame} (hP : Pointers F) (ha : F.get a = some fa)
    (hk : fa.SamePointers (k fa))
    (hcur : ∀ f, fa.pc.current = some f → (k fa).pc.current = some f) :
    Pointers (F.modify a k) := by
  refine hP.keep (fun j fr' hj => Or.inl (modify_pointers ha hk hj)) fun b fb c fc f _ hc hf _ => ?_
  by_cases hca : c = a
  · subst hca
    rw [ha] at hc
    cases hc
    exact ⟨k fa, Heap.get_modify_self ha, hcur f hf⟩
  · exact ⟨fc, (Heap.get_modify_ne hca).trans hc, hf⟩

/-- a state changes as the state of a future -/
theorem Cell.Goes.modify {s : Address} {k : Cell T X → Cell T X}
    (hk : ∀ c, C.get s = some c → c.Goes (k c)) {t : Address} {c : Cell T X}
    (hc : C.get t = some c) : ∃ c', (C.modify s k).get t = some c' ∧ c.Goes c' := by
  by_cases ht : t = s
  · subst ht
    exact ⟨k c, Heap.get_modify_self hc, hk c hc⟩
  · exact ⟨c, (Heap.get_modify_ne ht).trans hc, .refl c⟩

theorem contOf_modify_ne {s t : Address} {k : Cell T X → Cell T X} (h : t ≠ s) :
    contOf (C.modify s k) t = contOf C t := by
  unfold contOf
  rw [Heap.get_modify_ne h]

theorem contOf_modify_self {s : Address} {k : Cell T X → Cell T X} {c : Cell T X}
    (hc : C.get s = some c) : contOf (C.modify s k) s = (k c).mem.st.continuation := by
  unfold contOf
  rw [Heap.get_modify_self hc]
  rfl

/-- a change of a state that leaves the continuation alone -/
theorem contOf_modify_same {s : Address} {k : Cell T X → Cell T X}
    (hk : ∀ c, C.get s = some c → (k c).mem.st.continuation = c.mem.st.continuation) (t : Address) :
    contOf (C.modify s k) t = contOf C t := by
  by_cases ht : t = s
  · subst ht
    unfold contOf
    show ((if t = t then (C.get t).map k else C.get t).bind _) = _
    rw [if_pos rfl]
    cases hc : C.get t with
    | none => rfl
    | some c => exact hk c hc
  · exact contOf_modify_ne ht

/-- another coroutine's future has another state -/
theorem Tokens.state_ne (hT : Tokens F C) (ha : F.get a = some fa) (hb : F.get b = some fb)
    (hf : f ∈ fa.futures) (hg : g ∈ fb.futures) (hab : a ≠ b) : f.state ≠ g.state :=
  fun hs => hab (hT.unique a fa f b fb g ha hb hf hg hs)

/-! ## control comes back -/

/-- the top of the stack gives control back -/
theorem Moved.popped (hM : Moved F F' a) (hL : Linked F) (hS : Stacked F (a :: S) R)
    (hidle : ∀ fa', F'.get a = some fa' → fa'.pc.active = false) : Stacked F' S R where
  active b hb := by
    obtain ⟨fb, hfb, hact⟩ := hS.active b (List.mem_cons_of_mem _ hb)
    obtain ⟨fb', hb', hpc, -⟩ := hM.forth.other hfb (hS.below_ne hb) (Place.active_ne hact)
    exact ⟨fb', hb', hpc ▸ hact⟩
  idle b fb' hb' hnot := by
    by_cases hba : b = a
    · subst hba
      exact hidle fb' hb'
    · obtain ⟨fb, hfb, -, -, hsame⟩ := hM.back b fb' hb'
      rw [(hsame hba).1]
      exact hS.idle b fb hfb fun hb => (List.mem_cons.mp hb).elim hba hnot
  sorted := hS.sorted.of_cons
  calls := by
    cases S with
    | nil => trivial
    | cons y rest =>
      exact hM.forth.calls hL (fun _ ha => hS.top_active ha) hS.calls.2
        (fun b hb => hS.active b (List.mem_cons_of_mem _ hb))
        fun b hb => hS.below_ne (List.mem_cons_of_mem _ hb)
  behavior := hM.behaviors hS
  stateless b fb' hb' hst := by
    obtain ⟨fb, hfb, hst', -⟩ := hM.back b fb' hb'
    exact hS.stateless b fb hfb (hst' ▸ hst)

/-! ## `co_await` -/

theorem Place.current_active {p : Place} (h : p.current = some f) : p.returned = false := by
  cases p <;> first | rfl | cases h

theorem goes_own (hC : ∀ t c, C.get t = some c → ∃ c', C'.get t = some c' ∧ c.Goes c') (s : Address)
    (c : Cell T X) (b : Handle) (hc : C.get s = some c) (hm : c.maker = .coroutine b) :
    ∃ c', C'.get s = some c' ∧ c'.maker = .coroutine b := by
  obtain ⟨c', hc', hgo⟩ := hC s c hc
  have := hgo.maker
  rw [hm] at this
  exact ⟨c', hc', this.1⟩

/-- the running coroutine goes on inside `co_await f`, or is suspended there -/
theorem Moved.goto {pc : Place} (ha : F.get a = some fa) (hf : fa.pc.current = some f)
    (hpc : pc.current = some f) : Moved F (F.modify a (.goto pc)) a := by
  refine Moved.modify ha rfl rfl ?_
  show (fa.held ++ pc.current.toList).Subperm (fa.held ++ fa.pc.current.toList)
  rw [hpc, hf]

theorem Valid.goto {pc : Place} (hv : Valid F C b g) (ha : F.get a = some fa)
    (hret : pc.returned = fa.pc.returned)
    (hC : ∀ t c, C.get t = some c → ∃ c', C'.get t = some c' ∧ c.Goes c') :
    Valid (F.modify a (.goto pc)) C' b g := by
  refine hv.goes (fun c hc => hC _ c hc) fun b fb _ hb _ => ?_
  by_cases hba : b = a
  · subst hba
    rw [ha] at hb
    cases hb
    exact ⟨_, Heap.get_modify_self ha, rfl, hret⟩
  · exact ⟨fb, (Heap.get_modify_ne hba).trans hb, rfl, rfl⟩

theorem Inv.goto_held {pc : Place} (h : Inv F C S R hole) (ha : F.get a = some fa)
    (hf : fa.pc.current = some f) (hcont : ∀ t, t ≠ f.state → contOf C' t = contOf C t) :
    ∀ fa' g, (F.modify a (.goto pc)).get a = some fa' → g ∈ fa'.held → contOf C' g.state = none := by
  intro fa' g hfa' hg
  rw [Heap.get_modify_self ha] at hfa'
  cases hfa'
  exact (hcont _ (h.tokens.held_ne_current ha hg hf)).trans (h.places.held a fa g ha hg)

theorem Inv.goto {pc : Place} (h : Inv F C (a :: S) R hole) (hh : ∀ x, hole = some x → x = a)
    (ha : F.get a = some fa) (hf : fa.pc.current = some f) (hpc : pc.current = some f)
    (hact : pc.active = true)
    (hC : ∀ t c, C.get t = some c → ∃ c', C'.get t = some c' ∧ c.Goes c')
    (hcont : ∀ t, t ≠ f.state → contOf C' t = contOf C t) :
    Inv (F.modify a (.goto pc)) C' (a :: S) R (some a) :=
  h.moved hh (.goto ha hf hpc) ⟨_, Heap.get_modify_self ha, hact⟩
    (h.pointers.modify ha ⟨rfl, rfl, rfl, rfl, rfl⟩ fun g hg => by rw [hf] at hg; cases hg; exact hpc)
    (fun _ _ _ _ _ hv => hv.goto ha
      ((Place.current_active hpc).trans (Place.current_active hf).symm) hC) (goes_own hC)
    (fun _ _ _ hj hg hja => hcont _ (h.tokens.state_ne hj ha hg (mem_futures_current hf) hja))
    (h.goto_held ha hf hcont)

/-- the maker of a result is not on the stack of whoever owns its future -/
theorem Inv.not_mem_of_owned (h : Inv F C (a :: S) R hole) (ha : F.get a = some fa)
    (hf : f ∈ fa.futures) (hb : f.handle = some b) : b ∉ a :: S := by
  have hlt := ((h.tokens.valid a fa f ha hf).handle hb).1
  intro hbS
  rcases List.mem_cons.mp hbS with rfl | hbS
  · exact absurd hlt (Nat.lt_irrefl _)
  · exact absurd (List.rel_of_pairwise_cons h.stacked.sorted hbS) (Nat.lt_asymm hlt)

/-- a result that is there was made by a coroutine that has finished, or by a thread -/
theorem Inv.made_of_result (h : Inv F C (a :: S) R hole) (ha : F.get a = some fa)
    (hf : f ∈ fa.futures) {c : Cell T X} (hc : C.get f.state = some c)
    (hr : c.mem.st.hasResult = true) : Made F f := by
  intro b hb
  have hnot := h.not_mem_of_owned ha hf hb
  obtain ⟨c', hc', -, -, hm⟩ := h.tokens.valid a fa f ha hf
  rw [hc] at hc'
  cases hc'
  cases hm with
  | thread hn =>
    rw [hb] at hn
    cases hn
  | @coroutine _ fb hs _ _ hfb _ hmade =>
    rw [hb] at hs
    cases hs
    refine ⟨fb, hfb, ?_⟩
    have hidle := h.stacked.idle _ fb hfb hnot
    unfold Cell.Made at hmade
    split at hmade <;> rename_i hret
    · cases hp : fb.pc with
      | finished => rfl
      | leaving => rw [hp] at hidle; cases hidle
      | _ => rw [hp] at hret; cases hret
    · simp [State.hasResult, hmade] at hr

/-- conversely, a coroutine that has finished left a result -/
theorem Tokens.result_of_made (hT : Tokens F C) (ha : F.get a = some fa) (hf : f ∈ fa.futures)
    {c : Cell T X} (hc : C.get f.state = some c) (hm : Made F f) (hb : c.maker = .coroutine b) :
    c.mem.st.hasResult = true := by
  obtain ⟨c', hc', -, -, hv⟩ := hT.valid a fa f ha hf
  rw [hc] at hc'
  cases hc'
  cases hv with
  | thread _ hp =>
    rw [hb] at hp
    cases hp
  | coroutine hs _ _ hfb _ hmade =>
    obtain ⟨fb', hfb', hfin⟩ := hm _ hs
    rw [hfb] at hfb'
    cases hfb'
    unfold Cell.Made at hmade
    rwa [if_pos (by rw [hfin]; rfl)] at hmade

theorem hasResult_ne_empty {st : State T X} (h : st.hasResult = true) : st.flags ≠ empty := by
  intro he
  simp [State.hasResult, he] at h

/-- and one that is not there is made by a suspended coroutine, or by a thread -/
theorem Inv.unmade_of_no_result (h : Inv F C (a :: S) R hole) (ha : F.get a = some fa)
    (hf : f ∈ fa.futures) {c : Cell T X} (hc : C.get f.state = some c)
    (hr : c.mem.st.hasResult = false) (hb : f.handle = some b) :
    c.mem.st.flags = empty ∧ ∃ fb g, F.get b = some fb ∧ fb.pc = .suspended g := by
  have hnot := h.not_mem_of_owned ha hf hb
  obtain ⟨c', hc', -, -, hm⟩ := h.tokens.valid a fa f ha hf
  rw [hc] at hc'
  cases hc'
  cases hm with
  | thread hn =>
    rw [hb] at hn
    cases hn
  | @coroutine _ fb hs _ _ hfb _ hmade =>
    rw [hb] at hs
    cases hs
    have hidle := h.stacked.idle _ fb hfb hnot
    unfold Cell.Made at hmade
    split at hmade <;> rename_i hret
    · rw [hr] at hmade
      cases hmade
    · refine ⟨hmade, fb, ?_⟩
      cases hp : fb.pc with
      | suspended g => exact ⟨g, hfb, rfl⟩
      | finished => rw [hp] at hret; exact absurd rfl hret
      | _ => rw [hp] at hidle; cases hidle

theorem Target.modify {k : Frame → Frame} (ht : Target F a fa f) (hk : (k fa).awaitedFlags = fa.awaitedFlags)
    (hself : f.handle ≠ some a) : Target (F.modify a k) a (k fa) f := by
  unfold Target at ht ⊢
  split at ht
  · exact hk.trans ht
  · rename_i b hb
    obtain ⟨fb, hfb, hn, ho⟩ := ht
    exact ⟨fb, (Heap.get_modify_ne fun hba => hself (hb.trans (congrArg some hba))).trans hfb, hn, ho⟩

theorem Made.modify {k : Frame → Frame} (hm : Made F f) (hself : f.handle ≠ some a) :
    Made (F.modify a k) f := by
  intro b hb
  obtain ⟨fb, hfb, hn⟩ := hm b hb
  exact ⟨fb, (Heap.get_modify_ne fun hba => hself (hb.trans (congrArg some hba))).trans hfb, hn⟩

theorem Inv.not_self (h : Inv F C (a :: S) R hole) (ha : F.get a = some fa) (hf : f ∈ fa.futures) :
    f.handle ≠ some a :=
  fun hb => h.not_mem_of_owned ha hf hb List.mem_cons_self

theorem Moved.setAwaited {p : Option Address} (hR : Repointed (F.modify a (.point p p)) F' a) :
    Moved F F' a where
  back j fr' hj := by
    obtain ⟨fr0, p', q', h0, rfl⟩ := hR.origin hj
    obtain ⟨fr, hfr, rfl⟩ := Heap.get_modify_some h0
    refine ⟨fr, hfr, ?_, ?_, fun _ => ?_⟩
    · split <;> rfl
    · split <;> exact List.Subperm.refl _
    · split <;> exact ⟨rfl, rfl⟩
  forth j fr hj := by
    refine Or.inr ?_
    by_cases hja : j = a
    · subst hja
      obtain ⟨p', q', h'⟩ := hR.of_some (Heap.get_modify_self hj)
      exact ⟨_, h', rfl, fun hne => absurd rfl hne, fun _ => rfl, fun hne => absurd rfl hne⟩
    · have hj' : (F.modify a (.point p p)).get j = some fr := (Heap.get_modify_ne hja).trans hj
      obtain ⟨p', q', h'⟩ := hR.of_some hj'
      refine ⟨_, h', rfl, fun _ => ⟨rfl, rfl⟩, fun _ => rfl, fun _ hf => ?_⟩
      rw [hR.others j fr hj' (Or.inr hf)] at h'
      rw [← Option.some.inj h']
  behavior j fr hj _ := by
    obtain ⟨p', q', h'⟩ := hR.of_some (Heap.get_modify_of hj)
    exact ⟨_, h'⟩

/-- every frame stays where it is when pointers are set -/
theorem Repointed.place {p : Option Address} (hR : Repointed (F.modify a (.point p p)) F' a)
    (hb : F.get b = some fb) : ∃ p' q', F'.get b = some (fb.point p' q') := by
  by_cases hba : b = a
  · subst hba
    obtain ⟨p', q', h⟩ := hR.of_some (Heap.get_modify_self hb)
    exact ⟨p', q', h⟩
  · exact hR.of_some ((Heap.get_modify_ne hba).trans hb)

theorem Made.repointed {p : Option Address} (hm : Made F f)
    (hR : Repointed (F.modify a (.point p p)) F' a) : Made F' f := by
  intro b hb
  obtain ⟨fb, hfb, hfin⟩ := hm b hb
  obtain ⟨p', q', hfb'⟩ := hR.place hfb
  exact ⟨_, hfb', hfin⟩

/-- **The running coroutine sets its pointers.** -/
theorem Inv.setAwaited {p : Option Address} (h : Inv F C (a :: S) R hole)
    (hh : ∀ x, hole = some x → x = a) (ha : F.get a = some fa) (hact : fa.pc.active = true)
    (hin : ∀ b fb, F.get b = some fb → fb.outerPromise = some a → fb.awaitedFlags = p) :
    Inv (setAwaited F a p p) C (a :: S) R (some a) ∧
      (ActorZeta.setAwaited F a p p).get a = some (fa.point p p) ∧
      Repointed (F.modify a (.point p p)) (ActorZeta.setAwaited F a p p) a := by
  obtain ⟨hP, ha', hR⟩ := setAwaited_spec h.pointers.linked ha hin fun b _ _ _ _ =>
    h.pointers.copied b
  have hM : Moved F (ActorZeta.setAwaited F a p p) a := .setAwaited hR
  refine ⟨h.moved hh hM ⟨_, ha', hact⟩ hP (fun j fr' g _ _ hv => hv.goes (goes_refl C _) ?_)
    (goes_own (goes_refl C)) (fun _ _ _ _ _ _ => rfl) (fun fa' g hfa' hg => ?_), ha', hR⟩
  · intro b fb _ hb _
    obtain ⟨p', q', hb'⟩ := hR.place hb
    exact ⟨_, hb', rfl, rfl⟩
  · rw [ha'] at hfa'
    cases hfa'
    exact h.places.held a fa g ha hg

/-- who propagates to the running coroutine has finished, and points nowhere -/
theorem Inv.inner_cleared (h : Inv F C (a :: S) R none) (ha : F.get a = some fa)
    (hm : ∀ f, fa.pc.current = some f → Made F f) (hb : F.get b = some fb)
    (ho : fb.outerPromise = some a) : fb.awaitedFlags = none := by
  obtain ⟨-, fa', f, ha', hf, hfb⟩ := h.pointers.linked.outer b fb a hb ho
  rw [ha] at ha'
  cases ha'
  obtain ⟨fb', hb', hfin⟩ := hm f hf b hfb
  rw [hb] at hb'
  cases hb'
  have hplace := h.places.place b fb hb nofun
  unfold AtPlace at hplace
  rw [hfin] at hplace
  exact hplace.1

/-! ## a future dies -/

/-- **A future is released**, and the frame that made its result is destroyed if it is done. -/
theorem Inv.release {k : Frame → Frame} (h : Inv F C (a :: S) R hole)
    (hh : ∀ x, hole = some x → x = a) (ha : F.get a = some fa)
    (hfut : fa.futures.Perm (f :: (k fa).futures)) (hheld : ∀ g ∈ (k fa).held, g ∈ fa.held)
    (hst : (k fa).state = fa.state) (hk : fa.SamePointers (k fa))
    (hret : (k fa).pc.returned = fa.pc.returned) (hact : (k fa).pc.active = true)
    (hcur : ∀ g, fa.pc.current = some g → g = f ∧ Made F f ∨ (k fa).pc.current = some g) :
    Inv (reclaimed (F.modify a k) f.handle) (C.modify f.state (.onMem Mem.releaseFuture)) (a :: S) R
      (some a) ∧ (reclaimed (F.modify a k) f.handle).get a = some (k fa) := by
  have hmem : f ∈ fa.futures := hfut.mem_iff.mpr List.mem_cons_self
  have hself := h.not_self ha hmem
  have ha' : (reclaimed (F.modify a k) f.handle).get a = some (k fa) :=
    reclaimed_some.mpr ⟨Heap.get_modify_self ha, fun he => hself he.1⟩
  have hsub : (k fa).futures.Subperm fa.futures :=
    (List.sublist_cons_self f _).subperm.trans hfut.symm.subperm
  have hM0 : Moved F (F.modify a k) a := .modify ha hst hk.2.2.1 hsub
  -- the frame that goes has finished, and is not the behavior
  have hgone : ∀ {j fj fj'}, F.get j = some fj → (F.modify a k).get j = some fj' →
      f.handle = some j → fj'.done = true → fj.pc = .finished ∧ fj.state ≠ none := by
    intro j fj fj' hj hj' hfj hdone
    have hja : j ≠ a := fun he => hself (hfj.trans (congrArg some he))
    obtain ⟨-, fj2, hj2, hst2⟩ := (h.tokens.valid a fa f ha hmem).handle hfj
    rw [hj] at hj2
    cases hj2
    rw [Heap.get_modify_ne hja, hj] at hj'
    cases hj'
    exact ⟨beq_iff_eq.mp hdone, by rw [hst2]; exact nofun⟩
  have hM : Moved F (reclaimed (F.modify a k) f.handle) a := by
    refine ⟨fun j fr' hj => hM0.back j fr' (reclaimed_some.mp hj).1, fun j fr hj => ?_,
      fun j fr hj hstj => ?_⟩
    · rcases hM0.forth j fr hj with ⟨hnone, hfin⟩ | ⟨fr', hj', hrest⟩
      · refine Or.inl ⟨Option.eq_none_iff_forall_not_mem.mpr fun x hx => ?_, hfin⟩
        rw [(reclaimed_some.mp hx).1] at hnone
        cases hnone
      · by_cases hd : f.handle = some j ∧ fr'.done = true
        · refine Or.inl ⟨Option.eq_none_iff_forall_not_mem.mpr fun x hx => ?_,
            (hgone hj hj' hd.1 hd.2).1⟩
          obtain ⟨hx, hn⟩ := reclaimed_some.mp hx
          rw [hj'] at hx
          cases hx
          exact hn hd
        · exact Or.inr ⟨fr', reclaimed_some.mpr ⟨hj', hd⟩, hrest⟩
    · obtain ⟨fr', hj'⟩ := hM0.behavior j fr hj hstj
      exact ⟨fr', reclaimed_some.mpr ⟨hj', fun hd => (hgone hj hj' hd.1 hd.2).2 hstj⟩⟩
  -- the other futures have other states
  have hne : ∀ {j fr' g}, (reclaimed (F.modify a k) f.handle).get j = some fr' → g ∈ fr'.futures →
      g.state ≠ f.state := by
    intro j fr' g hj hg
    by_cases hja : j = a
    · subst hja
      rw [ha'] at hj
      cases hj
      have hn := (h.tokens.nodup _ fa ha).perm (hfut.map _)
      intro he
      exact (List.nodup_cons.mp hn).1 (he ▸ List.mem_map_of_mem hg)
    · obtain ⟨fr, hfr, -, hs, -⟩ := hM.back j fr' hj
      exact h.tokens.state_ne hfr ha (hs.subset hg) hmem hja
  refine ⟨h.moved hh hM ⟨_, ha', hact⟩ ?_ (fun j fr' g hj hg hv => ?_) (fun s c b hc hb => ?_)
    (fun j fr g hj hg hja => ?_) fun fa' g hfa' hg => ?_, ha'⟩
  · refine h.pointers.keep
      (fun j fr' hj => Or.inl (modify_pointers ha hk (reclaimed_some.mp hj).1)) fun b fb c fc g hb hc hg hgb => ?_
    by_cases hca : c = a
    · subst hca
      rw [ha] at hc
      cases hc
      rcases hcur g hg with ⟨rfl, hm⟩ | hg'
      · obtain ⟨fb', hb', hfin⟩ := hm b hgb
        obtain ⟨hb1, hn⟩ := reclaimed_some.mp hb
        have hbc : b ≠ c := fun he => hself (hgb.trans (congrArg some he))
        rw [Heap.get_modify_ne hbc, hb'] at hb1
        cases hb1
        exact absurd ⟨hgb, beq_iff_eq.mpr hfin⟩ hn
      · exact ⟨_, ha', hg'⟩
    · refine ⟨fc, reclaimed_some.mpr ⟨(Heap.get_modify_ne hca).trans hc, fun he => ?_⟩, hg⟩
      rw [beq_iff_eq.mp he.2] at hg
      cases hg
  · have hgf := hne hj hg
    refine hv.goes (fun c hc => ⟨c, (Heap.get_modify_ne hgf).trans hc, .refl c⟩)
      fun b fb hgb hb hstb => ?_
    have hfb : f.handle ≠ some b := by
      intro hfb
      obtain ⟨-, fb', hb', hst'⟩ := (h.tokens.valid a fa f ha hmem).handle hfb
      rw [hb] at hb'
      cases hb'
      rw [hstb] at hst'
      exact hgf (Option.some.inj hst')
    by_cases hba : b = a
    · subst hba
      rw [ha] at hb
      cases hb
      exact ⟨_, ha', hst, hret⟩
    · exact ⟨fb, reclaimed_some.mpr ⟨(Heap.get_modify_ne hba).trans hb, fun he => hfb he.1⟩, rfl, rfl⟩
  · by_cases hs : s = f.state
    · subst hs
      exact ⟨_, Heap.get_modify_self hc, hb⟩
    · exact ⟨c, (Heap.get_modify_ne hs).trans hc, hb⟩
  · exact contOf_modify_ne (h.tokens.state_ne hj ha hg hmem hja)
  · rw [ha'] at hfa'
    cases hfa'
    exact (contOf_modify_ne (hne ha' (mem_futures_held hg))).trans
      (h.places.held a fa g ha (hheld g hg))

end

end ActorZeta
