import ActorZeta.Coroutine.Moves

/-!
# Control changes hands

* `Inv.cells`      another thread changes a state;
* `Inv.finished`   a coroutine reaches its final suspension;
* `Inv.woken`      a suspended coroutine of the behavior's chain is resumed;
* `Inv.leaf`       a live behavior points to the state that the innermost coroutine of its chain
                   awaits.
-/

namespace ActorZeta
open StateFlags

section
variable {T X : Type} {F F' : Heap Frame} {C C' : Heap (Cell T X)} {S : List Handle}
  {R hole : Option Handle} {a b c : Handle} {fa fb fb' fc : Frame} {f g : Future}

/-! ## another thread -/

/-- a state goes on, as far as its owner can see -/
structure Continues (C C' : Heap (Cell T X)) (s : Address) : Prop where
  goes : ∀ c, C.get s = some c → ∃ c', C'.get s = some c' ∧ c.Goes c'
  cont : contOf C' s = contOf C s

theorem Continues.hasResultAt {s : Address} (h : Continues C C' s) (hr : hasResultAt C s) :
    ActorZeta.hasResultAt C' s := by
  obtain ⟨c, hc, hr⟩ := hr
  obtain ⟨c', hc', hgo⟩ := h.goes c hc
  exact ⟨c', hc', hgo.result hr⟩

/-- **Another thread changes states** that coroutines await. -/
theorem Inv.cells (h : Inv F C S R hole)
    (hC : ∀ j fr f, F.get j = some fr → f ∈ fr.futures → Valid F C j f → Continues C C' f.state)
    (hO : ∀ s c b, C.get s = some c → c.maker = .coroutine b →
      ∃ c', C'.get s = some c' ∧ c'.maker = .coroutine b) : Inv F C' S R hole := by
  have hcont : ∀ {j fr f}, F.get j = some fr → f ∈ fr.futures → Continues C C' f.state :=
    fun hj hf => hC _ _ _ hj hf (h.tokens.valid _ _ _ hj hf)
  refine ⟨h.pointers, ⟨h.tokens.nodup, h.tokens.unique, fun j fr f hj hf => ?_,
    fun j fr s hj hs => ?_⟩, ⟨fun j fr f hj hf => ?_, fun j fr hj hne => ?_⟩, h.stacked, h.hole⟩
  · exact (h.tokens.valid j fr f hj hf).goes (hcont hj hf).goes fun b fb _ hb _ => ⟨fb, hb, rfl, rfl⟩
  · obtain ⟨c, hc, hm⟩ := h.tokens.own j fr s hj hs
    exact hO s c j hc hm
  · exact (hcont hj (mem_futures_held hf)).cont.trans (h.places.held j fr f hj hf)
  · have hp := h.places.place j fr hj hne
    have hcur : ∀ f, fr.pc.current = some f → Continues C C' f.state :=
      fun f hf => hcont hj (mem_futures_current hf)
    unfold AtPlace at hp ⊢
    cases hpc : fr.pc <;> rw [hpc] at hp hcur
    case awaiting f =>
      exact ⟨(hcur f rfl).cont.trans hp.1, hp.2.imp_left fun hr => ⟨hr.1, (hcur f rfl).hasResultAt hr.2⟩⟩
    case suspending f => exact ⟨(hcur f rfl).cont.trans hp.1, hp.2⟩
    case rechecking f => exact ⟨(hcur f rfl).cont.trans hp.1, hp.2⟩
    case suspended f => exact ⟨(hcur f rfl).cont.trans hp.1, hp.2⟩
    all_goals exact hp

/-! ## a coroutine is resumed -/

/-- nobody runs -/
theorem Stacked.idle_places (hS : Stacked F [] R) (hb : F.get b = some fb) :
    (∃ f, fb.pc = .suspended f) ∨ fb.pc = .finished := by
  have hidle := hS.idle b fb hb List.not_mem_nil
  cases hpc : fb.pc with
  | suspended f => exact Or.inl ⟨f, rfl⟩
  | finished => exact Or.inr rfl
  | _ => rw [hpc] at hidle; cases hidle

/-- **A suspended coroutine of the behavior's chain is resumed.** -/
theorem woken (hP : Pointers F) (hT : Tokens F C) (hS : Stacked F [] R)
    (hheld : ∀ j fr f, F.get j = some fr → f ∈ fr.held → contOf C f.state = none)
    (hplace : ∀ j fr, F.get j = some fr → j ≠ a → AtPlace F C j fr) (hroot : Rooted F R a)
    (ha : F.get a = some fa) (hpc : fa.pc = .suspended f) (hm : Made F f) :
    Inv (F.modify a (.goto (.resuming f))) C [a] R none := by
  have hcur : fa.pc.current = some f := by rw [hpc]; rfl
  have hM : Moved F (F.modify a (.goto (.resuming f))) a := .goto ha hcur rfl
  have ha' := Heap.get_modify_self (f:=.goto (.resuming f)) ha
  have hself : f.handle ≠ some a := by
    intro he
    exact absurd ((hT.valid a fa f ha (mem_futures_current hcur)).handle he).1 (Nat.lt_irrefl _)
  refine ⟨hP.modify ha ⟨rfl, rfl, rfl, rfl, rfl⟩ fun g hg => ?_,
    hT.moved hM (fun _ _ _ _ _ hv => hv.goto ha ?_ (goes_refl _)) (goes_own (goes_refl _)),
    ⟨fun j fr g hj hg => ?_, fun j fr hj _ => ?_⟩,
    ⟨fun b hb => ?_, fun b fb hb hnot => ?_, List.pairwise_singleton _ _, ?_, hM.behaviors hS,
      fun b fb hb hst => ?_⟩, nofun⟩
  · rw [hcur] at hg
    cases hg
    rfl
  · rw [hpc]; rfl
  · obtain ⟨fr0, hj0, rfl⟩ := Heap.get_modify_some hj
    refine hheld j fr0 g hj0 ?_
    split at hg <;> exact hg
  · by_cases hja : j = a
    · subst hja
      rw [ha'] at hj
      cases hj
      exact hm.modify hself
    · rw [Heap.get_modify_ne hja] at hj
      refine hM.forth.place (hplace j fr hj hja) (Or.inr (hS.idle_places hj)) hj
        ((Heap.get_modify_ne hja).trans hj) hja (fun _ _ => rfl) fun _ fa' _ hfa' hfin => ?_
      rw [ha'] at hfa'
      cases hfa'
      cases hfin
  · rw [List.mem_singleton.mp hb]
    exact ⟨_, ha', rfl⟩
  · have hba : b ≠ a := fun he => hnot (List.mem_singleton.mpr he)
    rw [Heap.get_modify_ne hba] at hb
    exact hS.idle b fb hb List.not_mem_nil
  · exact hM.forth.rooted hP.linked hroot (fun d hd _ _ _ _ => Nat.ne_of_lt hd)
      ⟨fa, ha, by rw [hpc]; exact nofun⟩
  · obtain ⟨fb0, hb0, rfl⟩ := Heap.get_modify_some hb
    refine hS.stateless b fb0 hb0 ?_
    split at hst <;> exact hst

/-! ## a coroutine ends -/

theorem Moved.finished (ha : F.get a = some fa) (hcur : fa.pc.current = none) :
    Moved F (F.modify a (.goto .finished)) a := by
  refine .modify ha rfl rfl ?_
  show (fa.held ++ []).Subperm (fa.held ++ fa.pc.current.toList)
  rw [hcur]
  exact List.Subperm.refl _

/-- **A coroutine reaches its final suspension.**  Whoever awaits it is next. -/
theorem Inv.finished (h : Inv F C (a :: S) R none) (ha : F.get a = some fa)
    (hpc : fa.pc = .leaving) (hheld : fa.held = [])
    (hC : ∀ t c, C.get t = some c → ∃ c', C'.get t = some c' ∧ c.Goes c')
    (hcont : ∀ t, contOf C' t = contOf C t ∨ fa.state = some t ∧ contOf C' t = none) :
    Pointers (F.modify a (.goto .finished)) ∧ Tokens (F.modify a (.goto .finished)) C' ∧
      Stacked (F.modify a (.goto .finished)) S R ∧
      (∀ j fr f, (F.modify a (.goto .finished)).get j = some fr → f ∈ fr.held →
        contOf C' f.state = none) ∧
      ∀ j fr, (F.modify a (.goto .finished)).get j = some fr → fa.outerPromise ≠ some j →
        AtPlace (F.modify a (.goto .finished)) C' j fr := by
  have hcur : fa.pc.current = none := by rw [hpc]; rfl
  have hM : Moved F (F.modify a (.goto .finished)) a := .finished ha hcur
  have ha' := Heap.get_modify_self (f:=.goto .finished) ha
  have hcurs : ∀ g, fa.pc.current = some g → (fa.goto .finished).pc.current = some g := by
    intro g hg
    rw [hcur] at hg
    cases hg
  refine ⟨h.pointers.modify ha ⟨rfl, rfl, rfl, rfl, rfl⟩ hcurs,
    h.tokens.moved hM (fun _ _ _ _ _ hv => hv.goto ha (by rw [hpc]; rfl) hC) (goes_own hC),
    hM.popped h.pointers.linked h.stacked fun fa' hfa' => ?_, fun j fr f hj hf => ?_,
    fun j fr hj hout => ?_⟩
  · rw [ha'] at hfa'
    cases hfa'
    rfl
  · have hnone : contOf C f.state = none := by
      obtain ⟨fr0, hj0, rfl⟩ := Heap.get_modify_some hj
      refine h.places.held j fr0 f hj0 ?_
      split at hf <;> exact hf
    rcases hcont f.state with he | ⟨-, he⟩
    · exact he.trans hnone
    · exact he
  · by_cases hja : j = a
    · subst hja
      rw [ha'] at hj
      cases hj
      have hplace := h.places.place _ fa ha nofun
      unfold AtPlace at hplace
      rw [hpc] at hplace
      exact ⟨hplace, hheld⟩
    · rw [Heap.get_modify_ne hja] at hj
      have hplace := h.places.place j fr hj nofun
      refine hM.forth.place hplace (h.stacked.others hj hja) hj ((Heap.get_modify_ne hja).trans hj)
        hja (fun f hf => ?_) fun fa0 _ ha0 _ _ ho => ?_
      · -- whoever awaits the state of `a` is named in its outer promise
        rcases hcont f.state with he | ⟨hst, -⟩
        · exact he
        · exfalso
          have hown : f.handle = some a := by
            obtain ⟨c, hc, hm⟩ := h.tokens.own a fa _ ha hst
            obtain ⟨c', hc', -, -, hv⟩ := h.tokens.valid j fr f hj (mem_futures_current hf)
            rw [hc] at hc'
            cases hc'
            cases hv with
            | thread _ hp =>
              rw [hm] at hp
              cases hp
            | coroutine hs hcor =>
              rw [hm] at hcor
              cases hcor
              exact hs
          rcases h.stacked.others hj hja with hp | ⟨g, hp⟩ | hp <;> rw [hp] at hf <;> cases hf
          obtain ⟨fa', hfa', -, ho, -⟩ := h.suspended_on hj hp hown
          rw [ha] at hfa'
          cases hfa'
          exact hout ho
      · rw [ha] at ha0
        cases ha0
        exact hout ho

/-- whose future a running method coroutine makes: the caller's, or that of the one that awaits
it -/
theorem Inv.owner (h : Inv F C (a :: S) R hole) (ha : F.get a = some fa) (hst : fa.state ≠ none) :
    ∃ c fc f, F.get c = some fc ∧ f ∈ fc.futures ∧ f.handle = some a ∧
      (f ∈ fc.held ∨ S = [] ∧ fc.pc = .suspended f ∧ fa.outerPromise = some c ∧ Rooted F R c) := by
  have hcalls := h.stacked.calls
  cases S with
  | cons y rest =>
    obtain ⟨⟨fy, f, hy, -, hf, hfa⟩, -⟩ := hcalls
    exact ⟨y, fy, f, hy, mem_futures_held hf, hfa, Or.inl hf⟩
  | nil =>
    cases hcalls with
    | behavior hR =>
      obtain ⟨fr, hr, hno, -⟩ := h.stacked.behavior a hR
      rw [ha] at hr
      cases hr
      exact absurd hno hst
    | awaited ha' ho hc hpc hf hroot =>
      rw [ha] at ha'
      cases ha'
      exact ⟨_, _, _, hc, mem_futures_current (by rw [hpc]; rfl), hf,
        Or.inr ⟨rfl, hpc, ho, hroot⟩⟩

/-! ## the innermost coroutine -/

/-- the coroutines of the behavior's chain are suspended, up to the behavior -/
theorem Inv.rooted_of_chain (h : Inv F C S R hole) (hw : Awaits F a b) (ha : Rooted F R a) :
    Rooted F R b := by
  induction hw with
  | refl a => exact ha
  | step hfa hpc hf hw ih =>
    obtain ⟨fm, hm, -, ho, -⟩ := h.suspended_on hfa hpc hf
    exact ih (.awaited hm ho hfa hpc hf ha)

/-- **A live behavior**, when nobody runs: it and all of its chain point to the promise-backed state
that the innermost coroutine is registered at. -/
theorem Inv.leaf (h : Inv F C [] R none) (ha : F.get a = some fa) (hn : fa.pc ≠ .finished) :
    ∃ b fb p, Awaits F a b ∧ F.get b = some fb ∧ fb.pc = .suspended ⟨p, none⟩ ∧
      contOf C p = some b ∧ ∀ d fd, Awaits F a d → F.get d = some fd →
        fd.awaitedFlags = some p ∧ fd.awaitedContinuation = some p := by
  obtain ⟨f, hpc⟩ := (h.stacked.idle_places ha).resolve_right hn
  obtain ⟨b, fb, hw, hb, ⟨g, hpb, hg⟩ | hbS⟩ := h.innermost ha hpc
  · obtain ⟨p, o⟩ := g
    obtain rfl : o = none := hg
    obtain ⟨hcont, ht⟩ := h.suspended hb hpb
    refine ⟨b, fb, p, hw, hb, hpb, hcont, fun d fd hd hfd => ?_⟩
    have hflags : fd.awaitedFlags = some p :=
      (h.awaits_flags hd ha hfd).symm.trans ((h.awaits_flags hw ha hb).trans ht)
    exact ⟨hflags, (h.pointers.linked.same d fd hfd).2.2.trans hflags⟩
  · cases hbS

end
end ActorZeta
