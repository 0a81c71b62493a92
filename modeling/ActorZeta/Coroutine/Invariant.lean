import ActorZeta.Coroutine.Links
import ActorZeta.Coroutine.Machine

/-!
# Frames, futures and the native stack

The invariant of the coroutines of an actor, and what it says about the chain below a suspended
one.

* `Tokens`     a future has one owner, its state is allocated, and its maker is known;
* `Places`     what a coroutine has registered and copied, by its place;
* `Stacked`    who runs: each coroutine of the native stack was started by the one below, and the
               lowest is the innermost of the behavior's chain;
* `Inv`        the four together (with `Pointers`), up to one coroutine in the middle of a step;
* `innermost`  below a suspended coroutine: one that awaits a promise-backed state, or one that
               runs.
-/

namespace ActorZeta
open StateFlags

namespace Place

/-- on the native stack -/
def active : Place → Bool
  | .suspended _ | .finished => false
  | _ => true

/-- it has set its outcome -/
def returned : Place → Bool
  | .leaving | .finished => true
  | _ => false

end Place

/-- it neither takes the continuation, nor releases the future, nor has decided to deallocate -/
def Producer.spares {T X : Type} : Producer T X → Bool
  | .claiming | .relDealloc | .finDealloc => false
  | .relOr bits => !bits.has futureReleased
  | _ => true

section
variable {T X : Type}

/-- the state of a method coroutine is empty until the coroutine returns -/
def Cell.Made (fb : Frame) (c : Cell T X) : Prop :=
  if fb.pc.returned then c.mem.st.hasResult = true else c.mem.st.flags = empty

/-- who makes the result of a future that `a` owns -/
inductive MadeBy (F : Heap Frame) (a : Handle) (f : Future) (c : Cell T X) : Prop
  | thread {p : Producer T X} : f.handle = none → c.maker = .thread p → p.spares = true →
      MadeBy F a f c
  | coroutine {b : Handle} {fb : Frame} : f.handle = some b → c.maker = .coroutine b → a < b →
      F.get b = some fb → fb.state = some f.state → c.Made fb → MadeBy F a f c

/-- a future that `a` owns -/
def Valid (F : Heap Frame) (C : Heap (Cell T X)) (a : Handle) (f : Future) : Prop :=
  ∃ c, C.get f.state = some c ∧ c.mem.alive = true ∧
    c.mem.st.flags.has futureReleased = false ∧ MadeBy F a f c

structure Tokens (F : Heap Frame) (C : Heap (Cell T X)) : Prop where
  nodup : ∀ a fa, F.get a = some fa → (fa.futures.map Future.state).Nodup
  unique : ∀ a fa f b fb g, F.get a = some fa → F.get b = some fb → f ∈ fa.futures →
    g ∈ fb.futures → f.state = g.state → a = b
  valid : ∀ a fa f, F.get a = some fa → f ∈ fa.futures → Valid F C a f
  own : ∀ a fa s, F.get a = some fa → fa.state = some s →
    ∃ c, C.get s = some c ∧ c.maker = .coroutine a

/-- the coroutine registered at a state -/
def contOf (C : Heap (Cell T X)) (s : Address) : Option Handle :=
  (C.get s).bind fun c => c.mem.st.continuation

def hasResultAt (C : Heap (Cell T X)) (s : Address) : Prop :=
  ∃ c, C.get s = some c ∧ c.mem.st.hasResult = true

/-- what `a` must have copied while it awaits `f` -/
def Target (F : Heap Frame) (a : Handle) (fa : Frame) (f : Future) : Prop :=
  match f.handle with
  | none => fa.awaitedFlags = some f.state
  | some b => ∃ fb, F.get b = some fb ∧ fb.pc ≠ .finished ∧ fb.outerPromise = some a

/-- the coroutine that made the result has returned -/
def Made (F : Heap Frame) (f : Future) : Prop :=
  ∀ b, f.handle = some b → ∃ fb, F.get b = some fb ∧ fb.pc = .finished

def AtPlace (F : Heap Frame) (C : Heap (Cell T X)) (a : Handle) (fa : Frame) : Prop :=
  match fa.pc with
  | .running | .leaving => fa.awaitedFlags = none
  | .finished => fa.awaitedFlags = none ∧ fa.held = []
  | .awaiting f => contOf C f.state = none ∧
      (fa.awaitedFlags = none ∧ hasResultAt C f.state ∨ Target F a fa f)
  | .suspending f => contOf C f.state = none ∧ Target F a fa f
  | .rechecking f | .suspended f => contOf C f.state = some a ∧ Target F a fa f
  | .resuming f => Made F f
  | .extracting f | .dropping f => fa.awaitedFlags = none ∧ Made F f

structure Places (F : Heap Frame) (C : Heap (Cell T X)) (hole : Option Handle) : Prop where
  held : ∀ a fa f, F.get a = some fa → f ∈ fa.held → contOf C f.state = none
  place : ∀ a fa, F.get a = some fa → some a ≠ hole → AtPlace F C a fa

end

/-- the coroutines outside of `a` are suspended, up to the behavior -/
inductive Rooted (F : Heap Frame) (R : Option Handle) : Handle → Prop
  | behavior {a : Handle} : R = some a → Rooted F R a
  | awaited {a c : Handle} {fa fc : Frame} {f : Future} : F.get a = some fa →
      fa.outerPromise = some c → F.get c = some fc → fc.pc = .suspended f → f.handle = some a →
      Rooted F R c → Rooted F R a

/-- who runs, from the top of the native stack -/
def Calls (F : Heap Frame) (R : Option Handle) : List Handle → Prop
  | [] => True
  | [a] => Rooted F R a
  | x :: y :: rest => (∃ fy f, F.get y = some fy ∧ fy.pc = .running ∧ f ∈ fy.held ∧
      f.handle = some x) ∧ Calls F R (y :: rest)

structure Stacked (F : Heap Frame) (S : List Handle) (R : Option Handle) : Prop where
  active : ∀ a ∈ S, ∃ fa, F.get a = some fa ∧ fa.pc.active = true
  idle : ∀ a fa, F.get a = some fa → a ∉ S → fa.pc.active = false
  sorted : S.Pairwise fun x y => y < x
  calls : Calls F R S
  behavior : ∀ r, R = some r → ∃ fr, F.get r = some fr ∧ fr.state = none ∧ fr.outerPromise = none
  stateless : ∀ b fb, F.get b = some fb → fb.state = none → R = some b

/-- the invariant, but for the place of `hole` -/
structure Inv {T X : Type} (F : Heap Frame) (C : Heap (Cell T X)) (S : List Handle)
    (R : Option Handle) (hole : Option Handle) : Prop where
  pointers : Pointers F
  tokens : Tokens F C
  places : Places F C hole
  stacked : Stacked F S R
  hole : ∀ x, hole = some x → x ∈ S

/-- a chain of coroutines, each suspended on the next -/
inductive Awaits (F : Heap Frame) : Handle → Handle → Prop
  | refl (a : Handle) : Awaits F a a
  | step {a b c : Handle} {fa : Frame} {f : Future} : F.get a = some fa → fa.pc = .suspended f →
      f.handle = some b → Awaits F b c → Awaits F a c

section
variable {T X : Type} {F : Heap Frame} {C : Heap (Cell T X)} {S : List Handle}
  {R hole : Option Handle} {a b c : Handle} {fa fb fc : Frame} {f g : Future}

theorem Valid.handle (h : Valid F C a f) (hb : f.handle = some b) :
    a < b ∧ ∃ fb, F.get b = some fb ∧ fb.state = some f.state := by
  obtain ⟨c, -, -, -, ⟨hn, -, -⟩ | ⟨hs, -, hlt, hfb, hst, -⟩⟩ := h
  · rw [hb] at hn
    cases hn
  · rw [hb] at hs
    cases hs
    exact ⟨hlt, _, hfb, hst⟩

theorem mem_futures_held (h : f ∈ fa.held) : f ∈ fa.futures := List.mem_append_left _ h

theorem mem_futures_current (h : fa.pc.current = some f) : f ∈ fa.futures :=
  List.mem_append_right _ (by rw [h]; exact List.mem_cons_self)

/-- a frame holds a future once -/
theorem Tokens.held_ne_current (hT : Tokens F C) (ha : F.get a = some fa) (hf : f ∈ fa.held)
    (hg : fa.pc.current = some g) : f.state ≠ g.state := by
  have hn := hT.nodup a fa ha
  rw [Frame.futures, hg, List.map_append] at hn
  exact (List.nodup_append.mp hn).2.2 _ (List.mem_map_of_mem hf) _ List.mem_cons_self

/-- nobody awaits a future that is still held -/
theorem Inv.outer_of_held (h : Inv F C S R hole) (ha : F.get a = some fa) (hf : f ∈ fa.held)
    (hb : f.handle = some b) (hfb : F.get b = some fb) : fb.outerPromise = none := by
  cases ho : fb.outerPromise with
  | none => rfl
  | some c =>
    obtain ⟨-, fc, g, hc, hg, hgb⟩ := h.pointers.linked.outer b fb c hfb ho
    have hstate : ∀ {a fa f}, F.get a = some fa → f ∈ fa.futures → f.handle = some b →
        fb.state = some f.state := by
      intro a fa f ha hf hfh
      obtain ⟨-, fb', hfb', hst⟩ := (h.tokens.valid a fa f ha hf).handle hfh
      rw [hfb] at hfb'
      cases hfb'
      exact hst
    have hs : f.state = g.state := Option.some.inj
      ((hstate ha (mem_futures_held hf) hb).symm.trans (hstate hc (mem_futures_current hg) hgb))
    obtain rfl := h.tokens.unique a fa f c fc g ha hc (mem_futures_held hf)
      (mem_futures_current hg) hs
    rw [ha] at hc
    cases hc
    exact absurd hs (h.tokens.held_ne_current ha hf hg)

/-- a suspended coroutine is not the one in the middle of a step -/
theorem Inv.suspended (h : Inv F C S R hole) (ha : F.get a = some fa) (hpc : fa.pc = .suspended f) :
    contOf C f.state = some a ∧ Target F a fa f := by
  have hplace := h.places.place a fa ha fun hh => by
    obtain ⟨fa', ha', hact⟩ := h.stacked.active a (h.hole a hh.symm)
    rw [ha] at ha'
    cases ha'
    rw [hpc] at hact
    cases hact
  unfold AtPlace at hplace
  rw [hpc] at hplace
  exact hplace

/-- whom a suspended coroutine awaits, if a coroutine makes the result -/
theorem Inv.suspended_on (h : Inv F C S R hole) (ha : F.get a = some fa)
    (hpc : fa.pc = .suspended f) (hf : f.handle = some b) :
    ∃ fb, F.get b = some fb ∧ fb.pc ≠ .finished ∧ fb.outerPromise = some a ∧ a < b := by
  obtain ⟨-, ht⟩ := h.suspended ha hpc
  unfold Target at ht
  rw [hf] at ht
  obtain ⟨fb, hb, hn, ho⟩ := ht
  exact ⟨fb, hb, hn, ho, (h.pointers.linked.outer b fb a hb ho).1⟩

/-- the coroutines of a chain carry the same pointer -/
theorem Inv.awaits_flags (h : Inv F C S R hole) (hw : Awaits F a b) (ha : F.get a = some fa)
    (hb : F.get b = some fb) : fa.awaitedFlags = fb.awaitedFlags := by
  induction hw generalizing fa with
  | refl a =>
    rw [ha] at hb
    cases hb
    rfl
  | step ha' hpc hf hw ih =>
    rw [ha] at ha'
    cases ha'
    obtain ⟨fm, hm, -, ho, -⟩ := h.suspended_on ha hpc hf
    exact (h.pointers.copied _ fm _ _ hm ho ha).trans (ih hm hb)

/-- the end of a chain is awaited by somebody -/
theorem Inv.awaits_outer (h : Inv F C S R hole) (hw : Awaits F a b) (hb : F.get b = some fb) :
    a = b ∨ fb.outerPromise ≠ none := by
  induction hw with
  | refl a => exact Or.inl rfl
  | step ha hpc hf hw ih =>
    obtain ⟨fm, hm, -, ho, -⟩ := h.suspended_on ha hpc hf
    rcases ih hb with rfl | hne
    · rw [hb] at hm
      cases hm
      exact Or.inr (by rw [ho]; exact nofun)
    · exact Or.inr hne

/-- below a suspended coroutine: one that awaits a promise-backed state, or one that runs -/
theorem Inv.innermost (h : Inv F C S R hole) (ha : F.get a = some fa)
    (hpc : fa.pc = .suspended f) : ∃ b fb, Awaits F a b ∧ F.get b = some fb ∧
      ((∃ g, fb.pc = .suspended g ∧ g.handle = none) ∨ b ∈ S) := by
  -- handles grow inwards
  induction hn : F.next - a using Nat.strongRecOn generalizing a fa f with
  | ind n ih =>
    cases hf : f.handle with
    | none => exact ⟨a, fa, .refl a, ha, Or.inl ⟨f, hpc, hf⟩⟩
    | some b =>
      obtain ⟨fb, hb, hnf, -, hlt⟩ := h.suspended_on ha hpc hf
      by_cases hbS : b ∈ S
      · exact ⟨b, fb, .step ha hpc hf (.refl b), hb, Or.inr hbS⟩
      · have hidle := h.stacked.idle b fb hb hbS
        cases hpb : fb.pc with
        | suspended g =>
          have hlt' : F.next - b < n := hn ▸ Nat.sub_lt_sub_left (Heap.lt_next ha) hlt
          obtain ⟨d, fd, hw, hd, hcase⟩ := ih _ hlt' hb hpb rfl
          exact ⟨d, fd, .step ha hpc hf hw, hd, hcase⟩
        | finished => exact absurd hpb hnf
        | _ => rw [hpb] at hidle; cases hidle

/-- who awaits a coroutine of the behavior's chain is one -/
theorem Inv.rooted_of_awaits (h : Inv F C S R hole) (hw : Awaits F a b) (hb : Rooted F R b) :
    Rooted F R a := by
  induction hw with
  | refl a => exact hb
  | step ha hpc hf hw ih =>
    obtain ⟨fm, hm, -, ho, -⟩ := h.suspended_on ha hpc hf
    cases ih hb with
    | behavior hR =>
      obtain ⟨fr, hr, -, hno⟩ := h.stacked.behavior _ hR
      rw [hm] at hr
      cases hr
      rw [ho] at hno
      cases hno
    | awaited hm' ho' hc hpc' hfc hroot =>
      rw [hm] at hm'
      cases hm'
      rw [ho] at ho'
      cases ho'
      exact hroot

/-- the lowest coroutine of the native stack is in the behavior's chain, the others are awaited by
nobody -/
theorem Inv.rooted_or_held (h : Inv F C S R hole) (hb : b ∈ S) (hfb : F.get b = some fb) :
    Rooted F R b ∨ fb.outerPromise = none := by
  have hcalls := h.stacked.calls
  generalize S = S at hb hcalls
  induction S with
  | nil => cases hb
  | cons x S ih =>
    cases S with
    | nil =>
      rw [List.mem_singleton.mp hb]
      exact Or.inl hcalls
    | cons y rest =>
      obtain ⟨⟨fy, f, hy, -, hf, hx⟩, hcalls⟩ := hcalls
      rcases List.mem_cons.mp hb with rfl | hb
      · exact Or.inr (h.outer_of_held hy hf hx hfb)
      · exact ih hb hcalls

/-- a coroutine that is held and suspended awaits a promise-backed state, at some depth -/
theorem Inv.innermost_of_held (h : Inv F C S R hole) (ha : F.get a = some fa) (hf : f ∈ fa.held)
    (hb : f.handle = some b) (hfb : F.get b = some fb) (hpc : fb.pc = .suspended g) :
    ∃ p, fb.awaitedFlags = some p := by
  obtain ⟨d, fd, hw, hd, ⟨g', hpd, hg'⟩ | hdS⟩ := h.innermost hfb hpc
  · obtain ⟨-, ht⟩ := h.suspended hd hpd
    unfold Target at ht
    rw [hg'] at ht
    exact ⟨g'.state, (h.awaits_flags hw hfb hd).trans ht⟩
  · -- a running coroutine below it would make it part of the behavior's chain
    exfalso
    have hnone := h.outer_of_held ha hf hb hfb
    have hroot : Rooted F R b := by
      rcases h.rooted_or_held hdS hd with hroot | hno
      · exact h.rooted_of_awaits hw hroot
      · rcases h.awaits_outer hw hd with rfl | hne
        · obtain ⟨fb', hfb', hact⟩ := h.stacked.active _ hdS
          rw [hfb] at hfb'
          cases hfb'
          rw [hpc] at hact
          cases hact
        · exact absurd hno hne
    cases hroot with
    | behavior hR =>
      obtain ⟨-, fb', hfb', hst⟩ := (h.tokens.valid a fa f ha (mem_futures_held hf)).handle hb
      obtain ⟨fr, hr, hno, -⟩ := h.stacked.behavior _ hR
      rw [hfb] at hfb' hr
      cases hfb'
      cases hr
      rw [hno] at hst
      cases hst
    | awaited hfb' ho hc hpc' hfc hroot =>
      rw [hfb] at hfb'
      cases hfb'
      rw [hnone] at ho
      cases ho

end
end ActorZeta
