import ActorZeta.Coroutine.Frame

/-!
# The pointers of the mixin

* `Pointers`     a promise propagates to the promise of the coroutine that awaits it, and every
                 copy of the pointers agrees with the original;
* `Repointed`    what `update_propagated_outer()` can change: the two pointers of coroutines that
                 await another one;
* `setAwaited_spec`, `Pointers.setAwaited`   the mixin re-establishes the agreement.
-/

namespace ActorZeta

/-- whom a promise propagates to: the coroutine inside `co_await` on it, an older one -/
structure Linked (h : Heap Frame) : Prop where
  same : ∀ b fb, h.get b = some fb → fb.propagatedToFlags = fb.outerPromise ∧
    fb.propagatedToCont = fb.outerPromise ∧ fb.awaitedContinuation = fb.awaitedFlags
  outer : ∀ b fb c, h.get b = some fb → fb.outerPromise = some c → c < b ∧
    ∃ fc f, h.get c = some fc ∧ fc.pc.current = some f ∧ f.handle = some b

/-- the copy that `b` keeps in its outer promise agrees -/
def Copied (h : Heap Frame) (b : Handle) : Prop :=
  ∀ fb c fc, h.get b = some fb → fb.outerPromise = some c → h.get c = some fc →
    fc.awaitedFlags = fb.awaitedFlags

structure Pointers (h : Heap Frame) : Prop where
  linked : Linked h
  copied : ∀ b, Copied h b

/-- only pointers of coroutines older than `a` that await another one have changed -/
structure Repointed (h h' : Heap Frame) (a : Handle) : Prop where
  next : h'.next = h.next
  frames : ∀ j, ∃ p, h'.get j = (h.get j).map (.point p p) ∨ h'.get j = h.get j
  others : ∀ j fr, h.get j = some fr →
    (a ≤ j ∨ ∀ f, fr.pc.current = some f → f.handle = none) → h'.get j = some fr

section
variable {h h' h'' : Heap Frame} {a b c j : Handle} {fr fa fb fc : Frame}

theorem Repointed.refl : Repointed h h a :=
  ⟨rfl, fun _ => ⟨none, Or.inr rfl⟩, fun _ _ hj _ => hj⟩

/-- where a frame of the new heap comes from -/
theorem Repointed.origin (hR : Repointed h h' a) (hg : h'.get j = some fr) :
    ∃ fr0 p q, h.get j = some fr0 ∧ fr = fr0.point p q := by
  obtain ⟨p, hj | hj⟩ := hR.frames j
  · rw [hj] at hg
    obtain ⟨fr0, h0, rfl⟩ := Option.map_eq_some_iff.mp hg
    exact ⟨fr0, p, p, h0, rfl⟩
  · rw [hj] at hg
    exact ⟨fr, fr.awaitedFlags, fr.awaitedContinuation, hg, rfl⟩

/-- and where a frame of the old one goes -/
theorem Repointed.of_some (hR : Repointed h h' a) (hg : h.get j = some fr) :
    ∃ p q, h'.get j = some (fr.point p q) := by
  obtain ⟨p, hj | hj⟩ := hR.frames j
  · exact ⟨p, p, by rw [hj, hg]; rfl⟩
  · exact ⟨fr.awaitedFlags, fr.awaitedContinuation, by rw [hj, hg]; rfl⟩

theorem Repointed.trans (h1 : Repointed h h' a) (h2 : Repointed h' h'' b) (hba : b ≤ a) :
    Repointed h h'' a where
  next := h2.next.trans h1.next
  frames j := by
    obtain ⟨p, hp⟩ := h1.frames j
    obtain ⟨q, hq | hq⟩ := h2.frames j
    · refine ⟨q, Or.inl ?_⟩
      rcases hp with hp | hp
      · rw [hq, hp, Option.map_map]
        rfl
      · rw [hq, hp]
    · exact ⟨p, hp.imp hq.trans hq.trans⟩
  others j fr hj ho := by
    refine h2.others j fr (h1.others j fr hj ho) (ho.imp_left fun hle => Nat.le_trans hba hle)

/-- the links do not depend on the pointers to the awaited state -/
theorem Linked.repointed (hL : Linked h) (hR : Repointed h h' a) : Linked h' where
  same b fb hb := by
    obtain ⟨p, hj | hj⟩ := hR.frames b
    · rw [hj] at hb
      obtain ⟨fr0, h0, rfl⟩ := Option.map_eq_some_iff.mp hb
      obtain ⟨h1, h2, -⟩ := hL.same b fr0 h0
      exact ⟨h1, h2, rfl⟩
    · exact hL.same b fb (hj ▸ hb)
  outer b fb c hb hc := by
    obtain ⟨fb0, p, q, hb0, rfl⟩ := hR.origin hb
    obtain ⟨hlt, fc, f, hc0, hf, hh⟩ := hL.outer b fb0 c hb0 hc
    obtain ⟨p', q', hc'⟩ := hR.of_some hc0
    exact ⟨hlt, _, f, hc', hf, hh⟩

/-- two promises do not propagate to one -/
theorem Linked.inj (hL : Linked h) (ha : h.get a = some fa) (hb : h.get b = some fb)
    (hac : fa.outerPromise = some c) (hbc : fb.outerPromise = some c) : a = b := by
  obtain ⟨-, fc, f, hc, hf, hh⟩ := hL.outer a fa c ha hac
  obtain ⟨-, fc', f', hc', hf', hh'⟩ := hL.outer b fb c hb hbc
  rw [hc] at hc'
  cases hc'
  rw [hf] at hf'
  cases hf'
  rw [hh] at hh'
  exact Option.some.inj hh'

theorem writeOuter_none (hL : Linked h) (ha : h.get a = some fa) (ho : fa.outerPromise = none) :
    fa.writeOuter h = h := by
  obtain ⟨h1, h2, -⟩ := hL.same a fa ha
  rw [ho] at h1 h2
  simp only [Frame.writeOuter, h1, h2]

/-- the outer promise gets a copy -/
theorem writeOuter_get (hL : Linked h) (ha : h.get a = some fa) (ho : fa.outerPromise = some c) :
    (fa.writeOuter h).get j = if j = c then (h.get j).map (.point fa.awaitedFlags fa.awaitedFlags)
      else h.get j := by
  obtain ⟨h1, h2, h3⟩ := hL.same a fa ha
  rw [ho] at h1 h2
  simp only [Frame.writeOuter, h1, h2]
  by_cases hj : j = c
  · subst hj
    rw [if_pos rfl]
    show (if j = j then (if j = j then (h.get j).map _ else h.get j).map _ else _) = _
    rw [if_pos rfl, if_pos rfl, Option.map_map, h3]
    rfl
  · rw [if_neg hj, Heap.get_modify_ne hj, Heap.get_modify_ne hj]

theorem writeOuter_repointed (hL : Linked h) (ha : h.get a = some fa)
    (ho : fa.outerPromise = some c) : Repointed h (fa.writeOuter h) a where
  next := by
    obtain ⟨h1, h2, -⟩ := hL.same a fa ha
    rw [ho] at h1 h2
    simp only [Frame.writeOuter, h1, h2, Heap.next_modify]
  frames j := by
    refine ⟨fa.awaitedFlags, ?_⟩
    rw [writeOuter_get hL ha ho]
    split
    · exact Or.inl rfl
    · exact Or.inr rfl
  others j fr hj hout := by
    obtain ⟨hlt, fc, f, hc, hf, hh⟩ := hL.outer a fa c ha ho
    rw [writeOuter_get hL ha ho, if_neg, hj]
    rintro rfl
    rcases hout with hle | hnone
    · exact absurd hlt (Nat.not_lt_of_le hle)
    · rw [hc] at hj
      cases hj
      rw [hnone f hf] at hh
      cases hh

/-- **`update_propagated_outer()`**: if every copy but the one in `a`'s outer promise agrees, all of
them do afterwards. -/
theorem updatePropagatedOuter_spec {n : Nat} (hn : a < n) (hL : Linked h)
    (hC : ∀ b, b ≠ a → Copied h b) :
    Repointed h (updatePropagatedOuter n h a) a ∧
      ∀ b, Copied (updatePropagatedOuter n h a) b := by
  induction n generalizing h a with
  | zero => exact absurd hn (Nat.not_lt_zero _)
  | succ n ih =>
    have hend : (∀ fa, h.get a = some fa → fa.outerPromise = none) → ∀ b, Copied h b := by
      intro hno b
      by_cases hb : b = a
      · subst hb
        intro fb c fc hfb hc
        rw [hno fb hfb] at hc
        cases hc
      · exact hC b hb
    simp only [updatePropagatedOuter]
    split
    · rename_i hnone
      exact ⟨.refl, hend fun fa ha => by rw [hnone] at ha; cases ha⟩
    · rename_i fa ha
      split
      · rename_i c ho
        obtain ⟨hlt, fc, f, hc, hf, hh⟩ := hL.outer a fa c ha ho
        have hR := writeOuter_repointed hL ha ho
        have hL' := hL.repointed hR
        -- now the copy in the outer promise of `c` is the only one that may be stale
        have hC' : ∀ b, b ≠ c → Copied (fa.writeOuter h) b := by
          intro b hb fb d fd hfb hd hfd
          rw [writeOuter_get hL ha ho, if_neg hb] at hfb
          rw [writeOuter_get hL ha ho] at hfd
          split at hfd
          · rename_i hdc
            subst hdc
            obtain rfl := hL.inj ha hfb ho hd
            rw [ha] at hfb
            cases hfb
            obtain ⟨fd0, -, rfl⟩ := Option.map_eq_some_iff.mp hfd
            rfl
          · rename_i hdc
            refine hC b ?_ fb d fd hfb hd hfd
            rintro rfl
            rw [ha] at hfb
            cases hfb
            rw [ho] at hd
            exact hdc (Option.some.inj hd).symm
        obtain ⟨hR', hall⟩ := ih (Nat.lt_of_lt_of_le hlt (Nat.le_of_lt_succ hn)) hL' hC'
        exact ⟨hR.trans hR' (Nat.le_of_lt hlt), hall⟩
      · rename_i ho
        rw [writeOuter_none hL ha ho]
        exact ⟨.refl, hend fun fa' ha' => by rw [ha] at ha'; cases ha'; exact ho⟩

/-- **A promise sets its pointers**, to what the inner one has if there is one: all copies agree
afterwards, and nothing but copies has changed elsewhere. -/
theorem setAwaited_spec {p : Option Address} (hL : Linked h) (ha : h.get a = some fa)
    (hin : ∀ b fb, h.get b = some fb → fb.outerPromise = some a → fb.awaitedFlags = p)
    (hC : ∀ b fb, h.get b = some fb → b ≠ a → fb.outerPromise ≠ some a → Copied h b) :
    Pointers (setAwaited h a p p) ∧ (setAwaited h a p p).get a = some (fa.point p p) ∧
      Repointed (h.modify a (.point p p)) (setAwaited h a p p) a := by
  have hL0 : Linked (h.modify a (.point p p)) := by
    refine ⟨fun b fb hb => ?_, fun b fb c hb hc => ?_⟩
    · obtain ⟨fb0, hb0, rfl⟩ := Heap.get_modify_some hb
      obtain ⟨h1, h2, h3⟩ := hL.same b fb0 hb0
      split
      · exact ⟨h1, h2, rfl⟩
      · exact ⟨h1, h2, h3⟩
    · obtain ⟨fb0, hb0, rfl⟩ := Heap.get_modify_some hb
      have hc0 : fb0.outerPromise = some c := by
        split at hc <;> exact hc
      obtain ⟨hlt, fc, f, hc1, hf, hh⟩ := hL.outer b fb0 c hb0 hc0
      by_cases hca : c = a
      · subst hca
        exact ⟨hlt, _, f, Heap.get_modify_self hc1, hf, hh⟩
      · exact ⟨hlt, fc, f, (Heap.get_modify_ne hca).trans hc1, hf, hh⟩
  have hC0 : ∀ b, b ≠ a → Copied (h.modify a (.point p p)) b := by
    intro b hb fb c fc hfb hc hfc
    rw [Heap.get_modify_ne hb] at hfb
    by_cases hca : c = a
    · subst hca
      rw [Heap.get_modify_self ha] at hfc
      cases hfc
      exact (hin b fb hfb hc).symm
    · rw [Heap.get_modify_ne hca] at hfc
      refine hC b fb hfb hb (fun hba => hca ?_) fb c fc hfb hc hfc
      rw [hc] at hba
      exact Option.some.inj hba
  obtain ⟨hR, hall⟩ := updatePropagatedOuter_spec (Heap.lt_next ha) hL0 hC0
  refine ⟨⟨hL0.repointed hR, hall⟩, ?_, hR⟩
  exact hR.others a _ (Heap.get_modify_self ha) (Or.inl (Nat.le_refl _))

/-- **Linking**: the inner promise learns that it propagates to `a`, and `a` takes its pointer. -/
theorem link_spec {p : Option Address} {f : Future} (hP : Pointers h) (ha : h.get a = some fa)
    (hb : h.get b = some fb) (hf : fa.pc.current = some f) (hfb : f.handle = some b)
    (hlt : a < b) (hp : fb.awaitedFlags = p) :
    Pointers (setAwaited (h.modify b (.linkTo a)) a p p) ∧
      (setAwaited (h.modify b (.linkTo a)) a p p).get a = some (fa.point p p) ∧
      Repointed ((h.modify b (.linkTo a)).modify a (.point p p))
        (setAwaited (h.modify b (.linkTo a)) a p p) a := by
  have hab : a ≠ b := Nat.ne_of_lt hlt
  have ha' : (h.modify b (.linkTo a)).get a = some fa := (Heap.get_modify_ne hab).trans ha
  have hL : Linked (h.modify b (.linkTo a)) := by
    refine ⟨fun d fd hd => ?_, fun d fd c hd hc => ?_⟩
    · obtain ⟨fd0, hd0, rfl⟩ := Heap.get_modify_some hd
      obtain ⟨h1, h2, h3⟩ := hP.linked.same d fd0 hd0
      split
      · exact ⟨rfl, rfl, h3⟩
      · exact ⟨h1, h2, h3⟩
    · obtain ⟨fd0, hd0, rfl⟩ := Heap.get_modify_some hd
      by_cases hdb : d = b
      · subst hdb
        rw [if_pos rfl] at hc
        cases hc
        exact ⟨hlt, fa, f, ha', hf, hfb⟩
      · rw [if_neg hdb] at hc
        obtain ⟨hlt', fc, g, hfc, hg, hgd⟩ := hP.linked.outer d fd0 c hd0 hc
        by_cases hcb : c = b
        · subst hcb
          exact ⟨hlt', _, g, Heap.get_modify_self hfc, hg, hgd⟩
        · exact ⟨hlt', fc, g, (Heap.get_modify_ne hcb).trans hfc, hg, hgd⟩
  refine setAwaited_spec hL ha' (fun d fd hd hda => ?_) fun d fd hd hda hout => ?_
  · -- whoever propagates to `a` is the inner coroutine
    obtain ⟨-, fa', g, ha'', hg, hgd⟩ := hL.outer d fd a hd hda
    rw [ha'] at ha''
    cases ha''
    rw [hf] at hg
    cases hg
    rw [hfb] at hgd
    cases hgd
    rw [Heap.get_modify_self hb] at hd
    cases hd
    exact hp
  · intro fd' c fc hd' hc hfc
    rw [hd] at hd'
    cases hd'
    obtain ⟨fd0, hd0, rfl⟩ := Heap.get_modify_some hd
    obtain ⟨fc0, hc0, rfl⟩ := Heap.get_modify_some hfc
    have hdb : d ≠ b := by
      rintro rfl
      rw [if_pos rfl] at hout
      exact hout rfl
    rw [if_neg hdb] at hc ⊢
    have hcopy := hP.copied d fd0 c fc0 hd0 hc hc0
    split <;> exact hcopy

end
end ActorZeta
