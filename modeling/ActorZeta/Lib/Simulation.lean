import ActorZeta.Lib.Trans

/-!
# Forward simulations

One transition system answers the steps of another, each by some of its own or by none.

* `Simulates`        a relation that every step keeps;
* `Simulates.run`    what that means for a whole run.
-/

namespace TS

variable {σ α τ β : Type*} {step : σ → α → Option σ} {act : τ → β → Option τ}
  {R : σ → τ → Prop}

theorem Reach.trans {s t u : σ} (h : Reach step s t) (h' : Reach step t u) : Reach step s u := by
  obtain ⟨as, has⟩ := h
  obtain ⟨bs, hbs⟩ := h'
  refine ⟨as ++ bs, ?_⟩
  rw [run_append, has]
  exact hbs

theorem Reach.single {s t : σ} {a : α} (h : step s a = some t) : Reach step s t :=
  (Reach.refl s).tail h

/-- related states are left related -/
def Simulates (step : σ → α → Option σ) (act : τ → β → Option τ) (R : σ → τ → Prop) : Prop :=
  ∀ s a s' t, R s t → step s a = some s' → ∃ t', Reach act t t' ∧ R s' t'

theorem Simulates.run (h : Simulates step act R) {s s' : σ} {t : τ} {as : List α} (h0 : R s t)
    (hrun : TS.run step s as = some s') : ∃ t', Reach act t t' ∧ R s' t' := by
  refine run_inv (I:=fun u => ∃ t', Reach act t t' ∧ R u t') (fun u a v hu hs => ?_)
    ⟨t, .refl t, h0⟩ hrun
  obtain ⟨t', ht, hR⟩ := hu
  obtain ⟨t'', ht', hR'⟩ := h u a v t' hR hs
  exact ⟨t'', ht.trans ht', hR'⟩

end TS
