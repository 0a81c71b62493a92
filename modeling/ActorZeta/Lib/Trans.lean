import Mathlib.Data.List.Basic

/-!
# Transition systems: runs, reachable states, invariants

A system is a partial function `step : σ → α → Option σ`; an action that is not enabled gives
`none`.  A list of actions is a schedule.

* `run step s as`       the state after the schedule `as`, if every action is enabled in turn;
* `Reach step s t`      some schedule leads from `s` to `t`;
* `visits step s as`    the states of a run, each with the action taken there;
* `restrict ok step`    the system in which an action is also refused when `ok` says so;
* `run_inv`             the invariant rule, `run_inv_of` the same for runs whose steps all meet a
                        condition, `run_history` with the steps taken so far, `run_flag` for a
                        predicate that one kind of step turns on.
-/

namespace TS

section
variable {σ α : Type*} (step : σ → α → Option σ)

/-- the state after the actions `as` -/
def run (s : σ) : List α → Option σ
  | [] => some s
  | a :: as => (step s a).bind fun t => run t as

/-- some schedule leads from `s` to `t` -/
def Reach (s t : σ) : Prop := ∃ as, run step s as = some t

/-- the states of a run, each with the action taken there -/
def visits (s : σ) : List α → List (σ × α)
  | [] => []
  | a :: as => (s, a) :: ((step s a).elim [] fun t => visits t as)

/-- the same system, in which `ok` can refuse an action -/
def restrict (ok : σ → α → Bool) (s : σ) (a : α) : Option σ :=
  if ok s a then step s a else none

variable {step}

theorem run_cons_some {s u : σ} {a : α} {as : List α} :
    run step s (a :: as) = some u ↔ ∃ t, step s a = some t ∧ run step t as = some u := by
  show (step s a).bind (fun t => run step t as) = some u ↔ _
  rw [Option.bind_eq_some_iff]

theorem run_append (s : σ) (as bs : List α) :
    run step s (as ++ bs) = (run step s as).bind fun t => run step t bs := by
  induction as generalizing s with
  | nil => rfl
  | cons a as ih =>
    show (step s a).bind (fun t => run step t (as ++ bs))
      = ((step s a).bind fun t => run step t as).bind fun t => run step t bs
    rw [Option.bind_assoc]
    congr 1
    funext t
    exact ih t

theorem run_snoc {s u : σ} {a : α} {as : List α} :
    run step s (as ++ [a]) = some u ↔ ∃ t, run step s as = some t ∧ step t a = some u := by
  rw [run_append, Option.bind_eq_some_iff]
  constructor
  · rintro ⟨t, ht, h⟩
    obtain ⟨v, hv, hu⟩ := run_cons_some.mp h
    cases hu
    exact ⟨t, ht, hv⟩
  · rintro ⟨t, ht, h⟩
    exact ⟨t, ht, run_cons_some.mpr ⟨u, h, rfl⟩⟩

theorem Reach.refl (s : σ) : Reach step s s := ⟨[], rfl⟩

theorem Reach.tail {s t u : σ} {a : α} (h : Reach step s t) (ht : step t a = some u) :
    Reach step s u := by
  obtain ⟨as, has⟩ := h
  exact ⟨as ++ [a], run_snoc.mpr ⟨t, has, ht⟩⟩

theorem restrict_some {ok : σ → α → Bool} {s t : σ} {a : α} :
    restrict step ok s a = some t ↔ ok s a = true ∧ step s a = some t := by
  unfold restrict
  by_cases h : ok s a = true
  · rw [if_pos h]; exact ⟨fun ht => ⟨h, ht⟩, fun ht => ht.2⟩
  · rw [if_neg h]; exact ⟨fun ht => (nomatch ht), fun ht => absurd ht.1 h⟩

/-- a run of the restricted system is a run -/
theorem run_of_restrict {ok : σ → α → Bool} {s t : σ} {as : List α}
    (h : run (restrict step ok) s as = some t) : run step s as = some t := by
  induction as generalizing s with
  | nil => exact h
  | cons a as ih =>
    obtain ⟨u, hu, hrun⟩ := run_cons_some.mp h
    exact run_cons_some.mpr ⟨u, (restrict_some.mp hu).2, ih hrun⟩

/-- **Invariant rule.** -/
theorem run_inv {I : σ → Prop} (hstep : ∀ s a t, I s → step s a = some t → I t)
    {s t : σ} {as : List α} (h0 : I s) (h : run step s as = some t) : I t := by
  induction as generalizing s with
  | nil => cases h; exact h0
  | cons a as ih =>
    obtain ⟨u, hu, hrun⟩ := run_cons_some.mp h
    exact ih (hstep s a u h0 hu) hrun

theorem Reach.inv {I : σ → Prop} (hstep : ∀ s a t, I s → step s a = some t → I t)
    {s t : σ} (h0 : I s) (h : Reach step s t) : I t := by
  obtain ⟨as, has⟩ := h
  exact run_inv hstep h0 has

theorem visits_cons {s t : σ} {a : α} {as : List α} (h : step s a = some t) :
    visits step s (a :: as) = (s, a) :: visits step t as := by
  show (s, a) :: ((step s a).elim [] fun t => visits step t as) = _
  rw [h]
  rfl

theorem visits_snoc {s t : σ} {as : List α} (h : run step s as = some t) (a : α) :
    visits step s (as ++ [a]) = visits step s as ++ [(t, a)] := by
  induction as generalizing s with
  | nil =>
    cases h
    show (t, a) :: _ = [(t, a)]
    congr 1
    cases step t a <;> rfl
  | cons b as ih =>
    obtain ⟨u, hu, hrun⟩ := run_cons_some.mp h
    rw [List.cons_append, visits_cons hu, visits_cons hu, ih hrun, List.cons_append]

/-- a run up to one of its steps -/
theorem visits_split {s t : σ} {as : List α} (h : run step s as = some t)
    {V W : List (σ × α)} {v : σ × α} (hv : visits step s as = V ++ v :: W) :
    ∃ bs u, run step s bs = some v.1 ∧ visits step s bs = V ∧ step v.1 v.2 = some u := by
  induction as generalizing s V with
  | nil =>
    rw [show visits step s [] = [] from rfl] at hv
    exact absurd hv.symm (List.append_ne_nil_of_right_ne_nil V (List.cons_ne_nil v W))
  | cons a as ih =>
    obtain ⟨u, hu, hrun⟩ := run_cons_some.mp h
    rw [visits_cons hu] at hv
    cases V with
    | nil =>
      obtain ⟨rfl, -⟩ := List.cons.inj hv
      exact ⟨[], u, rfl, rfl, hu⟩
    | cons w V =>
      rw [List.cons_append] at hv
      obtain ⟨rfl, htail⟩ := List.cons.inj hv
      obtain ⟨bs, u', hbs, hvis, hst⟩ := ih hrun htail
      refine ⟨a :: bs, u', run_cons_some.mpr ⟨u, hu, hbs⟩, ?_, hst⟩
      rw [visits_cons hu, hvis]

/-- invariant rule for a run whose steps all meet the condition `C` -/
theorem run_inv_of {I : σ → Prop} {C : σ → α → Prop}
    (hstep : ∀ s a t, I s → C s a → step s a = some t → I t) {s t : σ} {as : List α} (h0 : I s)
    (h : run step s as = some t) (hC : ∀ v ∈ visits step s as, C v.1 v.2) : I t := by
  induction as generalizing s with
  | nil => cases h; exact h0
  | cons a as ih =>
    obtain ⟨u, hu, hrun⟩ := run_cons_some.mp h
    rw [visits_cons hu] at hC
    exact ih (hstep s a u h0 (hC _ (List.mem_cons_self ..)) hu) hrun
      (fun v hv => hC v (List.mem_cons_of_mem _ hv))

/-- **History rule**: an invariant that also looks at the steps taken so far. -/
theorem run_history {J : List (σ × α) → σ → Prop}
    (hstep : ∀ V s a t, J V s → step s a = some t → J (V ++ [(s, a)]) t) {V : List (σ × α)}
    {s t : σ} {as : List α} (h0 : J V s) (h : run step s as = some t) :
    J (V ++ visits step s as) t := by
  induction as generalizing V s with
  | nil =>
    cases h
    rw [show visits step t [] = [] from rfl, List.append_nil]
    exact h0
  | cons a as ih =>
    obtain ⟨u, hu, hrun⟩ := run_cons_some.mp h
    rw [visits_cons hu, List.append_cons]
    exact ih (hstep V s a u h0 hu) hrun

/-- A predicate `B` that exactly the steps in `bad` turn on tells whether a run took such a
step. -/
theorem run_flag {I B : σ → Prop} {bad : σ → α → Prop}
    (hI : ∀ s a t, I s → step s a = some t → I t)
    (hB : ∀ s a t, I s → step s a = some t → (B t ↔ B s ∨ bad s a))
    {s t : σ} {as : List α} (h0 : I s) (h : run step s as = some t) :
    B t ↔ B s ∨ ∃ v ∈ visits step s as, bad v.1 v.2 := by
  induction as generalizing s with
  | nil =>
    cases h
    simp [visits]
  | cons a as ih =>
    obtain ⟨u, hu, hrun⟩ := run_cons_some.mp h
    rw [ih (hI s a u h0 hu) hrun, hB s a u h0 hu, visits_cons hu]
    simp only [List.mem_cons, exists_eq_or_imp, or_assoc]

end

end TS
