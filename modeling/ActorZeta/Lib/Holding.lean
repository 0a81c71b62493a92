import Mathlib.Logic.Function.Basic

/-!
# Things that are held, each by one

Some places hold a thing each, others hold nothing, and a predicate tells which things are held.

* `Holding H P`        every thing that satisfies `P` is in exactly one place, and no other thing is
                       in any;
* `Holding.congr`      the same places and the same things;
* `Holding.take`, `Holding.drop`, `Holding.move`   a new thing, a thing that is given up, and a
                       thing that goes from one place to another.
-/

/-- `H a` is what the place `a` holds -/
structure Holding {α β : Type*} (H : α → Option β) (P : β → Prop) : Prop where
  valid : ∀ {a : α} {b : β}, H a = some b → P b
  one : ∀ {a a' : α} {b : β}, H a = some b → H a' = some b → a = a'
  holder : ∀ {b : β}, P b → ∃ a, H a = some b

namespace Holding
variable {α β : Type*} {H H' : α → Option β} {P P' : β → Prop} {a a' : α} {b : β}

theorem nothing : Holding (fun _ : α => (none : Option β)) fun _ => False :=
  ⟨nofun, nofun, False.elim⟩

theorem congr (h : Holding H P) (hH : ∀ a, H' a = H a) (hP : ∀ b, P' b ↔ P b) :
    Holding H' P' := by
  obtain rfl : H' = H := funext hH
  obtain rfl : P' = P := funext fun b => propext (hP b)
  exact h

variable [DecidableEq α]

/-- an empty place gets a new thing -/
theorem take (h : Holding H P) (ha : H a = none) (hb : ¬ P b)
    (hH : H' = Function.update H a (some b)) (hP : ∀ b', P' b' ↔ P b' ∨ b' = b) :
    Holding H' P' := by
  subst hH
  have hother : ∀ {a' : α} {b' : β}, Function.update H a (some b) a' = some b' →
      (a' = a ∧ b' = b) ∨ (a' ≠ a ∧ H a' = some b') := by
    intro a' b' hu
    by_cases he : a' = a
    · subst he
      rw [Function.update_self] at hu
      exact Or.inl ⟨rfl, (Option.some.inj hu).symm⟩
    · rw [Function.update_of_ne he] at hu
      exact Or.inr ⟨he, hu⟩
  refine ⟨fun {a' b'} hu => ?_, fun {a₁ a₂ b'} h₁ h₂ => ?_, fun {b'} hp => ?_⟩
  · rcases hother hu with ⟨-, rfl⟩ | ⟨-, hu⟩
    · exact (hP _).mpr (Or.inr rfl)
    · exact (hP _).mpr (Or.inl (h.valid hu))
  · rcases hother h₁ with ⟨e₁, rfl⟩ | ⟨-, k₁⟩
    · rcases hother h₂ with ⟨e₂, -⟩ | ⟨-, k₂⟩
      · exact e₁.trans e₂.symm
      · exact absurd (h.valid k₂) hb
    · rcases hother h₂ with ⟨-, rfl⟩ | ⟨-, k₂⟩
      · exact absurd (h.valid k₁) hb
      · exact h.one k₁ k₂
  · rcases (hP _).mp hp with hp | rfl
    · obtain ⟨a', ha'⟩ := h.holder hp
      refine ⟨a', ?_⟩
      rw [Function.update_of_ne]
      · exact ha'
      · rintro rfl
        rw [ha] at ha'
        cases ha'
    · exact ⟨a, Function.update_self ..⟩

/-- a place gives up what it holds -/
theorem drop (h : Holding H P) (ha : H a = some b) (hH : H' = Function.update H a none)
    (hP : ∀ b', P' b' ↔ P b' ∧ b' ≠ b) : Holding H' P' := by
  subst hH
  have hother : ∀ {a' : α} {b' : β}, Function.update H a none a' = some b' →
      a' ≠ a ∧ H a' = some b' := by
    intro a' b' hu
    by_cases he : a' = a
    · subst he
      rw [Function.update_self] at hu
      cases hu
    · rw [Function.update_of_ne he] at hu
      exact ⟨he, hu⟩
  refine ⟨fun {a' b'} hu => ?_, fun {a₁ a₂ b'} h₁ h₂ => ?_, fun {b'} hp => ?_⟩
  · obtain ⟨hne, hu⟩ := hother hu
    refine (hP _).mpr ⟨h.valid hu, ?_⟩
    rintro rfl
    exact hne (h.one hu ha)
  · exact h.one (hother h₁).2 (hother h₂).2
  · obtain ⟨hp, hne⟩ := (hP _).mp hp
    obtain ⟨a', ha'⟩ := h.holder hp
    refine ⟨a', ?_⟩
    rw [Function.update_of_ne]
    · exact ha'
    · rintro rfl
      rw [ha] at ha'
      exact hne (Option.some.inj ha').symm

/-- what `a` holds, if anything, goes to the empty place `a'` -/
theorem move (h : Holding H P) (ha' : H a' = none)
    (hH : H' = Function.update (Function.update H a none) a' (H a)) (hne : a ≠ a') :
    Holding H' P := by
  cases hb : H a with
  | none =>
    have hself : Function.update H a none = H := by rw [← hb, Function.update_eq_self]
    rw [hself, hb, ← ha', Function.update_eq_self] at hH
    exact h.congr (fun c => congrFun hH c) fun _ => Iff.rfl
  | some b =>
    have hd : Holding (Function.update H a none) fun b' => P b' ∧ b' ≠ b :=
      h.drop hb rfl fun _ => Iff.rfl
    refine hd.take (a := a') (b := b) ?_ (fun hp => hp.2 rfl) (hb ▸ hH) fun b' => ?_
    · rw [Function.update_of_ne hne.symm]
      exact ha'
    · refine ⟨fun hp => ?_, ?_⟩
      · by_cases he : b' = b
        · exact Or.inr he
        · exact Or.inl ⟨hp, he⟩
      · rintro (hp | rfl)
        · exact hp.1
        · exact h.valid hb

end Holding
