import ActorZeta.Lib.Trans
import Mathlib.Data.List.Count

/-!
# Pools of threads over a shared state

`Conf σ τ` is a shared state with any number of threads; a thread is its local state `t : τ`.
One action starts a thread (`spawn`, which may change the shared state or be refused) or lets one
thread take one step (`step i c`, where `c` settles whatever the step leaves open).

* `Conf.step`           the interleaving semantics;
* `Conf.step_spawn`, `Conf.step_set`, `Conf.step_run`   what one action does, said once;
* `Conf.step_cases`     the same for invariants that do not see the order of the threads;
* `eq_of_countP_le_one`   the only thread at a place;
* `filterMap_replace`   what the threads are known to have done, when one of them moves.
-/

namespace TS

/-- a shared state and the local states of the threads -/
structure Conf (σ τ : Type*) where
  sh : σ
  pool : List τ

/-- an action of the pool: a new thread, or a step of thread number `i` -/
inductive PoolAct (τ γ : Type*) where
  | spawn (t : τ)
  | run (i : Nat) (c : γ)
  deriving DecidableEq

section
variable {σ τ γ : Type*} (enter : σ → τ → Option σ) (exec : γ → σ → τ → Option (σ × τ))

/-- one action: `enter` lets a thread in, `exec` is one step of one thread -/
def Conf.step (c : Conf σ τ) : PoolAct τ γ → Option (Conf σ τ)
  | .spawn t => (enter c.sh t).map fun sh => ⟨sh, c.pool ++ [t]⟩
  | .run i g => c.pool[i]?.bind fun t =>
      (exec g c.sh t).map fun r => ⟨r.1, c.pool.set i r.2⟩

variable {enter exec}

theorem Conf.step_spawn {c d : Conf σ τ} {t : τ} (h : c.step enter exec (.spawn t) = some d) :
    enter c.sh t = some d.sh ∧ d.pool = c.pool ++ [t] := by
  obtain ⟨sh, hsh, rfl⟩ := Option.map_eq_some_iff.mp h
  exact ⟨hsh, rfl⟩

/-- one thread moves, in its place -/
theorem Conf.step_set {c d : Conf σ τ} {i : Nat} {g : γ}
    (h : c.step enter exec (.run i g) = some d) :
    ∃ t t', c.pool[i]? = some t ∧ exec g c.sh t = some (d.sh, t') ∧ d.pool = c.pool.set i t' := by
  obtain ⟨t, ht, h⟩ := Option.bind_eq_some_iff.mp h
  obtain ⟨⟨sh, t'⟩, he, rfl⟩ := Option.map_eq_some_iff.mp h
  exact ⟨t, t', ht, he, rfl⟩

/-- the pool around the thread that moves -/
theorem Conf.step_run {c d : Conf σ τ} {i : Nat} {g : γ}
    (h : c.step enter exec (.run i g) = some d) :
    ∃ l₁ t l₂ t', c.pool = l₁ ++ t :: l₂ ∧ l₁.length = i ∧ exec g c.sh t = some (d.sh, t') ∧
      d.pool = l₁ ++ t' :: l₂ := by
  obtain ⟨t, t', ht, he, hp⟩ := Conf.step_set h
  obtain ⟨hi, hget⟩ := List.getElem?_eq_some_iff.mp ht
  have hsplit : c.pool = c.pool.take i ++ t :: c.pool.drop (i + 1) := by
    rw [← hget, ← List.drop_eq_getElem_cons hi, List.take_append_drop]
  have hset : c.pool.set i t' = c.pool.take i ++ t' :: c.pool.drop (i + 1) := by
    rw [List.set_eq_take_append_cons_drop, if_pos hi]
  exact ⟨_, t, _, t', hsplit, List.length_take_of_le (Nat.le_of_lt hi), he, hp.trans hset⟩

/-- one action up to the order of the threads: a new thread, or one thread moves among the
others -/
theorem Conf.step_cases {c d : Conf σ τ} {a : PoolAct τ γ} (h : c.step enter exec a = some d) :
    (∃ t, a = .spawn t ∧ enter c.sh t = some d.sh ∧ d.pool.Perm (t :: c.pool)) ∨
    ∃ i g t t' rest, a = .run i g ∧ c.pool[i]? = some t ∧ exec g c.sh t = some (d.sh, t') ∧
      c.pool.Perm (t :: rest) ∧ d.pool.Perm (t' :: rest) := by
  cases a with
  | spawn t =>
    obtain ⟨he, hp⟩ := Conf.step_spawn h
    exact Or.inl ⟨t, rfl, he, hp ▸ List.perm_append_singleton t c.pool⟩
  | run i g =>
    obtain ⟨l₁, t, l₂, t', hp, hi, he, hp'⟩ := Conf.step_run h
    refine Or.inr ⟨i, g, t, t', l₁ ++ l₂, rfl, ?_, he, hp ▸ List.perm_middle,
      hp' ▸ List.perm_middle⟩
    rw [hp, ← hi]
    simp

end

section
variable {τ : Type*}

theorem countP_pos_of_mem {p : τ → Bool} {l : List τ} {t : τ} (h : t ∈ l) (hp : p t = true) :
    0 < l.countP p := List.countP_pos_iff.mpr ⟨t, h, hp⟩

/-- if at most one thread is at a place, two indices of such threads are equal -/
theorem eq_of_countP_le_one {p : τ → Bool} {l : List τ} {i j : Nat} {t u : τ}
    (h : l.countP p ≤ 1) (ht : l[i]? = some t) (hu : l[j]? = some u) (hpt : p t = true)
    (hpu : p u = true) : i = j := by
  have hsplit : ∀ {k : Nat} {x : τ}, l[k]? = some x → p x = true → ∀ m y, l[m]? = some y →
      p y = true → ¬ k < m := by
    intro k x hk hpx m y hm hpy hlt
    have hone : 1 ≤ (l.take m).countP p := by
      refine countP_pos_of_mem (List.mem_of_getElem? (i:=k) ?_) hpx
      rw [List.getElem?_take_of_lt hlt, hk]
    have htwo : 1 ≤ (l.drop m).countP p := by
      refine countP_pos_of_mem (List.mem_of_getElem? (i:=0) ?_) hpy
      rw [List.getElem?_drop, Nat.add_zero, hm]
    rw [← List.take_append_drop m l, List.countP_append] at h
    omega
  exact Nat.le_antisymm (Nat.le_of_not_lt (hsplit hu hpu i t ht hpt))
    (Nat.le_of_not_lt (hsplit ht hpt j u hu hpu))

/-- a thread moves without entering or leaving the places `f` looks at -/
theorem filterMap_replace {γ : Type*} (f : τ → Option γ) (l₁ l₂ : List τ) {t t' : τ}
    (h : f t' = f t) : (l₁ ++ t' :: l₂).filterMap f = (l₁ ++ t :: l₂).filterMap f := by
  rw [List.filterMap_append, List.filterMap_append, List.filterMap_cons, List.filterMap_cons, h]

/-- a thread moves to a place `f` looks at -/
theorem filterMap_replace_some {γ : Type*} (f : τ → Option γ) (l₁ l₂ : List τ) {t t' : τ} {x : γ}
    (h : f t = none) (h' : f t' = some x) :
    ((l₁ ++ t' :: l₂).filterMap f).Perm ((l₁ ++ t :: l₂).filterMap f ++ [x]) := by
  rw [List.filterMap_append, List.filterMap_append, List.filterMap_cons, List.filterMap_cons, h, h']
  exact List.perm_middle.trans (List.perm_append_singleton x _).symm

/-- if at most one thread is at a place and the moving thread is there, no other one is -/
theorem not_of_countP_le_one {p : τ → Bool} {l₁ l₂ : List τ} {t u : τ}
    (h : (l₁ ++ t :: l₂).countP p ≤ 1) (ht : p t = true) (hu : u ∈ l₁ ++ l₂) : p u = false := by
  rw [List.countP_append, List.countP_cons, ht] at h
  have h0 : (l₁ ++ l₂).countP p = 0 := by
    rw [List.countP_append]
    simp only [if_true] at h
    omega
  exact Bool.eq_false_iff.mpr (List.countP_eq_zero.mp h0 u hu)

end

end TS
