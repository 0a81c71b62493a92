import Mathlib.Data.List.Perm.Basic
import Mathlib.Data.List.Count
import Mathlib.Data.List.Nodup

/-!
# Tallies: lists compared by counting

Things that are handed around between several lists are accounted for by counting, for every
predicate, how many of them each list holds; the counts add up step by step with plain arithmetic.

* `perm_of_countP`      equal counts make a permutation;
* `nodup_of_countP_le`  what is counted at most as often as in a list without repetition does not
                        repeat;
* `countP_set`          the counts when one element of a list is replaced;
* `set_split`           the list around the element that is replaced;
* `countP_filterMap_cons`   the counts of what `f` finds in a list;
* `countP_range_replace`   counting indices by a predicate that changes at one of them.
-/

namespace TS
variable {τ : Type*}

theorem perm_of_countP {l₁ l₂ : List τ} (h : ∀ p : τ → Bool, l₁.countP p = l₂.countP p) :
    l₁.Perm l₂ := by
  classical
  exact List.perm_iff_count.mpr fun a => h (· == a)

theorem nodup_of_countP_le {l₁ l₂ : List τ} (h : ∀ p : τ → Bool, l₁.countP p ≤ l₂.countP p)
    (hd : l₂.Nodup) : l₁.Nodup := by
  classical
  exact List.nodup_iff_count_le_one.mpr fun a =>
    Nat.le_trans (h (· == a)) (List.nodup_iff_count_le_one.mp hd a)

/-- the list around its element number `i` -/
theorem set_split {l : List τ} {i : Nat} {t : τ} (h : l[i]? = some t) :
    ∃ l₁ l₂, l = l₁ ++ t :: l₂ ∧ l₁.length = i ∧ ∀ u, l.set i u = l₁ ++ u :: l₂ := by
  obtain ⟨hi, hget⟩ := List.getElem?_eq_some_iff.mp h
  refine ⟨l.take i, l.drop (i + 1), ?_, List.length_take_of_le (Nat.le_of_lt hi), fun u => ?_⟩
  · rw [← hget, ← List.drop_eq_getElem_cons hi, List.take_append_drop]
  · rw [List.set_eq_take_append_cons_drop, if_pos hi]

theorem countP_set {l : List τ} {i : Nat} {t : τ} (h : l[i]? = some t) (p : τ → Bool) (u : τ) :
    (l.set i u).countP p + (p t).toNat = l.countP p + (p u).toNat := by
  obtain ⟨l₁, l₂, hl, -, hset⟩ := set_split h
  rw [hset, hl, List.countP_append, List.countP_append, List.countP_cons, List.countP_cons]
  cases p t <;> cases p u <;> simp <;> omega

theorem countP_eraseIdx {l : List τ} {i : Nat} {t : τ} (h : l[i]? = some t) (p : τ → Bool) :
    (l.eraseIdx i).countP p + (p t).toNat = l.countP p := by
  obtain ⟨hi, hget⟩ := List.getElem?_eq_some_iff.mp h
  have hperm := List.getElem_cons_eraseIdx_perm hi
  rw [hget] at hperm
  rw [← hperm.countP_eq p, List.countP_cons]
  cases p t <;> rfl

theorem countP_filterMap_cons {γ : Type*} (f : τ → Option γ) (t : τ) (l : List τ) (p : γ → Bool) :
    ((t :: l).filterMap f).countP p = (f t).toList.countP p + (l.filterMap f).countP p := by
  rw [List.filterMap_cons]
  cases f t with
  | none => exact (Nat.zero_add _).symm
  | some x =>
    show (x :: l.filterMap f).countP p = [x].countP p + _
    rw [List.countP_cons, List.countP_singleton, Nat.add_comm]

theorem countP_range_replace {n w : Nat} (hw : w < n) {p q : Nat → Bool}
    (h : ∀ v, v ≠ w → q v = p v) :
    (List.range n).countP q + (p w).toNat = (List.range n).countP p + (q w).toNat := by
  induction n with
  | zero => exact absurd hw (Nat.not_lt_zero w)
  | succ n ih =>
    rw [List.range_succ, List.countP_append, List.countP_append, List.countP_singleton,
      List.countP_singleton]
    by_cases hn : w = n
    · subst hn
      have hlt : (List.range w).countP q = (List.range w).countP p :=
        List.countP_congr fun v hv => by rw [h v (Nat.ne_of_lt (List.mem_range.mp hv))]
      rw [hlt]
      cases p w <;> cases q w <;> simp
    · rw [h n (Ne.symm hn)]
      have := ih (by omega)
      omega

end TS
