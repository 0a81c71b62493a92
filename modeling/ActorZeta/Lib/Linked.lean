import Mathlib.Data.List.Nodup

/-!
# Cells linked through their next pointer

A cell is an element, `cell a`, or a sentinel.

* `Path`           what is visited from a pointer on, and where the chain ends;
* `lastCell`       the cell that a new element at the end is linked to;
* `Path.insert`    an element is linked in behind any cell of a chain;
* `Path.redirect`  a chain is made to end elsewhere.
-/

namespace Linked

variable {κ α : Type*} (cell : α → κ)

/-- from the pointer `p`, `next` leads through the elements `xs` and then to `e` -/
def Path (next : κ → κ) : κ → List α → κ → Prop
  | p, [], e => p = e
  | p, x :: xs, e => p = cell x ∧ Path next (next (cell x)) xs e

/-- the last of the elements `xs`, which are linked behind `n` -/
def lastCell : κ → List α → κ
  | n, [] => n
  | _, x :: xs => lastCell (cell x) xs

variable {cell} {next next' : κ → κ} {p n e e' : κ} {xs ys : List α} {a : α}

theorem lastCell_concat : lastCell cell n (xs ++ [a]) = cell a := by
  induction xs generalizing n with
  | nil => rfl
  | cons x xs ih => exact ih

/-- behind a last element stands the last cell of the whole chain -/
theorem lastCell_append : lastCell cell n (xs ++ ys) = lastCell cell (lastCell cell n xs) ys := by
  induction xs generalizing n with
  | nil => rfl
  | cons x xs ih => exact ih

/-- the last cell is the first one or an element -/
theorem lastCell_mem : lastCell cell n xs ∈ n :: xs.map cell := by
  rcases List.eq_nil_or_concat xs with rfl | ⟨ys, a, rfl⟩
  · exact List.mem_singleton_self n
  · rw [List.concat_eq_append, lastCell_concat]
    exact List.mem_cons_of_mem n (List.mem_map_of_mem (by simp))

namespace Path

/-- only the pointers of the visited elements matter -/
theorem congr (h : Path cell next p xs e) (hn : ∀ a ∈ xs, next' (cell a) = next (cell a)) :
    Path cell next' p xs e := by
  induction xs generalizing p with
  | nil => exact h
  | cons x xs ih =>
    obtain ⟨hp, ht⟩ := h
    refine ⟨hp, ?_⟩
    rw [hn x List.mem_cons_self]
    exact ih ht fun a ha => hn a (List.mem_cons_of_mem x ha)

theorem append :
    Path cell next p (xs ++ ys) e ↔ ∃ q, Path cell next p xs q ∧ Path cell next q ys e := by
  induction xs generalizing p with
  | nil =>
    constructor
    · intro h; exact ⟨p, rfl, h⟩
    · rintro ⟨q, rfl, h⟩; exact h
  | cons x xs ih =>
    constructor
    · rintro ⟨hp, h⟩
      obtain ⟨q, hq, ht⟩ := ih.mp h
      exact ⟨q, ⟨hp, hq⟩, ht⟩
    · rintro ⟨q, ⟨hp, hq⟩, ht⟩
      exact ⟨hp, ih.mpr ⟨q, hq, ht⟩⟩

/-- the last cell points at the end -/
theorem next_lastCell (h : Path cell next (next n) xs e) : next (lastCell cell n xs) = e := by
  induction xs generalizing n with
  | nil => exact h
  | cons x xs ih => exact ih h.2

/-- **A new element behind any cell.**  The two pointers written are that of the cell it is
linked to, which was `lastCell n xs`, and its own. -/
theorem insert (h : Path cell next (next n) (xs ++ ys) e)
    (hd : (n :: (xs ++ ys).map cell).Nodup)
    (hlink : next' (lastCell cell n xs) = cell a)
    (hown : next' (cell a) = next (lastCell cell n xs))
    (hrest : ∀ k ∈ n :: (xs ++ ys).map cell, k ≠ lastCell cell n xs → next' k = next k) :
    Path cell next' (next' n) (xs ++ a :: ys) e := by
  induction xs generalizing n with
  | nil =>
    refine ⟨hlink, ?_⟩
    rw [hown]
    refine congr h fun b hb => hrest (cell b) ?_ ?_
    · exact List.mem_cons_of_mem n (List.mem_map_of_mem hb)
    · rintro rfl
      exact (List.nodup_cons.mp hd).1 (List.mem_map_of_mem hb)
  | cons x xs ih =>
    obtain ⟨hx, ht⟩ := h
    obtain ⟨hn, hd'⟩ := List.nodup_cons.mp hd
    have hne : n ≠ lastCell cell (cell x) xs := by
      intro hl
      have hm : lastCell cell (cell x) xs ∈ (x :: xs).map cell := lastCell_mem
      rw [← hl] at hm
      refine hn ?_
      rw [List.cons_append, ← List.cons_append, List.map_append]
      exact List.mem_append_left _ hm
    refine ⟨?_, ?_⟩
    · rw [hrest n List.mem_cons_self hne]
      exact hx
    · refine ih ht hd' hlink hown ?_
      intro k hk hkl
      exact hrest k (List.mem_cons_of_mem n hk) hkl

/-- **Another end.**  Only the pointer of the last element is written. -/
theorem redirect (h : Path cell next p (xs ++ [a]) e) (hend : next' (cell a) = e')
    (hrest : ∀ b ∈ xs, next' (cell b) = next (cell b)) : Path cell next' p (xs ++ [a]) e' := by
  obtain ⟨q, hq, hqa, -⟩ := append.mp h
  exact append.mpr ⟨q, congr hq hrest, hqa, hend⟩

end Path
end Linked
