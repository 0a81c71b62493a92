import Mathlib.Data.List.Nodup
import Mathlib.Data.Option.Basic

/-!
# A heap

Objects are allocated at growing addresses, changed in place and freed; an address is never used
twice.

* `Heap.alloc`, `Heap.modify`, `Heap.free`   the operations;
* `Heap.lt_next`          an object lives below the next address;
* `get_modify_some`, `get_alloc_some`, `get_free_some`   where the objects of the new heap come
                          from.
-/

/-- objects by their address -/
structure Heap (α : Type*) where
  get : Nat → Option α
  next : Nat
  bound : ∀ i, next ≤ i → get i = none

namespace Heap
variable {α : Type*}

def empty : Heap α := ⟨fun _ => none, 0, fun _ _ => rfl⟩

/-- the new object is at `h.next` -/
def alloc (h : Heap α) (a : α) : Heap α where
  get i := if i = h.next then some a else h.get i
  next := h.next + 1
  bound i hi := by
    rw [if_neg (by omega)]
    exact h.bound i (by omega)

/-- a write through a dangling pointer changes nothing -/
def modify (h : Heap α) (i : Nat) (f : α → α) : Heap α where
  get j := if j = i then (h.get j).map f else h.get j
  next := h.next
  bound j hj := by rw [h.bound j hj]; split <;> rfl

def free (h : Heap α) (i : Nat) : Heap α where
  get j := if j = i then none else h.get j
  next := h.next
  bound j hj := by rw [h.bound j hj]; split <;> rfl

variable {h : Heap α} {i j : Nat} {a b : α} {f : α → α}

theorem lt_next (hg : h.get i = some a) : i < h.next := by
  refine Nat.lt_of_not_le fun hi => ?_
  rw [h.bound i hi] at hg
  cases hg

theorem get_next : h.get h.next = none := h.bound _ (Nat.le_refl _)

theorem ne_next (hg : h.get i = some a) : i ≠ h.next := Nat.ne_of_lt (lt_next hg)

@[simp] theorem next_modify : (h.modify i f).next = h.next := rfl
@[simp] theorem next_free : (h.free i).next = h.next := rfl
@[simp] theorem next_alloc : (h.alloc a).next = h.next + 1 := rfl

theorem get_modify_self (hg : h.get i = some a) : (h.modify i f).get i = some (f a) := by
  show (if i = i then (h.get i).map f else h.get i) = _
  rw [if_pos rfl, hg]
  rfl

theorem get_modify_ne (hj : j ≠ i) : (h.modify i f).get j = h.get j := if_neg hj

theorem get_modify_none (hg : h.get j = none) : (h.modify i f).get j = none := by
  show (if j = i then (h.get j).map f else h.get j) = none
  rw [hg]
  split <;> rfl

/-- no object goes -/
theorem get_modify_of (hg : h.get j = some a) :
    (h.modify i f).get j = some (if j = i then f a else a) := by
  by_cases hj : j = i
  · subst hj
    rw [get_modify_self hg, if_pos rfl]
  · rw [get_modify_ne hj, hg, if_neg hj]

theorem get_modify_some (hg : (h.modify i f).get j = some b) :
    ∃ a, h.get j = some a ∧ b = if j = i then f a else a := by
  by_cases hj : j = i
  · subst hj
    rw [show (h.modify j f).get j = (h.get j).map f from if_pos rfl] at hg
    obtain ⟨a, ha, rfl⟩ := Option.map_eq_some_iff.mp hg
    exact ⟨a, ha, (if_pos rfl).symm⟩
  · rw [get_modify_ne hj] at hg
    exact ⟨b, hg, (if_neg hj).symm⟩

theorem modify_modify {g : α → α} : (h.modify i f).modify i g = h.modify i (g ∘ f) := by
  unfold modify
  congr 1
  funext j
  by_cases hj : j = i
  · simp only [if_pos hj, Option.map_map]
  · simp only [if_neg hj]

/-- two changes that commute, of one object or of two -/
theorem modify_comm {f g : α → α} (hfg : ∀ a, f (g a) = g (f a)) :
    (h.modify i f).modify j g = (h.modify j g).modify i f := by
  unfold modify
  congr 1
  funext k
  by_cases hi : k = i
  · by_cases hj : k = j
    · simp only [if_pos hi, if_pos hj, Option.map_map]
      congr 1
      funext a
      exact (hfg a).symm
    · simp only [if_pos hi, if_neg hj]
  · simp only [if_neg hi]

/-- changes of distinct objects -/
theorem get_foldl_modify {l : List Nat} (hn : l.Nodup) : (l.foldl (fun h i => h.modify i f) h).get j
    = if j ∈ l then (h.get j).map f else h.get j := by
  induction l generalizing h with
  | nil => rfl
  | cons i l ih =>
    obtain ⟨hi, hn⟩ := List.nodup_cons.mp hn
    rw [List.foldl_cons, ih hn]
    by_cases hj : j = i
    · subst hj
      rw [if_neg hi, if_pos List.mem_cons_self]
      exact if_pos rfl
    · rw [get_modify_ne hj]
      simp only [List.mem_cons, hj, false_or]

theorem next_foldl_modify {l : List Nat} :
    (l.foldl (fun h i => h.modify i f) h).next = h.next := by
  induction l generalizing h with
  | nil => rfl
  | cons i l ih => exact ih

theorem get_alloc_self : (h.alloc a).get h.next = some a := if_pos rfl

theorem get_alloc_ne (hj : j ≠ h.next) : (h.alloc a).get j = h.get j := if_neg hj

theorem get_alloc_of (hg : h.get i = some b) : (h.alloc a).get i = some b := by
  rw [← hg]
  exact if_neg (ne_next hg)

theorem get_alloc_some (hg : (h.alloc a).get j = some b) :
    (j = h.next ∧ b = a) ∨ h.get j = some b := by
  by_cases hj : j = h.next
  · subst hj
    rw [get_alloc_self] at hg
    exact Or.inl ⟨rfl, (Option.some.inj hg).symm⟩
  · exact Or.inr (by rw [← hg]; exact (if_neg hj).symm)

theorem get_free_ne (hj : j ≠ i) : (h.free i).get j = h.get j := if_neg hj

theorem get_free_some (hg : (h.free i).get j = some b) : j ≠ i ∧ h.get j = some b := by
  by_cases hj : j = i
  · subst hj
    rw [show (h.free j).get j = none from if_pos rfl] at hg
    cases hg
  · exact ⟨hj, by rw [← hg]; exact (get_free_ne hj).symm⟩

end Heap
