import Mathlib.Data.List.Basic

/-!
# The flag word of a shared_state

`flags_` is one byte of bit flags; every access to it is an atomic load, `fetch_or`, `fetch_and`
or compare-exchange of the whole byte.

* `Word.has w m`        some bit of the mask `m` is set in `w`;
* `has_or`, `has_clear` how `fetch_or` and `fetch_and` change what is set.
-/

namespace ActorZeta

/-- `std::uint8_t` -/
abbrev Word := BitVec 8

/-- `bits & mask` used as a condition -/
def Word.has (w m : Word) : Bool := w &&& m != 0

namespace StateFlags

def empty : Word := 0b00000000
def valueSet : Word := 0b00000001
def errorSet : Word := 0b00000010
def consumed : Word := 0b00000100
def promiseReleased : Word := 0b00001000
def futureReleased : Word := 0b00010000
def promiseFinalizing : Word := 0b00100000
def resultSet : Word := valueSet ||| errorSet

end StateFlags

open StateFlags

namespace Word

@[simp] theorem has_or (w m k : Word) : (w ||| m).has k = (w.has k || m.has k) := by
  unfold has
  rw [BitVec.and_or_distrib_right, Bool.eq_iff_iff]
  simp [BitVec.or_eq_zero_iff, imp_iff_not_or]

theorem has_or_mask (w m k : Word) : w.has (m ||| k) = (w.has m || w.has k) := by
  have h := has_or m k w
  unfold has at h ⊢
  rwa [BitVec.and_comm, BitVec.and_comm w m, BitVec.and_comm w k]

@[simp] theorem has_resultSet (w : Word) :
    w.has resultSet = (w.has valueSet || w.has errorSet) := has_or_mask w valueSet errorSet

/-- `fetch_and(~m)` leaves the bits outside `m` alone -/
theorem has_clear_other {m k : Word} (h : ~~~m &&& k = k) (w : Word) :
    (w &&& ~~~m).has k = w.has k := by
  unfold has
  rw [BitVec.and_assoc, h]

theorem has_clear_self (w m : Word) : (w &&& ~~~m).has m = false := by
  unfold has
  rw [BitVec.and_assoc, BitVec.and_comm (~~~m)]
  simp

@[simp] theorem empty_has (k : Word) : empty.has k = false := by
  simp [has, empty]

/-! ### the single flags -/

@[simp] theorem valueSet_has : valueSet.has valueSet = true ∧ valueSet.has errorSet = false ∧
    valueSet.has consumed = false ∧ valueSet.has promiseReleased = false ∧
    valueSet.has futureReleased = false ∧ valueSet.has promiseFinalizing = false := by decide

@[simp] theorem errorSet_has : errorSet.has valueSet = false ∧ errorSet.has errorSet = true ∧
    errorSet.has consumed = false ∧ errorSet.has promiseReleased = false ∧
    errorSet.has futureReleased = false ∧ errorSet.has promiseFinalizing = false := by decide

@[simp] theorem consumed_has : consumed.has valueSet = false ∧ consumed.has errorSet = false ∧
    consumed.has consumed = true ∧ consumed.has promiseReleased = false ∧
    consumed.has futureReleased = false ∧ consumed.has promiseFinalizing = false := by decide

@[simp] theorem promiseReleased_has : promiseReleased.has valueSet = false ∧
    promiseReleased.has errorSet = false ∧ promiseReleased.has consumed = false ∧
    promiseReleased.has promiseReleased = true ∧ promiseReleased.has futureReleased = false ∧
    promiseReleased.has promiseFinalizing = false := by decide

@[simp] theorem futureReleased_has : futureReleased.has valueSet = false ∧
    futureReleased.has errorSet = false ∧ futureReleased.has consumed = false ∧
    futureReleased.has promiseReleased = false ∧ futureReleased.has futureReleased = true ∧
    futureReleased.has promiseFinalizing = false := by decide

@[simp] theorem promiseFinalizing_has : promiseFinalizing.has valueSet = false ∧
    promiseFinalizing.has errorSet = false ∧ promiseFinalizing.has consumed = false ∧
    promiseFinalizing.has promiseReleased = false ∧ promiseFinalizing.has futureReleased = false ∧
    promiseFinalizing.has promiseFinalizing = true := by decide

@[simp] theorem has_clear_finalizing (w : Word) :
    (w &&& ~~~promiseFinalizing).has valueSet = w.has valueSet ∧
    (w &&& ~~~promiseFinalizing).has errorSet = w.has errorSet ∧
    (w &&& ~~~promiseFinalizing).has consumed = w.has consumed ∧
    (w &&& ~~~promiseFinalizing).has promiseReleased = w.has promiseReleased ∧
    (w &&& ~~~promiseFinalizing).has futureReleased = w.has futureReleased ∧
    (w &&& ~~~promiseFinalizing).has promiseFinalizing = false :=
  ⟨has_clear_other (by decide) w, has_clear_other (by decide) w, has_clear_other (by decide) w,
    has_clear_other (by decide) w, has_clear_other (by decide) w, has_clear_self w _⟩

@[simp] theorem has_clear_future (w : Word) :
    (w &&& ~~~futureReleased).has valueSet = w.has valueSet ∧
    (w &&& ~~~futureReleased).has errorSet = w.has errorSet ∧
    (w &&& ~~~futureReleased).has consumed = w.has consumed ∧
    (w &&& ~~~futureReleased).has promiseReleased = w.has promiseReleased ∧
    (w &&& ~~~futureReleased).has futureReleased = false ∧
    (w &&& ~~~futureReleased).has promiseFinalizing = w.has promiseFinalizing :=
  ⟨has_clear_other (by decide) w, has_clear_other (by decide) w, has_clear_other (by decide) w,
    has_clear_other (by decide) w, has_clear_self w _, has_clear_other (by decide) w⟩

end Word
end ActorZeta
