import Mathlib.Algebra.Group.Nat.Defs
import Mathlib.Data.List.Basic
import Mathlib.Data.List.Range

/-!
# Bytes, ranges of them, and objects

Memory is bytes by their address, and an object is a range of them.

* `Range`, `Range.Apart`   addresses from a start on, and ranges that do not meet;
* `store`, `load`          a list of bytes is written, and read;
* `load_store_within`      a part of what is read was overwritten;
* `Encoding`               how the values of a type lie in `n` bytes;
* `Encoding.get_store`     an object is not changed by what is written apart from it;
* `littleEndian`           the encoding of a word with its lowest byte first.
-/

namespace Bytes

variable {α β : Type*}

structure Range where
  start : Nat
  size : Nat

namespace Range

/-- one ends before the other begins -/
def Apart (r q : Range) : Prop := r.start + r.size ≤ q.start ∨ q.start + q.size ≤ r.start

instance (r q : Range) : Decidable (Apart r q) := inferInstanceAs (Decidable (_ ∨ _))

/-- it lies inside -/
def Within (r q : Range) : Prop := q.start ≤ r.start ∧ r.start + r.size ≤ q.start + q.size

instance (r q : Range) : Decidable (Within r q) := inferInstanceAs (Decidable (_ ∧ _))

variable {r q p s : Range}

theorem Apart.symm (h : r.Apart q) : q.Apart r := Or.symm h

/-- parts of ranges that do not meet do not meet -/
theorem Apart.within (h : r.Apart q) (hp : p.Within r) (hs : s.Within q) : p.Apart s := by
  obtain ⟨hp1, hp2⟩ := hp
  obtain ⟨hs1, hs2⟩ := hs
  unfold Apart at h ⊢
  omega

theorem Within.refl (r : Range) : r.Within r := ⟨Nat.le_refl _, Nat.le_refl _⟩

end Range

/-- the bytes `bs` from the address `a` on -/
def store (m : Nat → β) (a : Nat) (bs : List β) : Nat → β := fun x =>
  if a ≤ x then (bs[x - a]?).getD (m x) else m x

/-- `n` bytes from the address `a` on -/
def load (m : Nat → β) (a n : Nat) : List β := (List.range n).map fun i => m (a + i)

variable {m m' : Nat → β} {a b n k : Nat} {bs : List β}

@[simp] theorem length_load : (load m a n).length = n := by
  unfold load
  rw [List.length_map, List.length_range]

theorem getElem_load {i : Nat} (hi : i < (load m a n).length) : (load m a n)[i] = m (a + i) := by
  simp [load]

theorem load_congr (h : ∀ i < n, m' (a + i) = m (a + i)) : load m' a n = load m a n :=
  List.map_congr_left fun i hi => h i (List.mem_range.mp hi)

theorem store_at {i : Nat} (hi : i < bs.length) : store m a bs (a + i) = bs[i] := by
  unfold store
  rw [if_pos (Nat.le_add_right a i), Nat.add_sub_cancel_left, List.getElem?_eq_getElem hi]
  rfl

theorem store_outside {x : Nat} (h : x < a ∨ a + bs.length ≤ x) : store m a bs x = m x := by
  unfold store
  split
  · rw [List.getElem?_eq_none (by omega)]
    rfl
  · rfl

theorem load_store : load (store m a bs) a bs.length = bs := by
  refine List.ext_getElem length_load fun i hi hi' => ?_
  rw [getElem_load hi]
  exact store_at hi'

/-- what is read is not what was written -/
theorem load_store_apart (h : Range.Apart ⟨a, bs.length⟩ ⟨b, n⟩) :
    load (store m a bs) b n = load m b n :=
  load_congr fun i hi => store_outside (by
    unfold Range.Apart at h
    dsimp only at h
    omega)

/-- a part of what is read is overwritten -/
theorem load_store_within (h : k + bs.length ≤ n) :
    load (store m (a + k) bs) a n
      = (load m a n).take k ++ bs ++ (load m a n).drop (k + bs.length) := by
  refine List.ext_getElem ?_ fun i hi hi' => ?_
  · rw [length_load, List.length_append, List.length_append, List.length_take, List.length_drop,
      length_load]
    omega
  · have hn : i < n := by rwa [length_load] at hi
    have hlen : ((load m a n).take k).length = k := by
      rw [List.length_take, length_load]
      omega
    rw [getElem_load hi]
    rcases Nat.lt_or_ge i k with hik | hik
    · rw [store_outside (Or.inl (by omega)), List.getElem_append_left (by
          rw [List.length_append, hlen]
          omega), List.getElem_append_left (by rw [hlen]; exact hik), List.getElem_take,
        getElem_load]
    · rcases Nat.lt_or_ge i (k + bs.length) with hib | hib
      · have hidx : i - k < bs.length := by omega
        have hai : a + i = a + k + (i - k) := by omega
        rw [hai, store_at hidx, List.getElem_append_left (by
          rw [List.length_append, hlen]
          omega), List.getElem_append_right (by rw [hlen]; exact hik)]
        congr 1
        rw [hlen]
      · rw [store_outside (Or.inr (by omega)), List.getElem_append_right (by
          rw [List.length_append, hlen]
          omega), List.getElem_drop, getElem_load]
        congr 1
        rw [List.length_append, hlen]
        omega

/-- the values of `α` as `n` bytes -/
structure Encoding (α β : Type*) (n : Nat) where
  encode : α → List β
  decode : List β → α
  length_encode : ∀ v, (encode v).length = n
  decode_encode : ∀ v, decode (encode v) = v

namespace Encoding

variable (enc : Encoding α β n) {v : α}

def put (m : Nat → β) (a : Nat) (v : α) : Nat → β := store m a (enc.encode v)
def get (m : Nat → β) (a : Nat) : α := enc.decode (load m a n)

theorem get_put : enc.get (enc.put m a v) a = v := by
  have h : load (store m a (enc.encode v)) a (enc.encode v).length = enc.encode v := load_store
  rw [enc.length_encode] at h
  unfold get put
  rw [h, enc.decode_encode]

theorem get_store (h : Range.Apart ⟨b, bs.length⟩ ⟨a, n⟩) :
    enc.get (store m b bs) a = enc.get m a := by
  unfold get
  rw [load_store_apart h]

theorem get_put_apart (h : Range.Apart ⟨b, n⟩ ⟨a, n⟩) : enc.get (enc.put m b v) a = enc.get m a :=
  enc.get_store (by rw [enc.length_encode]; exact h)

end Encoding

/-! ## Words -/

/-- the lowest `k` bytes of `n`, the lowest first -/
def bytesOf : Nat → Nat → List (BitVec 8)
  | 0, _ => []
  | k + 1, n => BitVec.ofNat 8 n :: bytesOf k (n / 256)

def ofBytes : List (BitVec 8) → Nat
  | [] => 0
  | b :: bs => b.toNat + 256 * ofBytes bs

theorem length_bytesOf (k : Nat) : ∀ n, (bytesOf k n).length = k := by
  induction k with
  | zero => exact fun _ => rfl
  | succ k ih => exact fun n => congrArg (· + 1) (ih (n / 256))

theorem ofBytes_bytesOf (k : Nat) : ∀ n, ofBytes (bytesOf k n) = n % 256 ^ k := by
  induction k with
  | zero => exact fun n => (Nat.mod_one n).symm
  | succ k ih =>
    intro n
    show (BitVec.ofNat 8 n).toNat + 256 * ofBytes (bytesOf k (n / 256)) = _
    rw [ih, BitVec.toNat_ofNat, show 256 ^ (k + 1) = 256 * 256 ^ k from Nat.pow_succ',
      Nat.mod_mul]

/-- a word of `k` bytes -/
def littleEndian (k : Nat) : Encoding (BitVec (8 * k)) (BitVec 8) k where
  encode v := bytesOf k v.toNat
  decode bs := BitVec.ofNat (8 * k) (ofBytes bs)
  length_encode v := length_bytesOf k v.toNat
  decode_encode v := by
    have hv : v.toNat < 256 ^ k := by
      have hlt := v.isLt
      rwa [Nat.pow_mul] at hlt
    rw [ofBytes_bytesOf, Nat.mod_eq_of_lt hv, BitVec.ofNat_toNat, BitVec.setWidth_eq]

end Bytes
