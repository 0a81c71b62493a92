import Mathlib.Data.Nat.Bitwise

/-!
# The state word of a cooperative_actor

`actor_state` is a 32-bit word: three flags in the low bits, the number of senders in flight
above them.  The functions are the ones of the source.  Each lemma says what one function does to
one field; no proof after this module looks at a bit.
-/

namespace ActorZeta

/-- `actor_state` -/
abbrev ActorState := BitVec 32

namespace ActorState

def idle : ActorState := 0b000

def isScheduled (s : ActorState) : Bool := s &&& 0b001 != 0
def isRunning (s : ActorState) : Bool := s &&& 0b010 != 0
def isDestroying (s : ActorState) : Bool := s &&& 0b100 != 0

def setScheduled (s : ActorState) (value : Bool) : ActorState :=
  if value then s ||| 0b001 else s &&& ~~~0b001

def setRunning (s : ActorState) (value : Bool) : ActorState :=
  if value then s ||| 0b010 else s &&& ~~~0b010

def setDestroying (s : ActorState) : ActorState := s ||| 0b100

def kSenderStep : ActorState := 0b1000

def senderCount (s : ActorState) : BitVec 32 := s / kSenderStep
def addSender (s : ActorState) : ActorState := s + kSenderStep
def subSender (s : ActorState) : ActorState := s - kSenderStep

/-- `make_state`: the word from scratch, with no sender -/
def makeState (scheduled running destroying : Bool) : ActorState :=
  (if scheduled then 0b001 else 0) ||| (if running then 0b010 else 0) |||
    (if destroying then 0b100 else 0)

/-! ## the flags as bits -/

theorem and_twoPow_ne (s : ActorState) (i : Nat) (hi : i < 32) :
    (s &&& BitVec.twoPow 32 i != 0#32) = s.getLsbD i := by
  have hne : BitVec.twoPow 32 i ≠ 0#32 := by
    intro h
    have hb := congrArg (fun x => x.getLsbD i) h
    simp [hi] at hb
  rw [BitVec.and_twoPow]
  cases s.getLsbD i <;> simp [hne]

theorem or_twoPow_bit (s : ActorState) {i : Nat} (hi : i < 32) (j : Nat) :
    (s ||| BitVec.twoPow 32 i).getLsbD j = (s.getLsbD j || decide (i = j)) := by
  rw [BitVec.getLsbD_or, BitVec.getLsbD_twoPow, decide_eq_true hi, Bool.true_and]

theorem clear_twoPow_bit (s : ActorState) {i : Nat} (hi : i < 32) (j : Nat) :
    (s &&& ~~~BitVec.twoPow 32 i).getLsbD j = (s.getLsbD j && !decide (i = j)) := by
  rw [BitVec.getLsbD_and, BitVec.getLsbD_not, BitVec.getLsbD_twoPow, decide_eq_true hi,
    Bool.true_and]
  by_cases hj : j < 32
  · rw [decide_eq_true hj, Bool.true_and]
  · rw [BitVec.getLsbD_of_ge s j (by omega), Bool.false_and, Bool.false_and]

theorem isScheduled_bit (s : ActorState) : s.isScheduled = s.getLsbD 0 :=
  and_twoPow_ne s 0 (by decide)

theorem isRunning_bit (s : ActorState) : s.isRunning = s.getLsbD 1 :=
  and_twoPow_ne s 1 (by decide)

theorem isDestroying_bit (s : ActorState) : s.isDestroying = s.getLsbD 2 :=
  and_twoPow_ne s 2 (by decide)

theorem setScheduled_bit (s : ActorState) (v : Bool) (j : Nat) :
    (s.setScheduled v).getLsbD j = if j = 0 then v else s.getLsbD j := by
  cases v with
  | true =>
    have h : (s.setScheduled true).getLsbD j = _ := or_twoPow_bit s (i:=0) (by decide) j
    rw [h]
    by_cases hj : j = 0 <;> simp [hj, eq_comm]
  | false =>
    have h : (s.setScheduled false).getLsbD j = _ := clear_twoPow_bit s (i:=0) (by decide) j
    rw [h]
    by_cases hj : j = 0 <;> simp [hj, eq_comm]

theorem setRunning_bit (s : ActorState) (v : Bool) (j : Nat) :
    (s.setRunning v).getLsbD j = if j = 1 then v else s.getLsbD j := by
  cases v with
  | true =>
    have h : (s.setRunning true).getLsbD j = _ := or_twoPow_bit s (i:=1) (by decide) j
    rw [h]
    by_cases hj : j = 1 <;> simp [hj, eq_comm]
  | false =>
    have h : (s.setRunning false).getLsbD j = _ := clear_twoPow_bit s (i:=1) (by decide) j
    rw [h]
    by_cases hj : j = 1 <;> simp [hj, eq_comm]

theorem setDestroying_bit (s : ActorState) (j : Nat) :
    s.setDestroying.getLsbD j = if j = 2 then true else s.getLsbD j := by
  have h : s.setDestroying.getLsbD j = _ := or_twoPow_bit s (i:=2) (by decide) j
  rw [h]
  by_cases hj : j = 2 <;> simp [hj, eq_comm]

/-- a flag sees the word modulo 8 only -/
theorem bit_of_mod {s t : ActorState} {i : Nat} (hi : i < 3)
    (h : s.toNat % 8 = t.toNat % 8) : s.getLsbD i = t.getLsbD i := by
  have hs := Nat.testBit_mod_two_pow s.toNat 3 i
  have ht := Nat.testBit_mod_two_pow t.toNat 3 i
  rw [decide_eq_true hi, Bool.true_and] at hs ht
  show s.toNat.testBit i = t.toNat.testBit i
  rw [← hs, ← ht]
  exact congrArg (fun n => n.testBit i) h

theorem addSender_bit (s : ActorState) {i : Nat} (hi : i < 3) :
    s.addSender.getLsbD i = s.getLsbD i := by
  have h : s.addSender.toNat = (s.toNat + 8) % 2 ^ 32 := BitVec.toNat_add s _
  exact bit_of_mod hi (by omega)

theorem subSender_bit (s : ActorState) {i : Nat} (hi : i < 3) :
    s.subSender.getLsbD i = s.getLsbD i := by
  have h : s.subSender.toNat = (2 ^ 32 - 8 + s.toNat) % 2 ^ 32 := BitVec.toNat_sub s _
  exact bit_of_mod hi (by omega)

/-! ## what a function does to a flag -/

section
variable (s : ActorState) (v : Bool)

@[simp] theorem isScheduled_setScheduled : (s.setScheduled v).isScheduled = v := by
  rw [isScheduled_bit, setScheduled_bit]; rfl

@[simp] theorem isRunning_setScheduled : (s.setScheduled v).isRunning = s.isRunning := by
  rw [isRunning_bit, setScheduled_bit, isRunning_bit]; rfl

@[simp] theorem isDestroying_setScheduled : (s.setScheduled v).isDestroying = s.isDestroying := by
  rw [isDestroying_bit, setScheduled_bit, isDestroying_bit]; rfl

@[simp] theorem isScheduled_setRunning : (s.setRunning v).isScheduled = s.isScheduled := by
  rw [isScheduled_bit, setRunning_bit, isScheduled_bit]; rfl

@[simp] theorem isRunning_setRunning : (s.setRunning v).isRunning = v := by
  rw [isRunning_bit, setRunning_bit]; rfl

@[simp] theorem isDestroying_setRunning : (s.setRunning v).isDestroying = s.isDestroying := by
  rw [isDestroying_bit, setRunning_bit, isDestroying_bit]; rfl

@[simp] theorem isScheduled_setDestroying : s.setDestroying.isScheduled = s.isScheduled := by
  rw [isScheduled_bit, setDestroying_bit, isScheduled_bit]; rfl

@[simp] theorem isRunning_setDestroying : s.setDestroying.isRunning = s.isRunning := by
  rw [isRunning_bit, setDestroying_bit, isRunning_bit]; rfl

@[simp] theorem isDestroying_setDestroying : s.setDestroying.isDestroying = true := by
  rw [isDestroying_bit, setDestroying_bit]; rfl

@[simp] theorem isScheduled_addSender : s.addSender.isScheduled = s.isScheduled := by
  rw [isScheduled_bit, isScheduled_bit, addSender_bit s (by decide)]

@[simp] theorem isRunning_addSender : s.addSender.isRunning = s.isRunning := by
  rw [isRunning_bit, isRunning_bit, addSender_bit s (by decide)]

@[simp] theorem isDestroying_addSender : s.addSender.isDestroying = s.isDestroying := by
  rw [isDestroying_bit, isDestroying_bit, addSender_bit s (by decide)]

@[simp] theorem isScheduled_subSender : s.subSender.isScheduled = s.isScheduled := by
  rw [isScheduled_bit, isScheduled_bit, subSender_bit s (by decide)]

@[simp] theorem isRunning_subSender : s.subSender.isRunning = s.isRunning := by
  rw [isRunning_bit, isRunning_bit, subSender_bit s (by decide)]

@[simp] theorem isDestroying_subSender : s.subSender.isDestroying = s.isDestroying := by
  rw [isDestroying_bit, isDestroying_bit, subSender_bit s (by decide)]

end

@[simp] theorem makeState_flags (a b c : Bool) : (makeState a b c).isScheduled = a ∧
    (makeState a b c).isRunning = b ∧ (makeState a b c).isDestroying = c := by
  cases a <;> cases b <;> cases c <;> decide

@[simp] theorem idle_flags : idle.isScheduled = false ∧ idle.isRunning = false ∧
    idle.isDestroying = false := by decide

/-! ## the number of senders -/

theorem senderCount_toNat (s : ActorState) : s.senderCount.toNat = s.toNat / 8 :=
  BitVec.toNat_udiv ..

/-- the number of senders lies in the bits above the flags -/
theorem senderCount_of_bits {s t : ActorState} (h : ∀ j, 3 ≤ j → s.getLsbD j = t.getLsbD j) :
    s.senderCount = t.senderCount := by
  apply BitVec.eq_of_toNat_eq
  rw [senderCount_toNat, senderCount_toNat]
  apply Nat.eq_of_testBit_eq
  intro j
  show (s.toNat / 2 ^ 3).testBit j = (t.toNat / 2 ^ 3).testBit j
  rw [Nat.testBit_div_two_pow, Nat.testBit_div_two_pow]
  exact h (j + 3) (by omega)

@[simp] theorem senderCount_setScheduled (s : ActorState) (v : Bool) :
    (s.setScheduled v).senderCount = s.senderCount :=
  senderCount_of_bits fun j hj => by rw [setScheduled_bit, if_neg (by omega)]

@[simp] theorem senderCount_setRunning (s : ActorState) (v : Bool) :
    (s.setRunning v).senderCount = s.senderCount :=
  senderCount_of_bits fun j hj => by rw [setRunning_bit, if_neg (by omega)]

@[simp] theorem senderCount_setDestroying (s : ActorState) :
    s.setDestroying.senderCount = s.senderCount :=
  senderCount_of_bits fun j hj => by rw [setDestroying_bit, if_neg (by omega)]

@[simp] theorem senderCount_makeState (a b c : Bool) : (makeState a b c).senderCount = 0 := by
  cases a <;> cases b <;> cases c <;> decide

/-- registering counts up as long as the count fits its 29 bits -/
theorem senderCount_addSender {s : ActorState} (h : s.senderCount.toNat < 2 ^ 29 - 1) :
    s.addSender.senderCount.toNat = s.senderCount.toNat + 1 := by
  rw [senderCount_toNat] at h ⊢
  have e : s.addSender.toNat = (s.toNat + 8) % 2 ^ 32 := BitVec.toNat_add s _
  rw [senderCount_toNat]
  omega

/-- deregistering counts down if somebody is registered -/
theorem senderCount_subSender {s : ActorState} (h : 0 < s.senderCount.toNat) :
    s.subSender.senderCount.toNat + 1 = s.senderCount.toNat := by
  rw [senderCount_toNat] at h ⊢
  have e : s.subSender.toNat = (2 ^ 32 - 8 + s.toNat) % 2 ^ 32 := BitVec.toNat_sub s _
  rw [senderCount_toNat]
  omega

end ActorState
end ActorZeta
