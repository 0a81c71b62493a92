import Mathlib.Data.List.Basic
import ActorZeta.Arguments.Types
import ActorZeta.Mailbox.Inbox

/-!
# Message identifiers

The number of a method: searched at compile time in `msg_id`, counted along the list of an actor in
`send()`, and taken over from a contract by `implements`.

* `MethodPtr`, `Program`   method pointers, and the classes with their `dispatch_traits`;
* `findMethodIndex`, `msgId`   the search of `msg_id<Actor, M>`;
* `dispatchOneImpl`, `send`, `sendAddress`   the two routes of `send()`;
* `validImplementation`    what `implements<Contract, ...>` asks for;
* `Accepted`               what the compiler accepts;
* `ids_agree_iff`          when all of them agree.
-/

namespace ActorZeta
variable {τ : Type}

/-- `unique_future<T>`, with `none` for `void`, or anything else -/
inductive ResultType (τ : Type) where
  | uniqueFuture (value : Option (CppType τ))
  | other (t : Option (QualType τ))
  deriving DecidableEq

/-- `R (C::*)(Args...) const noexcept` -/
structure MethodType (τ : Type) where
  cls : Nat
  result : ResultType τ
  args : List (QualType τ)
  isConst : Bool
  isNoexcept : Bool
  deriving DecidableEq

structure MethodPtr (τ : Type) where
  type : MethodType τ
  name : Nat
  deriving DecidableEq

/-- `dispatch_traits<...>`, or `implements<Contract, ...>` -/
structure Traits (τ : Type) where
  methods : List (MethodPtr τ)
  contract : Option Nat

/-- the classes by number, and which of them are a `cooperative_actor` -/
structure Program (τ : Type) where
  cc : Compiler τ
  traits : Nat → Option (Traits τ)
  isCooperativeActor : Nat → Bool

/-! ## the identifiers -/

/-- `make_message_id(value)` of normal priority -/
def makeMessageId (value : Nat) : BitVec 64 :=
  BitVec.ofNat 64 value ||| normalMessagePriority <<< 60

section
variable [DecidableEq τ]

/-- `is_same_ptr`: one type and one value -/
def isSamePtr (search current : MethodPtr τ) : Bool := search == current

/-- the loop of `find_method_index` -/
def firstMatch : Nat → List Bool → Nat
  | _, [] => 0
  | i, m :: ms => if m then i else firstMatch (i + 1) ms

def findMethodIndex (search : MethodPtr τ) (ptrs : List (MethodPtr τ)) : Nat :=
  firstMatch 0 (ptrs.map (isSamePtr search))

/-- `msg_id<Actor, M>`, with the traits of the actor -/
def msgId (t : Traits τ) (m : MethodPtr τ) : BitVec 64 :=
  makeMessageId (findMethodIndex m t.methods)

/-- `dispatch_one_impl::dispatch`, the text of `dispatch_one_impl_address` too: the id that
`dispatch_method_impl` stamps; `none` where it aborts -/
def dispatchOneImpl (method : MethodPtr τ) : List (MethodPtr τ × Nat) → Option (BitVec 64)
  | [] => none
  | (first, index) :: rest =>
    if method.type = first.type then
      if method = first then some (makeMessageId index) else dispatchOneImpl method rest
    else dispatchOneImpl method rest

def dispatchImpl (method : MethodPtr τ) (ptrs : List (MethodPtr τ)) : Option (BitVec 64) :=
  dispatchOneImpl method ptrs.zipIdx

/-- `method_signature_exists` -/
def methodSignatureExists (type : MethodType τ) (ptrs : List (MethodPtr τ)) : Bool :=
  ptrs.any fun p => p.type == type

namespace Program
variable (p : Program τ)

/-- `send(actor, method, args...)`: `Actor` is the class of the method -/
def send (method : MethodPtr τ) : Option (BitVec 64) :=
  (p.traits method.type.cls).bind fun t => dispatchImpl method t.methods

/-- `send(address, method, args...)`, for an interface and for an actor -/
def sendAddress (method : MethodPtr τ) : Option (BitVec 64) :=
  (p.traits method.type.cls).bind fun t => dispatchImpl method t.methods

/-- `validate_method_for_send` -/
def canSend (method : MethodPtr τ) : Bool :=
  match p.traits method.type.cls with
  | some t => methodSignatureExists method.type t.methods
  | none => false

end Program
end

/-! ## what the compiler accepts -/

def ResultType.isUniqueFuture : ResultType τ → Bool
  | uniqueFuture _ => true
  | other _ => false

namespace Program
variable (p : Program τ)

/-- `dispatch_traits_parser`: every method is a coroutine with valid parameters -/
def parserValid (ptrs : List (MethodPtr τ)) : Bool :=
  ptrs.all fun m => m.type.result.isUniqueFuture && p.cc.coroutineParameterCheck m.type.args

/-- `is_interface` -/
def isInterface (c : Nat) : Bool := (p.traits c).isSome && !p.isCooperativeActor c

variable [DecidableEq τ]

/-- `check_one` of `signatures_match`: classes and qualifiers may differ -/
def checkOne (c a : MethodPtr τ) : Bool :=
  c.type.result == a.type.result && c.type.args == a.type.args

def signaturesMatch (contract actor : List (MethodPtr τ)) : Bool :=
  (List.zipWith checkOne contract actor).all id

/-- `valid_implementation` -/
def validImplementation (contract : Nat) (ptrs : List (MethodPtr τ)) : Bool :=
  match p.traits contract with
  | none => false
  | some t => p.isInterface contract && ptrs.length == t.methods.length && p.parserValid ptrs &&
      signaturesMatch t.methods ptrs

/-- the program compiles; `sized`: an identifier has 60 bits for the position in the list, and no
list of template arguments is longer than that -/
structure Accepted (p : Program τ) : Prop where
  sized : ∀ c t, p.traits c = some t → t.methods.length ≤ 2 ^ 60
  parsed : ∀ c t, p.traits c = some t → p.parserValid t.methods = true
  implemented : ∀ c t k, p.traits c = some t → t.contract = some k →
    p.validImplementation k t.methods = true

/-- one identifier for a method on every route, and through the contract -/
structure IdsAgree (p : Program τ) : Prop where
  routes : ∀ c t m, p.traits c = some t → m ∈ t.methods → p.canSend m = true →
    p.send m = some (msgId t m) ∧ p.sendAddress m = some (msgId t m)
  distinct : ∀ c t m n, p.traits c = some t → m ∈ t.methods → n ∈ t.methods → m ≠ n →
    msgId t m ≠ msgId t n
  contract : ∀ c t k u, p.traits c = some t → t.contract = some k → p.traits k = some u →
    ∀ (i : Nat) (m d : MethodPtr τ), t.methods[i]? = some m → u.methods[i]? = some d →
      msgId t m = msgId u d ∧ ∀ n ∈ t.methods, msgId t n = msgId u d ↔ n = m

/-- an inherited method stands at the same place in the list of its own class -/
def Inherited (p : Program τ) : Prop :=
  ∀ c t m own, p.traits c = some t → m ∈ t.methods → p.traits m.type.cls = some own →
    p.canSend m = true → m ∈ own.methods ∧ own.methods.idxOf m = t.methods.idxOf m

/-- an actor repeats a method where its contract repeats one, and nowhere else -/
def RepeatsAlike (p : Program τ) : Prop :=
  ∀ c t k u, p.traits c = some t → t.contract = some k → p.traits k = some u →
    ∀ (i j : Nat) (m n d e : MethodPtr τ), t.methods[i]? = some m → t.methods[j]? = some n →
      u.methods[i]? = some d → u.methods[j]? = some e → (m = n ↔ d = e)

end Program

/-! ## positions -/

section
variable [DecidableEq τ]

theorem firstMatch_idxOf {m : MethodPtr τ} {l : List (MethodPtr τ)} (h : m ∈ l) :
    ∀ i, firstMatch i (l.map (isSamePtr m)) = i + l.idxOf m := by
  induction l with
  | nil => cases h
  | cons p l ih =>
    intro i
    show (if isSamePtr m p then i else firstMatch (i + 1) (l.map (isSamePtr m))) = _
    by_cases hmp : m = p
    · subst hmp
      rw [List.idxOf_cons_self]
      exact if_pos (beq_self_eq_true m)
    · have hm : m ∈ l := (List.mem_cons.mp h).resolve_left hmp
      have hne : ¬ isSamePtr m p = true := fun hb => hmp (beq_iff_eq.mp hb)
      rw [List.idxOf_cons_ne l (Ne.symm hmp), if_neg hne, ih hm]
      omega

/-- the search finds the first position -/
theorem findMethodIndex_eq {m : MethodPtr τ} {l : List (MethodPtr τ)} (h : m ∈ l) :
    findMethodIndex m l = l.idxOf m := by
  unfold findMethodIndex
  rw [firstMatch_idxOf h, Nat.zero_add]

theorem dispatchOneImpl_zipIdx (m : MethodPtr τ) (l : List (MethodPtr τ)) : ∀ i,
    dispatchOneImpl m (l.zipIdx i) =
      if m ∈ l then some (makeMessageId (i + l.idxOf m)) else none := by
  induction l with
  | nil => exact fun i => rfl
  | cons p l ih =>
    intro i
    rw [List.zipIdx_cons, dispatchOneImpl]
    by_cases hmp : m = p
    · subst hmp
      rw [if_pos rfl, if_pos rfl, if_pos List.mem_cons_self, List.idxOf_cons_self]
      rfl
    · have hsame : (if m.type = p.type then if m = p then some (makeMessageId i)
          else dispatchOneImpl m (l.zipIdx (i + 1)) else dispatchOneImpl m (l.zipIdx (i + 1))) =
          dispatchOneImpl m (l.zipIdx (i + 1)) := by
        rw [if_neg hmp, ite_self]
      rw [hsame, ih, List.idxOf_cons_ne l (Ne.symm hmp)]
      have hmem : m ∈ p :: l ↔ m ∈ l := by
        rw [List.mem_cons]
        exact or_iff_right hmp
      simp only [hmem, show i + 1 + l.idxOf m = i + (l.idxOf m + 1) by omega]

/-- so does the walk along the list -/
theorem dispatchImpl_eq (m : MethodPtr τ) (l : List (MethodPtr τ)) : dispatchImpl m l =
    if m ∈ l then some (makeMessageId (l.idxOf m)) else none := by
  unfold dispatchImpl
  rw [dispatchOneImpl_zipIdx, Nat.zero_add]

theorem makeMessageId_inj {i j : Nat} (hi : i < 2 ^ 60) (hj : j < 2 ^ 60)
    (h : makeMessageId i = makeMessageId j) : i = j := by
  have hnat : ∀ {n : Nat}, n < 2 ^ 60 → (makeMessageId n).toNat = 2 ^ 60 + n := by
    intro n hn
    have hone : (normalMessagePriority <<< 60).toNat = 2 ^ 60 * 1 := by decide
    unfold makeMessageId
    rw [BitVec.toNat_or, BitVec.toNat_ofNat, Nat.mod_eq_of_lt (by omega), hone, Nat.or_comm,
      ← Nat.two_pow_add_eq_or_of_lt hn, Nat.mul_one]
  have hnats := congrArg BitVec.toNat h
  rw [hnat hi, hnat hj] at hnats
  omega

namespace Program
variable {p : Program τ}

theorem Accepted.idxOf_lt (hp : Accepted p) {c : Nat} {t : Traits τ} {m : MethodPtr τ}
    (ht : p.traits c = some t) (hm : m ∈ t.methods) : t.methods.idxOf m < 2 ^ 60 :=
  Nat.lt_of_lt_of_le (List.idxOf_lt_length_iff.mpr hm) (hp.sized c t ht)

/-- an identifier tells the position -/
theorem Accepted.msgId_eq_iff (hp : Accepted p) {c k : Nat} {t u : Traits τ} {m d : MethodPtr τ}
    (ht : p.traits c = some t) (hu : p.traits k = some u) (hm : m ∈ t.methods)
    (hd : d ∈ u.methods) : msgId t m = msgId u d ↔ t.methods.idxOf m = u.methods.idxOf d := by
  unfold msgId
  rw [findMethodIndex_eq hm, findMethodIndex_eq hd]
  constructor
  · exact makeMessageId_inj (hp.idxOf_lt ht hm) (hp.idxOf_lt hu hd)
  · intro h
    rw [h]

/-- two lists of the same length that repeat alike have their elements at the same first places -/
theorem idxOf_eq_of_alike {l k : List (MethodPtr τ)} (hlen : l.length = k.length)
    (h : ∀ (i j : Nat) (m n d e : MethodPtr τ), l[i]? = some m → l[j]? = some n →
      k[i]? = some d → k[j]? = some e → (m = n ↔ d = e))
    {i : Nat} {m d : MethodPtr τ} (hm : l[i]? = some m) (hd : k[i]? = some d) :
    l.idxOf m = k.idxOf d := by
  have hle : ∀ {l k : List (MethodPtr τ)} {m d : MethodPtr τ}, l.length = k.length → m ∈ l →
      (∀ (j : Nat) (n e : MethodPtr τ), l[j]? = some n → k[j]? = some e → m = n → d = e) →
      k.idxOf d ≤ l.idxOf m := by
    intro l k m d hlen hm hto
    have hlt : l.idxOf m < l.length := List.idxOf_lt_length_iff.mpr hm
    have hltk : l.idxOf m < k.length := hlen ▸ hlt
    have hat : l[l.idxOf m]? = some m := by
      rw [List.getElem?_eq_getElem hlt, List.getElem_idxOf]
    have hd := hto _ _ _ hat (List.getElem?_eq_getElem hltk) rfl
    refine Nat.le_of_not_lt fun hgt => ?_
    have hne : (k[l.idxOf m] == d) = false := List.not_of_lt_findIdx hgt
    rw [hd, beq_self_eq_true] at hne
    cases hne
  refine Nat.le_antisymm (hle hlen.symm (List.mem_of_getElem? hd) fun j e n he hn hde => ?_)
    (hle hlen (List.mem_of_getElem? hm) fun j n e hn he hmn => ?_)
  · exact (h i j m n d e hm hn hd he).mpr hde
  · exact (h i j m n d e hm hn hd he).mp hmn

/-! ## when they agree -/

/-- a contract and an actor have lists of the same length -/
theorem Accepted.contract_length (hp : Accepted p) {c k : Nat} {t u : Traits τ}
    (ht : p.traits c = some t) (hk : t.contract = some k) (hu : p.traits k = some u) :
    t.methods.length = u.methods.length := by
  have hv := hp.implemented c t k ht hk
  unfold validImplementation at hv
  rw [hu] at hv
  simp only [Bool.and_eq_true, beq_iff_eq] at hv
  exact hv.1.1.2

theorem route_iff (hp : Accepted p) {c : Nat} {t own : Traits τ} {m : MethodPtr τ}
    (ht : p.traits c = some t) (hm : m ∈ t.methods) (hown : p.traits m.type.cls = some own) :
    p.send m = some (msgId t m) ↔
      m ∈ own.methods ∧ own.methods.idxOf m = t.methods.idxOf m := by
  unfold send msgId
  rw [hown, Option.bind_some, dispatchImpl_eq, findMethodIndex_eq hm]
  by_cases hmo : m ∈ own.methods
  · rw [if_pos hmo]
    refine ⟨fun h => ⟨hmo, ?_⟩, fun h => by rw [h.2]⟩
    exact makeMessageId_inj (hp.idxOf_lt hown hmo) (hp.idxOf_lt ht hm) (Option.some.inj h)
  · rw [if_neg hmo]
    constructor
    · intro h
      cases h
    · intro h
      exact absurd h.1 hmo

/-- the list of its own class has the method that `send()` is called for -/
theorem canSend_own {m : MethodPtr τ} (h : p.canSend m = true) :
    ∃ own, p.traits m.type.cls = some own := by
  unfold canSend at h
  rcases hown : p.traits m.type.cls with _ | own
  · rw [hown] at h
    cases h
  · exact ⟨own, rfl⟩

/-- two registered methods of one actor have one identifier only if they are one -/
theorem Accepted.distinct (hp : Accepted p) {c : Nat} {t : Traits τ} {m n : MethodPtr τ}
    (ht : p.traits c = some t) (hm : m ∈ t.methods) (hn : n ∈ t.methods) :
    msgId t m = msgId t n ↔ m = n := by
  rw [hp.msgId_eq_iff ht ht hm hn]
  exact List.idxOf_inj hm

/-- **When the identifiers agree.**  Two different methods of an actor never share one.  `send()` and
`msg_id` agree, on both routes, exactly for the methods of the actor's own class and those that
their own class lists first at the same place; an actor and its contract agree exactly when the
actor repeats a method where the contract does. -/
theorem ids_agree_iff (p : Program τ) (hp : Accepted p) :
    IdsAgree p ↔ Inherited p ∧ RepeatsAlike p := by
  constructor
  · intro h
    refine ⟨fun c t m own ht hm hown hsend => ?_, ?_⟩
    · exact (route_iff hp ht hm hown).mp (h.routes c t m ht hm hsend).1
    · intro c t k u ht hk hu i j m n d e hm hn hd he
      have hmd := (h.contract c t k u ht hk hu i m d hm hd).1
      have hne := (h.contract c t k u ht hk hu j n e hn he).1
      rw [← hp.distinct ht (List.mem_of_getElem? hm) (List.mem_of_getElem? hn), hmd, hne,
        hp.distinct hu (List.mem_of_getElem? hd) (List.mem_of_getElem? he)]
  · rintro ⟨hin, hrep⟩
    refine ⟨fun c t m ht hm hsend => ?_, fun c t m n ht hm hn hmn => ?_, ?_⟩
    · obtain ⟨own, hown⟩ := canSend_own hsend
      have hroute := (route_iff hp ht hm hown).mpr (hin c t m own ht hm hown hsend)
      exact ⟨hroute, hroute⟩
    · exact fun h => hmn ((hp.distinct ht hm hn).mp h)
    · intro c t k u ht hk hu i m d hm hd
      have hlen := hp.contract_length ht hk hu
      have hmt := List.mem_of_getElem? hm
      have hdu := List.mem_of_getElem? hd
      have hsame : msgId t m = msgId u d := (hp.msgId_eq_iff ht hu hmt hdu).mpr
        (idxOf_eq_of_alike hlen (hrep c t k u ht hk hu) hm hd)
      refine ⟨hsame, fun n hn => ?_⟩
      rw [← hsame]
      exact hp.distinct ht hn hmt

end Program
end

/-! ## three programs -/

/-- no method is repeated on either side -/
theorem repeats_of_nodup {l k : List (MethodPtr τ)} (hl : l.Nodup) (hk : k.Nodup) {i j : Nat}
    {m n d e : MethodPtr τ} (hm : l[i]? = some m) (hn : l[j]? = some n) (hd : k[i]? = some d)
    (he : k[j]? = some e) : m = n ↔ d = e := by
  have hinj : ∀ {l : List (MethodPtr τ)} {m n : MethodPtr τ}, l.Nodup → l[i]? = some m →
      l[j]? = some n → m = n → i = j := by
    intro l m n hl hm hn hmn
    obtain ⟨hi, -⟩ := List.getElem?_eq_some_iff.mp hm
    exact (List.getElem?_inj hi hl).mp (by rw [hm, hn, hmn])
  constructor
  · intro hmn
    rw [← hinj hl hm hn hmn, hd] at he
    exact Option.some.inj he
  · intro hde
    rw [← hinj hk hd he hde, hm] at hn
    exact Option.some.inj hn

/-- `unique_future<void> C::m()` -/
def voidMethod (cls name : Nat) : MethodPtr Arithmetic :=
  ⟨⟨cls, .uniqueFuture none, [], false, false⟩, name⟩

/-- class 0, a contract, and class 1, an actor -/
def twoClasses (contract actor : List (MethodPtr Arithmetic)) (implemented : Option Nat) :
    Program Arithmetic where
  cc := lp64
  traits
    | 0 => some ⟨contract, none⟩
    | 1 => some ⟨actor, implemented⟩
    | _ => none
  isCooperativeActor c := c == 1

theorem twoClasses_accepted {contract actor : List (MethodPtr Arithmetic)} {k : Option Nat}
    (hc : contract.length ≤ 2 ^ 60) (ha : actor.length ≤ 2 ^ 60)
    (hpc : (twoClasses contract actor k).parserValid contract = true)
    (hpa : (twoClasses contract actor k).parserValid actor = true)
    (hv : ∀ c, k = some c → (twoClasses contract actor k).validImplementation c actor = true) :
    Program.Accepted (twoClasses contract actor k) := by
  refine ⟨fun c t ht => ?_, fun c t ht => ?_, fun c t i ht hi => ?_⟩
  · match c with
    | 0 =>
      cases ht
      exact hc
    | 1 =>
      cases ht
      exact ha
    | c + 2 => cases ht
  · match c with
    | 0 =>
      cases ht
      exact hpc
    | 1 =>
      cases ht
      exact hpa
    | c + 2 => cases ht
  · match c with
    | 0 =>
      cases ht
      cases hi
    | 1 =>
      cases ht
      exact hv i hi
    | c + 2 => cases ht

theorem ids_agree_iff_contract : Program.IdsAgree
    (twoClasses [voidMethod 0 0, voidMethod 0 1] [voidMethod 1 0, voidMethod 1 1] (some 0)) := by
  refine (Program.ids_agree_iff _ (twoClasses_accepted (by decide) (by decide) (by decide)
    (by decide) (fun c hc => ?_))).mpr ⟨fun c t m own ht hm hown _ => ?_, ?_⟩
  · cases hc
    decide
  · -- every method is of the class that lists it
    have hsame : m.type.cls = c := by
      have hcontract : ∀ m ∈ [voidMethod 0 0, voidMethod 0 1], m.type.cls = 0 := by decide
      have hactor : ∀ m ∈ [voidMethod 1 0, voidMethod 1 1], m.type.cls = 1 := by decide
      match c with
      | 0 =>
        cases ht
        exact hcontract m hm
      | 1 =>
        cases ht
        exact hactor m hm
      | c + 2 => cases ht
    rw [hsame, ht] at hown
    cases hown
    exact ⟨hm, rfl⟩
  · intro c t k u ht hk hu i j m n d e hm hn hd he
    match c with
    | 0 =>
      cases ht
      cases hk
    | 1 =>
      cases ht
      cases hk
      cases hu
      exact repeats_of_nodup (by decide) (by decide) hm hn hd he
    | c + 2 => cases ht

/-- An actor that implements both methods of its contract by one; and an actor that lists a method
of its own before one that it inherits. -/
theorem repeated_collapse :
    (∃ contract actor : List (MethodPtr Arithmetic),
      contract = [voidMethod 0 0, voidMethod 0 1] ∧ actor = [voidMethod 1 0, voidMethod 1 0] ∧
      Program.Accepted (twoClasses contract actor (some 0)) ∧
      ¬ Program.IdsAgree (twoClasses contract actor (some 0))) ∧
    (∃ contract actor : List (MethodPtr Arithmetic),
      contract = [voidMethod 0 0] ∧ actor = [voidMethod 1 0, voidMethod 0 0] ∧
      Program.Accepted (twoClasses contract actor none) ∧
      ¬ Program.IdsAgree (twoClasses contract actor none)) := by
  refine ⟨⟨_, _, rfl, rfl, twoClasses_accepted (by decide) (by decide) (by decide) (by decide)
    (fun c hc => ?_), fun h => ?_⟩, ⟨_, _, rfl, rfl, twoClasses_accepted (by decide) (by decide)
    (by decide) (by decide) (fun c hc => ?_), fun h => ?_⟩⟩
  · cases hc
    decide
  · have hids := (h.contract 1 _ 0 _ rfl rfl rfl 1 _ _ rfl rfl).1
    revert hids
    decide
  · cases hc
  · have hids := (h.routes 1 _ (voidMethod 0 0) rfl (by decide) (by decide)).1
    revert hids
    decide

end ActorZeta
