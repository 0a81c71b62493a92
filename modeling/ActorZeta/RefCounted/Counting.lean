import ActorZeta.RefCounted.Program

/-!
# Reference counting frees exactly once

* `Holder.owned`      the references of a thread, with the release it is in the middle of;
* `Holder.adding`     the handle whose reference it is about to add;
* `Balanced`          what an operation does to them: it adds what it is about to pay for, and only
                      where it has a reference already;
* `Inv`               the account of each object, over all threads;
* `counts_references` every run.
-/

namespace ActorZeta

/-! ## the references of a thread -/

/-- the release that has not taken effect yet -/
def Doing.releasing (a : Nat) : Doing → Nat
  | .ref _ old => (old == some a).toNat
  | .deref b | .sub b | .delete true b => (b == a).toNat
  | _ => 0

def Doing.adding (a : Nat) : Doing → Nat
  | .ref b _ => (b == a).toNat
  | _ => 0

/-- a `delete` behind a `fetch_sub` that counted down to zero -/
def Doing.deleting (a : Nat) : Doing → Nat
  | .delete false b => (b == a).toNat
  | _ => 0

namespace Holder

def owned (a : Nat) (t : Holder) : Nat :=
  t.handles.countP (· == some a) + t.raws.countP (· == a) + t.doing.releasing a

def adding (a : Nat) (t : Holder) : Nat := t.doing.adding a

def deleting (a : Nat) (t : Holder) : Nat := t.doing.deleting a

end Holder

section
variable {t t' : Holder} {a i j k : Nat} {p old : Option Nat} {raw : RawPtr}

theorem releasing_release (old : Option Nat) :
    (Doing.release old).releasing a = (old == some a).toNat := by
  cases old <;> rfl

theorem adding_release (old : Option Nat) : (Doing.release old).adding a = 0 := by
  cases old <;> rfl

theorem releasing_addRef (p old : Option Nat) (f : Bool) :
    (Doing.addRef p f old).releasing a = (old == some a).toNat := by
  cases p with
  | none => exact releasing_release old
  | some b =>
    cases f with
    | true => rfl
    | false => exact releasing_release old

theorem adding_addRef (p old : Option Nat) (f : Bool) :
    (Doing.addRef p f old).adding a = (f && p == some a).toNat := by
  cases p with
  | none =>
    rw [Doing.addRef, adding_release]
    cases f <;> rfl
  | some b =>
    cases f with
    | true => rfl
    | false => exact adding_release old

theorem addRef_goes (p old : Option Nat) (f : Bool) (u : Bool) (b : Nat) :
    Doing.addRef p f old ≠ .delete u b := by
  cases p <;> cases f <;> cases old <;> simp [Doing.addRef, Doing.release]

theorem beq_toNat_ne {a b : Nat} (h : b ≠ a) : (a == b).toNat = 0 := by
  simp [Ne.symm h]

theorem none_beq (a : Nat) : ((none : Option Nat) == some a).toNat = 0 := rfl

theorem some_beq (b a : Nat) : (some b == some a) = (b == a) := rfl

/-- a thread begins an operation: it has the handle that it is about to pay for, and holds the
object by another reference -/
structure Balanced (t t' : Holder) : Prop where
  owned : ∀ a, t'.owned a = t.owned a + t'.adding a
  safe : ∀ a, t'.adding a = 0 ∨ t'.adding a < t'.owned a
  goes : ∀ u a, t'.doing ≠ .delete u a

/-- nothing is added -/
theorem Balanced.of_eq (ho : ∀ a, t'.owned a = t.owned a) (ha : ∀ a, t'.adding a = 0)
    (hg : ∀ u a, t'.doing ≠ .delete u a) : Balanced t t' :=
  ⟨fun a => by rw [ho, ha, Nat.add_zero], fun a => Or.inl (ha a), hg⟩

theorem owned_idle (h : t.doing = .idle) (a : Nat) :
    t.owned a = t.handles.countP (· == some a) + t.raws.countP (· == a) := by
  unfold Holder.owned
  rw [h]
  rfl

/-- a raw pointer that a thread may pass on holds a reference of its own -/
theorem pointer_owned (hr : t.pointer raw = some (some a)) :
    0 < t.handles.countP (· == some a) + t.raws.countP (· == a) := by
  cases raw with
  | null => cases hr
  | get j =>
    have hm : some a ∈ t.handles := List.mem_of_getElem? (i:=j) hr
    have := TS.countP_pos_of_mem (p:=(· == some a)) hm (by simp)
    omega
  | detached k =>
    obtain ⟨b, hb, he⟩ := Option.map_eq_some_iff.mp hr
    cases he
    have := TS.countP_pos_of_mem (p:=(· == a)) (List.mem_of_getElem? hb) (by simp)
    omega

/-- `set_ptr` with `add_ref` on a new handle -/
theorem construct_balanced (h : t.doing = .idle)
    (hp : ∀ a, p = some a → 0 < t.handles.countP (· == some a) + t.raws.countP (· == a)) :
    Balanced t (t.construct p true) := by
  have hadd : ∀ a, (t.construct p true).adding a = (p == some a).toNat := fun a =>
    adding_addRef p none true
  have hown : ∀ a, (t.construct p true).owned a = t.owned a + (p == some a).toNat := by
    intro a
    rw [owned_idle h]
    show (t.handles ++ [p]).countP _ + t.raws.countP _ + (Doing.addRef p true none).releasing a = _
    rw [releasing_addRef, List.countP_append, List.countP_singleton]
    cases p == some a <;> simp [Nat.add_right_comm]
  refine ⟨fun a => by rw [hown, hadd], fun a => ?_, fun u b => addRef_goes p none true u b⟩
  rw [hadd, hown, owned_idle h]
  cases hpa : p == some a with
  | false => exact Or.inl rfl
  | true =>
    have := hp a (beq_iff_eq.mp hpa)
    right
    rw [Bool.toNat_true]
    omega

/-- a handle gets a new pointer with `add_ref`, and releases the old one -/
theorem resetPtr_balanced (h : t.doing = .idle) (hi : t.handles[i]? = some old)
    (hp : ∀ a, p = some a → 0 < t.handles.countP (· == some a) + t.raws.countP (· == a)) :
    Balanced t (t.resetPtr i old p true) := by
  have hadd : ∀ a, (t.resetPtr i old p true).adding a = (p == some a).toNat := fun a =>
    adding_addRef p old true
  have hown : ∀ a, (t.resetPtr i old p true).owned a = t.owned a + (p == some a).toNat := by
    intro a
    rw [owned_idle h]
    show (t.handles.set i p).countP _ + t.raws.countP _ + (Doing.addRef p true old).releasing a = _
    rw [releasing_addRef]
    have := TS.countP_set hi (· == some a) p
    omega
  refine ⟨fun a => by rw [hown, hadd], fun a => ?_, fun u b => addRef_goes p old true u b⟩
  rw [hadd, hown, owned_idle h]
  cases hpa : p == some a with
  | false => exact Or.inl rfl
  | true =>
    have := hp a (beq_iff_eq.mp hpa)
    right
    rw [Bool.toNat_true]
    omega

/-- no reference is added, and the old one is released -/
theorem released_balanced {hs : List (Option Nat)} {rs : List Nat} (h : t.doing = .idle)
    (hc : ∀ a, hs.countP (· == some a) + rs.countP (· == a) + (old == some a).toNat =
      t.handles.countP (· == some a) + t.raws.countP (· == a)) :
    Balanced t ⟨hs, rs, .release old⟩ := by
  refine Balanced.of_eq (fun a => ?_) (fun a => adding_release old) fun u b => ?_
  · rw [owned_idle h, ← hc a]
    show _ + _ + (Doing.release old).releasing a = _
    rw [releasing_release]
  · cases old <;> simp [Doing.release]

/-- **An operation begins.** -/
theorem call_balanced {op : PtrOp} (h : t.doing = .idle) (hc : t.call op = some t') :
    Balanced t t' := by
  have hget : ∀ {j : Nat} {p : Option Nat}, t.handles[j]? = some p → ∀ a, p = some a →
      0 < t.handles.countP (· == some a) + t.raws.countP (· == a) := by
    rintro j _ hj a rfl
    exact pointer_owned (show t.pointer (.get j) = some (some a) from hj)
  have hraw : ∀ {raw : RawPtr} {p : Option Nat}, t.pointer raw = some p → ∀ a, p = some a →
      0 < t.handles.countP (· == some a) + t.raws.countP (· == a) := by
    rintro raw _ hr a rfl
    exact pointer_owned hr
  cases op with
  | null =>
    cases hc
    exact construct_balanced h fun a ha => by cases ha
  | fromRaw raw =>
    obtain ⟨p, hp, rfl⟩ := Option.map_eq_some_iff.mp hc
    exact construct_balanced h (hraw hp)
  | adopt k =>
    obtain ⟨b, hb, rfl⟩ := Option.map_eq_some_iff.mp hc
    show Balanced t ⟨t.handles ++ [some b], t.raws.eraseIdx k, .release none⟩
    refine released_balanced h fun a => ?_
    have := TS.countP_eraseIdx hb (· == a)
    rw [List.countP_append, List.countP_singleton]
    rw [some_beq, none_beq]
    cases hba : b == a <;> simp [hba] at this ⊢ <;> omega
  | copy j =>
    obtain ⟨p, hp, rfl⟩ := Option.map_eq_some_iff.mp hc
    exact construct_balanced h (hget hp)
  | move j =>
    obtain ⟨p, hp, rfl⟩ := Option.map_eq_some_iff.mp hc
    have he : (⟨t.handles.set j none ++ [p], t.raws, t.doing⟩ : Holder) =
        ⟨t.handles.set j none ++ [p], t.raws, .release none⟩ := by
      rw [h]
      rfl
    rw [he]
    refine released_balanced h fun a => ?_
    have := TS.countP_set hp (· == some a) none
    rw [List.countP_append, List.countP_singleton, none_beq]
    rw [none_beq] at this
    cases hpa : p == some a <;> simp [hpa] at this ⊢ <;> omega
  | assignCopy i j =>
    obtain ⟨old, hi, hc⟩ := Option.bind_eq_some_iff.mp hc
    obtain ⟨p, hp, rfl⟩ := Option.map_eq_some_iff.mp hc
    exact resetPtr_balanced h hi (hget hp)
  | assignMove i j =>
    obtain ⟨p, hj, hc⟩ := Option.bind_eq_some_iff.mp hc
    obtain ⟨old, hi, rfl⟩ := Option.map_eq_some_iff.mp hc
    refine released_balanced h fun a => ?_
    have h1 := TS.countP_set hj (· == some a) none
    have h2 := TS.countP_set hi (· == some a) p
    rw [none_beq] at h1
    dsimp only at h2 ⊢
    omega
  | assign i raw =>
    obtain ⟨old, hi, hc⟩ := Option.bind_eq_some_iff.mp hc
    obtain ⟨p, hp, rfl⟩ := Option.map_eq_some_iff.mp hc
    exact resetPtr_balanced h hi (hraw hp)
  | reset i raw =>
    obtain ⟨old, hi, hc⟩ := Option.bind_eq_some_iff.mp hc
    obtain ⟨p, hp, rfl⟩ := Option.map_eq_some_iff.mp hc
    exact resetPtr_balanced h hi (hraw hp)
  | resetAdopt i k =>
    obtain ⟨old, hi, hc⟩ := Option.bind_eq_some_iff.mp hc
    obtain ⟨b, hb, rfl⟩ := Option.map_eq_some_iff.mp hc
    refine released_balanced h fun a => ?_
    have h1 := TS.countP_set hi (· == some a) (some b)
    have h2 := TS.countP_eraseIdx hb (· == a)
    rw [some_beq] at h1
    dsimp only
    omega
  | swap i j =>
    obtain ⟨p, hi, hc⟩ := Option.bind_eq_some_iff.mp hc
    obtain ⟨q, hj, rfl⟩ := Option.map_eq_some_iff.mp hc
    have hj' : (t.handles.set i q)[j]? = some q := by
      rw [List.getElem?_set]
      split
      · rw [if_pos (List.getElem?_eq_some_iff.mp hi).1]
      · exact hj
    have he : (⟨(t.handles.set i q).set j p, t.raws, t.doing⟩ : Holder) =
        ⟨(t.handles.set i q).set j p, t.raws, .release none⟩ := by
      rw [h]
      rfl
    rw [he]
    refine released_balanced h fun a => ?_
    have h1 := TS.countP_set hi (· == some a) q
    have h2 := TS.countP_set hj' (· == some a) p
    rw [none_beq]
    omega
  | detach i =>
    obtain ⟨p, hi, rfl⟩ := Option.map_eq_some_iff.mp hc
    have he : (⟨t.handles.set i none, t.raws ++ p.toList, t.doing⟩ : Holder) =
        ⟨t.handles.set i none, t.raws ++ p.toList, .release none⟩ := by
      rw [h]
      rfl
    rw [he]
    refine released_balanced h fun a => ?_
    have h1 := TS.countP_set hi (· == some a) none
    have h2 : p.toList.countP (· == a) = (p == some a).toNat := by
      cases p with
      | none => rfl
      | some b =>
        show List.countP _ [b] = _
        rw [List.countP_singleton, some_beq]
        cases b == a <;> rfl
    rw [none_beq] at h1 ⊢
    rw [List.countP_append, h2]
    omega
  | destroy i =>
    obtain ⟨p, hp, rfl⟩ := Option.map_eq_some_iff.mp hc
    refine released_balanced h fun a => ?_
    have := TS.countP_eraseIdx hp (· == some a)
    omega

end

/-! ## the account of an object -/

namespace Counted

/-- what all threads have together -/
def total (f : Holder → Nat) : List Holder → Nat
  | [] => 0
  | t :: pool => f t + total f pool

theorem total_cons (f : Holder → Nat) (t : Holder) (pool : List Holder) :
    total f (t :: pool) = f t + total f pool := rfl

theorem total_perm {f : Holder → Nat} {p q : List Holder} (h : p.Perm q) :
    total f p = total f q := by
  induction h with
  | nil => rfl
  | cons t _ ih => rw [total_cons, total_cons, ih]
  | swap t u l =>
    rw [total_cons, total_cons, total_cons, total_cons]
    omega
  | trans _ _ ih1 ih2 => exact ih1.trans ih2

theorem le_total {f : Holder → Nat} {t : Holder} {pool : List Holder} (h : t ∈ pool) :
    f t ≤ total f pool := by
  obtain ⟨l₁, l₂, rfl⟩ := List.append_of_mem h
  rw [total_perm List.perm_middle, total_cons]
  exact Nat.le_add_right ..

theorem exists_of_total {f : Holder → Nat} {pool : List Holder} (h : 0 < total f pool) :
    ∃ t ∈ pool, 0 < f t := by
  induction pool with
  | nil => exact absurd h (Nat.lt_irrefl 0)
  | cons t pool ih =>
    rw [total_cons] at h
    by_cases ht : 0 < f t
    · exact ⟨t, List.mem_cons_self, ht⟩
    · obtain ⟨u, hu, hf⟩ := ih (by omega)
      exact ⟨u, List.mem_cons_of_mem t hu, hf⟩

/-- the references of all threads, and those on their way -/
def held (w : Counted) (pool : List Holder) (a : Nat) : Nat :=
  w.passed.countP (· == a) + total (Holder.owned a) pool

/-- every thread that is about to add a reference has another one -/
def Safe (pool : List Holder) : Prop :=
  ∀ t ∈ pool, ∀ a, t.adding a = 0 ∨ t.adding a < t.owned a

/-- if a reference is about to be added, there are more references than that -/
theorem Safe.total {pool : List Holder} (h : Safe pool) (a : Nat) :
    total (Holder.adding a) pool = 0 ∨
      total (Holder.adding a) pool < total (Holder.owned a) pool := by
  induction pool with
  | nil => exact Or.inl rfl
  | cons t pool ih =>
    rw [total_cons, total_cons]
    have h1 := h t List.mem_cons_self a
    have h2 := ih fun u hu => h u (List.mem_cons_of_mem t hu)
    omega

/-- **The account.**  `rc_` counts the references of the threads, but for those that are still to be
added; an object that is deleted has none. -/
structure Inv (w : Counted) (pool : List Holder) : Prop where
  defined : w.undefined = false
  count : ∀ a n, w.rc a = some n → n + total (Holder.adding a) pool = held w pool a
  dead : ∀ a, w.rc a = none → held w pool a = 0
  safe : Safe pool
  last : ∀ t ∈ pool, ∀ a, t.doing = .delete true a → held w pool a = 1
  zero : ∀ a, total (Holder.deleting a) pool = if w.rc a = some 0 then 1 else 0
  made : ∀ a, w.made.count a = w.deleted.count a + (w.rc a).isSome.toNat

section
variable {w w' : Counted} {t t' : Holder} {rest pool pool' : List Holder} {a n n' : Nat} {d : Doing}

theorem held_perm (h : pool.Perm pool') (a : Nat) : held w pool a = held w pool' a := by
  unfold held
  rw [total_perm h]

theorem held_cons (w : Counted) (t : Holder) (rest : List Holder) (a : Nat) :
    held w (t :: rest) a = w.passed.countP (· == a) + (t.owned a + total (Holder.owned a) rest) := by
  unfold held
  rw [total_cons]

theorem Inv.perm (h : Inv w pool) (hp : pool.Perm pool') : Inv w pool' := by
  refine ⟨h.defined, fun a n hr => ?_, fun a hr => ?_, fun t ht => h.safe t (hp.mem_iff.mpr ht),
    fun t ht a hd => ?_, fun a => ?_, h.made⟩
  · rw [← total_perm hp, ← held_perm hp]
    exact h.count a n hr
  · rw [← held_perm hp]
    exact h.dead a hr
  · rw [← held_perm hp]
    exact h.last t (hp.mem_iff.mpr ht) a hd
  · rw [← total_perm hp]
    exact h.zero a

theorem releasing_le_owned (t : Holder) (a : Nat) : t.doing.releasing a ≤ t.owned a :=
  Nat.le_add_left ..

/-- who is about to delete the object by `unique()` has its last reference -/
theorem owned_of_delete (h : t.doing = .delete true a) : 0 < t.owned a := by
  have := releasing_le_owned t a
  rw [h] at this
  simp [Doing.releasing] at this
  omega

/-- an object that a thread has a reference to lives, and its count is positive -/
theorem Inv.alive (h : Inv w pool) (ha : 0 < held w pool a) : ∃ n, w.rc a = some (n + 1) := by
  cases hr : w.rc a with
  | none =>
    rw [h.dead a hr] at ha
    omega
  | some n =>
    have hc := h.count a n hr
    have hs := h.safe.total a
    have hle : total (Holder.owned a) pool ≤ held w pool a := Nat.le_add_left ..
    cases n with
    | zero => omega
    | succ n => exact ⟨n, rfl⟩

/-- **A thread outside `ref()` and `deref()`** moves references about, and may begin to add some. -/
theorem Inv.moved (h : Inv w (t :: rest)) (hi : t.doing = .idle) (hrc : w'.rc = w.rc)
    (hu : w'.undefined = w.undefined) (hm : w'.made = w.made) (hd : w'.deleted = w.deleted)
    (hb : ∀ a, w'.passed.countP (· == a) + t'.owned a =
      w.passed.countP (· == a) + t.owned a + t'.adding a)
    (hs : ∀ a, t'.adding a = 0 ∨ t'.adding a < t'.owned a)
    (hg : ∀ u a, t'.doing ≠ .delete u a) : Inv w' (t' :: rest) := by
  have hadd : ∀ a, t.adding a = 0 := fun a => by
    unfold Holder.adding
    rw [hi]
    rfl
  have hdel : ∀ a, t.deleting a = 0 ∧ t'.deleting a = 0 := by
    intro a
    unfold Holder.deleting
    rw [hi]
    refine ⟨rfl, ?_⟩
    cases hd' : t'.doing with
    | delete u b => exact absurd hd' (hg u b)
    | idle => rfl
    | ref b old => rfl
    | deref b => rfl
    | sub b => rfl
  refine ⟨hu.trans h.defined, fun a n hr => ?_, fun a hr => ?_, ?_, ?_, fun a => ?_, fun a => ?_⟩
  · have hc := h.count a n (hrc ▸ hr)
    have hb := hb a
    have ha := hadd a
    rw [total_cons, held_cons] at hc ⊢
    omega
  · have hc := h.dead a (hrc ▸ hr)
    have hb := hb a
    have hs := hs a
    rw [held_cons] at hc ⊢
    omega
  · intro u hu
    rcases List.mem_cons.mp hu with rfl | hu
    · exact hs
    · exact h.safe u (List.mem_cons_of_mem t hu)
  · intro u hu a hd
    rcases List.mem_cons.mp hu with rfl | hu
    · exact absurd hd (hg true a)
    · have hl := h.last u (List.mem_cons_of_mem t hu) a hd
      have hle : u.owned a ≤ total (Holder.owned a) rest := le_total hu
      have hpos := owned_of_delete hd
      have hb := hb a
      have hs := hs a
      rw [held_cons] at hl ⊢
      omega
  · have hz := h.zero a
    obtain ⟨h1, h2⟩ := hdel a
    rw [hrc, ← hz, total_cons, total_cons, h1, h2]
  · rw [hm, hd, hrc]
    exact h.made a

/-- **An access to an `rc_`**, by a thread that has a reference to the object: the count goes from
`n` to `n'` as the thread's own account does. -/
theorem Inv.touched (h : Inv w (t :: rest)) (hrc : w.rc a = some n) (hown : 0 < t.owned a)
    (hd0 : ∀ b, t.doing.deleting b = 0) (hadd : ∀ b, d.adding b = 0)
    (hat : n' + t.doing.releasing a = n + t.doing.adding a + d.releasing a)
    (hne : ∀ b, b ≠ a → d.releasing b = t.doing.releasing b ∧ t.doing.adding b = 0)
    (hdel : ∀ b, d.deleting b = if b = a ∧ n' = 0 then 1 else 0)
    (hlast : ∀ b, d = .delete true b → b = a ∧ n' = 1) :
    Inv (w.setRc a (some n')) ({ t with doing := d } :: rest) := by
  have hrc' : ∀ b, (w.setRc a (some n')).rc b = if b = a then some n' else w.rc b := fun b =>
    Function.update_apply ..
  have hn : 0 < n := by
    obtain ⟨m, hm⟩ := h.alive (a:=a) (Nat.lt_of_lt_of_le hown
      (Nat.le_trans (le_total List.mem_cons_self) (Nat.le_add_left ..)))
    rw [hrc] at hm
    cases hm
    exact Nat.succ_pos m
  -- what the thread has, but for the release it is in the middle of
  have hadd' : ∀ b, Holder.adding b { t with doing := d } = 0 := hadd
  have hown' : ∀ b, Holder.owned b { t with doing := d } + t.doing.releasing b =
      t.owned b + d.releasing b := by
    intro b
    unfold Holder.owned
    dsimp only
    omega
  have hcount : ∀ b m, (w.setRc a (some n')).rc b = some m →
      m + total (Holder.adding b) ({ t with doing := d } :: rest) =
        held (w.setRc a (some n')) ({ t with doing := d } :: rest) b := by
    intro b m hb
    rw [hrc'] at hb
    have ho := hown' b
    have ht : t.adding b = t.doing.adding b := rfl
    rw [total_cons, held_cons, hadd']
    show _ = w.passed.countP _ + _
    split at hb
    · rename_i he
      cases hb
      rw [he] at ht ho ⊢
      have hc := h.count a n hrc
      rw [total_cons, held_cons] at hc
      omega
    · rename_i he
      obtain ⟨h1, h2⟩ := hne b he
      have hc := h.count b m hb
      rw [total_cons, held_cons] at hc
      omega
  have hsafe : Safe ({ t with doing := d } :: rest) := by
    intro u hu
    rcases List.mem_cons.mp hu with rfl | hu
    · exact fun b => Or.inl (hadd b)
    · exact h.safe u (List.mem_cons_of_mem t hu)
  refine ⟨h.defined, hcount, fun b hb => ?_, hsafe, ?_, fun b => ?_, fun b => ?_⟩
  · rw [hrc'] at hb
    split at hb
    · cases hb
    · rename_i he
      obtain ⟨h1, -⟩ := hne b he
      have ho := hown' b
      have hc := h.dead b hb
      rw [held_cons] at hc ⊢
      show w.passed.countP _ + _ = 0
      omega
  · intro u hu b hd
    rcases List.mem_cons.mp hu with rfl | hu
    · -- the count that `unique()` saw is its own reference
      obtain ⟨rfl, rfl⟩ := hlast b hd
      have hc := hcount b 1 (by rw [hrc', if_pos rfl])
      have hpos : 0 < Holder.owned b { t with doing := d } := owned_of_delete hd
      have hs : Safe rest := fun u hu => h.safe u (List.mem_cons_of_mem t hu)
      have hst := hs.total b
      rw [total_cons, hadd', held_cons] at hc
      rw [held_cons]
      omega
    · have hl := h.last u (List.mem_cons_of_mem t hu) b hd
      have hle : u.owned b ≤ total (Holder.owned b) rest := le_total hu
      have hpos := owned_of_delete hd
      have ho := hown' b
      rw [held_cons] at hl ⊢
      by_cases hba : b = a
      · rw [hba] at hl hle hpos
        omega
      · obtain ⟨h1, -⟩ := hne b hba
        show w.passed.countP _ + _ = 1
        omega
  · have hz := h.zero b
    have ht : t.deleting b = 0 := hd0 b
    have hd' : Holder.deleting b { t with doing := d } = _ := hdel b
    rw [total_cons, ht] at hz
    rw [total_cons, hd', hrc']
    by_cases hba : b = a
    · rw [hba, hrc, if_neg (by simp; omega)] at hz
      rw [hba, if_pos rfl]
      simp only [true_and, Option.some.injEq]
      omega
    · rw [if_neg fun hc => hba hc.1, if_neg hba]
      exact hz
  · have hm := h.made b
    show w.made.count b = w.deleted.count b + _
    rw [hrc']
    split
    · rename_i hba
      rw [hba, hrc] at hm
      rw [hba, hm]
      rfl
    · exact hm

/-- **The last release.**  Who is about to delete by `unique()` has the only reference, and who is
about to do it behind a `fetch_sub` has left none. -/
theorem Inv.last_release (h : Inv w (t :: rest)) {u : Bool} (hd : t.doing = .delete u a) :
    w.rc a = some u.toNat ∧ held w (t :: rest) a = u.toNat := by
  cases u with
  | true =>
    have hl := h.last t List.mem_cons_self a hd
    obtain ⟨n, hn⟩ := h.alive (a:=a) (by omega)
    have hc := h.count a (n + 1) hn
    have h0 : n = 0 := by omega
    rw [h0] at hn
    exact ⟨hn, hl⟩
  | false =>
    have h1 : t.deleting a = 1 := by
      unfold Holder.deleting
      rw [hd]
      simp [Doing.deleting]
    have hz := h.zero a
    rw [total_cons, h1] at hz
    have h0 : w.rc a = some 0 := by
      split at hz
      · assumption
      · omega
    have hc := h.count a 0 h0
    have hs := h.safe.total a
    have hle : total (Holder.owned a) (t :: rest) ≤ held w (t :: rest) a := Nat.le_add_left ..
    refine ⟨h0, ?_⟩
    rw [Bool.toNat_false]
    omega

/-- **`delete this`**, by whoever released the last reference. -/
theorem Inv.deleted (h : Inv w (t :: rest)) {u : Bool} (hd : t.doing = .delete u a) :
    (∃ n, w.rc a = some n) ∧
      Inv { w.setRc a none with deleted := w.deleted ++ [a] } ({ t with doing := .idle } :: rest) := by
  have hadd : ∀ b, t.adding b = 0 := fun b => by
    unfold Holder.adding
    rw [hd]
    cases u <;> rfl
  have hrel : ∀ b, b ≠ a → t.doing.releasing b = 0 := fun b hb => by
    rw [hd]
    cases u with
    | true => simp [Doing.releasing, Ne.symm hb]
    | false => rfl
  obtain ⟨hn, hheld⟩ := h.last_release hd
  have hr : t.doing.releasing a = u.toNat := by
    rw [hd]
    cases u <;> simp [Doing.releasing]
  have hone : t.deleting a + u.toNat = 1 := by
    unfold Holder.deleting
    rw [hd]
    cases u <;> simp [Doing.deleting]
  refine ⟨⟨_, hn⟩, ?_⟩
  have hrc' : ∀ b, (w.setRc a none).rc b = if b = a then none else w.rc b := fun b =>
    Function.update_apply ..
  have hown' : ∀ b, Holder.owned b { t with doing := .idle } + t.doing.releasing b = t.owned b := by
    intro b
    unfold Holder.owned
    rfl
  have hheld' : ∀ b, held { w.setRc a none with deleted := w.deleted ++ [a] }
      ({ t with doing := .idle } :: rest) b + t.doing.releasing b = held w (t :: rest) b := by
    intro b
    have := hown' b
    rw [held_cons, held_cons]
    show w.passed.countP _ + _ + _ = _
    omega
  refine ⟨h.defined, fun b m hb => ?_, fun b hb => ?_, ?_, ?_, fun b => ?_, fun b => ?_⟩
  · rw [show _ = _ from hrc' b] at hb
    split at hb
    · cases hb
    · rename_i hba
      have hc := h.count b m hb
      have := hheld' b
      rw [total_cons, hadd] at hc
      rw [total_cons]
      show m + (0 + _) = _
      rw [hrel b hba] at this
      omega
  · rw [show _ = _ from hrc' b] at hb
    have := hheld' b
    by_cases hba : b = a
    · rw [hba] at this ⊢
      omega
    · rw [if_neg hba] at hb
      have := h.dead b hb
      omega
  · intro v hv
    rcases List.mem_cons.mp hv with rfl | hv
    · exact fun b => Or.inl rfl
    · exact h.safe v (List.mem_cons_of_mem t hv)
  · intro v hv b hvd
    rcases List.mem_cons.mp hv with rfl | hv
    · cases hvd
    · have hl := h.last v (List.mem_cons_of_mem t hv) b hvd
      have hle : v.owned b ≤ total (Holder.owned b) rest := le_total hv
      have hpos := owned_of_delete hvd
      have := hheld' b
      by_cases hba : b = a
      · rw [hba] at hl hle hpos
        have ho := releasing_le_owned t a
        rw [held_cons] at hl hheld
        omega
      · rw [hrel b hba] at this
        omega
  · have hz := h.zero b
    rw [total_cons] at hz
    rw [total_cons, show _ = _ from hrc' b]
    show 0 + _ = _
    by_cases hba : b = a
    · rw [hba, hn] at hz
      rw [hba, if_pos rfl]
      simp only [Option.some.injEq] at hz
      split at hz <;> simp <;> omega
    · rw [if_neg hba]
      have : t.deleting b = 0 := by
        unfold Holder.deleting
        rw [hd]
        cases u with
        | true => rfl
        | false => simp [Doing.deleting, Ne.symm hba]
      omega
  · have hm := h.made b
    rw [show _ = _ from hrc' b]
    show w.made.count b = (w.deleted ++ [a]).count b + _
    rw [List.count_append, List.count_singleton]
    by_cases hba : b = a
    · rw [hba, hn] at hm
      rw [hba, if_pos rfl, hm]
      simp
    · rw [if_neg hba, hm]
      simp [Ne.symm hba]

theorem setRc_self (h : w.rc a = some n) : w.setRc a (some n) = w := by
  unfold Counted.setRc
  rw [← h, Function.update_eq_self]

theorem touch_alive {f : Nat → Counted × Doing} (h : w.rc a = some (n + 1)) :
    w.touch t a f = ((f (n + 1)).1, { t with doing := (f (n + 1)).2 }) := by
  unfold Counted.touch
  rw [h]

/-- **One access.** -/
theorem Inv.go (h : Inv w (t :: rest)) (hs : w.go t = some (w', t')) : Inv w' (t' :: rest) := by
  have hheld : ∀ a, t.owned a ≤ held w (t :: rest) a := fun a =>
    Nat.le_trans (le_total List.mem_cons_self) (Nat.le_add_left ..)
  unfold Counted.go at hs
  split at hs
  · cases hs
  · -- `fetch_add`: the thread has another reference
    rename_i a old hd
    have hown : 0 < t.owned a := by
      have := h.safe t List.mem_cons_self a
      unfold Holder.adding at this
      rw [hd] at this
      simp [Doing.adding] at this
      omega
    obtain ⟨n, hn⟩ := h.alive (Nat.lt_of_lt_of_le hown (hheld a))
    rw [touch_alive hn] at hs
    cases hs
    refine h.touched hn hown (fun b => by rw [hd]; rfl) (fun b => adding_release old) ?_
      (fun b hb => ?_) (fun b => ?_) fun b hb => ?_
    · rw [hd, releasing_release]
      simp [Doing.releasing, Doing.adding]
    · rw [hd, releasing_release]
      exact ⟨rfl, by simp [Doing.adding, Ne.symm hb]⟩
    · rw [if_neg (by omega)]
      cases old <;> rfl
    · cases old <;> cases hb
  · -- the load of `unique()`
    rename_i a hd
    have hown : 0 < t.owned a := by
      have := releasing_le_owned t a
      rw [hd] at this
      simp [Doing.releasing] at this
      omega
    obtain ⟨n, hn⟩ := h.alive (Nat.lt_of_lt_of_le hown (hheld a))
    rw [touch_alive hn] at hs
    cases hs
    have hdd : ∀ b, Doing.deleting b (if n + 1 = 1 then .delete true a else .sub a) = 0 := by
      intro b
      split <;> rfl
    have hlast : ∀ b, (if n + 1 = 1 then Doing.delete true a else .sub a) = .delete true b →
        b = a ∧ n + 1 = 1 := by
      intro b hb
      split at hb
      · cases hb
        exact ⟨rfl, ‹_›⟩
      · cases hb
    have hat : n + 1 + t.doing.releasing a = n + 1 + t.doing.adding a +
        Doing.releasing a (if n + 1 = 1 then .delete true a else .sub a) := by
      rw [hd]
      split <;> rfl
    have ht := h.touched hn hown (fun b => by rw [hd]; rfl) (fun b => by split <;> rfl) hat
      (fun b _ => by rw [hd]; split <;> exact ⟨rfl, rfl⟩)
      (fun b => by rw [hdd, if_neg fun hc => Nat.succ_ne_zero n hc.2]) hlast
    rw [setRc_self hn] at ht
    exact ht
  · -- `fetch_sub`
    rename_i a hd
    have hown : 0 < t.owned a := by
      have := releasing_le_owned t a
      rw [hd] at this
      simp [Doing.releasing] at this
      omega
    obtain ⟨n, hn⟩ := h.alive (Nat.lt_of_lt_of_le hown (hheld a))
    rw [touch_alive hn] at hs
    cases hs
    have hdr : ∀ b, Doing.releasing b (if n + 1 = 1 then .delete false a else .idle) = 0 := by
      intro b
      split <;> rfl
    have hat : n + t.doing.releasing a = n + 1 + t.doing.adding a +
        Doing.releasing a (if n + 1 = 1 then .delete false a else .idle) := by
      rw [hd, hdr]
      simp [Doing.releasing, Doing.adding]
    refine h.touched hn hown (fun b => by rw [hd]; rfl) (fun b => by split <;> rfl) hat
      (fun b hb => ?_) (fun b => ?_) fun b hb => ?_
    · rw [hd, hdr]
      exact ⟨(beq_toNat_ne hb).symm, rfl⟩
    · by_cases h0 : n = 0
      · rw [if_pos (by omega)]
        by_cases hba : b = a
        · rw [if_pos ⟨hba, h0⟩, hba]
          simp [Doing.deleting]
        · rw [if_neg fun hc => hba hc.1]
          simp [Doing.deleting, Ne.symm hba]
      · rw [if_neg (by omega), if_neg fun hc => h0 hc.2]
        rfl
    · split at hb <;> cases hb
  · rename_i u a hd
    obtain ⟨⟨n, hn⟩, hi⟩ := h.deleted hd
    rw [hn] at hs
    cases hs
    exact hi

theorem adding_idle (h : t.doing = .idle) (a : Nat) : t.adding a = 0 := by
  unfold Holder.adding
  rw [h]
  rfl

/-- `new T`: the count is one, and the pointer holds it -/
theorem Inv.make (h : Inv w (t :: rest)) (hi : t.doing = .idle) (hn : w.rc a = none) :
    Inv { w.setRc a (some 1) with made := w.made ++ [a] }
      ({ t with raws := t.raws ++ [a] } :: rest) := by
  have hrc' : ∀ b, (w.setRc a (some 1)).rc b = if b = a then some 1 else w.rc b := fun b =>
    Function.update_apply ..
  have hadd : ∀ b, Holder.adding b { t with raws := t.raws ++ [a] } = 0 := fun b =>
    adding_idle hi b
  have hown : ∀ b, Holder.owned b { t with raws := t.raws ++ [a] } =
      t.owned b + (a == b).toNat := by
    intro b
    unfold Holder.owned
    dsimp only
    rw [List.countP_append, List.countP_singleton]
    cases a == b with
    | true =>
      simp only [if_true, Bool.toNat_true]
      omega
    | false => rfl
  have hheld : ∀ b, held { w.setRc a (some 1) with made := w.made ++ [a] }
      ({ t with raws := t.raws ++ [a] } :: rest) b = held w (t :: rest) b + (a == b).toNat := by
    intro b
    rw [held_cons, held_cons, hown]
    show w.passed.countP _ + _ = _
    omega
  have h0 := h.dead a hn
  refine ⟨h.defined, fun b m hb => ?_, fun b hb => ?_, ?_, ?_, fun b => ?_, fun b => ?_⟩
  · rw [show _ = _ from hrc' b] at hb
    rw [hheld, total_cons, hadd]
    split at hb
    · rename_i hba
      cases hb
      have hs := h.safe.total a
      have hle : total (Holder.owned a) (t :: rest) ≤ held w (t :: rest) a := Nat.le_add_left ..
      rw [total_cons, adding_idle hi] at hs
      rw [hba, h0, beq_self_eq_true]
      simp only [Bool.toNat_true]
      omega
    · rename_i hba
      have hc := h.count b m hb
      rw [total_cons, adding_idle hi] at hc
      rw [beq_toNat_ne hba, ← hc]
      rfl
  · rw [show _ = _ from hrc' b] at hb
    split at hb
    · cases hb
    · rename_i hba
      rw [hheld, h.dead b hb, beq_toNat_ne hba]
  · intro u hu
    rcases List.mem_cons.mp hu with rfl | hu
    · exact fun b => Or.inl (hadd b)
    · exact h.safe u (List.mem_cons_of_mem t hu)
  · intro u hu b hd
    rcases List.mem_cons.mp hu with rfl | hu
    · rw [show t.doing = _ from hd] at hi
      cases hi
    · have hl := h.last u (List.mem_cons_of_mem t hu) b hd
      have hba : b ≠ a := by
        rintro rfl
        omega
      rw [hheld, hl, beq_toNat_ne hba]
  · have hz := h.zero b
    rw [show _ = _ from hrc' b]
    rw [total_cons] at hz ⊢
    show t.deleting b + _ = _
    rw [hz]
    by_cases hba : b = a
    · rw [hba, hn]
      simp
    · rw [if_neg hba]
  · have hm := h.made b
    rw [show _ = _ from hrc' b]
    show (w.made ++ [a]).count b = w.deleted.count b + _
    rw [List.count_append, List.count_singleton, hm]
    by_cases hba : b = a
    · rw [hba, if_pos rfl, hn]
      simp
    · rw [if_neg hba, beq_eq_false_iff_ne.mpr (Ne.symm hba)]
      rfl

/-- **One step of a thread.** -/
theorem Inv.exec (h : Inv w (t :: rest)) {g : PtrAct} (hs : g.exec w t = some (w', t')) :
    Inv w' (t' :: rest) := by
  cases g with
  | go => exact h.go hs
  | call op =>
    obtain ⟨hi, hs⟩ := Option.ite_none_right_eq_some.mp hs
    obtain ⟨t1, hc, he⟩ := Option.map_eq_some_iff.mp hs
    cases he
    have hb := call_balanced hi hc
    exact h.moved hi rfl rfl rfl rfl (fun a => by rw [hb.owned]; omega) hb.safe hb.goes
  | make a =>
    obtain ⟨⟨hi, hn⟩, hs⟩ := Option.ite_none_right_eq_some.mp hs
    cases hs
    exact h.make hi hn
  | pass k =>
    obtain ⟨hi, hs⟩ := Option.ite_none_right_eq_some.mp hs
    obtain ⟨b, hb, he⟩ := Option.map_eq_some_iff.mp hs
    cases he
    have hadd : ∀ a, Holder.adding a { t with raws := t.raws.eraseIdx k } = 0 := fun a =>
      adding_idle hi a
    refine h.moved hi rfl rfl rfl rfl (fun a => ?_) (fun a => Or.inl (hadd a)) fun u a hd => ?_
    · have := TS.countP_eraseIdx hb (· == a)
      rw [hadd]
      unfold Holder.owned
      dsimp only
      rw [List.countP_append, List.countP_singleton]
      cases hba : b == a <;> simp [hba] at this ⊢ <;> omega
    · rw [show t.doing = _ from hd] at hi
      cases hi
  | take k =>
    obtain ⟨hi, hs⟩ := Option.ite_none_right_eq_some.mp hs
    obtain ⟨b, hb, he⟩ := Option.map_eq_some_iff.mp hs
    cases he
    have hadd : ∀ a, Holder.adding a { t with raws := t.raws ++ [b] } = 0 := fun a =>
      adding_idle hi a
    refine h.moved hi rfl rfl rfl rfl (fun a => ?_) (fun a => Or.inl (hadd a)) fun u a hd => ?_
    · have := TS.countP_eraseIdx hb (· == a)
      rw [hadd]
      unfold Holder.owned
      dsimp only
      rw [List.countP_append, List.countP_singleton]
      cases hba : b == a <;> simp [hba] at this ⊢ <;> omega
    · rw [show t.doing = _ from hd] at hi
      cases hi

end

/-! ## runs -/

theorem inv_init : Inv init [] where
  defined := rfl
  count := fun a n h => by cases h
  dead := fun a _ => rfl
  safe := fun t h => absurd h List.not_mem_nil
  last := fun t h => absurd h List.not_mem_nil
  zero := fun a => rfl
  made := fun a => rfl

/-- a thread comes in -/
theorem Inv.enter {w : Counted} {pool : List Holder} (h : Inv w pool) : Inv w (.new :: pool) := by
  have hheld : ∀ a, held w (.new :: pool) a = held w pool a := fun a => by
    rw [held_cons]
    show _ + (0 + _) = _
    rw [Nat.zero_add]
    rfl
  have hadd : ∀ a, total (Holder.adding a) (.new :: pool) = total (Holder.adding a) pool := fun a => by
    rw [total_cons]
    exact Nat.zero_add _
  refine ⟨h.defined, fun a n hr => ?_, fun a hr => ?_, ?_, ?_, fun a => ?_, h.made⟩
  · rw [hadd, hheld]
    exact h.count a n hr
  · rw [hheld]
    exact h.dead a hr
  · intro t ht
    rcases List.mem_cons.mp ht with rfl | ht
    · exact fun a => Or.inl rfl
    · exact h.safe t ht
  · intro t ht a hd
    rcases List.mem_cons.mp ht with rfl | ht
    · cases hd
    · rw [hheld]
      exact h.last t ht a hd
  · rw [← h.zero a, total_cons]
    exact Nat.zero_add _

theorem Inv.run {as : List (TS.PoolAct Holder PtrAct)} {c : TS.Conf Counted Holder}
    (h : TS.run Counted.step ⟨init, []⟩ as = some c) : Inv c.sh c.pool := by
  refine TS.run_inv (I:=fun c : TS.Conf Counted Holder => Inv c.sh c.pool) ?_ inv_init h
  intro c a d hI hs
  rcases TS.Conf.step_cases hs with ⟨t, -, he, hp⟩ | ⟨i, g, t, t', rest, -, -, he, hp, hp'⟩
  · obtain ⟨rfl, hsh⟩ := Option.ite_none_right_eq_some.mp he
    rw [← Option.some.inj hsh]
    exact hI.enter.perm hp.symm
  · exact ((hI.perm hp).exec he).perm hp'.symm

/-- **The references to an object**: the handles whose reference is added, the pointers from `new` and
`detach()` with a thread or on their way to one, and the releases that have not taken effect. -/
def references (w : Counted) (pool : List Holder) (a : Nat) : Nat :=
  w.passed.countP (· == a) + total (fun t => t.owned a - t.adding a) pool

theorem references_held {w : Counted} {pool : List Holder} (h : Safe pool) (a : Nat) :
    references w pool a + total (Holder.adding a) pool = held w pool a := by
  unfold references held
  rw [Nat.add_assoc]
  congr 1
  induction pool with
  | nil => rfl
  | cons t pool ih =>
    have h1 := h t List.mem_cons_self a
    have h2 := ih fun u hu => h u (List.mem_cons_of_mem t hu)
    rw [total_cons, total_cons, total_cons]
    omega

theorem references_perm {w : Counted} {pool pool' : List Holder} (h : pool.Perm pool') (a : Nat) :
    references w pool a = references w pool' a := by
  unfold references
  rw [total_perm h]

/-- a thread is inside an access to `rc_`, or about to delete the object -/
def Touches (t : Holder) (a : Nat) : Prop :=
  (∃ old, t.doing = .ref a old) ∨ t.doing = .deref a ∨ t.doing = .sub a ∨ ∃ u, t.doing = .delete u a

section
variable {w : Counted} {t t' : Holder} {pool rest : List Holder} {a n : Nat}

theorem Inv.eq_references (h : Inv w pool) (hn : w.rc a = some n) : n = references w pool a := by
  have hc := h.count a n hn
  rw [← references_held h.safe] at hc
  omega

/-- who deletes is alone with the object -/
theorem Inv.deletes (h : Inv w (t :: rest)) {u : Bool} (hd : t.doing = .delete u a) :
    references w (t :: rest) a = u.toNat ∧ ∀ t' ∈ rest, ¬ Touches t' a := by
  obtain ⟨hn, hheld⟩ := h.last_release hd
  have hc := h.count a _ hn
  have hz := h.zero a
  have hr : u.toNat ≤ t.owned a := by
    have := releasing_le_owned t a
    rw [hd] at this
    cases u <;> simp [Doing.releasing] at this ⊢
    omega
  have hdel : t.deleting a + u.toNat = 1 := by
    unfold Holder.deleting
    rw [hd]
    cases u <;> simp [Doing.deleting]
  refine ⟨(h.eq_references hn).symm, fun t' ht' htouch => ?_⟩
  have h1 : t'.owned a ≤ total (Holder.owned a) rest := le_total ht'
  have h2 : t'.adding a ≤ total (Holder.adding a) rest := le_total ht'
  have h3 : t'.deleting a ≤ total (Holder.deleting a) rest := le_total ht'
  have h4 := releasing_le_owned t' a
  rw [held_cons] at hheld
  rw [total_cons] at hc hz
  -- nothing is left for another thread
  have hzero : t'.doing.releasing a = 0 ∧ t'.doing.adding a = 0 ∧ t'.doing.deleting a = 0 := by
    refine ⟨by omega, ?_, ?_⟩
    · show t'.adding a = 0
      rw [held_cons] at hc
      omega
    · show t'.deleting a = 0
      rw [hn] at hz
      cases u <;> simp at hz hdel <;> omega
  rcases htouch with ⟨old, hd'⟩ | hd' | hd' | ⟨u', hd'⟩
  · rw [hd'] at hzero
    simp [Doing.adding] at hzero
  · rw [hd'] at hzero
    simp [Doing.releasing] at hzero
  · rw [hd'] at hzero
    simp [Doing.releasing] at hzero
  · rw [hd'] at hzero
    cases u' <;> simp [Doing.releasing, Doing.deleting] at hzero

/-- an object without references is being deleted -/
theorem Inv.unreferenced (h : Inv w pool) (hn : w.rc a = some n) (h0 : references w pool a = 0) :
    ∃ t ∈ pool, t.doing = .delete false a := by
  have hz := h.zero a
  rw [hn, h.eq_references hn, h0, if_pos rfl] at hz
  have hlt : 0 < total (Holder.deleting a) pool := by omega
  obtain ⟨t, ht, hpos⟩ := exists_of_total hlt
  refine ⟨t, ht, ?_⟩
  unfold Holder.deleting at hpos
  cases hd : t.doing with
  | delete u b =>
    rw [hd] at hpos
    cases u with
    | true => simp [Doing.deleting] at hpos
    | false =>
      have hb : b = a := Classical.byContradiction fun hne =>
        absurd hpos (by rw [Doing.deleting, beq_toNat_ne (Ne.symm hne)]; exact Nat.lt_irrefl 0)
      rw [hb]
  | idle => simp [hd, Doing.deleting] at hpos
  | ref b old => simp [hd, Doing.deleting] at hpos
  | deref b => simp [hd, Doing.deleting] at hpos
  | sub b => simp [hd, Doing.deleting] at hpos

end
end Counted

/-- **Reference counting frees exactly once.**  In every run of any number of threads no `rc_` is
touched that is gone or zero, each `rc_` is the number of references whose release has not taken
effect, and a deleted object has none; every object was deleted once, unless it lives; it lives only
while it has references or a thread is about to delete it; and who deletes has the last of them, and
no other thread is about to touch the object. -/
theorem counts_references {as : List (TS.PoolAct Holder PtrAct)} {c : TS.Conf Counted Holder}
    (h : TS.run Counted.step ⟨.init, []⟩ as = some c) :
    c.sh.undefined = false ∧
      (∀ a n, c.sh.rc a = some n → n = Counted.references c.sh c.pool a) ∧
      (∀ a, c.sh.rc a = none → Counted.references c.sh c.pool a = 0) ∧
      (∀ a, c.sh.made.count a = c.sh.deleted.count a + (c.sh.rc a).isSome.toNat) ∧
      (∀ a n, c.sh.rc a = some n → Counted.references c.sh c.pool a = 0 →
        ∃ t ∈ c.pool, t.doing = .delete false a) ∧
      ∀ (i : Nat) (t : Holder) (u : Bool) (a : Nat), c.pool[i]? = some t → t.doing = .delete u a →
        Counted.references c.sh c.pool a = u.toNat ∧
          ∀ (j : Nat) (t' : Holder), c.pool[j]? = some t' → j ≠ i → ¬ Counted.Touches t' a := by
  have hI := Counted.Inv.run h
  refine ⟨hI.defined, fun a n hn => hI.eq_references hn, fun a hn => ?_, hI.made,
    fun a n hn h0 => hI.unreferenced hn h0, fun i t u a ht hd => ?_⟩
  · have := Counted.references_held (w:=c.sh) hI.safe a
    have := hI.dead a hn
    omega
  · obtain ⟨hi, rfl⟩ := List.getElem?_eq_some_iff.mp ht
    have hp : c.pool.Perm (c.pool[i] :: c.pool.eraseIdx i) :=
      (List.getElem_cons_eraseIdx_perm hi).symm
    obtain ⟨hr, hno⟩ := (hI.perm hp).deletes hd
    rw [Counted.references_perm hp]
    exact ⟨hr, fun j t' hj hne => hno t' (List.mem_eraseIdx_iff_getElem?.mpr ⟨j, hne, hj⟩)⟩

/-- two threads release their references at once: both are past `unique()` when the first one counts
down, and the second one deletes -/
theorem counts_references_crossed :
    ∃ c, TS.run Counted.step ⟨.init, []⟩
        [.spawn .new, .spawn .new, .run 0 (.make 7), .run 0 (.call (.adopt 0)),
          .run 0 (.call (.copy 0)), .run 0 .go, .run 0 (.call (.detach 1)), .run 0 (.pass 0),
          .run 1 (.take 0), .run 1 (.call (.adopt 0)), .run 1 (.call (.destroy 0)),
          .run 0 (.call (.reset 0 .null)), .run 0 .go, .run 1 .go, .run 0 .go, .run 1 .go,
          .run 1 .go] = some c ∧ c.sh.deleted = [7] ∧ c.sh.undefined = false := by
  have hrun : (TS.run Counted.step ⟨.init, []⟩
      [.spawn .new, .spawn .new, .run 0 (.make 7), .run 0 (.call (.adopt 0)),
        .run 0 (.call (.copy 0)), .run 0 .go, .run 0 (.call (.detach 1)), .run 0 (.pass 0),
        .run 1 (.take 0), .run 1 (.call (.adopt 0)), .run 1 (.call (.destroy 0)),
        .run 0 (.call (.reset 0 .null)), .run 0 .go, .run 1 .go, .run 0 .go, .run 1 .go,
        .run 1 .go]).map (fun c => c.sh.deleted) = some [7] := by decide +kernel
  obtain ⟨c, hc, hd⟩ := Option.map_eq_some_iff.mp hrun
  exact ⟨c, hc, hd, (counts_references hc).1⟩

end ActorZeta
