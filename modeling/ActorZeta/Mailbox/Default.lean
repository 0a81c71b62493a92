import ActorZeta.Mailbox.Inbox

/-!
# default_mailbox: the inbox and the two cached lists

* `insertAfter`, `beforeEnd`   `linked_list` as a list; an iterator is the number of elements up to
                               and with the one it points at, so `&head_` is 0;
* `distribute`     the loop of `fetch_more`: the chain, newest first, each message inserted behind
                   the insertion point of its list;
* `fetched_queue`  what that comes to: behind what was cached, the chain reversed and split by
                   priority;
* `popCached`      the first two attempts of `pop_front_impl`;
* `Fetch`          `fetch_more` as a thread;
* `held`, `heldOf` what the mailbox holds, and what it holds of one priority, oldest first.
-/

namespace ActorZeta

/-! ## linked_list -/

section
variable {α : Type}

def insertAfter (l : List α) (pos : Nat) (x : α) : List α := l.take pos ++ x :: l.drop pos

/-- `before_end()` -/
def beforeEnd (l : List α) : Nat := l.length

theorem insertAfter_append (l r : List α) (x : α) :
    insertAfter (l ++ r) l.length x = l ++ x :: r := by
  unfold insertAfter
  rw [List.take_left, List.drop_left]

end

/-! ## default_mailbox_impl -/

/-- the messages of one priority, in their order -/
def ofPriority {β : Type} (high : Bool) (l : List (Message β)) : List (Message β) :=
  l.filter fun m => m.isHighPriority == high

section
variable {β : Type} (high : Bool)

@[simp] theorem ofPriority_nil : ofPriority high ([] : List (Message β)) = [] := rfl

theorem ofPriority_cons (m : Message β) (l : List (Message β)) :
    ofPriority high (m :: l) =
      if m.isHighPriority == high then m :: ofPriority high l else ofPriority high l :=
  List.filter_cons

@[simp] theorem ofPriority_append (l r : List (Message β)) :
    ofPriority high (l ++ r) = ofPriority high l ++ ofPriority high r := List.filter_append ..

theorem ofPriority_perm (l : List (Message β)) :
    (ofPriority true l ++ ofPriority false l).Perm l := by
  have h := List.filter_append_perm (fun m : Message β => m.isHighPriority == true) l
  have e : (fun m : Message β => !(m.isHighPriority == true))
      = fun m => m.isHighPriority == false := by
    funext m
    cases m.isHighPriority <;> rfl
  rwa [e] at h

end

structure Mailbox (β : Type) where
  urgent : List (Message β)
  normal : List (Message β)
  inbox : Inbox β
  deriving DecidableEq, Repr

namespace Mailbox
variable {β : Type}

def empty : Mailbox β := ⟨[], [], .stack []⟩

/-- `cached()` -/
def cached (mb : Mailbox β) : Nat := mb.urgent.length + mb.normal.length

/-- the loop of `fetch_more`, with its two insertion points -/
def distribute (u n : Nat) :
    List (Message β) → List (Message β) × List (Message β) → List (Message β) × List (Message β)
  | [], q => q
  | m :: chain, (us, ns) => distribute u n chain
      (if m.isHighPriority then (insertAfter us u m, ns) else (us, insertAfter ns n m))

/-- the lists after the loop of `fetch_more` -/
def fetched (mb : Mailbox β) (chain : List (Message β)) : Mailbox β :=
  let q := distribute (beforeEnd mb.urgent) (beforeEnd mb.normal) chain (mb.urgent, mb.normal)
  { mb with urgent := q.1, normal := q.2 }

/-- the two list pops of `pop_front_impl` -/
def popCached (mb : Mailbox β) : Option (Message β × Mailbox β) :=
  match mb.urgent with
  | m :: us => some (m, { mb with urgent := us })
  | [] => match mb.normal with
    | m :: ns => some (m, { mb with normal := ns })
    | [] => none

def tryBlock (mb : Mailbox β) : Bool × Mailbox β :=
  if mb.cached = 0 then (mb.inbox.tryBlock.1, { mb with inbox := mb.inbox.tryBlock.2 })
  else (false, mb)

def tryUnblock (mb : Mailbox β) : Bool × Mailbox β :=
  (mb.inbox.tryUnblock.1, { mb with inbox := mb.inbox.tryUnblock.2 })

/-- everything in the mailbox -/
def held (mb : Mailbox β) : List (Message β) := mb.urgent ++ mb.normal ++ mb.inbox.chain

/-- the list of one priority -/
def queue (mb : Mailbox β) (high : Bool) : List (Message β) :=
  if high then mb.urgent else mb.normal

/-- what the mailbox holds of one priority, oldest first -/
def heldOf (mb : Mailbox β) (high : Bool) : List (Message β) :=
  mb.queue high ++ ofPriority high mb.inbox.chain.reverse

/-- the cached lists hold the messages of their own priority -/
def Sorted (mb : Mailbox β) : Prop := ∀ high, ∀ m ∈ mb.queue high, m.isHighPriority = high

/-! ### the loop of fetch_more -/

/-- the insertion points stay, so every message lands in front of the ones inserted before it -/
theorem distribute_eq (us ns : List (Message β)) (chain : List (Message β)) :
    ∀ ru rn, distribute us.length ns.length chain (us ++ ru, ns ++ rn) =
      (us ++ (ofPriority true chain.reverse ++ ru), ns ++ (ofPriority false chain.reverse ++ rn)) := by
  induction chain with
  | nil => intro ru rn; rfl
  | cons m chain ih =>
    intro ru rn
    unfold distribute
    rw [List.reverse_cons, ofPriority_append, ofPriority_append]
    cases hm : m.isHighPriority with
    | true =>
      rw [if_pos rfl, insertAfter_append, ih (m :: ru) rn]
      simp [ofPriority_cons, hm]
    | false =>
      rw [if_neg (by decide), insertAfter_append, ih ru (m :: rn)]
      simp [ofPriority_cons, hm]

theorem fetched_queue (mb : Mailbox β) (chain : List (Message β)) (high : Bool) :
    (mb.fetched chain).queue high = mb.queue high ++ ofPriority high chain.reverse := by
  have h := distribute_eq mb.urgent mb.normal chain [] []
  simp only [List.append_nil] at h
  unfold fetched beforeEnd
  rw [h]
  cases high <;> rfl

@[simp] theorem fetched_inbox (mb : Mailbox β) (chain : List (Message β)) :
    (mb.fetched chain).inbox = mb.inbox := rfl

/-- the lists after a fetch hold what they held, and the chain -/
theorem fetched_perm (mb : Mailbox β) (chain : List (Message β)) :
    ((mb.fetched chain).urgent ++ (mb.fetched chain).normal).Perm
      (mb.urgent ++ mb.normal ++ chain) := by
  have hu : (mb.fetched chain).urgent = _ := fetched_queue mb chain true
  have hn : (mb.fetched chain).normal = _ := fetched_queue mb chain false
  rw [hu, hn]
  have hs := (ofPriority_perm chain.reverse).trans (List.reverse_perm chain)
  have hswap : (ofPriority true chain.reverse ++ (mb.normal ++ ofPriority false chain.reverse)).Perm
      (mb.normal ++ (ofPriority true chain.reverse ++ ofPriority false chain.reverse)) := by
    rw [← List.append_assoc, ← List.append_assoc]
    exact List.Perm.append_right _ List.perm_append_comm
  have hall := ((hswap.trans (hs.append_left _)).append_left mb.urgent)
  simpa [queue] using hall

/-- a fetch only adds to the lists -/
theorem fetched_cached (mb : Mailbox β) (chain : List (Message β)) :
    (mb.fetched chain).cached = mb.cached + chain.length := by
  have h := (fetched_perm mb chain).length_eq
  simpa [cached, Nat.add_assoc] using h

/-! ## fetch_more and close as threads -/

/-- one access of `fetch_more()` to the inbox; a chain in hand is distributed -/
def fetchStep (weak : Bool) (mb : Mailbox β) (t : TakeHead β) : Option (Mailbox β × TakeHead β) :=
  (t.step .emptyTag weak mb.inbox).map fun r => match r.2 with
    | .done chain => ({ mb with inbox := r.1 }.fetched chain, .done chain)
    | t => ({ mb with inbox := r.1 }, t)

/-- one access of `close_impl()` to the inbox -/
def closeStep (weak : Bool) (mb : Mailbox β) (t : TakeHead β) : Option (Mailbox β × TakeHead β) :=
  (t.step .closedTag weak mb.inbox).map fun r => ({ mb with inbox := r.1 }, r.2)

/-- `close_impl()` up to `inbox_.close`: both lists are drained -/
def drained (mb : Mailbox β) : Mailbox β := { mb with urgent := [], normal := [] }

theorem fetched_nil (mb : Mailbox β) : mb.fetched [] = mb := rfl

/-- everything a step of `fetch_more()` can do: look again, find nothing, or fetch the chain -/
theorem fetchStep_cases {weak : Bool} {mb mb' : Mailbox β} {t t' : TakeHead β}
    (h : fetchStep weak mb t = some (mb', t')) :
    (mb' = mb ∧ ∃ last, t' = .cas last) ∨
    (mb' = mb ∧ mb.inbox = .stack [] ∧ t' = .done []) ∨
    ∃ l, l ≠ [] ∧ mb.inbox = .stack l ∧ mb' = { mb with inbox := .stack [] }.fetched l ∧
      t' = .done l := by
  obtain ⟨⟨b, u⟩, hu, he⟩ := Option.map_eq_some_iff.mp h
  rcases TakeHead.step_empty hu with ⟨rfl, last, rfl⟩ | ⟨rfl, hb, rfl⟩ | ⟨l, hl, hb, rfl, rfl⟩
  · cases he
    exact Or.inl ⟨rfl, last, rfl⟩
  · cases he
    exact Or.inr (Or.inl ⟨fetched_nil mb, hb, rfl⟩)
  · cases he
    exact Or.inr (Or.inr ⟨l, hl, hb, rfl, rfl⟩)

theorem closeStep_cases {weak : Bool} {mb mb' : Mailbox β} {t t' : TakeHead β}
    (h : closeStep weak mb t = some (mb', t')) :
    (mb' = mb ∧ ∃ last, t' = .cas last) ∨
    (mb' = mb ∧ mb.inbox = .closed ∧ t' = .done []) ∨
    (mb.inbox ≠ .closed ∧ mb' = { mb with inbox := .closed } ∧ t' = .done mb.inbox.chain) := by
  obtain ⟨⟨b, u⟩, hu, he⟩ := Option.map_eq_some_iff.mp h
  cases he
  rcases TakeHead.step_closed hu with ⟨rfl, last, rfl⟩ | ⟨rfl, hb, rfl⟩ | ⟨hb, rfl, rfl⟩
  · exact Or.inl ⟨rfl, last, rfl⟩
  · exact Or.inr (Or.inl ⟨rfl, hb, rfl⟩)
  · exact Or.inr (Or.inr ⟨hb, rfl, rfl⟩)

/-! ## what the operations do to what is held -/

theorem held_of_chain {mb : Mailbox β} {b : Inbox β} (h : b.chain = mb.inbox.chain) :
    ({ mb with inbox := b }).held = mb.held := by
  unfold held
  rw [h]

theorem heldOf_of_chain {mb : Mailbox β} {b : Inbox β} (h : b.chain = mb.inbox.chain)
    (high : Bool) : ({ mb with inbox := b }).heldOf high = mb.heldOf high := by
  unfold heldOf
  rw [h]
  rfl

/-- `try_block_impl` touches the tag alone -/
theorem tryBlock_inbox (mb : Mailbox β) :
    ∃ b, mb.tryBlock.2 = { mb with inbox := b } ∧ b.chain = mb.inbox.chain ∧
      (b = .closed ↔ mb.inbox = .closed) := by
  unfold tryBlock
  split
  · exact ⟨_, rfl, Inbox.tryBlock_chain _, Inbox.tryBlock_closed _⟩
  · exact ⟨_, rfl, rfl, Iff.rfl⟩

/-- `try_block_impl` blocks an empty mailbox, or does nothing -/
theorem tryBlock_cases (mb : Mailbox β) :
    (mb.tryBlock = (true, { mb with inbox := .blocked }) ∧ mb.cached = 0 ∧ mb.inbox = .stack []) ∨
      mb.tryBlock = (false, mb) := by
  obtain ⟨us, ns, b⟩ := mb
  unfold tryBlock
  split
  · rename_i hc
    rcases b with _ | _ | _ | _
    · exact Or.inr rfl
    · exact Or.inr rfl
    · exact Or.inl ⟨rfl, hc, rfl⟩
    · exact Or.inr rfl
  · exact Or.inr rfl

theorem fetched_held (mb : Mailbox β) (l : List (Message β)) (hb : mb.inbox = .stack l) :
    ({ mb with inbox := .stack [] }.fetched l).held.Perm mb.held := by
  have h := fetched_perm { mb with inbox := .stack [] } l
  unfold held
  rw [fetched_inbox, hb]
  simpa [Inbox.chain] using h

theorem fetched_heldOf (mb : Mailbox β) (l : List (Message β)) (hb : mb.inbox = .stack l)
    (high : Bool) : ({ mb with inbox := .stack [] }.fetched l).heldOf high = mb.heldOf high := by
  unfold heldOf
  rw [fetched_queue, fetched_inbox, hb]
  simp [Inbox.chain, queue]

theorem fetched_sorted {mb : Mailbox β} (h : mb.Sorted) (b : Inbox β) (l : List (Message β)) :
    ({ mb with inbox := b }.fetched l).Sorted := by
  intro high m hm
  rw [fetched_queue] at hm
  rcases List.mem_append.mp hm with hm | hm
  · exact h high m hm
  · exact beq_iff_eq.mp (List.mem_filter.mp hm).2

theorem push_held (mb : Mailbox β) (m : Message β) (hb : mb.inbox ≠ .closed) :
    ({ mb with inbox := mb.inbox.push m }).held.Perm (m :: mb.held) := by
  cases hi : mb.inbox with
  | closed => exact absurd hi hb
  | blocked | stack l =>
    simp only [held, hi, Inbox.push, Inbox.chain]
    exact List.perm_middle

theorem push_heldOf (mb : Mailbox β) (m : Message β) (hb : mb.inbox ≠ .closed) (high : Bool) :
    ({ mb with inbox := mb.inbox.push m }).heldOf high
      = mb.heldOf high ++ ofPriority high [m] := by
  cases hi : mb.inbox with
  | closed => exact absurd hi hb
  | blocked => simp [heldOf, queue, hi, Inbox.push, Inbox.chain]
  | stack l => simp [heldOf, queue, hi, Inbox.push, Inbox.chain]

/-- what a pop from the lists does, said once -/
theorem popCached_some {mb mb' : Mailbox β} {m : Message β} (h : mb.popCached = some (m, mb')) :
    mb'.inbox = mb.inbox ∧
      ((mb.urgent = m :: mb'.urgent ∧ mb'.normal = mb.normal) ∨
        (mb.urgent = [] ∧ mb'.urgent = [] ∧ mb.normal = m :: mb'.normal)) := by
  obtain ⟨u, n, b⟩ := mb
  cases u with
  | cons x us => cases h; exact ⟨rfl, Or.inl ⟨rfl, rfl⟩⟩
  | nil =>
    cases n with
    | cons x ns => cases h; exact ⟨rfl, Or.inr ⟨rfl, rfl, rfl⟩⟩
    | nil => cases h

theorem popCached_held {mb mb' : Mailbox β} {m : Message β} (h : mb.popCached = some (m, mb')) :
    mb.held.Perm (m :: mb'.held) := by
  obtain ⟨hi, ⟨hu, hn⟩ | ⟨hu, hu', hn⟩⟩ := popCached_some h
  · unfold held
    rw [hi, hu, hn]
    exact List.Perm.refl _
  · unfold held
    rw [hi, hu, hu', hn]
    exact List.Perm.refl _

theorem popCached_sorted {mb mb' : Mailbox β} {m : Message β} (h : mb.popCached = some (m, mb'))
    (hs : mb.Sorted) : mb'.Sorted := by
  intro high x hx
  refine hs high x ?_
  obtain ⟨-, ⟨hu, hn⟩ | ⟨hu, hu', hn⟩⟩ := popCached_some h <;> cases high <;>
    simp only [queue, hu, hn] <;> simp_all [queue]

/-- a pop takes the oldest message of its priority -/
theorem popCached_heldOf {mb mb' : Mailbox β} {m : Message β} (h : mb.popCached = some (m, mb'))
    (hs : mb.Sorted) (high : Bool) :
    mb.heldOf high = ofPriority high [m] ++ mb'.heldOf high := by
  obtain ⟨hi, ⟨hu, hn⟩ | ⟨hu, hu', hn⟩⟩ := popCached_some h
  · have hm : m.isHighPriority = true := hs true m (by show m ∈ mb.urgent; rw [hu]; simp)
    cases high <;> simp [heldOf, queue, hi, hu, hn, ofPriority_cons, hm]
  · have hm : m.isHighPriority = false := hs false m (by show m ∈ mb.normal; rw [hn]; simp)
    cases high <;> simp [heldOf, queue, hi, hu, hu', hn, ofPriority_cons, hm]

theorem popCached_none {mb : Mailbox β} : mb.popCached = none ↔ mb.cached = 0 := by
  obtain ⟨u, n, b⟩ := mb
  cases u with
  | cons x us => simp [popCached, cached]
  | nil => cases n <;> simp [popCached, cached]

theorem cached_zero {mb : Mailbox β} : mb.cached = 0 ↔ mb.urgent = [] ∧ mb.normal = [] := by
  simp [cached]

end Mailbox
end ActorZeta
