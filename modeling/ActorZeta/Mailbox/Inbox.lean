import Mathlib.Data.List.Basic

/-!
# lifo_inbox: the lock-free stack that senders push on

One atomic pointer `stack_`: a tag for closed, a tag for blocked, or the newest message of a
chain that ends in the null pointer.  A compare-exchange sees addresses only, so the address of
a message is part of it and two messages may share one.

* `Message`        a message as the queues see it;
* `Inbox`          the contents, newest message first; `Inbox.head` is the word in `stack_`;
* `Push`           `push_front` as a thread: one load, then compare-exchanges;
* `TakeHead`       `take_head(new_head)` as a thread;
* `tryBlock`, `tryUnblock`   one compare-exchange each.

A step is `none` where an assertion of the source fails.
-/

namespace ActorZeta

/-! ## messages -/

def highMessagePriority : BitVec 64 := 0
def normalMessagePriority : BitVec 64 := 1

/-- `message_priority(id)` -/
def messagePriority (id : BitVec 64) : BitVec 64 := (id >>> 60) &&& 0x3

/-- `mailbox::message`: the address it lives at, its command, and what the queues do not read -/
structure Message (β : Type) where
  addr : Nat
  command : BitVec 64
  body : β
  deriving DecidableEq, Repr

def Message.isHighPriority {β : Type} (m : Message β) : Bool :=
  messagePriority m.command == highMessagePriority

/-- what `push_back` answers -/
inductive EnqueueResult where
  | success
  | unblockedReader
  | queueClosed
  deriving DecidableEq, Repr

/-! ## the stack -/

/-- `lifo_inbox<message>` -/
inductive Inbox (β : Type) where
  | closed
  | blocked
  | stack (newestFirst : List (Message β))
  deriving DecidableEq, Repr

/-- a value of `stack_`; `node none` is the null pointer, `stack_empty_tag` -/
inductive Head where
  | closedTag
  | blockedTag
  | node (addr : Option Nat)
  deriving DecidableEq, Repr

abbrev Head.emptyTag : Head := .node none

def isEmptyOrBlockedTag (x : Head) : Bool := x == .emptyTag || x == .blockedTag

namespace Inbox
variable {β : Type}

def head : Inbox β → Head
  | .closed => .closedTag
  | .blocked => .blockedTag
  | .stack l => .node (l.head?.map Message.addr)

/-- the messages in the chain, newest first -/
def chain : Inbox β → List (Message β)
  | .stack l => l
  | _ => []

/-- the successful compare-exchange of `push_front` -/
def push : Inbox β → Message β → Inbox β
  | .closed, _ => .closed
  | .blocked, m => .stack [m]
  | .stack l, m => .stack (m :: l)

/-- `try_block()`: empty to blocked -/
def tryBlock : Inbox β → Bool × Inbox β
  | .stack [] => (true, .blocked)
  | b => (false, b)

/-- `try_unblock()`: blocked to empty -/
def tryUnblock : Inbox β → Bool × Inbox β
  | .blocked => (true, .stack [])
  | b => (false, b)

/-- neither blocked nor closed -/
def isOpen : Inbox β → Bool
  | .stack _ => true
  | _ => false

theorem head_empty {b : Inbox β} : b.head = .emptyTag ↔ b = .stack [] := by
  cases b with
  | closed => exact ⟨nofun, nofun⟩
  | blocked => exact ⟨nofun, nofun⟩
  | stack l => cases l <;> simp [head]

theorem head_closed {b : Inbox β} : b.head = .closedTag ↔ b = .closed := by
  cases b <;> simp [head]

theorem head_blocked {b : Inbox β} : b.head = .blockedTag ↔ b = .blocked := by
  cases b <;> simp [head]

theorem tryBlock_true {b : Inbox β} : b.tryBlock.1 = true ↔ b = .stack [] := by
  rcases b with _ | _ | _ | _ <;> simp [tryBlock]

theorem tryBlock_chain (b : Inbox β) : b.tryBlock.2.chain = b.chain := by
  rcases b with _ | _ | _ | _ <;> rfl

theorem tryBlock_closed (b : Inbox β) : b.tryBlock.2 = .closed ↔ b = .closed := by
  rcases b with _ | _ | _ | _ <;> simp [tryBlock]

theorem tryUnblock_chain (b : Inbox β) : b.tryUnblock.2.chain = b.chain := by
  cases b <;> rfl

theorem tryUnblock_closed (b : Inbox β) : b.tryUnblock.2 = .closed ↔ b = .closed := by
  cases b <;> simp [tryUnblock]

end Inbox

/-! ## push_front -/

/-- where a thread inside `push_front` is; at the compare-exchange the loop condition
`last_element != eof` holds -/
inductive Push where
  | load
  | cas (last : {x : Head // x ≠ .closedTag})
  | done (r : EnqueueResult)
  deriving DecidableEq

namespace Push
variable {β : Type}

/-- after a look at `stack_`: the loop goes on, or the closed inbox deletes the message -/
def seen (last : Head) : Push :=
  if h : last = .closedTag then .done .queueClosed else .cas ⟨last, h⟩

/-- what a successful compare-exchange answers -/
def pushed (last : Head) : EnqueueResult :=
  if last = .blockedTag then .unblockedReader else .success

/-- one access to `stack_` -/
def step (b : Inbox β) (m : Message β) : Push → Option (Inbox β × Push)
  | .load => some (b, seen b.head)
  | .cas last =>
    if b.head = last then some (b.push m, .done (pushed last)) else some (b, seen b.head)
  | .done _ => none

theorem seen_cases (b : Inbox β) :
    (b ≠ .closed ∧ ∃ last, seen b.head = .cas last) ∨
      (b = .closed ∧ seen b.head = .done .queueClosed) := by
  unfold seen
  by_cases h : b.head = .closedTag
  · rw [dif_pos h]
    exact Or.inr ⟨Inbox.head_closed.mp h, rfl⟩
  · rw [dif_neg h]
    exact Or.inl ⟨fun hb => h (Inbox.head_closed.mpr hb), _, rfl⟩

/-- everything a step of `push_front` can do: look again, find the inbox closed, or push -/
theorem step_cases {b b' : Inbox β} {m : Message β} {p p' : Push}
    (h : p.step b m = some (b', p')) :
    (b ≠ .closed ∧ b' = b ∧ ∃ last, p' = .cas last) ∨
    (b' = b ∧ b = .closed ∧ p' = .done .queueClosed) ∨
    (b ≠ .closed ∧ b' = b.push m ∧ p' = .done (pushed b.head)) := by
  have hseen : ∀ {b' : Inbox β} {p' : Push}, some (b, seen b.head) = some (b', p') →
      (b ≠ .closed ∧ b' = b ∧ ∃ last, p' = .cas last) ∨
        (b' = b ∧ b = .closed ∧ p' = .done .queueClosed) := by
    intro b' p' h
    cases h
    rcases seen_cases b with ⟨hb, hc⟩ | hd
    · exact Or.inl ⟨hb, rfl, hc⟩
    · exact Or.inr ⟨rfl, hd⟩
  cases p with
  | load => rcases hseen h with hc | hd; exacts [Or.inl hc, Or.inr (Or.inl hd)]
  | cas last =>
    simp only [step] at h
    split at h
    · rename_i hl
      cases h
      refine Or.inr (Or.inr ⟨fun hb => last.2 ?_, rfl, by rw [hl]⟩)
      rw [← hl, hb]
      rfl
    · rcases hseen h with hc | hd; exacts [Or.inl hc, Or.inr (Or.inl hd)]
  | done r => cases h

end Push

/-! ## take_head -/

/-- where a thread inside `take_head(new_head)` is; `done` holds the chain it returns -/
inductive TakeHead (β : Type) where
  | load
  | cas (last : Head)
  | done (taken : List (Message β))
  deriving DecidableEq, Repr

namespace TakeHead
variable {β : Type}

/-- the loop condition `last_element != new_head` -/
def seen (newHead last : Head) : TakeHead β := if last = newHead then .done [] else .cas last

/-- the inbox after the exchange for `new_head` -/
def emptied (newHead : Head) : Inbox β := if newHead = .closedTag then .closed else .stack []

/-- one access to `stack_`; `weak` is a spurious failure of the compare-exchange -/
def step (newHead : Head) (weak : Bool) (b : Inbox β) : TakeHead β → Option (Inbox β × TakeHead β)
  | .load =>
    if b.head = .closedTag ∨ (b.head = .blockedTag ∧ newHead ≠ .closedTag) then none
    else some (b, seen newHead b.head)
  | .cas last =>
    if b.head = last ∧ weak = false then
      if last = .closedTag ∨ (isEmptyOrBlockedTag last ∧ newHead ≠ .closedTag) then none
      else some (emptied newHead, .done b.chain)
    else some (b, seen newHead b.head)
  | .done _ => none

/-- everything a step of `take_head()` can do -/
theorem step_empty {weak : Bool} {b b' : Inbox β} {t t' : TakeHead β}
    (h : t.step .emptyTag weak b = some (b', t')) :
    (b' = b ∧ ∃ last, t' = .cas last) ∨
    (b' = b ∧ b = .stack [] ∧ t' = .done []) ∨
    ∃ l, l ≠ [] ∧ b = .stack l ∧ b' = .stack [] ∧ t' = .done l := by
  have hseen : ∀ {b' : Inbox β} {t' : TakeHead β}, some (b, seen .emptyTag b.head) = some (b', t') →
      (b' = b ∧ ∃ last, t' = .cas last) ∨ (b' = b ∧ b = .stack [] ∧ t' = .done []) := by
    intro b' t' h
    cases h
    unfold seen
    by_cases he : b.head = .emptyTag
    · rw [if_pos he]; exact Or.inr ⟨rfl, Inbox.head_empty.mp he, rfl⟩
    · rw [if_neg he]; exact Or.inl ⟨rfl, _, rfl⟩
  cases t with
  | load =>
    simp only [step] at h
    split at h
    · cases h
    · rcases hseen h with hc | hd; exacts [Or.inl hc, Or.inr (Or.inl hd)]
  | cas last =>
    simp only [step] at h
    split at h
    · rename_i hl
      split at h
      · cases h
      · rename_i hn
        cases h
        cases b with
        | closed => exact absurd (Or.inl hl.1.symm) hn
        | blocked => rw [← hl.1] at hn; exact absurd (Or.inr ⟨rfl, nofun⟩) hn
        | stack l =>
          cases l with
          | nil => rw [← hl.1] at hn; exact absurd (Or.inr ⟨rfl, nofun⟩) hn
          | cons m l => exact Or.inr (Or.inr ⟨m :: l, List.cons_ne_nil m l, rfl, rfl, rfl⟩)
    · rcases hseen h with hc | hd; exacts [Or.inl hc, Or.inr (Or.inl hd)]
  | done l => cases h

/-- everything a step of `take_head(stack_closed_tag())` can do -/
theorem step_closed {weak : Bool} {b b' : Inbox β} {t t' : TakeHead β}
    (h : t.step .closedTag weak b = some (b', t')) :
    (b' = b ∧ ∃ last, t' = .cas last) ∨
    (b' = b ∧ b = .closed ∧ t' = .done []) ∨
    (b ≠ .closed ∧ b' = .closed ∧ t' = .done b.chain) := by
  have hseen : ∀ {b' : Inbox β} {t' : TakeHead β}, some (b, seen .closedTag b.head) = some (b', t') →
      (b' = b ∧ ∃ last, t' = .cas last) ∨ (b' = b ∧ b = .closed ∧ t' = .done []) := by
    intro b' t' h
    cases h
    unfold seen
    by_cases he : b.head = .closedTag
    · rw [if_pos he]; exact Or.inr ⟨rfl, Inbox.head_closed.mp he, rfl⟩
    · rw [if_neg he]; exact Or.inl ⟨rfl, _, rfl⟩
  cases t with
  | load =>
    simp only [step] at h
    split at h
    · cases h
    · rcases hseen h with hc | hd; exacts [Or.inl hc, Or.inr (Or.inl hd)]
  | cas last =>
    simp only [step] at h
    split at h
    · rename_i hl
      split at h
      · cases h
      · rename_i hn
        cases h
        refine Or.inr (Or.inr ⟨fun hb => hn (Or.inl ?_), rfl, rfl⟩)
        rw [← hl.1, hb]
        rfl
    · rcases hseen h with hc | hd; exacts [Or.inl hc, Or.inr (Or.inl hd)]
  | done l => cases h

end TakeHead
end ActorZeta
