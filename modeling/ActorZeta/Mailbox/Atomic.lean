import ActorZeta.Mailbox.Inbox
import Mathlib.Data.List.Count
import Mathlib.Data.List.Induction

/-!
# The atomic inbox

What `lifo_inbox` is for: closed, blocked, or open with a list of messages, and each operation takes
effect at once.

* `Inbox.apply`        an operation and its result;
* `Atomic H b`         the history `H`, from the empty inbox to `b`;
* `Atomic.account`     the accepted messages are those taken and those still there, in their order;
* `Atomic.between`     between two successful `try_block()` the blocked state ends once;
* `Atomic.refuses`     nothing is accepted behind a `close()`.
-/

namespace ActorZeta

inductive InboxOp (β : Type) where
  | push (m : Message β)
  | tryBlock
  | tryUnblock
  | takeHead
  | close
  deriving DecidableEq

inductive InboxRet (β : Type) where
  | pushed (r : EnqueueResult)
  | flag (ok : Bool)
  | taken (newestFirst : List (Message β))
  deriving DecidableEq

/-- an operation with its result -/
abbrev InboxCall (β : Type) := InboxOp β × InboxRet β

namespace Inbox
variable {β : Type}

/-- what `push_front` answers -/
def answer : Inbox β → EnqueueResult
  | .closed => .queueClosed
  | .blocked => .unblockedReader
  | .stack _ => .success

/-- an operation in one step; `none` where the caller must not call it -/
def apply (b : Inbox β) : InboxOp β → Option (Inbox β × InboxRet β)
  | .push m => some (b.push m, .pushed b.answer)
  | .tryBlock => some (b.tryBlock.2, .flag b.tryBlock.1)
  | .tryUnblock => some (b.tryUnblock.2, .flag b.tryUnblock.1)
  | .takeHead => match b with
    | .stack l => some (.stack [], .taken l)
    | _ => none
  | .close => match b with
    | .closed => none
    | b => some (.closed, .taken b.chain)

end Inbox

/-- `H` is a history of the atomic inbox, which it leaves at `b` -/
inductive Atomic {β : Type} : List (InboxCall β) → Inbox β → Prop where
  | start : Atomic [] (.stack [])
  | call {H : List (InboxCall β)} {b b' : Inbox β} {op : InboxOp β} {r : InboxRet β}
      (h : Atomic H b) (ha : b.apply op = some (b', r)) : Atomic (H ++ [(op, r)]) b'

/-- the message of a push that was not refused -/
def InboxCall.accepted {β : Type} : InboxCall β → Option (Message β)
  | (.push m, .pushed r) => if r = .queueClosed then none else some m
  | _ => none

/-- what a call took -/
def InboxCall.takes {β : Type} : InboxCall β → Option (List (Message β))
  | (_, .taken l) => some l
  | _ => none

/-- a `try_block()` that blocked -/
def InboxCall.blocks {β : Type} : InboxCall β → Bool
  | (.tryBlock, .flag ok) => ok
  | _ => false

/-- a push that answered `unblocked_reader` -/
def InboxCall.unblocksReader {β : Type} : InboxCall β → Bool
  | (.push _, .pushed r) => decide (r = .unblockedReader)
  | _ => false

/-- a `try_unblock()` that unblocked -/
def InboxCall.unblocks {β : Type} : InboxCall β → Bool
  | (.tryUnblock, .flag ok) => ok
  | _ => false

namespace Atomic
variable {β : Type} {H A M B : List (InboxCall β)} {b b' : Inbox β} {op : InboxOp β}
  {r : InboxRet β} {e : InboxCall β}

/-- the last call of a history -/
theorem snoc (h : Atomic (H ++ [(op, r)]) b') : ∃ b, Atomic H b ∧ b.apply op = some (b', r) := by
  generalize hG : H ++ [(op, r)] = G at h
  cases h with
  | start => exact absurd hG (List.append_ne_nil_of_right_ne_nil H (List.cons_ne_nil _ _))
  | call h ha =>
    obtain ⟨rfl, he⟩ := List.append_inj' hG rfl
    cases he
    exact ⟨_, h, ha⟩

theorem of_append (h : Atomic (H ++ M) b') : ∃ b, Atomic H b := by
  induction M using List.reverseRecOn generalizing b' with
  | nil =>
    rw [List.append_nil] at h
    exact ⟨b', h⟩
  | append_singleton M x ih =>
    rw [← List.append_assoc] at h
    obtain ⟨b, hb, -⟩ := snoc h
    exact ih hb

/-- **After rule.**  What a call `e` brings about and every further call keeps, with the calls since
then in view. -/
theorem after {Q : List (InboxCall β) → Inbox β → Prop}
    (hbase : ∀ b b', Inbox.apply b e.1 = some (b', e.2) → Q [] b')
    (hstep : ∀ M b b' op r, Q M b → b.apply op = some (b', r) → Q (M ++ [(op, r)]) b')
    (h : Atomic (A ++ e :: M) b) : Q M b := by
  induction M using List.reverseRecOn generalizing b with
  | nil =>
    obtain ⟨b0, -, ha⟩ := snoc h
    exact hbase b0 b ha
  | append_singleton M x ih =>
    rw [← List.cons_append, ← List.append_assoc] at h
    obtain ⟨b0, hb0, ha⟩ := snoc h
    exact hstep M b0 b x.1 x.2 (ih hb0) ha

/-- **What is taken.**  The messages that were accepted are, in their order, those that
`take_head()` and `close()` returned, each list from its end, and those still in the inbox. -/
theorem account (h : Atomic H b) :
    H.filterMap InboxCall.accepted =
      ((H.filterMap InboxCall.takes).map List.reverse).flatten ++ b.chain.reverse := by
  induction h with
  | start => rfl
  | @call H b b' op r h ha ih =>
    rw [List.filterMap_append, List.filterMap_append, List.map_append, List.flatten_append, ih]
    cases op with
    | push m =>
      cases ha
      cases b <;> simp [InboxCall.accepted, InboxCall.takes, Inbox.answer, Inbox.push, Inbox.chain]
    | tryBlock =>
      cases ha
      simp [List.filterMap_cons, InboxCall.accepted, InboxCall.takes, Inbox.tryBlock_chain]
    | tryUnblock =>
      cases ha
      simp [List.filterMap_cons, InboxCall.accepted, InboxCall.takes, Inbox.tryUnblock_chain]
    | takeHead =>
      cases b with
      | stack l =>
        cases ha
        simp [InboxCall.accepted, InboxCall.takes, Inbox.chain]
      | closed => cases ha
      | blocked => cases ha
    | close =>
      cases b with
      | closed => cases ha
      | blocked =>
        cases ha
        simp [InboxCall.accepted, InboxCall.takes, Inbox.chain]
      | stack l =>
        cases ha
        simp [InboxCall.accepted, InboxCall.takes, Inbox.chain]

/-- how often the blocked state has ended in the calls `M` -/
def endings (M : List (InboxCall β)) : Nat :=
  M.countP InboxCall.unblocksReader + M.countP InboxCall.unblocks

theorem endings_snoc (M : List (InboxCall β)) (x : InboxCall β) :
    endings (M ++ [x]) = endings M + (x.unblocksReader.toNat + x.unblocks.toNat) := by
  unfold endings
  rw [List.countP_append, List.countP_append, List.countP_singleton, List.countP_singleton]
  cases x.unblocksReader <;> cases x.unblocks <;> simp <;> omega

/-- since a `try_block()` that blocked -/
def EndsOnce (M : List (InboxCall β)) (b : Inbox β) : Prop :=
  ((b = .blocked ∨ b = .closed) ∧ endings M = 0) ∨ (b ≠ .blocked ∧ endings M = 1)

theorem EndsOnce.call (h : EndsOnce M b) (ha : b.apply op = some (b', r))
    (hb : InboxCall.blocks (op, r) = false) : EndsOnce (M ++ [(op, r)]) b' := by
  unfold EndsOnce at h ⊢
  rw [endings_snoc]
  cases op with
  | push m =>
    cases ha
    cases b <;> simp_all [InboxCall.unblocksReader, InboxCall.unblocks, Inbox.answer, Inbox.push]
  | tryBlock =>
    cases ha
    rcases b with _ | _ | _ | _ <;>
      simp_all [InboxCall.unblocksReader, InboxCall.unblocks, InboxCall.blocks, Inbox.tryBlock]
  | tryUnblock =>
    cases ha
    cases b <;> simp_all [InboxCall.unblocksReader, InboxCall.unblocks, Inbox.tryUnblock]
  | takeHead =>
    cases b with
    | stack l =>
      cases ha
      simp_all [InboxCall.unblocksReader, InboxCall.unblocks]
    | closed => cases ha
    | blocked => cases ha
  | close =>
    cases b with
    | closed => cases ha
    | blocked =>
      cases ha
      simp_all [InboxCall.unblocksReader, InboxCall.unblocks]
    | stack l =>
      cases ha
      simp_all [InboxCall.unblocksReader, InboxCall.unblocks]

/-- **The blocked state ends once.**  Since a `try_block()` that blocked, and with none since,
either the inbox is still blocked or was closed so, or one push answered `unblocked_reader` or one
`try_unblock()` unblocked. -/
theorem endsOnce (h : Atomic (A ++ e :: M) b) (he : e.blocks = true)
    (hM : ∀ x ∈ M, x.blocks = false) : EndsOnce M b := by
  refine after (Q:=fun M b => (∀ x ∈ M, x.blocks = false) → EndsOnce M b) ?_ ?_ h hM
  · intro b b' ha _
    obtain ⟨op, r⟩ := e
    cases op with
    | tryBlock =>
      cases ha
      refine Or.inl ⟨Or.inl ?_, rfl⟩
      rw [Inbox.tryBlock_true.mp he]
      rfl
    | push m => cases he
    | tryUnblock => cases he
    | takeHead => cases he
    | close => cases he
  · intro M b b' op r hQ ha hM
    exact (hQ fun x hx => hM x (List.mem_append_left _ hx)).call ha (hM _ (by simp))

/-- between two `try_block()` that blocked -/
theorem between {e' : InboxCall β} (h : Atomic (A ++ e :: (M ++ e' :: B)) b)
    (he : e.blocks = true) (he' : e'.blocks = true) (hM : ∀ x ∈ M, x.blocks = false) :
    endings M = 1 := by
  have hsplit : A ++ e :: (M ++ e' :: B) = (A ++ e :: M ++ [e']) ++ B := by simp
  rw [hsplit] at h
  obtain ⟨b1, h1⟩ := of_append h
  obtain ⟨op, r⟩ := e'
  obtain ⟨b0, h0, ha⟩ := snoc h1
  -- the second `try_block()` found the inbox open and empty
  have hb0 : b0 = .stack [] := by
    cases op with
    | tryBlock =>
      cases ha
      exact Inbox.tryBlock_true.mp he'
    | push m => cases r <;> cases he'
    | tryUnblock => cases r <;> cases he'
    | takeHead => cases r <;> cases he'
    | close => cases r <;> cases he'
  rcases endsOnce h0 he hM with ⟨hb, -⟩ | ⟨-, hone⟩
  · rw [hb0] at hb
    rcases hb with hb | hb <;> cases hb
  · exact hone

/-- **Nothing is accepted behind a `close()`.** -/
theorem refuses (h : Atomic (A ++ (.close, r) :: B) b) :
    b = .closed ∧ ∀ m r', (InboxOp.push m, InboxRet.pushed r') ∈ B → r' = .queueClosed := by
  refine after (Q:=fun M b => b = .closed ∧
    ∀ m r', (InboxOp.push m, InboxRet.pushed r') ∈ M → r' = .queueClosed) ?_ ?_ h
  · intro b b' ha
    refine ⟨?_, fun m r' hm => absurd hm List.not_mem_nil⟩
    cases b with
    | closed => cases ha
    | blocked => cases ha; rfl
    | stack l => cases ha; rfl
  · rintro M _ b' op r ⟨rfl, hM⟩ ha
    have hb' : b' = .closed := by
      cases op with
      | push m => cases ha; rfl
      | tryBlock => cases ha; rfl
      | tryUnblock => cases ha; rfl
      | takeHead => cases ha
      | close => cases ha
    refine ⟨hb', fun m r' hm => ?_⟩
    rcases List.mem_append.mp hm with hm | hm
    · exact hM m r' hm
    · cases List.mem_singleton.mp hm
      cases ha
      rfl

end Atomic
end ActorZeta
