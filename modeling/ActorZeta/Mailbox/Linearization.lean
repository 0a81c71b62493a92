import ActorZeta.Mailbox.LifoInbox

/-!
# lifo_inbox is linearizable

* `Part`        the nodes behind a pointer, linked in their order, and whose they are;
* `Kept`        an owner's nodes are as they were: what is not yours you do not write;
* `Memory`      the word and the pointers represent the atomic inbox and the chains taken from it;
* `Calls`       a push takes effect once, with the result it returns, and frees its node when refused;
* `Linearized`  both, with the history of the atomic inbox;
* `lifo_linearizable`   every run.
-/

namespace ActorZeta
namespace LifoInbox

open Linked

variable {β : Type}

/-! ## the memory -/

/-- from the pointer `p`, the messages `l`, whose nodes are the owner's -/
structure Part (s : LifoInbox β) (o : Owner) (p : Option Nat) (l : List (Message β)) : Prop where
  path : Path some (fun q => q.bind s.next) p (l.map Message.addr) none
  nodup : (l.map Message.addr).Nodup
  owned : ∀ m ∈ l, s.owner m.addr = some o ∧ s.content m.addr = m

/-- push number `i` has its node, and behind the write its `next` is the head it expects -/
def Pushing (s : LifoInbox β) (i : Nat) (c : PushCall β) : Prop :=
  c.live = true → s.owner c.msg.addr = some (.producer i) ∧ s.content c.msg.addr = c.msg ∧
    ∀ last, c.pos = .cas last → s.next c.msg.addr = last.1.ptr

/-- what is left of the chain number `j` lies behind its pointer -/
def Behind (s : LifoInbox β) (j : Nat) (c : Taken β) (l : List (Message β)) : Prop :=
  ∃ rest, l = c.handed ++ rest ∧ Part s (.chain j) c.ptr rest

/-- the memory represents the inbox `b`, and the lists `T` that were taken from it -/
structure Represents (s : LifoInbox β) (b : Inbox β) (T : List (List (Message β))) : Prop where
  word : s.stack = b.head
  part : Part s .stack s.stack.ptr b.chain
  pushing : ∀ i c, s.pushes[i]? = some c → Pushing s i c
  length : s.chains.length = T.length
  behind : ∀ j c l, s.chains[j]? = some c → T[j]? = some l → Behind s j c l

/-- the nodes of the owner `o` are as they were -/
def Kept (s s' : LifoInbox β) (o : Owner) : Prop :=
  ∀ a, s.owner a = some o →
    s'.owner a = some o ∧ s'.next a = s.next a ∧ s'.content a = s.content a

variable {s s' : LifoInbox β} {b b' : Inbox β} {T : List (List (Message β))} {o : Owner}
  {p : Option Nat} {l : List (Message β)} {i j : Nat} {c c' : PushCall β}

theorem Part.nil : Part s o none [] := ⟨rfl, List.nodup_nil, fun _ hm => absurd hm List.not_mem_nil⟩

theorem Part.frame (h : Part s o p l) (hk : Kept s s' o) : Part s' o p l := by
  refine ⟨h.path.congr fun a ha => ?_, h.nodup, fun m hm => ?_⟩
  · obtain ⟨m, hm, rfl⟩ := List.mem_map.mp ha
    exact (hk m.addr (h.owned m hm).1).2.1
  · obtain ⟨ho, hc⟩ := h.owned m hm
    obtain ⟨ho', -, hc'⟩ := hk m.addr ho
    exact ⟨ho', hc'.trans hc⟩

theorem Pushing.frame (h : Pushing s i c) (hk : Kept s s' (.producer i)) : Pushing s' i c := by
  intro hl
  obtain ⟨ho, hc, hn⟩ := h hl
  obtain ⟨ho', hn', hc'⟩ := hk c.msg.addr ho
  exact ⟨ho', hc'.trans hc, fun last hp => hn'.trans (hn last hp)⟩

theorem Behind.frame {c : Taken β} (h : Behind s j c l) (hk : Kept s s' (.chain j)) :
    Behind s' j c l := by
  obtain ⟨rest, hl, hp⟩ := h
  exact ⟨rest, hl, hp.frame hk⟩

theorem Kept.of_eq (hn : s'.next = s.next) (hc : s'.content = s.content) (ho : s'.owner = s.owner) :
    Kept s s' o := by
  intro a ha
  rw [hn, hc, ho]
  exact ⟨ha, rfl, rfl⟩

/-- a node is the only thing that changes, and it was not `o`'s -/
theorem Kept.of_ne {a : Nat} (ha : s.owner a ≠ some o)
    (hk : ∀ k, k ≠ a → s'.owner k = s.owner k ∧ s'.next k = s.next k ∧ s'.content k = s.content k) :
    Kept s s' o := by
  intro k hk'
  obtain ⟨h1, h2, h3⟩ := hk k fun he => ha (he ▸ hk')
  exact ⟨h1.trans hk', h2, h3⟩

/-- a push moves on: its node may change, and the stack with it -/
theorem Represents.set (h : Represents s b T) (hp : s'.pushes = s.pushes.set i c')
    (hch : s'.chains = s.chains) (hw : s'.stack = b'.head)
    (hpart : Part s' .stack s'.stack.ptr b'.chain) (hpush : Pushing s' i c')
    (hkp : ∀ k, k ≠ i → Kept s s' (.producer k)) (hkc : ∀ j, Kept s s' (.chain j)) :
    Represents s' b' T := by
  refine ⟨hw, hpart, fun k c hc => ?_, hch ▸ h.length, fun j c l hc hl => ?_⟩
  · rw [hp, List.getElem?_set] at hc
    split at hc
    · rename_i hik
      split at hc
      · cases hc
        exact hik ▸ hpush
      · cases hc
    · exact (h.pushing k c hc).frame (hkp k (Ne.symm ‹_›))
  · rw [hch] at hc
    exact (h.behind j c l hc hl).frame (hkc j)

/-! ## the calls -/

/-- what the calls have to do with the log -/
structure Calls (s : LifoInbox β) : Prop where
  effect : ∀ i c, s.pushes[i]? = some c → s.log.filter (fun e => decide (e.call = some i)) =
    (c.result.map fun r => ⟨some i, .push c.msg, .pushed r⟩).toList
  started : ∀ e ∈ s.log, ∀ i, e.call = some i → i < s.pushes.length
  freed : ∀ i c, s.pushes[i]? = some c →
    s.bounced.count i = if c.pos = .done .queueClosed then 1 else 0
  bounced : ∀ i ∈ s.bounced, i < s.pushes.length

/-- push number `i` moves on, with the events `es` and the entries `bs` that are its own -/
theorem Calls.set (h : Calls s) (hc : s.pushes[i]? = some c) (es : List (InboxEvent β))
    (bs : List Nat) (hp : s'.pushes = s.pushes.set i c') (hl : s'.log = s.log ++ es)
    (hb : s'.bounced = s.bounced ++ bs) (hes : ∀ e ∈ es, e.call = some i) (hbs : ∀ k ∈ bs, k = i)
    (heff : (c.result.map fun r => (⟨some i, .push c.msg, .pushed r⟩ : InboxEvent β)).toList ++ es =
      (c'.result.map fun r => ⟨some i, .push c'.msg, .pushed r⟩).toList)
    (hfree : (if c.pos = .done .queueClosed then 1 else 0) + bs.length =
      if c'.pos = .done .queueClosed then 1 else 0) : Calls s' := by
  have hlt : i < s.pushes.length := (List.getElem?_eq_some_iff.mp hc).1
  have hget : ∀ k d, s'.pushes[k]? = some d →
      (k = i ∧ d = c') ∨ (k ≠ i ∧ s.pushes[k]? = some d) := by
    intro k d hd
    rw [hp, List.getElem?_set] at hd
    split at hd
    · rename_i hik
      cases hd
      exact Or.inl ⟨hik.symm, rfl⟩
    · exact Or.inr ⟨Ne.symm ‹_›, hd⟩
  constructor
  · intro k d hd
    rw [hl, List.filter_append]
    rcases hget k d hd with ⟨rfl, rfl⟩ | ⟨hki, hd⟩
    · rw [h.effect k c hc, List.filter_eq_self.mpr fun e he => decide_eq_true (hes e he)]
      exact heff
    · rw [h.effect k d hd, List.filter_eq_nil_iff.mpr fun e he => ?_, List.append_nil]
      rw [hes e he, decide_eq_true_iff]
      exact fun hik => hki (Option.some.inj hik).symm
  · intro e he k hk
    rw [hp, List.length_set]
    rw [hl] at he
    rcases List.mem_append.mp he with he | he
    · exact h.started e he k hk
    · rw [hes e he] at hk
      cases hk
      exact hlt
  · intro k d hd
    rw [hb, List.count_append]
    rcases hget k d hd with ⟨rfl, rfl⟩ | ⟨hki, hd⟩
    · rw [h.freed k c hc, List.count_eq_length.mpr fun x hx => (hbs x hx).symm]
      exact hfree
    · rw [h.freed k d hd, List.count_eq_zero.mpr fun hk => hki (hbs k hk)]
      rfl
  · intro k hk
    rw [hp, List.length_set]
    rw [hb] at hk
    rcases List.mem_append.mp hk with hk | hk
    · exact h.bounced k hk
    · rw [hbs k hk]
      exact hlt

/-- a push begins -/
theorem Calls.push (h : Calls s) {m : Message β} (hp : s'.pushes = s.pushes ++ [⟨m, .load⟩])
    (hl : s'.log = s.log) (hb : s'.bounced = s.bounced) : Calls s' := by
  have hlen : s'.pushes.length = s.pushes.length + 1 := by
    rw [hp, List.length_append]
    rfl
  have hget : ∀ k d, s'.pushes[k]? = some d →
      s.pushes[k]? = some d ∨ (k = s.pushes.length ∧ d = ⟨m, .load⟩) := by
    intro k d hd
    rw [hp, List.getElem?_append] at hd
    split at hd
    · exact Or.inl hd
    · rename_i hk
      obtain ⟨h0, hx⟩ := List.getElem?_eq_some_iff.mp hd
      have h0' : k - s.pushes.length < 1 := h0
      refine Or.inr ⟨by omega, ?_⟩
      rw [← hx]
      simp
  constructor
  · intro k d hd
    rw [hl]
    rcases hget k d hd with hd | ⟨rfl, rfl⟩
    · exact h.effect k d hd
    · refine List.filter_eq_nil_iff.mpr fun e he => ?_
      rw [decide_eq_true_iff]
      exact fun hk => absurd (h.started e he _ hk) (Nat.lt_irrefl _)
  · intro e he k hk
    rw [hl] at he
    have := h.started e he k hk
    omega
  · intro k d hd
    rw [hb]
    rcases hget k d hd with hd | ⟨rfl, rfl⟩
    · exact h.freed k d hd
    · exact List.count_eq_zero.mpr fun hk => absurd (h.bounced _ hk) (Nat.lt_irrefl _)
  · intro k hk
    rw [hb] at hk
    have := h.bounced k hk
    omega

/-- an event of the consumer -/
theorem Calls.consumer (h : Calls s) (es : List (InboxEvent β)) (hp : s'.pushes = s.pushes)
    (hl : s'.log = s.log ++ es) (hb : s'.bounced = s.bounced) (hes : ∀ e ∈ es, e.call = none) :
    Calls s' := by
  constructor
  · intro k d hd
    rw [hp] at hd
    rw [hl, List.filter_append, h.effect k d hd, List.filter_eq_nil_iff.mpr fun e he => ?_,
      List.append_nil]
    rw [hes e he]
    simp
  · intro e he k hk
    rw [hp]
    rw [hl] at he
    rcases List.mem_append.mp he with he | he
    · exact h.started e he k hk
    · rw [hes e he] at hk
      cases hk
  · intro k d hd
    rw [hp] at hd
    rw [hb]
    exact h.freed k d hd
  · intro k hk
    rw [hb] at hk
    rw [hp]
    exact h.bounced k hk

/-! ## the history -/

/-- what the consumer has seen of the inbox -/
structure Reads (r : Reading) (b : Inbox β) : Prop where
  closed : r = .closed ↔ b = .closed
  taking : ∀ last, r = .taking false (some last) → ∃ l, b = .stack l
  looked : ∀ closing last, r = .taking closing (some last) → last ≠ newHead closing

/-- the calls so far took effect as the history `H` of the atomic inbox says -/
structure Linearized (s : LifoInbox β) (H : List (InboxCall β)) (b : Inbox β) : Prop where
  atomic : Atomic H b
  results : s.log.map (fun e => (e.op, e.ret)) = H.map fun x => (x.1, x.2.reply)
  memory : Represents s b (H.filterMap InboxCall.takes)
  reads : Reads s.reader b
  calls : Calls s

variable {H : List (InboxCall β)}

theorem Linearized.event (h : Linearized s H b) (call : Option Nat) {op : InboxOp β}
    {r : InboxRet β} (hl : s'.log = s.log ++ [⟨call, op, r.reply⟩]) :
    s'.log.map (fun e => (e.op, e.ret)) = (H ++ [(op, r)]).map fun x => (x.1, x.2.reply) := by
  rw [hl, List.map_append, List.map_append, h.results]
  rfl

/-- a push takes nothing -/
theorem takes_push {m : Message β} {r : EnqueueResult} :
    (H ++ [(InboxOp.push m, InboxRet.pushed r)]).filterMap InboxCall.takes =
      H.filterMap InboxCall.takes := by
  rw [List.filterMap_append]
  exact List.append_nil _

/-- a push sees `stack_` -/
theorem Linearized.look (h : Linearized s H b) (hc : s.pushes[i]? = some c) (hl : c.live = true)
    (hr : c.result = none) : ∃ H', Linearized (s.look i c) H' b := by
  have hnode := h.memory.pushing i c hc hl
  have hpos : c.pos ≠ .done .queueClosed := by
    intro hp
    unfold PushCall.live at hl
    rw [hp] at hl
    cases hl
  unfold LifoInbox.look
  by_cases hs : s.stack = .closedTag
  · rw [dif_pos hs]
    have hb : b = .closed := Inbox.head_closed.mp (h.memory.word ▸ hs)
    refine ⟨H ++ [(.push c.msg, .pushed .queueClosed)], h.atomic.call (by rw [hb]; rfl),
      h.event _ rfl, ?_, h.reads, h.calls.set hc _ [] rfl rfl (List.append_nil _).symm ?_ ?_ ?_ ?_⟩
    · rw [takes_push]
      refine h.memory.set rfl rfl h.memory.word (h.memory.part.frame (Kept.of_eq rfl rfl rfl)) ?_
        (fun k _ => Kept.of_eq rfl rfl rfl) fun j => Kept.of_eq rfl rfl rfl
      exact fun _ => ⟨hnode.1, hnode.2.1, fun last hp => by cases hp⟩
    · intro e he
      rw [List.mem_singleton.mp he]
    · exact fun k hk => absurd hk List.not_mem_nil
    · rw [hr]
      rfl
    · rw [if_neg hpos]
      rfl
  · rw [dif_neg hs]
    refine ⟨H, h.atomic, h.results, ?_, h.reads,
      h.calls.set hc [] [] rfl (List.append_nil _).symm (List.append_nil _).symm ?_ ?_ ?_ ?_⟩
    · refine h.memory.set rfl rfl h.memory.word (h.memory.part.frame (Kept.of_eq rfl rfl rfl)) ?_
        (fun k _ => Kept.of_eq rfl rfl rfl) fun j => Kept.of_eq rfl rfl rfl
      exact fun _ => ⟨hnode.1, hnode.2.1, fun last hp => by cases hp⟩
    · exact fun e he => absurd he List.not_mem_nil
    · exact fun k hk => absurd hk List.not_mem_nil
    · rw [hr]
      rfl
    · rw [if_neg hpos]
      rfl

/-- the compare-exchange of a push: the node is linked to whatever is on top now, be it the node
that it has seen there or another one at its address -/
theorem Represents.push (h : Represents s b T) (hc : s.pushes[i]? = some c)
    {last : {x : Head // x ≠ .closedTag}} (hpos : c.pos = .cas last) (hs : s.stack = last.1)
    (hw : s'.stack = .node (some c.msg.addr))
    (ho : s'.owner = Function.update s.owner c.msg.addr (some .stack)) (hn : s'.next = s.next)
    (hct : s'.content = s.content) (hp : s'.pushes = s.pushes.set i c')
    (hc' : c'.live = false) (hch : s'.chains = s.chains) : Represents s' (b.push c.msg) T := by
  have hl : c.live = true := by
    unfold PushCall.live
    rw [hpos]
  obtain ⟨hown, hcont, hnext⟩ := h.pushing i c hc hl
  have hnb : b ≠ .closed := fun hb => last.2 (by rw [← hs, h.word, hb]; rfl)
  have hkept : ∀ o, o ≠ .producer i → Kept s s' o := by
    intro o hne
    refine Kept.of_ne (a:=c.msg.addr) (fun he => hne ?_) fun k hk => ?_
    · rw [hown] at he
      exact (Option.some.inj he).symm
    · rw [ho, hn, hct, Function.update_of_ne hk]
      exact ⟨rfl, rfl, rfl⟩
  have hchain : (b.push c.msg).chain = c.msg :: b.chain := by
    cases b with
    | closed => exact absurd rfl hnb
    | blocked => rfl
    | stack l => rfl
  have hnotin : c.msg.addr ∉ b.chain.map Message.addr := by
    intro hm
    obtain ⟨m, hm, he⟩ := List.mem_map.mp hm
    have := (h.part.owned m hm).1
    rw [he, hown] at this
    cases this
  have hpart := h.part.frame (hkept .stack (by simp))
  refine h.set hp hch ?_ ?_ (fun hl' => by rw [hc'] at hl'; cases hl')
    (fun k hk => hkept _ (by simpa using hk)) fun j => hkept _ (by simp)
  · rw [hw]
    cases b with
    | closed => exact absurd rfl hnb
    | blocked => rfl
    | stack l => rfl
  · rw [hw, hchain]
    constructor
    · refine ⟨rfl, ?_⟩
      show Path some _ (s'.next c.msg.addr) _ none
      rw [hn, hnext last hpos, ← hs]
      exact h.part.path
    · exact List.nodup_cons.mpr ⟨hnotin, h.part.nodup⟩
    · intro m hm
      rcases List.mem_cons.mp hm with rfl | hm
      · rw [ho, hct, Function.update_self]
        exact ⟨rfl, hcont⟩
      · exact hpart.owned m hm

theorem answer_of_head (hb : b ≠ .closed) : b.answer = Push.pushed b.head := by
  cases b with
  | closed => exact absurd rfl hb
  | blocked => rfl
  | stack l => rfl

/-- what a push does to the inbox is of no concern to the consumer -/
theorem Reads.push {r : Reading} (h : Reads r b) (m : Message β) (hb : b ≠ .closed) :
    Reads r (b.push m) := by
  refine ⟨h.closed.trans (iff_of_false hb ?_), fun last hr => ?_, h.looked⟩
  · cases b <;> simp_all [Inbox.push]
  · obtain ⟨l, rfl⟩ := h.taking last hr
    exact ⟨m :: l, rfl⟩

/-- the node of push number `i` is another's business from now on, or has changed for it alone -/
theorem kept_node (s' : LifoInbox β) {a : Nat} (ha : s.owner a = some (.producer i)) (hne : o ≠ .producer i)
    (hk : ∀ k, k ≠ a → s'.owner k = s.owner k ∧ s'.next k = s.next k ∧ s'.content k = s.content k) :
    Kept s s' o := by
  refine Kept.of_ne (a:=a) (fun he => hne ?_) hk
  rw [ha] at he
  exact (Option.some.inj he).symm

/-- **One access of a push.** -/
theorem Linearized.produce (h : Linearized s H b) (hc : s.pushes[i]? = some c)
    (hs : s.produce i c = some s') : ∃ H' b', Linearized s' H' b' := by
  have hnode := h.memory.pushing i c hc
  unfold LifoInbox.produce at hs
  split at hs
  · rename_i hpos
    cases hs
    obtain ⟨H', h'⟩ := h.look hc (by unfold PushCall.live; rw [hpos])
      (by unfold PushCall.result; rw [hpos])
    exact ⟨H', b, h'⟩
  · -- the write of `next`
    rename_i last hpos
    cases hs
    obtain ⟨hown, hcont, -⟩ := hnode (by unfold PushCall.live; rw [hpos])
    have hkept : ∀ o, o ≠ .producer i → Kept s _ o := fun o ho =>
      kept_node (({ s with next := Function.update s.next c.msg.addr last.1.ptr } :
        LifoInbox β).setPush i c (.cas last)) hown ho fun k hk => ⟨rfl, Function.update_of_ne hk .., rfl⟩
    refine ⟨H, b, h.atomic, h.results, ?_, h.reads, h.calls.set hc [] [] rfl
      (List.append_nil _).symm (List.append_nil _).symm ?_ ?_ ?_ ?_⟩
    · refine h.memory.set rfl rfl h.memory.word (h.memory.part.frame (hkept _ (by simp))) ?_
        (fun k hk => hkept _ (by simpa using hk)) fun j => hkept _ (by simp)
      refine fun _ => ⟨hown, hcont, fun last' hp => ?_⟩
      cases hp
      exact Function.update_self ..
    · exact fun e he => absurd he List.not_mem_nil
    · exact fun k hk => absurd hk List.not_mem_nil
    · unfold PushCall.result
      rw [hpos]
      rfl
    · rw [hpos]
      rfl
  · rename_i last hpos
    split at hs
    · rename_i hstack
      cases hs
      have hnb : b ≠ .closed := fun hb => last.2 (by rw [← hstack, h.memory.word, hb]; rfl)
      have hans : b.answer = Push.pushed last.1 := by
        rw [answer_of_head hnb, ← h.memory.word, hstack]
      have hnq : Push.pushed last.1 ≠ .queueClosed := by
        unfold Push.pushed
        split <;> simp
      refine ⟨H ++ [(.push c.msg, .pushed (Push.pushed last.1))], b.push c.msg,
        h.atomic.call (by rw [← hans]; rfl), h.event _ rfl, ?_, h.reads.push c.msg hnb,
        h.calls.set hc _ [] rfl rfl (List.append_nil _).symm ?_ ?_ ?_ ?_⟩
      · rw [takes_push]
        exact h.memory.push hc hpos hstack rfl rfl rfl rfl rfl rfl rfl
      · intro e he
        rw [List.mem_singleton.mp he]
      · exact fun k hk => absurd hk List.not_mem_nil
      · unfold PushCall.result
        rw [hpos]
        rfl
      · rw [hpos, if_neg (by simp), if_neg (by simpa using hnq)]
        rfl
    · cases hs
      obtain ⟨H', h'⟩ := h.look hc (by unfold PushCall.live; rw [hpos])
        (by unfold PushCall.result; rw [hpos])
      exact ⟨H', b, h'⟩
  · -- a refused push frees its node
    rename_i hpos
    cases hs
    obtain ⟨hown, -, -⟩ := hnode (by unfold PushCall.live; rw [hpos])
    have hkept : ∀ o, o ≠ .producer i → Kept s _ o := fun o ho =>
      kept_node (({ s with owner := Function.update s.owner c.msg.addr none
                           bounced := s.bounced ++ [i] } : LifoInbox β).setPush i c
        (.done .queueClosed)) hown ho fun k hk => ⟨Function.update_of_ne hk .., rfl, rfl⟩
    refine ⟨H, b, h.atomic, h.results, ?_, h.reads, h.calls.set hc [] _ rfl
      (List.append_nil _).symm rfl ?_ ?_ ?_ ?_⟩
    · exact h.memory.set rfl rfl h.memory.word (h.memory.part.frame (hkept _ (by simp)))
        (fun hl => by cases hl) (fun k hk => hkept _ (by simpa using hk)) fun j => hkept _ (by simp)
    · exact fun e he => absurd he List.not_mem_nil
    · exact fun k hk => List.mem_singleton.mp hk
    · unfold PushCall.result
      rw [hpos]
      rfl
    · rw [hpos]
      rfl
  · cases hs

/-! ## the consumer -/

/-- the pushes are left alone, and the chains too -/
theorem Represents.consumer (h : Represents s b T) (hp : s'.pushes = s.pushes)
    (hch : s'.chains = s.chains) (hw : s'.stack = b'.head)
    (hpart : Part s' .stack s'.stack.ptr b'.chain) (hkp : ∀ i, Kept s s' (.producer i))
    (hkc : ∀ j, Kept s s' (.chain j)) : Represents s' b' T := by
  refine ⟨hw, hpart, fun k c hc => ?_, hch ▸ h.length, fun j c l hc hl => ?_⟩
  · rw [hp] at hc
    exact (h.pushing k c hc).frame (hkp k)
  · rw [hch] at hc
    exact (h.behind j c l hc hl).frame (hkc j)

/-- what `try_block()` and `try_unblock()` have in common: an empty inbox gets another tag -/
theorem Linearized.tagged (h : Linearized s H b) (op : InboxOp β) {ok : Bool} {new : Head}
    (hr : s.reader = .idle) (ha : b.apply op = some (b', .flag ok)) (hw : new = b'.head)
    (hchain : b'.chain = b.chain) (hempty : new ≠ s.stack → new.ptr = none ∧ b.chain = [])
    (hb : b' = .closed ↔ b = .closed) :
    Linearized (({ s with stack := new } : LifoInbox β).emit none op (.flag ok))
      (H ++ [(op, .flag ok)]) b' := by
  have hT : (H ++ [(op, InboxRet.flag ok)]).filterMap InboxCall.takes =
      H.filterMap InboxCall.takes := by
    rw [List.filterMap_append]
    exact List.append_nil _
  refine ⟨h.atomic.call ha, h.event _ rfl, ?_, ⟨h.reads.closed.trans hb.symm, ?_, h.reads.looked⟩,
    h.calls.consumer _ rfl rfl rfl ?_⟩
  · rw [hT]
    refine h.memory.consumer rfl rfl hw ?_ (fun _ => Kept.of_eq rfl rfl rfl)
      fun _ => Kept.of_eq rfl rfl rfl
    show Part _ .stack new.ptr b'.chain
    rw [hchain]
    by_cases hn : new = s.stack
    · rw [hn]
      exact h.memory.part.frame (Kept.of_eq rfl rfl rfl)
    · obtain ⟨h1, h2⟩ := hempty hn
      rw [h1, h2]
      exact Part.nil
  · intro last hl
    rw [show s.reader = .taking false (some last) from hl] at hr
    cases hr
  · intro e he
    rw [List.mem_singleton.mp he]

theorem Linearized.tryBlock (h : Linearized s H b)
    (hs : s.exchange .tryBlock .emptyTag .blockedTag = some s') :
    ∃ H' b', Linearized s' H' b' := by
  unfold exchange at hs
  split at hs
  · rename_i hr
    split at hs
    · rename_i hst
      cases hs
      have hb : b = .stack [] := Inbox.head_empty.mp (h.memory.word ▸ hst)
      refine ⟨_, .blocked, h.tagged .tryBlock hr ?_ rfl ?_ (fun _ => ⟨rfl, ?_⟩) ?_⟩
      · rw [hb]
        rfl
      · rw [hb]
        rfl
      · rw [hb]
        rfl
      · rw [hb]
        simp
    · rename_i hst
      cases hs
      have hb : b ≠ .stack [] := fun hb => hst (h.memory.word.trans (Inbox.head_empty.mpr hb))
      have ha : b.apply .tryBlock = some (b, .flag false) := by
        rcases b with _ | _ | _ | _
        · rfl
        · rfl
        · exact absurd rfl hb
        · rfl
      exact ⟨_, b, h.tagged _ hr ha h.memory.word rfl (fun hn => absurd rfl hn) Iff.rfl⟩
  · cases hs

theorem Linearized.tryUnblock (h : Linearized s H b)
    (hs : s.exchange .tryUnblock .blockedTag .emptyTag = some s') :
    ∃ H' b', Linearized s' H' b' := by
  unfold exchange at hs
  split at hs
  · rename_i hr
    split at hs
    · rename_i hst
      cases hs
      have hb : b = .blocked := Inbox.head_blocked.mp (h.memory.word ▸ hst)
      refine ⟨_, .stack [], h.tagged .tryUnblock hr ?_ rfl ?_ (fun _ => ⟨rfl, ?_⟩) ?_⟩
      · rw [hb]
        rfl
      · rw [hb]
        rfl
      · rw [hb]
        rfl
      · rw [hb]
        simp
    · rename_i hst
      cases hs
      have hb : b ≠ .blocked := fun hb => hst (h.memory.word.trans (Inbox.head_blocked.mpr hb))
      have ha : b.apply .tryUnblock = some (b, .flag false) := by
        cases b with
        | closed => rfl
        | blocked => exact absurd rfl hb
        | stack l => rfl
      exact ⟨_, b, h.tagged _ hr ha h.memory.word rfl (fun hn => absurd rfl hn) Iff.rfl⟩
  · cases hs

/-- `take_head()` and `close()` of the atomic inbox -/
def taking (closing : Bool) : InboxOp β := if closing then .close else .takeHead

theorem apply_taking {closing : Bool} (hb : b ≠ .closed) (hop : closing = false → ∃ l, b = .stack l) :
    b.apply (taking closing) = some (TakeHead.emptied (newHead closing), .taken b.chain) := by
  cases closing with
  | true => cases b <;> first | exact absurd rfl hb | rfl
  | false =>
    obtain ⟨l, rfl⟩ := hop rfl
    rfl

theorem head_ptr (b : Inbox β) : b.head.ptr = b.chain.head?.map Message.addr := by
  cases b <;> rfl

/-- the memory behind the exchange for `new_head` -/
theorem Represents.finish (h : Represents s b T) {closing : Bool}
    (hst : s' = { s with stack := newHead closing }) :
    Represents (s'.finish closing s.stack.ptr) (TakeHead.emptied (newHead closing))
      (T ++ [b.chain]) := by
  subst hst
  have hkept : ∀ o, o ≠ .stack →
      Kept s (({ s with stack := newHead closing } : LifoInbox β).finish closing s.stack.ptr) o := by
    intro o ho a ha
    refine ⟨?_, rfl, rfl⟩
    show (if s.owner a = some .stack then _ else s.owner a) = _
    rw [if_neg (by rw [ha]; simpa using ho)]
    exact ha
  have hlast : Part (({ s with stack := newHead closing } : LifoInbox β).finish closing s.stack.ptr)
      (.chain s.chains.length) s.stack.ptr b.chain := by
    refine ⟨h.part.path, h.part.nodup, fun m hm => ⟨?_, (h.part.owned m hm).2⟩⟩
    exact if_pos (h.part.owned m hm).1
  constructor
  · cases closing <;> rfl
  · cases closing <;> exact Part.nil
  · exact fun k c hc => (h.pushing k c hc).frame (hkept _ (by simp))
  · show (s.chains ++ [_]).length = _
    rw [List.length_append, List.length_append, h.length]
    rfl
  · intro j c l hc hl
    have hc' : (s.chains ++ [⟨s.stack.ptr, []⟩])[j]? = some c := hc
    rw [List.getElem?_append] at hc' hl
    rw [← h.length] at hl
    split at hc'
    · rename_i hj
      rw [if_pos hj] at hl
      exact (h.behind j c l hc' hl).frame (hkept _ (by simp))
    · rename_i hj
      rw [if_neg hj] at hl
      have hj0 : j - s.chains.length < 1 := (List.getElem?_eq_some_iff.mp hc').1
      have hj1 : j - s.chains.length = 0 := by omega
      have hj2 : j = s.chains.length := by omega
      rw [hj1] at hc' hl
      cases hc'
      cases hl
      rw [hj2]
      exact ⟨b.chain, rfl, hlast⟩

theorem Linearized.finish (h : Linearized s H b) (s' : LifoInbox β) {closing : Bool} (hb : b ≠ .closed)
    (hop : closing = false → ∃ l, b = .stack l)
    (hst : s' = { s with stack := newHead closing }) :
    ∃ H' b', Linearized (s'.finish closing s.stack.ptr) H' b' := by
  have hT : (H ++ [(taking closing, InboxRet.taken b.chain)]).filterMap InboxCall.takes =
      H.filterMap InboxCall.takes ++ [b.chain] := by
    rw [List.filterMap_append]
    rfl
  have hptr : s.stack.ptr = b.chain.head?.map Message.addr := by rw [h.memory.word, head_ptr]
  refine ⟨H ++ [(taking closing, .taken b.chain)], TakeHead.emptied (newHead closing),
    h.atomic.call (apply_taking hb hop), h.event none ?_, hT ▸ h.memory.finish hst, ?_,
    h.calls.consumer [⟨none, taking closing, .pointer s.stack.ptr⟩] ?_ ?_ ?_ ?_⟩
  · rw [hst]
    show s.log ++ [_] = _
    rw [hptr]
    rfl
  · constructor
    · cases closing <;> exact ⟨fun hc => by cases hc <;> rfl, fun hc => by cases hc <;> rfl⟩
    · intro last hl
      cases closing <;> cases hl
    · intro cl last hl
      cases closing <;> cases hl
  · rw [hst]
    rfl
  · rw [hst]
    rfl
  · rw [hst]
    rfl
  · intro e he
    rw [List.mem_singleton.mp he]

/-- the consumer sees `stack_` -/
theorem Linearized.glance (h : Linearized s H b) {closing : Bool} {last : Option Head}
    (hr : s.reader = .taking closing last) (hop : closing = false → ∃ l, b = .stack l) :
    ∃ H' b', Linearized (s.glance closing) H' b' := by
  have hb : b ≠ .closed := fun hb => by
    rw [h.reads.closed.mpr hb] at hr
    cases hr
  unfold LifoInbox.glance
  by_cases hs : s.stack = newHead closing
  · rw [if_pos hs]
    have hptr : s.stack.ptr = none := by
      rw [hs]
      cases closing <;> rfl
    have hf := h.finish s hb hop (by rw [← hs])
    rw [hptr] at hf
    exact hf
  · rw [if_neg hs]
    refine ⟨H, b, h.atomic, h.results, ?_, ⟨iff_of_false (by simp) hb, ?_, ?_⟩,
      h.calls.consumer [] rfl (List.append_nil _).symm rfl fun e he => absurd he List.not_mem_nil⟩
    · exact h.memory.consumer rfl rfl h.memory.word (h.memory.part.frame (Kept.of_eq rfl rfl rfl))
        (fun _ => Kept.of_eq rfl rfl rfl) fun _ => Kept.of_eq rfl rfl rfl
    · intro last hl
      cases hl
      exact hop rfl
    · intro cl last hl
      cases hl
      exact hs

/-- **One access of `take_head(new_head)`.** -/
theorem Linearized.read (h : Linearized s H b) {weak : Bool} (hs : s.read weak = some s') :
    ∃ H' b', Linearized s' H' b' := by
  unfold LifoInbox.read at hs
  split at hs
  · rename_i closing hr
    split at hs
    · cases hs
    · rename_i hn
      cases hs
      refine h.glance hr fun hcl => ?_
      cases b with
      | closed => exact absurd (Or.inl h.memory.word) hn
      | blocked => exact absurd (Or.inr ⟨h.memory.word, hcl⟩) hn
      | stack l => exact ⟨l, rfl⟩
  · rename_i closing last hr
    have hop : closing = false → ∃ l, b = .stack l := fun hcl => by
      rw [hcl] at hr
      exact h.reads.taking last hr
    split at hs
    · rename_i hl
      split at hs
      · cases hs
      · cases hs
        have hb : b ≠ .closed := fun hb => by
          rw [h.reads.closed.mpr hb] at hr
          cases hr
        have hptr : (if isEmptyOrBlockedTag last then none else last.ptr) = s.stack.ptr := by
          rw [hl.1]
          split
          · rename_i he
            unfold isEmptyOrBlockedTag at he
            simp only [Bool.or_eq_true, beq_iff_eq] at he
            rcases he with rfl | rfl <;> rfl
          · rfl
        rw [hptr]
        exact h.finish _ hb hop rfl
    · cases hs
      exact h.glance hr hop
  · cases hs

/-- a chain is followed by one node -/
theorem Represents.walk (h : Represents s b T) {c : Taken β} (hc : s.chains[j]? = some c)
    (hs : s.walk j c = some s') : Represents s' b T := by
  obtain ⟨a, ha, rfl⟩ := Option.map_eq_some_iff.mp hs
  have hj : j < s.chains.length := (List.getElem?_eq_some_iff.mp hc).1
  obtain ⟨l, hl⟩ : ∃ l, T[j]? = some l := by
    rw [h.length] at hj
    exact ⟨T[j], List.getElem?_eq_getElem hj⟩
  obtain ⟨rest, hrest, hpart⟩ := h.behind j c l hc hl
  -- the node behind the pointer is the first of the rest
  obtain ⟨m, rest', rfl, hma⟩ : ∃ m rest', rest = m :: rest' ∧ m.addr = a := by
    cases rest with
    | nil =>
      have hp : c.ptr = none := hpart.path
      rw [ha] at hp
      cases hp
    | cons m rest' =>
      have hp : c.ptr = some m.addr := hpart.path.1
      rw [ha] at hp
      exact ⟨m, rest', rfl, (Option.some.inj hp).symm⟩
  subst hma
  obtain ⟨hown, hcont⟩ := hpart.owned m List.mem_cons_self
  obtain ⟨hm, hd⟩ := List.nodup_cons.mp hpart.nodup
  have hne : ∀ k, k ≠ m.addr →
      Function.update s.owner m.addr (some .consumer) k = s.owner k :=
    fun k hk => Function.update_of_ne hk ..
  have hkept : ∀ o, o ≠ .chain j → Kept s
      { s with owner := Function.update s.owner m.addr (some .consumer)
               chains := s.chains.set j ⟨s.next m.addr, c.handed ++ [s.content m.addr]⟩ } o := by
    intro o ho
    refine Kept.of_ne (a:=m.addr) (fun he => ho ?_) fun k hk => ⟨hne k hk, rfl, rfl⟩
    rw [hown] at he
    exact (Option.some.inj he).symm
  refine ⟨h.word, h.part.frame (hkept _ (by simp)),
    fun k c hc => (h.pushing k c hc).frame (hkept _ (by simp)), ?_, ?_⟩
  · rw [← h.length]
    exact List.length_set ..
  · intro k c' l' hc' hl'
    have hset : (s.chains.set j ⟨s.next m.addr, c.handed ++ [s.content m.addr]⟩)[k]? = some c' := hc'
    rw [List.getElem?_set] at hset
    split at hset
    · rename_i hjk
      subst hjk
      cases hset
      rw [hl] at hl'
      cases hl'
      refine ⟨rest', ?_, hpart.path.2, hd, fun m' hm' => ?_⟩
      · rw [hrest, hcont, List.append_assoc]
        rfl
      · obtain ⟨ho', hc''⟩ := hpart.owned m' (List.mem_cons_of_mem m hm')
        refine ⟨(hne _ fun he => hm ?_).trans ho', hc''⟩
        rw [← he]
        exact List.mem_map_of_mem hm'
    · exact (h.behind k c' l' hset hl').frame (hkept _ (by simpa using Ne.symm ‹_›))

/-- a push begins with a node that is no one's -/
theorem Represents.start (h : Represents s b T) {m : Message β} {next : Option Nat}
    (ho : s.owner m.addr = none) :
    Represents { s with next := Function.update s.next m.addr next
                        content := Function.update s.content m.addr m
                        owner := Function.update s.owner m.addr (some (.producer s.pushes.length))
                        pushes := s.pushes ++ [⟨m, .load⟩] } b T := by
  have hkept : ∀ o, Kept s
      { s with next := Function.update s.next m.addr next
               content := Function.update s.content m.addr m
               owner := Function.update s.owner m.addr (some (.producer s.pushes.length))
               pushes := s.pushes ++ [⟨m, .load⟩] } o := fun o =>
    Kept.of_ne (a:=m.addr) (by rw [ho]; simp) fun k hk =>
      ⟨Function.update_of_ne hk .., Function.update_of_ne hk .., Function.update_of_ne hk ..⟩
  refine ⟨h.word, h.part.frame (hkept _), fun k c hc => ?_, h.length,
    fun j c l hc hl => (h.behind j c l hc hl).frame (hkept _)⟩
  have hc' : (s.pushes ++ [⟨m, .load⟩])[k]? = some c := hc
  rw [List.getElem?_append] at hc'
  split at hc'
  · exact (h.pushing k c hc').frame (hkept _)
  · rename_i hk
    have hk0 : k - s.pushes.length < 1 := (List.getElem?_eq_some_iff.mp hc').1
    have hk1 : k - s.pushes.length = 0 := by omega
    have hk2 : k = s.pushes.length := by omega
    rw [hk1] at hc'
    cases hc'
    rw [hk2]
    exact fun _ => ⟨Function.update_self .., Function.update_self .., fun last hp => by cases hp⟩

/-- the consumer frees a node -/
theorem Represents.free (h : Represents s b T) {a : Nat} (ho : s.owner a = some .consumer) :
    Represents { s with owner := Function.update s.owner a none } b T := by
  have hkept : ∀ o, o ≠ .consumer → Kept s { s with owner := Function.update s.owner a none } o :=
    fun o hne => Kept.of_ne (a:=a) (by rw [ho]; simpa using hne.symm) fun k hk =>
      ⟨Function.update_of_ne hk .., rfl, rfl⟩
  exact h.consumer rfl rfl h.word (h.part.frame (hkept _ (by simp))) (fun _ => hkept _ (by simp))
    fun _ => hkept _ (by simp)

/-- `take_head(new_head)` begins -/
theorem Linearized.begin (h : Linearized s H b) (hr : s.reader = .idle) (closing : Bool) :
    Linearized { s with reader := .taking closing none } H b := by
  have hb : b ≠ .closed := fun hb => by
    rw [h.reads.closed.mpr hb] at hr
    cases hr
  refine ⟨h.atomic, h.results, ?_, ⟨iff_of_false (by simp) hb, ?_, ?_⟩,
    h.calls.consumer [] rfl (List.append_nil _).symm rfl
      fun e he => absurd he List.not_mem_nil⟩
  · exact h.memory.consumer rfl rfl h.memory.word (h.memory.part.frame (Kept.of_eq rfl rfl rfl))
      (fun _ => Kept.of_eq rfl rfl rfl) fun _ => Kept.of_eq rfl rfl rfl
  · intro last hl
    cases hl
  · intro cl last hl
    cases hl

/-! ## steps and runs -/

/-- **One access.** -/
theorem Linearized.step (h : Linearized s H b) {a : LifoAct β} (hs : s.step a = some s') :
    ∃ H' b', Linearized s' H' b' := by
  cases a with
  | push m next =>
    obtain ⟨ho, hs⟩ := Option.ite_none_right_eq_some.mp hs
    cases hs
    exact ⟨H, b, h.atomic, h.results, h.memory.start ho, h.reads, h.calls.push rfl rfl rfl⟩
  | produce i =>
    obtain ⟨c, hc, hs⟩ := Option.bind_eq_some_iff.mp hs
    exact h.produce hc hs
  | tryBlock => exact h.tryBlock hs
  | tryUnblock => exact h.tryUnblock hs
  | takeHead =>
    obtain ⟨hr, hs⟩ := Option.ite_none_right_eq_some.mp hs
    cases hs
    exact ⟨H, b, h.begin hr false⟩
  | close =>
    obtain ⟨hr, hs⟩ := Option.ite_none_right_eq_some.mp hs
    cases hs
    exact ⟨H, b, h.begin hr true⟩
  | read weak => exact h.read hs
  | walk j =>
    obtain ⟨c, hc, hs⟩ := Option.bind_eq_some_iff.mp hs
    have hm := h.memory.walk hc hs
    obtain ⟨a, -, rfl⟩ := Option.map_eq_some_iff.mp hs
    exact ⟨H, b, h.atomic, h.results, hm, h.reads, h.calls.consumer [] rfl
      (List.append_nil _).symm rfl fun e he => absurd he List.not_mem_nil⟩
  | free a =>
    obtain ⟨ho, hs⟩ := Option.ite_none_right_eq_some.mp hs
    cases hs
    exact ⟨H, b, h.atomic, h.results, h.memory.free ho, h.reads, h.calls.consumer [] rfl
      (List.append_nil _).symm rfl fun e he => absurd he List.not_mem_nil⟩

theorem linearized_init (next : Nat → Option Nat) (content : Nat → Message β) :
    Linearized (init next content) [] (.stack []) where
  atomic := .start
  results := rfl
  memory := ⟨rfl, Part.nil, fun i _ h => (by cases h), rfl, fun j _ _ h => (by cases h)⟩
  reads := ⟨iff_of_false (by simp [init]) (by simp), fun _ h => (by cases h),
    fun _ _ h => (by cases h)⟩
  calls := ⟨fun _ _ h => (by cases h), fun _ h => absurd h List.not_mem_nil,
    fun _ _ h => (by cases h), fun _ h => absurd h List.not_mem_nil⟩

theorem linearized_run {next : Nat → Option Nat} {content : Nat → Message β}
    {as : List (LifoAct β)} (h : TS.run step (init next content) as = some s) :
    ∃ H b, Linearized s H b :=
  TS.run_inv (I:=fun s : LifoInbox β => ∃ H b, Linearized s H b)
    (fun _ _ _ hI hs => by obtain ⟨H, b, hI⟩ := hI; exact hI.step hs)
    ⟨[], .stack [], linearized_init next content⟩ h

/-- inside `take_head()` no assertion can fail, but for the one that a caller violates who comes to
a blocked inbox -/
theorem Linearized.asserted (h : Linearized s H b) {closing weak : Bool} {last : Option Head}
    (hr : s.reader = .taking closing last)
    (hcall : last = none → closing = false → s.stack ≠ .blockedTag) : (s.read weak).isSome := by
  have hb : b ≠ .closed := fun hb => by
    rw [h.reads.closed.mpr hb] at hr
    cases hr
  have hst : s.stack ≠ .closedTag := fun hst => hb (Inbox.head_closed.mp (h.memory.word ▸ hst))
  unfold LifoInbox.read
  rw [hr]
  cases last with
  | none =>
    dsimp only
    rw [if_neg]
    · rfl
    · rintro (hc | ⟨hc, hcl⟩)
      · exact hst hc
      · exact hcall rfl hcl hc
  | some last =>
    dsimp only
    split
    · rename_i hl
      rw [if_neg]
      · rfl
      · rintro (hc | ⟨hc, rfl⟩)
        · exact hst (hl.1.trans hc)
        · obtain ⟨l, hl'⟩ := h.reads.taking last hr
          have hne := h.reads.looked false last hr
          unfold isEmptyOrBlockedTag at hc
          simp only [Bool.or_eq_true, beq_iff_eq] at hc
          rcases hc with hc | hc
          · exact hne hc
          · have hw := h.memory.word
            rw [hl.1, hc, hl'] at hw
            cases hw
    · rfl

end LifoInbox

/-- **lifo_inbox is linearizable.**  After every run of pushes against one consumer, whatever
addresses were used again, the memory represents the state of an atomic inbox that had the same
calls in the order in which they took effect, with the same results; every push took effect once,
between its start and its return.  The messages that were accepted are those that were taken,
each chain from its end, and those in the inbox; between two `try_block()` that blocked one push
answers `unblocked_reader`, unless a `try_unblock()` unblocked; a push behind a `close()` is
refused, and frees its node once. -/
theorem lifo_linearizable {β : Type} {next : Nat → Option Nat} {content : Nat → Message β}
    {as : List (LifoAct β)} {s : LifoInbox β}
    (h : TS.run LifoInbox.step (.init next content) as = some s) :
    ∃ H b, LifoInbox.Linearized s H b ∧
      H.filterMap InboxCall.accepted =
        ((H.filterMap InboxCall.takes).map List.reverse).flatten ++ b.chain.reverse ∧
      (∀ A e M e' B, H = A ++ e :: (M ++ e' :: B) → e.blocks = true → e'.blocks = true →
        (∀ x ∈ M, x.blocks = false) →
        M.countP InboxCall.unblocksReader + M.countP InboxCall.unblocks = 1) ∧
      (∀ A r B, H = A ++ (.close, r) :: B →
        ∀ m r', (InboxOp.push m, InboxRet.pushed r') ∈ B → r' = .queueClosed) ∧
      ∀ closing last weak, s.reader = .taking closing last →
        (last = none → closing = false → s.stack ≠ .blockedTag) → (s.read weak).isSome := by
  obtain ⟨H, b, hlin⟩ := LifoInbox.linearized_run h
  refine ⟨H, b, hlin, hlin.atomic.account, ?_, ?_, ?_⟩
  · rintro A e M e' B rfl he he' hM
    exact hlin.atomic.between he he' hM
  · rintro A r B rfl m r' hm
    exact hlin.atomic.refuses.2 m r' hm
  · exact fun closing last weak hr hcall => hlin.asserted hr hcall

/-- the second push holds the first node as the head it expects, when this node is taken and freed
and a third push begins at its address -/
def addressReused : List (LifoAct Nat) :=
  [.push ⟨8, 1, 1⟩ none, .produce 0, .produce 0, .produce 0,
    .push ⟨16, 1, 2⟩ none, .produce 1, .produce 1,
    .takeHead, .read false, .read false, .walk 0, .free 8,
    .push ⟨8, 1, 3⟩ none, .produce 2, .produce 2, .produce 2,
    .produce 1, .close, .read false, .read true, .read false, .walk 1, .walk 1]

/-- the second push still links to what is there -/
theorem lifo_linearizable_reused :
    ∃ s, TS.run LifoInbox.step (.init (fun _ => none) fun a => (⟨a, 0, 0⟩ : Message Nat))
        addressReused = some s ∧
      s.chains.map (fun c => (c.ptr, c.handed.map Message.body)) =
        [(none, [1]), (none, [2, 3])] ∧
      ∃ H b, LifoInbox.Linearized s H b := by
  have hrun : (TS.run LifoInbox.step (.init (fun _ => none) fun a => (⟨a, 0, 0⟩ : Message Nat))
      addressReused).map (fun s => s.chains.map fun c => (c.ptr, c.handed.map Message.body)) =
      some [(none, [1]), (none, [2, 3])] := by decide +kernel
  obtain ⟨s, hs, hc⟩ := Option.map_eq_some_iff.mp hrun
  obtain ⟨H, b, h, -⟩ := lifo_linearizable hs
  exact ⟨s, hs, hc, H, b, h⟩

end ActorZeta
