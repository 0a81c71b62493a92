import ActorZeta.Handles.Ownership

/-!
# promise, unique_future and message: whole programs

* `Handles.inv_step`, `Handles.inv_of_run`   the accounts are kept in every program;
* `freed_iff_asked`  promises and futures: a state is freed once, if a future was ever made;
* `one_release`      messages: every slot is released once.
-/

namespace ActorZeta
open StateFlags

namespace Handles
variable {T X : Type} {m n : Handles T X}

/-- a message with a slot has a `cleanup_fn_` for it -/
def Slotted (m : Handles T X) : Prop :=
  ∀ msg ∈ m.messages, msg.resultSlot.isSome = true → msg.cleanupFn = true

theorem dropPromise_messages (m : Handles T X) (o : Option Address) :
    (m.dropPromise o).messages = m.messages := by
  cases o with
  | none => rfl
  | some a => exact (onState_rest a _).2.2.1

theorem dropFuture_messages (m : Handles T X) (o : Option Address) :
    (m.dropFuture o).messages = m.messages := by
  cases o with
  | none => rfl
  | some a => exact (onState_rest a _).2.2.1

theorem takeReady_messages {i : Nat} {a : Address} (h : m.takeReady i a = some n) :
    n.messages = m.messages := by
  unfold takeReady at h
  split at h
  · cases h
    rfl
  · obtain ⟨-, h⟩ := Option.ite_none_right_eq_some.mp h
    split at h
    · cases h
      rfl
    · cases h
      exact (onState_rest a _).2.2.1

theorem Slotted.same (h : Slotted m) (hn : n.messages = m.messages) : Slotted n := by
  intro msg hmsg
  rw [hn] at hmsg
  exact h msg hmsg

/-- a message replaced by one that has its own `cleanup_fn_` -/
theorem Slotted.set (h : Slotted m) {i : Nat} {msg : SlotMessage}
    (hn : n.messages = m.messages.set i msg)
    (hmsg : msg.resultSlot.isSome = true → msg.cleanupFn = true) : Slotted n := by
  intro msg' hmem
  rw [hn] at hmem
  obtain hmem | rfl := List.mem_or_eq_of_mem_set hmem
  · exact h msg' hmem
  · exact hmsg

/-- a new message that has its own `cleanup_fn_` -/
theorem Slotted.snoc (h : Slotted m) {msg : SlotMessage} (hn : n.messages = m.messages ++ [msg])
    (hmsg : msg.resultSlot.isSome = true → msg.cleanupFn = true) : Slotted n := by
  intro msg' hmem
  rw [hn] at hmem
  obtain hmem | hmem := List.mem_append.mp hmem
  · exact h msg' hmem
  · rw [List.mem_singleton.mp hmem]
    exact hmsg

theorem Slotted.get (h : Slotted m) {i : Nat} {msg : SlotMessage}
    (hi : m.messages[i]? = some msg) : msg.resultSlot.isSome = true → msg.cleanupFn = true :=
  h msg (List.mem_of_getElem? hi)

/-! ## the messages of a program -/

theorem owned_empty (command : Nat) (b : Address) :
    ((SlotMessage.empty command).owned == some b).toNat = 0 := rfl

/-- move construction: the source keeps its command and nothing else -/
theorem Inv.moveMessage (h : Inv m) {i : Nat} {msg : SlotMessage}
    (hi : m.messages[i]? = some msg) :
    Inv { m with messages := m.messages.set i (.empty msg.command) ++ [msg] } := by
  refine h.moved (fun _ => rfl) (fun _ => rfl) fun b => ?_
  have h1 := TS.countP_set hi (·.owned == some b) (.empty msg.command)
  rw [owned_empty] at h1
  rw [countP_owned_snoc]
  omega

theorem countP_owned_assign {l : List SlotMessage} {i j : Nat} {msg other : SlotMessage}
    (hi : l[i]? = some msg) (hj : l[j]? = some other) (hij : i ≠ j) (b : Address) :
    ((l.set j (.empty other.command)).set i other).countP (·.owned == some b)
      + (msg.owned == some b).toNat = l.countP (·.owned == some b) := by
  have hi' : (l.set j (.empty other.command))[i]? = some msg := by
    rw [List.getElem?_set_ne (Ne.symm hij), hi]
  have h1 := TS.countP_set hi' (·.owned == some b) other
  have h2 := TS.countP_set hj (·.owned == some b) (.empty other.command)
  rw [owned_empty] at h2
  omega

/-- `swap`, also of a message with itself -/
theorem Inv.swapMessages (h : Inv m) {i j : Nat} {msg other : SlotMessage}
    (hi : m.messages[i]? = some msg) (hj : m.messages[j]? = some other) :
    Inv { m with messages := (m.messages.set i other).set j msg } := by
  refine h.moved (fun _ => rfl) (fun _ => rfl) fun b => ?_
  have h1 := TS.countP_set hi (·.owned == some b) other
  by_cases hij : i = j
  · subst hij
    rw [List.set_set]
    have heq : msg = other := Option.some.inj (hi.symm.trans hj)
    have h2 := TS.countP_set hi (·.owned == some b) msg
    omega
  · have hj' : (m.messages.set i other)[j]? = some other := by
      rw [List.getElem?_set_ne hij, hj]
    have h2 := TS.countP_set hj' (·.owned == some b) msg
    omega

theorem Inv.setCommand (h : Inv m) {i : Nat} (command : Nat) {msg : SlotMessage}
    (hi : m.messages[i]? = some msg) :
    Inv { m with messages := m.messages.set i { msg with command := command } } := by
  refine h.moved (fun _ => rfl) (fun _ => rfl) fun b => ?_
  have h1 := TS.countP_set hi (·.owned == some b) { msg with command := command }
  exact Nat.add_right_cancel h1

/-! ## one operation, whole programs -/

/-- the accounts are right, and every slot has its `cleanup_fn_` -/
def Good (m : Handles T X) : Prop := Inv m ∧ Slotted m

/-- One operation keeps the accounts: whatever owned a side of a state has given it to exactly one
other owner, or has released it. -/
theorem good_step {op : HandleOp T X} (h : Good m) (hs : m.step op = some n) : Good n := by
  obtain ⟨hI, hS⟩ := h
  cases op with
  | newPromise =>
    cases hs
    exact ⟨hI.newPromise, hS⟩
  | getFuture i =>
    simp only [step] at hs
    split at hs
    · rename_i a hi
      obtain ⟨ha, hs⟩ := Option.ite_none_left_eq_some.mp hs
      cases hs
      exact ⟨hI.getFuture hi ha, hS⟩
    · cases hs
  | movePromise i =>
    obtain ⟨x, hi, rfl⟩ := Option.map_eq_some_iff.mp hs
    exact ⟨hI.moved (countP_move hi) (fun _ => rfl) (fun _ => rfl), hS⟩
  | assignPromise i j =>
    obtain ⟨x, hi, hs⟩ := Option.bind_eq_some_iff.mp hs
    obtain ⟨y, hj, hs⟩ := Option.map_eq_some_iff.mp hs
    by_cases hij : i = j
    · rw [if_pos hij] at hs
      rw [← hs]
      exact ⟨hI, hS⟩
    · rw [if_neg hij] at hs
      rw [← hs]
      exact ⟨hI.dropPromise (countP_assign hi hj hij), hS.same (dropPromise_messages m x)⟩
  | settle i o =>
    simp only [step] at hs
    split at hs
    · rename_i a hi
      cases hs
      exact ⟨hI.settle (by simp) (countP_reset hi), hS.same (onState_rest _ _).2.2.1⟩
    · cases hs
  | destroyPromise i =>
    obtain ⟨x, hi, hs⟩ := Option.map_eq_some_iff.mp hs
    rw [← hs]
    exact ⟨hI.dropPromise fun b => TS.countP_eraseIdx hi _, hS.same (dropPromise_messages m x)⟩
  | newFuture =>
    cases hs
    exact ⟨hI.moved (fun _ => rfl) (countP_snoc_none _) (fun _ => rfl), hS⟩
  | moveFuture i =>
    obtain ⟨x, hi, rfl⟩ := Option.map_eq_some_iff.mp hs
    exact ⟨hI.moved (fun _ => rfl) (countP_move hi) (fun _ => rfl), hS⟩
  | assignFuture i j =>
    obtain ⟨x, hi, hs⟩ := Option.bind_eq_some_iff.mp hs
    obtain ⟨y, hj, hs⟩ := Option.map_eq_some_iff.mp hs
    by_cases hij : i = j
    · rw [if_pos hij] at hs
      rw [← hs]
      exact ⟨hI, hS⟩
    · rw [if_neg hij] at hs
      rw [← hs]
      exact ⟨hI.dropFuture (countP_assign hi hj hij), hS.same (dropFuture_messages m x)⟩
  | takeReady i =>
    simp only [step] at hs
    split at hs
    · rename_i a hi
      exact ⟨hI.takeReady hi hs, hS.same (takeReady_messages hs)⟩
    · cases hs
  | detach i =>
    obtain ⟨x, hi, hs⟩ := Option.map_eq_some_iff.mp hs
    rw [← hs]
    exact ⟨hI.dropFuture (countP_reset hi), hS.same (dropFuture_messages m x)⟩
  | destroyFuture i =>
    obtain ⟨x, hi, hs⟩ := Option.map_eq_some_iff.mp hs
    rw [← hs]
    exact ⟨hI.dropFuture fun b => TS.countP_eraseIdx hi _, hS.same (dropFuture_messages m x)⟩
  | newMessage command =>
    cases hs
    refine ⟨hI.moved (fun _ => rfl) (fun _ => rfl) fun b => ?_, hS.snoc rfl fun hn => ?_⟩
    · rw [countP_owned_snoc, owned_empty, Nat.add_zero]
    · cases hn
  | makeMessage command =>
    cases hs
    exact ⟨hI.makeMessage command, hS.snoc rfl fun _ => rfl⟩
  | moveMessage i extended =>
    obtain ⟨msg, hi, rfl⟩ := Option.map_eq_some_iff.mp hs
    have hset : Slotted { m with messages := m.messages.set i (.empty msg.command) } :=
      hS.set rfl fun hn => (by cases hn)
    exact ⟨hI.moveMessage hi, hset.snoc rfl (hS.get hi)⟩
  | assignMessage i j =>
    obtain ⟨msg, hi, hs⟩ := Option.bind_eq_some_iff.mp hs
    obtain ⟨other, hj, hs⟩ := Option.map_eq_some_iff.mp hs
    by_cases hij : i = j
    · rw [if_pos hij] at hs
      rw [← hs]
      exact ⟨hI, hS⟩
    · rw [if_neg hij] at hs
      rw [← hs]
      have hset : Slotted { m with messages := m.messages.set j (.empty other.command) } :=
        hS.set rfl fun hn => (by cases hn)
      exact ⟨hI.dropMessage (countP_owned_assign hi hj hij), hset.set rfl (hS.get hj)⟩
  | swapMessages i j =>
    obtain ⟨msg, hi, hs⟩ := Option.bind_eq_some_iff.mp hs
    obtain ⟨other, hj, rfl⟩ := Option.map_eq_some_iff.mp hs
    have hset : Slotted { m with messages := m.messages.set i other } := hS.set rfl (hS.get hj)
    exact ⟨hI.swapMessages hi hj, hset.set rfl (hS.get hi)⟩
  | setCommand i command =>
    obtain ⟨msg, hi, rfl⟩ := Option.map_eq_some_iff.mp hs
    have hclean := hS.get hi
    exact ⟨hI.setCommand command hi, hS.set rfl hclean⟩
  | dispatch i =>
    obtain ⟨msg, hi, hs⟩ := Option.bind_eq_some_iff.mp hs
    split at hs
    · rename_i a hslot
      obtain ⟨ht, hs⟩ := Option.ite_none_left_eq_some.mp hs
      cases hs
      have hclean : msg.cleanupFn = true := hS.get hi (by rw [hslot]; rfl)
      have ho : msg.owned = some a := by
        unfold SlotMessage.owned
        rw [hclean, Bool.eq_false_iff.mpr ht, hslot]
        rfl
      exact ⟨hI.dispatch hi ho, hS.set rfl fun _ => hclean⟩
    · cases hs
  | destroyMessage i =>
    obtain ⟨msg, hi, hs⟩ := Option.map_eq_some_iff.mp hs
    rw [← hs]
    refine ⟨hI.dropMessage fun b => TS.countP_eraseIdx hi _, fun msg' hmem => ?_⟩
    exact hS msg' (List.mem_of_mem_eraseIdx hmem)

theorem good_of_run {ops : List (HandleOp T X)} (h : TS.run step init ops = some m) : Good m :=
  TS.run_inv (fun _ _ _ hg hs => good_step hg hs)
    ⟨inv_init, fun _ hmem => (by cases hmem)⟩ h

/-! ## what the accounts say -/

theorem mem_releases {a : Address} {r : Release T X} :
    r ∈ (m.sides a).releases ↔ (a, r) ∈ m.released := by
  constructor
  · intro hr
    obtain ⟨⟨b, r'⟩, hmem, hif⟩ := List.mem_filterMap.mp hr
    obtain ⟨hb, heq⟩ := Option.ite_none_right_eq_some.mp hif
    rw [show b = a from hb, show r' = r from Option.some.inj heq] at hmem
    exact hmem
  · intro hr
    exact List.mem_filterMap.mpr ⟨(a, r), hr, if_pos rfl⟩

/-- what the state of a future says of its promise's fate -/
structure Reads (m : Handles T X) (a : Address) (st : State T X) : Prop where
  ready : st.isReady = true ↔ ∃ r, (a, r) ∈ m.released
  tells : ∀ r, (a, r) ∈ m.released → st.Tells r.outcome
  once : ∀ r r', (a, r) ∈ m.released → (a, r') ∈ m.released → r = r'

theorem Inv.reads (h : Inv m) {a : Address} (ha : a < m.states.next) {st : State T X}
    (hst : m.states.get a = some st) : Reads m a st := by
  have hk := h.known a ha
  have hle := hk.releases_le
  have hh := hk.here st hst
  refine ⟨?_, fun r hr => hh.tells r (mem_releases.mpr hr), fun r r' hr hr' => ?_⟩
  · rw [show st.isReady = decide ((m.sides a).releases.length = 1) from hh.ready,
      decide_eq_true_iff]
    constructor
    · intro hone
      obtain ⟨r, hr⟩ := List.length_eq_one_iff.mp hone
      exact ⟨r, mem_releases.mp (by rw [hr]; exact List.mem_singleton.mpr rfl)⟩
    · rintro ⟨r, hr⟩
      have hpos := List.length_pos_of_mem (mem_releases.mpr hr)
      omega
  · have hr := mem_releases.mpr hr
    have hr' := mem_releases.mpr hr'
    cases hl : (m.sides a).releases with
    | nil =>
      rw [hl] at hr
      cases hr
    | cons x xs =>
      rw [hl] at hr hr' hle
      have hxs : xs = [] := by
        apply List.eq_nil_of_length_eq_zero
        exact Nat.le_zero.mp (Nat.le_of_succ_le_succ hle)
      rw [hxs] at hr hr'
      rw [List.mem_singleton.mp hr, List.mem_singleton.mp hr']

/-- a state is deallocated at most once, and once everybody is gone, exactly if a future was
made -/
theorem Inv.freed (h : Inv m) (a : Address) : m.freed.countP (· == a) ≤ 1 := by
  by_cases ha : a < m.states.next
  · have hf := (h.known a ha).frees
    show (m.sides a).frees ≤ 1
    rw [hf]
    split
    · exact Nat.le_refl 1
    · exact Nat.zero_le 1
  · show (m.sides a).frees ≤ 1
    rw [h.unknown a (Nat.le_of_not_lt ha)]
    exact Nat.zero_le 1

theorem Inv.freed_iff (h : Inv m) (hp : m.promises = []) (hf : m.futures = [])
    (hm : m.messages = []) {a : Address} (ha : a < m.states.next) :
    m.freed.countP (· == a) = 1 ↔ a ∈ m.asked := by
  have hk := h.known a ha
  have hpr : (m.sides a).releases.length = 1 := by
    have hpr := hk.producer
    have h1 : (m.sides a).proms = 0 := by
      show m.promises.countP _ = 0
      rw [hp]
      rfl
    have h2 : (m.sides a).msgs = 0 := by
      show m.messages.countP _ = 0
      rw [hm]
      rfl
    omega
  have hdr : (m.sides a).drops = (m.sides a).asks := by
    have hfu := hk.future
    have h1 : (m.sides a).futs = 0 := by
      show m.futures.countP _ = 0
      rw [hf]
      rfl
    omega
  have hask : (m.sides a).asks = 1 ↔ a ∈ m.asked := by
    have hle := hk.once
    constructor
    · intro hone
      have hpos : 0 < m.asked.countP (· == a) := Nat.lt_of_lt_of_eq Nat.zero_lt_one hone.symm
      obtain ⟨b, hb, hba⟩ := List.countP_pos_iff.mp hpos
      rw [eq_of_beq hba] at hb
      exact hb
    · intro hmem
      have hpos : 0 < (m.sides a).asks := List.countP_pos_iff.mpr ⟨a, hmem, beq_self_eq_true a⟩
      omega
  show (m.sides a).frees = 1 ↔ _
  rw [hk.frees, hdr, ← hask]
  by_cases h1 : (m.sides a).asks = 1 <;> simp [hpr, h1]

/-- **Handle lifetimes.**  In every program a future reads what happened to its promise: nothing
yet, or the outcome that was set, or `broken_pipe`; a value taken is the one that was set; nothing
deallocated is accessed, no extraction aborts, and nothing is deallocated twice.  When all handles
are gone, every state has been deallocated exactly if a future was made for every state: the bit
`future_released` is only ever set by a future. -/
theorem freed_iff_asked {ops : List (HandleOp T X)} {m : Handles T X}
    (h : TS.run step init ops = some m) :
    (∀ a, some a ∈ m.futures → ∃ st, m.states.get a = some st ∧ Reads m a st) ∧
    (∀ a v, (a, v) ∈ m.taken → (a, Release.set (.value v)) ∈ m.released) ∧
    m.dangling = false ∧ m.refused = false ∧ (∀ a, m.freed.countP (· == a) ≤ 1) ∧
    (m.promises = [] → m.futures = [] → m.messages = [] →
      ((∀ a < m.states.next, m.freed.countP (· == a) = 1) ↔
        ∀ a < m.states.next, a ∈ m.asked)) := by
  have hI := (good_of_run h).1
  refine ⟨fun a ha => ?_, fun a v hv => hI.takes (a, v) hv, hI.dangling, hI.refused, hI.freed,
    fun hp hf hm => ?_⟩
  · have hpos : 0 < m.futures.countP (· == some a) :=
      List.countP_pos_iff.mpr ⟨some a, ha, by simp⟩
    have hlt : a < m.states.next := by
      apply hI.of_owner
      show 0 < m.promises.countP _ + m.messages.countP _ + m.futures.countP _
      omega
    have hk := hI.known a hlt
    have hdrops : (m.sides a).drops = 0 := by
      have hfu := hk.future
      have hon := hk.once
      have h1 : (m.sides a).futs = m.futures.countP (· == some a) := rfl
      omega
    obtain ⟨st, hst⟩ := hk.alive (Or.inr hdrops)
    exact ⟨st, hst, hI.reads hlt hst⟩
  · constructor
    · intro hall a ha
      exact (hI.freed_iff hp hf hm ha).mp (hall a ha)
    · intro hall a ha
      exact (hI.freed_iff hp hf hm ha).mpr (hall a ha)

/-- A promise, its future, a value set and taken: the state is gone. -/
theorem freed_iff_asked_taken :
    ∃ m : Handles Nat Unit, TS.run step init [.newPromise, .getFuture 0, .settle 0 (.value 7),
      .takeReady 0, .destroyFuture 0, .destroyPromise 0] = some m ∧ m.taken = [(0, 7)] ∧
      (∀ a < m.states.next, m.freed.countP (· == a) = 1) := by
  refine ⟨_, rfl, rfl, ((@freed_iff_asked Nat Unit [.newPromise, .getFuture 0,
    .settle 0 (.value 7), .takeReady 0, .destroyFuture 0, .destroyPromise 0] _
    rfl).2.2.2.2.2 rfl rfl rfl).mpr ?_⟩
  show ∀ a < 1, a ∈ [0]
  decide

/-- A promise that dies without ever having been asked for its future leaves its state behind. -/
theorem promise_alone_leaks :
    ∃ m : Handles Nat Unit, TS.run step init [.newPromise, .destroyPromise 0] = some m ∧
      m.promises = [] ∧ m.futures = [] ∧ m.messages = [] ∧ m.states.next = 1 ∧ m.freed = [] ∧
      (m.states.get 0).isSome = true ∧
      ¬ ∀ a < m.states.next, m.freed.countP (· == a) = 1 := by
  refine ⟨_, rfl, rfl, rfl, rfl, rfl, rfl, rfl, ?_⟩
  show ¬ ∀ a < 1, ([] : List Nat).countP (· == a) = 1
  decide

/-! ## result slots -/

/-- the message that would release the slot at `a` -/
def holds (a : Address) (msg : SlotMessage) : Bool :=
  msg.resultSlot == some a && !msg.ownershipTransferred

theorem Slotted.holds (h : Slotted m) (a : Address) :
    m.messages.countP (Handles.holds a) = m.messages.countP (·.owned == some a) := by
  apply List.countP_congr
  intro msg hmem
  unfold Handles.holds SlotMessage.owned
  cases hslot : msg.resultSlot with
  | none => simp
  | some b =>
    have hclean := h msg hmem (by rw [hslot]; rfl)
    rw [hclean]
    cases msg.ownershipTransferred <;> simp

theorem countP_released (a : Address) :
    m.released.countP (·.1 == a) = (m.sides a).releases.length := by
  unfold sides
  induction m.released with
  | nil => rfl
  | cons e l ih =>
    rw [List.countP_cons, List.filterMap_cons, ih]
    by_cases he : e.1 = a <;> simp [he]

/-- **One producer release per result slot.**  At every moment of a program the producer side of a
state is owned by one message that would release it, or by one promise, or it was released; in the
end it was released once.  Its message did that, with `operation_canceled`, exactly if the slot was
never transferred to a promise. -/
theorem one_release {ops : List (HandleOp T X)} {m : Handles T X}
    (h : TS.run step init ops = some m) :
    (∀ a < m.states.next, m.messages.countP (holds a) + m.promises.countP (· == some a)
      + m.released.countP (·.1 == a) = 1) ∧
    (m.messages = [] → m.promises = [] → ∀ a ∈ m.slots, ∃ r,
      m.released.filter (·.1 == a) = [(a, r)] ∧ (r = .cleanup ↔ a ∉ m.transferred) ∧
      (r ≠ .set (.error (.errc .operationCanceled)) →
        (r.outcome = .error (.errc .operationCanceled) ↔ a ∉ m.transferred)) ∧
      ∀ st, m.states.get a = some st → st.isReady = true ∧ st.Tells r.outcome) := by
  obtain ⟨hI, hS⟩ := good_of_run h
  have hcount : ∀ a < m.states.next, m.messages.countP (holds a)
      + m.promises.countP (· == some a) + m.released.countP (·.1 == a) = 1 := by
    intro a ha
    have hpr := (hI.known a ha).producer
    rw [hS.holds, countP_released, Nat.add_comm (List.countP _ _) (List.countP _ _)]
    exact hpr
  refine ⟨hcount, fun hm hp a ha => ?_⟩
  have hlt : a < m.states.next := by
    refine Nat.lt_of_not_le fun hle => ?_
    have hz : (m.sides a).slot = false := by rw [hI.unknown a hle]; rfl
    exact of_decide_eq_false hz ha
  have hk := hI.known a hlt
  have hone := hcount a hlt
  rw [hm, hp] at hone
  simp only [List.countP_nil, Nat.zero_add] at hone
  rw [List.countP_eq_length_filter] at hone
  obtain ⟨⟨b, r⟩, hfil⟩ := List.length_eq_one_iff.mp hone
  have hmem : (b, r) ∈ m.released.filter (·.1 == a) := by
    rw [hfil]
    exact List.mem_singleton.mpr rfl
  obtain ⟨hmem, hba⟩ := List.mem_filter.mp hmem
  have hba : b = a := eq_of_beq hba
  rw [hba] at hmem hfil
  have hkind : r = .cleanup ↔ a ∉ m.transferred := by
    rw [hk.kinds r (mem_releases.mpr hmem)]
    simp [sides, ha]
  refine ⟨r, hfil, hkind, fun hr => ?_, fun st hst => ?_⟩
  · rw [← hkind]
    cases r with
    | set o =>
      simp only [Release.outcome, reduceCtorEq, iff_false]
      intro ho
      rw [ho] at hr
      exact hr rfl
    | abandoned => simp [Release.outcome]
    | cleanup => simp [Release.outcome]
  · have hreads := hI.reads hlt hst
    exact ⟨hreads.ready.mpr ⟨r, hmem⟩, hreads.tells r hmem⟩

/-- A message moved over another one: the overwritten slot is cancelled, the other one goes to a
promise that breaks. -/
theorem one_release_assigned :
    ∃ m : Handles Nat Unit, TS.run step init [.makeMessage 1, .makeMessage 2, .assignMessage 0 1,
      .dispatch 0, .destroyMessage 1, .destroyMessage 0, .destroyPromise 0] = some m ∧
      m.released = [(0, .cleanup), (1, .abandoned)] ∧
      (∀ a ∈ m.slots, ∃ r, m.released.filter (·.1 == a) = [(a, r)]) := by
  refine ⟨_, rfl, rfl, fun a ha => ?_⟩
  obtain ⟨r, hr, -⟩ := (@one_release Nat Unit [.makeMessage 1, .makeMessage 2,
    .assignMessage 0 1, .dispatch 0, .destroyMessage 1, .destroyMessage 0, .destroyPromise 0] _
    rfl).2 rfl rfl a ha
  exact ⟨r, hr⟩

end Handles
end ActorZeta
