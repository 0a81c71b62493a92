import ActorZeta.Runtime.Parts

/-!
# What ties the actors to the scheduler

The job nodes of an actor are in the queue or in the hand of a worker that has not called
`resume()`, and a thread inside `resume()` is one worker.

* `Glued`    this, for every actor and every worker;
* `Keeps`    what the step of a thread that is not a worker coming back leaves alone;
* `Glued.keep`, `Glued.aside`   the steps that move no worker to or from an actor;
* `Glued.dequeue`, `Glued.resume`, `Glued.back`, `Glued.finish`   those that do, in the order of a
                                worker's turn.
-/

set_option linter.unusedSectionVars false

namespace ActorZeta
namespace Runtime
variable {J β T X : Type} [DecidableEq J] {A A' : J → Actor.Conf β T X} {s t : Sched J}
  {f f' : Nat → Option Nat} {a b : J} {w i : Nat}

/-- the worker has called `resume()` of the actor `a`, and has the verdict if it has come back -/
def Serves (A : J → Actor.Conf β T X) (k : Worker J) (i : Nat) : Prop :=
  ∃ a r, k.actor = some a ∧ (A a).pool[i]? = some (.run r) ∧ r.pc ≠ .gone ∧
    ∀ n res, k = .resumed n res → ∃ h, r.pc = .ret res h

structure Glued (A : J → Actor.Conf β T X) (s : Sched J) (f : Nat → Option Nat) : Prop where
  nodes : ∀ a, (A a).sh.nodes = waiting s a + fetched s f a
  serves : ∀ {w i : Nat}, f w = some i → ∃ k, s.workers[w]? = some k ∧ Serves A k i
  resumed : ∀ {w : Nat} {n : JobPtr J} {res : ResumeResult}, s.workers[w]? = some (.resumed n res) →
    handling s w ≠ none → f w ≠ none
  served : ∀ {a : J} {i : Nat} {r : Runner β}, (A a).pool[i]? = some (.run r) → ended r = false →
    ∃ w, f w = some i ∧ handling s w = some a
  alone : ∀ {w w' i : Nat}, f w = some i → f w' = some i → handling s w = handling s w' → w = w'

theorem handling_of {k : Worker J} (h : s.workers[w]? = some k) : handling s w = k.actor := by
  unfold handling
  rw [h]
  rfl

/-- the threads inside `resume()` go on, and there is no new one -/
structure Keeps (c d : Actor.Conf β T X) : Prop where
  on : ∀ {i : Nat} {r : Runner β}, c.pool[i]? = some (.run r) →
    ∃ r', d.pool[i]? = some (.run r') ∧ (r.pc ≠ .gone → r'.pc ≠ .gone) ∧
      ∀ res n, r.pc = .ret res n → r'.pc = .ret res n
  noMore : ∀ {i : Nat} {r' : Runner β}, d.pool[i]? = some (.run r') → ended r' = false →
    ∃ r, c.pool[i]? = some (.run r) ∧ ended r = false

theorem Keeps.refl (c : Actor.Conf β T X) : Keeps c c :=
  ⟨fun {_ r} hr => ⟨r, hr, id, fun _ _ h => h⟩, fun {_ r} hr ho => ⟨r, hr, ho⟩⟩

/-- the step of a thread that is not a worker coming back -/
theorem Keeps.run {c d : Actor.Conf β T X} {g : Choice} {u : Thread β T X}
    (hs : Actor.step c (.run i g) = some d) (hu : c.pool[i]? = some u)
    (hret : ∀ r, u = .run r → u.returning = false) (hint : Intact c) : Keeps c d := by
  obtain ⟨x, u', hx, he, hp⟩ := TS.Conf.step_set hs
  obtain rfl := Option.some.inj (hu.symm.trans hx)
  have hi : i < c.pool.length := (List.getElem?_eq_some_iff.mp hu).1
  refine ⟨fun {j r} hr => ?_, fun {j r'} hr ho => ?_⟩
  · by_cases hj : j = i
    · subst hj
      obtain rfl := Option.some.inj (hu.symm.trans hr)
      obtain ⟨r', rfl, -, hgone⟩ := exec_driver he
      have hnot : ∀ res n, r.pc ≠ .ret res n := by
        intro res n hpc
        obtain ⟨max, node, pc⟩ := r
        dsimp only at hpc
        subst hpc
        exact absurd (hret _ rfl) nofun
      refine ⟨r', by rw [hp, List.getElem?_set_self hi], fun _ => hgone hnot, fun res n hpc => ?_⟩
      exact absurd hpc (hnot res n)
    · exact ⟨r, by rw [hp, List.getElem?_set_ne (Ne.symm hj)]; exact hr, id, fun _ _ h => h⟩
  · rw [hp] at hr
    by_cases hj : j = i
    · subst hj
      rw [List.getElem?_set_self hi] at hr
      obtain rfl := Option.some.inj hr
      cases u with
      | send y => obtain ⟨y', hy⟩ := exec_sender he; cases hy
      | run r =>
        obtain ⟨r₁, he', hover, -⟩ := exec_driver he
        obtain rfl := Thread.run.inj he'
        refine ⟨r, hu, ?_⟩
        cases hr₀ : ended r with
        | false => rfl
        | true => rw [hover hr₀] at ho; cases ho
      | delete y => exact absurd rfl (hint.threads _ (List.mem_of_getElem? hu) y)
    · rw [List.getElem?_set_ne (Ne.symm hj)] at hr
      exact ⟨r', hr, ho⟩

/-- a caller begins a `send()` -/
theorem Keeps.send {c d : Actor.Conf β T X} {x : Sender β T X}
    (hs : Actor.step c (.spawn (.send x)) = some d) : Keeps c d := by
  obtain ⟨-, hp⟩ := TS.Conf.step_spawn hs
  refine ⟨fun {j r} hr => ⟨r, ?_, id, fun _ _ h => h⟩, fun {j r'} hr ho => ⟨r', ?_, ho⟩⟩
  · rw [hp, List.getElem?_append_left (List.getElem?_eq_some_iff.mp hr).1]
    exact hr
  · rw [hp] at hr
    have hj : j < c.pool.length := by
      have hle := (List.getElem?_eq_some_iff.mp hr).1
      rw [List.length_append] at hle
      refine Nat.lt_of_le_of_ne (Nat.lt_succ_iff.mp hle) ?_
      rintro rfl
      rw [List.getElem?_concat_length] at hr
      cases hr
    rwa [List.getElem?_append_left hj] at hr

/-- the workers stay where they are -/
theorem Glued.keep (h : Glued A s f) (hw : t.workers = s.workers) {c : Actor.Conf β T X}
    (hk : Keeps (A b) c) (hn : ∀ a, (Function.update A b c a).sh.nodes + waiting s a =
      (A a).sh.nodes + waiting t a) : Glued (Function.update A b c) t f := by
  have hh : ∀ w, handling t w = handling s w := fun w => by unfold handling; rw [hw]
  have hkeep : ∀ a, Keeps (A a) (Function.update A b c a) := by
    intro a
    by_cases ha : a = b
    · subst ha
      rw [Function.update_self]
      exact hk
    · rw [Function.update_of_ne ha]
      exact .refl _
  refine ⟨fun a => ?_, fun {w i} hf => ?_, fun hk hne => ?_, fun hr ho => ?_, fun h1 h2 he => ?_⟩
  · have h1 := hn a
    have h2 := h.nodes a
    have h3 : fetched t f a = fetched s f a := fetched_congr (by rw [hw]) fun w => by
      unfold fetches
      rw [hh]
    omega
  · obtain ⟨k, hk, a, r, ha, hr, hgone, hret⟩ := h.serves hf
    obtain ⟨r', hr', hgo, hon⟩ := (hkeep a).on hr
    refine ⟨k, hw ▸ hk, a, r', ha, hr', hgo hgone, fun n res he => ?_⟩
    obtain ⟨m, hm⟩ := hret n res he
    exact ⟨m, hon _ _ hm⟩
  · rw [hh] at hne
    exact h.resumed (hw ▸ hk) hne
  · obtain ⟨r, hr, ho⟩ := (hkeep _).noMore hr ho
    obtain ⟨w, hf, ha⟩ := h.served hr ho
    exact ⟨w, hf, (hh w).trans ha⟩
  · rw [hh, hh] at he
    exact h.alone h1 h2 he

/-- a step of the scheduler that is not about actors -/
theorem Glued.aside (h : Glued A s f) (ha : Aside s t) : Glued A t f := by
  have hh : ∀ w, handling t w = handling s w := by
    intro w
    rcases ha.place w with he | ⟨h1, h2⟩
    · unfold handling
      rw [he]
    · rw [h1, h2]
  have hsame : ∀ {w}, handling s w ≠ none → t.workers[w]? = s.workers[w]? := by
    intro w hne
    rcases ha.place w with he | ⟨h1, -⟩
    · exact he
    · exact absurd h1 hne
  refine ⟨fun a => ?_, fun {w i} hf => ?_, fun {w n res} hk hne => ?_, fun hr ho => ?_,
    fun h1 h2 he => ?_⟩
  · rw [ha.waiting, fetched_congr (s:=s) (f:=f) ha.length fun w => by unfold fetches; rw [hh]]
    exact h.nodes a
  · obtain ⟨k, hk, hs⟩ := h.serves hf
    refine ⟨k, (hsame ?_).trans hk, hs⟩
    obtain ⟨a, r, hka, -⟩ := hs
    rw [handling_of hk, hka]
    nofun
  · rw [hh] at hne
    exact h.resumed ((hsame hne).symm.trans hk) hne
  · obtain ⟨w, hf, hw⟩ := h.served hr ho
    exact ⟨w, hf, (hh w).trans hw⟩
  · rw [hh, hh] at he
    exact h.alone h1 h2 he

theorem isFor_actor {id : Nat} : (⟨id, .actor b⟩ : JobPtr J).isFor a = (b = a : Bool) := by
  unfold JobPtr.isFor
  by_cases hb : b = a <;> simp [hb]

/-- a worker takes a node -/
theorem Glued.dequeue (h : Glued A s f) {res : ResumeResult} (hk : s.workers[w]? = some .dequeue)
    (hs : s.step (.work w res) = some t) : Glued A t f := by
  obtain ⟨n, hturn, hwait⟩ := step_dequeue hk hs
  have hnone : handling s w = none := handling_of hk
  obtain ⟨id, job⟩ := n
  cases job with
  | shutdownHelper => exact h.aside (hturn.aside hnone rfl hwait)
  | actor b =>
    have hidle : f w = none := by
      cases hf : f w with
      | none => rfl
      | some i =>
        obtain ⟨k, hk', a, r, hka, -⟩ := h.serves hf
        rw [← handling_of hk', hnone] at hka
        cases hka
    have hself : handling t w = some b := handling_of hturn.self
    have hother : ∀ {v}, v ≠ w → handling t v = handling s v := fun hv => by
      unfold handling
      rw [hturn.other hv]
    refine ⟨fun a => ?_, fun {v i} hf => ?_, fun {v n res} hv hne => ?_, fun {a i r} hr ho => ?_,
      fun {v v' i} h1 h2 he => ?_⟩
    · have h1 := h.nodes a
      have h2 := hwait a
      have h3 := fetched_at (f:=f) (g:=f) (a:=a) hturn.length hturn.lt fun v hv => by
        unfold fetches
        rw [hother hv]
      rw [isFor_actor] at h2
      unfold fetches at h3
      rw [hself, hnone, hidle] at h3
      simp at h3
      omega
    · obtain ⟨k, hk', hs⟩ := h.serves hf
      refine ⟨k, (hturn.other ?_).trans hk', hs⟩
      rintro rfl
      rw [hidle] at hf
      cases hf
    · by_cases hvw : v = w
      · subst hvw
        rw [hturn.self] at hv
        cases hv
      · rw [hother hvw] at hne
        exact h.resumed ((hturn.other hvw).symm.trans hv) hne
    · obtain ⟨v, hf, ha⟩ := h.served hr ho
      refine ⟨v, hf, (hother ?_).trans ha⟩
      rintro rfl
      rw [hidle] at hf
      cases hf
    · have hv : ∀ {v i}, f v = some i → v ≠ w := by
        rintro v i hf rfl
        rw [hidle] at hf
        cases hf
      rw [hother (hv h1), hother (hv h2)] at he
      exact h.alone h1 h2 he

/-- a worker that has not called `resume()` serves nobody -/
theorem unserved (hf : f w = none) {v : Nat} (hv : f v = some i) : v ≠ w := by
  rintro rfl
  rw [hf] at hv
  cases hv

/-- a worker calls `resume()` -/
theorem Glued.resume (h : Glued A s f) {id : Nat}
    (hk : s.workers[w]? = some (.holding ⟨id, .actor b⟩)) (hf : f w = none) {max : Nat}
    {c : Actor.Conf β T X}
    (hs : Actor.step (A b) (.spawn (.run ⟨max, true, .acqLoad⟩)) = some c) :
    Glued (Function.update A b c) s (Function.update f w (some (A b).pool.length)) := by
  obtain ⟨he, hp⟩ := TS.Conf.step_spawn hs
  have hown : handling s w = some b := handling_of hk
  have hlen : (A b).pool[(A b).pool.length]? = none := List.getElem?_eq_none (Nat.le_refl _)
  have hnodes : c.sh.nodes + 1 = (A b).sh.nodes := by
    rcases enter_role he with ⟨hr, -⟩ | ⟨node, hr, hn, hv⟩
    · cases hr
    · obtain rfl : true = node := Role.early.inj hr
      have hvn : c.sh.nodes = (A b).sh.nodes - 1 := congrArg View.nodes hv
      have : 1 ≤ (A b).sh.nodes := hn
      omega
  have hget : ∀ {i : Nat} {r : Runner β}, (A b).pool[i]? = some (.run r) →
      c.pool[i]? = some (.run r) := by
    intro i r hr
    rw [hp, List.getElem?_append_left (List.getElem?_eq_some_iff.mp hr).1]
    exact hr
  have hnew : c.pool[(A b).pool.length]? = some (.run ⟨max, true, .acqLoad⟩) := by
    rw [hp, List.getElem?_concat_length]
  -- a thread of an actor is still there
  have hkeep : ∀ {a : J} {i : Nat} {r : Runner β}, (A a).pool[i]? = some (.run r) →
      (Function.update A b c a).pool[i]? = some (.run r) := by
    intro a i r hr
    by_cases ha : a = b
    · subst ha
      rw [Function.update_self]
      exact hget hr
    · rw [Function.update_of_ne ha]
      exact hr
  have hself : Function.update f w (some (A b).pool.length) w = some (A b).pool.length :=
    Function.update_self ..
  have hother : ∀ {v}, v ≠ w → Function.update f w (some (A b).pool.length) v = f v :=
    fun hv => Function.update_of_ne hv ..
  refine ⟨fun a => ?_, fun {v i} hv => ?_, fun {v n res} hv hne => ?_, fun {a i r} hr ho => ?_,
    fun {v v' i} h1 h2 heq => ?_⟩
  · have h1 := h.nodes a
    have h2 := fetched_at (t:=s) (s:=s) (f:=f) (g:=Function.update f w (some (A b).pool.length))
      (a:=a) rfl (handling_lt hown) fun v hv => by
        unfold fetches
        rw [hother hv]
    unfold fetches at h2
    rw [hself, hf, hown] at h2
    simp at h2
    by_cases ha : a = b
    · subst ha
      rw [Function.update_self]
      simp at h2
      omega
    · rw [Function.update_of_ne ha]
      rw [decide_eq_false (Ne.symm ha)] at h2
      simp at h2
      omega
  · by_cases hvw : v = w
    · subst hvw
      obtain rfl := Option.some.inj (hself.symm.trans hv)
      refine ⟨_, hk, b, ⟨max, true, .acqLoad⟩, rfl, ?_, nofun, nofun⟩
      rw [Function.update_self]
      exact hnew
    · rw [hother hvw] at hv
      obtain ⟨k, hk', a, r, ha, hr, hrest⟩ := h.serves hv
      exact ⟨k, hk', a, r, ha, hkeep hr, hrest⟩
  · by_cases hvw : v = w
    · rw [hvw, hself]
      nofun
    · rw [hother hvw]
      exact h.resumed hv hne
  · by_cases ha : a = b
    · subst ha
      rw [Function.update_self, hp] at hr
      by_cases hi : i < (A a).pool.length
      · rw [List.getElem?_append_left hi] at hr
        obtain ⟨v, hfv, hav⟩ := h.served hr ho
        exact ⟨v, (hother (unserved hf hfv)).trans hfv, hav⟩
      · have hile : i < (A a).pool.length + 1 := by
          have := (List.getElem?_eq_some_iff.mp hr).1
          rwa [List.length_append] at this
        obtain rfl : i = (A a).pool.length := by omega
        exact ⟨w, hself, hown⟩
    · rw [Function.update_of_ne ha] at hr
      obtain ⟨v, hfv, hav⟩ := h.served hr ho
      exact ⟨v, (hother (unserved hf hfv)).trans hfv, hav⟩
  · -- the new thread was not there before
    have hfresh : ∀ {v i}, v ≠ w → f v = some i → handling s v = some b →
        i ≠ (A b).pool.length := by
      rintro v i - hfv hav rfl
      obtain ⟨k, hk', a, r, ha, hr, -⟩ := h.serves hfv
      rw [handling_of hk', ha] at hav
      obtain rfl := Option.some.inj hav
      rw [hlen] at hr
      cases hr
    by_cases hv : v = w
    · by_cases hv' : v' = w
      · exact hv.trans hv'.symm
      · rw [hv, hself] at h1
        rw [hother hv'] at h2
        rw [hv, hown] at heq
        exact absurd (Option.some.inj h1).symm (hfresh hv' h2 heq.symm)
    · rw [hother hv] at h1
      by_cases hv' : v' = w
      · rw [hv', hself] at h2
        rw [hv', hown] at heq
        exact absurd (Option.some.inj h2).symm (hfresh hv h1 heq)
      · rw [hother hv'] at h2
        exact h.alone h1 h2 heq

/-- `resume()` comes back with its verdict -/
theorem Glued.back (h : Glued A s f) {id : Nat}
    (hk : s.workers[w]? = some (.holding ⟨id, .actor b⟩)) (hf : f w = some i) {r : Runner β}
    {res : ResumeResult} {n : Nat} (hr : (A b).pool[i]? = some (.run r)) (hret : r.pc = .ret res n)
    (hs : s.step (.work w res) = some t) : Glued A t f := by
  obtain ⟨hturn, hwait⟩ := step_back hk hs
  have hh : ∀ v, handling t v = handling s v := by
    intro v
    by_cases hv : v = w
    · subst hv
      rw [handling_of hturn.self, handling_of hk]
      rfl
    · unfold handling
      rw [hturn.other hv]
  refine ⟨fun a => ?_, fun {v j} hv => ?_, fun {v m res'} hv hne => ?_, fun hr ho => ?_,
    fun h1 h2 he => ?_⟩
  · rw [hwait, fetched_congr (s:=s) (f:=f) hturn.length fun v => by unfold fetches; rw [hh]]
    exact h.nodes a
  · by_cases hvw : v = w
    · subst hvw
      obtain rfl := Option.some.inj (hf.symm.trans hv)
      refine ⟨_, hturn.self, b, r, rfl, hr, fun hg => ?_, fun m res' he => ?_⟩
      · rw [hret] at hg
        cases hg
      · cases he
        exact ⟨n, hret⟩
    · obtain ⟨k, hk', hserve⟩ := h.serves hv
      exact ⟨k, (hturn.other hvw).trans hk', hserve⟩
  · by_cases hvw : v = w
    · rw [hvw, hf]
      nofun
    · rw [hh] at hne
      exact h.resumed ((hturn.other hvw).symm.trans hv) hne
  · obtain ⟨v, hfv, hav⟩ := h.served hr ho
    exact ⟨v, hfv, (hh v).trans hav⟩
  · rw [hh, hh] at he
    exact h.alone h1 h2 he

/-- the worker pushes the node back or frees it, and the thread is through -/
theorem Glued.finish (h : Glued A s f) {id : Nat} {res res' : ResumeResult}
    (hk : s.workers[w]? = some (.resumed ⟨id, .actor b⟩ res)) (hf : f w = some i) {g : Choice}
    {c : Actor.Conf β T X} (hc : Actor.step (A b) (.run i g) = some c)
    (hs : s.step (.work w res') = some t) :
    Glued (Function.update A b c) t (Function.update f w none) := by
  obtain ⟨k, hknone, hturn, hwait⟩ := step_finish hk hs
  have hown : handling s w = some b := handling_of hk
  have hgone : handling t w = none := (handling_of hturn.self).trans hknone
  have hh : ∀ {v}, v ≠ w → handling t v = handling s v := fun hv => by
    unfold handling
    rw [hturn.other hv]
  obtain ⟨k', hk', a, r, ha, hr, -, hret⟩ := h.serves hf
  rw [hk] at hk'
  obtain rfl := Option.some.inj hk'
  obtain rfl := Option.some.inj ha
  obtain ⟨n, hpc⟩ := hret _ _ rfl
  obtain ⟨max, node, pc⟩ := r
  dsimp only at hpc
  subst hpc
  obtain ⟨u, u', hu, he, hp⟩ := TS.Conf.step_set hc
  obtain rfl := Option.some.inj (hu.symm.trans hr)
  obtain ⟨rfl, hnodes⟩ := exec_ret he
  have hself : Function.update f w none w = none := Function.update_self ..
  have hother : ∀ {v}, v ≠ w → Function.update f w none v = f v :=
    fun hv => Function.update_of_ne hv ..
  have hne : ∀ {v j}, Function.update f w none v = some j → v ≠ w := by
    rintro v j hv rfl
    rw [hself] at hv
    cases hv
  refine ⟨fun a => ?_, fun {v j} hv => ?_, fun {v m res''} hv hnone => ?_,
    fun {a j r'} hr' ho => ?_, fun {v v' j} h1 h2 heq => ?_⟩
  · have h1 := h.nodes a
    have h2 := hwait a
    have h3 := fetched_congr (s:=s) (t:=t) (f:=f) (g:=Function.update f w none) (a:=a)
      hturn.length fun v => by
        unfold fetches
        by_cases hv : v = w
        · subst hv
          rw [hgone, hf]
          simp
        · rw [hother hv, hh hv]
    rw [isFor_actor] at h2
    rw [h3]
    by_cases ha : a = b
    · subst ha
      rw [Function.update_self]
      simp at h2
      omega
    · rw [Function.update_of_ne ha]
      rw [decide_eq_false (Ne.symm ha)] at h2
      simp at h2
      omega
  · have hvw := hne hv
    rw [hother hvw] at hv
    obtain ⟨x, hx, a, r, hxa, hr', hret⟩ := h.serves hv
    refine ⟨x, (hturn.other hvw).trans hx, a, r, hxa, ?_, hret⟩
    by_cases hab : a = b
    · subst hab
      rw [Function.update_self, hp]
      by_cases hj : j = i
      · subst hj
        exact absurd (h.alone hv hf ((handling_of hx).trans (hxa.trans hown.symm))) hvw
      · rw [List.getElem?_set_ne (Ne.symm hj)]
        exact hr'
    · rw [Function.update_of_ne hab]
      exact hr'
  · by_cases hvw : v = w
    · subst hvw
      exact absurd hgone hnone
    · rw [hother hvw]
      rw [hh hvw] at hnone
      exact h.resumed ((hturn.other hvw).symm.trans hv) hnone
  · -- a thread that is not over is not the one that came back
    have hold : ∃ r₀, (A a).pool[j]? = some (.run r₀) ∧ ended r₀ = false ∧ (a = b → j ≠ i) := by
      by_cases hab : a = b
      · subst hab
        rw [Function.update_self, hp] at hr'
        by_cases hj : j = i
        · subst hj
          rw [List.getElem?_set_self (List.getElem?_eq_some_iff.mp hr).1] at hr'
          cases hr'
          cases ho
        · rw [List.getElem?_set_ne (Ne.symm hj)] at hr'
          exact ⟨r', hr', ho, fun _ => hj⟩
      · rw [Function.update_of_ne hab] at hr'
        exact ⟨r', hr', ho, fun he => absurd he hab⟩
    obtain ⟨r₀, hr₀, ho₀, hji⟩ := hold
    obtain ⟨v, hfv, hav⟩ := h.served hr₀ ho₀
    have hvw : v ≠ w := by
      rintro rfl
      obtain rfl := Option.some.inj (hfv.symm.trans hf)
      exact hji (Option.some.inj (hav.symm.trans hown)) rfl
    exact ⟨v, (hother hvw).trans hfv, (hh hvw).trans hav⟩
  · have hv := hne h1
    have hv' := hne h2
    rw [hother hv] at h1
    rw [hother hv'] at h2
    rw [hh hv, hh hv'] at heq
    exact h.alone h1 h2 heq

end Runtime
end ActorZeta
