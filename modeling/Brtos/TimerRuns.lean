import Brtos.TimerBlocks
import Brtos.Library.Run

/-! What holds of the timer lists in every run of the tasks, the callbacks, the timer task and the
tick that breaks no rule of the language. -/
namespace Brtos
open TimerList TimerService

namespace TimerService
variable {cfg : Config} {s t : TimerService cfg} {p w : ℕ}

/-- The timer is in one of the lists. -/
def Listed (s : TimerService cfg) (p : ℕ) : Prop := some p ∈ s.current.items ∨ some p ∈ s.future.items

/-- The counts are right, the entries are timers that were handed out, and no search is going on. -/
structure Regular (s : TimerService cfg) : Prop where
  small : cfg.brtosMaxTimer ≤ 255
  current : ∃ n, s.current.Filled n ∧ n < cfg.brtosMaxTimer
  future : ∃ n, s.future.Filled n ∧ n < cfg.brtosMaxTimer
  handed {p : ℕ} : s.Listed p → s.Handed p
  settled (p : ℕ) : (s.mem p).state ≠ .search

/-- Changes of one control block that keep it in use. -/
theorem Handed.update {v : Timer} {q : ℕ} (h : s.Handed q) (mem : t.mem = Function.update s.mem p v)
    (used : v.state ≠ .notUsed) : t.Handed q := by
  refine ⟨h.1,?_⟩
  rw [mem]
  by_cases here : q = p
  · subst here
    rwa [Function.update_self]
  · rw [Function.update_of_ne here]
    exact h.2

theorem settled_update {v : Timer} (h : ∀ q, (s.mem q).state ≠ .search)
    (mem : t.mem = Function.update s.mem p v) (still : v.state ≠ .search) (q : ℕ) :
    (t.mem q).state ≠ .search := by
  rw [mem]
  by_cases here : q = p
  · subst here
    rwa [Function.update_self]
  · rw [Function.update_of_ne here]
    exact h q

theorem Regular.congr (h : s.Regular) (mem : t.mem = s.mem) (current : t.current = s.current)
    (future : t.future = s.future) : t.Regular where
  small := h.small
  current := current ▸ h.current
  future := future ▸ h.future
  handed listed := by
    unfold Listed at listed
    rw [current,future] at listed
    obtain ⟨lt,used⟩ := h.handed listed
    exact ⟨lt,by rwa [mem]⟩
  settled q := mem ▸ h.settled q

/-- One control block changes, and the entries of the lists are old ones or that one. -/
theorem Regular.next {v : Timer} (h : s.Regular) (mem : t.mem = Function.update s.mem p v)
    (fits : p < cfg.brtosMaxTimer) (used : v.state ≠ .notUsed) (still : v.state ≠ .search)
    (current : ∃ n, t.current.Filled n ∧ n < cfg.brtosMaxTimer)
    (future : ∃ n, t.future.Filled n ∧ n < cfg.brtosMaxTimer)
    (listed : ∀ q, t.Listed q → s.Listed q ∨ q = p) : t.Regular where
  small := h.small
  current := current
  future := future
  settled := settled_update h.settled mem still
  handed {q} hq := by
    rcases listed q hq with old | rfl
    · exact (h.handed old).update mem used
    · refine ⟨fits,?_⟩
      rwa [mem,Function.update_self]

theorem listed_removed {mem : ℕ → Timer} {l r : TimerList} {n : ℕ} {x : Option ℕ}
    (h : Removed mem l n r) (hx : x ∈ r.items) : x ∈ l.items := by
  rw [← h.items]
  exact Multiset.mem_cons_of_mem hx

theorem Launched.regular (l : Launched s p w t) (h : s.Regular) (fits : p < cfg.brtosMaxTimer) :
    t.Regular := by
  obtain ⟨n,current,hn⟩ := h.current
  obtain ⟨m,future,hm⟩ := h.future
  rcases Nat.lt_or_ge (s.osTickCounter+w) cfg.tickCountOverflow with early | late
  · obtain ⟨_,same,add⟩ := l.early early
    obtain ⟨room,inserted⟩ := add n current
    apply h.next l.mem fits (by simp [begun]) (by simp [begun]) ⟨n+1,inserted.filled,room⟩
    · exact ⟨m,same ▸ future,hm⟩
    · intro q hq
      unfold Listed at hq
      rw [inserted.items,same,Multiset.mem_cons,Option.some.injEq] at hq
      unfold Listed
      tauto
  · obtain ⟨_,same,add⟩ := l.late late
    obtain ⟨room,inserted⟩ := add m future
    apply h.next l.mem fits (by simp [begun]) (by simp [begun]) _ ⟨m+1,inserted.filled,room⟩
    · intro q hq
      unfold Listed at hq
      rw [inserted.items,same,Multiset.mem_cons,Option.some.injEq] at hq
      unfold Listed
      tauto
    · exact ⟨n,same ▸ current,hn⟩

theorem launch_regular (h : s.Regular) (fits : p < cfg.brtosMaxTimer) (st : s.launch p w = .ok t) :
    t.Regular := by
  obtain ⟨n,current,_⟩ := h.current
  obtain ⟨m,future,_⟩ := h.future
  rcases Nat.eq_zero_or_pos w with rfl | pos
  · obtain rfl := Except.ok.inj (launch_zero.symm.trans st)
    exact h
  · exact (launch_ok current future pos st).regular h fits

theorem created_regular (h : s.Regular) {cb : Option ℕ} (fits : p < cfg.brtosMaxTimer) :
    (s.created p cb).Regular :=
  h.next (v := { s.mem p with state := .stopped, funcCb := cb }) rfl fits (by simp) (by simp) h.current
    h.future fun _ => Or.inl

theorem osTimerSet_regular (h : s.Regular) {cbp : Bool} {cb : Option ℕ} {r : Reply}
    (st : s.osTimerSet cbp cb w = .ok (t,r)) : t.Regular := by
  rcases osTimerSet_ok st with ⟨_,_,_,_,mem,current,future,_⟩ | ⟨p,u,_,found,_,launched,rfl⟩
  · exact h.congr mem current future
  · have fits := (findTimer_ok (by simp) found).1
    exact (launch_regular (created_regular h fits) fits launched).congr rfl rfl rfl

theorem osTimerStart_regular (h : s.Regular) {q : Option ℕ} {r : Reply} (handed : ∀ p ∈ q, s.Handed p)
    (st : s.osTimerStart q w = .ok (t,r)) : t.Regular := by
  rcases osTimerStart_ok st with ⟨rfl,_,_⟩ | ⟨p,u,rfl,_,_,launched,rfl⟩
  · exact h
  · have begun : (s.onKernel Kernel.enterTask).Regular := h.congr rfl rfl rfl
    exact (launch_regular begun (handed p rfl).1 launched).congr rfl rfl rfl

/-- What the list without one of its entries keeps. -/
theorem without_removed (mem : ℕ → Timer) {l : TimerList} {i n : ℕ} (h : l.Filled n) (pos : 1 ≤ i)
    (le : i ≤ n) : (without mem l i n).Filled (n-1) ∧
      Heap.up (due mem) 8 l.timers i 1 ::ₘ (without mem l i n).items = l.items := by
  have small := h.small
  have same := (Heap.up_shuffles (due mem) 8 l.timers i).mono le
  have moved := h.of_shuffles same
  have gone := removed mem moved (by omega)
  exact ⟨gone.filled,gone.items.trans (items_of_shuffles h same)⟩

theorem Stopped.regular {del i n : ℕ} (st : Stopped s p del i n t) (h : s.Regular)
    (list : (s.guess p).Filled n) (pos : 1 ≤ i) (le : i ≤ n) (he : (s.guess p).timers i = some p) :
    t.Regular := by
  obtain ⟨n',current,hn⟩ := h.current
  obtain ⟨m,future,hm⟩ := h.future
  have member : some p ∈ (s.guess p).items := list.mem_items.mpr ⟨i,pos,le,he⟩
  have used : (s.ended p del).state ≠ .notUsed ∧ (s.ended p del).state ≠ .search := by
    unfold ended
    split_ifs <;> simp
  rcases Nat.lt_or_ge (s.mem p).timeout s.osTickCounter with passed | ahead
  · obtain ⟨same,gone⟩ := st.passed passed
    rw [guess,if_neg (by omega)] at list member
    obtain rfl := list.count_unique future
    obtain ⟨filled,items⟩ := without_removed t.mem list pos le
    apply h.next st.mem (h.handed (Or.inr member)).1 used.1 used.2
    · exact ⟨n',same ▸ current,hn⟩
    · exact ⟨n-1,gone ▸ filled,by omega⟩
    · intro q hq
      unfold Listed at hq
      rw [same,gone] at hq
      refine Or.inl (hq.imp id fun hq => ?_)
      rw [← items]
      exact Multiset.mem_cons_of_mem hq
  · obtain ⟨gone,same⟩ := st.ahead ahead
    rw [guess,if_pos ahead] at list member
    obtain rfl := list.count_unique current
    obtain ⟨filled,items⟩ := without_removed t.mem list pos le
    apply h.next st.mem (h.handed (Or.inl member)).1 used.1 used.2
    · exact ⟨n-1,gone ▸ filled,by omega⟩
    · exact ⟨m,same ▸ future,hm⟩
    · intro q hq
      unfold Listed at hq
      rw [same,gone] at hq
      refine Or.inl (hq.imp (fun hq => ?_) id)
      rw [← items]
      exact Multiset.mem_cons_of_mem hq

theorem Regular.guess (h : s.Regular) (p : ℕ) : ∃ n, (s.guess p).Filled n ∧ n < cfg.brtosMaxTimer := by
  unfold TimerService.guess
  split_ifs
  · exact h.current
  · exact h.future

theorem osTimerStop_regular (h : s.Regular) {q : Option ℕ} {del : ℕ} {r : Reply}
    (st : s.osTimerStop q del = .ok (t,r)) : t.Regular := by
  cases q with
  | none =>
    obtain ⟨rfl,_⟩ := Prod.mk.inj (Except.ok.inj st)
    exact h
  | some p =>
    obtain ⟨n,list,fits⟩ := h.guess p
    obtain ⟨_,i,pos,le,he,stopped⟩ := osTimerStop_ok list h.settled (within fits) st
    exact stopped.regular h list pos le he

theorem Dispatched.regular {behind : Bool} {again : ℕ} {q : Option ℕ}
    (d : Dispatched s behind p again t q) (h : s.Regular) (handed : s.Handed p) : t.Regular := by
  obtain ⟨n,current,hn⟩ := h.current
  obtain ⟨m,future,hm⟩ := h.future
  rcases Nat.eq_zero_or_pos again with rfl | pos
  · obtain ⟨mem,same⟩ := d.retired rfl
    obtain ⟨positive,gone⟩ := d.removed (Or.inl rfl) n current
    apply h.next mem handed.1 (by simp) (by simp) ⟨n-1,gone.filled,by omega⟩
    · exact ⟨m,same ▸ future,hm⟩
    · intro q hq
      exact Or.inl (hq.imp (listed_removed gone) fun hq => same ▸ hq)
  · have still : (s.mem p).state ≠ .search := h.settled p
    cases moves : (s.rearmed behind again).2 with
    | true =>
      obtain ⟨positive,gone⟩ := d.removed (Or.inr moves) n current
      obtain ⟨room,inserted⟩ := d.moved pos moves m future
      apply h.next (d.armed pos) handed.1 handed.2 still ⟨n-1,gone.filled,by omega⟩
        ⟨m+1,inserted.filled,room⟩
      intro q hq
      rcases hq with hq | hq
      · exact Or.inl (Or.inl (listed_removed gone hq))
      · rw [inserted.items,Multiset.mem_cons,Option.some.injEq] at hq
        exact hq.symm.imp Or.inr id
    | false =>
      obtain ⟨same,stays⟩ := d.stayed pos moves
      obtain ⟨filled,items⟩ := sunk_filled t.mem current
      rw [← stays n current] at filled items
      apply h.next (d.armed pos) handed.1 handed.2 still ⟨n,filled,hn⟩ ⟨m,same ▸ future,hm⟩
      intro q hq
      unfold Listed at hq
      rw [items,same] at hq
      exact Or.inl hq

/-- The first entry of the current list is a timer that was handed out. -/
theorem Regular.first_handed (h : s.Regular) (he : s.current.timers 1 = some p) : s.Handed p := by
  obtain ⟨n,current,_⟩ := h.current
  have inside := (current.some_iff 1).mp (by rw [he]; rfl)
  exact h.handed (Or.inl (current.mem_items.mpr ⟨1,inside.1,inside.2,he⟩))

theorem Regular.switchLists (h : s.Regular) : s.switchLists.Regular where
  small := h.small
  current := h.future
  future := h.current
  handed listed := h.handed listed.symm
  settled := h.settled

/-- What the timer task does to the lists between two stops. -/
inductive Rearranged (s t : TimerService cfg) : Prop
  | same (current : t.current = s.current) (future : t.future = s.future)
  | sunk (n : ℕ) (list : s.current.Filled n) (current : t.current = sunk s.mem s.current n)
      (future : t.future = s.future)
  | switched (current : t.current = s.future) (future : t.future = s.current)

theorem Rearranged.regular (r : Rearranged s t) (h : s.Regular) (mem : t.mem = s.mem) : t.Regular := by
  cases r with
  | same current future => exact h.congr mem current future
  | sunk n list current future =>
    obtain ⟨filled,items⟩ := sunk_filled s.mem list
    obtain ⟨n',list',fits⟩ := h.current
    obtain rfl := list.count_unique list'
    refine ⟨h.small,⟨n,current ▸ filled,fits⟩,future ▸ h.future,fun listed => ?_,fun p => mem ▸ h.settled p⟩
    unfold Listed at listed
    rw [current,future,items] at listed
    obtain ⟨lt,used⟩ := h.handed listed
    exact ⟨lt,by rwa [mem]⟩
  | switched current future => exact h.switchLists.congr mem current future

end TimerService

namespace TimerSystem
variable {cfg : Config} {s t : TimerSystem cfg} {a : TimerAction}

/-- The service is regular, and so is the timer that the timer task looks at. -/
structure Regular (s : TimerSystem cfg) : Prop where
  service : s.toTimerService.Regular
  held {p : ℕ} : s.point.timer = some p → s.Handed p

theorem skip_ok {behind : Bool} (h : s.toTimerService.Regular) (st : s.skip behind = .ok t) :
    t.mem = s.mem ∧ Rearranged s.toTimerService t.toTimerService ∧
      t.point = .loop behind (t.current.timers 1) := by
  obtain ⟨⟨u,q⟩,hu,ht⟩ := bind_eq_ok.mp st
  obtain rfl := Except.ok.inj ht
  obtain ⟨n,current,fits⟩ := h.current
  obtain ⟨_,rfl,hq⟩ := TimerService.proceed_ok current fits hu
  exact ⟨rfl,.sunk n current rfl rfl,congrArg _ hq⟩

/-- What the timer task does between two stops: it leaves the control blocks alone, and looks at the
timer that it had, with the list as it was, or at the first one of the current list. -/
theorem run_ok (h : s.toTimerService.Regular) (st : s.run = .ok t) :
    t.mem = s.mem ∧ Rearranged s.toTimerService t.toTimerService ∧
      ∀ p, t.point.timer = some p →
        s.point.timer = some p ∧ t.current = s.current ∨ t.current.timers 1 = some p := by
  unfold run at st
  cases point : s.point with
  | start =>
    simp only [point] at st
    obtain ⟨q,hq,ht⟩ := bind_eq_ok.mp st
    obtain rfl := Except.ok.inj ht
    exact ⟨rfl,.same rfl rfl,fun p hp => Or.inr ((TimerService.first_ok hq).2.symm.trans hp)⟩
  | choose q =>
    cases q
    all_goals simp only [point] at st; obtain rfl := Except.ok.inj st
    · exact ⟨rfl,.same rfl rfl,fun p hp => by cases hp⟩
    · exact ⟨rfl,.same rfl rfl,fun p hp => by cases hp⟩
  | sleep next =>
    simp only [point] at st
    obtain rfl := Except.ok.inj st
    exact ⟨rfl,.same rfl rfl,fun p hp => by cases hp⟩
  | enlist =>
    simp only [point] at st
    obtain rfl := Except.ok.inj st
    exact ⟨rfl,.same rfl rfl,fun p hp => by cases hp⟩
  | asleep =>
    simp only [point] at st
    obtain ⟨q,hq,ht⟩ := bind_eq_ok.mp st
    obtain rfl := Except.ok.inj ht
    exact ⟨rfl,.same rfl rfl,fun p hp => Or.inr ((TimerService.first_ok hq).2.symm.trans hp)⟩
  | judge q =>
    cases q
    all_goals simp only [point] at st; obtain rfl := Except.ok.inj st
    · exact ⟨rfl,.same rfl rfl,fun p hp => by cases hp⟩
    · exact ⟨rfl,.same rfl rfl,fun p hp => Or.inl ⟨hp,rfl⟩⟩
  | loop behind q =>
    cases behind <;> cases q <;> simp only [point] at st
    · obtain rfl := Except.ok.inj st
      exact ⟨rfl,.same rfl rfl,fun p hp => by cases hp⟩
    · split_ifs at st
      · obtain rfl := Except.ok.inj st
        exact ⟨rfl,.same rfl rfl,fun p hp => Or.inl ⟨hp,rfl⟩⟩
      · obtain ⟨mem,lists,next⟩ := skip_ok h st
        exact ⟨mem,lists,fun p hp => Or.inr (by rw [next] at hp; exact hp)⟩
      · obtain rfl := Except.ok.inj st
        exact ⟨rfl,.same rfl rfl,fun p hp => Or.inl ⟨hp,rfl⟩⟩
    · obtain ⟨q,hq,ht⟩ := bind_eq_ok.mp st
      obtain rfl := Except.ok.inj ht
      exact ⟨rfl,.switched rfl rfl,fun p hp => Or.inr ((TimerService.first_ok hq).2.symm.trans hp)⟩
    · split_ifs at st
      · obtain rfl := Except.ok.inj st
        exact ⟨rfl,.same rfl rfl,fun p hp => Or.inl ⟨hp,rfl⟩⟩
      · obtain ⟨mem,lists,next⟩ := skip_ok h st
        exact ⟨mem,lists,fun p hp => Or.inr (by rw [next] at hp; exact hp)⟩
  | fires behind q =>
    simp only [point] at st
    obtain rfl := Except.ok.inj st
    exact ⟨rfl,.same rfl rfl,fun p hp => Or.inl ⟨by rwa [point] at hp,rfl⟩⟩
  | settle q =>
    simp only [point] at st
    split_ifs at st
    · obtain ⟨q,hq,ht⟩ := bind_eq_ok.mp st
      obtain rfl := Except.ok.inj ht
      exact ⟨rfl,.switched rfl rfl,fun p hp => Or.inr ((TimerService.first_ok hq).2.symm.trans hp)⟩
    · obtain rfl := Except.ok.inj st
      exact ⟨rfl,.same rfl rfl,fun p hp => Or.inl ⟨hp,rfl⟩⟩

/-- The end of a callback. -/
theorem ret_ok {again : ℕ} (h : s.toTimerService.Regular) (e : s.Enabled (.ret again))
    (st : s.act (.ret again) = .ok t) : ∃ behind p, s.point = .fires behind p ∧
      Dispatched s.toTimerService behind p again t.toTimerService (t.current.timers 1) ∧
      t.point = .loop behind (t.current.timers 1) ∧
      t.timeout = (if again > 0 then s.osTickCounter+again else s.timeout) ∧ t.self = s.self := by
  cases point : s.point with
  | fires behind p =>
    rw [act,point] at st
    obtain ⟨⟨u,q⟩,hu,ht⟩ := bind_eq_ok.mp st
    obtain rfl := Except.ok.inj ht
    obtain ⟨n,current,fits⟩ := h.current
    obtain ⟨m,future,_⟩ := h.future
    have d := TimerService.dispatch_ok current future fits hu
    exact ⟨behind,p,rfl,d.next ▸ d,congrArg _ d.next,rfl,rfl⟩
  | _ =>
    have fires := e.2.1
    rw [inCallback,point] at fires
    cases fires

/-- Every step that breaks no rule leaves regular lists. -/
theorem act_regular (h : s.Regular) (e : s.Enabled a) (st : s.act a = .ok t) : t.Regular := by
  have handed : ∀ p, s.Handed p → t.Handed p := by
    intro p hp
    rcases (act_frame st).1 with same | ⟨q,v,writes,mem⟩
    · exact ⟨hp.1,same ▸ hp.2⟩
    · by_cases here : p = q
      · subst here
        refine ⟨hp.1,?_⟩
        rw [mem,Function.update_self]
        cases writes with
        | set _ _ state => rw [state]; split_ifs <;> simp
        | start => simp [TimerService.begun]
        | stop => rw [ended_state]; split_ifs <;> simp
        | ret => rw [served_state]; split_ifs <;> simp [hp.2]
      · refine ⟨hp.1,?_⟩
        rw [mem,Function.update_of_ne here]
        exact hp.2
  cases a with
  | set cbp cb w =>
    obtain ⟨⟨u,r⟩,hu,ht⟩ := bind_eq_ok.mp st
    obtain rfl := Except.ok.inj ht
    exact ⟨TimerService.osTimerSet_regular h.service hu,fun hp => handed _ (h.held hp)⟩
  | start q w =>
    obtain ⟨⟨u,r⟩,hu,ht⟩ := bind_eq_ok.mp st
    obtain rfl := Except.ok.inj ht
    exact ⟨TimerService.osTimerStart_regular h.service e.2.2 hu,fun hp => handed _ (h.held hp)⟩
  | stop q del =>
    obtain ⟨⟨u,r⟩,hu,ht⟩ := bind_eq_ok.mp st
    obtain rfl := Except.ok.inj ht
    exact ⟨TimerService.osTimerStop_regular h.service hu,fun hp => handed _ (h.held hp)⟩
  | tick fuel =>
    simp only [act] at st
    split at st
    · obtain rfl := Except.ok.inj st
      exact ⟨h.service.congr rfl rfl rfl,h.held⟩
    · simp at st
  | switch task =>
    obtain rfl := Except.ok.inj st
    exact ⟨h.service.congr rfl rfl rfl,h.held⟩
  | run =>
    obtain ⟨mem,lists,timer⟩ := run_ok h.service st
    have regular := lists.regular h.service mem
    refine ⟨regular,fun hp => ?_⟩
    rcases timer _ hp with ⟨old,_⟩ | first
    · exact handed _ (h.held old)
    · exact regular.first_handed first
  | ret again =>
    obtain ⟨behind,p,point,d,next,_⟩ := ret_ok h.service e st
    have regular := d.regular h.service (h.held (by rw [point]; rfl))
    refine ⟨regular,fun hp => regular.first_handed ?_⟩
    rwa [next] at hp

/-! ### Start-up and runs -/

theorem clearTimers_big (big : 255 < cfg.brtosMaxTimer) {f i : ℕ} (lt : i < 256) (mem : ℕ → Timer) :
    TimerService.clearTimers cfg f i mem = .error .hang := by
  induction f generalizing i mem with
  | zero => rfl
  | succ f ih =>
    rw [TimerService.clearTimers,if_pos (by omega)]
    exact ih (Nat.mod_lt _ (by omega)) _

theorem clearTimers_eq (small : cfg.brtosMaxTimer ≤ 255) {f i : ℕ} (le : i ≤ cfg.brtosMaxTimer)
    (fuel : cfg.brtosMaxTimer+1 ≤ i+f) (mem : ℕ → Timer) : TimerService.clearTimers cfg f i mem =
      .ok fun q => if i ≤ q ∧ q < cfg.brtosMaxTimer then ⟨none,0,.notUsed⟩ else mem q := by
  induction f generalizing i mem with
  | zero => omega
  | succ f ih =>
    rw [TimerService.clearTimers]
    split_ifs with more
    · rw [Nat.mod_eq_of_lt (by omega),ih (by omega) (by omega)]
      congr 1
      funext q
      by_cases here : q = i
      · subst here
        rw [if_neg (by omega),if_pos ⟨le_rfl,more⟩,Function.update_self]
      · rw [Function.update_of_ne here]
        exact if_congr (by omega) rfl rfl
    · congr 1
      funext q
      rw [if_neg (by omega)]

/-- The service when OSTimerInit returns: every control block is free, and the lists are empty. -/
structure Fresh (s : TimerSystem cfg) : Prop where
  small : cfg.brtosMaxTimer ≤ 255
  mem (q : ℕ) : s.mem q = ⟨none,0,if q < cfg.brtosMaxTimer then .notUsed else .notAllocated⟩
  current : s.current = ⟨fun _ => none,0⟩
  future : s.future = ⟨fun _ => none,0⟩
  point : s.point = .start
  timeout : s.timeout = 0

theorem boot_fresh {k : Kernel cfg} {e : Entry} {stacksize prio : ℕ}
    (st : boot k e stacksize prio = .ok s) : s.Fresh := by
  obtain ⟨⟨u,i⟩,hu,hs⟩ := bind_eq_ok.mp st
  obtain rfl := Except.ok.inj hs
  obtain ⟨v,hv,hu⟩ := bind_eq_ok.mp hu
  dsimp only at hu
  split_ifs at hu
  obtain ⟨rfl,rfl⟩ := Prod.mk.inj (Except.ok.inj hu)
  obtain ⟨mem,hm,hv⟩ := bind_eq_ok.mp hv
  obtain rfl := Except.ok.inj hv
  have small : cfg.brtosMaxTimer ≤ 255 := by
    by_contra big
    rw [clearTimers_big (by omega) (by omega)] at hm
    simp at hm
  rw [clearTimers_eq small (Nat.zero_le _) (by omega)] at hm
  obtain rfl := Except.ok.inj hm
  refine ⟨small,fun q => ?_,rfl,rfl,rfl,rfl⟩
  change (if 0 ≤ q ∧ q < cfg.brtosMaxTimer then (⟨none,0,.notUsed⟩ : Timer)
    else ⟨none,0,.notAllocated⟩) = _
  split_ifs <;> first | rfl | omega

theorem filled_empty : Filled ⟨fun _ => none,0⟩ 0 where
  count := rfl
  small := by omega
  some_iff i := by
    simp only [Option.isSome_none,Bool.false_eq_true,false_iff]
    omega

theorem Fresh.regular (h : s.Fresh) : s.Regular := by
  have positive := cfg.timers_pos
  refine ⟨⟨h.small,⟨0,?_,positive⟩,⟨0,?_,positive⟩,fun listed => ?_,fun p => ?_⟩,fun hp => ?_⟩
  · rw [h.current]
    exact filled_empty
  · rw [h.future]
    exact filled_empty
  · unfold TimerService.Listed at listed
    rw [h.current,h.future] at listed
    simp [TimerList.items,Heap.items] at listed
  · rw [h.mem]
    simp only
    split_ifs <;> simp
  · rw [h.point] at hp
    cases hp

/-- The state in which OSTimerInit leaves the service, called with any kernel. -/
def Booted (s : TimerSystem cfg) : Prop :=
  ∃ (k : Kernel cfg) (e : Entry) (stacksize prio : ℕ), boot k e stacksize prio = .ok s

theorem Booted.fresh (h : s.Booted) : s.Fresh := by
  obtain ⟨k,e,stacksize,prio,st⟩ := h
  exact boot_fresh st

/-- A computation from a state in which OSTimerInit leaves the service. -/
theorem exists_booted (k : Kernel cfg) (e : Entry) (stacksize prio : ℕ) (f : TimerSystem cfg → Option Bool)
    (h : (boot k e stacksize prio).toOption.bind f = some true) : ∃ s, Booted s ∧ f s = some true := by
  obtain ⟨s,hs,hf⟩ := Option.bind_eq_some_iff.mp h
  refine ⟨s,⟨k,e,stacksize,prio,?_⟩,hf⟩
  cases hb : boot k e stacksize prio with
  | error e => simp [hb,Except.toOption] at hs
  | ok u =>
    rw [hb] at hs
    exact congrArg _ (Option.some.inj hs)

theorem reach_regular {ok : TimerSystem cfg → TimerAction → Prop} (start : s.Booted)
    (typed : ∀ s a, ok s a → s.Enabled a) (run : Run.Reach step ok s t) : t.Regular :=
  run.invariant start.fresh.regular fun _ _ _ regular e st =>
    act_regular regular (typed _ _ e) (step_eq_some.mp st)

end TimerSystem
end Brtos
