import Brtos.TimerRuns

/-! Stopping one timer, and no other. -/
namespace Brtos
open TimerList TimerService Heap

namespace TimerList
variable {mem mem' : ℕ → Timer} {l : TimerList} {p i n : ℕ}

/-- The entries on the way from `i` to the first one have other deadlines than zero. -/
def Clear (mem : ℕ → Timer) (l : TimerList) (i : ℕ) : Prop :=
  ∀ m, 1 ≤ i/2^(m+1) → due mem (l.timers (i/2^(m+1))) ≠ 0

theorem Filled.unique (h : l.Filled n) (once : l.items.count (some p) ≤ 1) (pos : 1 ≤ i) (le : i ≤ n)
    (he : l.timers i = some p) {j : ℕ} (hj : 1 ≤ j ∧ j ≤ n) (hej : l.timers j = some p) : i = j := by
  apply eq_of_count_le_one (a := l.timers) (n := n) _ ⟨pos,le⟩ hj (he.trans hej.symm)
  rwa [he,← h.items_eq]

section
variable (list : l.Filled n) (pos : 1 ≤ i) (le : i ≤ n) (he : l.timers i = some p)
  (zero : (mem' p).timeout = 0) (same : ∀ q ≠ p, (mem' q).timeout = (mem q).timeout)
include list pos le he

theorem due_other (once : l.items.count (some p) ≤ 1)
    (same : ∀ q ≠ p, (mem' q).timeout = (mem q).timeout) {j : ℕ} (hj : 1 ≤ j) (hjn : j ≤ n)
    (apart : j ≠ i) : due mem' (l.timers j) = due mem (l.timers j) := by
  obtain ⟨q,hq⟩ := Option.isSome_iff_exists.mp ((list.some_iff j).mpr ⟨hj,hjn⟩)
  rw [hq]
  apply same
  rintro rfl
  exact apart (list.unique once pos le he ⟨hj,hjn⟩ hq).symm

include zero same

/-- The entry that moves up becomes the first one exactly if no deadline on its way is zero too. -/
theorem up_clear_iff (once : l.items.count (some p) ≤ 1) :
    up (due mem') 8 l.timers i 1 = some p ↔ Clear mem l i := by
  classical
  have small := list.small
  have climbs : Climbs (due mem') l.timers i ↔ Clear mem l i := by
    apply forall_congr'
    intro m
    apply imp_congr_right
    intro low
    have lt : i/2^(m+1) < i := Nat.div_lt_self (by omega) (Nat.one_lt_two_pow (by omega))
    rw [he,due_some,zero,due_other list pos le he once same low (by omega) (by omega)]
    exact Nat.pos_iff_ne_zero
  rw [up_first pos (by omega)]
  split_ifs with go
  · exact iff_of_true he (climbs.mp go)
  · refine iff_of_false (fun first => go ?_) fun clear => go (climbs.mpr clear)
    obtain rfl := list.unique once pos le he ⟨le_rfl,by omega⟩ first
    intro m low
    have : 1/2^(m+1) < 1 := Nat.div_lt_self one_pos (Nat.one_lt_two_pow (by omega))
    omega

/-- The timer is no longer in the list exactly if it was there once and with a clear way. -/
theorem gone_iff : some p ∉ (without mem' l i n).items ↔
    l.items.count (some p) = 1 ∧ Clear mem l i := by
  have items := (without_removed mem' list pos le).2
  have member : some p ∈ l.items := list.mem_items.mpr ⟨i,pos,le,he⟩
  constructor
  · intro gone
    have first : up (due mem') 8 l.timers i 1 = some p := by
      rw [← items] at member
      exact ((Multiset.mem_cons.mp member).resolve_right gone).symm
    have once : l.items.count (some p) = 1 := by
      rw [← items,first,Multiset.count_cons_self,Multiset.count_eq_zero.mpr gone]
    exact ⟨once,(up_clear_iff list pos le he zero same once.le).mp first⟩
  · rintro ⟨once,clear⟩
    have first := (up_clear_iff list pos le he zero same once.le).mpr clear
    rw [← items,first,Multiset.count_cons_self] at once
    exact Multiset.count_eq_zero.mp (by omega)

/-- Without one timer the list is still a heap. -/
theorem without_ordered (once : l.items.count (some p) ≤ 1) (order : Ordered (due mem) l.timers n) :
    Ordered (due mem') (without mem' l i n).timers (n-1) := by
  have small := list.small
  have ready : UpReady (due mem') l.timers n i := by
    apply order.lowered le
    · intro j hj hjn apart
      exact due_other list pos le he once same hj hjn apart
    · rw [he,due_some,zero]
      exact Nat.zero_le _
  have risen := up_ordered ready le (f := 8) (by omega)
  have moved := list.of_shuffles ((up_shuffles (due mem') 8 l.timers i).mono le)
  exact (removed mem' moved (by omega)).ordered fun j lt hj => risen j (by omega) hj

end

end TimerList

namespace TimerService
variable {cfg : Config} {s t u : TimerService cfg} {p del i n : ℕ}

/-- The order of a list as a heap. -/
def Sorted (s : TimerService cfg) (l : TimerList) : Prop := Ordered (due s.mem) l.timers l.count.toNat

/-- From `s` to `t` the timer left the lists, and nothing happened to the others. -/
structure Only (s t : TimerService cfg) (p : ℕ) : Prop where
  others {q : ℕ} : q ≠ p → t.mem q = s.mem q
  current {q : ℕ} : q ≠ p → t.current.items.count (some q) = s.current.items.count (some q)
  future {q : ℕ} : q ≠ p → t.future.items.count (some q) = s.future.items.count (some q)
  gone : ¬ t.Listed p
  idle : ¬ s.Listed p → t.current = s.current ∧ t.future = s.future
  counts : (∃ n, t.current.Filled n) ∧ ∃ n, t.future.Filled n
  currentOrder : s.Sorted s.current → t.Sorted t.current
  futureOrder : s.Sorted s.future → t.Sorted t.future

/-- OSTimerStop removes exactly its argument, and accesses only the entries in use. -/
def StopsOnly (s : TimerService cfg) (p del : ℕ) : Prop :=
  ∃ t, s.osTimerStop (some p) del = .ok (t,.ret ok []) ∧
    s.osTimerStopWithin (fun i => decide (1 ≤ i ∧ (i : ℤ) ≤ (s.guess p).count)) (some p) del =
      .ok (t,.ret ok []) ∧ Only s t p

/-- The timer is in the lists once, in the one that OSTimerStop guesses, and with a clear way. -/
structure Stoppable (s : TimerService cfg) (p : ℕ) : Prop where
  once : s.current.items.count (some p)+s.future.items.count (some p) = 1
  clear : ∃ i : ℕ, 1 ≤ i ∧ (i : ℤ) ≤ (s.guess p).count ∧ (s.guess p).timers i = some p ∧
    Clear s.mem (s.guess p) i

theorem ended_timeout (s : TimerService cfg) (p del : ℕ) : (s.ended p del).timeout = 0 := by
  unfold ended
  split_ifs <;> rfl

theorem Stopped.zero (h : Stopped s p del i n t) : (t.mem p).timeout = 0 := by
  rw [h.mem,Function.update_self,ended_timeout]

theorem Stopped.others (h : Stopped s p del i n t) {q : ℕ} (apart : q ≠ p) : t.mem q = s.mem q := by
  rw [h.mem,Function.update_of_ne apart]

theorem Stopped.unique (h : Stopped s p del i n t) (h' : Stopped s p del i n u) : t = u := by
  have kernel := h.kernel.trans h'.kernel.symm
  have mem := h.mem.trans h'.mem.symm
  have task := h.handlingTask.trans h'.handlingTask.symm
  have lists : t.current = u.current ∧ t.future = u.future := by
    rcases Nat.lt_or_ge (s.mem p).timeout s.osTickCounter with passed | ahead
    · obtain ⟨c,f⟩ := h.passed passed
      obtain ⟨c',f'⟩ := h'.passed passed
      exact ⟨c.trans c'.symm,by rw [f,f',mem]⟩
    · obtain ⟨c,f⟩ := h.ahead ahead
      obtain ⟨c',f'⟩ := h'.ahead ahead
      exact ⟨by rw [c,c',mem],f.trans f'.symm⟩
  cases t
  cases u
  simp only at kernel mem task lists
  obtain ⟨rfl,rfl⟩ := lists
  subst kernel mem task
  rfl

theorem sorted_iff {l : TimerList} (list : l.Filled n) :
    s.Sorted l ↔ Ordered (due s.mem) l.timers n := by
  rw [Sorted,list.count,Int.toNat_natCast]

/-- The order of a list that the timer is not in. -/
theorem sorted_apart {l : TimerList} (list : l.Filled n) (absent : some p ∉ l.items)
    (others : ∀ q ≠ p, t.mem q = s.mem q) (order : s.Sorted l) : t.Sorted l := by
  rw [sorted_iff list] at order ⊢
  apply order.congr
  intro j hj hjn
  obtain ⟨q,hq⟩ := Option.isSome_iff_exists.mp ((list.some_iff j).mpr ⟨hj,hjn⟩)
  rw [hq,due_some,due_some,others]
  rintro rfl
  exact absent (list.mem_items.mpr ⟨j,hj,hjn,hq⟩)

theorem Only.switchLists (h : Only s t p) : Only s.switchLists t.switchLists p where
  others := h.others
  current := h.future
  future := h.current
  gone listed := h.gone listed.symm
  idle absent := (h.idle fun listed => absent listed.symm).symm
  counts := h.counts.symm
  currentOrder := h.futureOrder
  futureOrder := h.currentOrder

/-- The timer was in the current list, which is now without its entry. -/
theorem only_iff {m : ℕ} (list : s.current.Filled n) (other : s.future.Filled m) (pos : 1 ≤ i) (le : i ≤ n)
    (he : s.current.timers i = some p) (zero : (t.mem p).timeout = 0)
    (others : ∀ q ≠ p, t.mem q = s.mem q) (shorter : t.current = without t.mem s.current i n)
    (same : t.future = s.future) : Only s t p ↔
      s.current.items.count (some p)+s.future.items.count (some p) = 1 ∧ Clear s.mem s.current i := by
  have due : ∀ q ≠ p, (t.mem q).timeout = (s.mem q).timeout := fun q apart =>
    congrArg Timer.timeout (others q apart)
  have member : some p ∈ s.current.items := list.mem_items.mpr ⟨i,pos,le,he⟩
  have gone := gone_iff list pos le he zero due
  obtain ⟨filled,items⟩ := without_removed t.mem list pos le
  constructor
  · intro only
    have away := only.gone
    unfold Listed at away
    rw [shorter,same,not_or] at away
    obtain ⟨once,clear⟩ := gone.mp away.1
    exact ⟨by rw [once,Multiset.count_eq_zero.mpr away.2],clear⟩
  · rintro ⟨once,clear⟩
    have positive := Multiset.count_pos.mpr member
    have one : s.current.items.count (some p) = 1 := by omega
    have absent : some p ∉ s.future.items := Multiset.count_eq_zero.mp (by omega)
    have first := (up_clear_iff list pos le he zero due one.le).mpr clear
    rw [first] at items
    refine ⟨fun apart => others _ apart,fun {q} apart => ?_,fun _ => by rw [same],?_,
      fun idle => absurd (Or.inl member) idle,⟨⟨_,shorter ▸ filled⟩,⟨m,same ▸ other⟩⟩,?_,?_⟩
    · rw [shorter,← items,Multiset.count_cons_of_ne (by simpa using apart)]
    · unfold Listed
      rw [shorter,same,not_or]
      exact ⟨gone.mpr ⟨one,clear⟩,absent⟩
    · intro order
      rw [shorter,sorted_iff filled]
      exact without_ordered list pos le he zero due one.le ((sorted_iff list).mp order)
    · intro order
      rw [same]
      exact sorted_apart other absent others order

theorem Stopped.only_iff (st : Stopped s p del i n t) (h : s.Regular) (list : (s.guess p).Filled n)
    (pos : 1 ≤ i) (le : i ≤ n) (he : (s.guess p).timers i = some p) : Only s t p ↔
      s.current.items.count (some p)+s.future.items.count (some p) = 1 ∧ Clear s.mem (s.guess p) i := by
  obtain ⟨_,current,_⟩ := h.current
  obtain ⟨_,future,_⟩ := h.future
  rcases Nat.lt_or_ge (s.mem p).timeout s.osTickCounter with passed | ahead
  · obtain ⟨same,shorter⟩ := st.passed passed
    rw [guess,if_neg (by omega)] at list he ⊢
    rw [show Only s t p ↔ Only s.switchLists t.switchLists p from
      ⟨Only.switchLists,Only.switchLists⟩,Nat.add_comm]
    exact TimerService.only_iff (s := s.switchLists) (t := t.switchLists) list current pos le he st.zero
      (fun _ => st.others) shorter same
  · obtain ⟨shorter,same⟩ := st.ahead ahead
    rw [guess,if_pos ahead] at list he ⊢
    exact TimerService.only_iff list future pos le he st.zero (fun _ => st.others) shorter same

theorem stopsOnly_iff (h : s.Regular) (p del : ℕ) : s.StopsOnly p del ↔ s.Stoppable p := by
  obtain ⟨n,list,fits⟩ := h.guess p
  have window : ∀ j, 1 ≤ j → j ≤ n →
      (fun i : ℕ => decide (1 ≤ i ∧ (i : ℤ) ≤ (s.guess p).count)) j = true := by
    intro j pos le
    rw [decide_eq_true_iff,list.count]
    omega
  constructor
  · rintro ⟨t,returns,_,only⟩
    obtain ⟨_,i,pos,le,he,stopped⟩ := osTimerStop_ok list h.settled (within fits) returns
    obtain ⟨once,clear⟩ := (stopped.only_iff h list pos le he).mp only
    exact ⟨once,i,pos,by rw [list.count]; omega,he,clear⟩
  · rintro ⟨once,i,pos,le,he,clear⟩
    rw [list.count] at le
    have le : i ≤ n := by omega
    have member : some p ∈ (s.guess p).items := list.mem_items.mpr ⟨i,pos,le,he⟩
    have few : (s.guess p).items.count (some p) ≤ 1 := by
      unfold guess
      split_ifs <;> omega
    obtain ⟨⟨t,r⟩,ht⟩ := (osTimerStop_iff del list h.settled (within fits)).mpr member
    obtain ⟨⟨u,r'⟩,hu⟩ := (osTimerStop_iff del list h.settled window).mpr member
    obtain ⟨rfl,i₁,pos₁,le₁,he₁,stopped⟩ := osTimerStop_ok list h.settled (within fits) ht
    obtain ⟨rfl,i₂,pos₂,le₂,he₂,stopped'⟩ := osTimerStop_ok list h.settled window hu
    obtain rfl := list.unique few pos le he ⟨pos₁,le₁⟩ he₁
    obtain rfl := list.unique few pos le he ⟨pos₂,le₂⟩ he₂
    obtain rfl := stopped.unique stopped'
    exact ⟨t,ht,hu,(stopped.only_iff h list pos le he).mpr ⟨once,clear⟩⟩

end TimerService

namespace TimerSystem
variable {cfg : Config} {s x : TimerSystem cfg}

/-- For every state that the timers reach after OSTimerInit and every timer, OSTimerStop removes exactly
its argument if and only if the timer is in the lists once, in the one that OSTimerStop guesses, and no
entry on its way to the first one has the deadline zero. -/
theorem stops_run (start : s.Booted) (run : Run.Reach step Enabled s x) (p del : ℕ) :
    x.StopsOnly p del ↔ x.Stoppable p :=
  stopsOnly_iff (reach_regular start (fun _ _ => id) run).service p del

/-- A timer that OSTimerSet created and nobody has started: OSTimerStop leaves the list. -/
theorem stops_fails : ∃ s x : TimerSystem Config.simulator, s.Booted ∧ Run.Reach step Enabled s x ∧
    x.Handed 0 ∧ ¬ x.StopsOnly 0 1 := by
  obtain ⟨s,booted,run⟩ := exists_booted (Kernel.brtosInit Config.simulator) (.user 0) 16 30
    (fun s => (Run.exec step Enabled s [.set true (some 0) 0]).map fun x : TimerSystem Config.simulator =>
      decide ((x.mem 0).state ≠ .notUsed ∧ (x.osTimerStop (some 0) 1).toOption.isNone))
    (by decide +kernel)
  obtain ⟨x,reach,used,stuck⟩ := Run.exists_reach_of_exec step Enabled s _ _ run
  refine ⟨s,x,booted,reach,⟨by decide,used⟩,?_⟩
  rintro ⟨t,returns,_⟩
  rw [returns] at stuck
  cases stuck

/-- Two timers for nine and for five ticks, and the first is stopped. -/
theorem stops_example : ∃ s x : TimerSystem Config.simulator, s.Booted ∧ x.current.count = 2 ∧
    x.StopsOnly 0 1 := by
  obtain ⟨s,booted,run⟩ := exists_booted (Kernel.brtosInit Config.simulator) (.user 0) 16 30
    (fun s => (Run.exec step Enabled s [.set true (some 0) 9,.set true (some 0) 5]).map
      fun x : TimerSystem Config.simulator => decide (x.current.count = 2 ∧ x.osTickCounter = 0 ∧
        x.current.items.count (some 0)+x.future.items.count (some 0) = 1 ∧
        x.current.timers 2 = some 0 ∧ due x.mem (x.current.timers 1) = 5)) (by decide +kernel)
  obtain ⟨x,reach,two,zero,once,entry,deadline⟩ := Run.exists_reach_of_exec step Enabled s _ _ run
  have guess : x.guess 0 = x.current := if_pos (by rw [zero]; exact Nat.zero_le _)
  refine ⟨s,x,booted,two,(stops_run booted reach 0 1).mpr
    ⟨once,2,by decide,by rw [guess,two]; rfl,guess ▸ entry,fun m low => ?_⟩⟩
  cases m with
  | zero =>
    rw [guess]
    exact deadline ▸ by decide
  | succ m =>
    have : 2/2^(m+1+1) = 0 := by
      apply Nat.div_eq_of_lt
      rw [pow_succ,pow_succ]
      have := Nat.one_le_two_pow (n := m)
      omega
    omega

end TimerSystem
end Brtos
