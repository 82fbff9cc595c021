import Brtos.Stopping
import Brtos.Reentry

/-! The timer lists as an index of the running timers. -/
namespace Brtos
open TimerList TimerService Heap

namespace TimerService
variable {cfg : Config} {s t : TimerService cfg} {p w : ℕ} {behind : Bool} {again : ℕ}

/-- The running timers are in the lists once, the others are not, and both lists are heaps with the
right counts. -/
structure Indexed (s : TimerService cfg) : Prop where
  once (p : ℕ) : s.current.items.count (some p)+s.future.items.count (some p) =
    if (s.mem p).state = .running then 1 else 0
  counts : (∃ n, s.current.Filled n) ∧ ∃ n, s.future.Filled n
  current : s.Sorted s.current
  future : s.Sorted s.future

theorem Indexed.absent (h : s.Indexed) (idle : (s.mem p).state ≠ .running) :
    some p ∉ s.current.items ∧ some p ∉ s.future.items := by
  have none := h.once p
  rw [if_neg idle] at none
  exact ⟨Multiset.count_eq_zero.mp (by omega),Multiset.count_eq_zero.mp (by omega)⟩

theorem Indexed.running (h : s.Indexed)
    (listed : s.current.items.count (some p)+s.future.items.count (some p) = 1) :
    (s.mem p).state = .running := by
  by_contra idle
  have := h.once p
  rw [if_neg idle] at this
  omega

theorem Indexed.congr (h : s.Indexed) (mem : t.mem = s.mem) (current : t.current = s.current)
    (future : t.future = s.future) : t.Indexed := by
  obtain ⟨once,counts,sorted,sorted'⟩ := h
  unfold Sorted at sorted sorted'
  refine ⟨?_,?_,?_,?_⟩ <;> simp only [Sorted,mem,current,future] <;> assumption

theorem Indexed.switched (h : s.Indexed) (mem : t.mem = s.mem) (current : t.current = s.future)
    (future : t.future = s.current) : t.Indexed := by
  obtain ⟨once,counts,sorted,sorted'⟩ := h
  unfold Sorted at sorted sorted'
  refine ⟨fun p => ?_,?_,?_,?_⟩
  · rw [mem,current,future,Nat.add_comm]
    exact once p
  · rw [current,future]
    exact counts.symm
  · rwa [Sorted,mem,current]
  · rwa [Sorted,mem,future]

/-- Moving down the first entry of a heap. -/
theorem Indexed.sunk {n : ℕ} (h : s.Indexed) (list : s.current.Filled n) (mem : t.mem = s.mem)
    (current : t.current = sunk s.mem s.current n) (future : t.future = s.future) : t.Indexed := by
  obtain ⟨once,counts,sorted,sorted'⟩ := h
  obtain ⟨filled,items⟩ := sunk_filled s.mem list
  rw [sorted_iff list] at sorted
  refine ⟨fun p => ?_,⟨⟨n,current ▸ filled⟩,future ▸ counts.2⟩,?_,?_⟩
  · rw [current,items,mem,future]
    exact once p
  · rw [Sorted,mem,current,filled.count,Int.toNat_natCast]
    exact sunk_ordered list.small (sorted.rekeyed fun _ _ _ => rfl)
  · rw [Sorted,mem,future]
    exact sorted'

/-- The control block of a timer that is in no list changes, and the timer does not run after it. -/
theorem Indexed.idle {v : Timer} (h : s.Indexed) (mem : t.mem = Function.update s.mem p v)
    (was : (s.mem p).state ≠ .running) (is : v.state ≠ .running) (current : t.current = s.current)
    (future : t.future = s.future) : t.Indexed := by
  have absent := h.absent was
  obtain ⟨⟨n,list⟩,⟨m,list'⟩⟩ := h.counts
  have others : ∀ q ≠ p, t.mem q = s.mem q := fun q apart => by rw [mem,Function.update_of_ne apart]
  refine ⟨fun q => ?_,⟨⟨n,current ▸ list⟩,⟨m,future ▸ list'⟩⟩,?_,?_⟩
  · rw [current,future,h.once q]
    by_cases here : q = p
    · subst here
      rw [mem,Function.update_self,if_neg was,if_neg is]
    · rw [others q here]
  · exact current ▸ sorted_apart list absent.1 others h.current
  · exact future ▸ sorted_apart list' absent.2 others h.future

/-- A timer that does not run is started. -/
theorem Launched.indexed (l : Launched s p w t) (h : s.Indexed) (was : (s.mem p).state ≠ .running) :
    t.Indexed := by
  have absent := h.absent was
  obtain ⟨⟨n,list⟩,⟨m,list'⟩⟩ := h.counts
  have others : ∀ q ≠ p, t.mem q = s.mem q := fun q apart => by
    rw [l.mem,Function.update_of_ne apart]
  have runs : (t.mem p).state = .running := by
    rw [l.mem,Function.update_self]
    rfl
  have none := h.once p
  rw [if_neg was] at none
  have sorted := sorted_apart list absent.1 others h.current
  have sorted' := sorted_apart list' absent.2 others h.future
  -- One of the lists has one more entry, which is the timer's.
  have once : ∀ q, t.current.items.count (some q)+t.future.items.count (some q) =
      s.current.items.count (some q)+s.future.items.count (some q)+(if q = p then 1 else 0) →
      t.current.items.count (some q)+t.future.items.count (some q) =
        if (t.mem q).state = .running then 1 else 0 := by
    intro q more
    by_cases here : q = p
    · subst here
      rw [more,none,if_pos rfl,if_pos runs]
    · rw [more,h.once q,others q here,if_neg here,Nat.add_zero]
  rcases Nat.lt_or_ge (s.osTickCounter+w) cfg.tickCountOverflow with early | late
  · obtain ⟨_,same,add⟩ := l.early early
    obtain ⟨_,inserted⟩ := add n list
    refine ⟨fun q => once q ?_,⟨⟨_,inserted.filled⟩,⟨m,same ▸ list'⟩⟩,?_,same ▸ sorted'⟩
    · rw [inserted.items,same,Multiset.count_cons]
      simp only [Option.some.injEq]
      omega
    · rw [sorted_iff inserted.filled]
      exact inserted.ordered ((sorted_iff list).mp sorted)
  · obtain ⟨_,same,add⟩ := l.late late
    obtain ⟨_,inserted⟩ := add m list'
    refine ⟨fun q => once q ?_,⟨⟨n,same ▸ list⟩,⟨_,inserted.filled⟩⟩,same ▸ sorted,?_⟩
    · rw [inserted.items,same,Multiset.count_cons]
      simp only [Option.some.injEq]
      omega
    · rw [sorted_iff inserted.filled]
      exact inserted.ordered ((sorted_iff list').mp sorted')

theorem launch_indexed (h : s.Indexed) (regular : s.Regular) (was : 0 < w → (s.mem p).state ≠ .running)
    (st : s.launch p w = .ok t) : t.Indexed := by
  obtain ⟨n,current,_⟩ := regular.current
  obtain ⟨m,future,_⟩ := regular.future
  rcases Nat.eq_zero_or_pos w with rfl | pos
  · obtain rfl := Except.ok.inj (launch_zero.symm.trans st)
    exact h
  · exact (launch_ok current future pos st).indexed h (was pos)

/-- A timer leaves the lists and does not run after it. -/
theorem Only.indexed (only : Only s t p) (h : s.Indexed) (is : (t.mem p).state ≠ .running) :
    t.Indexed where
  once q := by
    by_cases here : q = p
    · subst here
      have gone := only.gone
      unfold Listed at gone
      rw [not_or] at gone
      rw [if_neg is,Multiset.count_eq_zero.mpr gone.1,Multiset.count_eq_zero.mpr gone.2]
    · rw [only.current here,only.future here,only.others here]
      exact h.once q
  counts := only.counts
  current := only.currentOrder h.current
  future := only.futureOrder h.future

/-- The deadline suits the entry of a timer that gets it in place: the entry is the first one, which is
then moved down, or the deadline lies between those around it. -/
def Settles (s : TimerService cfg) (p d : ℕ) : Prop :=
  ∃ i : ℕ, 1 ≤ i ∧ (i : ℤ) ≤ s.current.count ∧ s.current.timers i = some p ∧
    (i = 1 ∨ due s.mem (s.current.timers (i/2)) ≤ d ∧
      ∀ j : ℕ, (j : ℤ) ≤ s.current.count → j/2 = i → d ≤ due s.mem (s.current.timers j))

theorem rearmed_stays (stays : ¬ s.Moves behind again) :
    s.rearmed behind again = (s.osTickCounter+again,false) := by
  obtain ⟨rfl,early⟩ : behind = false ∧ s.osTickCounter+again < cfg.tickCountOverflow := by
    simpa [Moves] using stays
  have small : cfg.tickCountOverflow ≤ cfg.maxTimer := by simp [Config.tickCountOverflow]
  simp only [rearmed]
  rw [if_neg (by simp),if_neg (by omega),Nat.mod_eq_of_lt (by omega)]

theorem Dispatched.current_sorted {q : Option ℕ} {n : ℕ} (d : Dispatched s behind p again t q)
    (h : s.Indexed) (list : s.current.Filled n) (ok : s.Attendable behind p again)
    (settles : 0 < again → ¬ s.Moves behind again → s.Settles p (s.osTickCounter+again)) :
    t.Sorted t.current := by
  have sorted := (sorted_iff list).mp h.current
  have others : ∀ q ≠ p, (t.mem q).timeout = (s.mem q).timeout := fun q apart => by
    rw [d.mem,Function.update_of_ne apart]
  have member : some p ∈ s.current.items := Multiset.count_pos.mp (by rw [ok.current]; omega)
  by_cases leaves : again = 0 ∨ s.Moves behind again
  · -- The entries that stay have their old deadlines.
    obtain ⟨positive,gone⟩ :=
      d.removed (leaves.imp_right (rearmed_moves s behind again).mpr) n list
    rw [sorted_iff gone.filled]
    apply gone.ordered
    intro i far le
    have same := fun {j : ℕ} (lt : 1 < j) (hj : j ≤ n) =>
      due_other list le_rfl positive (ok.first leaves) ok.current.le others (j := j) lt.le hj (by omega)
    rw [same far (by omega),same (by omega) le]
    exact sorted i (by omega) le
  · rw [not_or] at leaves
    have pos : 0 < again := by omega
    have idle : (s.rearmed behind again).2 = false :=
      Bool.eq_false_iff.mpr (mt (rearmed_moves s behind again).mp leaves.2)
    obtain ⟨i,one,le,he,fits⟩ := settles pos leaves.2
    rw [list.count] at le fits
    have le : i ≤ n := by omega
    have same := fun {j : ℕ} (hj : 1 ≤ j) (hjn : j ≤ n) (apart : j ≠ i) =>
      due_other list one le he ok.current.le others hj hjn apart
    have self : due t.mem (s.current.timers i) = s.osTickCounter+again := by
      rw [he,due_some,d.armed pos,Function.update_self,rearmed_stays leaves.2]
    rw [(d.stayed pos idle).2 n list,sorted_iff (sunk_filled t.mem list).1]
    apply sunk_ordered list.small
    rcases fits with rfl | ⟨above,below⟩
    · exact sorted.rekeyed fun j lt hj => same lt.le hj (by omega)
    · have order : Ordered (due t.mem) s.current.timers n := by
        intro j lt hj
        by_cases here : j = i
        · subst here
          rw [self,same (by omega) (by omega) (by omega)]
          exact above
        · rw [same lt.le hj here]
          by_cases child : j/2 = i
          · rw [child,self]
            exact below j (by omega) child
          · rw [same (by omega) (by omega) child]
            exact sorted j lt hj
      exact order.rekeyed fun _ _ _ => rfl

/-- The end of a callback whose timer is where it has to be. -/
theorem Dispatched.indexed {q : Option ℕ} (d : Dispatched s behind p again t q) (h : s.Indexed)
    (regular : s.Regular) (ok : s.Attendable behind p again)
    (settles : 0 < again → ¬ s.Moves behind again → s.Settles p (s.osTickCounter+again)) :
    t.Indexed := by
  obtain ⟨n,list,_⟩ := regular.current
  obtain ⟨m,list',_⟩ := regular.future
  have member : some p ∈ s.current.items := Multiset.count_pos.mp (by rw [ok.current]; omega)
  have after := d.regular regular (regular.handed (Or.inl member))
  have attended := (d.attended_iff regular).mpr ⟨ok.current,ok.future,ok.first⟩
  have others : ∀ q ≠ p, t.mem q = s.mem q := fun q apart => attended.others apart
  have absent : some p ∉ s.future.items := Multiset.count_eq_zero.mp ok.future
  have runs : (s.mem p).state = .running := h.running (by rw [ok.current,ok.future])
  have apart := sorted_apart list' absent others h.future
  refine ⟨fun q => ?_,⟨after.current.imp fun _ => And.left,after.future.imp fun _ => And.left⟩,
    d.current_sorted h list ok settles,?_⟩
  · by_cases here : q = p
    · subst here
      rcases Nat.eq_zero_or_pos again with zero | pos
      · obtain ⟨dead,gone⟩ := attended.retired zero
        unfold Listed at gone
        rw [not_or] at gone
        rw [dead,if_neg (by simp),Multiset.count_eq_zero.mpr gone.1,Multiset.count_eq_zero.mpr gone.2]
      · obtain ⟨armed,now,later⟩ := attended.rearmed pos
        rw [armed,now,later,if_pos runs]
        split_ifs <;> rfl
    · rw [attended.current here,attended.future here,others q here]
      exact h.once q
  · rcases Nat.eq_zero_or_pos again with zero | pos
    · exact (d.retired zero).2 ▸ apart
    · cases moves : (s.rearmed behind again).2 with
      | true =>
        obtain ⟨_,inserted⟩ := d.moved pos moves m list'
        rw [sorted_iff inserted.filled]
        exact inserted.ordered ((sorted_iff list').mp apart)
      | false => exact (d.stayed pos moves).1 ▸ apart

/-- The end of a callback whose timer was stopped and gets a new deadline. -/
theorem Dispatched.idle_indexed {q : Option ℕ} (d : Dispatched s behind p again t q) (h : s.Indexed)
    (regular : s.Regular) (pos : 0 < again) (stays : ¬ s.Moves behind again)
    (idle : (s.mem p).state ≠ .running) : t.Indexed := by
  obtain ⟨n,list,_⟩ := regular.current
  have remains : (s.rearmed behind again).2 = false := by rw [rearmed_stays stays]
  obtain ⟨same,sinks⟩ := d.stayed pos remains
  have armed : ({ s with mem := t.mem } : TimerService cfg).Indexed :=
    h.idle (v := { s.mem p with timeout := (s.rearmed behind again).1 }) (d.armed pos) idle idle rfl rfl
  exact armed.sunk list rfl (sinks n list) same

end TimerService

namespace TimerSystem
variable {cfg : Config} {s t x : TimerSystem cfg} {a : TimerAction}

/-- A running timer is not started again, OSTimerStop is called for a timer that it finds, and a callback
leaves its timer where it was, or stops it and gets a deadline that no list has to know. -/
def Tidy (s : TimerSystem cfg) : TimerAction → Prop
  | .start (some p) timeWait => 0 < timeWait → (s.mem p).state ≠ .running
  | .stop (some p) _ => s.Stoppable p
  | .ret again => ∀ behind p, s.point = .fires behind p →
    s.Attendable behind p again ∧
      (0 < again → ¬ s.Moves behind again → s.Settles p (s.osTickCounter+again)) ∨
    0 < again ∧ ¬ s.Moves behind again ∧ (s.mem p).state ≠ .running
  | _ => True

theorem act_indexed (h : s.Indexed) (regular : s.Regular) (e : s.Enabled a) (tidy : s.Tidy a)
    (st : s.act a = .ok t) : t.Indexed := by
  have service := regular.service
  cases a with
  | set cbp cb w =>
    obtain ⟨⟨u,r⟩,hu,ht⟩ := bind_eq_ok.mp st
    obtain rfl := Except.ok.inj ht
    rcases osTimerSet_ok hu with ⟨_,_,_,_,mem,current,future,_⟩ | ⟨p,v,_,found,_,launched,rfl⟩
    · exact h.congr mem current future
    · obtain ⟨fits,unused,_⟩ := findTimer_ok (by simp) found
      have was : (s.mem p).state ≠ .running := by simp [unused]
      have made : (s.created p cb).Indexed :=
        h.idle (v := { s.mem p with state := .stopped, funcCb := cb }) rfl was (by simp) rfl rfl
      have stopped : 0 < w → ((s.created p cb).mem p).state ≠ .running := by
        simp [created,setTimer]
      exact (launch_indexed (t := v) made (created_regular service fits) stopped launched).congr rfl rfl rfl
  | start q w =>
    obtain ⟨⟨u,r⟩,hu,ht⟩ := bind_eq_ok.mp st
    obtain rfl := Except.ok.inj ht
    rcases osTimerStart_ok hu with ⟨rfl,_,_⟩ | ⟨p,v,rfl,pos,_,launched,rfl⟩
    · exact h
    · have entered : (s.onKernel Kernel.enterTask).Regular := service.congr rfl rfl rfl
      have begun : (s.onKernel Kernel.enterTask).Indexed := h.congr rfl rfl rfl
      exact (launch_indexed (t := v) begun entered (fun _ => tidy pos) launched).congr rfl rfl rfl
  | stop q del =>
    obtain ⟨⟨u,r⟩,hu,ht⟩ := bind_eq_ok.mp st
    obtain rfl := Except.ok.inj ht
    cases q with
    | none =>
      obtain ⟨rfl,_⟩ := Prod.mk.inj (Except.ok.inj hu)
      exact h
    | some p =>
      obtain ⟨n,list,fits⟩ := service.guess p
      obtain ⟨_,i,pos,le,he,stopped⟩ := osTimerStop_ok list service.settled (within fits) hu
      obtain ⟨v,hv,_,only⟩ := (stopsOnly_iff service p del).mpr tidy
      obtain ⟨rfl,_⟩ := Prod.mk.inj (Except.ok.inj (hu.symm.trans hv))
      refine only.indexed h ?_
      rw [stopped.mem,Function.update_self,ended_state]
      split_ifs <;> simp
  | tick fuel =>
    simp only [act] at st
    split at st
    · obtain rfl := Except.ok.inj st
      exact h.congr rfl rfl rfl
    · simp at st
  | switch task =>
    obtain rfl := Except.ok.inj st
    exact h.congr rfl rfl rfl
  | run =>
    obtain ⟨mem,lists,_⟩ := run_ok service st
    cases lists with
    | same current future => exact h.congr mem current future
    | sunk n list current future => exact h.sunk list mem current future
    | switched current future => exact h.switched mem current future
  | ret again =>
    obtain ⟨behind,p,point,d,_⟩ := ret_ok service e st
    rcases tidy behind p point with ⟨ok,settles⟩ | ⟨pos,stays,idle⟩
    · exact d.indexed h service ok settles
    · exact d.idle_indexed h service pos stays idle

theorem Fresh.indexed (h : s.Fresh) : s.Indexed := by
  refine ⟨fun p => ?_,⟨⟨0,?_⟩,⟨0,?_⟩⟩,?_,?_⟩
  · rw [h.mem,h.current,h.future,if_neg (by simp only; split_ifs <;> simp)]
    simp [TimerList.items,Heap.items]
  · rw [h.current]
    exact filled_empty
  · rw [h.future]
    exact filled_empty
  · rw [h.current,sorted_iff filled_empty]
    intro i lt le
    omega
  · rw [h.future,sorted_iff filled_empty]
    intro i lt le
    omega

/-- In every run after OSTimerInit in which no running timer is started again, OSTimerStop is called for
timers that it finds and callbacks leave their timers where they were, the lists are an index of the
running timers. -/
theorem indexed_run (start : s.Booted)
    (run : Run.Reach step (fun x a => x.Enabled a ∧ x.Tidy a) s x) : x.Indexed := by
  refine (run.invariant (P := fun x => x.Regular ∧ x.toTimerService.Indexed)
    ⟨start.fresh.regular,start.fresh.indexed⟩ ?_).2
  rintro s a t ⟨regular,indexed⟩ ⟨e,tidy⟩ next
  have st := step_eq_some.mp next
  exact ⟨act_regular regular e st,act_indexed indexed regular e tidy st⟩

/-- A timer that was created and is started later. -/
theorem indexed_example : ∃ s x : TimerSystem Config.simulator, s.Booted ∧
    (x.mem 0).state = .running ∧ x.Indexed := by
  obtain ⟨s,booted,run⟩ := exists_booted (Kernel.brtosInit Config.simulator) (.user 0) 16 30
    (fun s => (s.step (.set true (some 0) 0)).bind fun t => (t.step (.start (some 0) 5)).bind
      fun x : TimerSystem Config.simulator => some (decide (s.Enabled (.set true (some 0) 0) ∧
        t.Enabled (.start (some 0) 5) ∧ (t.mem 0).state = .stopped ∧ (x.mem 0).state = .running)))
    (by decide +kernel)
  obtain ⟨t,created,run⟩ := Option.bind_eq_some_iff.mp run
  obtain ⟨x,started,run⟩ := Option.bind_eq_some_iff.mp run
  obtain ⟨first,second,stopped,runs⟩ := of_decide_eq_true (Option.some.inj run)
  refine ⟨s,x,booted,runs,indexed_run booted (.tail (.tail .refl ⟨first,trivial⟩ created) ⟨second,?_⟩ started)⟩
  intro _
  simp [stopped]

/-- A timer for ten ticks that is started again is in the list twice. -/
theorem indexed_fails : ∃ s x : TimerSystem Config.simulator, s.Booted ∧ Run.Reach step Enabled s x ∧
    ¬ x.Indexed := by
  obtain ⟨s,booted,run⟩ := exists_booted (Kernel.brtosInit Config.simulator) (.user 0) 16 30
    (fun s => (Run.exec step Enabled s [.set true (some 0) 10,.start (some 0) 20]).map
      fun x : TimerSystem Config.simulator => decide (x.current.items.count (some 0) = 2))
    (by decide +kernel)
  obtain ⟨x,reach,twice⟩ := Run.exists_reach_of_exec step Enabled s _ _ run
  refine ⟨s,x,booted,reach,fun indexed => ?_⟩
  have once := indexed.once 0
  split_ifs at once <;> omega

end TimerSystem
end Brtos
