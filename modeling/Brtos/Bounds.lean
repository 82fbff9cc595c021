import Brtos.Starting

/-! The entries of the timer lists that the service accesses. -/
namespace Brtos
open TimerList TimerService

namespace TimerService
variable {cfg : Config} {s t : TimerService cfg} {p w : ℕ}

theorem first_outside (one : cfg.brtosMaxTimer ≤ 1) : s.first = .error .bounds :=
  if_neg (by simpa [array] using one)

theorem osTimerSet_full (regular : s.Regular) {cb : ℕ} (pos : 0 < w)
    (found : s.findTimer 256 0 = .ok (.ok p)) (full : ¬ HasRoom cfg (s.target w)) :
    s.osTimerSet true (some cb) w = .error .bounds := by
  obtain ⟨n,current,_⟩ := regular.current
  obtain ⟨m,future,_⟩ := regular.future
  rw [← target_created p (some cb) w] at full
  rw [osTimerSet_taken found,launch_full (s := s.created p (some cb)) current future pos full,error_bind]

/-- OSTimerStart returns or leaves the array. -/
theorem osTimerStart_fits (regular : s.Regular) (q : Option ℕ) (w : ℕ) :
    let fits := q ≠ none → 0 < w → HasRoom cfg (s.target (min w (timerMaxCounter cfg)))
    (fits → ∃ r, s.osTimerStart q w = .ok r) ∧ (¬ fits → s.osTimerStart q w = .error .bounds) := by
  intro fits
  cases q with
  | none => exact ⟨fun _ => ⟨_,rfl⟩,fun no => absurd (fun h => absurd rfl h) no⟩
  | some p =>
    rcases Nat.eq_zero_or_pos w with rfl | pos
    · exact ⟨fun _ => ⟨_,rfl⟩,fun no => absurd (fun _ lt => absurd lt (lt_irrefl _)) no⟩
    have positive : 0 < min w (timerMaxCounter cfg) := lt_min pos (timerMaxCounter_pos cfg)
    have clamp : (if w > timerMaxCounter cfg then timerMaxCounter cfg else w) =
        min w (timerMaxCounter cfg) := by split_ifs <;> omega
    have begun : (s.onKernel Kernel.enterTask).Regular := regular.congr rfl rfl rfl
    have same : (s.onKernel Kernel.enterTask).target (min w (timerMaxCounter cfg)) =
        s.target (min w (timerMaxCounter cfg)) := by
      unfold target
      rw [show (s.onKernel Kernel.enterTask).osTickCounter = s.osTickCounter from enterTask_counter _]
      rfl
    obtain ⟨n,current,_⟩ := begun.current
    obtain ⟨m,future,_⟩ := begun.future
    rw [osTimerStart,if_neg (show w ≠ 0 by omega)]
    simp only [clamp]
    constructor
    · intro room
      obtain ⟨u,hu⟩ := (launch_iff (p := p) current future).mpr (Or.inr (same ▸ room (by simp) pos))
      exact ⟨_,bind_eq_ok.mpr ⟨u,hu,rfl⟩⟩
    · intro no
      have full : ¬ HasRoom cfg (s.target (min w (timerMaxCounter cfg))) :=
        fun room => no fun _ _ => room
      rw [launch_full current future positive (same ▸ full),error_bind]

theorem rearmed_moves (s : TimerService cfg) (behind : Bool) (again : ℕ) :
    (s.rearmed behind again).2 = true ↔
      behind = true ∨ s.osTickCounter+again ≥ cfg.tickCountOverflow := by
  unfold rearmed
  cases behind with
  | true => simp
  | false =>
    simp only [Bool.false_eq_true,if_false,false_or]
    split_ifs with late <;> simp [late]

theorem dispatch_full {behind : Bool} {again m : ℕ} (future : s.future.Filled m) (pos : 0 < again)
    (moves : (s.rearmed behind again).2 = true) (full : ¬ HasRoom cfg s.future) :
    s.dispatch behind p again = .error .bounds := by
  have d : (s.onKernel Kernel.osEnterCritical).rearmed behind again = s.rearmed behind again := rfl
  have stuck := insert_full ((s.onKernel Kernel.osEnterCritical).setDeadline p
    (s.rearmed behind again).1).mem p future full
  simp only [dispatch,if_pos pos,rearm,d,if_pos moves]
  exact congrArg (fun x => (x >>= _) >>= _) stuck

end TimerService

def TimerAction.isStop : TimerAction → Bool
  | .stop _ _ => true
  | _ => false

namespace TimerSystem
variable {cfg : Config} {s t x : TimerSystem cfg} {a : TimerAction}

/-- The list that a timer goes into has room for it, and the array has the first entry of a list. -/
def Fits (s : TimerSystem cfg) : TimerAction → Prop
  | .set cbp cb timeWait => cbp = true → cb ≠ none → 0 < timeWait → (∃ p, s.Scanned (.ok p)) →
    HasRoom cfg (s.target timeWait)
  | .start p timeWait => p ≠ none → 0 < timeWait →
    HasRoom cfg (s.target (min timeWait (timerMaxCounter cfg)))
  | .run => 1 < cfg.brtosMaxTimer
  | .ret again => ∀ behind p, s.point = .fires behind p → 0 < again →
    behind = true ∨ s.osTickCounter+again ≥ cfg.tickCountOverflow → HasRoom cfg s.future
  | _ => True

/-- Timers are started and none is stopped. -/
def Starts (s : TimerSystem cfg) (a : TimerAction) : Prop := s.Enabled a ∧ ¬ a.isStop

instance (s : TimerSystem cfg) (a : TimerAction) : Decidable (s.Starts a) :=
  inferInstanceAs (Decidable (_ ∧ _))

/-- A timer task that has left its first stop has found the first entry of the list in the array. -/
theorem two_step (h : s.Regular) (e : s.Enabled a) (st : s.act a = .ok t)
    (two : s.point ≠ .start → 1 < cfg.brtosMaxTimer) (left : t.point ≠ .start) :
    1 < cfg.brtosMaxTimer := by
  by_cases start : s.point = .start
  · cases a with
    | run =>
      simp only [act,run,start] at st
      obtain ⟨q,hq,_⟩ := bind_eq_ok.mp st
      exact (first_ok hq).1
    | ret again =>
      obtain ⟨_,_,point,_⟩ := ret_ok h.service e st
      simp [start] at point
    | tick fuel =>
      simp only [act] at st
      split at st
      · obtain rfl := Except.ok.inj st
        exact absurd start left
      · simp at st
    | switch task =>
      obtain rfl := Except.ok.inj st
      exact absurd start left
    | set | start | stop =>
      obtain ⟨r,_,ht⟩ := bind_eq_ok.mp st
      obtain rfl := Except.ok.inj ht
      exact absurd start left
  · exact two start

/-- While the timer task has a timer, the current list is not empty, and a timer task that has left its
first stop has found the first entry of the list in the array. -/
structure Busy (s : TimerSystem cfg) : Prop where
  regular : s.Regular
  held {p : ℕ} : s.point.timer = some p → (s.current.timers 1).isSome
  two : s.point ≠ .start → 1 < cfg.brtosMaxTimer

/-- A list that got one more timer is not empty. -/
theorem inserted_some {mem : ℕ → Timer} {l r : TimerList} {p n : ℕ} (h : Inserted mem l p n r) :
    (r.timers 1).isSome := (h.filled.some_iff 1).mpr ⟨le_rfl,by omega⟩

theorem launch_some {s t : TimerService cfg} {p w : ℕ} (h : s.Regular) (st : s.launch p w = .ok t)
    (some : (s.current.timers 1).isSome) : (t.current.timers 1).isSome := by
  obtain ⟨n,current,_⟩ := h.current
  obtain ⟨m,future,_⟩ := h.future
  rcases Nat.eq_zero_or_pos w with rfl | pos
  · obtain rfl := Except.ok.inj (launch_zero.symm.trans st)
    exact some
  have l := launch_ok current future pos st
  rcases Nat.lt_or_ge (s.osTickCounter+w) cfg.tickCountOverflow with early | late
  · exact inserted_some ((l.early early).2.2 n current).2
  · rw [(l.late late).2.1]
    exact some

theorem Busy.step (h : s.Busy) (e : s.Starts a) (st : s.act a = .ok t) : t.Busy := by
  have regular := act_regular h.regular e.1 st
  have two := two_step h.regular e.1 st h.two
  cases a with
  | set cbp cb w =>
    obtain ⟨⟨u,r⟩,hu,ht⟩ := bind_eq_ok.mp st
    obtain rfl := Except.ok.inj ht
    refine ⟨regular,fun hp => ?_,two⟩
    have some := h.held hp
    rcases osTimerSet_ok hu with ⟨_,_,_,_,_,current,_⟩ | ⟨p,v,_,found,_,launched,rfl⟩
    · exact current ▸ some
    · have fits := (findTimer_ok (by simp) found).1
      exact launch_some (t := v) (created_regular h.regular.service fits) launched some
  | start q w =>
    obtain ⟨⟨u,r⟩,hu,ht⟩ := bind_eq_ok.mp st
    obtain rfl := Except.ok.inj ht
    refine ⟨regular,fun hp => ?_,two⟩
    have some := h.held hp
    rcases osTimerStart_ok hu with ⟨rfl,_,_⟩ | ⟨p,v,_,_,_,launched,rfl⟩
    · exact some
    · have begun : (s.onKernel Kernel.enterTask).Regular := h.regular.service.congr rfl rfl rfl
      exact launch_some (t := v) begun launched some
  | stop p del => exact absurd rfl e.2
  | tick fuel =>
    simp only [act] at st
    split at st
    · obtain rfl := Except.ok.inj st
      exact ⟨regular,h.held,two⟩
    · simp at st
  | switch task =>
    obtain rfl := Except.ok.inj st
    exact ⟨regular,h.held,two⟩
  | run =>
    have point := (run_ok h.regular.service st).2.2
    refine ⟨regular,fun hp => ?_,two⟩
    rcases point _ hp with ⟨old,same⟩ | first
    · exact same ▸ h.held old
    · rw [first]
      rfl
  | ret again =>
    obtain ⟨behind,p,point,d,next,_⟩ := ret_ok h.regular.service e.1 st
    refine ⟨regular,fun hp => ?_,two⟩
    rw [next] at hp
    rw [show t.current.timers 1 = some _ from hp]
    rfl

/-- The timer task stops somewhere, as the first entry of a list is in the array. -/
theorem run_total (h : s.toTimerService.Regular) (two : 1 < cfg.brtosMaxTimer) : ∃ t, s.run = .ok t := by
  obtain ⟨n,current,fits⟩ := h.current
  have skips : ∀ behind, ∃ t, s.skip behind = .ok t := fun behind =>
    ⟨_,bind_eq_ok.mpr ⟨_,proceed_eq current fits two,rfl⟩⟩
  unfold run
  cases point : s.point with
  | start => exact ⟨_,bind_eq_ok.mpr ⟨_,first_eq two,rfl⟩⟩
  | choose q => cases q <;> exact ⟨_,rfl⟩
  | sleep next => exact ⟨_,rfl⟩
  | enlist => exact ⟨_,rfl⟩
  | asleep => exact ⟨_,bind_eq_ok.mpr ⟨_,first_eq two,rfl⟩⟩
  | judge q => cases q <;> exact ⟨_,rfl⟩
  | loop behind q =>
    cases behind <;> cases q <;> dsimp only
    · exact ⟨_,rfl⟩
    · split_ifs
      · exact ⟨_,rfl⟩
      · exact skips false
      · exact ⟨_,rfl⟩
    · exact ⟨_,bind_eq_ok.mpr ⟨_,first_eq (s := s.switchLists) two,rfl⟩⟩
    · split_ifs
      · exact ⟨_,rfl⟩
      · exact skips true
  | fires behind q => exact ⟨_,rfl⟩
  | settle q =>
    dsimp only
    split_ifs
    · exact ⟨_,bind_eq_ok.mpr ⟨_,first_eq (s := s.switchLists) two,rfl⟩⟩
    · exact ⟨_,rfl⟩

/-- A step that finds room, and a first entry in the array, comes to its end. -/
theorem Busy.total (h : s.Busy) (e : s.Starts a) (fits : s.Fits a) :
    (∃ t, s.act a = .ok t) ∨ s.act a = .error .hang := by
  have service := h.regular.service
  cases a with
  | set cbp cb w =>
    have returns : ∃ r, s.osTimerSet cbp cb w = .ok r := by
      cases cb with
      | none => exact ⟨_,rfl⟩
      | some cb =>
        cases cbp with
        | false => exact ⟨_,if_pos (Or.inr rfl)⟩
        | true =>
          rcases Nat.eq_zero_or_pos w with rfl | pos
          · obtain ⟨x,hx⟩ := findTimer_total (s := s.toTimerService) service.small (f := 256) (i := 0)
              (Nat.zero_le _) (by have := service.small; omega)
            cases x with
            | error code => exact ⟨_,by rw [osTimerSet_eq,hx,ok_bind]⟩
            | ok p => exact ⟨_,by rw [osTimerSet_taken hx,launch_zero,ok_bind]⟩
          · rw [osTimerSet_returns service pos,findTimer_free service.small]
            exact or_iff_not_imp_left.mpr fun taken =>
              fits rfl (by simp) pos (not_not.mp taken)
    obtain ⟨r,hr⟩ := returns
    exact Or.inl ⟨_,bind_eq_ok.mpr ⟨r,hr,rfl⟩⟩
  | start q w =>
    obtain ⟨r,hr⟩ := (osTimerStart_fits service q w).1 fits
    exact Or.inl ⟨_,bind_eq_ok.mpr ⟨r,hr,rfl⟩⟩
  | stop p del => exact absurd rfl e.2
  | tick fuel =>
    simp only [act]
    cases s.tick fuel with
    | none => exact Or.inr rfl
    | some k => exact Or.inl ⟨_,rfl⟩
  | switch task => exact Or.inl ⟨_,rfl⟩
  | run => exact Or.inl (run_total service fits)
  | ret again =>
    obtain ⟨n,current,small⟩ := service.current
    obtain ⟨m,future,_⟩ := service.future
    obtain ⟨behind,p,point⟩ : ∃ behind p, s.point = .fires behind p := by
      have fires := e.1.2.1
      unfold inCallback at fires
      split at fires
      · exact ⟨_,_,‹_›⟩
      · cases fires
    have some := h.held (p := p) (by rw [point]; rfl)
    have entries := ((current.some_iff 1).mp some).2
    obtain ⟨r,hr⟩ := (dispatch_iff behind p again current future small).mpr
      ⟨h.two (by simp [point]),fun _ => entries,fun pos moves =>
        fits behind p point pos ((rearmed_moves _ _ _).mp moves)⟩
    refine Or.inl ?_
    rw [act,point]
    exact ⟨_,bind_eq_ok.mpr ⟨r,hr,rfl⟩⟩

/-- A step without room, or without a first entry in the array, leaves an array. -/
theorem Busy.leaves (h : s.Busy) (e : s.Starts a) (full : ¬ s.Fits a) : s.act a = .error .bounds := by
  have service := h.regular.service
  cases a with
  | set cbp cb w =>
    simp only [Fits,Classical.not_imp] at full
    obtain ⟨rfl,given,pos,free,full⟩ := full
    obtain ⟨cb,rfl⟩ := Option.ne_none_iff_exists'.mp given
    obtain ⟨p,found⟩ := (findTimer_free service.small).mpr free
    rw [act,osTimerSet_full service pos found full,error_bind]
  | start q w =>
    rw [act,(osTimerStart_fits service q w).2 full,error_bind]
  | stop p del => exact absurd trivial full
  | tick fuel => exact absurd trivial full
  | switch task => exact absurd trivial full
  | run =>
    have point : s.point = .start := by
      by_contra left
      exact full (h.two left)
    have one : cfg.brtosMaxTimer ≤ 1 := Nat.not_lt.mp full
    simp only [act,run,point]
    rw [first_outside one,error_bind]
  | ret again =>
    simp only [Fits,not_forall] at full
    obtain ⟨behind,p,point,pos,moves,full⟩ := full
    obtain ⟨m,future,_⟩ := service.future
    rw [act,point]
    dsimp only
    rw [dispatch_full future pos ((rearmed_moves _ _ _).mpr moves) full,error_bind]

theorem Booted.busy (start : s.Booted) : s.Busy := by
  refine ⟨start.fresh.regular,fun hp => ?_,fun left => absurd start.fresh.point left⟩
  rw [start.fresh.point] at hp
  cases hp

/-- In every run from OSTimerInit in which timers are created, started, fired and moved, a step accesses
the arrays within their bounds exactly if the list that a timer goes into has room and the array has a
first entry. No step of such a run follows NULL. -/
theorem bounds_run (start : s.Booted) (run : Run.Reach step Starts s x) (e : x.Starts a) :
    (x.act a ≠ .error .bounds ↔ x.Fits a) ∧ x.act a ≠ .error .null := by
  have busy : x.Busy := run.invariant start.busy fun _ _ _ busy e st => busy.step e (step_eq_some.mp st)
  by_cases fits : x.Fits a
  · rcases busy.total e fits with ⟨t,done⟩ | hangs
    · simp [done,fits]
    · simp [hangs,fits]
  · simp [busy.leaves e fits,fits]

/-- One timer is in the list, and there is room for the next one. -/
theorem bounds_example : ∃ s x : TimerSystem Config.simulator, s.Booted ∧ Run.Reach step Starts s x ∧
    x.current.count = 1 ∧ x.act (.set true (some 0) 5) ≠ .error .bounds := by
  obtain ⟨s,booted,run⟩ := exists_booted (Kernel.brtosInit Config.simulator) (.user 0) 16 30
    (fun s => (Run.exec step Starts s [.set true (some 0) 5]).map fun x : TimerSystem Config.simulator =>
      decide (x.current.count = 1 ∧ x.osTickCounter = 0 ∧ x.Starts (.set true (some 0) 5)))
    (by decide +kernel)
  obtain ⟨x,reach,count,zero,next⟩ := Run.exists_reach_of_exec step Starts s _ _ run
  refine ⟨s,x,booted,reach,count,(bounds_run booted reach next).1.mpr fun _ _ _ _ => ?_⟩
  rw [target,zero,if_neg (by decide),HasRoom,count]
  decide

/-- Eight timers for five ticks: the eighth control block is free, and the current list has no entry for
it, as its first entry is not used. -/
theorem bounds_fails : ∃ s x : TimerSystem Config.simulator, s.Booted ∧ Run.Reach step Starts s x ∧
    x.Starts (.set true (some 0) 5) ∧ x.findTimer 256 0 = .ok (.ok 7) ∧
    x.act (.set true (some 0) 5) = .error .bounds := by
  obtain ⟨s,booted,run⟩ := exists_booted (Kernel.brtosInit Config.simulator) (.user 0) 16 30
    (fun s => (Run.exec step Starts s (List.replicate 7 (.set true (some 0) 5))).map
      fun x : TimerSystem Config.simulator => decide (x.Starts (.set true (some 0) 5) ∧
        x.findTimer 256 0 = .ok (.ok 7) ∧
        (match x.act (.set true (some 0) 5) with
          | .error .bounds => true
          | _ => false) = true)) (by decide +kernel)
  obtain ⟨x,reach,next,free,leaves⟩ := Run.exists_reach_of_exec step Starts s _ _ run
  refine ⟨s,x,booted,reach,next,free,?_⟩
  split at leaves
  · assumption
  · cases leaves

end TimerSystem
end Brtos
