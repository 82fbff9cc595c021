import Brtos.TimerRuns
import Brtos.Delayed

/-! Starting a timer when it is created and starting it later. -/
namespace Brtos
open TimerList

namespace TimerService
variable {cfg : Config} {s t : TimerService cfg} {p w : ℕ}

/-- OSTimerSet without a time, and OSTimerStart of the timer that it handed out. -/
def setThenStart (s : TimerService cfg) (cb : Option ℕ) (w : ℕ) :
    Except Fault (TimerService cfg × Reply) := do
  let r ← s.osTimerSet true cb 0
  match r.2 with
  | .ret 0 [p] => do
    let r' ← r.1.osTimerStart (some p) w
    .ok (r'.1,r.2)
  | _ => .ok r

/-- The same lists, deadlines and wake times. -/
structure SameTimers (s t : TimerService cfg) : Prop where
  mem : s.mem = t.mem
  current : s.current = t.current
  future : s.future = t.future
  contextTask : s.contextTask = t.contextTask

/-- Both ways return and reach the same lists, deadlines and wake times, and the deadline is a time of
the counter. -/
def Agrees (s : TimerService cfg) (cb : Option ℕ) (w : ℕ) : Prop :=
  ∃ u v r, s.osTimerSet true cb w = .ok (u,r) ∧ s.setThenStart cb w = .ok (v,r) ∧ SameTimers u v ∧
    ∀ p, r = .ret ok [p] →
      (u.mem p).timeout < cfg.tickCountOverflow ∧ (v.mem p).timeout < cfg.tickCountOverflow

section
variable {f : Kernel cfg → Kernel cfg} (task : ∀ k, (f k).currentTask = k.currentTask)
  (moves : ∀ k t v, (f k).setTimeToWait t v = f (k.setTimeToWait t v))
include task moves

theorem wake_onKernel (h : s.wake p = .ok t) : (s.onKernel f).wake p = .ok (t.onKernel f) := by
  unfold wake at h ⊢
  rw [show (s.onKernel f).currentTask = s.currentTask from task _]
  by_cases started : s.currentTask ≠ 0
  · rw [if_pos started] at h ⊢
    obtain ⟨q,hq,h⟩ := bind_eq_ok.mp h
    refine bind_eq_ok.mpr ⟨q,hq,?_⟩
    by_cases least : (s.mem p).timeout = (s.mem q).timeout
    · rw [if_pos least] at h
      obtain rfl := Except.ok.inj h
      refine (if_pos least).trans (congrArg Except.ok ?_)
      exact congrArg (fun k => { s with toKernel := k }) (moves _ _ _)
    · rw [if_neg least] at h
      obtain rfl := Except.ok.inj h
      exact if_neg least
  · rw [if_neg started] at h ⊢
    obtain rfl := Except.ok.inj h
    rfl

/-- What starting a timer does does not depend on the critical sections. -/
theorem launch_onKernel (counter : ∀ k, (f k).osTickCounter = k.osTickCounter)
    (h : s.launch p w = .ok t) : (s.onKernel f).launch p w = .ok (t.onKernel f) := by
  rcases Nat.eq_zero_or_pos w with rfl | pos
  · obtain rfl := Except.ok.inj h
    rfl
  simp only [launch,if_pos pos,
    show (s.onKernel f).osTickCounter = s.osTickCounter from counter _] at h ⊢
  by_cases late : s.osTickCounter+w ≥ cfg.tickCountOverflow
  · rw [if_pos late] at h ⊢
    obtain ⟨l,hl,h⟩ := bind_eq_ok.mp h
    obtain rfl := Except.ok.inj h
    exact bind_eq_ok.mpr ⟨l,hl,rfl⟩
  · rw [if_neg late] at h ⊢
    obtain ⟨l,hl,h⟩ := bind_eq_ok.mp h
    obtain ⟨u,hu,h⟩ := bind_eq_ok.mp h
    obtain rfl := Except.ok.inj h
    exact bind_eq_ok.mpr ⟨l,hl,bind_eq_ok.mpr ⟨_,wake_onKernel task moves hu,rfl⟩⟩

end

/-- OSExitCritical at the end of the one call and OSEnterCritical at the start of the next. -/
def between (k : Kernel cfg) : Kernel cfg := k.exitTask.enterTask

theorem launch_between (h : s.launch p w = .ok t) :
    (s.onKernel between).launch p w = .ok (t.onKernel between) := by
  have shell : ∀ k : Kernel cfg, (between k).shell = k.shell := fun k =>
    k.exitTask.enterTask_shell.trans k.exitTask_shell
  apply launch_onKernel _ _ _ h
  · exact fun k => Kernel.currentTask_of_vital (Kernel.vital_of_shell (shell k))
  · intro k t v
    simp only [between,Kernel.enterTask,Kernel.exitTask]
    split_ifs <;> first | rfl | contradiction
  · exact fun k => Kernel.osTickCounter_of_vital (Kernel.vital_of_shell (shell k))

/-- What OSTimerSet does when its search ends with a control block. -/
theorem osTimerSet_taken {cb : ℕ} (found : s.findTimer 256 0 = .ok (.ok p)) :
    s.osTimerSet true (some cb) w = (do
      let u ← (s.created p (some cb)).launch p w
      .ok (u.onKernel Kernel.exitTask,.ret ok [p])) := by
  rw [osTimerSet_eq,found,ok_bind]

theorem setThenStart_taken {cb : ℕ} (found : s.findTimer 256 0 = .ok (.ok p)) (pos : 0 < w) :
    s.setThenStart (some cb) w = (do
      let u ← ((s.created p (some cb)).onKernel between).launch p (min w (timerMaxCounter cfg))
      .ok (u.onKernel Kernel.exitTask,.ret ok [p])) := by
  have clamp : (if w > timerMaxCounter cfg then timerMaxCounter cfg else w) =
      min w (timerMaxCounter cfg) := by split_ifs <;> omega
  have zero : w ≠ 0 := by omega
  rw [setThenStart,osTimerSet_taken found,launch_zero,ok_bind,ok_bind]
  change (do
    let r' ← ((s.created p (some cb)).onKernel Kernel.exitTask).osTimerStart (some p) w
    Except.ok (r'.1,Reply.ret ok [p])) = _
  rw [osTimerStart,if_neg zero]
  simp only [clamp]
  cases h : ((s.created p (some cb)).onKernel between).launch p (min w (timerMaxCounter cfg)) with
  | error e => exact congrArg (fun x => (x >>= _) >>= _) h
  | ok u => exact congrArg (fun x => (x >>= _) >>= _) h

/-- The control block is free, and those before it are in use: the one that OSTimerSet takes. -/
theorem findTimer_free (small : cfg.brtosMaxTimer ≤ 255) :
    (∃ p, s.findTimer 256 0 = .ok (.ok p)) ↔ ∃ p, s.Scanned (.ok p) := by
  constructor
  · rintro ⟨p,found⟩
    exact ⟨p,findTimer_ok (by simp) found⟩
  · rintro ⟨p,fits,unused,before⟩
    obtain ⟨r,hr⟩ := findTimer_total (s := s) small (f := 256) (i := 0) (Nat.zero_le _) (by omega)
    have scanned := findTimer_ok (by simp) hr
    cases r with
    | ok q => exact ⟨q,hr⟩
    | error code =>
      rcases scanned with ⟨_,all⟩ | ⟨_,q,_,dead,earlier⟩
      · exact absurd unused (all p fits).2
      · rcases Nat.lt_trichotomy p q with lt | rfl | lt
        · exact absurd unused (earlier p lt).2
        · simp [dead] at unused
        · exact absurd dead (before q lt).1

/-- A wait within the range of the counter, when OSTimerSet returns. -/
theorem agrees_taken (now : s.osTickCounter < cfg.tickCountOverflow) (pos : 0 < w)
    (most : w ≤ timerMaxCounter cfg) {cb : ℕ} (found : s.findTimer 256 0 = .ok (.ok p))
    (launched : (s.created p (some cb)).launch p w = .ok t) : s.Agrees (some cb) w := by
  have small : cfg.tickCountOverflow ≤ cfg.maxTimer := by simp [Config.tickCountOverflow]
  have large := cfg.timer_large
  have later := launch_between launched
  have due : (t.mem p).timeout < cfg.tickCountOverflow := by
    rw [(launch_frame launched).1,if_pos pos,Function.update_self]
    change (s.created p (some cb)).deadline w < _
    unfold timerMaxCounter at most
    have same : (s.created p (some cb)).osTickCounter = s.osTickCounter := enterTask_counter _
    rw [Kernel.deadline_lt_iff (same ▸ now) (by omega),same]
    omega
  refine ⟨t.onKernel Kernel.exitTask,(t.onKernel between).onKernel Kernel.exitTask,.ret ok [p],?_,?_,
    ⟨rfl,rfl,rfl,?_⟩,?_⟩
  · rw [osTimerSet_taken found,launched,ok_bind]
  · rw [setThenStart_taken found pos,min_eq_left most,later,ok_bind]
  · change (t.toKernel.exitTask).contextTask = ((t.toKernel.exitTask).enterTask.exitTask).contextTask
    rw [congrArg Core.contextTask (t.toKernel.exitTask.enterTask.exitTask_toCore),
      congrArg Core.contextTask (t.toKernel.exitTask.enterTask_toCore)]
  · intro q hq
    obtain rfl : p = q := by simpa using hq
    exact ⟨due,due⟩

/-- A longer wait: OSTimerStart shortens it, and OSTimerSet does not. -/
theorem not_agrees_long (now : s.osTickCounter < cfg.tickCountOverflow) (fits : w ≤ cfg.maxTimer)
    (long : timerMaxCounter cfg < w) {cb : ℕ} (found : s.findTimer 256 0 = .ok (.ok p)) :
    ¬ s.Agrees (some cb) w := by
  have small : cfg.tickCountOverflow ≤ cfg.maxTimer := by simp [Config.tickCountOverflow]
  have large := cfg.timer_large
  have most := timerMaxCounter_pos cfg
  rintro ⟨u,v,r,hu,hv,same,_⟩
  rw [osTimerSet_taken found] at hu
  rw [setThenStart_taken found (by omega),min_eq_right long.le] at hv
  obtain ⟨u',hu',hu⟩ := bind_eq_ok.mp hu
  obtain ⟨v',hv',hv⟩ := bind_eq_ok.mp hv
  obtain ⟨rfl,_⟩ := Prod.mk.inj (Except.ok.inj hu)
  obtain ⟨rfl,_⟩ := Prod.mk.inj (Except.ok.inj hv)
  have deadlines : ((u'.mem p).timeout = s.deadline w) ∧
      (v'.mem p).timeout = s.deadline (timerMaxCounter cfg) := by
    rw [(launch_frame hu').1,(launch_frame hv').1,if_pos (by omega),if_pos most,Function.update_self,
      Function.update_self]
    have counter : (s.created p (some cb)).osTickCounter = s.osTickCounter := enterTask_counter _
    have counter' : ((s.created p (some cb)).onKernel between).osTickCounter = s.osTickCounter := by
      refine (enterTask_counter _).trans (Eq.trans ?_ counter)
      exact Kernel.osTickCounter_of_vital (Kernel.vital_of_shell (Kernel.exitTask_shell _))
    simp only [begun,Kernel.deadline,counter,counter']
    exact ⟨trivial,trivial⟩
  have equal : (u'.mem p).timeout = (v'.mem p).timeout := congrArg (fun m => (m p).timeout) same.mem
  rw [deadlines.1,deadlines.2] at equal
  unfold timerMaxCounter at long equal
  have modulus : cfg.maxTimer = cfg.tickCountOverflow+3 := by
    simp only [Config.tickCountOverflow]
    omega
  rw [Kernel.deadline_eq now (w := cfg.tickCountOverflow-1) (by omega)] at equal
  unfold Kernel.deadline at equal
  rw [modulus,if_pos (by omega),Nat.mod_eq_of_lt (by omega)] at equal
  rcases Nat.eq_zero_or_pos s.osTickCounter with zero | ahead
  · rw [zero,Nat.zero_add,Nat.zero_add,Nat.mod_eq_of_lt (by omega)] at equal
    omega
  · rw [Nat.mod_eq_sub_mod (by omega),Nat.mod_eq_of_lt (by omega)] at equal
    omega

/-- Without a control block both ways end with the same code. -/
theorem agrees_refused {cb : Option ℕ} {code : ℕ} {u : TimerService cfg}
    (none : ∀ w, s.osTimerSet true cb w = .ok (u,.ret code [])) : s.Agrees cb w := by
  refine ⟨u,u,.ret code [],none w,?_,⟨rfl,rfl,rfl,rfl⟩,fun p hp => ?_⟩
  · rw [setThenStart,none 0,ok_bind]
    cases code <;> rfl
  · simp at hp

/-- For every service, every tick and every wait of the type ostick_t, starting the timer with OSTimerSet
and starting it later agree exactly if OSTimerSet returns and the wait is at most TIMER_MAX_COUNTER,
unless there is no callback or no control block to take. -/
theorem agrees_returns (now : s.osTickCounter < cfg.tickCountOverflow) (pos : 0 < w)
    (fits : w ≤ cfg.maxTimer) (cb : Option ℕ) :
    s.Agrees cb w ↔ (∃ r, s.osTimerSet true cb w = .ok r) ∧
      (cb = none ∨ (¬ ∃ p, s.findTimer 256 0 = .ok (.ok p)) ∨ w ≤ timerMaxCounter cfg) := by
  cases cb with
  | none => exact iff_of_true (agrees_refused fun w => rfl) ⟨⟨_,rfl⟩,Or.inl rfl⟩
  | some cb =>
    cases hx : s.findTimer 256 0 with
    | error e =>
      have stuck : s.osTimerSet true (some cb) w = .error e := by rw [osTimerSet_eq,hx,error_bind]
      constructor
      · rintro ⟨u,v,r,hu,_⟩
        simp [stuck] at hu
      · rintro ⟨⟨r,hr⟩,_⟩
        simp [stuck] at hr
    | ok x =>
      cases x with
      | error code =>
        have returns : ∀ w, s.osTimerSet true (some cb) w =
            .ok (_,.ret code []) := fun w => by rw [osTimerSet_eq,hx,ok_bind]
        exact iff_of_true (agrees_refused returns) ⟨⟨_,returns w⟩,Or.inr (Or.inl (by simp))⟩
      | ok p =>
        constructor
        · intro agrees
          have returns : ∃ r, s.osTimerSet true (some cb) w = .ok r := by
            obtain ⟨u,v,r,hu,_⟩ := agrees
            exact ⟨_,hu⟩
          refine ⟨returns,Or.inr (Or.inr ?_)⟩
          by_contra long
          exact not_agrees_long now fits (by omega) hx agrees
        · rintro ⟨⟨r,done⟩,none | none | most⟩
          · cases none
          · exact absurd ⟨p,rfl⟩ none
          · rw [osTimerSet_taken hx] at done
            obtain ⟨t,ht,_⟩ := bind_eq_ok.mp done
            exact agrees_taken now pos most hx ht

theorem target_created (p : ℕ) (cb : Option ℕ) (w : ℕ) :
    (s.created p cb).target w = s.target w := by
  unfold target
  rw [show (s.created p cb).osTickCounter = s.osTickCounter from enterTask_counter _]
  rfl

/-- For regular lists OSTimerSet that has found a control block returns exactly if the timer is not
started or finds room in the list that the deadline belongs to. -/
theorem osTimerSet_launches (regular : s.Regular) (found : s.findTimer 256 0 = .ok (.ok p)) (cb : ℕ) :
    (∃ r, s.osTimerSet true (some cb) w = .ok r) ↔ w = 0 ∨ HasRoom cfg (s.target w) := by
  obtain ⟨n,current,_⟩ := regular.current
  obtain ⟨m,future,_⟩ := regular.future
  have room := launch_iff (s := s.created p (some cb)) (p := p) (w := w) current future
  rw [target_created] at room
  rw [← room,osTimerSet_taken found]
  constructor
  · rintro ⟨r,hr⟩
    obtain ⟨t,ht,_⟩ := bind_eq_ok.mp hr
    exact ⟨t,ht⟩
  · rintro ⟨t,ht⟩
    exact ⟨_,by rw [ht,ok_bind]⟩

/-- For regular lists OSTimerSet returns exactly if it takes no control block or the list that the
deadline belongs to has room for another entry. -/
theorem osTimerSet_returns (regular : s.Regular) (pos : 0 < w) (cb : ℕ) :
    (∃ r, s.osTimerSet true (some cb) w = .ok r) ↔
      (¬ ∃ p, s.findTimer 256 0 = .ok (.ok p)) ∨ HasRoom cfg (s.target w) := by
  obtain ⟨x,hx⟩ := findTimer_total (s := s) regular.small (f := 256) (i := 0) (Nat.zero_le _)
    (by have := regular.small; omega)
  cases x with
  | error c =>
    refine iff_of_true ⟨_,by rw [osTimerSet_eq,hx,ok_bind]⟩ (Or.inl ?_)
    simp [hx]
  | ok p =>
    rw [osTimerSet_launches regular hx,or_iff_right (by omega),or_iff_right (not_not.mpr ⟨p,hx⟩)]

/-- For every service, every tick and every wait of the type ostick_t, starting the timer with OSTimerSet
and starting it later agree exactly if OSTimerSet returns and there is no callback or no control block to
take, or the wait is at most TIMER_MAX_COUNTER. For the lists of a run OSTimerSet returns exactly if
there is no control block to take or the list of the deadline has room. -/
theorem agrees_iff (now : s.osTickCounter < cfg.tickCountOverflow) (pos : 0 < w)
    (fits : w ≤ cfg.maxTimer) (cb : Option ℕ) :
    (s.Agrees cb w ↔ (∃ r, s.osTimerSet true cb w = .ok r) ∧
      (cb = none ∨ (¬ ∃ p, s.findTimer 256 0 = .ok (.ok p)) ∨ w ≤ timerMaxCounter cfg)) ∧
    (s.Regular → (s.Agrees cb w ↔ cb = none ∨ (¬ ∃ p, s.Scanned (.ok p)) ∨
      w ≤ timerMaxCounter cfg ∧ HasRoom cfg (s.target w))) := by
  refine ⟨agrees_returns now pos fits cb,fun regular => ?_⟩
  rw [agrees_returns now pos fits cb,← findTimer_free regular.small]
  cases cb with
  | none => exact iff_of_true ⟨⟨_,rfl⟩,Or.inl rfl⟩ (Or.inl rfl)
  | some cb =>
    rw [osTimerSet_returns regular pos cb]
    simp only [reduceCtorEq,false_or]
    tauto

/-- Five ticks, right after OSTimerInit. -/
theorem agrees_example : ∃ s : TimerSystem Config.simulator, s.Booted ∧ s.Agrees (some 0) 5 := by
  obtain ⟨s,booted,run⟩ := TimerSystem.exists_booted (Kernel.brtosInit Config.simulator) (.user 0) 16 30
    (fun s => some (decide (s.osTickCounter = 0 ∧ (s.osTimerSet true (some 0) 5).toOption.isSome)))
    (by decide +kernel)
  obtain ⟨zero,returns⟩ := of_decide_eq_true (Option.some.inj run)
  refine ⟨s,booted,((agrees_iff ?_ ?_ ?_ (some 0)).1).mpr ⟨?_,Or.inr (Or.inr ?_)⟩⟩
  · rw [zero]
    decide
  · decide
  · decide
  · cases done : s.osTimerSet true (some 0) 5 with
    | error e => simp [done,Except.toOption] at returns
    | ok r => exact ⟨r,rfl⟩
  · decide

/-- A wait of 65532 ticks at time zero: OSTimerSet stores the deadline zero, which is now, and OSTimerStart
the deadline 65531. -/
theorem agrees_fails : ∃ s : TimerSystem Config.simulator, s.Booted ∧
    s.osTickCounter < Config.simulator.tickCountOverflow ∧ ¬ s.Agrees (some 0) 65532 := by
  obtain ⟨s,booted,run⟩ := TimerSystem.exists_booted (Kernel.brtosInit Config.simulator) (.user 0) 16 30
    (fun s => (s.osTimerSet true (some 0) 65532).toOption.bind fun u =>
      (s.setThenStart (some 0) 65532).toOption.map fun v : TimerService Config.simulator × Reply =>
        decide (s.osTickCounter = 0 ∧ (u.1.mem 0).timeout = 0 ∧ (v.1.mem 0).timeout = 65531))
    (by decide +kernel)
  obtain ⟨x,hx,run⟩ := Option.bind_eq_some_iff.mp run
  obtain ⟨y,hy,run⟩ := Option.map_eq_some_iff.mp run
  obtain ⟨zero,set,later⟩ := of_decide_eq_true run
  refine ⟨s,booted,by rw [zero]; decide,?_⟩
  rintro ⟨u,v,r,hu,hv,same,_⟩
  rw [hu] at hx
  rw [hv] at hy
  obtain rfl := Option.some.inj hx
  obtain rfl := Option.some.inj hy
  have equal : (u.mem 0).timeout = (v.mem 0).timeout := congrArg (fun m => (m 0).timeout) same.mem
  rw [set,later] at equal
  exact absurd equal (by decide)

end TimerService
end Brtos
