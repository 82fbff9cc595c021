import Brtos.TimerServices
import Brtos.DelayList

/-! The control blocks of the timers and the tick counter: what each action writes, whatever the lists
are. -/
namespace Brtos

namespace TimerService
variable {cfg : Config} {s t : TimerService cfg} {p w : ℕ}

theorem wake_frame (st : s.wake p = .ok t) : t.mem = s.mem ∧ t.shell = s.shell := by
  unfold wake at st
  split_ifs at st with task
  · obtain ⟨q,_,st⟩ := bind_eq_ok.mp st
    split_ifs at st
    · obtain rfl := Except.ok.inj st
      exact ⟨rfl,rfl⟩
    · obtain rfl := Except.ok.inj st
      exact ⟨rfl,rfl⟩
  · obtain rfl := Except.ok.inj st
    exact ⟨rfl,rfl⟩

theorem launch_frame (st : s.launch p w = .ok t) : t.mem =
    Function.update s.mem p (if 0 < w then s.begun p w else s.mem p) ∧ t.shell = s.shell := by
  rcases Nat.eq_zero_or_pos w with rfl | pos
  · obtain rfl := Except.ok.inj (launch_zero.symm.trans st)
    rw [if_neg (by omega),Function.update_eq_self]
    exact ⟨rfl,rfl⟩
  rw [if_pos pos]
  simp only [launch,if_pos pos] at st
  by_cases late : s.osTickCounter+w ≥ cfg.tickCountOverflow
  · have d : s.deadline w = (s.osTickCounter+w-cfg.tickCountOverflow)%(cfg.maxTimer+1) := by
      simp only [Kernel.deadline,if_pos late]
    rw [if_pos late,← d] at st
    obtain ⟨r,_,st⟩ := bind_eq_ok.mp st
    obtain rfl := Except.ok.inj st
    exact ⟨setDeadline_setState _ _,rfl⟩
  · have d : s.deadline w = (s.osTickCounter+w)%(cfg.maxTimer+1) := by
      simp only [Kernel.deadline,if_neg late]
    rw [if_neg late,← d] at st
    obtain ⟨r,_,st⟩ := bind_eq_ok.mp st
    obtain ⟨u,woken,st⟩ := bind_eq_ok.mp st
    obtain rfl := Except.ok.inj st
    obtain ⟨mem,shell⟩ := wake_frame woken
    refine ⟨?_,shell⟩
    rw [setState,setTimer,mem]
    exact setDeadline_setState (s := s) _ _

theorem onKernel_enterTask_shell (s : TimerService cfg) :
    (s.onKernel Kernel.enterTask).shell = s.shell := s.toKernel.enterTask_shell

theorem onKernel_exitTask_shell (s : TimerService cfg) :
    (s.onKernel Kernel.exitTask).shell = s.shell := s.toKernel.exitTask_shell

theorem osTimerSet_frame {cbp : Bool} {cb : Option ℕ} {r : Reply}
    (st : s.osTimerSet cbp cb w = .ok (t,r)) : t.shell = s.shell ∧
      ((∃ code, r = .ret code [] ∧ code ≠ ok ∧ t.mem = s.mem) ∨ ∃ p v, r = .ret ok [p] ∧
        s.findTimer 256 0 = .ok (.ok p) ∧ t.mem = Function.update s.mem p v ∧ v.funcCb = cb ∧
        v.state = if 0 < w then .running else .stopped) := by
  rcases osTimerSet_ok st with ⟨code,hr,bad,kernel,mem,_⟩ | ⟨p,u,_,found,hr,launched,rfl⟩
  · exact ⟨kernel,Or.inl ⟨code,hr,bad,mem⟩⟩
  · obtain ⟨mem,shell⟩ := launch_frame launched
    rw [show (s.created p cb).mem = Function.update s.mem p { s.mem p with
      state := .stopped, funcCb := cb } from rfl,Function.update_idem] at mem
    refine ⟨?_,Or.inr ⟨p,_,hr,found,mem,?_,?_⟩⟩
    · rw [onKernel_exitTask_shell,shell]
      exact onKernel_enterTask_shell s
    · split_ifs <;> simp [begun,created,setTimer]
    · split_ifs <;> simp [begun,created,setTimer]

theorem begun_enter (s : TimerService cfg) (p w : ℕ) :
    (s.onKernel Kernel.enterTask).begun p w = s.begun p w := by
  have same : (s.onKernel Kernel.enterTask).deadline w = s.deadline w := by
    simp only [Kernel.deadline,show (s.onKernel Kernel.enterTask).osTickCounter = s.osTickCounter from
      enterTask_counter _]
  simp only [begun,same]
  rfl

theorem timerMaxCounter_pos (cfg : Config) : 0 < timerMaxCounter cfg := by
  have large := cfg.timer_large
  simp only [timerMaxCounter,Config.tickCountOverflow]
  omega

theorem osTimerStart_frame {q : Option ℕ} {r : Reply} (st : s.osTimerStart q w = .ok (t,r)) :
    t.shell = s.shell ∧ (t.mem = s.mem ∧ r = .ret nullEventPointer [] ∨
      ∃ p, q = some p ∧ 0 < w ∧ r = .ret ok [] ∧
        t.mem = Function.update s.mem p (s.begun p (min w (timerMaxCounter cfg)))) := by
  rcases osTimerStart_ok st with ⟨rfl,hr,_⟩ | ⟨p,u,rfl,pos,hr,launched,rfl⟩
  · exact ⟨rfl,Or.inl ⟨rfl,hr⟩⟩
  · obtain ⟨mem,shell⟩ := launch_frame launched
    have most := timerMaxCounter_pos cfg
    rw [if_pos (by omega),begun_enter] at mem
    refine ⟨?_,Or.inr ⟨p,rfl,pos,hr,mem⟩⟩
    rw [onKernel_exitTask_shell,shell,onKernel_enterTask_shell]

theorem osTimerStop_frame {q : Option ℕ} {del : ℕ} {r : Reply} {inside : ℕ → Bool}
    (st : s.osTimerStopWithin inside q del = .ok (t,r)) : t.shell = s.shell ∧
      (t.mem = s.mem ∧ q = none ∨
        ∃ p, q = some p ∧ t.mem = Function.update s.mem p (s.ended p del)) := by
  cases q with
  | none =>
    obtain ⟨rfl,_⟩ := Prod.mk.inj (Except.ok.inj st)
    exact ⟨rfl,Or.inl ⟨rfl,rfl⟩⟩
  | some p =>
    obtain ⟨i,_,st⟩ := bind_eq_ok.mp st
    obtain ⟨l₁,_,st⟩ := bind_eq_ok.mp st
    obtain ⟨l₂,_,st⟩ := bind_eq_ok.mp st
    obtain ⟨l₃,_,st⟩ := bind_eq_ok.mp st
    obtain ⟨rfl,_⟩ := Prod.mk.inj (Except.ok.inj st)
    refine ⟨?_,Or.inr ⟨p,rfl,release_mem (setDeadline_setState' s p)⟩⟩
    rw [onKernel_exitTask_shell,(release_frame _ p del).1]
    exact onKernel_enterTask_shell s

/-- The control block that the end of a callback leaves. -/
def served (s : TimerService cfg) (behind : Bool) (p again : ℕ) : Timer :=
  if again = 0 then ⟨none,0,.notAllocated⟩
  else { s.mem p with timeout := (s.rearmed behind again).1 }

theorem Dispatched.mem {behind : Bool} {again : ℕ} {q : Option ℕ}
    (d : Dispatched s behind p again t q) :
    t.mem = Function.update s.mem p (s.served behind p again) := by
  unfold served
  split_ifs with zero
  · exact (d.retired zero).1
  · exact d.armed (by omega)

theorem proceed_frame {q : Option ℕ} (st : s.proceed = .ok (t,q)) :
    t.mem = s.mem ∧ t.shell = s.shell := by
  obtain ⟨l,_,st⟩ := bind_eq_ok.mp st
  obtain ⟨x,_,st⟩ := bind_eq_ok.mp st
  obtain ⟨rfl,_⟩ := Prod.mk.inj (Except.ok.inj st)
  exact ⟨rfl,s.toKernel.osExitCritical_shell⟩

theorem dispatch_frame {behind : Bool} {again : ℕ} {q : Option ℕ}
    (st : s.dispatch behind p again = .ok (t,q)) :
    t.mem = Function.update s.mem p (s.served behind p again) ∧ t.shell = s.shell := by
  have entered : (s.onKernel Kernel.osEnterCritical).shell = s.shell :=
    s.toKernel.osEnterCritical_shell
  unfold served
  simp only [dispatch] at st
  rcases Nat.eq_zero_or_pos again with rfl | pos
  · rw [if_neg (by omega)] at st
    obtain ⟨u,hu,st⟩ := bind_eq_ok.mp st
    obtain ⟨l,_,hu⟩ := bind_eq_ok.mp hu
    obtain rfl := Except.ok.inj hu
    obtain ⟨mem,shell⟩ := proceed_frame st
    exact ⟨mem,shell.trans entered⟩
  · rw [if_pos pos] at st
    rw [if_neg (by omega)]
    obtain ⟨u,hu,st⟩ := bind_eq_ok.mp st
    obtain ⟨mem,shell⟩ := proceed_frame st
    rw [mem,shell]
    simp only [rearm] at hu
    split_ifs at hu
    · obtain ⟨l₁,_,hu⟩ := bind_eq_ok.mp hu
      obtain ⟨l₂,_,hu⟩ := bind_eq_ok.mp hu
      obtain rfl := Except.ok.inj hu
      exact ⟨rfl,entered⟩
    · obtain rfl := Except.ok.inj hu
      exact ⟨rfl,entered⟩

theorem ended_state (s : TimerService cfg) (p del : ℕ) :
    (s.ended p del).state = if del > 0 then .notAllocated else .stopped := by
  unfold ended
  split_ifs <;> rfl

theorem served_state (s : TimerService cfg) (behind : Bool) (p again : ℕ) :
    (s.served behind p again).state = if again = 0 then .notAllocated else (s.mem p).state := by
  unfold served
  split_ifs <;> rfl

end TimerService

namespace TimerSystem
variable {cfg : Config} {s t : TimerSystem cfg} {a : TimerAction}
open TimerService

/-- The control block that an action writes. -/
inductive Writes (s : TimerSystem cfg) : TimerAction → ℕ → Timer → Prop
  | set {cbp : Bool} {cb : Option ℕ} {w p : ℕ} {v : Timer}
      (found : s.findTimer 256 0 = .ok (.ok p)) (callback : v.funcCb = cb)
      (state : v.state = if 0 < w then .running else .stopped) : Writes s (.set cbp cb w) p v
  | start {w p : ℕ} (pos : 0 < w) :
      Writes s (.start (some p) w) p (s.begun p (min w (timerMaxCounter cfg)))
  | stop {p del : ℕ} : Writes s (.stop (some p) del) p (s.ended p del)
  | ret {behind : Bool} {p again : ℕ} (fires : s.point = .fires behind p) :
      Writes s (.ret again) p (s.served behind p again)

def IsTick : TimerAction → Prop
  | .tick _ => True
  | _ => False

instance (a : TimerAction) : Decidable (IsTick a) :=
  match a with
  | .tick _ => inferInstanceAs (Decidable True)
  | .set _ _ _ | .start _ _ | .stop _ _ | .switch _ | .run | .ret _ => inferInstanceAs (Decidable False)

theorem run_frame (st : s.run = .ok t) : t.mem = s.mem ∧ t.shell = s.shell := by
  have skipped : ∀ {behind}, s.skip behind = .ok t → t.mem = s.mem ∧ t.shell = s.shell := by
    intro behind st
    obtain ⟨⟨u,q⟩,hu,st⟩ := bind_eq_ok.mp st
    obtain rfl := Except.ok.inj st
    exact proceed_frame hu
  unfold run at st
  cases point : s.point with
  | start | asleep =>
    simp only [point] at st
    obtain ⟨q,_,st⟩ := bind_eq_ok.mp st
    obtain rfl := Except.ok.inj st
    exact ⟨rfl,rfl⟩
  | choose q | judge q =>
    cases q
    all_goals simp only [point] at st; obtain rfl := Except.ok.inj st
    · exact ⟨rfl,rfl⟩
    · exact ⟨rfl,rfl⟩
  | sleep next =>
    simp only [point] at st
    obtain rfl := Except.ok.inj st
    exact ⟨rfl,rfl⟩
  | enlist =>
    simp only [point] at st
    obtain rfl := Except.ok.inj st
    refine ⟨rfl,?_⟩
    change Kernel.shell (Kernel.osExitCritical _) = _
    simp
  | loop behind q =>
    cases behind <;> cases q <;> simp only [point] at st
    · obtain rfl := Except.ok.inj st
      exact ⟨rfl,rfl⟩
    · split_ifs at st
      · obtain rfl := Except.ok.inj st
        exact ⟨rfl,rfl⟩
      · exact skipped st
      · obtain rfl := Except.ok.inj st
        exact ⟨rfl,rfl⟩
    · obtain ⟨q,_,st⟩ := bind_eq_ok.mp st
      obtain rfl := Except.ok.inj st
      exact ⟨rfl,rfl⟩
    · split_ifs at st
      · obtain rfl := Except.ok.inj st
        exact ⟨rfl,rfl⟩
      · exact skipped st
  | fires behind q =>
    simp only [point] at st
    obtain rfl := Except.ok.inj st
    exact ⟨rfl,rfl⟩
  | settle q =>
    simp only [point] at st
    split_ifs at st
    · obtain ⟨q,_,st⟩ := bind_eq_ok.mp st
      obtain rfl := Except.ok.inj st
      exact ⟨rfl,rfl⟩
    · obtain rfl := Except.ok.inj st
      exact ⟨rfl,rfl⟩

/-- An action writes at most one control block, and only the tick moves the counter. -/
theorem act_frame (st : s.act a = .ok t) :
    (t.mem = s.mem ∨ ∃ p v, Writes s a p v ∧ t.mem = Function.update s.mem p v) ∧
      t.osTickCounter = if IsTick a then s.osIncCounter.osTickCounter else s.osTickCounter := by
  have still : ∀ {u : TimerService cfg}, u.shell = s.shell → ¬ IsTick a →
      u.osTickCounter = if IsTick a then s.osIncCounter.osTickCounter else s.osTickCounter := by
    intro u shell other
    rw [if_neg other]
    exact Kernel.osTickCounter_of_vital (Kernel.vital_of_shell shell)
  cases a with
  | set cbp cb w =>
    obtain ⟨⟨u,r⟩,hu,st⟩ := bind_eq_ok.mp st
    obtain rfl := Except.ok.inj st
    obtain ⟨shell,⟨_,_,_,mem⟩ | ⟨p,v,_,found,mem,cb',state⟩⟩ := osTimerSet_frame hu
    · exact ⟨Or.inl mem,still shell id⟩
    · exact ⟨Or.inr ⟨p,v,.set found cb' state,mem⟩,still shell id⟩
  | start q w =>
    obtain ⟨⟨u,r⟩,hu,st⟩ := bind_eq_ok.mp st
    obtain rfl := Except.ok.inj st
    obtain ⟨shell,⟨mem,_⟩ | ⟨p,rfl,pos,_,mem⟩⟩ := osTimerStart_frame hu
    · exact ⟨Or.inl mem,still shell id⟩
    · exact ⟨Or.inr ⟨p,_,.start pos,mem⟩,still shell id⟩
  | stop q del =>
    obtain ⟨⟨u,r⟩,hu,st⟩ := bind_eq_ok.mp st
    obtain rfl := Except.ok.inj st
    obtain ⟨shell,⟨mem,_⟩ | ⟨p,rfl,mem⟩⟩ := osTimerStop_frame hu
    · exact ⟨Or.inl mem,still shell id⟩
    · exact ⟨Or.inr ⟨p,_,.stop,mem⟩,still shell id⟩
  | tick fuel =>
    rw [if_pos (show IsTick (.tick fuel) from trivial)]
    cases ticked : s.tick fuel with
    | none => simp [act,ticked] at st
    | some k =>
      simp only [act,ticked] at st
      obtain rfl := Except.ok.inj st
      refine ⟨Or.inl rfl,?_⟩
      exact Kernel.osTickCounter_of_vital (Kernel.vital_of_shell (Kernel.tickLoop_shell ticked))
  | switch task =>
    obtain rfl := Except.ok.inj st
    exact ⟨Or.inl rfl,rfl⟩
  | run =>
    obtain ⟨mem,shell⟩ := run_frame st
    exact ⟨Or.inl mem,still shell id⟩
  | ret again =>
    cases point : s.point with
    | fires behind p =>
      rw [act,point] at st
      obtain ⟨⟨u,q⟩,hu,st⟩ := bind_eq_ok.mp st
      obtain rfl := Except.ok.inj st
      obtain ⟨mem,shell⟩ := dispatch_frame hu
      exact ⟨Or.inr ⟨p,_,.ret point,mem⟩,still shell id⟩
    | _ =>
      rw [act,point] at st
      obtain rfl := Except.ok.inj st
      exact ⟨Or.inl rfl,rfl⟩

end TimerSystem
end Brtos
