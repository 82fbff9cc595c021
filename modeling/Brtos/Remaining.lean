import Brtos.TimerRuns
import Brtos.Delayed

/-! The remaining time of a running timer. -/
namespace Brtos
open TimerService

namespace TimerSystem
variable {cfg : Config} {s t u : TimerSystem cfg} {a : TimerAction} {p w : ℕ}

/-- The action starts or stops the timer, or ends its callback. -/
def Concerns (s : TimerSystem cfg) (p : ℕ) : TimerAction → Prop
  | .start q _ => q = some p
  | .stop q _ => q = some p
  | .ret _ => s.point = .fires true p ∨ s.point = .fires false p
  | _ => False

instance (a : TimerAction) : Decidable (s.Concerns p a) :=
  match a with
  | .start _ _ | .stop _ _ => inferInstanceAs (Decidable (_ = _))
  | .ret _ => inferInstanceAs (Decidable (_ ∨ _))
  | .set _ _ _ | .tick _ | .switch _ | .run => inferInstanceAs (Decidable False)

/-- The timer runs, and its deadline is `d`. -/
structure Runs (s : TimerSystem cfg) (p d : ℕ) : Prop where
  state : (s.mem p).state = .running
  timeout : (s.mem p).timeout = d

theorem Runs.step {d : ℕ} (h : s.Runs p d) (other : ¬ s.Concerns p a) (st : s.act a = .ok t) :
    t.Runs p d := by
  rcases (act_frame st).1 with same | ⟨q,v,writes,mem⟩
  · exact ⟨same ▸ h.state,same ▸ h.timeout⟩
  · have apart : p ≠ q := by
      rintro rfl
      cases writes with
      | set found =>
        have unused := (findTimer_ok (by simp) found).2.1
        simp [h.state] at unused
      | start => exact other rfl
      | stop => exact other rfl
      | @ret behind _ _ fires =>
        cases behind with
        | true => exact other (Or.inl fires)
        | false => exact other (Or.inr fires)
    refine ⟨?_,?_⟩
    · rw [mem,Function.update_of_ne apart]
      exact h.state
    · rw [mem,Function.update_of_ne apart]
      exact h.timeout

/-- The two-branch formula of OSTimerGet is the distance from the counter to the deadline. -/
theorem remaining_eq (now : s.osTickCounter < cfg.tickCountOverflow) {d : ℕ}
    (h : s.Runs p d) : s.remaining p =
      if s.osTickCounter ≤ d then d-s.osTickCounter else d+cfg.tickCountOverflow-s.osTickCounter := by
  have small : cfg.tickCountOverflow ≤ cfg.maxTimer := by simp [Config.tickCountOverflow]
  rw [remaining,h.timeout,timerMaxCounter]
  split_ifs with ahead
  · rfl
  · rw [show cfg.tickCountOverflow-1+(cfg.maxTimer+1)-s.osTickCounter+d+1 =
      d+cfg.tickCountOverflow-s.osTickCounter+(cfg.maxTimer+1) by omega,Nat.add_mod_right,
      Nat.mod_eq_of_lt (by omega)]

theorem osTimerGet_eq (state : (s.mem p).state = .running) :
    (s.osTimerGet (some p)).2 = s.remaining p := by
  simp only [osTimerGet,if_pos state,remaining,
    show (s.onKernel Kernel.enterTask).osTickCounter = s.osTickCounter from enterTask_counter _]
  rfl

/-- For every service and every tick: when OSTimerStart has started a timer and `k` ticks have passed
in which nobody stopped or started it and its callback did not end, OSTimerGet returns exactly what is
left of the wait. -/
theorem remaining_exact (now : s.osTickCounter < cfg.tickCountOverflow) (pos : 0 < w)
    (started : s.act (.start (some p) w) = .ok t) {k : ℕ}
    (run : Run.Tally step (fun u a => ¬ u.Concerns p a) (fun _ a => IsTick a) t k u)
    (near : k ≤ min w (timerMaxCounter cfg)) :
    (u.osTimerGet (some p)).2 = min w (timerMaxCounter cfg)-k := by
  have most : min w (timerMaxCounter cfg) ≤ timerMaxCounter cfg := min_le_right _ _
  generalize hw : min w (timerMaxCounter cfg) = w' at near most ⊢
  have begun : t.Runs p ((s.osTickCounter+w')%cfg.tickCountOverflow) ∧
      t.osTickCounter = s.osTickCounter := by
    obtain ⟨⟨v,r⟩,hv,ht⟩ := bind_eq_ok.mp started
    obtain ⟨shell,⟨_,null⟩ | ⟨q,hq,_,_,mem⟩⟩ := osTimerStart_frame hv
    · rcases osTimerStart_ok hv with ⟨_,_,none | zero⟩ | ⟨_,_,_,_,done,_⟩
      · cases none
      · omega
      · rw [done] at null
        cases null
    · obtain rfl := Option.some.inj hq
      obtain rfl := Except.ok.inj ht
      rw [hw] at mem
      refine ⟨⟨?_,?_⟩,Kernel.osTickCounter_of_vital (Kernel.vital_of_shell shell)⟩
      · rw [mem,Function.update_self]
        rfl
      · rw [mem,Function.update_self]
        apply Kernel.deadline_eq now
        unfold timerMaxCounter at most
        omega
  have later : u.Runs p ((s.osTickCounter+w')%cfg.tickCountOverflow) ∧
      u.osTickCounter = (s.osTickCounter+k)%cfg.tickCountOverflow := by
    clear near
    induction run with
    | refl => exact ⟨begun.1,by rw [begun.2,Nat.add_zero,Nat.mod_eq_of_lt now]⟩
    | other _ met next plain ih =>
      have st := step_eq_some.mp next
      have counter := (act_frame st).2
      rw [if_neg plain] at counter
      exact ⟨ih.1.step met st,counter.trans ih.2⟩
    | @marked v _ _ n _ met next hit ih =>
      have st := step_eq_some.mp next
      have counter := (act_frame st).2
      have below : v.osTickCounter < cfg.tickCountOverflow := ih.2 ▸ Nat.mod_lt _ (by omega)
      rw [if_pos hit,Kernel.osIncCounter_eq below,ih.2,Nat.mod_add_mod] at counter
      exact ⟨ih.1.step met st,counter⟩
  obtain ⟨runs,counter⟩ := later
  unfold timerMaxCounter at most
  rw [osTimerGet_eq runs.state,remaining_eq (counter ▸ Nat.mod_lt _ (by omega)) runs,counter]
  have wraps : ∀ n, n < cfg.tickCountOverflow → (s.osTickCounter+n)%cfg.tickCountOverflow =
      if s.osTickCounter+n < cfg.tickCountOverflow then s.osTickCounter+n
      else s.osTickCounter+n-cfg.tickCountOverflow := by
    intro n lt
    split_ifs with early
    · exact Nat.mod_eq_of_lt early
    · rw [Nat.mod_eq_sub_mod (by omega),Nat.mod_eq_of_lt (by omega)]
  rw [wraps w' (by omega),wraps k (by omega)]
  split_ifs <;> omega

/-- A timer that was started for longer than the counter can tell, one tick later. -/
theorem remaining_example : ∃ s t u : TimerSystem Config.simulator,
    s.act (.start (some 0) 65535) = .ok t ∧ t.act (.tick 0) = .ok u ∧
      (u.osTimerGet (some 0)).2 = min 65535 (timerMaxCounter Config.simulator)-1 := by
  obtain ⟨b,_,run⟩ := exists_booted (Kernel.brtosInit Config.simulator) (.user 0) 16 30
    (fun b => (b.step (.set true (some 0) 0)).bind fun s => (s.step (.start (some 0) 65535)).bind fun t =>
      (t.step (.tick 0)).bind fun _ => some (decide (s.osTickCounter = 0))) (by decide +kernel)
  obtain ⟨s,_,run⟩ := Option.bind_eq_some_iff.mp run
  obtain ⟨t,started,run⟩ := Option.bind_eq_some_iff.mp run
  obtain ⟨u,ticked,run⟩ := Option.bind_eq_some_iff.mp run
  have zero : s.osTickCounter = 0 := of_decide_eq_true (Option.some.inj run)
  refine ⟨s,t,u,step_eq_some.mp started,step_eq_some.mp ticked,?_⟩
  exact remaining_exact (by rw [zero]; decide) (by decide) (step_eq_some.mp started)
    (.marked .refl id ticked trivial) (by decide)

end TimerSystem
end Brtos
