import Brtos.DelayList
import Brtos.Mapping

/-! The delay list along whole runs: it is made of the tasks whose wait has a limit that has not
passed, in every run in which no task comes back from OSDelayTask before its time. -/
namespace Brtos
open Chain

/-- The waits that the documentation allows; NO_TIMEOUT as an argument asks for no wait at all. -/
def Call.InTime (cfg : Config) : Call → Prop
  | .delayTask w => w ≤ cfg.tickCountOverflow
  | .semPend _ w | .mutexAcquire _ w | .mboxPend _ w | .queuePend _ _ w =>
    w ≤ cfg.tickCountOverflow ∨ w = cfg.noTimeout
  | _ => True

instance (cfg : Config) (c : Call) : Decidable (c.InTime cfg) := by
  rcases c <;> unfold Call.InTime <;> infer_instance

/-- The `time_wait` of the services that have one. -/
def Call.timeWait : Call → ℕ
  | .delayTask w | .semPend _ w | .mutexAcquire _ w | .mboxPend _ w | .queuePend _ _ w => w
  | _ => 0

def Action.InTime (cfg : Config) : Action → Prop
  | .main c | .call c | .isrCall c => c.InTime cfg
  | _ => True

instance (cfg : Config) (a : Action) : Decidable (a.InTime cfg) := by
  rcases a <;> unfold Action.InTime <;> infer_instance

namespace Kernel
variable {cfg : Config} {k : Kernel cfg} {l : List ℕ} {t : ℕ}

/-- Deadlines are times of the counter. -/
theorem deadline_eq (now : k.osTickCounter < cfg.tickCountOverflow) {w : ℕ}
    (hw : w ≤ cfg.tickCountOverflow) :
    k.deadline w = (k.osTickCounter+w)%cfg.tickCountOverflow := by
  have := cfg.timer_large
  have small : cfg.tickCountOverflow ≤ cfg.maxTimer := by simp [Config.tickCountOverflow]
  simp only [deadline]
  split_ifs with late
  · rw [Nat.mod_eq_of_lt (by omega),Nat.mod_eq_sub_mod late,Nat.mod_eq_of_lt (by omega)]
  · rw [Nat.mod_eq_of_lt (by omega),Nat.mod_eq_of_lt (by omega)]

/-- The sum is reduced once. -/
theorem deadline_lt_iff (now : k.osTickCounter < cfg.tickCountOverflow) {w : ℕ}
    (fits : w ≤ cfg.maxTimer) :
    k.deadline w < cfg.tickCountOverflow ↔ k.osTickCounter+w < 2*cfg.tickCountOverflow := by
  have large := cfg.timer_large
  have small : cfg.tickCountOverflow ≤ cfg.maxTimer := by simp [Config.tickCountOverflow]
  simp only [deadline]
  split_ifs with late
  · rw [Nat.mod_eq_of_lt (by omega)]
    omega
  · rw [Nat.mod_eq_of_lt (by omega)]
    omega

theorem osIncCounter_eq (now : k.osTickCounter < cfg.tickCountOverflow) :
    k.osIncCounter.osTickCounter = (k.osTickCounter+1)%cfg.tickCountOverflow := by
  have := cfg.timer_large
  have small : cfg.tickCountOverflow ≤ cfg.maxTimer := by simp [Config.tickCountOverflow]
  simp only [osIncCounter,Nat.mod_eq_of_lt (show k.osTickCounter+1 < cfg.maxTimer+1 by omega)]
  split_ifs with late
  · rw [late,Nat.mod_self]
  · exact (Nat.mod_eq_of_lt (by omega)).symm

/-- What the running task writes for itself when it starts a wait of `w` ticks. -/
def fallAsleep (k : Kernel cfg) (w : ℕ) : Kernel cfg :=
  if w ≠ 0 then
    (k.setTimeToWait k.currentTask (k.deadline w)).includeTaskIntoDelayList k.currentTask
  else k.setTimeToWait k.currentTask cfg.noTimeout

theorem fallAsleep_links (h : k.links.Spells l) (w : ℕ) :
    (k.fallAsleep w).links = if w = 0 then k.links else k.links.push k.currentTask := by
  unfold fallAsleep
  by_cases h0 : w = 0
  · simp only [h0,ne_eq,not_true_eq_false,if_false,if_true,setTimeToWait_links]
  · simp only [h0,ne_eq,not_false_eq_true,if_true,if_false]
    rw [include_links (l := l) (by rwa [setTimeToWait_links]),setTimeToWait_links]

theorem fallAsleep_wait (w : ℕ) : (k.fallAsleep w).wait =
    Function.update k.wait k.currentTask (if w = 0 then cfg.noTimeout else k.deadline w) := by
  unfold fallAsleep
  by_cases h0 : w = 0
  · simp only [h0,ne_eq,not_true_eq_false,if_false,if_true,setTimeToWait_wait]
  · simp only [h0,ne_eq,not_false_eq_true,if_true,if_false,includeTaskIntoDelayList_wait,
      setTimeToWait_wait]

theorem fallAsleep_taskAlloc (w : ℕ) : (k.fallAsleep w).taskAlloc = k.taskAlloc := by
  unfold fallAsleep
  split_ifs
  · exact includeTaskIntoDelayList_taskAlloc _
  · rfl

/-- The running task starts a wait. -/
structure Asleep (k m : Kernel cfg) (w : ℕ) : Prop where
  links : m.links = if w = 0 then k.links else k.links.push k.currentTask
  wait : m.wait = Function.update k.wait k.currentTask (if w = 0 then cfg.noTimeout else k.deadline w)
  taskAlloc : m.taskAlloc = k.taskAlloc

/-- The clock of a service that suspends the running task is that of `fallAsleep`. -/
def Sleeps (k m : Kernel cfg) (w : ℕ) : Prop :=
  ∃ n : Kernel cfg, m.clock = (n.fallAsleep w).clock ∧ n.clock = k.clock ∧
    n.currentTask = k.currentTask ∧ n.deadline w = k.deadline w

theorem suspend_sleeps (o : Obj) (w : ℕ) : k.Sleeps (k.suspend o w).1 w := ⟨_,rfl,rfl,rfl,rfl⟩

theorem Sleeps.wait {m : Kernel cfg} {w : ℕ} (h : k.Sleeps m w) : m.wait =
    Function.update k.wait k.currentTask (if w = 0 then cfg.noTimeout else k.deadline w) := by
  obtain ⟨n,slept,clock,current,deadline⟩ := h
  rw [wait_of_clock slept,fallAsleep_wait,wait_of_clock clock,current,deadline]

theorem Sleeps.taskAlloc {m : Kernel cfg} {w : ℕ} (h : k.Sleeps m w) : m.taskAlloc = k.taskAlloc := by
  obtain ⟨n,slept,clock,_,_⟩ := h
  rw [taskAlloc_of_clock slept,fallAsleep_taskAlloc,taskAlloc_of_clock clock]

theorem Sleeps.asleep {m : Kernel cfg} {w : ℕ} (h : k.Sleeps m w) (spells : k.links.Spells l) :
    k.Asleep m w := by
  refine ⟨?_,h.wait,h.taskAlloc⟩
  obtain ⟨n,slept,clock,current,_⟩ := h
  rw [links_of_clock slept,fallAsleep_links (links_of_clock clock ▸ spells),links_of_clock clock,
    current]

end Kernel

namespace System
variable {cfg : Config} {s : System cfg} {l : List ℕ} {t : System cfg}

/-- A service that does not return at once. -/
theorem serve_slept {c : Call} {p : Point} (reply : (s.serve c).2 = .sleep p) :
    s.toKernel.Sleeps (s.serve c).1 p.limit ∧ p.limit = c.timeWait ∧ p ≠ .delay 0 ∧
      (c.InTime cfg → p.limit ≤ cfg.tickCountOverflow) := by
  have slept : ∀ o w, s.toKernel.Sleeps (s.osEnterCritical.suspend o w).1 w := fun o w =>
    Kernel.suspend_sleeps (k := s.osEnterCritical) o w
  cases c with
  | semPend i w =>
    simp only [Kernel.serve,Kernel.osSemPend] at reply ⊢
    split_ifs at reply ⊢ with _ _ _ never
    obtain rfl := (Reply.sleep.inj reply).symm
    exact ⟨slept _ w,rfl,by simp,fun time => time.resolve_right never⟩
  | mboxPend i w =>
    simp only [Kernel.serve,Kernel.osMboxPend] at reply ⊢
    split_ifs at reply ⊢ with _ _ _ never
    obtain rfl := (Reply.sleep.inj reply).symm
    exact ⟨slept _ w,rfl,by simp,fun time => time.resolve_right never⟩
  | queuePend d i w =>
    simp only [Kernel.serve,Kernel.queuePend] at reply ⊢
    split_ifs at reply ⊢ with _ _ _ never
    obtain rfl := (Reply.sleep.inj reply).symm
    exact ⟨slept _ w,rfl,by simp,fun time => time.resolve_right never⟩
  | mutexAcquire i w =>
    simp only [Kernel.serve,Kernel.osMutexAcquire] at reply ⊢
    split_ifs at reply ⊢ with _ _ _ _ never
    obtain rfl := (Reply.sleep.inj reply).symm
    exact ⟨slept _ w,rfl,by simp,fun time => time.resolve_right never⟩
  | delayTask w =>
    simp only [Kernel.serve,Kernel.osDelayTask] at reply ⊢
    by_cases h1 : 0 < s.iNesting
    · simp [h1] at reply
    by_cases h2 : s.currentTask = 0
    · simp [h1,h2] at reply
    by_cases h3 : w = 0
    · simp [h1,h2,h3] at reply
    simp only [h1,h2,h3,if_false,if_true] at reply ⊢
    obtain rfl := (Reply.sleep.inj reply).symm
    have begun : (s.osEnterCritical.setTimeToWait s.currentTask
        (s.osEnterCritical.deadline w)).includeTaskIntoDelayList s.currentTask =
          s.osEnterCritical.fallAsleep w := (if_pos h3).symm
    refine ⟨⟨s.osEnterCritical,?_,rfl,rfl,rfl⟩,rfl,by simpa using h3,id⟩
    exact (congrArg Kernel.clock begun).trans rfl
  | _ => exact absurd (serve_sleeps reply).2.2.2.2 (by simp [Call.suspends])

theorem serve_asleep (h : s.links.Spells l) {c : Call} {p : Point} (reply : (s.serve c).2 = .sleep p)
    (time : c.InTime cfg) : s.toKernel.Asleep (s.serve c).1 p.limit ∧ p.limit ≤ cfg.tickCountOverflow ∧
      p ≠ .delay 0 := by
  obtain ⟨slept,_,napping,small⟩ := serve_slept reply
  exact ⟨slept.asleep h,small time,napping⟩

/-- A service that returns at once leaves the delay list alone, unless it installs a task. -/
theorem serve_returns {c : Call} {code : ℕ} {data : List ℕ} (reply : (s.serve c).2 = .ret code data)
    (old : ∀ f n p, c ≠ .install f n p) : (s.serve c).1.clock = s.clock := by
  cases c with
  | install f n p => exact absurd rfl (old f n p)
  | semPend i w =>
    simp only [Kernel.serve,Kernel.osSemPend] at reply ⊢
    split_ifs at reply ⊢ <;> simp [Kernel.suspend] at reply ⊢
  | mboxPend i w =>
    simp only [Kernel.serve,Kernel.osMboxPend] at reply ⊢
    split_ifs at reply ⊢ <;> simp [Kernel.suspend,Kernel.takeMail] at reply ⊢
  | queuePend d i w =>
    simp only [Kernel.serve,Kernel.queuePend] at reply ⊢
    split_ifs at reply ⊢ <;> simp [Kernel.suspend] at reply ⊢
  | mutexAcquire i w =>
    simp only [Kernel.serve,Kernel.osMutexAcquire] at reply ⊢
    split_ifs at reply ⊢ <;> simp [Kernel.suspend] at reply ⊢
  | delayTask w =>
    simp only [Kernel.serve,Kernel.osDelayTask] at reply ⊢
    by_cases h1 : 0 < s.iNesting
    · simp [h1]
    by_cases h2 : s.currentTask = 0
    · simp [h1,h2]
    by_cases h3 : w = 0
    · simp [h1,h2,h3]
    simp [h1,h2,h3] at reply
  | _ => exact s.serve_clock rfl

variable (s) in
/-- The task waits with a limit that has not passed. -/
def Timed (t : ℕ) : Prop := (s.point t).limit ≠ 0 ∧ s.wait t ≠ cfg.exitByTimeout

instance (t : ℕ) : Decidable (s.Timed t) := by unfold Timed; infer_instance

/-- The delay list is made of the tasks that wait with a limit, each until the counter is there. -/
structure Clocked (s : System cfg) (l : List ℕ) : Prop where
  spells : s.links.Spells l
  mem {t : ℕ} : t ∈ l ↔ s.Timed t
  due {t : ℕ} : s.Timed t → s.wait t < cfg.tickCountOverflow
  napping {t : ℕ} : s.point t ≠ .delay 0
  user {t : ℕ} : s.point t ≠ .run → s.inst t ≠ 0
  roster {t : ℕ} : s.inst t ≠ 0 → s.Installed t
  counter : s.osTickCounter < cfg.tickCountOverflow

theorem Clocked.same (h : s.Clocked l) (clock : t.clock = s.clock) (point : t.point = s.point)
    (inst : t.inst = s.inst) (counter : t.osTickCounter = s.osTickCounter) : t.Clocked l := by
  have wait := Kernel.wait_of_clock clock
  have alloc := Kernel.taskAlloc_of_clock clock
  exact
  { spells := Kernel.links_of_clock clock ▸ h.spells
    mem := by
      simp only [Timed,point,wait]
      exact h.mem
    due := fun {u} hu => by
      simp only [Timed,point,wait] at hu ⊢
      exact h.due hu
    napping := point ▸ h.napping
    user := fun {u} hu => by
      rw [inst]
      exact h.user (point ▸ hu)
    roster := fun {u} hu => by
      simp only [Core.Installed,alloc]
      exact h.roster (inst ▸ hu)
    counter := counter ▸ h.counter }

variable (s) in
theorem deadline_lt (now : s.osTickCounter < cfg.tickCountOverflow) {w : ℕ}
    (small : w ≤ cfg.tickCountOverflow) : s.deadline w < cfg.tickCountOverflow := by
  rw [Kernel.deadline_eq now small]
  exact Nat.mod_lt _ (by omega)

/-- The other tasks keep their points and times. -/
theorem timed_of_ne {k : Kernel cfg} {t u d : ℕ} {p : Point} (other : u ≠ t)
    (wait : k.wait = Function.update s.wait t d) :
    (({ s with toKernel := k } : System cfg).setPoint t p).Timed u ↔ s.Timed u := by
  have same : k.wait u = s.wait u := by rw [wait,Function.update_of_ne other]
  simp only [Timed,setPoint,Function.update_of_ne other,same]

/-- A task comes to wait, or ends its wait; the other tasks keep their places. -/
theorem Clocked.move (h : s.Clocked l) {k : Kernel cfg} {p : Point} {m : List ℕ} {d : ℕ}
    (wait : k.wait = Function.update s.wait s.currentTask d) (alloc : k.taskAlloc = s.taskAlloc)
    (counter : k.osTickCounter = s.osTickCounter) (spells : k.links.Spells m)
    (others : ∀ u, u ≠ s.currentTask → (u ∈ m ↔ u ∈ l))
    (self : s.currentTask ∈ m ↔ p.limit ≠ 0 ∧ d ≠ cfg.exitByTimeout)
    (due : p.limit ≠ 0 → d ≠ cfg.exitByTimeout → d < cfg.tickCountOverflow)
    (napping : p ≠ .delay 0) (user : p ≠ .run → s.inst s.currentTask ≠ 0) :
    (({ s with toKernel := k } : System cfg).setPoint s.currentTask p).Clocked m := by
  have mine : (({ s with toKernel := k } : System cfg).setPoint s.currentTask p).Timed s.currentTask ↔
      p.limit ≠ 0 ∧ d ≠ cfg.exitByTimeout := by
    have time : k.wait s.currentTask = d := by rw [wait,Function.update_self]
    simp only [Timed,setPoint,Function.update_self,time]
  exact
  { spells := spells
    mem := fun {u} => by
      by_cases e : u = s.currentTask
      · rw [e,self,mine]
      · rw [others u e,timed_of_ne e wait,h.mem]
    due := fun {u} hu => by
      change k.wait u < _
      by_cases e : u = s.currentTask
      · rw [e] at hu ⊢
        have limits := mine.mp hu
        rw [wait,Function.update_self]
        exact due limits.1 limits.2
      · rw [wait,Function.update_of_ne e]
        exact h.due ((timed_of_ne e wait).mp hu)
    napping := fun {u} => by
      by_cases e : u = s.currentTask
      · subst e
        simpa [setPoint] using napping
      · simpa [setPoint,e] using h.napping (t := u)
    user := fun {u} hu => by
      by_cases e : u = s.currentTask
      · subst e
        exact user (by simpa [setPoint] using hu)
      · exact h.user (by simpa [setPoint,e] using hu)
    roster := fun {u} hu => by
      simp only [Core.Installed,setPoint,alloc]
      exact h.roster hu
    counter := counter ▸ h.counter }

/-- The running task starts a wait. -/
theorem Clocked.sleep (h : s.Clocked l) {k : Kernel cfg} {p : Point} (slept : s.toKernel.Asleep k p.limit)
    (small : p.limit ≤ cfg.tickCountOverflow) (napping : p ≠ .delay 0)
    (run : s.point s.currentTask = .run) (user : s.inst s.currentTask ≠ 0) (counter : k.osTickCounter = s.osTickCounter) :
    (({ s with toKernel := k } : System cfg).setPoint s.currentTask p).Clocked
      (if p.limit = 0 then l else l ++ [s.currentTask]) := by
  have new : s.currentTask ∉ l := fun hm => by
    have timed := (h.mem.mp hm).1
    simp [run,Point.limit] at timed
  have links := slept.links
  have wait := slept.wait
  split_ifs at links wait ⊢ with h0
  · exact h.move wait slept.taskAlloc counter (links ▸ h.spells) (fun _ _ => Iff.rfl)
      (iff_of_false new fun limits => limits.1 h0) (fun limited => absurd h0 limited) napping
      fun _ => user
  · have early := s.deadline_lt h.counter small
    have apart : s.deadline p.limit ≠ cfg.exitByTimeout := by
      have := cfg.overflow_lt_exit
      omega
    exact h.move wait slept.taskAlloc counter (links ▸ h.spells.push new)
      (fun u e => by simp [e]) (iff_of_true (by simp) ⟨h0,apart⟩) (fun _ _ => early) napping
      fun _ => user

/-- A suspended task runs again. Where its limit has not passed it leaves the list. -/
theorem Clocked.wake (h : s.Clocked l) {k : Kernel cfg} (counter : k.osTickCounter = s.osTickCounter)
    (alloc : k.taskAlloc = s.taskAlloc)
    (gone : k.links = s.links ∧ k.wait = s.wait ∧ ¬ s.Timed s.currentTask ∨
      k.links = s.links.remove s.currentTask ∧
        k.wait = Function.update s.wait s.currentTask cfg.noTimeout ∧ s.Timed s.currentTask) :
    ∃ m, (({ s with toKernel := k } : System cfg).setPoint s.currentTask .run).Clocked m := by
  rcases gone with ⟨links,wait,far⟩ | ⟨links,wait,timed⟩
  · refine ⟨l,h.move (d := s.wait s.currentTask) (by rw [wait,Function.update_eq_self]) alloc counter
      (links ▸ h.spells) (fun _ _ => Iff.rfl) ?_ ?_ (by simp) ?_⟩
    · exact iff_of_false (mt h.mem.mp far) fun limits => limits.1 rfl
    · exact fun limited => absurd rfl limited
    · exact fun he => absurd rfl he
  · obtain ⟨a,b,split⟩ := List.append_of_mem (h.mem.mpr timed)
    have nodup := split ▸ h.spells.nodup
    refine ⟨a ++ b,h.move wait alloc counter (links ▸ h.spells.remove split) (fun u e => ?_) ?_ ?_
      (by simp) ?_⟩
    · simp [split,e]
    · exact iff_of_false (List.nodup_cons.mp (List.nodup_middle.mp nodup)).1 fun limits => limits.1 rfl
    · exact fun limited => absurd rfl limited
    · exact fun he => absurd rfl he

/-! ### The steps -/

theorem resumePend_clock (o : Obj) (p w : ℕ) :
    (s.resumePend o p w).1.clock = (s.osEnterCritical.wakeUp o p w).1.clock ∧
      (s.resumePend o p w).1.osTickCounter = s.osTickCounter := by
  cases o with
  | sem i =>
    obtain ⟨core,shell⟩ := resumeSemPend_core (s := s) i p w
    exact ⟨Kernel.clock_congr core,
      Kernel.osTickCounter_of_vital (k := (s.resumeSemPend i p w).1) (Kernel.vital_of_shell shell)⟩
  | mbox i =>
    obtain ⟨core,vital⟩ := resumeMboxPend_core (s := s) i p w
    exact ⟨Kernel.clock_congr core,
      Kernel.osTickCounter_of_vital (k := (s.resumeMboxPend i p w).1) (by simpa using vital)⟩
  | queue i =>
    obtain ⟨core,vital⟩ := resumeQueuePend_core (s := s) .static i p w
    exact ⟨Kernel.clock_congr core,
      Kernel.osTickCounter_of_vital (k := (s.resumeQueuePend .static i p w).1) (by simpa using vital)⟩
  | dqueue i =>
    obtain ⟨core,vital⟩ := resumeQueuePend_core (s := s) .dynamic i p w
    exact ⟨Kernel.clock_congr core,
      Kernel.osTickCounter_of_vital (k := (s.resumeQueuePend .dynamic i p w).1) (by simpa using vital)⟩
  | mutex i =>
    refine ⟨?_,Kernel.osTickCounter_of_vital (k := (s.resumeMutexAcquire i p w).1) ?_⟩
    · simp only [Kernel.resumePend,Kernel.resumeMutexAcquire]
      split_ifs <;> simp
    · refine Kernel.vital_of_shell ?_
      simp only [Kernel.resumeMutexAcquire]
      split_ifs <;> simp

/-- The task behind ChangeContext takes itself off the list, unless the tick handler has done so. -/
theorem wakeUp_clock (h : s.Clocked l) {o : Obj} {p w : ℕ}
    (point : s.point s.currentTask = .pend o p w) {k : Kernel cfg}
    (clock : k.clock = (s.osEnterCritical.wakeUp o p w).1.clock) : k.taskAlloc = s.taskAlloc ∧
      (k.links = s.links ∧ k.wait = s.wait ∧ ¬ s.Timed s.currentTask ∨
        k.links = s.links.remove s.currentTask ∧
          k.wait = Function.update s.wait s.currentTask cfg.noTimeout ∧ s.Timed s.currentTask) := by
  have same : k.clock = s.clock → k.taskAlloc = s.taskAlloc ∧ k.links = s.links ∧ k.wait = s.wait :=
    fun e => ⟨Kernel.taskAlloc_of_clock e,Kernel.links_of_clock e,Kernel.wait_of_clock e⟩
  simp only [Kernel.wakeUp] at clock
  split_ifs at clock with h0 late waits
  · obtain ⟨alloc,links,wait⟩ := same clock
    exact ⟨alloc,Or.inl ⟨links,wait,fun timed => timed.1 (by simp [point,Point.limit,h0])⟩⟩
  · obtain ⟨alloc,links,wait⟩ := same clock
    exact ⟨alloc,Or.inl ⟨links,wait,fun timed => timed.2 late⟩⟩
  · obtain ⟨alloc,links,wait⟩ := same clock
    exact ⟨alloc,Or.inl ⟨links,wait,fun timed => timed.2 late⟩⟩
  · have timed : s.Timed s.currentTask := ⟨by simpa [point,Point.limit] using h0,late⟩
    have spells : (s.osEnterCritical.setTimeToWait s.currentTask cfg.noTimeout).links.Spells l := by
      rw [Kernel.setTimeToWait_links]
      exact h.spells
    refine ⟨?_,Or.inr ⟨?_,?_,timed⟩⟩
    · rw [Kernel.taskAlloc_of_clock clock]
      exact Kernel.removeFromDelayList_taskAlloc _
    · rw [Kernel.links_of_clock clock]
      refine (Kernel.remove_links spells (h.mem.mpr timed)).trans ?_
      rw [Kernel.setTimeToWait_links]
      rfl
    · rw [Kernel.wait_of_clock clock]
      refine (Kernel.removeFromDelayList_wait _).trans ?_
      rw [Kernel.setTimeToWait_wait]
      rfl

/-- Only OSInstallTask gives a handle a priority. -/
theorem nextInst_eq (c : Call) (code : ℕ) (data : List ℕ) (old : ∀ f n p, c ≠ .install f n p) :
    s.nextInst c code data = s.inst := by
  cases c with
  | install f n p => exact absurd rfl (old f n p)
  | _ => rfl

variable (s) in
/-- A task that runs again behind OSDelayTask has been woken by its timeout. -/
def Punctual : Action → Prop
  | .resume => match s.point s.currentTask with
    | .delay _ => s.wait s.currentTask = cfg.exitByTimeout
    | _ => True
  | _ => True

instance (a : Action) : Decidable (s.Punctual a) := by
  unfold Punctual
  split
  · split <;> infer_instance
  · infer_instance

theorem Clocked.resume (h : s.Clocked l) (punctual : s.Punctual .resume)
    (next : s.proceed = some t) : ∃ m, t.Clocked m := by
  unfold proceed at next
  cases point : s.point s.currentTask with
  | run => simp [point] at next
  | delay w =>
    simp only [point,Option.some.injEq] at next
    subst next
    have late : s.wait s.currentTask = cfg.exitByTimeout := by
      simpa [Punctual,point] using punctual
    obtain ⟨m,hm⟩ := h.wake (k := s.toKernel) rfl rfl (Or.inl ⟨rfl,rfl,fun timed => timed.2 late⟩)
    exact ⟨m,hm.same rfl rfl rfl rfl⟩
  | pend o p w =>
    simp only [point,Option.some.injEq] at next
    subst next
    obtain ⟨clock,counter⟩ := resumePend_clock (s := s) o p w
    obtain ⟨alloc,gone⟩ := wakeUp_clock h point clock
    obtain ⟨m,hm⟩ := h.wake counter alloc gone
    exact ⟨m,hm.same rfl rfl (nextInst_eq _ _ _ (by cases o <;> simp [Obj.pendCall])) rfl⟩

/-- A new task is not on the list, and its links are cleared. -/
theorem Clocked.install (h : s.Clocked l) {i n p : ℕ} {k : Kernel cfg} (began : k.clock = s.clock)
    (free : k.findTcb = some i)
    (clock : t.clock = (k.installInto (i+1) n p).clock)
    (counter : t.osTickCounter = s.osTickCounter) (point : t.point = s.point)
    (inst : t.inst = Function.update s.inst (i+1) p) : t.Clocked l := by
  obtain ⟨lt,fresh⟩ := findTcb_free free
  have small := cfg.tasks_le
  have alloc := Kernel.taskAlloc_of_clock began
  have new : ¬ s.Installed (i+1) := by
    simp only [Core.Installed,alloc] at fresh ⊢
    exact fresh
  have run : s.point (i+1) = .run := by_contra fun hp => new (h.roster (h.user hp))
  have apart : ∀ u ∈ l, u ≠ i+1 := by
    rintro u hu rfl
    simpa [Timed,run,Point.limit] using h.mem.mp hu
  have wait : t.wait = Function.update s.wait (i+1) cfg.noTimeout := by
    rw [Kernel.wait_of_clock clock,Kernel.installInto_wait,Kernel.wait_of_clock began]
  have links := Kernel.links_of_clock clock
  have roster : t.Installed = fun u => s.Installed u ∨ u = i+1 := by
    have alloc' : t.taskAlloc = k.taskAlloc ||| BitVec.twoPow 32 (i+1-1) :=
      Kernel.taskAlloc_of_clock clock
    have installed := k.installed_or (i+1) ⟨by omega,by omega⟩
    funext u
    have same := congrFun installed u
    simp only [Core.Installed,alloc',alloc] at same ⊢
    exact same
  have timed : ∀ u, t.Timed u ↔ s.Timed u := fun u => by
    by_cases e : u = i+1
    · subst e
      simp [Timed,point,run,Point.limit]
    · simp only [Timed,point,wait,Function.update_of_ne e]
  exact
  { spells := by
      rw [links]
      refine (Kernel.links_of_clock began ▸ h.spells).congr rfl rfl (fun u hu => ?_) fun u hu => ?_
      · simp [Kernel.links,Kernel.installInto,Kernel.setReady,Kernel.setTask,
          Kernel.setPriorityVector,apart u hu]
      · simp [Kernel.links,Kernel.installInto,Kernel.setReady,Kernel.setTask,
          Kernel.setPriorityVector,apart u hu]
    mem := fun {u} => by rw [timed,h.mem]
    due := fun {u} hu => by
      have old := (timed u).mp hu
      have e : u ≠ i+1 := apart u (h.mem.mpr old)
      rw [wait,Function.update_of_ne e]
      exact h.due old
    napping := point ▸ h.napping
    user := fun {u} hu => by
      rw [point] at hu
      have e : u ≠ i+1 := by
        rintro rfl
        exact hu run
      rw [inst,Function.update_of_ne e]
      exact h.user hu
    roster := fun {u} hu => by
      rw [roster]
      by_cases e : u = i+1
      · exact Or.inr e
      · rw [inst,Function.update_of_ne e] at hu
        exact Or.inl (h.roster hu)
    counter := counter ▸ h.counter }

theorem Clocked.enter (h : s.Clocked l) (who : Option ℕ) {c : Call} (time : c.InTime cfg)
    (caller : ∀ p, (s.serve c).2 = .sleep p →
      s.point s.currentTask = .run ∧ s.inst s.currentTask ≠ 0) : ∃ m, (s.enter who c).Clocked m := by
  have counter := Kernel.osTickCounter_of_vital (s.serve_vital c)
  cases reply : (s.serve c).2 with
  | sleep p =>
    obtain ⟨run,user⟩ := caller p reply
    obtain ⟨slept,small,napping⟩ := serve_asleep h.spells reply time
    rw [enter_sleep reply]
    exact ⟨_,h.sleep slept small napping run user counter⟩
  | ret code data =>
    by_cases new : ∃ f n p, c = .install f n p
    · obtain ⟨f,n,p,rfl⟩ := new
      rcases osInstallTask_cases s.toKernel f n p with
        ⟨code',hc,he⟩ | ⟨i,size,free,_,_,_,he⟩
      · have failed : s.serve (.install f n p) = (s.enterTask.exitTask,.ret code' []) := by
          simp only [Kernel.serve,he,Option.toList]
        rw [failed] at reply
        obtain ⟨rfl,rfl⟩ := Reply.ret.inj reply
        rw [enter_ret (congrArg Prod.snd failed)]
        exact ⟨l,h.same (by rw [returned_toKernel,failed]; simp) rfl rfl counter⟩
      · have done : s.serve (.install f n p) =
            ((s.enterTask.installInto (i+1) size p).exitTask,.ret ok [i+1]) := by
          simp only [Kernel.serve,he,Option.toList]
        rw [done] at reply
        obtain ⟨rfl,rfl⟩ := Reply.ret.inj reply
        rw [enter_ret (congrArg Prod.snd done)]
        exact ⟨l,h.install (k := s.enterTask) (by simp) free
          (by rw [returned_toKernel,done]; exact Kernel.exitTask_clock _) counter rfl rfl⟩
    · have old : ∀ f n p, c ≠ .install f n p := fun f n p e => new ⟨f,n,p,e⟩
      rw [enter_ret reply]
      exact ⟨l,h.same (serve_returns reply old) rfl (nextInst_eq c code data old) counter⟩

/-- The tick handler visits each task of the list once, in their order, and takes those off whose
deadline the counter has reached. -/
theorem Clocked.tick (h : s.Clocked l) (fuel : ℕ) :
    s.tick fuel = (if l.length ≤ fuel then some (l.foldl Kernel.visit s.osIncCounter) else none) ∧
      ({ s with toKernel := l.foldl Kernel.visit s.osIncCounter } : System cfg).Clocked
        (l.filter fun t => s.wait t ≠ s.osIncCounter.osTickCounter) := by
  have begun : s.osIncCounter.links.Spells ([] ++ l) := h.spells
  obtain ⟨loop,spells,wait⟩ := Kernel.tickLoop_visits begun fuel
  have first : l.head? = s.osIncCounter.head := h.spells.first.symm
  have counter : (l.foldl Kernel.visit s.osIncCounter).osTickCounter = s.osIncCounter.osTickCounter :=
    foldl_keeps (g := fun k : Kernel cfg => k.osTickCounter) (fun _ t => Kernel.visit_counter t) l _
  have alloc : (l.foldl Kernel.visit s.osIncCounter).taskAlloc = s.taskAlloc :=
    foldl_keeps (g := fun k : Kernel cfg => k.taskAlloc) (fun _ t => Kernel.visit_taskAlloc t) l
      s.osIncCounter
  refine ⟨?_,?_⟩
  · rw [first] at loop
    exact loop
  exact
  { spells := spells
    mem := fun {u} => by
      have time := wait u
      simp only [List.mem_filter,decide_eq_true_eq,h.mem,Timed] at time ⊢
      change _ ↔ _ ∧ (l.foldl Kernel.visit s.osIncCounter).wait u ≠ _
      rw [time]
      constructor
      · rintro ⟨⟨limited,open_⟩,early⟩
        refine ⟨limited,?_⟩
        rw [if_neg fun due => early due.2]
        exact open_
      · rintro ⟨limited,open_⟩
        split_ifs at open_ with due
        · exact absurd rfl open_
        · have timed : s.Timed u := ⟨limited,open_⟩
          exact ⟨timed,fun late => due ⟨timed,late⟩⟩
    due := fun {u} hu => by
      obtain ⟨limited,open_⟩ := hu
      change (l.foldl Kernel.visit s.osIncCounter).wait u < _
      change (l.foldl Kernel.visit s.osIncCounter).wait u ≠ _ at open_
      rw [wait u] at open_ ⊢
      split_ifs at open_ ⊢ with due
      · exact absurd rfl open_
      · exact h.due ⟨limited,open_⟩
    napping := h.napping
    user := h.user
    roster := fun {u} hu => by
      simp only [Core.Installed,alloc]
      exact h.roster hu
    counter := by
      rw [counter,Kernel.osIncCounter_eq h.counter]
      exact Nat.mod_lt _ (by have := h.counter; omega) }

theorem brtosStart_counter (s : System cfg) : s.brtosStart.1.osTickCounter = s.osTickCounter := by
  have served := Kernel.osTickCounter_of_vital (s.serve_vital (.install .idle cfg.idleStackSize 0))
  simp only [Kernel.brtosStart]
  split_ifs <;> exact served

theorem Clocked.start (h : s.Clocked l) :
    ({ s with toKernel := s.brtosStart.1, started := s.brtosStart.2 == ok } : System cfg).Clocked l := by
  have counter := brtosStart_counter s
  rcases osInstallTask_cases s.toKernel .idle cfg.idleStackSize 0 with
    ⟨code,hc,he⟩ | ⟨i,size,free,_,_,_,he⟩
  · have failed : s.brtosStart.1 = s.enterTask.exitTask := by
      simp only [Kernel.brtosStart,he,ne_eq,hc,not_false_eq_true,if_true]
    exact h.same (by rw [failed]; simp) rfl rfl counter
  · have done : s.brtosStart.1.clock = (s.enterTask.installInto (i+1) size 0).clock := by
      simp only [Kernel.brtosStart,he,ne_eq,not_true_eq_false,if_false]
      exact Kernel.exitTask_clock _
    have fresh := (findTcb_free free).2
    have blank : s.inst (i+1) = 0 := by
      by_contra user
      refine fresh ?_
      simpa [Core.Installed] using h.roster user
    refine h.install (k := s.enterTask) (p := 0) (by simp) free done counter rfl ?_
    rw [← blank,Function.update_eq_self]

theorem Clocked.uartState (h : s.Clocked l) {fuel : ℕ} (begun : s.uartState fuel = some t) :
    ∃ m, t.Clocked m := by
  have cleared : ({ s with toKernel := s.clearInterrupt Kernel.interruptSwc } : System cfg).Clocked l :=
    h.same rfl rfl rfl rfl
  unfold System.uartState at begun
  dsimp only at begun
  split_ifs at begun
  · obtain ⟨k,hk,rfl⟩ := Option.map_eq_some_iff.mp begun
    obtain ⟨ticked,clocked⟩ := cleared.tick fuel
    rw [ticked] at hk
    split_ifs at hk
    obtain rfl := Option.some.inj hk
    exact ⟨_,clocked.same rfl rfl rfl rfl⟩
  · exact ⟨l,Option.some.inj begun ▸ cleared⟩

/-- One round of the simulator's handler thread. -/
theorem Clocked.process (h : s.Clocked l) {fuel i b : ℕ} (next : s.process fuel i b = some t) :
    ∃ m, t.Clocked m := by
  rw [process_eq] at next
  obtain ⟨u,begun,rfl⟩ := Option.map_eq_some_iff.mp next
  obtain ⟨m,ticked⟩ := h.uartState begun
  dsimp only
  split_ifs
  · obtain ⟨m,posted⟩ := ticked.enter none (c := .queuePost i b) trivial
      fun p hp => absurd hp (osQueuePost_awake i b p)
    exact ⟨m,posted.same rfl rfl rfl rfl⟩
  · exact ⟨m,ticked.same rfl rfl rfl rfl⟩

theorem Clocked.step (h : s.Clocked l) (dormant : s.Dormant) {a : Action} (time : a.InTime cfg)
    (punctual : s.Punctual a) (next : s.step a = some t) : ∃ m, t.Clocked m := by
  cases a with
  | main c =>
    simp only [System.step] at next
    split_ifs at next with hg
    obtain rfl := Option.some.inj next
    exact h.enter none time fun p hp => absurd (dormant hg.1).1 ((serve_sleeps hp).2.2.1 hg.2)
  | start =>
    simp only [System.step] at next
    split_ifs at next with hg
    obtain rfl := Option.some.inj next
    exact ⟨l,h.start⟩
  | call c =>
    simp only [System.step] at next
    split_ifs at next with hg
    obtain rfl := Option.some.inj next
    exact h.enter _ time fun _ _ => hg.2
  | resume =>
    simp only [System.step] at next
    split_ifs at next
    exact h.resume punctual next
  | isrTick fuel =>
    simp only [System.step] at next
    split_ifs at next
    obtain ⟨k,hk,rfl⟩ := Option.map_eq_some_iff.mp next
    obtain ⟨ticked,clocked⟩ := h.tick fuel
    rw [ticked] at hk
    split_ifs at hk
    obtain rfl := Option.some.inj hk
    exact ⟨_,clocked⟩
  | isrCall c =>
    simp only [System.step] at next
    split_ifs at next with hg
    obtain rfl := Option.some.inj next
    refine h.enter none time fun p hp => ?_
    simpa [hg.2.2.2] using (serve_sleeps hp).2.1
  | isrEnter | switch | raise =>
    simp only [System.step] at next
    split_ifs at next
    obtain rfl := Option.some.inj next
    exact ⟨l,h.same rfl rfl rfl rfl⟩
  | isrExit =>
    simp only [System.step] at next
    split_ifs at next
    all_goals
      obtain rfl := Option.some.inj next
      exact ⟨l,h.same rfl rfl rfl rfl⟩
  | process fuel i b =>
    simp only [System.step] at next
    split_ifs at next
    exact h.process next

theorem init_clocked : (init cfg).Clocked [] where
  spells := Links.spells_nil rfl rfl
  mem := by simp [Timed,init,Point.limit]
  due hu := absurd rfl hu.1
  napping := by simp [init]
  user hu := absurd rfl hu
  roster hu := absurd rfl hu
  counter := by
    have := cfg.timer_large
    change 0 < cfg.tickCountOverflow
    simp only [Config.tickCountOverflow]
    omega

/-- Head, Tail, Next and Previous spell the tasks that wait with a limit that has not passed, each
once, from both ends. -/
structure Listed (s : System cfg) (l : List ℕ) : Prop where
  spells : s.links.Spells l
  forward {n : ℕ} : l.length < n → walk (fun t => (s.contextTask t).next) n s.head = l
  backward {n : ℕ} : l.length < n → walk (fun t => (s.contextTask t).previous) n s.tail = l.reverse
  mem {t : ℕ} : t ∈ l ↔ s.Timed t

theorem Clocked.listed (h : s.Clocked l) : s.Listed l where
  spells := h.spells
  forward long := h.spells.forward long
  backward long := h.spells.backward long
  mem := h.mem

/-- A task that comes back from OSDelayTask before its time is left on the list. -/
theorem Clocked.unpunctual (h : s.Clocked l) {a : Action} (early : ¬ s.Punctual a)
    (next : s.step a = some t) {m : List ℕ} : ¬ t.Listed m := by
  intro listed
  unfold Punctual at early
  split at early
  · split at early
    · rename_i w point
      simp only [System.step] at next
      split_ifs at next
      unfold proceed at next
      simp only [point,Option.some.injEq] at next
      subst next
      have mem : s.currentTask ∈ l := by
        refine h.mem.mpr ⟨?_,early⟩
        rw [point]
        rintro rfl
        exact h.napping point
      have run := (listed.mem.mp (listed.spells.unique h.spells ▸ mem)).1
      simp [setPoint,returned,Point.limit] at run
    · exact early trivial
  · exact early trivial

/-- In every run, whatever the services are called with, whose waits are as long as documented and in
which no task comes back from OSDelayTask before its time, the delay list is made of the tasks that
wait with a limit that has not passed; a running task is not on it, and a tick visits each member
once. A step that brings a task back early breaks the list. -/
theorem listed_of_punctual
    (run : Run.Reach step (fun s a => a.InTime cfg ∧ s.Punctual a) (init cfg) s) :
    ∃ l, s.Listed l ∧ (s.point s.currentTask = .run → s.currentTask ∉ l) ∧
      (∀ fuel, s.tick fuel =
        if l.length ≤ fuel then some (l.foldl Kernel.visit s.osIncCounter) else none) ∧
      ({ s with toKernel := l.foldl Kernel.visit s.osIncCounter } : System cfg).Listed
        (l.filter fun t => s.wait t ≠ s.osIncCounter.osTickCounter) ∧
      ∀ a t, a.InTime cfg → s.step a = some t → ((∃ m, t.Listed m) ↔ s.Punctual a) := by
  have clocked : ∃ l, s.Clocked l := by
    induction run with
    | refl => exact ⟨[],init_clocked⟩
    | tail run met next ih =>
      obtain ⟨l,h⟩ := ih
      exact h.step (dormant_of_reach run) met.1 met.2 next
  obtain ⟨l,h⟩ := clocked
  refine ⟨l,h.listed,fun running hm => ?_,fun fuel => (h.tick fuel).1,(h.tick 0).2.listed,?_⟩
  · simpa [running,Point.limit] using (h.mem.mp hm).1
  · intro a t time next
    constructor
    · rintro ⟨m,listed⟩
      by_contra early
      exact h.unpunctual early next listed
    · intro punctual
      obtain ⟨m,hm⟩ := h.step (dormant_of_reach run) time punctual next
      exact ⟨m,hm.listed⟩

/-- A task that has been posted to stays on the list with one that delays. -/
theorem listed_run : ∃ (s : System .port) (l : List ℕ), s.Listed l ∧ 3 ∈ l ∧ 2 ∈ l ∧ 1 ∉ l ∧
    5 ∈ Bitmap.bits s.osReadyList := by
  obtain ⟨s,run,posted,delayed,running,ready⟩ := Run.exists_reach_of_exec step
    (fun s a => a.InTime .port ∧ s.Punctual a) (init .port)
    [.main (.install (.user 1) 16 3),.main (.install (.user 2) 16 4),.main (.install (.user 3) 16 5),
      .main (.semCreate 0),.start,.call (.semPend 0 5),.switch,.call (.delayTask 7),.switch,
      .isrEnter,.isrTick 2,.isrCall (.semPost 0)]
    (fun s => s.Timed 3 ∧ s.Timed 2 ∧ ¬ s.Timed 1 ∧ 5 ∈ Bitmap.bits s.osReadyList)
    (by decide +kernel)
  obtain ⟨l,listed,_⟩ := listed_of_punctual run
  exact ⟨s,l,listed,listed.mem.mpr posted,listed.mem.mpr delayed,mt listed.mem.mp running,ready⟩

/-- A release that restores the ceiling of a mutex given back before gives two tasks one priority:
the timeout of one brings the other back from its delay, and it runs while it is on the list. -/
theorem listed_fails : ∃ s : System .port,
    Run.Reach step (fun s a => a.InTime .port ∧ s.Lawful .oneCeiling a) (init .port) s ∧
      s.Running ∧ s.point s.currentTask = .run ∧ s.head = some s.currentTask :=
  Run.exists_reach_of_exec _ _ _
    [.main (.install (.user 1) 16 3),.main (.install (.user 2) 16 4),.main (.mutexCreate 5),
      .main (.mutexCreate 0),.start,.call (.delayTask 1),.switch,.call (.mutexAcquire 0 0),
      .call (.mutexAcquire 1 0),.call (.mutexRelease 0),.call (.mutexRelease 1),.call (.delayTask 3),
      .switch,.isrEnter,.isrTick 2,.isrExit,.resume,.call (.mutexAcquire 0 0),.call (.delayTask 9),
      .switch,.isrEnter,.isrTick 2,.isrTick 2,.isrExit,.resume] _ (by decide +kernel)

end System
end Brtos
