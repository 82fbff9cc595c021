import Brtos.Frame

/-! OSDelayTaskHMSM and the results of the delays that it is made of. -/
namespace Brtos

def invalidTime : ℕ := 5

/-- A call of OSDelayTask: its argument and its result. -/
structure DelayCall where
  timeWait : ℕ
  code : ℕ
  deriving DecidableEq

/-- What the other tasks and the interrupts do to the kernel before a call returns, by the number of calls
to come. The caller goes on in its own context. -/
structure Meanwhile (cfg : Config) where
  run : ℕ → Kernel cfg → Kernel cfg
  currentTask : ∀ n k, (run n k).currentTask = k.currentTask
  iNesting : ∀ n k, (run n k).iNesting = k.iNesting

namespace Meanwhile

/-- Nobody else runs. -/
def idle (cfg : Config) : Meanwhile cfg := ⟨fun _ k => k,fun _ _ => rfl,fun _ _ => rfl⟩

end Meanwhile

namespace Kernel
variable {cfg : Config} {k : Kernel cfg} {m : Meanwhile cfg} {rate : ℕ}

/-- `(void)DelayTask(w)`, with the conversion of its argument to ostick_t. -/
def delayCall (k : Kernel cfg) (w : ℕ) : Kernel cfg × DelayCall :=
  let w := w%(cfg.maxTimer+1)
  ((k.osDelayTask w).1,⟨w,(k.osDelayTask w).2.1⟩)

/-- The loop over the full chunks. -/
def delayLoops (m : Meanwhile cfg) : ℕ → Kernel cfg → Kernel cfg × List DelayCall
  | 0,k => (k,[])
  | loops+1,k =>
    let first := k.delayCall 60000
    let rest := delayLoops m loops (m.run loops first.1)
    (rest.1,first.2 :: rest.2)

/-- The sum, each product and the result in uint32_t. -/
def ticksOf (rate hours minutes seconds miliseconds : ℕ) : ℕ :=
  (hours*3600%2^32*rate%2^32+minutes*60%2^32*rate%2^32+seconds*rate%2^32+
    miliseconds*rate%2^32/1000)%2^32

/-- OSDelayTaskHMSM, with the delays that it has called. -/
def osDelayTaskHMSM (m : Meanwhile cfg) (rate : ℕ) (k : Kernel cfg) (hours minutes seconds miliseconds : ℕ) :
    Kernel cfg × ℕ × List DelayCall :=
  if minutes > 59 then (k,invalidTime,[])
  else if seconds > 59 then (k,invalidTime,[])
  else if miliseconds > 999 then (k,invalidTime,[])
  else
    let ticks := ticksOf rate hours minutes seconds miliseconds
    if ticks > 0 then
      let loops := ticks/60000
      let first := k.delayCall (ticks%60000%65536)
      let rest := delayLoops m loops (m.run loops first.1)
      (rest.1,ok,first.2 :: rest.2)
    else (k,noTaskDelay,[])

/-- OSDelayTask accepts its caller: a task, outside of interrupt handlers. -/
def InTask (k : Kernel cfg) : Prop := k.iNesting = 0 ∧ k.currentTask ≠ 0

instance (k : Kernel cfg) : Decidable k.InTask := inferInstanceAs (Decidable (_ ∧ _))

@[simp] theorem setNext_iNesting (k : Kernel cfg) (p q : Option ℕ) : (k.setNext p q).iNesting = k.iNesting := by
  cases p <;> rfl

@[simp] theorem setPrevious_iNesting (k : Kernel cfg) (p q : Option ℕ) :
    (k.setPrevious p q).iNesting = k.iNesting := by
  cases p <;> rfl

theorem includeTaskIntoDelayList_iNesting (k : Kernel cfg) (t : ℕ) :
    (k.includeTaskIntoDelayList t).iNesting = k.iNesting := by
  simp only [includeTaskIntoDelayList]
  split_ifs <;> simp

theorem osDelayTask_iNesting (k : Kernel cfg) (w : ℕ) : (k.osDelayTask w).1.iNesting = k.iNesting := by
  simp only [osDelayTask]
  split_ifs with busy none zero
  · rfl
  · rfl
  · rfl
  · have calm : k.iNesting = 0 := Nat.eq_zero_of_not_pos busy
    simp only [osExitCritical,changeContext,clearReady,includeTaskIntoDelayList_iNesting,setTimeToWait,
      setTask,osEnterCritical,calm]
    split_ifs <;> rfl

theorem osDelayTask_currentTask (k : Kernel cfg) (w : ℕ) :
    (k.osDelayTask w).1.currentTask = k.currentTask :=
  currentTask_of_vital (k.serve_vital (.delayTask w))

/-- The caller of a delay is still a task, or still none. -/
theorem inTask_delayCall (k : Kernel cfg) (w : ℕ) : (k.delayCall w).1.InTask ↔ k.InTask := by
  simp only [InTask,delayCall,osDelayTask_iNesting,osDelayTask_currentTask]

theorem inTask_meanwhile (m : Meanwhile cfg) (n : ℕ) (k : Kernel cfg) : (m.run n k).InTask ↔ k.InTask := by
  simp only [InTask,m.iNesting,m.currentTask]

/-- OSDelayTask has refused the delay: an interrupt handler or no task was the caller. -/
def Refused (d : DelayCall) : Prop := d.code = irqPendErr ∨ d.code = notValidTask

theorem delayCall_refused (k : Kernel cfg) (w : ℕ) : Refused (k.delayCall w).2 ↔ ¬ k.InTask := by
  simp only [Refused,delayCall,osDelayTask,InTask]
  split_ifs with busy none zero
  · exact iff_of_true (.inl rfl) fun task => by omega
  · exact iff_of_true (.inr rfl) fun task => task.2 none
  all_goals
    have task : k.iNesting = 0 ∧ k.currentTask ≠ 0 := ⟨Nat.eq_zero_of_not_pos busy,none⟩
    exact iff_of_false (by simp [irqPendErr,notValidTask,noTaskDelay,ok]) (not_not.mpr task)

theorem delayCall_code (task : k.InTask) (w : ℕ) :
    (k.delayCall w).2.code = ok ∨ (k.delayCall w).2.timeWait = 0 := by
  have calm : ¬ 0 < k.iNesting := by
    rw [task.1]
    exact Nat.lt_irrefl 0
  simp only [delayCall,osDelayTask,calm,task.2,if_false]
  split_ifs with zero
  · exact .inr zero
  · exact .inl rfl

/-- Each chunk is a call of its own, in the caller's context. -/
theorem delayLoops_spec (large : 60000 ≤ cfg.maxTimer) (n : ℕ) (k : Kernel cfg) :
    ((delayLoops m n k).2.map DelayCall.timeWait).sum = n*60000 ∧
      ∀ d ∈ (delayLoops m n k).2, d.timeWait = 60000 ∧ (Refused d ↔ ¬ k.InTask) ∧
        (k.InTask → d.code = ok ∨ d.timeWait = 0) := by
  induction n generalizing k with
  | zero => simp [delayLoops]
  | succ n ih =>
    obtain ⟨sum,calls⟩ := ih (m.run n (k.delayCall 60000).1)
    rw [inTask_meanwhile,inTask_delayCall] at calls
    have whole : (k.delayCall 60000).2.timeWait = 60000 := Nat.mod_eq_of_lt (by omega)
    constructor
    · simp only [delayLoops,List.map_cons,List.sum_cons,whole,sum]
      omega
    · intro d hd
      rcases List.mem_cons.mp hd with rfl | later
      · exact ⟨whole,k.delayCall_refused 60000,fun task => delayCall_code task 60000⟩
      · exact calls d later

/-- The ticks of the requested time. -/
def requested (rate hours minutes seconds miliseconds : ℕ) : ℕ :=
  (hours*3600+minutes*60+seconds)*rate+miliseconds*rate/1000

/-- No product and no sum of the computation leaves uint32_t. -/
theorem ticksOf_eq {hours minutes seconds miliseconds : ℕ} (rated : rate = 100 ∨ rate = 1000)
    (h : hours ≤ 255) (hm : minutes ≤ 59) (hs : seconds ≤ 59) (hms : miliseconds ≤ 999) :
    ticksOf rate hours minutes seconds miliseconds = requested rate hours minutes seconds miliseconds := by
  rcases rated with rfl | rfl
  all_goals
    simp (disch := omega) only [ticksOf,requested,Nat.mod_eq_of_lt]
    omega

/-- What OSDelayTaskHMSM promises about a call that is to last for `total` ticks. -/
structure Honest (cfg : Config) (total : ℕ) (r : Kernel cfg × ℕ × List DelayCall) : Prop where
  done : r.2.1 = ok → ∀ d ∈ r.2.2, d.code = ok ∨ d.timeWait = 0
  bounded : r.2.1 = ok → ∀ d ∈ r.2.2, d.timeWait < cfg.tickCountOverflow
  exactly : r.2.1 = ok → (r.2.2.map DelayCall.timeWait).sum = total
  refused : (∃ d ∈ r.2.2, Refused d) → r.2.1 ≠ ok

/-- OSDelayTaskHMSM delays for the requested time or says so exactly when it is called by a task outside of
interrupt handlers, or for no tick at all. -/
theorem osDelayTaskHMSM_honest (m : Meanwhile cfg) (k : Kernel cfg) (hours minutes seconds miliseconds : ℕ)
    (wide : 65535 ≤ cfg.maxTimer) (rated : rate = 100 ∨ rate = 1000) (h : hours ≤ 255) (hm : minutes ≤ 59)
    (hs : seconds ≤ 59) (hms : miliseconds ≤ 999) :
    Honest cfg (requested rate hours minutes seconds miliseconds)
        (osDelayTaskHMSM m rate k hours minutes seconds miliseconds) ↔
      requested rate hours minutes seconds miliseconds = 0 ∨ k.InTask := by
  have ticks := ticksOf_eq rated h hm hs hms
  generalize requested rate hours minutes seconds miliseconds = total at *
  by_cases zero : total = 0
  · have none : osDelayTaskHMSM m rate k hours minutes seconds miliseconds = (k,noTaskDelay,[]) := by
      simp [osDelayTaskHMSM,ticks,zero,Nat.not_lt.mpr hm,Nat.not_lt.mpr hs,Nat.not_lt.mpr hms]
    rw [none]
    refine iff_of_true ⟨?_,?_,?_,?_⟩ (.inl zero) <;> simp [noTaskDelay,ok]
  · obtain ⟨first,called⟩ : ∃ first, k.delayCall (total%60000%65536) = first := ⟨_,rfl⟩
    have run : osDelayTaskHMSM m rate k hours minutes seconds miliseconds =
        ((delayLoops m (total/60000) (m.run (total/60000) first.1)).1,ok,
          first.2 :: (delayLoops m (total/60000) (m.run (total/60000) first.1)).2) := by
      simp [osDelayTaskHMSM,ticks,Nat.pos_of_ne_zero zero,called,Nat.not_lt.mpr hm,Nat.not_lt.mpr hs,
        Nat.not_lt.mpr hms]
    obtain ⟨sum,calls⟩ := delayLoops_spec (m := m) (by omega) (total/60000) (m.run (total/60000) first.1)
    have same : (m.run (total/60000) first.1).InTask ↔ k.InTask := by
      rw [inTask_meanwhile,← called,inTask_delayCall]
    have refusal : Refused first.2 ↔ ¬ k.InTask := called ▸ k.delayCall_refused _
    have rest : first.2.timeWait = total%60000 := by
      rw [← called]
      simp only [delayCall]
      rw [Nat.mod_eq_of_lt (by omega),Nat.mod_eq_of_lt (by omega)]
    have limit : 60000 < cfg.tickCountOverflow := by
      simp only [Config.tickCountOverflow]
      omega
    rw [run,or_iff_right zero]
    constructor
    · intro honest
      by_contra outside
      exact honest.refused ⟨first.2,List.mem_cons_self,refusal.mpr outside⟩ rfl
    · intro task
      refine ⟨fun _ d hd => ?_,fun _ d hd => ?_,fun _ => ?_,fun refusing => ?_⟩
      · rcases List.mem_cons.mp hd with rfl | later
        · exact called ▸ delayCall_code task _
        · exact (calls d later).2.2 (same.mpr task)
      · rcases List.mem_cons.mp hd with rfl | later
        · have := Nat.mod_lt total (by decide : 0 < 60000)
          omega
        · rwa [(calls d later).1]
      · rw [List.map_cons,List.sum_cons,sum,rest]
        omega
      · obtain ⟨d,hd,refused⟩ := refusing
        rcases List.mem_cons.mp hd with rfl | later
        · exact absurd task (refusal.mp refused)
        · exact absurd (same.mpr task) ((calls d later).2.1.mp refused)

/-- A task waits for two minutes and five seconds at a thousand ticks a second. -/
theorem osDelayTaskHMSM_honest_task :
    Honest .simulator 125000
      (osDelayTaskHMSM (.idle .simulator) 1000 { brtosInit .simulator with currentTask := 1 } 0 2 5 0) :=
  (osDelayTaskHMSM_honest (.idle .simulator) { brtosInit .simulator with currentTask := 1 } 0 2 5 0
    (by decide) (.inr rfl) (by decide) (by decide) (by decide) (by decide)).mpr (.inr (by decide))

/-- Before BRTOSStart there is no task: the delay of one second is refused, and the result is OK. -/
theorem osDelayTaskHMSM_not_honest :
    ¬ Honest .simulator 1000 (osDelayTaskHMSM (.idle .simulator) 1000 (brtosInit .simulator) 0 0 1 0) :=
  fun honest => honest.refused ⟨⟨1000,notValidTask⟩,by decide,.inr rfl⟩ rfl

end Kernel
end Brtos
