import Brtos.Roster

/-! Which priorities PriorityVector keeps: those of tasks and the ceilings of mutexes. -/
namespace Brtos

namespace Kernel
variable {cfg : Config} (k : Kernel cfg)

/-- PriorityVector, and what its entries stand for. -/
def ledger : (ℕ → ℕ) × BitVec 32 × (ℕ → ℕ) × (ℕ → ℕ) :=
  (k.priorityVector,k.taskAlloc,fun m => (k.event (.mutex m)).osEventAllocated,
    fun m => (k.brtosMutexTable m).osMaxPriority)

theorem ledger_congr {l : Kernel cfg} (h : k.roster = l.roster) : k.ledger = l.ledger := by
  simp only [roster,Prod.mk.injEq] at h
  simp only [ledger,h]

theorem setMutex_ledger (i : ℕ) (f : BrtosMutex → BrtosMutex)
    (h : (f (k.brtosMutexTable i)).osMaxPriority = (k.brtosMutexTable i).osMaxPriority) :
    (k.setMutex i f).ledger = k.ledger := by
  simp only [ledger,setMutex,map_update_same BrtosMutex.osMaxPriority _ _ _ h]

theorem passOn_ledger (i : ℕ) : (k.passOn i).ledger = k.ledger :=
  (setMutex_ledger _ i _ rfl).trans (ledger_congr _ (k.wakeHighest_roster _))

theorem restore_ledger (i : ℕ) : (k.restore i).ledger = k.ledger := by
  simp only [restore]
  split_ifs <;> rfl

/-! ### The entries of PriorityVector -/

/-- A reserved priority is that of a task or the ceiling of an allocated mutex; only allocated
mutexes have a ceiling. -/
structure Reserved (inst : ℕ → ℕ) : Prop where
  vector {p : ℕ} : 0 < p → p < cfg.width → k.priorityVector p ≠ emptyPrio →
    (∃ t, k.Installed t ∧ inst t = p) ∨
      ∃ m, (k.event (.mutex m)).osEventAllocated = 1 ∧ (k.brtosMutexTable m).osMaxPriority = p
  ceiling {m : ℕ} : 0 < (k.brtosMutexTable m).osMaxPriority →
    (k.event (.mutex m)).osEventAllocated = 1

variable {k} {inst g : ℕ → ℕ}

theorem Reserved.congr (h : k.Reserved inst) {l : Kernel cfg} (hl : l.ledger = k.ledger) :
    l.Reserved inst := by
  simp only [ledger,Prod.mk.injEq] at hl
  obtain ⟨slot,alloc,created,ceil⟩ := hl
  have created' := fun m => congrFun created m
  have ceil' := fun m => congrFun ceil m
  constructor
  · intro p h0 hp hs
    simp only [Core.Installed,alloc,created',ceil']
    exact h.vector h0 hp (slot ▸ hs)
  · intro m hm
    rw [created']
    exact h.ceiling (ceil' m ▸ hm)

theorem Reserved.same (h : k.Reserved inst) {l : Kernel cfg} (hl : l.roster = k.roster) :
    l.Reserved inst := h.congr (l.ledger_congr hl)

/-- The entry for the ceiling of a mutex may be written. -/
theorem Reserved.mark (h : k.Reserved inst) {m : ℕ} (hm : 0 < (k.brtosMutexTable m).osMaxPriority)
    (v : ℕ) : (k.setPriorityVector (k.brtosMutexTable m).osMaxPriority v).Reserved inst where
  vector {p} h0 hp hs := by
    by_cases e : p = (k.brtosMutexTable m).osMaxPriority
    · exact Or.inr ⟨m,h.ceiling hm,e.symm⟩
    · refine h.vector h0 hp ?_
      simpa [setPriorityVector,e] using hs
  ceiling := h.ceiling

theorem Reserved.raise (h : k.Reserved inst) (i p : ℕ) : (k.raise i p).Reserved inst := by
  have saved : (k.setMutex i fun m => { m with osOriginalPriority := p }).Reserved inst :=
    h.congr (k.setMutex_ledger i _ rfl)
  revert saved
  simp only [Kernel.raise]
  generalize k.setMutex i (fun m => { m with osOriginalPriority := p }) = l
  intro saved
  split_ifs with hc
  · have moved : (l.setTask l.currentTask fun c => { c with
        priority := (l.brtosMutexTable i).osMaxPriority }).Reserved inst := saved.congr rfl
    exact (moved.mark (m := i) (lt_of_le_of_lt (Nat.zero_le _) hc) _).congr rfl
  · exact saved

theorem Reserved.makeAvailable (h : k.Reserved inst) (i : ℕ) : (k.makeAvailable i).Reserved inst := by
  have freed : (k.setMutex i fun m => { m with osEventState := availableResource }).Reserved inst :=
    h.congr (k.setMutex_ledger i _ rfl)
  simp only [Kernel.makeAvailable]
  split_ifs with hc
  · exact freed.mark hc _
  · exact freed

theorem Reserved.install (h : k.Reserved inst) {t n p : ℕ} (range : 1 ≤ t ∧ t ≤ 32)
    (old : ∀ u, k.Installed u → g u = inst u) (new : p ≠ 0 → g t = p) :
    (k.installInto t n p).Reserved g where
  vector {q} h0 hq hs := by
    have joined : ∀ u, (k.installInto t n p).Installed u ↔ k.Installed u ∨ u = t := fun u =>
      iff_of_eq (congrFun (k.installed_or t range) u)
    by_cases e : q = p
    · exact Or.inl ⟨t,(joined t).mpr (Or.inr rfl),(new (by omega)).trans e.symm⟩
    · have hs' : k.priorityVector q ≠ emptyPrio := by
        simpa [installInto,setReady,setTask,setPriorityVector,e] using hs
      rcases h.vector h0 hq hs' with ⟨u,hu,hi⟩ | hm
      · exact Or.inl ⟨u,(joined u).mpr (Or.inl hu),(old u hu).trans hi⟩
      · exact Or.inr hm
  ceiling := h.ceiling

/-- A new mutex with the ceiling that was reserved for it. -/
theorem Reserved.create (h : k.Reserved inst) {i p : ℕ}
    (free : (k.event (.mutex i)).osEventAllocated ≠ 1) :
    ((((if 0 < p then k.setPriorityVector p mutexPrio else k).allocEvent (.mutex i)).setMutex i
      fun m => { m with osEventState := availableResource, osMaxPriority := p })).Reserved inst := by
  have slots : ∀ q, q ≠ p →
      (if 0 < p then k.setPriorityVector p mutexPrio else k).priorityVector q = k.priorityVector q := by
    intro q e
    split_ifs
    · simp [setPriorityVector,e]
    · rfl
  have rest : (if 0 < p then k.setPriorityVector p mutexPrio else k).event = k.event ∧
      (if 0 < p then k.setPriorityVector p mutexPrio else k).brtosMutexTable = k.brtosMutexTable ∧
      (if 0 < p then k.setPriorityVector p mutexPrio else k).taskAlloc = k.taskAlloc := by
    split_ifs <;> exact ⟨rfl,rfl,rfl⟩
  revert slots rest
  generalize (if 0 < p then k.setPriorityVector p mutexPrio else k) = l
  rintro slots ⟨event,mutex,alloc⟩
  constructor
  · intro q h0 hq hs
    by_cases e : q = p
    · exact Or.inr ⟨i,by simp [setMutex,allocEvent,setEvent],by simp [setMutex,e]⟩
    · rcases h.vector h0 hq (slots q e ▸ hs) with ⟨u,hu,hi⟩ | ⟨m,ha,hc⟩
      · refine Or.inl ⟨u,?_,hi⟩
        unfold Core.Installed at hu ⊢
        exact alloc ▸ hu
      · have hne : m ≠ i := fun e => free (e ▸ ha)
        exact Or.inr ⟨m,by simpa [setMutex,allocEvent,setEvent,hne,event] using ha,
          by simpa [setMutex,allocEvent,setEvent,hne,mutex] using hc⟩
  · intro m hm
    by_cases e : m = i
    · simp [setMutex,allocEvent,setEvent,e]
    · have hc : 0 < (k.brtosMutexTable m).osMaxPriority := by
        simpa [setMutex,allocEvent,setEvent,e,mutex] using hm
      simpa [setMutex,allocEvent,setEvent,e,event] using h.ceiling hc

theorem Reserved.delete (h : k.Reserved inst) {i : ℕ}
    (low : (k.brtosMutexTable i).osMaxPriority = 0) :
    ((k.freeEvent (.mutex i)).setMutex i fun _ => ⟨0,0,0,0⟩).Reserved inst where
  vector {p} h0 hp hs := by
    rcases h.vector h0 hp hs with ht | ⟨m,ha,hc⟩
    · exact Or.inl ht
    · have hne : m ≠ i := by
        rintro rfl
        omega
      exact Or.inr ⟨m,by simpa [setMutex,freeEvent,setEvent,hne] using ha,
        by simpa [setMutex,freeEvent,setEvent,hne] using hc⟩
  ceiling {m} hm := by
    by_cases e : m = i
    · simp [setMutex,freeEvent,setEvent,e] at hm
    · have hc : 0 < (k.brtosMutexTable m).osMaxPriority := by
        simpa [setMutex,freeEvent,setEvent,e] using hm
      simpa [setMutex,freeEvent,setEvent,e] using h.ceiling hc

end Kernel

namespace System
variable {cfg : Config} (s : System cfg)

/-- The calls that leave a priority reserved for nobody: a creation that finds no control block, and
the deletion of a mutex with a ceiling. -/
def Leaks : Call → Prop
  | .mutexCreate p => s.iNesting = 0 ∧ 0 < p ∧ s.priorityVector p = emptyPrio ∧
    s.findEvent .mutex cfg.brtosMaxMutex = none
  | .mutexDelete i => s.iNesting = 0 ∧ 0 < (s.brtosMutexTable i).osMaxPriority
  | _ => False

instance (c : Call) : Decidable (s.Leaks c) := by
  rcases c <;> unfold Leaks <;> infer_instance

/-- Every reservation belongs to a task or to a mutex. -/
def Reserved : Prop := s.toKernel.Reserved s.inst

variable {s} {t : System cfg}

theorem install_reserved (h : s.Reserved) (who : Option ℕ) (e : Entry) (stack p : ℕ) :
    (s.enter who (.install e stack p)).Reserved := by
  unfold Reserved enter
  rcases osInstallTask_cases s.toKernel e stack p with
    ⟨code,hc,he⟩ | ⟨i,n,hf,_,_,_,he⟩
  · have same : s.nextInst (.install e stack p) code [] = s.inst := rfl
    simp only [Kernel.serve,he,returned_toKernel,returned_inst,Option.toList,same]
    exact h.same (by simp)
  · obtain ⟨lt,fresh⟩ := findTcb_free hf
    have small := cfg.tasks_le
    have began : s.enterTask.Reserved s.inst := h.same (by simp)
    have new : s.nextInst (.install e stack p) ok [i+1] = Function.update s.inst (i+1) p := rfl
    simp only [Kernel.serve,he,returned_toKernel,returned_inst,Option.toList,new]
    have installed := began.install (g := Function.update s.inst (i+1) p) (t := i+1) (n := n)
      (p := p) ⟨by omega,by omega⟩ (fun u hu => ?_) fun _ => Function.update_self _ _ _
    · exact installed.same (by simp)
    · refine Function.update_of_ne ?_ _ _
      rintro rfl
      exact fresh hu

theorem mutexCreate_reserved (h : s.Reserved) {p : ℕ} (tight : ¬ s.Leaks (.mutexCreate p)) :
    (s.osMutexCreate p).1.Reserved s.inst := by
  have began : s.enterTask.Reserved s.inst := h.same (by simp)
  have slots : s.enterTask.priorityVector = s.priorityVector := by simp
  have find := s.enterTask_findEvent .mutex cfg.brtosMaxMutex
  have search : ∀ v, (s.enterTask.setPriorityVector p v).findEvent .mutex cfg.brtosMaxMutex =
      s.enterTask.findEvent .mutex cfg.brtosMaxMutex := fun v => rfl
  simp only [Kernel.osMutexCreate]
  by_cases h1 : 0 < s.iNesting
  · rw [if_pos h1]
    exact h
  by_cases h2 : 0 < p ∧ s.enterTask.priorityVector p ≠ emptyPrio
  · rw [if_neg h1,if_pos h2]
    exact began.same (by simp)
  rw [if_neg h1,if_neg h2]
  have same : (if 0 < p then s.enterTask.setPriorityVector p mutexPrio else s.enterTask).findEvent
      .mutex cfg.brtosMaxMutex = s.enterTask.findEvent .mutex cfg.brtosMaxMutex := by
    split_ifs <;> rfl
  rw [same]
  cases hf : s.enterTask.findEvent .mutex cfg.brtosMaxMutex with
  | none =>
    have low : ¬ 0 < p := fun hp => tight ⟨by omega,hp,
      by_contra fun hne => h2 ⟨hp,slots ▸ hne⟩,find.symm.trans hf⟩
    rw [if_neg low]
    exact began.same (by simp)
  | some i => exact (began.create (p := p) (findEvent_free hf)).same (by simp)

theorem mutexDelete_reserved (h : s.Reserved) {i : ℕ} (tight : ¬ s.Leaks (.mutexDelete i)) :
    (s.osMutexDelete i).1.Reserved s.inst := by
  simp only [Kernel.osMutexDelete]
  split_ifs with h1
  · exact h
  · have low : (s.brtosMutexTable i).osMaxPriority = 0 := by
      simp only [Leaks,not_and,not_lt] at tight
      have := tight (by omega)
      omega
    have began : s.osEnterCritical.Reserved s.inst := h.congr rfl
    exact (began.delete low).congr rfl

theorem mutexAcquire_reserved (h : s.Reserved) (i w : ℕ) :
    (s.osMutexAcquire i w).1.Reserved s.inst := by
  have entered : s.osEnterCritical.Reserved s.inst := h.congr rfl
  simp only [Kernel.osMutexAcquire]
  split_ifs
  · exact h
  · exact h.congr rfl
  · exact h.congr rfl
  · have owned : (s.osEnterCritical.setMutex i fun m => { m with
        osEventState := busyResource, osEventOwner := s.currentTask }).Reserved s.inst :=
      entered.congr (Kernel.setMutex_ledger _ i _ rfl)
    exact (owned.raise i _).congr rfl
  · exact h.congr rfl
  · exact h.same (by simp)

theorem mutexRelease_reserved (h : s.Reserved) (i : ℕ) : (s.osMutexRelease i).1.Reserved s.inst := by
  have freed : ((s.osEnterCritical.restore i).setMutex i fun m => { m with
      osEventOwner := 0 }).Reserved s.inst := by
    refine h.congr ?_
    rw [Kernel.setMutex_ledger _ _ _ rfl,Kernel.restore_ledger]
    rfl
  simp only [Kernel.osMutexRelease]
  split_ifs
  · exact h
  · exact h.congr rfl
  · exact h.congr rfl
  · exact freed.congr (Kernel.passOn_ledger _ i)
  · exact (freed.makeAvailable i).congr rfl

theorem enter_reserved (h : s.Reserved) (who : Option ℕ) {c : Call} (tight : ¬ s.Leaks c) :
    (s.enter who c).Reserved := by
  by_cases hi : ∃ e stack p, c = .install e stack p
  · obtain ⟨e,stack,p,rfl⟩ := hi
    exact install_reserved h who e stack p
  have inst : (s.enter who c).inst = s.inst := by
    unfold enter
    cases (s.serve c).2 with
    | sleep p => rfl
    | ret code data =>
      cases c with
      | install e stack p => exact absurd ⟨e,stack,p,rfl⟩ hi
      | _ => rfl
  unfold Reserved
  rw [inst,enter_toKernel]
  cases c with
  | install e stack p => exact absurd ⟨e,stack,p,rfl⟩ hi
  | mutexCreate p => exact mutexCreate_reserved h tight
  | mutexDelete i => exact mutexDelete_reserved h tight
  | mutexAcquire i w => exact mutexAcquire_reserved h i w
  | mutexRelease i => exact mutexRelease_reserved h i
  | _ => exact h.same (Kernel.serve_roster _ rfl)

theorem proceed_reserved (h : s.Reserved) (ht : s.proceed = some t) : t.Reserved := by
  unfold proceed at ht
  cases hp : s.point s.currentTask with
  | run => simp [hp] at ht
  | delay w =>
    simp only [hp,Option.some.injEq] at ht
    exact ht ▸ h
  | pend o p w =>
    simp only [hp,Option.some.injEq] at ht
    subst ht
    have woken : ∀ o, (s.osEnterCritical.wakeUp o p w).1.Reserved s.inst := fun o =>
      h.same (by simp)
    have inst : (s.setPoint s.currentTask .run).nextInst (o.pendCall w) (s.resumePend o p w).2.1
        (s.resumePend o p w).2.2 = s.inst := by cases o <;> rfl
    unfold Reserved
    rw [returned_toKernel,returned_inst,inst]
    cases o with
    | sem i =>
      simp only [Kernel.resumePend,Kernel.resumeSemPend]
      split_ifs
      · exact h
      all_goals exact (woken (.sem i)).congr rfl
    | mutex i =>
      simp only [Kernel.resumePend,Kernel.resumeMutexAcquire]
      split_ifs
      · exact (woken (.mutex i)).congr rfl
      · exact ((woken (.mutex i)).raise i p).congr rfl
    | mbox i =>
      simp only [Kernel.resumePend,Kernel.resumeMboxPend,Kernel.takeMail]
      split_ifs <;> exact (woken (.mbox i)).congr rfl
    | queue i =>
      simp only [Kernel.resumePend,Kernel.resumeQueuePend]
      split_ifs <;> exact (woken (.queue i)).same (by simp)
    | dqueue i =>
      simp only [Kernel.resumePend,Kernel.resumeQueuePend]
      split_ifs <;> exact (woken (.dqueue i)).same (by simp)

theorem process_reserved (h : s.Reserved) {fuel uartQueue uartData : ℕ}
    (ht : s.process fuel uartQueue uartData = some t) : t.Reserved := by
  unfold process at ht
  obtain ⟨u,hu,rfl⟩ := Option.map_eq_some_iff.mp ht
  have ticked : u.Reserved := by
    split_ifs at hu
    · obtain ⟨k,hk,rfl⟩ := Option.map_eq_some_iff.mp hu
      exact h.same ((Kernel.tick_roster (s.clearInterrupt Kernel.interruptSwc) hk).trans rfl)
    · obtain rfl := Option.some.inj hu
      exact h.congr rfl
  dsimp only
  split_ifs
  · exact (enter_reserved ticked none (c := .queuePost uartQueue uartData) id).congr rfl
  · exact ticked.congr rfl

/-- The reservations that a step makes belong to somebody, unless it is one of the leaking calls. -/
theorem step_reserved (h : s.Reserved) {a : Action} (tight : ∀ c, a = .main c ∨ a = .call c →
    ¬ s.Leaks c) (next : s.step a = some t) : t.Reserved := by
  cases a with
  | main c =>
    simp only [step] at next
    split_ifs at next
    obtain rfl := Option.some.inj next
    exact enter_reserved h none (tight c (Or.inl rfl))
  | start =>
    simp only [step] at next
    split_ifs at next
    obtain rfl := Option.some.inj next
    unfold Reserved
    have began : s.enterTask.Reserved s.inst := h.same (by simp)
    rcases osInstallTask_cases s.toKernel .idle cfg.idleStackSize 0 with
      ⟨code,hc,hi⟩ | ⟨i,n,hf,_,_,_,hi⟩
    · rw [show s.brtosStart = (s.enterTask.exitTask,noMemory) by simp [Kernel.brtosStart,hi,hc]]
      exact began.same (by simp)
    · have small := cfg.tasks_le
      have lt := (findTcb_free hf).1
      have installed := began.install (g := s.inst) (t := i+1) (n := n) (p := 0)
        ⟨by omega,by omega⟩ (fun _ _ => rfl) fun h0 => absurd rfl h0
      rw [show s.brtosStart = ({ (s.enterTask.installInto (i+1) n 0).exitTask with
        currentTask := (s.enterTask.installInto (i+1) n 0).exitTask.osSchedule
        iNesting := 0 },ok) by simp [Kernel.brtosStart,hi]]
      refine Kernel.Reserved.congr (k := (s.enterTask.installInto (i+1) n 0).exitTask) ?_ rfl
      exact installed.same (by simp)
  | call c =>
    simp only [step] at next
    split_ifs at next
    obtain rfl := Option.some.inj next
    exact enter_reserved h _ (tight c (Or.inr rfl))
  | resume =>
    simp only [step] at next
    split_ifs at next
    exact proceed_reserved h next
  | isrEnter =>
    simp only [step] at next
    split_ifs at next
    obtain rfl := Option.some.inj next
    exact h.congr rfl
  | isrTick fuel =>
    simp only [step] at next
    split_ifs at next
    obtain ⟨k,hk,rfl⟩ := Option.map_eq_some_iff.mp next
    exact h.same (Kernel.tick_roster _ hk)
  | isrCall c =>
    simp only [step] at next
    split_ifs at next with hg
    obtain rfl := Option.some.inj next
    refine enter_reserved h none fun hl => ?_
    cases c with
    | mutexCreate | mutexDelete => simp [Call.fromIsr] at hg
    | _ => exact hl
  | isrExit =>
    simp only [step] at next
    split_ifs at next
    · obtain rfl := Option.some.inj next
      exact h.congr rfl
    · obtain rfl := Option.some.inj next
      exact h.congr rfl
  | switch =>
    simp only [step] at next
    split_ifs at next
    obtain rfl := Option.some.inj next
    exact h.congr rfl
  | raise n =>
    simp only [step] at next
    split_ifs at next
    obtain rfl := Option.some.inj next
    exact h.congr rfl
  | process fuel i b =>
    simp only [step] at next
    split_ifs at next
    exact process_reserved h next

/-- No step of the run leaks a reservation. -/
def Thrifty (s : System cfg) : Action → Prop
  | .main c | .call c => ¬ s.Leaks c
  | _ => True

instance (s : System cfg) (a : Action) : Decidable (s.Thrifty a) := by
  rcases a <;> unfold Thrifty <;> infer_instance

theorem init_reserved : (init cfg).Reserved where
  vector h0 hp hs := by simp [init,Kernel.brtosInit,Kernel.preInstallTasks,hp] at hs
  ceiling h := by simp [init,Kernel.brtosInit,Kernel.preInstallTasks,Kernel.initEvents,
    Kernel.zeroed] at h

/-- In every run in which no creation fails after its reservation and no mutex with a ceiling is
deleted, the reserved priorities are those of the tasks and the ceilings of the mutexes. -/
theorem reserved_of_thrifty (run : Run.Reach step Thrifty (init cfg) s) {p : ℕ} (h0 : 0 < p)
    (hp : p < cfg.width) (taken : s.priorityVector p ≠ emptyPrio) :
    (∃ t, s.Installed t ∧ s.inst t = p) ∨ ∃ m, (s.event (.mutex m)).osEventAllocated = 1 ∧
      (s.brtosMutexTable m).osMaxPriority = p := by
  refine (run.invariant (P := Reserved) init_reserved fun s a t h tight next => ?_).vector h0 hp taken
  refine step_reserved h (fun c hc => ?_) next
  rcases hc with rfl | rfl
  · exact tight
  · exact tight

/-- A task and a mutex keep one priority each. -/
theorem reserved_run : ∃ s : System .port, s.priorityVector 5 = mutexPrio ∧
    ((∃ t, s.Installed t ∧ s.inst t = 5) ∨ ∃ m, (s.event (.mutex m)).osEventAllocated = 1 ∧
      (s.brtosMutexTable m).osMaxPriority = 5) := by
  obtain ⟨s,run,marked⟩ := Run.exists_reach_of_exec step Thrifty (init .port)
    [.main (.install (.user 1) 16 3),.main (.mutexCreate 5),.start]
    (fun s => s.priorityVector 5 = mutexPrio) (by decide +kernel)
  exact ⟨s,marked,reserved_of_thrifty run (by decide) (by decide) (by rw [marked]; decide)⟩

/-- A creation that returns NO_AVAILABLE_EVENT has reserved its ceiling, and so has the creation of
a mutex that is deleted again. -/
theorem reserved_fails :
    (∃ s : System .port, Run.Reach step (fun s a => s.Lawful .any a) (init .port) s ∧
      s.priorityVector 5 = emptyPrio ∧ ∃ t ∈ s.step (.main (.mutexCreate 5)),
        (t.log.head?.map Record.code = some noAvailableEvent) ∧ t.priorityVector 5 = mutexPrio) ∧
    ∃ s : System .port, Run.Reach step (fun s a => s.Lawful .any a) (init .port) s ∧
      s.priorityVector 5 = mutexPrio ∧ (∀ t < 33, ¬ s.Installed t) ∧
        ∀ m < 10, (s.event (.mutex m)).osEventAllocated ≠ 1 :=
  ⟨Run.exists_reach_of_exec _ _ _ (List.replicate 10 (.main (.mutexCreate 0))) _ (by decide +kernel),
    Run.exists_reach_of_exec _ _ _ [.main (.mutexCreate 5),.main (.mutexDelete 0)] _
      (by decide +kernel)⟩

end System
end Brtos
