import Brtos.Locality

/-! What the tables of the tasks hold in every run, whatever the services are called with. -/
namespace Brtos
open Bitmap

/-- The services that move the caller's priority. -/
def Call.lifts : Call → Bool
  | .mutexAcquire _ _ | .mutexRelease _ => true
  | _ => false

namespace Kernel
variable {cfg : Config} (k : Kernel cfg)

/-- What an entry of PriorityVector may be: the handle of a task, or a mark. -/
def Filer (v : ℕ) : Prop := k.Installed v ∨ mutexPrio ≤ v

/-- Installed tasks have a priority that fits the lists, and free control blocks have none. -/
structure Filed : Prop where
  slot {p : ℕ} : p < cfg.width → k.Filer (k.priorityVector p)
  past {p : ℕ} : cfg.width ≤ p → k.priorityVector p ≠ emptyPrio
  prio {t : ℕ} : (1 ≤ t → t ≤ cfg.numberOfTasks → k.Installed t) →
    (k.contextTask t).priority < cfg.width
  free {t : ℕ} : 1 ≤ t → t ≤ cfg.numberOfTasks → ¬ k.Installed t →
    (k.contextTask t).priority = emptyPrio
  zero : (k.contextTask 0).priority = 0
  ceiling (m : ℕ) : (k.brtosMutexTable m).osMaxPriority < cfg.width
  original (m : ℕ) : (k.brtosMutexTable m).osOriginalPriority < cfg.width
  inside {t : ℕ} : k.Installed t → t ≤ cfg.numberOfTasks

variable {k} {l : Kernel cfg} {t u v p i : ℕ}

theorem Installed.congr (same : l.taskAlloc = k.taskAlloc) : l.Installed t ↔ k.Installed t := by
  simp only [Core.Installed,same]

theorem Filed.congr (h : k.Filed) (vector : l.priorityVector = k.priorityVector)
    (prio : ∀ t, (l.contextTask t).priority = (k.contextTask t).priority)
    (alloc : l.taskAlloc = k.taskAlloc)
    (mutex : ∀ m, (l.brtosMutexTable m).osMaxPriority < cfg.width ∧
      (l.brtosMutexTable m).osOriginalPriority < cfg.width) : l.Filed where
  slot hp := by
    rw [vector,Filer,Installed.congr alloc]
    exact h.slot hp
  past hp := vector ▸ h.past hp
  prio ht := by
    rw [prio]
    exact h.prio fun low high => (Installed.congr alloc).mp (ht low high)
  free low high ht := by
    rw [prio]
    exact h.free low high fun inst => ht ((Installed.congr alloc).mpr inst)
  zero := (prio 0).trans h.zero
  ceiling m := (mutex m).1
  original m := (mutex m).2
  inside ht := h.inside ((Installed.congr alloc).mp ht)

theorem Filed.same (h : k.Filed) (hl : l.roster = k.roster) : l.Filed := by
  simp only [roster,Prod.mk.injEq] at hl
  obtain ⟨vector,prio,alloc,_,mutex⟩ := hl
  exact h.congr vector (congrFun prio) alloc fun m => by
    rw [mutex]
    exact ⟨h.ceiling m,h.original m⟩

theorem installed_of_roster (hl : l.roster = k.roster) : l.Installed t ↔ k.Installed t := by
  simp only [roster,Prod.mk.injEq] at hl
  exact Installed.congr hl.2.2.1

/-- The entry of a priority is written. -/
theorem Filed.mark (h : k.Filed) (hp : p < cfg.width) (hv : k.Filer v) : (k.setPriorityVector p v).Filed where
  slot {q} hq := by
    by_cases e : q = p
    · subst e
      simpa [setPriorityVector,Filer,Core.Installed] using hv
    · simpa [setPriorityVector,Filer,Core.Installed,e] using h.slot hq
  past {q} hq := by
    have e : q ≠ p := by omega
    simpa [setPriorityVector,e] using h.past hq
  prio := h.prio
  free := h.free
  zero := h.zero
  ceiling := h.ceiling
  original := h.original
  inside := h.inside

/-- A task or a mark is no free control block. -/
theorem Filer.kept (h : k.Filer t) (few : cfg.numberOfTasks ≤ 32) (high : t ≤ cfg.numberOfTasks) :
    k.Installed t := by
  refine h.resolve_right ?_
  simp only [mutexPrio]
  omega

theorem Filer.pos (h : k.Filer t) : t ≠ 0 := by
  rintro rfl
  rcases h with h | h
  · exact absurd h.1 (by decide)
  · simp [mutexPrio] at h

/-- A task gets another priority. -/
theorem Filed.move (h : k.Filed) (ht : k.Filer t) (hp : p < cfg.width) :
    (k.setTask t fun c => { c with priority := p }).Filed where
  slot := h.slot
  past := h.past
  prio {u} hu := by
    by_cases e : u = t
    · simpa [setTask,e] using hp
    · simpa [setTask,e] using h.prio hu
  free {u} low high hu := by
    have e : u ≠ t := by
      rintro rfl
      exact hu (ht.kept cfg.tasks_le high)
    simpa [setTask,e] using h.free low high hu
  zero := by
    simpa [setTask,Ne.symm ht.pos] using h.zero
  ceiling := h.ceiling
  original := h.original
  inside := h.inside

theorem Filed.setMutex (h : k.Filed) (f : BrtosMutex → BrtosMutex)
    (ceiling : (f (k.brtosMutexTable i)).osMaxPriority < cfg.width)
    (original : (f (k.brtosMutexTable i)).osOriginalPriority < cfg.width) : (k.setMutex i f).Filed :=
  h.congr rfl (fun _ => rfl) rfl fun m => by
    by_cases e : m = i
    · subst e
      simpa [Kernel.setMutex] using ⟨ceiling,original⟩
    · simpa [Kernel.setMutex,e] using ⟨h.ceiling m,h.original m⟩

theorem Filed.current (h : k.Filed) (ht : k.Filer k.currentTask) : k.currentPriority < cfg.width :=
  h.prio fun _ high => ht.kept cfg.tasks_le high

theorem Filed.raise (h : k.Filed) (ht : k.Filer k.currentTask) (hp : p < cfg.width) (i : ℕ) :
    (k.raise i p).Filed := by
  have saved : (k.setMutex i fun m => { m with osOriginalPriority := p }).Filed :=
    h.setMutex _ (h.ceiling i) hp
  have here : (k.setMutex i fun m => { m with osOriginalPriority := p }).Filer k.currentTask := ht
  simp only [Kernel.raise]
  split_ifs
  · have moved := saved.move here (saved.ceiling i)
    have marked := moved.mark (saved.ceiling i) here
    exact marked.same rfl
  · exact saved

theorem Filed.restore (h : k.Filed) (ht : k.Filer k.currentTask) (i : ℕ) : (k.restore i).Filed := by
  simp only [Kernel.restore]
  split_ifs
  · have ready : ((k.clearReady k.currentPriority).setReady
        (k.brtosMutexTable i).osOriginalPriority).Filed := h.same rfl
    exact ready.move ht (h.original i)
  · exact h

theorem Filed.passOn (h : k.Filed) (i : ℕ) : (k.passOn i).Filed := by
  have woken : (k.wakeHighest (.mutex i)).Filed := h.same (k.wakeHighest_roster _)
  exact woken.setMutex (fun m => { m with osEventOwner := k.priorityVector (k.highestWaiting (.mutex i)) })
    (woken.ceiling i) (woken.original i)

theorem Filed.makeAvailable (h : k.Filed) (i : ℕ) : (k.makeAvailable i).Filed := by
  have freed : (k.setMutex i fun m => { m with osEventState := availableResource }).Filed :=
    h.setMutex _ (h.ceiling i) (h.original i)
  simp only [Kernel.makeAvailable]
  split_ifs
  · exact freed.mark (freed.ceiling i) (.inr le_rfl)
  · exact freed

theorem Filed.install (h : k.Filed) {n : ℕ} (low : 1 ≤ t) (high : t ≤ cfg.numberOfTasks)
    (hp : p < cfg.width) : (k.installInto t n p).Filed := by
  have range : 1 ≤ t ∧ t ≤ 32 := ⟨low,high.trans cfg.tasks_le⟩
  have joined : ∀ u, (k.installInto t n p).Installed u ↔ k.Installed u ∨ u = t := fun u =>
    iff_of_eq (congrFun (k.installed_or t range) u)
  have prio : ∀ u, ((k.installInto t n p).contextTask u).priority =
      if u = t then p else (k.contextTask u).priority := fun u => by
    by_cases e : u = t <;> simp [installInto,setReady,setTask,setPriorityVector,e]
  have vector : ∀ q, (k.installInto t n p).priorityVector q = if q = p then t else k.priorityVector q :=
    fun q => by by_cases e : q = p <;> simp [installInto,setReady,setTask,setPriorityVector,e]
  refine ⟨fun {q} hq => ?_,fun {q} hq => ?_,fun {u} hu => ?_,fun {u} one last free => ?_,?_,h.ceiling,
    h.original,fun {u} hu => ?_⟩
  · rw [vector,Filer,joined]
    split_ifs
    · exact .inl (.inr rfl)
    · exact (h.slot hq).imp_left .inl
  · rw [vector,if_neg (by omega)]
    exact h.past hq
  · rw [prio]
    split_ifs with e
    · exact hp
    · exact h.prio fun one last => ((joined u).mp (hu one last)).resolve_right e
  · rw [joined,not_or] at free
    rw [prio,if_neg free.2]
    exact h.free one last free.1
  · rw [prio,if_neg (by omega)]
    exact h.zero
  · rcases (joined u).mp hu with old | rfl
    · exact h.inside old
    · exact high

/-! ### The services -/

theorem mutexCreate_filed (h : k.Filed) (p : ℕ) : (k.osMutexCreate p).1.Filed := by
  have began : k.enterTask.Filed := h.same (by simp)
  have slots : k.enterTask.priorityVector = k.priorityVector := by simp
  simp only [osMutexCreate]
  split_ifs with busy taken low
  · exact h
  · exact began.same (by simp)
  all_goals
    have fits : p < cfg.width := by
      by_contra past
      have := h.past (Nat.not_lt.mp past)
      rw [slots] at taken
      have := cfg.width_pos
      exact taken ⟨by omega,by assumption⟩
  · have marked : (k.enterTask.setPriorityVector p mutexPrio).Filed := began.mark fits (.inr le_rfl)
    split
    · exact marked.same (by simp)
    · rename_i i _
      have taken : ((k.enterTask.setPriorityVector p mutexPrio).allocEvent (.mutex i)).Filed :=
        marked.congr rfl (fun _ => rfl) rfl fun m => ⟨marked.ceiling m,marked.original m⟩
      exact (taken.setMutex (i := i) (fun m => { m with
        osEventState := availableResource, osMaxPriority := p }) fits (taken.original i)).same (by simp)
  · split
    · exact began.same (by simp)
    · rename_i i _
      have taken : (k.enterTask.allocEvent (.mutex i)).Filed :=
        began.congr rfl (fun _ => rfl) rfl fun m => ⟨began.ceiling m,began.original m⟩
      exact (taken.setMutex (i := i) (fun m => { m with
        osEventState := availableResource, osMaxPriority := p }) fits (taken.original i)).same (by simp)

theorem mutexDelete_filed (h : k.Filed) (i : ℕ) : (k.osMutexDelete i).1.Filed := by
  simp only [osMutexDelete]
  split_ifs
  · exact h
  · have freed : (k.osEnterCritical.freeEvent (.mutex i)).Filed :=
      h.congr rfl (fun _ => rfl) rfl fun m => ⟨h.ceiling m,h.original m⟩
    exact (freed.setMutex (i := i) (fun _ => ⟨0,0,0,0⟩) cfg.width_pos cfg.width_pos).same rfl

theorem mutexAcquire_filed (h : k.Filed) (ht : k.Filer k.currentTask) (i w : ℕ) :
    (k.osMutexAcquire i w).1.Filed := by
  have entered : k.osEnterCritical.Filed := h.same rfl
  simp only [osMutexAcquire]
  split_ifs
  · exact h
  · exact h.same rfl
  · exact h.same rfl
  · have owned : (k.osEnterCritical.setMutex i fun m => { m with
        osEventState := busyResource, osEventOwner := k.currentTask }).Filed :=
      entered.setMutex _ (entered.ceiling i) (entered.original i)
    exact (owned.raise ht (owned.current ht) i).same rfl
  · exact h.same rfl
  · exact h.same (by simp)

theorem mutexRelease_filed (h : k.Filed) (ht : k.Filer k.currentTask) (i : ℕ) :
    (k.osMutexRelease i).1.Filed := by
  have entered : k.osEnterCritical.Filed := h.same rfl
  have restored := entered.restore ht i
  have freed : ((k.osEnterCritical.restore i).setMutex i fun m => { m with osEventOwner := 0 }).Filed :=
    restored.setMutex _ (restored.ceiling i) (restored.original i)
  simp only [osMutexRelease]
  split_ifs
  · exact h
  · exact h.same rfl
  · exact h.same rfl
  · exact (freed.passOn i).same rfl
  · exact (freed.makeAvailable i).same rfl

theorem install_filed (h : k.Filed) (e : Entry) (stack p : ℕ) : (k.osInstallTask e stack p).1.Filed := by
  have began : k.enterTask.Filed := h.same (by simp)
  rcases System.osInstallTask_cases k e stack p with ⟨code,_,he⟩ | ⟨i,n,found,fits,_,_,he⟩
  · rw [he]
    exact began.same (by simp)
  · rw [he]
    have last := (System.findTcb_free found).1
    exact (began.install (n := n) (Nat.succ_pos i) last fits).same (by simp)

theorem serve_filed (h : k.Filed) (c : Call) (ht : c.lifts = true → k.Filer k.currentTask) :
    (k.serve c).1.Filed := by
  cases c with
  | install e stack p => exact install_filed h e stack p
  | mutexCreate p => exact mutexCreate_filed h p
  | mutexDelete i => exact mutexDelete_filed h i
  | mutexAcquire i w => exact mutexAcquire_filed h (ht rfl) i w
  | mutexRelease i => exact mutexRelease_filed h (ht rfl) i
  | _ => exact h.same (k.serve_roster rfl)

theorem raise_taskAlloc (k : Kernel cfg) (i p : ℕ) : (k.raise i p).taskAlloc = k.taskAlloc := by
  simp only [raise]
  split_ifs <;> rfl

theorem restore_taskAlloc (k : Kernel cfg) (i : ℕ) : (k.restore i).taskAlloc = k.taskAlloc := by
  simp only [restore]
  split_ifs <;> rfl

theorem makeAvailable_taskAlloc (k : Kernel cfg) (i : ℕ) :
    (k.makeAvailable i).taskAlloc = k.taskAlloc := by
  simp only [makeAvailable]
  split_ifs <;> rfl

theorem serve_taskAlloc {c : Call} (other : ∀ e stack p, c ≠ .install e stack p) :
    (k.serve c).1.taskAlloc = k.taskAlloc := by
  by_cases books : c.books = false
  · have same := k.serve_roster books
    simp only [roster,Prod.mk.injEq] at same
    exact same.2.2.1
  cases c with
  | install e stack p => exact absurd rfl (other e stack p)
  | mutexCreate p =>
    simp only [serve,osMutexCreate]
    repeat' split
    all_goals simp [allocEvent,Kernel.setEvent,Kernel.setMutex,setPriorityVector]
  | mutexDelete i =>
    simp only [serve,osMutexDelete]
    split_ifs <;> rfl
  | mutexAcquire i w =>
    simp only [serve,osMutexAcquire]
    split_ifs
    · rfl
    · rfl
    · rfl
    · exact raise_taskAlloc _ _ _
    · rfl
    · have same := k.osEnterCritical.suspend_roster (.mutex i) w
      simp only [roster,Prod.mk.injEq] at same
      exact same.2.2.1
  | mutexRelease i =>
    simp only [serve,osMutexRelease]
    split_ifs
    · rfl
    · rfl
    · rfl
    · exact restore_taskAlloc _ i
    · exact (makeAvailable_taskAlloc _ i).trans (restore_taskAlloc _ i)
  | _ => exact absurd rfl books

/-- No service of the static build takes a task away. -/
theorem serve_installed (c : Call) (ht : k.Installed t) : (k.serve c).1.Installed t := by
  by_cases installs : ∃ e stack p, c = .install e stack p
  · obtain ⟨e,stack,p,rfl⟩ := installs
    have began : k.enterTask.Installed t := (installed_of_roster (by simp)).mpr ht
    simp only [serve]
    rcases System.osInstallTask_cases k e stack p with ⟨code,_,he⟩ | ⟨i,n,found,_,_,_,he⟩
    · rw [he]
      exact (installed_of_roster (by simp)).mpr began
    · rw [he]
      have last := (System.findTcb_free found).1
      have range : 1 ≤ i+1 ∧ i+1 ≤ 32 := ⟨Nat.succ_pos i,Nat.le_trans last cfg.tasks_le⟩
      have joined : (k.enterTask.installInto (i+1) n p).Installed t :=
        (iff_of_eq (congrFun (k.enterTask.installed_or (i+1) range) t)).mpr (.inl began)
      exact (installed_of_roster (by simp)).mpr joined
  · simp only [not_exists] at installs
    exact (Installed.congr (serve_taskAlloc installs)).mpr ht

/-- The rest of a suspended pend. -/
theorem resumePend_filed (h : k.Filed) (ht : k.Filer k.currentTask) (o : Obj) (hp : p < cfg.width) (w : ℕ) :
    (k.resumePend o p w).1.Filed := by
  have woken : ∀ o, (k.osEnterCritical.wakeUp o p w).1.Filed := fun o => h.same (by simp)
  cases o with
  | sem i =>
    simp only [resumePend,resumeSemPend]
    split_ifs
    · exact h
    all_goals exact (woken (.sem i)).same rfl
  | mutex i =>
    simp only [resumePend,resumeMutexAcquire]
    split_ifs
    · exact (woken (.mutex i)).same rfl
    · have here : (k.osEnterCritical.wakeUp (.mutex i) p w).1.Filer
          (k.osEnterCritical.wakeUp (.mutex i) p w).1.currentTask := by
        have vital := vital_of_shell (k.osEnterCritical.wakeUp_shell (.mutex i) p w)
        rw [currentTask_of_vital vital]
        exact ht.imp_left (installed_of_roster (k.osEnterCritical.wakeUp_roster _ p w)).mpr
      exact ((woken (.mutex i)).raise here hp i).same rfl
  | mbox i =>
    simp only [resumePend,resumeMboxPend,takeMail]
    split_ifs <;> exact (woken (.mbox i)).same rfl
  | queue i =>
    simp only [resumePend,resumeQueuePend]
    split_ifs <;> exact (woken (.queue i)).same (by simp)
  | dqueue i =>
    simp only [resumePend,resumeQueuePend]
    split_ifs <;> exact (woken (.dqueue i)).same (by simp)

theorem resumePend_taskAlloc (k : Kernel cfg) (o : Obj) (p w : ℕ) :
    (k.resumePend o p w).1.taskAlloc = k.taskAlloc := by
  have woken : ∀ o, (k.osEnterCritical.wakeUp o p w).1.taskAlloc = k.taskAlloc := fun o => by
    have same := k.osEnterCritical.wakeUp_roster o p w
    simp only [roster,Prod.mk.injEq] at same
    exact same.2.2.1
  cases o with
  | sem i =>
    simp only [resumePend,resumeSemPend]
    split_ifs
    · rfl
    all_goals exact woken (.sem i)
  | mutex i =>
    simp only [resumePend,resumeMutexAcquire]
    split_ifs
    · exact woken (.mutex i)
    · exact (raise_taskAlloc _ _ _).trans (woken (.mutex i))
  | mbox i =>
    simp only [resumePend,resumeMboxPend,takeMail]
    split_ifs <;> exact woken (.mbox i)
  | queue i =>
    simp only [resumePend,resumeQueuePend]
    split_ifs <;> exact woken (.queue i)
  | dqueue i =>
    simp only [resumePend,resumeQueuePend]
    split_ifs <;> exact woken (.dqueue i)

theorem resumePend_vital (k : Kernel cfg) (o : Obj) (p w : ℕ) : (k.resumePend o p w).1.vital = k.vital := by
  rw [← shell_vital]
  cases o with
  | sem i =>
    simp only [resumePend,resumeSemPend]
    split_ifs <;> simp
  | mutex i =>
    simp only [resumePend,resumeMutexAcquire]
    split_ifs <;> simp
  | mbox i =>
    simp only [resumePend,resumeMboxPend,takeMail]
    split_ifs <;> simp
  | queue i | dqueue i =>
    simp only [resumePend,resumeQueuePend]
    split_ifs <;> simp

/-- The scheduler's choice. -/
theorem Filed.select (h : k.Filed) : k.Filer k.osSchedule := by
  refine h.slot ?_
  rw [saScheduler_eq_highest]
  rcases Finset.eq_empty_or_nonempty (bits (k.osReadyList &&& k.osBlockedList)) with none | some
  · rw [highest_of_empty none]
    exact cfg.width_pos
  · exact lt_of_mem_bits (highest_mem some)

end Kernel

namespace System
variable {cfg : Config} {s t : System cfg}

/-- The running task is a task or a mark, and who sleeps has noted a priority that fits the lists. -/
structure Filed (s : System cfg) : Prop where
  kernel : s.toKernel.Filed
  current : s.started = true → s.toKernel.Filer s.currentTask
  pend {u : ℕ} {o : Obj} {p w : ℕ} : s.point u = .pend o p w → p < cfg.width

/-- The priority that a suspended caller has noted is its own. -/
theorem serve_pends {c : Call} {o : Obj} {p w : ℕ} (h : (s.serve c).2 = .sleep (.pend o p w)) :
    p = s.currentPriority := by
  have suspends := (serve_sleeps h).2.2.2.2
  cases c with
  | delayTask w =>
    simp only [Kernel.serve] at h
    split_ifs at h
    simp at h
  | semPend i w =>
    simp only [Kernel.serve,Kernel.osSemPend] at h
    split_ifs at h
    exact ((Point.pend.injEq ..).mp (Reply.sleep.inj h)).2.1.symm
  | mutexAcquire i w =>
    simp only [Kernel.serve,Kernel.osMutexAcquire] at h
    split_ifs at h
    exact ((Point.pend.injEq ..).mp (Reply.sleep.inj h)).2.1.symm
  | mboxPend i w =>
    simp only [Kernel.serve,Kernel.osMboxPend] at h
    split_ifs at h
    exact ((Point.pend.injEq ..).mp (Reply.sleep.inj h)).2.1.symm
  | queuePend d i w =>
    simp only [Kernel.serve,Kernel.queuePend] at h
    split_ifs at h
    exact ((Point.pend.injEq ..).mp (Reply.sleep.inj h)).2.1.symm
  | _ => simp [Call.suspends] at suspends

/-- The kernel goes on with the same running task. -/
theorem Filed.goes (h : s.Filed) (filed : t.toKernel.Filed)
    (kept : ∀ {u}, s.toKernel.Installed u → t.toKernel.Installed u)
    (current : t.currentTask = s.currentTask) (started : t.started = s.started)
    (point : t.point = s.point) : t.Filed where
  kernel := filed
  current began := by
    rw [Kernel.Filer,current]
    exact (h.current (started ▸ began)).imp_left kept
  pend hp := h.pend (point ▸ hp)

theorem Filed.same (h : s.Filed) (roster : t.roster = s.roster) (current : t.currentTask = s.currentTask)
    (started : t.started = s.started) (point : t.point = s.point) : t.Filed :=
  h.goes (h.kernel.same roster) (Kernel.installed_of_roster roster).mpr current started point

/-- Another task is selected. -/
theorem Filed.selects (h : s.Filed) : Filed { s with toKernel := s.select } where
  kernel := h.kernel.same rfl
  current _ := h.kernel.select
  pend := h.pend

theorem Filed.enter (h : s.Filed) (who : Option ℕ) {c : Call} (lifts : c.lifts = true → s.started = true)
    (sleeps : ∀ p, (s.serve c).2 = .sleep p → s.started = true) : (s.enter who c).Filed := by
  have kernel := s.toKernel.serve_filed h.kernel c fun l => h.current (lifts l)
  have current := Kernel.currentTask_of_vital (s.serve_vital c)
  refine ⟨?_,?_,?_⟩
  · rw [enter_toKernel]
    exact kernel
  · rw [enter_started,enter_toKernel,current]
    exact fun started => (h.current started).imp_left (Kernel.serve_installed c)
  · intro u o p w hp
    unfold System.enter at hp
    cases reply : (s.serve c).2 with
    | ret code data =>
      rw [reply] at hp
      exact h.pend hp
    | sleep q =>
      rw [reply] at hp
      by_cases e : u = s.currentTask
      · subst e
        simp only [setPoint,Function.update_self] at hp
        subst hp
        rw [serve_pends reply]
        exact h.kernel.current (h.current (sleeps _ reply))
      · simp only [setPoint,Function.update_of_ne e] at hp
        exact h.pend hp

theorem Filed.setPoint (h : s.Filed) (u : ℕ) : (s.setPoint u .run).Filed where
  kernel := h.kernel
  current := h.current
  pend {v o p w} hp := by
    by_cases e : v = u
    · simp [System.setPoint,e] at hp
    · simp only [System.setPoint,Function.update_of_ne e] at hp
      exact h.pend hp

theorem Filed.proceed (h : s.Filed) (started : s.started = true) (next : s.proceed = some t) : t.Filed := by
  unfold System.proceed at next
  cases hp : s.point s.currentTask with
  | run => simp [hp] at next
  | delay w =>
    simp only [hp,Option.some.injEq] at next
    subst next
    exact (h.setPoint s.currentTask).same rfl rfl rfl rfl
  | pend o p w =>
    simp only [hp,Option.some.injEq] at next
    subst next
    have current := Kernel.currentTask_of_vital (s.toKernel.resumePend_vital o p w)
    exact (h.setPoint s.currentTask).goes
      (Kernel.resumePend_filed h.kernel (h.current started) o (h.pend hp) w)
      (Kernel.Installed.congr (s.toKernel.resumePend_taskAlloc o p w)).mpr current rfl rfl

theorem Filed.tick (h : s.Filed) {k : Kernel cfg} {fuel : ℕ} (ticked : s.tick fuel = some k) :
    Filed { s with toKernel := k } := by
  have current := Kernel.currentTask_of_vital (Kernel.vital_of_shell (Kernel.tickLoop_shell ticked))
  exact h.same (Kernel.tick_roster _ ticked) current rfl rfl

theorem Filed.process (h : s.Filed) {fuel uartQueue uartData : ℕ}
    (next : s.process fuel uartQueue uartData = some t) : t.Filed := by
  unfold System.process at next
  obtain ⟨u,hu,rfl⟩ := Option.map_eq_some_iff.mp next
  have begun : Filed { s with toKernel := s.clearInterrupt Kernel.interruptSwc } := h.same rfl rfl rfl rfl
  have ticked : u.Filed := by
    split_ifs at hu
    · obtain ⟨k,hk,rfl⟩ := Option.map_eq_some_iff.mp hu
      exact (begun.tick hk).same rfl rfl rfl rfl
    · obtain rfl := Option.some.inj hu
      exact begun
  dsimp only
  split_ifs
  · have posted := ticked.enter none (c := .queuePost uartQueue uartData) (by simp [Call.lifts])
      fun p hp => absurd hp (osQueuePost_awake _ _ p)
    exact (posted.same (t := { u.enter none (.queuePost uartQueue uartData) with
      toKernel := (u.enter none (.queuePost uartQueue uartData)).clearInterrupt interruptUart })
      rfl rfl rfl rfl).selects
  · exact ticked.selects

theorem Filed.start (h : s.Filed) :
    Filed { s with toKernel := s.brtosStart.1, started := s.brtosStart.2 == ok } := by
  have installed := s.toKernel.install_filed h.kernel .idle cfg.idleStackSize 0
  simp only [Kernel.brtosStart]
  split_ifs with failed
  · exact ⟨installed,fun started => by simp [noMemory,ok] at started,h.pend⟩
  · exact ⟨installed.same rfl,fun _ => installed.select,h.pend⟩

theorem Filed.step (h : s.Filed) (dormant : s.Dormant) {a : Action} (next : s.step a = some t) : t.Filed := by
  cases a with
  | main c =>
    simp only [System.step] at next
    split_ifs at next with hg
    obtain rfl := Option.some.inj next
    refine h.enter none (fun lifts => ?_) fun p hp => absurd (dormant hg.1).1 ((serve_sleeps hp).2.2.1 hg.2)
    cases c with
    | mutexAcquire | mutexRelease => exact absurd hg.2 (by simp [Call.fromMain])
    | _ => exact absurd lifts (by simp [Call.lifts])
  | start =>
    simp only [System.step] at next
    split_ifs at next
    obtain rfl := Option.some.inj next
    exact h.start
  | call c =>
    simp only [System.step] at next
    split_ifs at next with hg
    obtain rfl := Option.some.inj next
    exact h.enter _ (fun _ => hg.1.1) fun _ _ => hg.1.1
  | resume =>
    simp only [System.step] at next
    split_ifs at next with hg
    exact h.proceed hg.1 next
  | isrEnter =>
    simp only [System.step] at next
    split_ifs at next
    exact Option.some.inj next ▸ h.same rfl rfl rfl rfl
  | isrTick fuel =>
    simp only [System.step] at next
    split_ifs at next
    obtain ⟨k,hk,rfl⟩ := Option.map_eq_some_iff.mp next
    exact h.tick hk
  | isrCall c =>
    simp only [System.step] at next
    split_ifs at next with hg
    obtain rfl := Option.some.inj next
    exact h.enter none (fun _ => hg.1) fun _ _ => hg.1
  | isrExit =>
    simp only [System.step] at next
    split_ifs at next
    · have left : Filed { s with iNesting := s.iNesting-1 } := h.same rfl rfl rfl rfl
      exact Option.some.inj next ▸ left.selects
    · exact Option.some.inj next ▸ h.same rfl rfl rfl rfl
  | switch =>
    simp only [System.step] at next
    split_ifs at next
    exact Option.some.inj next ▸ h.selects.same rfl rfl rfl rfl
  | raise n =>
    simp only [System.step] at next
    split_ifs at next
    exact Option.some.inj next ▸ h.same rfl rfl rfl rfl
  | process fuel i b =>
    simp only [System.step] at next
    split_ifs at next
    exact h.process next

theorem init_filed : (init cfg).Filed where
  kernel := by
    have prio : ∀ t, ((init cfg).contextTask t).priority =
        if 1 ≤ t ∧ t ≤ cfg.numberOfTasks then emptyPrio else 0 := fun t => by
      simp only [init,Kernel.brtosInit,Kernel.preInstallTasks,Kernel.initEvents,Kernel.zeroed]
      split_ifs <;> rfl
    have none : ∀ t, ¬ (init cfg).Installed t := fun t ht => by
      simpa [init,Kernel.brtosInit,Kernel.preInstallTasks] using ht.2.2
    refine ⟨fun {p} hp => ?_,fun {p} hp => ?_,fun {t} ht => ?_,fun {t} low high _ => ?_,?_,fun _ => cfg.width_pos,
      fun _ => cfg.width_pos,fun ht => absurd ht (none _)⟩
    · right
      simp [init,Kernel.brtosInit,Kernel.preInstallTasks,hp,mutexPrio,emptyPrio]
    · simp [init,Kernel.brtosInit,Kernel.preInstallTasks,Kernel.initEvents,Kernel.zeroed,
        Nat.not_lt.mpr hp,emptyPrio]
    · rw [prio,if_neg fun range => none t (ht range.1 range.2)]
      exact cfg.width_pos
    · rw [prio,if_pos ⟨low,high⟩]
    · rw [prio,if_neg (by omega)]
  current started := by simp [init] at started
  pend hp := by simp [init] at hp

/-- In every run, whatever the services are called with. -/
theorem filed_of_reach {ok' : System cfg → Action → Prop} (run : Run.Reach step ok' (init cfg) s) :
    s.Filed :=
  (run.invariant (P := fun s => s.Filed ∧ s.Dormant) ⟨init_filed,fun _ => ⟨rfl,fun _ => rfl⟩⟩
    fun _ _ _ h _ next => ⟨h.1.step h.2 next,h.2.step next⟩).1

end System
end Brtos
