import Brtos.Services

/-! The services that move priorities: mutexes and the installation of tasks. -/
namespace Brtos.System
variable {cfg : Config} {P : View.Policy} {s : System cfg}

theorem ceiling_lt (hs : View.Sound cfg s.view) (i : ℕ) :
    (s.brtosMutexTable i).osMaxPriority < cfg.width := by
  rcases Nat.eq_zero_or_pos (s.brtosMutexTable i).osMaxPriority with h | h
  · rw [h]
    exact cfg.width_pos
  · exact hs.ceil_lt (m := i) h

/-- The running task holds what it owns. -/
theorem held_of_owner (hs : View.Sound cfg s.view) (caller : s.Caller) {i : ℕ}
    (h : (s.brtosMutexTable i).osEventOwner = s.currentTask) : i ∈ s.held s.currentTask := by
  have pos := (hs.handle caller.inst).1
  have ho := hs.owned (m := i) (by rw [show s.view.owner i = s.currentTask from h]; omega)
  rw [show s.view.owner i = s.currentTask from h] at ho
  rcases ho.2 with hm | ⟨p,w,hp,_⟩
  · exact hm
  · exact absurd (caller.run.symm.trans hp) (by simp)

theorem enter_mutexCreate (hs : View.Sound cfg s.view) (links : s.LinksIn s.Installed) {c : ℕ}
    (legal : s.Legal (.mutexCreate c)) (who : Option ℕ) :
    Entered P s (s.enter who (.mutexCreate c)) := by
  have lt : c < cfg.width := legal
  by_cases hn : 0 < s.iNesting
  · simp only [enter,Kernel.serve,Kernel.osMutexCreate,hn,if_true]
    exact .same rfl rfl links rfl rfl
  by_cases hb : 0 < c ∧ s.enterTask.priorityVector c ≠ emptyPrio
  · simp only [enter,Kernel.serve,Kernel.osMutexCreate]
    rw [if_neg hn,if_pos hb]
    exact .same (by simp) (by simp) links rfl rfl
  simp only [enter,Kernel.serve,Kernel.osMutexCreate]
  rw [if_neg hn,if_neg hb]
  have free : 0 < c → s.view.slot c = emptyPrio := fun hc => by
    by_contra hne
    exact hb ⟨hc,by rw [Kernel.enterTask_toCore]; exact hne⟩
  have reserved : Moves cfg P s.view ((if 0 < c then s.enterTask.setPriorityVector c mutexPrio
      else s.enterTask).view s.point s.inst s.held) := by
    split_ifs with hc
    · refine (Moves.one (.reserve (free hc))).trans (Moves.same ?_)
      simp [View.reserve]
    · exact .same (by simp)
  have vital : (if 0 < c then s.enterTask.setPriorityVector c mutexPrio
      else s.enterTask).shell = s.shell := by
    split_ifs <;> simp
  have kept : (if 0 < c then s.enterTask.setPriorityVector c mutexPrio
      else s.enterTask).LinksIn s.Installed := by
    have kept' : s.enterTask.LinksIn s.Installed := fun t ht => links t (by simpa using ht)
    split_ifs
    · exact kept'
    · exact kept'
  have slot : 0 < c → (if 0 < c then s.enterTask.setPriorityVector c mutexPrio
      else s.enterTask).priorityVector c = mutexPrio := fun hc => by
    simp [hc,Kernel.setPriorityVector]
  have table : (if 0 < c then s.enterTask.setPriorityVector c mutexPrio
      else s.enterTask).brtosMutexTable = s.brtosMutexTable := by
    split_ifs <;> simp [Kernel.setPriorityVector]
  have installed : (if 0 < c then s.enterTask.setPriorityVector c mutexPrio
      else s.enterTask).Installed = s.Installed := by
    have same := congrArg Core.Installed s.enterTask_toCore
    split_ifs
    · exact same
    · exact same
  revert reserved vital kept slot table installed
  generalize (if 0 < c then s.enterTask.setPriorityVector c mutexPrio else s.enterTask) = k
  intro reserved vital kept slot table installed
  cases h : k.findEvent .mutex cfg.brtosMaxMutex with
  | none =>
    refine ⟨reserved.trans (Moves.same ?_),by simp [vital],fun t ht => kept t (by simpa using ht)⟩
    simp only [view,returned_toKernel,Kernel.exitTask_toCore]
    rfl
  | some i =>
    refine ⟨reserved.trans ?_,by simp [vital],fun t ht => kept t ?_⟩
    · have he : (((k.allocEvent (.mutex i)).setMutex i fun m => { m with
          osEventState := availableResource, osMaxPriority := c }).exitTask).view
            s.point s.inst s.held = (k.view s.point s.inst s.held).establishMutex i c := by
        rw [Kernel.exitTask_toCore,Kernel.setMutex_view,Kernel.allocEvent_view]
        rfl
      refine (Moves.one (.establishMutex ?_ lt slot ?_)).trans (Moves.same he)
      · rintro (hc | hc)
        · simp [Obj.onHeap] at hc
        · exact findEvent_free h hc
      · refine fun hc => ⟨fun u hu => ?_,fun n hn => ?_⟩
        · exact (hs.prio_not_free (show s.Installed u by rw [← installed]; exact hu) (free hc)).2
        · have hn' : s.view.ceiling n = c := by
            rw [← hn]
            exact congrArg BrtosMutex.osMaxPriority (congrFun table n).symm
          exact hs.reserved (m := n) (by omega) (hn' ▸ free hc)
    · simp only [returned_toKernel,Kernel.exitTask_toCore] at ht
      exact ht

theorem enter_mutexDelete (hs : View.Sound cfg s.view) (links : s.LinksIn s.Installed) {i : ℕ}
    (legal : s.Legal (.mutexDelete i)) (who : Option ℕ) :
    Entered P s (s.enter who (.mutexDelete i)) := by
  simp only [enter,Kernel.serve,Kernel.osMutexDelete]
  split_ifs
  · exact .same rfl rfl links rfl rfl
  · refine ⟨?_,by simp,links⟩
    have he : (((s.osEnterCritical.freeEvent (.mutex i)).setMutex i fun _ => ⟨0,0,0,0⟩).osExitCritical).view
        s.point s.inst s.held = s.view.abolishMutex i := by
      rw [Kernel.osExitCritical_toCore,Kernel.setMutex_view,Kernel.freeEvent_view _ _ _ _ _ rfl]
      rfl
    exact (Moves.one (.abolishMutex (unattended_of_quiet hs legal.2.1) legal.2.2)).trans
      (Moves.same he)

theorem nextHeld_acquire_held {t i w : ℕ} (h : i ∈ s.held t) (code : ℕ) :
    s.nextHeld t (.mutexAcquire i w) code = s.held := by
  simp [nextHeld,h]

theorem nextHeld_acquire_fail {t i w code : ℕ} (h : code ≠ ok) :
    s.nextHeld t (.mutexAcquire i w) code = s.held := by
  simp [nextHeld,h]

theorem nextHeld_acquire_ok {t i w : ℕ} (h : i ∉ s.held t) :
    s.nextHeld t (.mutexAcquire i w) ok = Function.update s.held t (i :: s.held t) := by
  simp [nextHeld,h]

theorem nextHeld_release_fail {t i code : ℕ} (h : code ≠ ok) :
    s.nextHeld t (.mutexRelease i) code = s.held := by
  simp [nextHeld,h]

theorem enter_mutexAcquire (hs : View.Sound cfg s.view) (links : s.LinksIn s.Installed)
    (caller : s.Caller) {i : ℕ} (legal : s.Created (.mutex i)) (w : ℕ)
    (met : i ∉ s.held s.currentTask → P.acquire s.view s.currentTask i) :
    Entered P s (s.enter (some s.currentTask) (.mutexAcquire i w)) := by
  simp only [enter,Kernel.serve,Kernel.osMutexAcquire]
  split_ifs with h1 h2 h3 h4 h5
  · exact .same rfl rfl links rfl (nextHeld_acquire_fail (by decide))
  · exact .same (by simp) (by simp) links rfl (nextHeld_acquire_fail (by decide))
  · exact .same (by simp) (by simp) links rfl
      (nextHeld_acquire_held (held_of_owner hs caller h3.symm) _)
  · have unheld : i ∉ s.held s.currentTask := fun hm => h3 (hs.held_owner hm).1.symm
    refine ⟨?_,by simp,?_⟩
    · have he : ((s.osEnterCritical.setMutex i fun m => { m with
          osEventState := busyResource, osEventOwner := s.currentTask }).raise i
            s.currentPriority).view s.point s.inst
              (Function.update s.held s.currentTask (i :: s.held s.currentTask)) =
                s.view.take s.currentTask i := by
        have := (s.osEnterCritical.setMutex i fun m => { m with
          osEventState := busyResource, osEventOwner := s.currentTask }).raise_view s.point s.inst
            (Function.update s.held s.currentTask (i :: s.held s.currentTask)) i
            (hs.prio_lt (t := s.currentTask) caller.inst)
            (by simpa [Kernel.setMutex] using ceiling_lt hs i)
        exact this
      refine (Moves.one (.take caller.inst caller.idle caller.run legal h4 (met unheld))).trans
        (Moves.same (Eq.trans ?_ he))
      simp only [view,returned_toKernel,returned_point,returned_inst,returned_held,
        Option.getD_some,nextHeld_acquire_ok unheld]
      rfl
    · have kept : (s.osEnterCritical.setMutex i fun m => { m with
          osEventState := busyResource, osEventOwner := s.currentTask }).LinksIn s.Installed := links
      exact kept.raise i _
  · exact .same (by simp) (by simp) links rfl (nextHeld_acquire_fail (by decide))
  · refine .slept (k := s.osEnterCritical) rfl (by simp) hs links caller.inst caller.idle caller.run legal
      ?_ ?_
    · rintro m ⟨⟩
      exact ⟨fun e => h3 e.symm,h4⟩
    · rintro m ⟨⟩
      exact met fun hm => h3 (hs.held_owner hm).1.symm

theorem restorable_lt (hs : View.Sound cfg s.view) {t i : ℕ} (ht : s.Installed t)
    (back : s.view.Restorable t i) : (s.brtosMutexTable i).osOriginalPriority < cfg.width := by
  rcases back with e | ⟨n,_,_,hpos,e,_⟩
  · exact lt_of_eq_of_lt e (hs.inst_lt ht)
  · exact lt_of_eq_of_lt e (hs.ceil_lt hpos)

/-- The caller has gone back to the priority that its mutex has kept. -/
theorem restored (hs : View.Sound cfg s.view) (caller : s.Caller) {i : ℕ}
    (back : s.view.Restorable s.currentTask i) :
    (s.osEnterCritical.restore i).view s.point s.inst s.held = s.view.restore s.currentTask i ∧
      (s.osEnterCritical.restore i).event = s.event := by
  refine ⟨s.osEnterCritical.restore_view s.point s.inst s.held i
    (hs.prio_lt (t := s.currentTask) caller.inst) (restorable_lt hs caller.inst back),?_⟩
  simp only [Kernel.restore]
  split_ifs <;> rfl

/-- What a release by the owner does before it looks for waiting tasks. -/
theorem osMutexRelease_owner {i : ℕ} (calm : ¬ (cfg.errorCheck = true ∧ 0 < s.iNesting))
    (created : s.notCreated (.mutex i) = false)
    (owner : (s.brtosMutexTable i).osEventOwner = s.currentTask)
    (event : (s.osEnterCritical.restore i).event = s.event) : s.osMutexRelease i =
      if (s.event (.mutex i)).osEventWait ≠ 0 then
        ((((s.osEnterCritical.restore i).setMutex i fun m => { m with osEventOwner := 0 }).passOn
          i).changeContext.osExitCritical,.ret ok [])
      else ((((s.osEnterCritical.restore i).setMutex i fun m => { m with
        osEventOwner := 0 }).makeAvailable i).osExitCritical,.ret ok []) := by
  simp only [Kernel.osMutexRelease]
  rw [if_neg calm,if_neg (show ¬ s.osEnterCritical.notCreated (.mutex i) = true by
      simpa [Kernel.notCreated] using created),
    if_neg (show ¬ (s.osEnterCritical.brtosMutexTable i).osEventOwner ≠
      s.osEnterCritical.currentTask from not_not.mpr owner)]
  rw [show ((s.osEnterCritical.restore i).setMutex i fun m => { m with osEventOwner := 0 }).event =
    s.event from event]

/-- A release with waiting tasks hands the mutex to the highest one. -/
theorem passedOn_view (hs : View.Sound cfg s.view) (caller : s.Caller) {i : ℕ}
    (back : s.view.Restorable s.currentTask i) (wait : (s.event (.mutex i)).osEventWait ≠ 0) :
    ∃ p, s.view.IsTop (.mutex i) p ∧
      (((s.osEnterCritical.restore i).setMutex i fun m => { m with osEventOwner := 0 }).passOn
        i).view s.point s.inst
          (Function.update s.held s.currentTask ((s.held s.currentTask).erase i)) =
        (s.view.restore s.currentTask i).handOver s.currentTask i p := by
  obtain ⟨hw,_⟩ := restored hs caller back
  revert hw
  generalize s.osEnterCritical.restore i = k
  intro hw
  have hwait : ∀ o, (k.view s.point s.inst s.held).waiting o = s.view.waiting o := fun o => by
    rw [hw,View.restore_waiting]
  have some_ : ((k.view s.point s.inst s.held).waiting (.mutex i)).Nonempty := by
    rw [hwait,← Finset.card_pos,← hs.count (.mutex i)]
    exact Nat.pos_of_ne_zero wait
  have top := k.highestWaiting_isTop s.point s.inst s.held (.mutex i) some_
  have he := k.passOn_view s.point s.inst s.held s.currentTask i some_
  rw [hw] at he
  exact ⟨k.highestWaiting (.mutex i),⟨hwait _ ▸ top.1,hwait _ ▸ top.2⟩,he⟩

theorem enter_mutexRelease (hs : View.Sound cfg s.view) (links : s.LinksIn s.Installed)
    (caller : s.Caller) {i : ℕ} (met : i ∈ s.held s.currentTask → P.release s.view s.currentTask i)
    (back : i ∈ s.held s.currentTask → s.view.Restorable s.currentTask i) :
    Entered P s (s.enter (some s.currentTask) (.mutexRelease i)) := by
  by_cases owner : (s.brtosMutexTable i).osEventOwner = s.currentTask
  swap
  · have other : ¬ (s.osEnterCritical.brtosMutexTable i).osEventOwner = s.osEnterCritical.currentTask :=
      owner
    simp only [enter,Kernel.serve,Kernel.osMutexRelease]
    split_ifs
    · exact .same rfl rfl links rfl (nextHeld_release_fail (by decide))
    · exact .same (by simp) (by simp) links rfl (nextHeld_release_fail (by decide))
    · exact .same (by simp) (by simp) links rfl (nextHeld_release_fail (by decide))
  by_cases calm : cfg.errorCheck = true ∧ 0 < s.iNesting
  · simp only [enter,Kernel.serve,Kernel.osMutexRelease]
    rw [if_pos calm]
    exact .same rfl rfl links rfl (nextHeld_release_fail (by decide))
  cases created : s.notCreated (.mutex i) with
  | true =>
    simp only [enter,Kernel.serve,Kernel.osMutexRelease]
    rw [if_neg calm,if_pos (show s.osEnterCritical.notCreated (.mutex i) = true from created)]
    exact .same (by simp) (by simp) links rfl (nextHeld_release_fail (by decide))
  | false =>
    have owns : i ∈ s.held s.currentTask := held_of_owner hs caller owner
    obtain ⟨hw,event⟩ := restored hs caller (back owns)
    have handed := passedOn_view hs caller (back owns)
    have hshell : (s.osEnterCritical.restore i).shell = s.shell := by simp
    have kept : (s.osEnterCritical.restore i).LinksIn s.Installed :=
      Kernel.LinksIn.restore (k := s.osEnterCritical) links i
    simp only [enter,Kernel.serve,osMutexRelease_owner calm created owner event]
    revert hw hshell kept handed
    generalize s.osEnterCritical.restore i = k
    intro hw handed hshell kept
    by_cases wait : (s.event (.mutex i)).osEventWait ≠ 0
    · rw [if_pos wait]
      obtain ⟨p,top,he⟩ := handed wait
      refine ⟨(Moves.one (.handOver caller.run owns (met owns) top)).trans
        (Moves.same (Eq.trans ?_ he)),?_,kept⟩
      · simp only [view,returned_toKernel,returned_point,returned_inst,returned_held,
          Option.getD_some,nextHeld,if_true]
        rfl
      · simpa using congrArg Kernel.vital hshell
    · rw [if_neg wait]
      have none_ : s.view.waiting (.mutex i) = ∅ := by
        rw [← Finset.card_eq_zero,← hs.count (.mutex i)]
        exact not_not.mp wait
      have he := k.makeAvailable_view s.point s.inst s.held s.currentTask i
      rw [hw] at he
      refine ⟨(Moves.one (.release caller.run owns (met owns) none_)).trans
        (Moves.same (Eq.trans ?_ he)),?_,?_⟩
      · simp only [view,returned_toKernel,returned_point,returned_inst,returned_held,
          Option.getD_some,nextHeld,if_true]
        rfl
      · simpa using congrArg Kernel.vital hshell
      · have freed : (k.setMutex i fun m => { m with osEventOwner := 0 }).LinksIn s.Installed := kept
        exact freed.makeAvailable i

theorem findTcb_free {k : Kernel cfg} {i : ℕ} (h : k.findTcb = some i) :
    i < cfg.numberOfTasks ∧ ¬ k.Installed (i+1) := by
  constructor
  · simpa using List.mem_of_find?_eq_some h
  · rintro ⟨_,_,hb⟩
    have := List.find?_some h
    simp only [Nat.add_sub_cancel] at hb
    simp [hb] at this

/-- OSInstallTask fails without an effect, or it fills a free control block and takes its stack from the
rest of STACK. -/
theorem osInstallTask_spec (k : Kernel cfg) (e : Entry) (stack p : ℕ) :
    (∃ code, code ≠ ok ∧ k.osInstallTask e stack p = (k.enterTask.exitTask,code,none)) ∨
    ∃ i, k.enterTask.findTcb = some i ∧ p < cfg.width ∧
      (p ≠ 0 → k.enterTask.priorityVector p = emptyPrio) ∧ (p ≠ 0 ∨ e = .idle) ∧
      cfg.numberMinOfStackedBytes ≤ stack-stack%cfg.sizeofCpuType ∧
      k.enterTask.iStackAddress+(stack-stack%cfg.sizeofCpuType)/cfg.sizeofCpuType ≤
        cfg.heapSize/cfg.sizeofCpuType ∧
      k.osInstallTask e stack p = ((k.enterTask.installInto (i+1) (stack-stack%cfg.sizeofCpuType) p).exitTask,
        ok,some (i+1)) := by
  unfold Kernel.osInstallTask
  dsimp only
  generalize stack-stack%cfg.sizeofCpuType = n
  by_cases h1 : n < cfg.numberMinOfStackedBytes
  · rw [if_pos h1]
    exact Or.inl ⟨_,by decide,rfl⟩
  by_cases h2 : k.enterTask.iStackAddress+n/cfg.sizeofCpuType > cfg.heapSize/cfg.sizeofCpuType
  · rw [if_neg h1,if_pos h2]
    exact Or.inl ⟨_,by decide,rfl⟩
  by_cases h3 : p ≠ 0 ∧ p > cfg.width-1
  · rw [if_neg h1,if_neg h2,if_pos h3]
    exact Or.inl ⟨_,by decide,rfl⟩
  by_cases h4 : p ≠ 0 ∧ k.enterTask.priorityVector p ≠ emptyPrio
  · rw [if_neg h1,if_neg h2,if_neg h3,if_pos h4]
    exact Or.inl ⟨_,by decide,rfl⟩
  by_cases h5 : p = 0 ∧ e ≠ .idle
  · rw [if_neg h1,if_neg h2,if_neg h3,if_neg h4,if_pos h5]
    exact Or.inl ⟨_,by decide,rfl⟩
  rw [if_neg h1,if_neg h2,if_neg h3,if_neg h4,if_neg h5]
  cases hf : k.enterTask.findTcb with
  | none => exact Or.inl ⟨_,by decide,rfl⟩
  | some i =>
    have := cfg.width_pos
    exact Or.inr ⟨i,rfl,by by_contra hge; exact h3 ⟨by omega,by omega⟩,
      fun hp => by_contra fun hne => h4 ⟨hp,hne⟩,
      by by_contra hn; rw [not_or] at hn; exact h5 ⟨not_not.mp hn.1,hn.2⟩,not_lt.mp h1,not_lt.mp h2,rfl⟩

/-- OSInstallTask fails without an effect, or it fills a free control block. -/
theorem osInstallTask_cases (k : Kernel cfg) (e : Entry) (stack p : ℕ) :
    (∃ code, code ≠ ok ∧ k.osInstallTask e stack p = (k.enterTask.exitTask,code,none)) ∨
    ∃ i n, k.enterTask.findTcb = some i ∧ p < cfg.width ∧
      (p ≠ 0 → k.enterTask.priorityVector p = emptyPrio) ∧ (p ≠ 0 ∨ e = .idle) ∧
      k.osInstallTask e stack p = ((k.enterTask.installInto (i+1) n p).exitTask,ok,some (i+1)) := by
  rcases osInstallTask_spec k e stack p with failed | ⟨i,free,prio,vacant,idle,_,_,taken⟩
  · exact Or.inl failed
  · exact Or.inr ⟨i,_,free,prio,vacant,idle,taken⟩

theorem enter_install (links : s.LinksIn s.Installed)
    (who : Option ℕ) {e : Entry} {stack p : ℕ}
    (idle : e = .idle → p = 0 → ∀ u, s.Installed u → s.inst u ≠ 0)
    (meets : p ≠ 0 ∨ e = .idle → P.install s.view p) :
    Entered P s (s.enter who (.install e stack p)) := by
  rcases osInstallTask_cases s.toKernel e stack p with
    ⟨code,hc,h⟩ | ⟨i,n,hf,lt,free,user,h⟩ <;> simp only [enter,Kernel.serve,h]
  · exact .same (by simp) (by simp) links (by simp [nextInst]) rfl
  · obtain ⟨hlt,hfree⟩ := findTcb_free hf
    have range : 1 ≤ i+1 ∧ i+1 ≤ 32 := ⟨by omega,by have := cfg.tasks_le; omega⟩
    have he := s.enterTask.installInto_view s.point s.inst s.held (i+1) n p range lt
    rw [Kernel.enterTask_toCore] at he hfree free
    refine ⟨(Moves.one (.enroll hfree range lt free (fun hp => ?_) (meets user))).trans
      (Moves.same (Eq.trans ?_ he)),?_,?_⟩
    · exact idle (user.resolve_left (not_not.mpr hp)) hp
    · simp only [view,returned_toKernel,returned_point,returned_inst,returned_held,
        Kernel.exitTask_toCore,nextInst,Option.toList_some,if_true]
      rfl
    · simp
    · have kept : s.enterTask.LinksIn s.Installed := fun t ht => links t (by simpa using ht)
      exact fun t ht => kept.installInto (i+1) n p t (by simpa using ht)

/-! ### The way back from a suspension -/

/-- A task that runs again has been selected, or else its wait has timed out. -/
theorem selected_of_wakeUp (hs : View.Sound cfg s.view) {o : Obj} {p w : ℕ}
    (hp : s.point s.currentTask = .pend o p w) (due : p ∈ s.view.ready)
    (h : (s.osEnterCritical.wakeUp o p w).2 = false) : p ∉ s.view.waiting o := by
  intro hw
  have lt : p < cfg.width := by
    have := hs.pending (t := s.currentTask) hp
    exact this.2.1 ▸ hs.prio_lt this.1
  have hl := (s.osEnterCritical.wakeUp_late s.point s.inst s.held (w := w) lt).not.mp
    (by rw [h]; simp)
  obtain ⟨h0,hx⟩ := hs.asleep (t := s.currentTask) hp hw due
  exact hl ⟨h0,hx,hw⟩

theorem wakeMark_late (hs : View.Sound cfg s.view) {o : Obj} {p w : ℕ}
    (hp : s.point s.currentTask = .pend o p w) :
    cfg.tickCountOverflow ≤ s.osEnterCritical.wakeMark w := by
  have h1 := cfg.overflow_lt_exit
  have h2 := cfg.exit_lt_noTimeout
  unfold Kernel.wakeMark
  split_ifs with h
  · rcases h with h | h
    · by_contra hlt
      rcases hs.timed (t := s.currentTask) (hs.pending hp).1 (not_le.mp hlt) with
        ⟨o',p',w',hp',hw'⟩ | ⟨w',hp'⟩
      · rw [show s.point s.currentTask = .pend o' p' w' from hp',Point.pend.injEq] at hp
        exact hw' (hp.2.2.trans h)
      · simp [show s.point s.currentTask = .delay w' from hp'] at hp
    · rw [h]
      exact h1.le
  · exact (h1.trans h2).le

/-- The part of a pend behind ChangeContext, for the events that are not mutexes. -/
theorem Entered.woken {o : Obj} {p w : ℕ} (hs : View.Sound cfg s.view)
    (links : s.LinksIn s.Installed) (hp : s.point s.currentTask = .pend o p w)
    (due : p ∈ s.view.ready) (other : ∀ m, o ≠ .mutex m) {k : Kernel cfg} {code : ℕ}
    {data : List ℕ} {c : Call} (hk : k.toCore = (s.osEnterCritical.wakeUp o p w).1.toCore)
    (vital : k.shell.vital = s.shell.vital)
    (hi : ∀ s : System cfg, s.nextInst c code data = s.inst)
    (hh : ∀ s : System cfg, s.nextHeld s.currentTask c code = s.held) :
    Entered P s ((s.setPoint s.currentTask .run).returned (some s.currentTask) c k code data) := by
  have pending := hs.pending (t := s.currentTask) hp
  have lt : p < cfg.width := pending.2.1 ▸ hs.prio_lt pending.1
  have kept : s.osEnterCritical.LinksIn s.Installed := links
  have hv : ∀ v, (s.osEnterCritical.wakeUp o p w).1.view
        (Function.update s.point s.currentTask .run) s.inst s.held = v →
      ((s.setPoint s.currentTask .run).returned (some s.currentTask) c k code data).view = v := by
    rintro v rfl
    have hh' := hh (s.setPoint s.currentTask .run)
    simp only [view,returned_toKernel,returned_point,returned_inst,returned_held,hi,hk,
      Option.getD_some]
    exact congrArg _ hh'
  refine ⟨?_,vital,fun t ht => kept.wakeUp o p w t (hk ▸ ht)⟩
  by_cases late : (s.osEnterCritical.wakeUp o p w).2
  · rw [hv _ (s.osEnterCritical.wakeUp_view_true s.point s.inst s.held lt late)]
    have := (s.osEnterCritical.wakeUp_late s.point s.inst s.held lt).mp late
    exact .one (.giveUp hp this.2.2 this.2.1)
  · have early : (s.osEnterCritical.wakeUp o p w).2 = false := by simpa using late
    rw [hv _ (s.osEnterCritical.wakeUp_view_false s.point s.inst s.held early)]
    exact .one (.goOn hp other (selected_of_wakeUp hs hp due early) (wakeMark_late hs hp))

theorem resume_mutex {i p w : ℕ} (hs : View.Sound cfg s.view) (links : s.LinksIn s.Installed)
    (hp : s.point s.currentTask = .pend (.mutex i) p w) (due : p ∈ s.view.ready) :
    Entered P s ((s.setPoint s.currentTask .run).returned (some s.currentTask) (.mutexAcquire i w)
      (s.resumeMutexAcquire i p w).1 (s.resumeMutexAcquire i p w).2.1
      (s.resumeMutexAcquire i p w).2.2) := by
  have pending := hs.pending (t := s.currentTask) hp
  have lt : p < cfg.width := pending.2.1 ▸ hs.prio_lt pending.1
  have kept : s.osEnterCritical.LinksIn s.Installed := links
  have vital : (s.osEnterCritical.wakeUp (.mutex i) p w).1.vital = s.vital := by
    rw [← Kernel.shell_vital,Kernel.wakeUp_shell,Kernel.shell_vital,Kernel.osEnterCritical_vital]
  simp only [Kernel.resumeMutexAcquire]
  by_cases late : (s.osEnterCritical.wakeUp (.mutex i) p w).2
  · have hv := s.osEnterCritical.wakeUp_view_true s.point s.inst s.held lt late
    have hl := (s.osEnterCritical.wakeUp_late s.point s.inst s.held lt).mp late
    rw [if_pos late]
    refine ⟨?_,by simp,kept.wakeUp _ _ _⟩
    refine (Moves.one (.giveUp hp hl.2.2 hl.2.1)).trans (Moves.same (Eq.trans ?_ hv))
    simp only [view,returned_toKernel,returned_point,returned_inst,returned_held,
      Option.getD_some,nextHeld_acquire_fail (s := s.setPoint s.currentTask .run)
        (show exitByNoResourceAvailable ≠ ok by decide)]
    rfl
  · have early : (s.osEnterCritical.wakeUp (.mutex i) p w).2 = false := by simpa using late
    have unheld : i ∉ s.held s.currentTask := fun hm => (hs.held_owner hm).2 p w hp
    have selected := selected_of_wakeUp hs hp due early
    have hv := s.osEnterCritical.wakeUp_view_false s.point s.inst s.held early
    rw [if_neg (by simp [early])]
    have owner := hs.assigned (t := s.currentTask) hp selected
    have state : s.view.state i = busyResource := by
      rcases hs.busy pending.2.2 with ⟨_,ho,_⟩ | ⟨hb,_⟩
      · have := (hs.handle pending.1).1
        omega
      · exact hb
    have unchanged : { s.view.mutex i with
        osEventState := busyResource, osEventOwner := s.currentTask } = s.view.mutex i := by
      rw [← state,← owner]
    have kept' := kept.wakeUp (.mutex i) p w
    revert vital hv kept'
    generalize (s.osEnterCritical.wakeUp (.mutex i) p w).1 = k
    intro vital hv kept'
    have hcur := Kernel.currentTask_of_vital vital
    have hprio : k.currentPriority = p := by
      have := congrFun (congrArg View.prio hv) s.currentTask
      rw [← pending.2.1]
      simp only [Kernel.currentPriority,hcur]
      exact this
    have hceil : (k.brtosMutexTable i).osMaxPriority < cfg.width :=
      (congrArg BrtosMutex.osMaxPriority (congrFun (congrArg View.mutex hv) i)).trans_lt
        (ceiling_lt hs i)
    have gained : k.view (Function.update s.point s.currentTask .run) s.inst
        (Function.update s.held s.currentTask (i :: s.held s.currentTask)) =
          (s.view.goOn s.currentTask (s.osEnterCritical.wakeMark w)).gain s.currentTask i := by
      change { k.view (Function.update s.point s.currentTask .run) s.inst s.held with
        held := Function.update s.held s.currentTask (i :: s.held s.currentTask) } = _
      rw [show k.view (Function.update s.point s.currentTask .run) s.inst s.held =
        s.view.goOn s.currentTask (s.osEnterCritical.wakeMark w) from hv]
      simp only [View.gain,View.goOn,unchanged,Function.update_eq_self]
      rfl
    have he := k.raise_view (Function.update s.point s.currentTask .run) s.inst
      (Function.update s.held s.currentTask (i :: s.held s.currentTask)) i (hprio ▸ lt) hceil
    rw [gained,hcur,hprio] at he
    refine ⟨?_,?_,?_⟩
    · refine (Moves.one (.obtain hp selected (wakeMark_late hs hp))).trans
        (Moves.same (Eq.trans ?_ he))
      simp only [view,returned_toKernel,returned_point,returned_inst,returned_held,
        Option.getD_some,nextHeld_acquire_ok (s := s.setPoint s.currentTask .run) unheld]
      rfl
    · simp [vital]
    · exact kept'.raise _ _

end Brtos.System
