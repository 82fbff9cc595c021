import Brtos.Switching

/-! The wait lists: which tasks are on them, and which one a post or a release takes off. -/
namespace Brtos
open Bitmap

/-- The event whose wait list a post or a release looks at. -/
def Call.wakes : Call → Option Obj
  | .semPost i => some (.sem i)
  | .mutexRelease i => some (.mutex i)
  | .mboxPost i _ => some (.mbox i)
  | .queuePost i _ => some (.queue i)
  | .dqueuePost i _ => some (.dqueue i)
  | _ => none

namespace View
variable {cfg : Config} {v : View}

/-- The way back of a task says nothing about the other ones. -/
theorem restore_ready_iff (hs : Sound cfg v) {t u m : ℕ} (ht : v.installed t) (hu : v.installed u)
    (other : u ≠ t) (back : v.Restorable t m) :
    v.prio u ∈ (v.restore t m).ready ↔ v.prio u ∈ v.ready := by
  unfold restore
  split_ifs with h
  · rfl
  · have slot : v.slot (v.saved m) = t := by
      rcases back with hi | ⟨n,_,_,_,hc,hl⟩
      · exact hi ▸ hs.inst_slot ht
      · exact hc ▸ hl
    have apart : v.prio u ≠ v.saved m := fun e => other ((hs.slot hu).symm.trans (e ▸ slot))
    have own : v.prio u ≠ v.prio t := fun e => other (hs.prio_inj hu ht e)
    simp [changePrio,apart,own]

end View

namespace System
variable {cfg : Config} (s : System cfg)

/-- A wait list and its counter: each priority on the list is that of one installed task, which is
suspended on this event only and has not been made ready but by its timeout. -/
structure WaitList (o : Obj) : Prop where
  count : (s.event o).osEventWait = (bits (s.event o).osEventWaitList).card
  waiter {p : ℕ} : p ∈ bits (s.event o).osEventWaitList → ∃! t, s.Installed t ∧
    (s.contextTask t).priority = p
  suspended {t : ℕ} : s.Installed t → (s.contextTask t).priority ∈ bits (s.event o).osEventWaitList →
    ∃ w, s.point t = .pend o (s.contextTask t).priority w ∧
      ((s.contextTask t).priority ∈ bits s.osReadyList →
        (s.contextTask t).timeToWait = cfg.exitByTimeout)
  alone {t : ℕ} {q : Obj} : s.Installed t →
    (s.contextTask t).priority ∈ bits (s.event o).osEventWaitList →
    (s.contextTask t).priority ∈ bits (s.event q).osEventWaitList → q = o

/-- A post or a release gets as far as its wait list and finds a task there. -/
def Finds (c : Call) (o : Obj) : Prop :=
  c.wakes = some o ∧ s.notCreated o = false ∧ (s.event o).osEventWait ≠ 0 ∧
    match c with
    | .mutexRelease i => ¬ (cfg.errorCheck = true ∧ 0 < s.iNesting) ∧
      (s.brtosMutexTable i).osEventOwner = s.currentTask
    | .queuePost i _ => (s.brtosOsQueueTable i).osqEntries < (s.brtosOsQueueTable i).osqLength
    | .dqueuePost i _ => (s.osDqueue i).osqEntries < (s.osDqueue i).osqLength
    | _ => True

/-- Of the tasks on the wait list the one with the highest priority is made ready, and nobody else;
a release may move its caller. -/
structure Wakes (k : Kernel cfg) (o : Obj) (t : ℕ) : Prop where
  waits : ∃ p w, s.point t = .pend o p w ∧ p ∈ bits (s.event o).osEventWaitList
  top {u p w : ℕ} : s.point u = .pend o p w → p ∈ bits (s.event o).osEventWaitList →
    p ≤ (s.contextTask t).priority
  ready : (k.contextTask t).priority ∈ bits k.osReadyList
  others {u : ℕ} : s.Installed u → u ≠ t → (∀ m, o = .mutex m → u ≠ s.currentTask) →
    ((k.contextTask u).priority ∈ bits k.osReadyList ↔
      (s.contextTask u).priority ∈ bits s.osReadyList)

/-- The state in which the handler of the UART makes its post. -/
def uartState (fuel : ℕ) : Option (System cfg) :=
  let pending := s.pendingInterrupts
  let s := { s with toKernel := s.clearInterrupt Kernel.interruptSwc }
  if pending.getLsbD interruptTick then
    (s.tick fuel).map fun k => { s with toKernel := k.clearInterrupt interruptTick }
  else some s

theorem process_eq (fuel uartQueue uartData : ℕ) : s.process fuel uartQueue uartData =
    (s.uartState fuel).map fun u =>
      let u := if s.pendingInterrupts.getLsbD interruptUart then
          let u := u.enter none (.queuePost uartQueue uartData)
          { u with toKernel := u.clearInterrupt interruptUart }
        else u
      { u with toKernel := u.select } := rfl

variable {s} {t : System cfg}

theorem waitList_of_sound (hs : View.Sound cfg s.view) (o : Obj) : s.WaitList o where
  count := hs.count o
  waiter {p} hp := by
    obtain ⟨t,w,_,hi,ht⟩ := hs.waiter (o := o) hp
    exact ⟨t,⟨hi,ht⟩,fun u hu => hs.prio_inj hu.1 hi (hu.2.trans ht.symm)⟩
  suspended {t} ht hp := by
    obtain ⟨u,w,hu,hi,he⟩ := hs.waiter (o := o) hp
    obtain rfl : u = t := hs.prio_inj hi ht he
    exact ⟨w,hu,fun hr => (hs.asleep hu hp hr).2⟩
  alone {t q} ht hp hq := by
    obtain ⟨u,w,hu,hi,he⟩ := hs.waiter (o := o) hp
    exact hs.waiter_unique hu hq

/-! ### Posts -/

theorem wakeHighest_congr {k l : Kernel cfg} (h : k.toCore = l.toCore) (o : Obj) :
    (k.wakeHighest o).toCore = (l.wakeHighest o).toCore := by
  simp only [Kernel.wakeHighest,Kernel.setReady,Kernel.unlist,Kernel.setEvent,Kernel.highestWaiting,h]

theorem queuePost_core {d : Kernel.QueueKind} {i : ℕ} (created : s.notCreated (d.obj i) = false)
    (wait : (s.event (d.obj i)).osEventWait ≠ 0)
    (room : (s.queue d i).osqEntries < (s.queue d i).osqLength) (bytes : List ℕ) :
    (s.queuePost d i bytes).1.toCore = (s.wakeHighest (d.obj i)).toCore := by
  have queue' : s.enterNesting.queue d i = s.queue d i := by
    unfold Kernel.enterNesting
    split_ifs <;> rfl
  have some_ := (write_isSome (s.queue d i) bytes).mpr room
  obtain ⟨q,hq⟩ := Option.isSome_iff_exists.mp some_
  have wait' : ((s.enterNesting.setQueue d i q).event (d.obj i)).osEventWait ≠ 0 := by simpa using wait
  simp only [Kernel.queuePost,enterNesting_notCreated,created,queue',hq]
  rw [if_neg Bool.false_ne_true,if_pos wait',Kernel.exitNesting_toCore,
    Kernel.changeContextUnnested_toCore]
  exact wakeHighest_congr (by simp) _

/-- A post that finds a task on the wait list takes the highest priority off it. -/
theorem post_core {c : Call} {o : Obj} (h : s.Finds c o) (post : ∀ m, o ≠ .mutex m) :
    (s.serve c).1.toCore = (s.wakeHighest o).toCore := by
  obtain ⟨target,created,wait,room⟩ := h
  have wait' : (s.enterNesting.event o).osEventWait ≠ 0 := by simpa using wait
  cases c with
  | semPost i =>
    obtain rfl := Option.some.inj target
    simp only [Kernel.serve,Kernel.osSemPost,enterNesting_notCreated,created]
    rw [if_neg Bool.false_ne_true,if_pos wait',Kernel.exitNesting_toCore,
      Kernel.changeContextUnnested_toCore]
    exact wakeHighest_congr (by simp) _
  | mboxPost i m =>
    obtain rfl := Option.some.inj target
    simp only [Kernel.serve,Kernel.osMboxPost,enterNesting_notCreated,created]
    rw [if_neg Bool.false_ne_true,if_pos wait',if_pos wait',Kernel.exitNesting_toCore,
      Kernel.changeContextUnnested_toCore,Kernel.setMbox_toCore]
    exact wakeHighest_congr (by simp) _
  | queuePost i b =>
    obtain rfl := Option.some.inj target
    exact queuePost_core (d := .static) created wait room [b]
  | dqueuePost i pdata =>
    obtain rfl := Option.some.inj target
    exact queuePost_core (d := .dynamic) created wait room _
  | mutexRelease i => exact absurd (Option.some.inj target).symm (post i)
  | _ => simp [Call.wakes] at target

theorem wakes_of_post (hs : View.Sound cfg s.view) {c : Call} {o : Obj} (h : s.Finds c o)
    (post : ∀ m, o ≠ .mutex m) : ∃ t, s.Wakes (s.serve c).1 o t := by
  have some_ : (s.view.waiting o).Nonempty := by
    rw [← Finset.card_pos,← hs.count o]
    exact Nat.pos_of_ne_zero h.2.2.1
  have top := s.highestWaiting_isTop s.point s.inst s.held o some_
  have lt := s.highestWaiting_lt s.point s.inst s.held o some_
  have core := post_core h post
  have ready : bits (s.wakeHighest o).osReadyList =
      insert (s.highestWaiting o) (bits s.osReadyList) := wakeHighest_ready _ o lt
  obtain ⟨t,w,ht,hi,hp⟩ := hs.waiter top.1
  refine ⟨t,⟨⟨_,w,ht,top.1⟩,fun hu hq => (top.2 _ hq).trans_eq hp.symm,?_,fun hu hne _ => ?_⟩⟩
  · rw [core,ready]
    exact Finset.mem_insert.mpr (Or.inl hp)
  · rw [core,ready,Finset.mem_insert]
    refine or_iff_right fun e => hne ?_
    exact hs.prio_inj hu hi (e.trans hp.symm)

/-! ### Releases -/

theorem wakes_of_release (hs : View.Sound cfg s.view) (caller : s.Caller) {i : ℕ}
    (h : s.Finds (.mutexRelease i) (.mutex i)) (back : s.view.Restorable s.currentTask i) :
    ∃ t, s.Wakes (s.osMutexRelease i).1 (.mutex i) t := by
  obtain ⟨_,created,wait,calm,owner⟩ := h
  obtain ⟨p,top,he⟩ := passedOn_view hs caller back wait
  rw [osMutexRelease_owner calm created owner (restored hs caller back).2,if_pos wait]
  revert he
  generalize ((s.osEnterCritical.restore i).setMutex i fun m => { m with osEventOwner := 0 }).passOn i
    = k
  intro he
  have prio : ∀ u, (k.contextTask u).priority = (s.view.restore s.currentTask i).prio u :=
    congrFun (congrArg View.prio he)
  have ready : bits k.osReadyList = insert p (s.view.restore s.currentTask i).ready :=
    congrArg View.ready he
  have stays : ∀ {u}, u ≠ s.currentTask → (s.view.restore s.currentTask i).prio u = s.view.prio u :=
    fun hu => by rw [View.restore_prio,Function.update_of_ne hu]
  obtain ⟨t,w,ht,hi,hp⟩ := hs.waiter top.1
  have other : t ≠ s.currentTask := by
    rintro rfl
    exact absurd (caller.run.symm.trans ht) (by simp)
  refine ⟨t,⟨⟨p,w,ht,top.1⟩,fun hu hq => (top.2 _ hq).trans_eq hp.symm,?_,fun {u} hu hne far => ?_⟩⟩
  · change (k.contextTask t).priority ∈ bits k.osReadyList
    rw [prio,ready,stays other,hp]
    exact Finset.mem_insert_self _ _
  · have apart := far i rfl
    change (k.contextTask u).priority ∈ bits k.osReadyList ↔ s.view.prio u ∈ s.view.ready
    rw [prio,ready,stays apart,Finset.mem_insert,
      View.restore_ready_iff hs caller.inst hu apart back]
    refine or_iff_right fun e => hne ?_
    exact hs.prio_inj hu hi (e.trans hp.symm)

/-! ### Runs -/

/-- The state in which the UART posts is as sound as the one before the interrupts. -/
theorem uartState_handled (h : s.Inv) {fuel : ℕ} {u : System cfg} (hu : s.uartState fuel = some u) :
    Handled .restoring s u := by
  have first : Handled .restoring s { s with toKernel := s.clearInterrupt Kernel.interruptSwc } :=
    Handled.same { h.toTidy with moves := .refl, started := rfl } rfl rfl
  unfold uartState at hu
  dsimp only at hu
  split_ifs at hu
  · obtain ⟨k,hk,rfl⟩ := Option.map_eq_some_iff.mp hu
    have ticked := first.tick View.Policy.restoring_safe trivial hk
    exact ticked.same (k := k.clearInterrupt interruptTick) rfl rfl
  · exact Option.some.inj hu ▸ first

/-- In every run whose releases go back to a priority of their caller the wait lists are those of the
suspended tasks, and a post or release that finds one of them wakes the highest. -/
theorem waitLists_of_reaches (run : Reaches .restoring (init cfg) s) : (∀ o, s.WaitList o) ∧
    (∀ {c : Call} {a : Action} {t : System cfg} {o : Obj},
      a = .call c ∨ a = .isrCall c ∨ a = .main c → s.Allowed .restoring a → s.step a = some t →
        s.Finds c o → ∃ u, s.Wakes t.toKernel o u) ∧
    ∀ {fuel uartQueue uartData : ℕ} {u : System cfg} {o : Obj}, s.uartState fuel = some u →
      u.Finds (.queuePost uartQueue uartData) o →
        ∃ t, u.Wakes (u.serve (.queuePost uartQueue uartData)).1 o t := by
  obtain ⟨_,h,_⟩ := run.inv View.Policy.restoring_safe trivial init_inv
  refine ⟨waitList_of_sound h.sound,?_,?_⟩
  · intro c a t o ha ok next found
    by_cases release : ∃ i, c = .mutexRelease i
    · obtain ⟨i,rfl⟩ := release
      obtain rfl : Obj.mutex i = o := Option.some.inj found.1
      rcases ha with rfl | rfl | rfl
      · simp only [step] at next
        split_ifs at next with hg
        obtain rfl := Option.some.inj next
        have caller := h.caller hg.1.1 hg.2.1 hg.2.2
        rw [enter_toKernel]
        exact wakes_of_release h.sound caller found
          (ok.1.2 (held_of_owner h.sound caller found.2.2.2.2))
      · simp [step,Call.fromIsr] at next
      · simp [step,Call.fromMain] at next
    · have post : ∀ m, o ≠ .mutex m := by
        rintro m rfl
        cases c with
        | mutexRelease i => exact release ⟨i,rfl⟩
        | _ => simp [Finds,Call.wakes] at found
      have served : t.toKernel = (s.serve c).1 := by
        rcases ha with rfl | rfl | rfl <;>
        · simp only [step] at next
          split_ifs at next
          obtain rfl := Option.some.inj next
          exact enter_toKernel _ _
      rw [served]
      exact wakes_of_post h.sound found post
  · intro fuel i b u o hu found
    refine wakes_of_post (uartState_handled h hu).sound found ?_
    rintro m rfl
    simp [Finds,Call.wakes] at found

/-- One task waits for a semaphore, and the other one posts. -/
theorem waitLists_run : ∃ s t : System .port, s.step (.call (.semPost 0)) = some t ∧
    (s.event (.sem 0)).osEventWait = 1 ∧ s.WaitList (.sem 0) ∧ ∃ u, s.Wakes t.toKernel (.sem 0) u := by
  obtain ⟨s,run,⟨ok,created,one⟩,next⟩ := Run.exists_reach_of_exec step
    (fun s a => s.Allowed .restoring a) (init .port) wakingRun
    (fun s => (s.Allowed .restoring (.call (.semPost 0)) ∧ s.notCreated (.sem 0) = false ∧
      (s.event (.sem 0)).osEventWait = 1) ∧ (s.step (.call (.semPost 0))).isSome = true)
    (by decide +kernel)
  obtain ⟨t,ht⟩ := Option.isSome_iff_exists.mp next
  obtain ⟨lists,posts,_⟩ := waitLists_of_reaches run
  exact ⟨s,t,ht,one,lists _,posts (Or.inl rfl) ok ht ⟨rfl,created,by omega,trivial⟩⟩

/-- A mutex without a ceiling takes task 1 back to the ceiling of a mutex it has given back; task 2
acquires that one, and now two tasks with one priority wait for a semaphore. -/
theorem waitLists_fails : ∃ s : System .port,
    Run.Reach step (fun s a => s.Lawful .oneCeiling a) (init .port) s ∧
      s.Created (.sem 0) ∧ (s.event (.sem 0)).osEventWait ≠
        (bits (s.event (.sem 0)).osEventWaitList).card :=
  Run.exists_reach_of_exec _ _ _
    [.main (.install (.user 1) 16 3),.main (.install (.user 2) 16 4),.main (.mutexCreate 5),
      .main (.mutexCreate 0),.main (.semCreate 0),.start,.call (.delayTask 1),.switch,
      .call (.mutexAcquire 0 0),.call (.mutexAcquire 1 0),.call (.mutexRelease 0),
      .call (.mutexRelease 1),.call (.semPend 0 0),.switch,.isrEnter,.isrTick 2,.isrExit,.resume,
      .call (.mutexAcquire 0 0),.call (.semPend 0 0)] _ (by decide +kernel)

end System
end Brtos
