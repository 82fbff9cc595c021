import Brtos.Contract

/-! Each service, seen on the view, is a sequence of moves. -/
namespace Brtos

abbrev Moves (cfg : Config) (P : View.Policy) : View → View → Prop :=
  Relation.ReflTransGen (View.Move cfg P)

theorem Moves.one {cfg : Config} {P : View.Policy} {v w : View} (h : View.Move cfg P v w) :
    Moves cfg P v w := .single h

theorem Moves.same {cfg : Config} {P : View.Policy} {v w : View} (h : w = v) :
    Moves cfg P v w := h ▸ .refl

namespace System
variable {cfg : Config} {P : View.Policy} {s : System cfg}

/-- What a service call changes at most, besides the moves on the view. -/
structure Entered (P : View.Policy) (s t : System cfg) : Prop where
  moves : Moves cfg P s.view t.view
  vital : t.shell.vital = s.shell.vital
  links : t.LinksIn s.Installed

@[simp] theorem returned_toKernel (who : Option ℕ) (c : Call) (k : Kernel cfg) (code : ℕ)
    (data : List ℕ) : (s.returned who c k code data).toKernel = k := rfl

@[simp] theorem returned_point (who : Option ℕ) (c : Call) (k : Kernel cfg) (code : ℕ)
    (data : List ℕ) : (s.returned who c k code data).point = s.point := rfl

@[simp] theorem returned_inst (who : Option ℕ) (c : Call) (k : Kernel cfg) (code : ℕ)
    (data : List ℕ) : (s.returned who c k code data).inst = s.nextInst c code data := rfl

@[simp] theorem returned_held (who : Option ℕ) (c : Call) (k : Kernel cfg) (code : ℕ)
    (data : List ℕ) :
    (s.returned who c k code data).held = s.nextHeld (who.getD 0) c code := rfl

theorem enter_ret {who : Option ℕ} {c : Call} {code : ℕ} {data : List ℕ}
    (reply : (s.serve c).2 = .ret code data) :
    s.enter who c = s.returned who c (s.serve c).1 code data := by
  simp only [enter,reply]

theorem enter_sleep {who : Option ℕ} {c : Call} {p : Point} (reply : (s.serve c).2 = .sleep p) :
    s.enter who c = ({ s with toKernel := (s.serve c).1 } : System cfg).setPoint s.currentTask p := by
  simp only [enter,reply]

/-- A call that returns with the scheduler's data as they were. -/
theorem Entered.same {who : Option ℕ} {c : Call} {k : Kernel cfg} {code : ℕ} {data : List ℕ}
    (hk : k.toCore = s.toCore) (vital : k.shell.vital = s.shell.vital)
    (links : s.LinksIn s.Installed)
    (hi : s.nextInst c code data = s.inst) (hh : s.nextHeld (who.getD 0) c code = s.held) :
    Entered P s (s.returned who c k code data) where
  moves := .same (by simp [view,hk,hi,hh])
  vital := vital
  links t ht := links t (hk ▸ ht)

/-- A call that returns after waking the highest waiting task. -/
theorem Entered.woke {who : Option ℕ} {c : Call} {k l : Kernel cfg} {code : ℕ} {data : List ℕ}
    {o : Obj} (hs : View.Sound cfg s.view) (hl : l.toCore = s.toCore)
    (hk : k.toCore = (l.wakeHighest o).toCore) (vital : k.shell.vital = s.shell.vital)
    (links : s.LinksIn s.Installed) (waiting : (s.event o).osEventWait ≠ 0)
    (other : ∀ m, o ≠ .mutex m)
    (hi : s.nextInst c code data = s.inst) (hh : s.nextHeld (who.getD 0) c code = s.held) :
    Entered P s (s.returned who c k code data) := by
  have some_ : (l.view s.point s.inst s.held).waiting o |>.Nonempty := by
    rw [hl,← Finset.card_pos,← hs.count o]
    exact Nat.pos_of_ne_zero waiting
  refine ⟨?_,vital,?_⟩
  · have hv := l.wakeHighest_view s.point s.inst s.held o some_
    have top := l.highestWaiting_isTop s.point s.inst s.held o some_
    rw [hl] at hv top
    have he : (s.returned who c k code data).view =
        s.view.rouse o (l.highestWaiting o) := by
      simpa [view,hk,hi,hh] using hv
    rw [he]
    exact .one (.rouse top other)
  · have kept : l.LinksIn s.Installed := fun t ht => links t (hl ▸ ht)
    exact fun t ht => kept t (hk ▸ ht : (l.wakeHighest o).Linked t)

/-- A pend that goes to sleep. -/
theorem Entered.slept {o : Obj} {w : ℕ} {k : Kernel cfg} (hk : k.toCore = s.toCore)
    (hv : k.vital = s.vital) (hs : View.Sound cfg s.view) (links : s.LinksIn s.Installed)
    (inst : s.Installed s.currentTask) (idle : s.inst s.currentTask ≠ 0)
    (run : s.point s.currentTask = .run) (created : s.Created o)
    (busy : ∀ m, o = .mutex m → (s.brtosMutexTable m).osEventOwner ≠ s.currentTask ∧
      (s.brtosMutexTable m).osEventState ≠ availableResource)
    (met : ∀ m, o = .mutex m → P.acquire s.view s.currentTask m) :
    Entered P s (({ s with toKernel := (k.suspend o w).1 } : System cfg).setPoint s.currentTask
      (.pend o s.currentPriority w)) := by
  have hc : k.currentTask = s.currentTask := congrArg Prod.fst hv
  have hp : k.currentPriority = s.currentPriority := by
    simp only [Kernel.currentPriority,hc,hk]
  have lt : s.currentPriority < cfg.width := hs.prio_lt (t := s.currentTask) inst
  refine ⟨?_,?_,?_⟩
  · have := k.suspend_view s.point s.inst s.held o w (hp ▸ lt)
    rw [hc,hp,hk] at this
    have he : (({ s with toKernel := (k.suspend o w).1 } : System cfg).setPoint s.currentTask
        (.pend o s.currentPriority w)).view =
          s.view.sleep s.currentTask o w (k.sleepUntil w) := this
    rw [he]
    refine .one (.sleep inst idle run created busy met fun h0 => ?_)
    simp [Kernel.sleepUntil,h0]
  · simp only [setPoint,Kernel.suspend_shell,Kernel.shell_vital]
    exact hv
  · have kept : k.LinksIn s.Installed := fun t ht => links t (hk ▸ ht)
    exact kept.suspend (hc ▸ inst) o w

theorem enter_semPost (hs : View.Sound cfg s.view) (links : s.LinksIn s.Installed)
    (who : Option ℕ) (i : ℕ) : Entered P s (s.enter who (.semPost i)) := by
  simp only [enter,Kernel.serve,Kernel.osSemPost]
  split_ifs with h1 h2 h3
  · exact .same (by simp) (by simp) links rfl rfl
  · exact .woke hs (o := .sem i) (l := s.enterNesting) (by simp) (by simp) (by simp) links
      (by simpa using h2) (by simp) rfl rfl
  · exact .same (by simp) (by simp) links rfl rfl
  · exact .same (by simp) (by simp) links rfl rfl

theorem enter_mboxPost (hs : View.Sound cfg s.view) (links : s.LinksIn s.Installed)
    (who : Option ℕ) (i m : ℕ) : Entered P s (s.enter who (.mboxPost i m)) := by
  simp only [enter,Kernel.serve,Kernel.osMboxPost]
  split_ifs with h1 h2
  · exact .same (by simp) (by simp) links rfl rfl
  · exact .woke hs (o := .mbox i) (l := s.enterNesting) (by simp) (by simp) (by simp) links
      (by simpa using h2) (by simp) rfl rfl
  · exact .same (by simp) (by simp) links rfl rfl

theorem enter_queuePost (hs : View.Sound cfg s.view) (links : s.LinksIn s.Installed)
    (who : Option ℕ) (d : Kernel.QueueKind) (i : ℕ) (bytes : List ℕ) (c : Call)
    (hi : ∀ code data, s.nextInst c code data = s.inst)
    (hh : ∀ t code, s.nextHeld t c code = s.held)
    (hc : s.serve c = s.queuePost d i bytes) : Entered P s (s.enter who c) := by
  simp only [enter,hc,Kernel.queuePost]
  split_ifs with h1
  · exact .same (by simp) (by simp) links (hi _ _) (hh _ _)
  · cases (s.enterNesting.queue d i).write bytes with
    | none => exact .same (by simp) (by simp) links (hi _ _) (hh _ _)
    | some q =>
      dsimp only
      split_ifs with h2
      · exact .woke hs (o := d.obj i) (l := s.enterNesting.setQueue d i q) (by simp) (by simp)
          (by simp) links (by simpa using h2) (by cases d <;> simp [Kernel.QueueKind.obj]) (hi _ _) (hh _ _)
      · exact .same (by simp) (by simp) links (hi _ _) (hh _ _)

/-- A task calls a pend: its handle, and what makes it fit to go to sleep. -/
structure Caller (s : System cfg) : Prop where
  inst : s.Installed s.currentTask
  idle : s.inst s.currentTask ≠ 0
  run : s.point s.currentTask = .run

theorem enter_semPend (hs : View.Sound cfg s.view) (links : s.LinksIn s.Installed)
    (caller : s.Caller) {i : ℕ} (legal : s.Created (.sem i)) (who : Option ℕ) (w : ℕ) :
    Entered P s (s.enter who (.semPend i w)) := by
  simp only [enter,Kernel.serve,Kernel.osSemPend]
  split_ifs
  · exact .same rfl rfl links rfl rfl
  · exact .same (by simp) (by simp) links rfl rfl
  · exact .same (by simp) (by simp) links rfl rfl
  · exact .same (by simp) (by simp) links rfl rfl
  · exact .slept (k := s.osEnterCritical) rfl (by simp) hs links caller.inst caller.idle caller.run legal
      (by simp) (by simp)

theorem enter_mboxPend (hs : View.Sound cfg s.view) (links : s.LinksIn s.Installed)
    (caller : s.Caller) {i : ℕ} (legal : s.Created (.mbox i)) (who : Option ℕ) (w : ℕ) :
    Entered P s (s.enter who (.mboxPend i w)) := by
  simp only [enter,Kernel.serve,Kernel.osMboxPend,Kernel.takeMail]
  split_ifs
  · exact .same rfl rfl links rfl rfl
  · exact .same (by simp) (by simp) links rfl rfl
  · exact .same (by simp) (by simp) links rfl rfl
  · exact .same (by simp) (by simp) links rfl rfl
  · exact .slept (k := s.osEnterCritical) rfl (by simp) hs links caller.inst caller.idle caller.run legal
      (by simp) (by simp)

theorem enter_queuePend (hs : View.Sound cfg s.view) (links : s.LinksIn s.Installed)
    (caller : s.Caller) {d : Kernel.QueueKind} {i : ℕ} (legal : s.Created (d.obj i))
    (who : Option ℕ) (w : ℕ) : Entered P s (s.enter who (.queuePend d i w)) := by
  have other : ∀ m, d.obj i ≠ .mutex m := by cases d <;> simp [Kernel.QueueKind.obj]
  simp only [enter,Kernel.serve,Kernel.queuePend]
  split_ifs
  · exact .same rfl rfl links rfl rfl
  · exact .same (by simp) (by simp) links rfl rfl
  · exact .same (by simp) (by simp) links rfl rfl
  · exact .same (by simp) (by simp) links rfl rfl
  · exact .slept (k := s.osEnterCritical) rfl (by simp) hs links caller.inst caller.idle caller.run legal
      (fun m hm => absurd hm (other m)) fun m hm => absurd hm (other m)

theorem findEvent_free {k : Kernel cfg} {obj : ℕ → Obj} {max i : ℕ}
    (h : k.findEvent obj max = some i) : (k.event (obj i)).osEventAllocated ≠ 1 := by
  simpa using List.find?_some h

/-- A control block that is not allocated becomes an event. -/
theorem Entered.established {who : Option ℕ} {c : Call} {k l : Kernel cfg} {code : ℕ}
    {data : List ℕ} {o : Obj} (hs : View.Sound cfg s.view) (hl : l.toCore = s.toCore)
    (hk : k.toCore = (l.allocEvent o).toCore) (vital : k.shell.vital = s.shell.vital)
    (links : s.LinksIn s.Installed) (free : (l.event o).osEventAllocated ≠ 1)
    (heap : o.onHeap = false) (other : ∀ m, o ≠ .mutex m)
    (hi : s.nextInst c code data = s.inst) (hh : s.nextHeld (who.getD 0) c code = s.held) :
    Entered P s (s.returned who c k code data) := by
  refine ⟨?_,vital,?_⟩
  · have hv := l.allocEvent_view s.point s.inst s.held o
    rw [hl] at hv free
    have he : (s.returned who c k code data).view = s.view.establish o := by
      simpa [view,hk,hi,hh] using hv
    rw [he]
    refine .one (.establish (fun t p w ht => ?_) other)
    rcases (hs.pending ht).2.2 with hc | hc
    · simp [heap] at hc
    · exact free hc
  · have kept : l.LinksIn s.Installed := fun t ht => links t (hl ▸ ht)
    exact fun t ht => kept t (hk ▸ ht : (l.allocEvent o).Linked t)

theorem enter_semCreate (hs : View.Sound cfg s.view) (links : s.LinksIn s.Installed)
    (who : Option ℕ) (cnt : ℕ) : Entered P s (s.enter who (.semCreate cnt)) := by
  by_cases hn : 0 < s.iNesting <;> simp only [enter,Kernel.serve,Kernel.osSemCreate,hn,if_true,if_false]
  · exact .same rfl rfl links rfl rfl
  · cases h : s.enterTask.findEvent .sem cfg.brtosMaxSem with
    | none => exact .same (by simp) (by simp) links rfl rfl
    | some i =>
      exact .established hs (o := .sem i) (l := s.enterTask) (by simp) (by simp) (by simp) links
        (findEvent_free h) rfl (by simp) rfl rfl

theorem enter_semBinaryCreate (hs : View.Sound cfg s.view) (links : s.LinksIn s.Installed)
    (who : Option ℕ) (bit : ℕ) : Entered P s (s.enter who (.semBinaryCreate bit)) := by
  by_cases hn : 0 < s.iNesting <;> simp only [enter,Kernel.serve,Kernel.osSemBinaryCreate,hn,if_true,if_false]
  · exact .same rfl rfl links rfl rfl
  · cases h : s.enterTask.findEvent .sem cfg.brtosMaxSem with
    | none => exact .same (by simp) (by simp) links rfl rfl
    | some i =>
      exact .established hs (o := .sem i) (l := s.enterTask) (by simp) (by simp) (by simp) links
        (findEvent_free h) rfl (by simp) rfl rfl

theorem enter_mboxCreate (hs : View.Sound cfg s.view) (links : s.LinksIn s.Installed)
    (who : Option ℕ) (m : ℕ) : Entered P s (s.enter who (.mboxCreate m)) := by
  by_cases hn : 0 < s.iNesting <;> simp only [enter,Kernel.serve,Kernel.osMboxCreate,hn,if_true,if_false]
  · exact .same rfl rfl links rfl rfl
  · cases h : s.enterTask.findEvent .mbox cfg.brtosMaxMbox with
    | none => exact .same (by simp) (by simp) links rfl rfl
    | some i =>
      exact .established hs (o := .mbox i) (l := s.enterTask) (by simp) (by simp) (by simp) links
        (findEvent_free h) rfl (by simp) rfl rfl

theorem enter_queueCreate (hs : View.Sound cfg s.view) (links : s.LinksIn s.Installed)
    (who : Option ℕ) (size : ℕ) : Entered P s (s.enter who (.queueCreate size)) := by
  by_cases hn : 0 < s.iNesting <;>
    simp only [enter,Kernel.serve,Kernel.osQueueCreate,hn,if_true,if_false]
  · exact .same rfl rfl links rfl rfl
  · generalize (if size%cfg.sizeofCpuType ≠ 0 then
      (size+(cfg.sizeofCpuType-size%cfg.sizeofCpuType))%65536 else size) = n
    by_cases hm : s.enterTask.NoRoom (n/cfg.sizeofCpuType) <;> simp only [hm,if_true,if_false]
    · exact .same (by simp) (by simp) links rfl rfl
    · cases h : s.enterTask.findEvent .queue cfg.brtosMaxQueue with
      | none => exact .same (by simp) (by simp) links rfl rfl
      | some i =>
        exact .established hs (o := .queue i) (l := s.enterTask) (by simp)
          (by simp [Kernel.allocEvent,Kernel.setEvent])
          (by simp; exact s.toKernel.enterTask_vital) links (findEvent_free h) rfl (by simp) rfl rfl

/-- The deletion of an event that nobody waits for. -/
theorem Entered.abolished {who : Option ℕ} {c : Call} {k l : Kernel cfg} {code : ℕ}
    {data : List ℕ} {o : Obj} (hl : l.toCore = s.toCore)
    (hk : k.toCore = (l.freeEvent o).toCore) (vital : k.shell.vital = s.shell.vital)
    (links : s.LinksIn s.Installed) (heap : o.onHeap = false) (other : ∀ m, o ≠ .mutex m)
    (quiet : s.view.Unattended o)
    (hi : s.nextInst c code data = s.inst) (hh : s.nextHeld (who.getD 0) c code = s.held) :
    Entered P s (s.returned who c k code data) := by
  refine ⟨?_,vital,?_⟩
  · have hv := l.freeEvent_view s.point s.inst s.held o heap
    rw [hl] at hv
    have he : (s.returned who c k code data).view = s.view.abolish o := by
      simpa [view,hk,hi,hh] using hv
    rw [he]
    exact .one (.abolish quiet other)
  · have kept : l.LinksIn s.Installed := fun t ht => links t (hl ▸ ht)
    exact fun t ht => kept t (hk ▸ ht : (l.freeEvent o).Linked t)

/-- Handles end at 32, so the contract's test covers every task. -/
theorem unattended_of_quiet (hs : View.Sound cfg s.view) {o : Obj} (h : s.Quiet o) :
    s.view.Unattended o := by
  intro t p w ht
  have := hs.handle (hs.pending ht).1
  refine h t (by omega) ?_
  rw [show s.point t = .pend o p w from ht]
  rfl

theorem enter_semDelete (hs : View.Sound cfg s.view) (links : s.LinksIn s.Installed) {i : ℕ}
    (legal : s.Legal (.semDelete i)) (who : Option ℕ) :
    Entered P s (s.enter who (.semDelete i)) := by
  simp only [enter,Kernel.serve,Kernel.osSemDelete]
  split_ifs
  · exact .same rfl rfl links rfl rfl
  · exact .abolished (o := .sem i) (l := s.osEnterCritical) rfl (by simp) (by simp) links rfl
      (by simp) (unattended_of_quiet hs legal.2) rfl rfl

theorem enter_mboxDelete (hs : View.Sound cfg s.view) (links : s.LinksIn s.Installed) {i : ℕ}
    (legal : s.Legal (.mboxDelete i)) (who : Option ℕ) :
    Entered P s (s.enter who (.mboxDelete i)) := by
  simp only [enter,Kernel.serve,Kernel.osMboxDelete]
  split_ifs
  · exact .same rfl rfl links rfl rfl
  · exact .abolished (o := .mbox i) (l := s.osEnterCritical) rfl (by simp) (by simp) links rfl
      (by simp) (unattended_of_quiet hs legal.2) rfl rfl

/-- The wait list of a dynamic queue is emptied, by its creation or by its deletion. -/
theorem Entered.emptied {who : Option ℕ} {c : Call} {k l : Kernel cfg} {code : ℕ}
    {data : List ℕ} {i : ℕ} {f : OsEvent cfg → OsEvent cfg} (hl : l.toCore = s.toCore)
    (hk : k.toCore = (l.setEvent (.dqueue i) f).toCore)
    (hf : ∀ e, (f e).osEventWait = 0 ∧ (f e).osEventWaitList = 0#_)
    (vital : k.shell.vital = s.shell.vital) (links : s.LinksIn s.Installed)
    (quiet : s.view.Unattended (.dqueue i))
    (hi : s.nextInst c code data = s.inst) (hh : s.nextHeld (who.getD 0) c code = s.held) :
    Entered P s (s.returned who c k code data) := by
  refine ⟨?_,vital,?_⟩
  · have created : (l.setEvent (.dqueue i) f).Created = fun q => l.Created q ∨ q = .dqueue i := by
      funext q
      by_cases e : q = .dqueue i <;> simp [Core.Created,Kernel.setEvent,e,Obj.onHeap]
    have hv : (l.setEvent (.dqueue i) f).view s.point s.inst s.held =
        (l.view s.point s.inst s.held).establish (.dqueue i) := by
      simp only [Core.view,created]
      simp only [Kernel.setEvent,map_update OsEvent.osEventWait,
        map_update (fun e : OsEvent cfg => Bitmap.bits e.osEventWaitList),hf,Bitmap.bits_zero]
      rfl
    rw [hl] at hv
    have he : (s.returned who c k code data).view = s.view.establish (.dqueue i) := by
      simpa [view,hk,hi,hh] using hv
    rw [he]
    exact .one (.establish quiet (by simp))
  · have kept : l.LinksIn s.Installed := fun t ht => links t (hl ▸ ht)
    exact fun t ht => kept t (hk ▸ ht : (l.setEvent (.dqueue i) f).Linked t)

theorem enter_dqueueCreate (hs : View.Sound cfg s.view) (links : s.LinksIn s.Installed)
    {a : Kernel.Alloc} {l t : ℕ} (legal : s.Legal (.dqueueCreate a l t)) (who : Option ℕ) :
    Entered P s (s.enter who (.dqueueCreate a l t)) := by
  obtain ⟨handler,start,event⟩ := a
  by_cases hn : 0 < s.iNesting <;>
    simp only [enter,Kernel.serve,Kernel.osDQueueCreate,hn,if_true,if_false]
  · exact .same rfl rfl links rfl rfl
  · by_cases hp : 0 < l ∧ 0 < t <;> simp only [hp,if_false]
    · rcases handler with _ | i <;> rcases start with _ | start
      · exact .same (by simp) (by simp) links rfl rfl
      · exact .same (by simp) (by simp) links rfl rfl
      · exact .same (by simp) (by simp) links rfl rfl
      · cases event
        · exact .same (by simp) (by simp) links rfl rfl
        · exact .emptied (i := i) (f := fun e => { e with osEventWait := 0, osEventWaitList := 0#_ })
            (l := s.enterTask.setQueue .dynamic i _) (by simp) (by simp; rfl) (by simp) (by simp) links
            (unattended_of_quiet hs (legal.2 i rfl)) rfl rfl
    · exact .same (by simp) (by simp) links rfl rfl

theorem enter_dqueueDelete (hs : View.Sound cfg s.view) (links : s.LinksIn s.Installed) {i : ℕ}
    (legal : s.Legal (.dqueueDelete i)) (who : Option ℕ) :
    Entered P s (s.enter who (.dqueueDelete i)) := by
  simp only [enter,Kernel.serve,Kernel.osDQueueDelete]
  split_ifs
  · exact .same rfl rfl links rfl rfl
  · exact .emptied (i := i) (f := fun _ => ⟨0,0,0#_⟩) (l := s.osEnterCritical) rfl (by simp; rfl) (by simp)
      (by simp) links (unattended_of_quiet hs legal) rfl rfl

theorem enter_delayTask (hs : View.Sound cfg s.view) (links : s.LinksIn s.Installed)
    (caller : s.currentTask ≠ 0 → s.Caller) (who : Option ℕ) (w : ℕ) :
    Entered P s (s.enter who (.delayTask w)) := by
  by_cases h1 : 0 < s.iNesting
  · simp only [enter,Kernel.serve,Kernel.osDelayTask,h1,if_true]
    exact .same rfl rfl links rfl rfl
  by_cases h2 : s.currentTask = 0
  · simp only [enter,Kernel.serve,Kernel.osDelayTask,h1,h2,if_true,if_false]
    exact .same rfl rfl links rfl rfl
  by_cases h3 : w = 0
  · simp only [enter,Kernel.serve,Kernel.osDelayTask,h1,h2,h3,if_true,if_false]
    exact .same rfl rfl links rfl rfl
  simp only [enter,Kernel.serve,Kernel.osDelayTask,h1,h2,h3,if_true,if_false]
  have c := caller h2
  have lt : s.currentPriority < cfg.width := hs.prio_lt (t := s.currentTask) c.inst
  have hp : ((s.osEnterCritical.setTimeToWait s.currentTask
      (s.osEnterCritical.deadline w)).includeTaskIntoDelayList s.currentTask).currentPriority =
        s.currentPriority := by
    rw [Kernel.includeTaskIntoDelayList_currentPriority,Kernel.setTimeToWait_currentPriority]
    rfl
  set k := (s.osEnterCritical.setTimeToWait s.currentTask
    (s.osEnterCritical.deadline w)).includeTaskIntoDelayList s.currentTask with hk
  refine ⟨?_,?_,?_⟩
  · have he : (k.clearReady k.currentPriority).view
        (Function.update s.point s.currentTask (.delay w)) s.inst s.held =
          s.view.nap s.currentTask w (s.osEnterCritical.deadline w) := by
      rw [Kernel.clearReady_view _ _ _ _ (hp ▸ lt),hp,hk,Kernel.includeTaskIntoDelayList_view,
        Kernel.setTimeToWait_view]
      rfl
    exact (Moves.one (.nap c.inst c.idle c.run)).trans (Moves.same he)
  · simp [setPoint]
  · have kept : s.osEnterCritical.LinksIn s.Installed := links
    exact (kept.setTimeToWait _ _).include c.inst

/-! ### Services that do not touch the scheduler's data -/

theorem enter_queueClean (links : s.LinksIn s.Installed) (who : Option ℕ)
    (d : Kernel.QueueKind) (i : ℕ) : Entered P s (s.enter who (.queueClean d i)) := by
  simp only [enter,Kernel.serve,Kernel.queueClean]
  exact .same (by simp) (by simp) links rfl rfl

theorem enter_queueWrite (links : s.LinksIn s.Installed) (who : Option ℕ) (i b : ℕ) :
    Entered P s (s.enter who (.queueWrite i b)) := by
  simp only [enter,Kernel.serve,Kernel.osWQueue]
  cases (s.enterNesting.queue .static i).write [b] <;>
    exact .same (by simp) (by simp) links rfl rfl

theorem enter_queueRead (links : s.LinksIn s.Installed) (who : Option ℕ) (i : ℕ) :
    Entered P s (s.enter who (.queueRead i)) := by
  simp only [enter,Kernel.serve,Kernel.osRQueue]
  split_ifs <;> exact .same (by simp) (by simp) links rfl rfl

theorem enter_blockPriority (links : s.LinksIn s.Installed) (who : Option ℕ) (p : ℕ) :
    Entered P s (s.enter who (.blockPriority p)) := by
  simp only [enter,Kernel.serve,Kernel.osBlockPriority]
  split_ifs <;> exact .same (by simp) (by simp) links rfl rfl

theorem enter_unBlockPriority (links : s.LinksIn s.Installed) (who : Option ℕ) (p : ℕ) :
    Entered P s (s.enter who (.unBlockPriority p)) := by
  simp only [enter,Kernel.serve,Kernel.osUnBlockPriority]
  split_ifs <;> exact .same (by simp) (by simp) links rfl rfl

theorem enter_blockTask (links : s.LinksIn s.Installed) (who : Option ℕ) (t : ℕ) :
    Entered P s (s.enter who (.blockTask t)) := by
  simp only [enter,Kernel.serve,Kernel.osBlockTask]
  split_ifs <;> exact .same (by simp) (by simp) links rfl rfl

theorem enter_unBlockTask (links : s.LinksIn s.Installed) (who : Option ℕ) (t : ℕ) :
    Entered P s (s.enter who (.unBlockTask t)) := by
  simp only [enter,Kernel.serve,Kernel.osUnBlockTask]
  split_ifs <;> exact .same (by simp) (by simp) links rfl rfl

/-- The loops over a range of tasks write OSBlockedList only. -/
theorem foldl_block {f : Kernel cfg → ℕ → Kernel cfg}
    (core : ∀ k t, (f k t).toCore = k.toCore) (vital : ∀ k t, (f k t).vital = k.vital)
    (l : List ℕ) (k : Kernel cfg) :
    (l.foldl f k).toCore = k.toCore ∧ (l.foldl f k).vital = k.vital := by
  induction l generalizing k with
  | nil => exact ⟨rfl,rfl⟩
  | cons t l ih =>
    obtain ⟨hc,hv⟩ := ih (f k t)
    exact ⟨hc.trans (core k t),hv.trans (vital k t)⟩

theorem blockMultiple_toCore (k : Kernel cfg) (a n : ℕ) :
    (k.osBlockMultipleTask a n).1.toCore = k.toCore := by
  simp only [Kernel.osBlockMultipleTask]
  split_ifs
  · rfl
  · have loop := (foldl_block (f := fun (k : Kernel cfg) iTask =>
      if iTask ≠ k.currentTask then k.setBlocked (k.contextTask iTask).priority else k)
      (fun k t => by split_ifs <;> rfl) (fun k t => by split_ifs <;> rfl)
      (Kernel.taskRange a n) k.enterTask).1
    rw [Kernel.exitTask_toCore,loop,Kernel.enterTask_toCore]

theorem unBlockMultiple_toCore (k : Kernel cfg) (a n : ℕ) :
    (k.osUnBlockMultipleTask a n).1.toCore = k.toCore := by
  simp only [Kernel.osUnBlockMultipleTask]
  have loop := (foldl_block (f := fun (k : Kernel cfg) iTask =>
    if iTask ≠ k.currentTask then k.clearBlocked (k.contextTask iTask).priority else k)
    (fun k t => by split_ifs <;> rfl) (fun k t => by split_ifs <;> rfl)
    (Kernel.taskRange a n) k.enterTask).1
  rw [Kernel.enterTask_toCore] at loop
  split_ifs
  · rfl
  · rw [Kernel.osExitCritical_toCore,Kernel.changeContextUnnested_toCore,loop]
  · exact loop

theorem enter_blockMultipleTask (links : s.LinksIn s.Installed) (who : Option ℕ) (a n : ℕ) :
    Entered P s (s.enter who (.blockMultipleTask a n)) := by
  simp only [enter,Kernel.serve,Kernel.osBlockMultipleTask]
  by_cases hn : 0 < s.iNesting <;> simp only [hn,if_true,if_false]
  · exact .same rfl rfl links rfl rfl
  · obtain ⟨hc,hv⟩ := foldl_block (f := fun (k : Kernel cfg) iTask =>
      if iTask ≠ k.currentTask then k.setBlocked (k.contextTask iTask).priority else k)
      (fun k t => by split_ifs <;> rfl) (fun k t => by split_ifs <;> rfl)
      (Kernel.taskRange a n) s.enterTask
    revert hc hv
    generalize List.foldl _ _ _ = k
    intro hc hv
    exact .same (by simp [hc]) (by simp [hv]) links rfl rfl

theorem enter_unBlockMultipleTask (links : s.LinksIn s.Installed) (who : Option ℕ) (a n : ℕ) :
    Entered P s (s.enter who (.unBlockMultipleTask a n)) := by
  simp only [enter,Kernel.serve,Kernel.osUnBlockMultipleTask]
  by_cases hn : 0 < s.iNesting <;> simp only [hn,if_true,if_false]
  · exact .same rfl rfl links rfl rfl
  · obtain ⟨hc,hv⟩ := foldl_block (f := fun (k : Kernel cfg) iTask =>
      if iTask ≠ k.currentTask then k.clearBlocked (k.contextTask iTask).priority else k)
      (fun k t => by split_ifs <;> rfl) (fun k t => by split_ifs <;> rfl)
      (Kernel.taskRange a n) s.enterTask
    revert hc hv
    generalize List.foldl _ _ _ = k
    intro hc hv
    split_ifs <;> exact .same (by simp [hc]) (by simp [hv]) links rfl rfl

end System
end Brtos
