import Brtos.Woken

/-! The tokens of a counting semaphore: each post that returns OK is in the counter, with a task
that it has woken, or with a pend that has returned OK. -/
namespace Brtos
open Bitmap

/-- A post to the semaphore that has returned OK. -/
def Record.posted (i : ℕ) (r : Record) : Bool := r.call == .semPost i && r.code == ok

/-- A pend on the semaphore that has returned OK. -/
def Record.pended (i : ℕ) (r : Record) : Bool :=
  match r.call with
  | .semPend j _ => j == i && r.code == ok
  | _ => false

/-- A deletion of the semaphore that has succeeded. -/
def Record.deleted (i : ℕ) (r : Record) : Bool := r.call == .semDelete i && r.code == deleteEventOk

theorem Record.posted_far {i : ℕ} {r : Record} (h : r.call.target ≠ some (.sem i)) :
    r.posted i = false := by
  simp only [posted,Bool.and_eq_false_iff,beq_eq_false_iff_ne]
  exact Or.inl fun e => h (by rw [e]; rfl)

theorem Record.pended_far {i : ℕ} {r : Record} (h : r.call.target ≠ some (.sem i)) :
    r.pended i = false := by
  unfold pended
  split
  · rename_i j w e
    simp only [Bool.and_eq_false_iff,beq_eq_false_iff_ne]
    refine Or.inl fun hj => h ?_
    rw [e,hj]
    rfl
  · rfl

namespace System
variable {cfg : Config} (s : System cfg)

/-- The semaphore was created with `cnt` tokens; `recent` are the calls that have returned since. -/
structure Tokens (i cnt : ℕ) (recent : List Record) : Prop where
  created : s.Created (.sem i)
  counting : (s.brtosSemTable i).binary = false
  balance : cnt+recent.countP (Record.posted i) = (s.brtosSemTable i).osEventCount +
    (s.woken (.sem i)).card+recent.countP (Record.pended i)
  none_waits : 0 < (s.brtosSemTable i).osEventCount → (s.event (.sem i)).osEventWait = 0

variable {s} {t : System cfg} {i cnt : ℕ} {recent : List Record}

/-- The counter, the woken tasks and the new calls are in balance again. -/
theorem Tokens.next (h : s.Tokens i cnt recent) {l : List Record} (created : t.Created (.sem i))
    (counting : (t.brtosSemTable i).binary = false)
    (balance : (s.brtosSemTable i).osEventCount+(s.woken (.sem i)).card+l.countP (Record.posted i) =
      (t.brtosSemTable i).osEventCount+(t.woken (.sem i)).card+l.countP (Record.pended i))
    (none_waits : 0 < (t.brtosSemTable i).osEventCount → (t.event (.sem i)).osEventWait = 0) :
    t.Tokens i cnt (l++recent) where
  created := created
  counting := counting
  balance := by
    have := h.balance
    rw [List.countP_append,List.countP_append]
    omega
  none_waits := none_waits

theorem sem_of_body {k l : Kernel cfg} (h : k.body (.sem i) = l.body (.sem i)) :
    k.brtosSemTable i = l.brtosSemTable i := Body.sem.inj h

theorem Tokens.apart (h : s.Tokens i cnt recent) (apart : s.Apart (.sem i) t) {l : List Record}
    (log : ∀ r ∈ l, r.call.target ≠ some (.sem i)) : t.Tokens i cnt (l++recent) := by
  have table := sem_of_body (Kernel.body_of_cell apart.cell)
  have posted : l.countP (Record.posted i) = 0 :=
    List.countP_eq_zero.mpr fun r hr => by simp [Record.posted_far (log r hr)]
  have pended : l.countP (Record.pended i) = 0 :=
    List.countP_eq_zero.mpr fun r hr => by simp [Record.pended_far (log r hr)]
  apply h.next (created_of_event h.created apart.event)
  · exact table ▸ h.counting
  · rw [posted,pended,table,apart.woken]
  · rw [table,apart.event]
    exact h.none_waits

theorem created_sem (h : s.Created (.sem i)) : (s.event (.sem i)).osEventAllocated = 1 :=
  h.resolve_left (by simp [Obj.onHeap])

theorem notCreated_of_created {o : Obj} (heap : o.onHeap = false) (h : s.Created o) :
    s.notCreated o = false := by
  rcases h with h | h
  · simp [heap] at h
  · simp [Kernel.notCreated,h]

/-! ### Posts -/

/-- The three ways of a post to a semaphore that exists. -/
inductive PostOf (s : System cfg) (i : ℕ) (k : Kernel cfg) : Reply → Prop
  | wakes (wait : (s.event (.sem i)).osEventWait ≠ 0)
      (core : k.toCore = (s.wakeHighest (.sem i)).toCore)
      (table : k.brtosSemTable = s.brtosSemTable) : PostOf s i k (.ret ok [])
  | counts (alone : (s.event (.sem i)).osEventWait = 0)
      (room : (s.brtosSemTable i).osEventCount < 255) (core : k.toCore = s.toCore)
      (table : k.brtosSemTable i = { s.brtosSemTable i with
        osEventCount := if (s.brtosSemTable i).binary then 1 else (s.brtosSemTable i).osEventCount+1 }) :
      PostOf s i k (.ret ok [])
  | full (same : k = s.enterNesting.exitNesting) : PostOf s i k (.ret errSemOvf [])

@[simp] theorem enterNesting_sem (k : Kernel cfg) : k.enterNesting.brtosSemTable = k.brtosSemTable := by
  unfold Kernel.enterNesting
  split_ifs <;> rfl

@[simp] theorem exitNesting_sem (k : Kernel cfg) : k.exitNesting.brtosSemTable = k.brtosSemTable := by
  unfold Kernel.exitNesting
  split_ifs <;> rfl

@[simp] theorem changeContextUnnested_sem (k : Kernel cfg) :
    k.changeContextUnnested.brtosSemTable = k.brtosSemTable := by
  unfold Kernel.changeContextUnnested
  split_ifs <;> rfl

theorem postOf (created : s.notCreated (.sem i) = false) :
    PostOf s i (s.osSemPost i).1 (s.osSemPost i).2 := by
  simp only [Kernel.osSemPost,enterNesting_notCreated,created,Bool.false_eq_true,if_false]
  split_ifs with h1 h2
  · refine .wakes (by simpa using h1) ?_ (by simp [Kernel.wakeHighest,Kernel.setReady,Kernel.unlist,
      Kernel.setEvent])
    rw [Kernel.exitNesting_toCore,Kernel.changeContextUnnested_toCore]
    exact wakeHighest_congr (by simp) _
  · refine .counts (by simpa using h1) (by simpa using h2) (by simp) ?_
    simp [Kernel.setSem]
  · exact .full rfl

/-- A post keeps the balance. -/
theorem Tokens.post (h : s.Tokens i cnt recent) (hs : View.Sound cfg s.view) (who : Option ℕ) :
    ∃ r, (s.enter who (.semPost i)).log = r :: s.log ∧
      (s.enter who (.semPost i)).Tokens i cnt ([r]++recent) := by
  have post := postOf (i := i) (notCreated_of_created rfl h.created)
  cases hr : (s.osSemPost i).2 with
  | sleep p =>
    rw [hr] at post
    cases post
  | ret code data =>
    rw [enter_ret (c := .semPost i) hr]
    refine ⟨_,rfl,?_⟩
    rw [hr] at post
    generalize hk : (s.serve (.semPost i)).1 = k
    rw [show (s.osSemPost i).1 = k from hk] at post
    cases post with
    | wakes wait core table =>
      obtain ⟨u,far,grown⟩ := woken_of_wakes (t := s.returned who (.semPost i) k ok []) hs wait core rfl
      have none_ : (s.brtosSemTable i).osEventCount = 0 := by
        by_contra hne
        exact wait (h.none_waits (Nat.pos_of_ne_zero hne))
      rw [← congrFun table i] at none_
      apply h.next
      · refine h.created.imp_right fun hc => ?_
        rw [returned_toKernel,core]
        exact (Kernel.wakeHighest_allocated _).trans hc
      · exact (congrArg BrtosSem.binary (congrFun table i)).trans h.counting
      · rw [grown,Finset.card_insert_of_notMem far,returned_toKernel,table]
        simp [Record.posted,Record.pended]
        omega
      · rw [returned_toKernel,none_]
        exact fun h0 => absurd h0 (lt_irrefl 0)
    | counts alone room core table =>
      have event : (s.returned who (.semPost i) k ok []).event (.sem i) = s.event (.sem i) := by
        rw [returned_toKernel,core]
      rw [h.counting] at table
      apply h.next (created_of_event h.created event)
      · rw [returned_toKernel,table]
        exact h.counting
      · rw [woken_of_event event rfl,returned_toKernel,table]
        simp [Record.posted,Record.pended]
        omega
      · exact fun _ => event ▸ alone
    | full same =>
      subst same
      have event : (s.returned who (.semPost i) s.enterNesting.exitNesting errSemOvf []).event (.sem i) =
        s.event (.sem i) := by simp
      apply h.next (created_of_event h.created event)
      · simpa using h.counting
      · rw [woken_of_event event rfl]
        simp [Record.posted,Record.pended,errSemOvf,ok]
      · simpa using h.none_waits

/-! ### Pends -/

/-- The three ways of a pend on a semaphore that exists. -/
inductive PendOf (s : System cfg) (i w : ℕ) (k : Kernel cfg) : Reply → Prop
  | takes (some_ : 0 < (s.brtosSemTable i).osEventCount) (core : k.toCore = s.toCore)
      (table : k.brtosSemTable i = { s.brtosSemTable i with
        osEventCount := (s.brtosSemTable i).osEventCount-1 }) : PendOf s i w k (.ret ok [])
  | leaves (core : k.toCore = s.toCore) (table : k.brtosSemTable = s.brtosSemTable) :
      PendOf s i w k (.ret exitByNoEntryAvailable [])
  | sleeps (none_ : (s.brtosSemTable i).osEventCount = 0)
      (suspended : k = (s.osEnterCritical.suspend (.sem i) w).1) :
      PendOf s i w k (.sleep (.pend (.sem i) s.currentPriority w))

theorem pendOf (created : s.notCreated (.sem i) = false) (calm : s.iNesting = 0) (w : ℕ) :
    PendOf s i w (s.osSemPend i w).1 (s.osSemPend i w).2 := by
  have created' : s.osEnterCritical.notCreated (.sem i) = false := created
  simp only [Kernel.osSemPend,calm,lt_irrefl,and_false,if_false,created',Bool.false_eq_true]
  split_ifs with h1 h2
  · refine .takes h1 rfl ?_
    simp [Kernel.setSem,Kernel.osExitCritical,Kernel.osEnterCritical]
  · exact .leaves rfl rfl
  · exact .sleeps (Nat.eq_zero_of_not_pos h1) rfl

/-- A task that calls a pend takes a token, returns without one or goes to sleep. -/
theorem Tokens.pend (h : s.Tokens i cnt recent) (hs : View.Sound cfg s.view) (caller : s.Caller)
    (calm : s.iNesting = 0) (w : ℕ) : ∃ l, (s.enter (some s.currentTask) (.semPend i w)).log = l++s.log ∧
      (s.enter (some s.currentTask) (.semPend i w)).Tokens i cnt (l++recent) := by
  have pend := pendOf (notCreated_of_created rfl h.created) calm w
  cases hr : (s.osSemPend i w).2 with
  | sleep p =>
    rw [enter_sleep (c := .semPend i w) hr]
    refine ⟨[],rfl,?_⟩
    rw [hr] at pend
    generalize hk : (s.serve (.semPend i w)).1 = k
    rw [show (s.osSemPend i w).1 = k from hk] at pend
    cases pend with
    | sleeps none_ suspended =>
      subst suspended
      have same := woken_suspend (o := .sem i) hs caller (k := s.osEnterCritical) rfl (by simp) w
      have table : (s.osEnterCritical.suspend (.sem i) w).1.brtosSemTable i = s.brtosSemTable i :=
        sem_of_body ((Kernel.suspend_body _ _).trans (Kernel.body_of_cell Kernel.osEnterCritical_cell))
      apply h.next
      · exact h.created.imp_right fun hc => (Kernel.suspend_allocated _ w).trans hc
      · exact (congrArg BrtosSem.binary table).trans h.counting
      · rw [same]
        simp [setPoint,table]
      · simp only [setPoint,table,none_]
        exact fun h0 => absurd h0 (lt_irrefl 0)
  | ret code data =>
    rw [enter_ret (c := .semPend i w) hr]
    refine ⟨[_],rfl,?_⟩
    rw [hr] at pend
    generalize hk : (s.serve (.semPend i w)).1 = k
    rw [show (s.osSemPend i w).1 = k from hk] at pend
    cases pend with
    | takes some_ core table =>
      have event : (s.returned (some s.currentTask) (.semPend i w) k ok []).event (.sem i) =
        s.event (.sem i) := by rw [returned_toKernel,core]
      apply h.next (created_of_event h.created event)
      · rw [returned_toKernel,table]
        exact h.counting
      · rw [woken_of_event event rfl,returned_toKernel,table]
        simp [Record.posted,Record.pended]
        omega
      · exact fun _ => event ▸ h.none_waits some_
    | leaves core table =>
      have event : (s.returned (some s.currentTask) (.semPend i w) k exitByNoEntryAvailable []).event
        (.sem i) = s.event (.sem i) := by rw [returned_toKernel,core]
      apply h.next (created_of_event h.created event)
      · rw [returned_toKernel,table]
        exact h.counting
      · rw [woken_of_event event rfl,returned_toKernel,table]
        simp [Record.posted,Record.pended,exitByNoEntryAvailable,ok]
      · rw [event,returned_toKernel,table]
        exact h.none_waits

theorem resumeSemPend_table (i p w : ℕ) :
    (s.resumeSemPend i p w).1.brtosSemTable i = s.brtosSemTable i := by
  have body := (Kernel.wakeUp_body (.sem i) p w).trans
    (Kernel.body_of_cell (Kernel.osEnterCritical_cell (k := s.toKernel) (o := .sem i)))
  by_cases h0 : w = 0
  · simp [Kernel.resumeSemPend,h0]
  · simp only [Kernel.resumeSemPend,h0,if_false]
    exact sem_of_body body

/-- Where nobody is on the wait list, a task that runs again leaves it so. -/
theorem resumeSemPend_alone (hs : View.Sound cfg s.view) {p w : ℕ}
    (point : s.point s.currentTask = .pend (.sem i) p w) (alone : (s.event (.sem i)).osEventWait = 0) :
    ((s.resumeSemPend i p w).1.event (.sem i)).osEventWait = 0 := by
  have empty : s.view.waiting (.sem i) = ∅ := by
    rw [← Finset.card_eq_zero,← hs.count]
    exact alone
  have pending := hs.pending (t := s.currentTask) point
  have early : (s.osEnterCritical.wakeUp (.sem i) p w).2 = false := by
    by_contra late
    have := (s.osEnterCritical.wakeUp_late s.point s.inst s.held
      (pending.2.1 ▸ hs.prio_lt pending.1)).mp (by simpa using late)
    simpa [empty] using this.2.2
  rw [(resumeSemPend_core i p w).1]
  exact (congrArg OsEvent.osEventWait (Kernel.wakeUp_event early)).trans alone

/-- A task that runs again has used the token it was woken with, or it has none and times out. -/
theorem Tokens.resume (h : s.Tokens i cnt recent) (hs : View.Sound cfg s.view) {p w : ℕ}
    (point : s.point s.currentTask = .pend (.sem i) p w) (due : p ∈ s.view.ready)
    (next : s.proceed = some t) : ∃ r, t.log = r :: s.log ∧ r.call = .semPend i w ∧
      (r.code = ok ∧ s.currentTask ∈ s.woken (.sem i) ∨
        r.code = timeout ∧ s.currentTask ∉ s.woken (.sem i)) ∧ t.Tokens i cnt ([r]++recent) := by
  have moved := proceed_point next
  unfold proceed at next
  simp only [point,Option.some.injEq] at next
  subst next
  have core := (resumeSemPend_core (s := s) i p w).1
  have code : (s.resumeSemPend i p w).2.1 =
      if (s.osEnterCritical.wakeUp (.sem i) p w).2 then timeout else ok := by
    by_cases h0 : w = 0
    · simp [Kernel.resumeSemPend,Kernel.wakeUp,h0]
    · simp [Kernel.resumeSemPend,h0]
  have table := resumeSemPend_table (s := s) i p w
  simp only [Kernel.resumePend,Obj.pendCall] at moved ⊢
  have woken := woken_resume hs point due moved (congrFun (congrArg Core.event core) _)
  have created : ((s.resumeSemPend i p w).1.event (.sem i)).osEventAllocated =
      (s.event (.sem i)).osEventAllocated := by
    rw [core]
    exact Kernel.wakeUp_allocated _ _ _
  refine ⟨_,rfl,rfl,?_,?_⟩
  · dsimp only
    rw [code]
    split_ifs at woken ⊢
    · exact Or.inr ⟨rfl,woken.1⟩
    · exact Or.inl ⟨rfl,woken.1⟩
  · apply h.next
    · exact h.created.imp_right created.trans
    · exact (congrArg BrtosSem.binary table).trans h.counting
    · rw [returned_toKernel,table]
      split_ifs at woken code
      · rw [woken.2]
        simp [code,Record.posted,Record.pended,timeout,ok]
      · rw [woken.2]
        have := Finset.card_erase_add_one woken.1
        simp [code,Record.posted,Record.pended]
        omega
    · rw [returned_toKernel,table]
      exact fun some_ => resumeSemPend_alone hs point (h.none_waits some_)

/-! ### Runs -/

/-- The calls that touch a semaphore that exists. -/
theorem touches_sem (h : s.Created (.sem i)) {c : Call} (touches : s.Touches (.sem i) c) :
    c = .semPost i ∨ (∃ w, c = .semPend i w) ∨ c = .semDelete i := by
  have taken := created_sem h
  cases c <;> simp only [Kernel.Touches,Obj.sem.injEq,reduceCtorEq,and_false,exists_false] at touches
  case semCreate | semBinaryCreate =>
    obtain ⟨j,found,rfl⟩ := touches
    exact absurd taken (findEvent_free found)
  case queueClean d j | queuePend d j _ => cases d <;> simp [Kernel.QueueKind.obj] at touches
  all_goals simp [touches]

theorem Tokens.delete (h : s.Tokens i cnt recent) (who : Option ℕ) : ∃ r,
    (s.enter who (.semDelete i)).log = r :: s.log ∧
      (r.deleted i = false → (s.enter who (.semDelete i)).Tokens i cnt ([r]++recent)) := by
  by_cases nested : 0 < s.iNesting
  · have fails : s.serve (.semDelete i) = (s.toKernel,.ret irqPendErr []) := by
      simp [Kernel.serve,Kernel.osSemDelete,nested]
    rw [enter_ret (congrArg Prod.snd fails),fails]
    refine ⟨_,rfl,fun _ => h.next h.created h.counting ?_ h.none_waits⟩
    rw [woken_of_event (s := s) (t := s.returned who _ _ _ _) rfl rfl]
    simp [Record.posted,Record.pended]
  · have reply : (s.serve (.semDelete i)).2 = .ret deleteEventOk [] := by
      simp [Kernel.serve,Kernel.osSemDelete,nested]
    rw [enter_ret reply]
    refine ⟨_,rfl,fun kept => ?_⟩
    simp [Record.deleted] at kept

/-- Each step keeps the balance, and a deletion ends it. -/
theorem Tokens.step {a : Action} (h : s.Tokens i cnt recent) (inv : s.Inv) (next : s.step a = some t) :
    t.log = s.log ∧ t.Tokens i cnt recent ∨
      ∃ r, t.log = r :: s.log ∧ (r.deleted i = false → t.Tokens i cnt (r :: recent)) := by
  have hs := inv.sound
  have served : ∀ who c, s.Touches (.sem i) c → (c = .semPost i ∨ c = .semDelete i) →
      ∃ r, (s.enter who c).log = r :: s.log ∧
        (r.deleted i = false → (s.enter who c).Tokens i cnt (r :: recent)) := by
    rintro who c _ (rfl | rfl)
    · obtain ⟨r,log,tokens⟩ := h.post hs who
      exact ⟨r,log,fun _ => tokens⟩
    · exact h.delete who
  cases step_happens inv.dormant (.sem i) next with
  | quiet apart =>
    obtain ⟨l,log,far⟩ := apart.log
    rcases step_log next with same | ⟨r,more,_⟩
    · obtain rfl : l = [] := by simpa [same] using log
      exact Or.inl ⟨same,h.apart apart far⟩
    · obtain rfl : l = [r] := List.append_cancel_right (log.symm.trans more)
      exact Or.inr ⟨r,more,fun _ => h.apart apart far⟩
  | main stopped from_ touches =>
    rcases touches_sem h.created touches with rfl | ⟨w,rfl⟩ | rfl
    · exact Or.inr (served _ _ touches (Or.inl rfl))
    · simp [Call.fromMain] at from_
    · exact Or.inr (served _ _ touches (Or.inr rfl))
  | call running awake user touches =>
    have caller := inv.caller running.1 awake user
    rcases touches_sem h.created touches with rfl | ⟨w,rfl⟩ | rfl
    · exact Or.inr (served _ _ touches (Or.inl rfl))
    · obtain ⟨l,log,tokens⟩ := h.pend hs caller running.2.1 w
      rcases step_log next with same | ⟨r,more,_⟩
      · obtain rfl : l = [] := by simpa [same] using log
        exact Or.inl ⟨same,tokens⟩
      · obtain rfl : l = [r] := List.append_cancel_right (log.symm.trans more)
        exact Or.inr ⟨r,more,fun _ => tokens⟩
    · exact Or.inr (served _ _ touches (Or.inr rfl))
  | isr port from_ touches =>
    rcases touches_sem h.created touches with rfl | ⟨w,rfl⟩ | rfl
    · exact Or.inr (served _ _ touches (Or.inl rfl))
    · simp [Call.fromIsr] at from_
    · simp [Call.fromIsr] at from_
  | resume running point proceeds =>
    obtain ⟨r,log,_,_,tokens⟩ := h.resume hs point (inv.due_pend running point) proceeds
    exact Or.inr ⟨r,log,fun _ => tokens⟩
  | uart event => simp at event

theorem osSemCreate_ok (reply : (s.osSemCreate cnt).2 = .ret allocEventOk [i]) :
    s.enterTask.findEvent .sem cfg.brtosMaxSem = some i ∧ (s.osSemCreate cnt).1 =
      ((s.enterTask.allocEvent (.sem i)).setSem i fun _ => ⟨cnt,false⟩).exitTask := by
  simp only [Kernel.osSemCreate] at reply ⊢
  by_cases nested : 0 < s.iNesting
  · simp [nested,irqPendErr,allocEventOk] at reply
  · simp only [nested,if_false] at reply ⊢
    cases found : s.enterTask.findEvent .sem cfg.brtosMaxSem with
    | none => simp [found,noAvailableEvent,allocEventOk] at reply
    | some j =>
      obtain rfl : j = i := by simpa [found] using reply
      exact ⟨rfl,rfl⟩

/-- A created semaphore starts with its tokens in the counter. -/
theorem tokens_of_create (inv : s.Inv) {made : Record} (call : made.call = .semCreate cnt)
    (success : made.code = allocEventOk) (handle : made.data = [i]) (logs : s.Logs t made) :
    t.Tokens i cnt [] := by
  cases logs with
  | resumed hc =>
    rcases hc with ⟨w,hc⟩ | ⟨q,w,hc⟩
    · simp [call] at hc
    · cases q <;> simp [call,Obj.pendCall] at hc
  | uart hc =>
    obtain ⟨j,b,hc⟩ := hc
    simp [call] at hc
  | @served who reply next =>
    rw [call,success,handle] at reply
    rw [call,enter_ret reply] at next
    subst next
    obtain ⟨found,kernel⟩ := osSemCreate_ok reply
    rw [show (s.serve (.semCreate cnt)).1 = _ from kernel]
    have unused : ∀ u p w, s.point u ≠ .pend (.sem i) p w := fun u p w hu => by
      have free := findEvent_free found
      rw [Kernel.enterTask_toCore] at free
      exact free (created_sem (inv.sound.pending (t := u) hu).2.2)
    have table : ((s.enterTask.allocEvent (.sem i)).setSem i fun _ => ⟨cnt,false⟩).exitTask.body
        (.sem i) = .sem ⟨cnt,false⟩ := by
      rw [Kernel.body_of_cell Kernel.exitTask_cell]
      simp [Kernel.body,Kernel.setSem]
    refine ⟨Or.inr ?_,?_,?_,fun _ => ?_⟩
    · simp [Kernel.allocEvent,Kernel.setEvent]
    · exact congrArg BrtosSem.binary (Body.sem.inj table)
    · rw [returned_toKernel,Body.sem.inj table,woken_of_quiet (s := s.returned _ _ _ _ _) unused]
      simp
    · simp [Kernel.allocEvent,Kernel.setEvent]

theorem enter_exit (flat : s.iNesting = 0 ∨ cfg.criticalNests = false) :
    s.osEnterCritical.osExitCritical = s.toKernel := by
  have depth : s.osEnterCritical.osExitCritical.iNesting = s.iNesting := by
    simp only [Kernel.osEnterCritical,Kernel.osExitCritical]
    rcases flat with calm | port
    · rw [calm]
      split_ifs <;> rfl
    · simp [port]
  have count : s.osEnterCritical.osExitCritical.critical = s.critical :=
    add_sub_cancel_right _ _
  have held : s.osEnterCritical.osExitCritical.interruptEventMutex = s.interruptEventMutex := rfl
  calc s.osEnterCritical.osExitCritical
    _ = { s.toKernel with
          iNesting := s.osEnterCritical.osExitCritical.iNesting
          critical := s.osEnterCritical.osExitCritical.critical
          interruptEventMutex := s.osEnterCritical.osExitCritical.interruptEventMutex } := rfl
    _ = s.toKernel := by rw [depth,count,held]

theorem nest_unnest (flat : s.iNesting = 0 ∨ cfg.criticalNests = false) :
    s.enterNesting.exitNesting = s.toKernel := by
  have nests := cfg.nests_ok
  unfold Kernel.exitNesting Kernel.enterNesting
  by_cases nesting : cfg.nestingInt = true
  · simp [nesting,enter_exit flat]
  · have port : cfg.criticalNests = false := by
      by_contra h
      exact nesting (nests (by simpa using h))
    have depth : s.osEnterCritical.iNesting = s.iNesting := by
      simp [Kernel.osEnterCritical,port]
    by_cases calm : s.iNesting = 0
    · simp [calm,depth,enter_exit flat]
    · simp [nesting,calm]

/-- A post that fails leaves the kernel as it was. -/
theorem post_full {who : Option ℕ} (created : s.Created (.sem i))
    (flat : s.iNesting = 0 ∨ cfg.criticalNests = false) {r : Record}
    (log : (s.enter who (.semPost i)).log = r :: s.log) (full : r.code = errSemOvf) :
    s.enter who (.semPost i) = { s with log := r :: s.log } := by
  have post := postOf (i := i) (notCreated_of_created rfl created)
  cases hr : (s.osSemPost i).2 with
  | sleep p =>
    rw [hr] at post
    cases post
  | ret code data =>
    rw [enter_ret (c := .semPost i) hr] at log ⊢
    obtain rfl := (List.cons.inj log).1
    obtain rfl : code = errSemOvf := full
    rw [hr] at post
    generalize hk : (s.serve (.semPost i)).1 = k
    rw [show (s.osSemPost i).1 = k from hk] at post
    cases post with
    | full same =>
      rw [same,nest_unnest flat]
      rfl

/-- A pend that times out is that of a task which no post has woken. -/
theorem timeout_not_woken (h : s.Tokens i cnt recent) (inv : s.Inv) {a : Action}
    (next : s.step a = some t) {r : Record} {w : ℕ} (more : t.log = r :: s.log)
    (call : r.call = .semPend i w) (late : r.code = timeout) : s.currentTask ∉ s.woken (.sem i) := by
  have served : ∀ {who c}, (s.enter who c).log = r :: s.log → c = .semPend i w ∧
      ∃ data, (s.serve c).2 = .ret timeout data := fun {who c} more => by
    rcases s.enter_log who c with ⟨code,data,reply,log⟩ | ⟨p,_,log⟩
    · obtain rfl := (List.cons.inj (more.symm.trans log)).1
      exact ⟨call,data,late ▸ reply⟩
    · simp [log] at more
  cases step_happens inv.dormant (.sem i) next with
  | quiet apart =>
    obtain ⟨l,log,far⟩ := apart.log
    obtain rfl : l = [r] := List.append_cancel_right (log.symm.trans more)
    exact absurd (by rw [call]; rfl) (far r List.mem_cons_self)
  | main stopped from_ touches =>
    obtain ⟨rfl,_⟩ := served more
    simp [Call.fromMain] at from_
  | call running awake user touches =>
    have caller := inv.caller running.1 awake user
    obtain ⟨rfl,data,reply⟩ := served more
    have pend := pendOf (notCreated_of_created rfl h.created) running.2.1 w
    rw [show (s.osSemPend i w).2 = _ from reply] at pend
    generalize hc : Reply.ret timeout data = reply at pend
    cases pend <;> simp [timeout,ok,exitByNoEntryAvailable] at hc
  | isr port from_ touches =>
    obtain ⟨rfl,_⟩ := served more
    simp [Call.fromIsr] at from_
  | resume running point proceeds =>
    obtain ⟨x,log,_,outcome,_⟩ := h.resume inv.sound point (inv.due_pend running point) proceeds
    obtain rfl := (List.cons.inj (more.symm.trans log)).1
    rcases outcome with ⟨success,_⟩ | ⟨_,far⟩
    · simp [late,timeout,ok] at success
    · exact far
  | uart event => simp at event

/-- In every run the semaphore's tokens are in balance since its creation; a failed post changes
nothing, only a post wakes a task, and a task that has been woken does not time out. -/
theorem tokens_of_reaches (run : Reaches .restoring (init cfg) s) {recent old : List Record}
    {made : Record} {cnt i : ℕ} (log : s.log = recent ++ made :: old)
    (call : made.call = .semCreate cnt) (success : made.code = allocEventOk)
    (handle : made.data = [i]) (kept : ∀ r ∈ recent, r.deleted i = false) :
    cnt+recent.countP (Record.posted i) = (s.brtosSemTable i).osEventCount +
        (s.woken (.sem i)).card+recent.countP (Record.pended i) ∧
      (0 < (s.brtosSemTable i).osEventCount → (s.event (.sem i)).osEventWait = 0) ∧
      (∀ a t r, a = .call (.semPost i) ∨ a = .isrCall (.semPost i) → s.step a = some t →
        t.log = r :: s.log → r.code = errSemOvf → t = { s with log := t.log }) ∧
      (∀ a t u, s.Allowed .restoring a → s.step a = some t → u ∈ t.woken (.sem i) → u ∉ s.woken (.sem i) →
        ∃ r, t.log = r :: s.log ∧ r.posted i = true) ∧
      ∀ a t r w, s.step a = some t → t.log = r :: s.log → r.call = .semPend i w →
        r.code = timeout → s.currentTask ∉ s.woken (.sem i) := by
  have inv : ∀ {u}, Reaches .restoring (init cfg) u → u.Inv := fun run =>
    (run.inv View.Policy.restoring_safe trivial init_inv).2.1
  have tokens : s.Tokens i cnt recent := by
    refine run.since (P := fun u l => u.Tokens i cnt l) (by rfl) ?_ ?_ ?_ log kept
    · intro u a v reach _ next more
      rcases step_log next with same | ⟨r,more',logs⟩
      · simp [same] at more
      · obtain ⟨rfl,_⟩ := List.cons.inj (more'.symm.trans more)
        exact tokens_of_create (inv reach) call success handle logs
    · intro u a v l reach h _ next
      exact h.step (inv reach) next
    · intro u a v next
      exact (step_log next).imp_right fun ⟨r,more,_⟩ => ⟨r,more⟩
  refine ⟨tokens.balance,tokens.none_waits,?_,?_,?_⟩
  · rintro a t r (rfl | rfl) next more full <;> rw [more] <;> simp only [step] at next <;>
      split_ifs at next with hg <;> obtain rfl := Option.some.inj next
    · exact post_full tokens.created (Or.inl hg.1.2.1) more full
    · exact post_full tokens.created (Or.inr hg.2.1) more full
  · intro a t u ok' next new old
    obtain ⟨r,more,wakes,code⟩ := woken_step (inv run) ok' next old new
    have post : r.call = .semPost i := by
      cases hc : r.call <;> simp_all [Call.wakes]
    exact ⟨r,more,by simp [Record.posted,post,code]⟩
  · intro a t r w next more call late
    exact timeout_not_woken tokens (inv run) next more call late

/-- One token is taken, and the next one is posted to a task that waits for it. -/
theorem tokens_run : ∃ s : System .port, s.woken (.sem 0) = {2} ∧
    1+1 = (s.brtosSemTable 0).osEventCount+(s.woken (.sem 0)).card+1 := by
  obtain ⟨s,run,woken,log⟩ := Run.exists_reach_of_exec step
    (fun s a => s.Allowed .restoring a) (init .port)
    [.main (.install (.user 1) 16 3),.main (.install (.user 2) 16 4),.main (.semCreate 1),.start,
      .call (.semPend 0 0),.call (.semPend 0 5),.switch,.call (.semPost 0)]
    (fun s => s.woken (.sem 0) = {2} ∧ s.log = [⟨some 1,.semPost 0,ok,[],4,true⟩,
      ⟨some 2,.semPend 0 0,ok,[],3,false⟩] ++ ⟨none,.semCreate 1,ok,[0],2,false⟩ :: s.log.drop 3)
    (by decide +kernel)
  exact ⟨s,woken,(tokens_of_reaches run log rfl rfl rfl (by decide)).1⟩

end System
end Brtos
