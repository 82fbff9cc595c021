import Brtos.Library.Chain
import Brtos.Locality

/-! The delay list: Head, Tail and the links of the control blocks spell the tasks that wait with a
limit, each of them once. -/
namespace Brtos
open Chain

/-- The limit of the wait that a task is suspended in; zero means none. -/
def Point.limit : Point → ℕ
  | .run => 0
  | .delay w => w
  | .pend _ _ w => w

/-- The services that write the links or the time to wait. -/
def Call.times : Call → Bool
  | .install _ _ _ => true
  | c => c.suspends

namespace Kernel
variable {cfg : Config} (k : Kernel cfg)

/-- Head, Tail, and the Next and Previous of every control block. -/
def links : Links ℕ :=
  ⟨k.head,k.tail,fun t => (k.contextTask t).next,fun t => (k.contextTask t).previous⟩

def wait (t : ℕ) : ℕ := (k.contextTask t).timeToWait

/-- The delay list, the times that its tasks wait for, and which handles are tasks. -/
def clock : Links ℕ × (ℕ → ℕ) × BitVec 32 := (k.links,k.wait,k.taskAlloc)

variable {k} in
theorem clock_congr {l : Kernel cfg} (h : k.toCore = l.toCore) : k.clock = l.clock := by
  have times : k.wait = l.wait := by
    funext t
    simp only [wait,h]
  simp only [clock,links,h,times]

variable {k} in
theorem links_of_clock {l : Kernel cfg} (h : k.clock = l.clock) : k.links = l.links :=
  congrArg Prod.fst h

variable {k} in
theorem wait_of_clock {l : Kernel cfg} (h : k.clock = l.clock) : k.wait = l.wait :=
  congrArg (fun c => c.2.1) h

variable {k} in
theorem taskAlloc_of_clock {l : Kernel cfg} (h : k.clock = l.clock) : k.taskAlloc = l.taskAlloc :=
  congrArg (fun c => c.2.2) h

/-- A change of a control block that keeps the three fields. -/
theorem setTask_clock (t : ℕ) (f : ContextType → ContextType)
    (same : ∀ c, (f c).next = c.next ∧ (f c).previous = c.previous ∧
      (f c).timeToWait = c.timeToWait) : (k.setTask t f).clock = k.clock := by
  have next := map_update_same ContextType.next k.contextTask t _ (same (k.contextTask t)).1
  have previous := map_update_same ContextType.previous k.contextTask t _ (same (k.contextTask t)).2.1
  have wait' := map_update_same ContextType.timeToWait k.contextTask t _ (same (k.contextTask t)).2.2
  have links' : (k.setTask t f).links = k.links :=
    congrArg₂ (Links.mk k.head k.tail) next previous
  exact congrArg₂ (fun a b => (a,b,k.taskAlloc)) links' wait'

@[simp] theorem osEnterCritical_clock : k.osEnterCritical.clock = k.clock := rfl
@[simp] theorem osExitCritical_clock : k.osExitCritical.clock = k.clock := rfl
@[simp] theorem changeContext_clock : k.changeContext.clock = k.clock := rfl
@[simp] theorem setEvent_clock (o : Obj) (f : OsEvent cfg → OsEvent cfg) :
    (k.setEvent o f).clock = k.clock := rfl
@[simp] theorem setMutex_clock (i : ℕ) (f : BrtosMutex → BrtosMutex) :
    (k.setMutex i f).clock = k.clock := rfl
@[simp] theorem setPriorityVector_clock (p v : ℕ) : (k.setPriorityVector p v).clock = k.clock := rfl
@[simp] theorem setReady_clock (p : ℕ) : (k.setReady p).clock = k.clock := rfl
@[simp] theorem clearReady_clock (p : ℕ) : (k.clearReady p).clock = k.clock := rfl
@[simp] theorem setSem_clock (i : ℕ) (f : BrtosSem → BrtosSem) : (k.setSem i f).clock = k.clock := rfl
@[simp] theorem setMbox_clock (i : ℕ) (f : BrtosMbox → BrtosMbox) :
    (k.setMbox i f).clock = k.clock := rfl
@[simp] theorem unlist_clock (o : Obj) (p : ℕ) : (k.unlist o p).clock = k.clock := rfl
@[simp] theorem wakeHighest_clock (o : Obj) : (k.wakeHighest o).clock = k.clock := rfl
@[simp] theorem allocEvent_clock (o : Obj) : (k.allocEvent o).clock = k.clock := rfl
@[simp] theorem freeEvent_clock (o : Obj) : (k.freeEvent o).clock = k.clock := rfl
@[simp] theorem passOn_clock (i : ℕ) : (k.passOn i).clock = k.clock := rfl

@[simp] theorem setPriority_clock (t p : ℕ) :
    (k.setTask t fun c => { c with priority := p }).clock = k.clock :=
  k.setTask_clock t _ fun _ => ⟨rfl,rfl,rfl⟩

@[simp] theorem setQueue_clock (d : QueueKind) (i : ℕ) (q : OsQueue) :
    (k.setQueue d i q).clock = k.clock := clock_congr (by simp)
@[simp] theorem enterTask_clock : k.enterTask.clock = k.clock := clock_congr (by simp)
@[simp] theorem exitTask_clock : k.exitTask.clock = k.clock := clock_congr (by simp)
@[simp] theorem enterNesting_clock : k.enterNesting.clock = k.clock := clock_congr (by simp)
@[simp] theorem exitNesting_clock : k.exitNesting.clock = k.clock := clock_congr (by simp)
@[simp] theorem changeContextUnnested_clock : k.changeContextUnnested.clock = k.clock :=
  clock_congr (by simp)

@[simp] theorem raise_clock (i p : ℕ) : (k.raise i p).clock = k.clock := by
  simp only [raise]
  split_ifs <;> simp

@[simp] theorem restore_clock (i : ℕ) : (k.restore i).clock = k.clock := by
  simp only [restore]
  split_ifs <;> simp

@[simp] theorem makeAvailable_clock (i : ℕ) : (k.makeAvailable i).clock = k.clock := by
  simp only [makeAvailable]
  split_ifs <;> rfl

@[simp] theorem queuePost_clock (d : QueueKind) (i : ℕ) (bytes : List ℕ) :
    (k.queuePost d i bytes).1.clock = k.clock := by
  simp only [queuePost]
  repeat' split
  all_goals simp

/-- All other services leave the delay list alone. -/
theorem serve_clock {c : Call} (h : c.times = false) : (k.serve c).1.clock = k.clock := by
  cases c with
  | blockPriority | unBlockPriority =>
    simp only [serve,osBlockPriority,osUnBlockPriority]
    split_ifs <;> exact clock_congr (by simp)
  | blockTask | unBlockTask =>
    simp only [serve,osBlockTask,osUnBlockTask]
    split_ifs <;> exact clock_congr (by simp)
  | blockMultipleTask a n => exact clock_congr (System.blockMultiple_toCore k a n)
  | unBlockMultipleTask a n => exact clock_congr (System.unBlockMultiple_toCore k a n)
  | semCreate | semBinaryCreate | semDelete | semPost =>
    simp only [serve,osSemCreate,osSemBinaryCreate,osSemDelete,osSemPost]
    repeat' split
    all_goals simp
  | mutexCreate | mutexDelete | mutexRelease =>
    simp only [serve,osMutexCreate,osMutexDelete,osMutexRelease]
    repeat' split
    all_goals simp
  | mboxCreate | mboxDelete | mboxPost =>
    simp only [serve,osMboxCreate,osMboxDelete,osMboxPost]
    repeat' split
    all_goals simp
  | queueCreate =>
    simp only [serve,osQueueCreate]
    repeat' split
    all_goals simp
    all_goals rfl
  | dqueueCreate | dqueueDelete =>
    simp only [serve,osDQueueCreate,osDQueueDelete]
    repeat' split
    all_goals simp
  | queueClean | queueWrite | queueRead =>
    simp only [serve,queueClean,osWQueue,osRQueue]
    repeat' split
    all_goals simp
  | queuePost i b => exact k.queuePost_clock .static i [b]
  | dqueuePost i pdata => exact k.queuePost_clock .dynamic i _
  | _ => simp [Call.times,Call.suspends] at h

/-! ### What the two macros do to the list -/

variable {k} {l : List ℕ} {t : ℕ}

@[simp] theorem setNext_wait (p v : Option ℕ) : (k.setNext p v).wait = k.wait := by
  cases p with
  | none => rfl
  | some t => exact map_update_same ContextType.timeToWait k.contextTask t _ rfl

@[simp] theorem setPrevious_wait (p v : Option ℕ) : (k.setPrevious p v).wait = k.wait := by
  cases p with
  | none => rfl
  | some t => exact map_update_same ContextType.timeToWait k.contextTask t _ rfl

theorem setNext_links (p v : Option ℕ) :
    (k.setNext p v).links = { k.links with succ := Links.store k.links.succ p v } := by
  cases p with
  | none => rfl
  | some t =>
    have next := map_update ContextType.next k.contextTask t { k.contextTask t with next := v }
    have previous := map_update_same ContextType.previous k.contextTask t
      { k.contextTask t with next := v } rfl
    exact congrArg₂ (Links.mk k.head k.tail) next previous

theorem setPrevious_links (p v : Option ℕ) :
    (k.setPrevious p v).links = { k.links with pred := Links.store k.links.pred p v } := by
  cases p with
  | none => rfl
  | some t =>
    have next := map_update_same ContextType.next k.contextTask t
      { k.contextTask t with previous := v } rfl
    have previous := map_update ContextType.previous k.contextTask t
      { k.contextTask t with previous := v }
    exact congrArg₂ (Links.mk k.head k.tail) next previous

@[simp] theorem includeTaskIntoDelayList_wait (t : ℕ) :
    (k.includeTaskIntoDelayList t).wait = k.wait := by
  unfold includeTaskIntoDelayList
  split_ifs
  · rw [setNext_wait]
    change ((k.setNext k.tail (some t)).setPrevious (some t) _).wait = _
    rw [setPrevious_wait,setNext_wait]
  · rw [setPrevious_wait,setNext_wait]
    rfl

@[simp] theorem removeFromDelayList_wait (t : ℕ) : (k.removeFromDelayList t).wait = k.wait := by
  unfold removeFromDelayList
  split_ifs
  · rfl
  · rw [setPrevious_wait]
    rfl
  · rw [setNext_wait]
    rfl
  · rw [setNext_wait,setPrevious_wait]

@[simp] theorem setNext_taskAlloc (p v : Option ℕ) : (k.setNext p v).taskAlloc = k.taskAlloc := by
  cases p <;> rfl

@[simp] theorem setPrevious_taskAlloc (p v : Option ℕ) :
    (k.setPrevious p v).taskAlloc = k.taskAlloc := by
  cases p <;> rfl

@[simp] theorem includeTaskIntoDelayList_taskAlloc (t : ℕ) :
    (k.includeTaskIntoDelayList t).taskAlloc = k.taskAlloc := by
  unfold includeTaskIntoDelayList
  split_ifs <;> simp

@[simp] theorem removeFromDelayList_taskAlloc (t : ℕ) :
    (k.removeFromDelayList t).taskAlloc = k.taskAlloc := by
  unfold removeFromDelayList
  split_ifs <;> simp

/-- IncludeTaskIntoDelayList appends a task. -/
theorem include_links (h : k.links.Spells l) (t : ℕ) :
    (k.includeTaskIntoDelayList t).links = k.links.push t := by
  unfold includeTaskIntoDelayList
  split_ifs with some_
  · have one := setNext_links (k := k) k.tail (some t)
    have tail : (k.setNext k.tail (some t)).tail = k.tail := congrArg Links.last one
    have two := setPrevious_links (k := k.setNext k.tail (some t)) (some t) k.tail
    have first : k.links.first.or (some t) = k.links.first := by
      cases hd : k.links.first with
      | none =>
        have empty := List.head?_eq_none_iff.mp (h.first.symm.trans hd)
        exact absurd (h.last.trans (by simp [empty])) some_
      | some u => rfl
    rw [setNext_links,tail]
    change Links.mk ((k.setNext k.tail (some t)).setPrevious (some t) k.tail).links.first (some t)
      (Links.store ((k.setNext k.tail (some t)).setPrevious (some t) k.tail).links.succ (some t) none)
      ((k.setNext k.tail (some t)).setPrevious (some t) k.tail).links.pred = _
    rw [two,one]
    simp only [Links.push,first]
    rfl
  · have last : k.links.last = none := not_not.mp some_
    have first : k.links.first = none := by
      rw [h.first,List.head?_eq_none_iff]
      exact List.getLast?_eq_none_iff.mp (h.last.symm.trans last)
    rw [setPrevious_links,setNext_links]
    simp only [Links.push,first,last]
    rfl

/-- RemoveFromDelayList takes out a task that is on the list, wherever it stands. -/
theorem remove_links (h : k.links.Spells l) (mem : t ∈ l) :
    (k.removeFromDelayList t).links = k.links.remove t := by
  obtain ⟨a,b,split⟩ := List.append_of_mem mem
  obtain ⟨next,previous⟩ := h.cell split
  have first : k.head = some t ↔ a = [] := by
    rw [← head_of_split h.nodup split,← h.first]
    rfl
  have last : k.tail = some t ↔ b = [] := by
    rw [← last_of_split h.nodup split,← h.last]
    rfl
  unfold removeFromDelayList
  split_ifs with hd tl tl
  · -- the only member
    obtain rfl := first.mp hd.symm
    obtain rfl := last.mp tl.symm
    have f : k.links.first = some t := hd.symm
    have e : k.links.last = some t := tl.symm
    simp only [Links.remove,f,e,if_true,next,previous]
    rfl
  · obtain rfl := first.mp hd.symm
    have f : k.links.first = some t := hd.symm
    have e : k.links.last ≠ some t := Ne.symm tl
    rw [setPrevious_links]
    simp only [Links.remove,f,e,if_true,if_false,previous]
    rfl
  · obtain rfl := last.mp tl.symm
    have f : k.links.first ≠ some t := Ne.symm hd
    have e : k.links.last = some t := tl.symm
    rw [setNext_links]
    simp only [Links.remove,f,e,if_true,if_false,next]
    rfl
  · have f : k.links.first ≠ some t := Ne.symm hd
    have e : k.links.last ≠ some t := Ne.symm tl
    have one := setPrevious_links (k := k) (k.contextTask t).next (k.contextTask t).previous
    have far : (k.contextTask t).next ≠ some t := fun same => by
      have mem := List.mem_of_mem_head? (next.symm.trans same)
      have nodup := (List.nodup_append.mp (split ▸ h.nodup)).2.1
      exact (List.nodup_cons.mp nodup).1 mem
    have keep : ((k.setPrevious (k.contextTask t).next (k.contextTask t).previous).contextTask
        t).previous = (k.contextTask t).previous :=
      (congrFun (congrArg Links.pred one) t).trans (Links.store_of_ne far)
    have keep' : ((k.setPrevious (k.contextTask t).next (k.contextTask t).previous).contextTask
        t).next = (k.contextTask t).next := congrFun (congrArg Links.succ one) t
    rw [setNext_links,keep,keep',one]
    simp only [Links.remove,f,e,if_false]
    rfl

/-! ### The traversal by the tick handler -/

/-- The tick handler's work on one task of the list. -/
def visit (k : Kernel cfg) (t : ℕ) : Kernel cfg :=
  if k.wait t = k.osTickCounter then k.expire t else k

theorem setTimeToWait_links (t d : ℕ) : (k.setTimeToWait t d).links = k.links := by
  have next := map_update_same ContextType.next k.contextTask t
    { k.contextTask t with timeToWait := d } rfl
  have previous := map_update_same ContextType.previous k.contextTask t
    { k.contextTask t with timeToWait := d } rfl
  exact congrArg₂ (Links.mk k.head k.tail) next previous

theorem setTimeToWait_wait (t d : ℕ) : (k.setTimeToWait t d).wait = Function.update k.wait t d :=
  map_update ContextType.timeToWait k.contextTask t { k.contextTask t with timeToWait := d }

theorem installInto_wait (t n p : ℕ) :
    (k.installInto t n p).wait = Function.update k.wait t cfg.noTimeout := by
  funext u
  by_cases e : u = t <;> simp [wait,installInto,setReady,setTask,setPriorityVector,e]

/-- The part of `expire` before the task is taken off the list. -/
theorem expire_split (t : ℕ) : ∃ m : Kernel cfg, k.expire t = m.removeFromDelayList t ∧
    m.links = k.links ∧ m.wait = Function.update k.wait t cfg.exitByTimeout ∧
      m.taskAlloc = k.taskAlloc := by
  simp only [expire]
  split_ifs
  · exact ⟨_,rfl,setTimeToWait_links _ _,setTimeToWait_wait _ _,rfl⟩
  · exact ⟨_,rfl,setTimeToWait_links _ _,setTimeToWait_wait _ _,rfl⟩

theorem expire_links (h : k.links.Spells l) (mem : t ∈ l) :
    (k.expire t).links = k.links.remove t := by
  obtain ⟨m,e,links,_⟩ := k.expire_split t
  rw [e,remove_links (links ▸ h) mem,links]

theorem expire_wait (t : ℕ) : (k.expire t).wait = Function.update k.wait t cfg.exitByTimeout := by
  obtain ⟨m,e,_,wait,_⟩ := k.expire_split t
  rw [e,removeFromDelayList_wait,wait]

theorem expire_counter (t : ℕ) : (k.expire t).osTickCounter = k.osTickCounter :=
  osTickCounter_of_vital (vital_of_shell (k.expire_shell t))

theorem visit_taskAlloc (t : ℕ) : (k.visit t).taskAlloc = k.taskAlloc := by
  unfold visit
  split_ifs
  · obtain ⟨m,e,_,_,alloc⟩ := k.expire_split t
    rw [e,removeFromDelayList_taskAlloc,alloc]
  · rfl

theorem visit_counter (t : ℕ) : (k.visit t).osTickCounter = k.osTickCounter := by
  unfold visit
  split_ifs
  · exact expire_counter t
  · rfl

theorem visit_wait (t : ℕ) : (k.visit t).wait =
    if k.wait t = k.osTickCounter then Function.update k.wait t cfg.exitByTimeout else k.wait := by
  unfold visit
  split_ifs
  · exact expire_wait t
  · rfl

theorem visit_wait_of_ne {t u : ℕ} (other : u ≠ t) : (k.visit t).wait u = k.wait u := by
  rw [visit_wait]
  split_ifs
  · exact Function.update_of_ne other _ _
  · rfl

/-- A visited task stays on the list exactly when its wait goes on, and the way to those behind it
stays open. -/
theorem visit_spells {a b : List ℕ} (h : k.links.Spells (a ++ t :: b)) :
    (k.visit t).links.Spells (if k.wait t = k.osTickCounter then a ++ b else a ++ t :: b) ∧
      ((k.visit t).contextTask t).next = b.head? := by
  unfold visit
  split_ifs
  · have links := expire_links h (t := t) (by simp)
    refine ⟨links ▸ h.remove rfl,?_⟩
    exact (congrFun (congrArg Links.succ links) t).trans (h.remove_succ rfl)
  · exact ⟨h,(h.cell rfl).1⟩

/-- The traversal of the list visits each of its tasks once, in their order. -/
theorem tickLoop_visits {a b : List ℕ} (h : k.links.Spells (a ++ b)) (n : ℕ) :
    tickLoop n b.head? k = (if b.length ≤ n then some (b.foldl visit k) else none) ∧
      (b.foldl visit k).links.Spells (a ++ b.filter fun t => k.wait t ≠ k.osTickCounter) ∧
      ∀ t, (b.foldl visit k).wait t =
        if t ∈ b ∧ k.wait t = k.osTickCounter then cfg.exitByTimeout else k.wait t := by
  induction b generalizing a k n with
  | nil =>
    refine ⟨by cases n <;> rfl,by simpa using h,fun t => by simp⟩
  | cons u b ih =>
    obtain ⟨spells,next⟩ := visit_spells h
    have nodup := (List.nodup_append.mp h.nodup).2.1
    have rest : ∀ t ∈ b, (k.visit u).wait t = k.wait t := fun t ht => by
      refine visit_wait_of_ne ?_
      rintro rfl
      exact (List.nodup_cons.mp nodup).1 ht
    have later : b.filter (fun t => (k.visit u).wait t ≠ (k.visit u).osTickCounter) =
        b.filter fun t => k.wait t ≠ k.osTickCounter :=
      List.filter_congr fun t ht => by rw [rest t ht,visit_counter]
    have along : ∃ c, (k.visit u).links.Spells (c ++ b) ∧
        c ++ b.filter (fun t => k.wait t ≠ k.osTickCounter) =
          a ++ (u :: b).filter fun t => k.wait t ≠ k.osTickCounter := by
      split_ifs at spells with due
      · exact ⟨a,spells,by simp [due]⟩
      · exact ⟨a ++ [u],by simpa using spells,by simp [due]⟩
    obtain ⟨c,hc,same⟩ := along
    obtain ⟨_,left,wait⟩ := ih hc 0
    refine ⟨?_,?_,fun t => ?_⟩
    · cases n with
      | zero => rfl
      | succ n =>
        change tickLoop n ((k.visit u).contextTask u).next (k.visit u) = _
        rw [next,(ih hc n).1]
        simp only [List.length_cons,Nat.add_le_add_iff_right,List.foldl_cons]
    · rw [later,same] at left
      exact left
    · rw [List.foldl_cons,wait,visit_counter]
      by_cases e : t = u
      · subst e
        rw [if_neg fun h => (List.nodup_cons.mp nodup).1 h.1,visit_wait]
        by_cases due : k.wait t = k.osTickCounter
        · simp [due]
        · simp [due]
      · simp only [visit_wait_of_ne e,List.mem_cons,e,false_or]

end Kernel
end Brtos
