import Brtos.Uninstall

/-! Which traces of a task OSUninstallTask leaves behind. -/
namespace Brtos
open Bitmap Chain

namespace Kernel
variable {cfg : Config} (k : Kernel cfg)

/-- Task `t` was taken out between the two states, and nothing refers to it any more. -/
structure Removed (t : ℕ) (l : Kernel cfg) : Prop where
  list {a : List ℕ} : k.links.Spells a → l.links.Spells (a.erase t)
  slots {p : ℕ} : p < cfg.width → l.priorityVector p ≠ t
  owners {m : ℕ} : m < cfg.brtosMaxMutex → l.Created (.mutex m) →
    (l.brtosMutexTable m).osEventOwner ≠ t
  free : ¬ l.Installed t ∧ (l.contextTask t).priority = emptyPrio ∧
    l.priorityVector (k.contextTask t).priority = emptyPrio
  next {stack : StackBlock} {f : Entry} {n u : ℕ} {m : Kernel cfg} :
    l.osInstallTaskDynamic stack f n (k.contextTask t).priority = (m,ok,some u) →
      (k.contextTask t).priority ∈ bits m.osReadyList ∧ (k.contextTask t).priority ∈ bits m.osBlockedList

/-- Nothing but its priority refers to the task, which is ready or on the delay list, and its priority is
not blocked. -/
structure Removable (t : ℕ) : Prop where
  unlinked : (k.contextTask t).priority ∈ bits k.osReadyList → ∀ a, k.links.Spells a → t ∉ a
  alone {p : ℕ} : p < cfg.width → k.priorityVector p = t → p = (k.contextTask t).priority
  free {m : ℕ} : m < cfg.brtosMaxMutex → k.Created (.mutex m) → (k.brtosMutexTable m).osEventOwner ≠ t
  unmasked : (k.contextTask t).priority ∈ bits k.osBlockedList

variable {k} {l m : Kernel cfg} {off t p : ℕ} {a : List ℕ}

/-! ### The end of OSUninstallTask -/

theorem osBlockedList_of_shell (h : l.shell = k.shell) : l.osBlockedList = k.osBlockedList := by
  have same := congrArg (fun k : Kernel cfg => k.osBlockedList) h
  exact same

theorem proceedUninstall_core (k : Kernel cfg) (t : ℕ) : (k.proceedUninstall t).1.toCore =
    { k.toCore with
      taskAlloc := k.taskAlloc &&& ~~~ BitVec.twoPow 32 (t-1)
      priorityVector := Function.update k.priorityVector (k.contextTask t).priority emptyPrio
      contextTask := Function.update k.contextTask t ⟨0,0,cfg.noTimeout,emptyPrio,none,none⟩ } := by
  simp only [proceedUninstall,exitTask_toCore]
  split_ifs <;> rfl

theorem proceedUninstall_links (k : Kernel cfg) (t : ℕ) : (k.proceedUninstall t).1.links =
    ⟨k.head,k.tail,Function.update k.links.succ t none,Function.update k.links.pred t none⟩ := by
  have next := map_update ContextType.next k.contextTask t ⟨0,0,cfg.noTimeout,emptyPrio,none,none⟩
  have previous := map_update ContextType.previous k.contextTask t
    ⟨0,0,cfg.noTimeout,emptyPrio,none,none⟩
  simp only [links,proceedUninstall_core]
  exact congrArg₂ (Links.mk k.head k.tail) next previous

theorem proceedUninstall_blocked (k : Kernel cfg) (t : ℕ) :
    (k.proceedUninstall t).1.osBlockedList = k.osBlockedList := by
  simp only [proceedUninstall,osBlockedList_of_shell (exitTask_shell _)]
  split_ifs <;> rfl

/-- The links of the task are cleared behind those of a list that it is not on. -/
theorem proceedUninstall_spells (h : k.links.Spells a) (far : t ∉ a) :
    (k.proceedUninstall t).1.links.Spells a := by
  rw [proceedUninstall_links]
  have apart : ∀ u ∈ a, u ≠ t := fun u hu same => far (same ▸ hu)
  refine h.congr rfl rfl (fun u hu => ?_) fun u hu => ?_
  · exact Function.update_of_ne (apart u hu) _ _
  · exact Function.update_of_ne (apart u hu) _ _

/-! ### What is left of the task -/

/-- What the two ways have in common. -/
structure Left (k : Kernel cfg) (t : ℕ) (l : Kernel cfg) : Prop where
  roster : l.roster = (Function.update k.priorityVector (k.contextTask t).priority emptyPrio,
    Function.update (fun u => (k.contextTask u).priority) t emptyPrio,
    k.taskAlloc &&& ~~~ BitVec.twoPow 32 (t-1),fun m => (k.event (.mutex m)).osEventAllocated,
    k.brtosMutexTable)
  blocked : l.osBlockedList = k.osBlockedList
  wait {u : ℕ} : u ≠ t → l.wait u = k.wait u
  vital : l.vital = k.vital

theorem Left.vector (left : Left k t l) :
    l.priorityVector = Function.update k.priorityVector (k.contextTask t).priority emptyPrio :=
  congrArg (·.1) left.roster

theorem Left.alloc (left : Left k t l) : l.taskAlloc = k.taskAlloc &&& ~~~ BitVec.twoPow 32 (t-1) :=
  congrArg (·.2.2.1) left.roster

theorem Left.prio (left : Left k t l) : (l.contextTask t).priority = emptyPrio := by
  have prios : (fun u => (l.contextTask u).priority) =
      Function.update (fun u => (k.contextTask u).priority) t emptyPrio := congrArg (·.2.1) left.roster
  rw [congrFun prios t,Function.update_self]

theorem proceedUninstall_wait (k : Kernel cfg) (t : ℕ) :
    (k.proceedUninstall t).1.wait = Function.update k.wait t cfg.noTimeout := by
  have wait' := map_update ContextType.timeToWait k.contextTask t
    ⟨0,0,cfg.noTimeout,emptyPrio,none,none⟩
  unfold wait
  simp only [proceedUninstall_core]
  exact wait'

theorem proceedUninstall_vital (k : Kernel cfg) (t : ℕ) : (k.proceedUninstall t).1.vital = k.vital := by
  simp only [proceedUninstall,vital_of_shell (exitTask_shell _)]
  split_ifs
  · rw [vital_of_shell (changeContext_shell _)]
    rfl
  · rfl

theorem left_of_roster (roster : m.roster = k.roster) (shell : m.shell = k.shell)
    (wait : m.wait = k.wait) : Left k t (m.proceedUninstall t).1 := by
  refine ⟨?_,(proceedUninstall_blocked m t).trans (osBlockedList_of_shell shell),fun {u} hu => ?_,
    (proceedUninstall_vital m t).trans (vital_of_shell shell)⟩
  · have prio := map_update ContextType.priority m.contextTask t
      ⟨0,0,cfg.noTimeout,emptyPrio,none,none⟩
    simp only [Kernel.roster,Prod.mk.injEq] at roster
    obtain ⟨vector,prios,alloc,allocated,table⟩ := roster
    have own : (m.contextTask t).priority = (k.contextTask t).priority := congrFun prios t
    simp only [Kernel.roster,proceedUninstall_core,prio]
    rw [vector,own,prios,alloc,allocated,table]
  · rw [proceedUninstall_wait,Function.update_of_ne hu,wait]

theorem Uninstalls.left (way : Uninstalls k off t l) : Left k t l := by
  have wait := wait_of_clock k.enterTask_clock
  cases way with
  | ready isReady =>
    exact left_of_roster (by simp) ((clearReady_shell _ _).trans (enterTask_shell k)) wait
  | @waiting isNot unsafe_ fuel linked found =>
    cases linked with
    | true =>
      exact left_of_roster ((removeFromDelayList_roster _ _).trans k.enterTask_roster)
        ((removeFromDelayList_shell _ _).trans (enterTask_shell k))
        ((removeFromDelayList_wait _).trans wait)
    | false => exact left_of_roster k.enterTask_roster (enterTask_shell k) wait

theorem erase_of_split {x y : List ℕ} (nodup : a.Nodup) (split : a = x ++ t :: y) :
    a.erase t = x ++ y ∧ t ∉ x ++ y := by
  subst split
  obtain ⟨far,_⟩ := List.nodup_cons.mp (List.nodup_middle.mp nodup)
  have front : t ∉ x := fun h => far (List.mem_append_left y h)
  exact ⟨by rw [List.erase_append_right _ front,List.erase_cons_head],far⟩

/-- The delay list without the task is spelled exactly where the task was not ready on it. -/
theorem Uninstalls.list_iff (way : Uninstalls k off t l) (spells : k.links.Spells a) :
    l.links.Spells (a.erase t) ↔ ((k.contextTask t).priority ∈ bits k.osReadyList → t ∉ a) := by
  have entered : k.enterTask.links.Spells a := k.enterTask_links ▸ spells
  cases way with
  | ready isReady =>
    have cleared : (k.enterTask.clearReady (k.contextTask t).priority).links.Spells a := entered
    constructor
    · intro without _ mem
      obtain ⟨x,y,split⟩ := List.append_of_mem mem
      rw [(erase_of_split spells.nodup split).1,proceedUninstall_links] at without
      exact absurd without (cleared.not_without split rfl fun u hu => Function.update_of_ne hu _ _)
    · intro far
      rw [List.erase_of_not_mem (far isReady)]
      exact proceedUninstall_spells cleared (far isReady)
  | @waiting isNot unsafe_ fuel linked found =>
    have member := searchDelayList_eq entered found
    refine iff_of_true ?_ fun isReady => absurd isReady isNot
    cases linked with
    | true =>
      obtain ⟨x,y,split⟩ := List.append_of_mem (member.mp rfl)
      obtain ⟨erased,far⟩ := erase_of_split spells.nodup split
      have removed : (k.enterTask.removeFromDelayList t).links.Spells (x ++ y) := by
        rw [remove_links entered (member.mp rfl)]
        exact entered.remove split
      rw [erased]
      exact proceedUninstall_spells removed far
    | false =>
      have far : t ∉ a := fun mem => by simpa using member.mpr mem
      rw [List.erase_of_not_mem far]
      exact proceedUninstall_spells entered far

/-! ### The next installation -/

/-- OSInstallTask fails without an effect, or it fills a free control block. -/
theorem osInstallTaskDynamic_cases (k : Kernel cfg) (stack : StackBlock) (f : Entry) (n p : ℕ) :
    (∃ code, code ≠ ok ∧ k.osInstallTaskDynamic stack f n p = (k.enterTask.exitTask,code,none)) ∨
    ∃ i s, k.enterTask.findTcb = some i ∧ p < cfg.width ∧ k.osInstallTaskDynamic stack f n p =
      ((k.enterTask.installOnHeap (i+1) s stack.stackPoint p).exitTask,ok,some (i+1)) := by
  have pos := cfg.width_pos
  simp only [osInstallTaskDynamic]
  by_cases small : n-n%cfg.sizeofCpuType < cfg.numberMinOfStackedBytes
  · exact Or.inl ⟨stackSizeTooSmall,by decide,by rw [if_pos small]⟩
  rw [if_neg small]
  by_cases high : p ≠ 0 ∧ p > cfg.width-1
  · exact Or.inl ⟨endOfAvailablePriorities,by decide,by rw [if_pos high]⟩
  rw [if_neg high]
  by_cases busy : p ≠ 0 ∧ k.enterTask.priorityVector p ≠ emptyPrio
  · exact Or.inl ⟨busyPriority,by decide,by rw [if_pos busy]⟩
  rw [if_neg busy]
  by_cases idle : p = 0 ∧ f ≠ .idle
  · exact Or.inl ⟨cannotAssignIdleTaskPrio,by decide,by rw [if_pos idle]⟩
  rw [if_neg idle]
  cases stack.stackInit with
  | none => exact Or.inl ⟨noMemory,by decide,rfl⟩
  | some s =>
    cases free : k.enterTask.findTcb with
    | none => exact Or.inl ⟨endOfAvailableTcb,by decide,rfl⟩
    | some i => exact Or.inr ⟨i,s,rfl,by omega,rfl⟩

theorem named_inside {fuel h : ℕ} (done : k.osUninstallTask fuel h off = some (l,ok)) :
    (k.named h ≠ 0 ∧ k.named h ≤ cfg.numberOfTasks) ∧ (k.contextTask (k.named h)).priority ≠ 0 ∧
      (k.contextTask (k.named h)).priority < cfg.width ∧ Uninstalls k off (k.named h) l := by
  have outcome := osUninstallTask_outcome k fuel h off
  rw [done] at outcome
  generalize answer : some (l,ok) = r at outcome
  cases outcome with
  | done named inside user fits way =>
    obtain ⟨rfl,_⟩ := Prod.mk.inj (Option.some.inj answer)
    exact ⟨⟨named,inside⟩,user,fits,way⟩
  | _ => simp [notValidTask,cannotUninstallIdleTask,taskWaitingEvent,ok] at answer

theorem Left.free (left : Left k t l) :
    ¬ l.Installed t ∧ (l.contextTask t).priority = emptyPrio ∧
      l.priorityVector (k.contextTask t).priority = emptyPrio := by
  refine ⟨?_,left.prio,by rw [left.vector,Function.update_self]⟩
  rintro ⟨_,_,bit⟩
  have low : t-1 < 32 := by omega
  simp [left.alloc,low] at bit

/-- An installation on the heap does to the links, the times and the roster what one in STACK does. -/
theorem installOnHeap_clock (k : Kernel cfg) (t stackInit stackPoint n p : ℕ) :
    (k.installOnHeap t stackInit stackPoint p).clock = (k.installInto t n p).clock := by
  have agree : ∀ {β : Type} (g : ContextType → β) (u : ℕ),
      (∀ c d : ContextType, c.timeToWait = d.timeToWait → c.next = d.next → c.previous = d.previous →
        g c = g d) →
      g ((k.installOnHeap t stackInit stackPoint p).contextTask u) =
        g ((k.installInto t n p).contextTask u) := by
    intro β g u same
    by_cases e : u = t
    · apply same <;> simp [installOnHeap,installInto,setReady,setTask,setPriorityVector,e]
    · simp [installOnHeap,installInto,setReady,setTask,setPriorityVector,e]
  have next := funext fun u => agree ContextType.next u fun _ _ _ h _ => h
  have previous := funext fun u => agree ContextType.previous u fun _ _ _ _ h => h
  have time := funext fun u => agree ContextType.timeToWait u fun _ _ h _ _ => h
  exact congrArg₂ (fun a b => (a,b,_)) (congrArg₂ (Links.mk k.head k.tail) next previous) time

theorem osInstallTaskDynamic_vital (k : Kernel cfg) (stack : StackBlock) (f : Entry) (n p : ℕ) :
    (k.osInstallTaskDynamic stack f n p).1.vital = k.vital := by
  have entered : k.enterTask.vital = k.vital := vital_of_shell (enterTask_shell k)
  rcases osInstallTaskDynamic_cases k stack f n p with ⟨code,_,failed⟩ | ⟨i,s,_,_,taken⟩
  · rw [failed]
    exact (vital_of_shell (exitTask_shell _)).trans entered
  · rw [taken]
    refine (vital_of_shell (exitTask_shell _)).trans (Eq.trans ?_ entered)
    rfl

/-- A refusal leaves the kernel's data alone. -/
theorem osUninstallTask_refused {fuel h code : ℕ} (answer : k.osUninstallTask fuel h off = some (l,code))
    (refused : code ≠ ok) : l.shell = k.shell ∧ l.toCore = k.toCore := by
  have outcome := osUninstallTask_outcome k fuel h off
  rw [answer] at outcome
  generalize reply : some (l,code) = r at outcome
  cases outcome with
  | nobody none_ =>
    obtain ⟨rfl,_⟩ := Prod.mk.inj (Option.some.inj reply)
    exact ⟨osExitCritical_shell k,rfl⟩
  | idle named zero | waits named isNot safe =>
    obtain ⟨rfl,_⟩ := Prod.mk.inj (Option.some.inj reply)
    exact ⟨(exitTask_shell _).trans (enterTask_shell k),by rw [exitTask_toCore,enterTask_toCore]⟩
  | done named inside user fits way => exact absurd (Prod.mk.inj (Option.some.inj reply)).2 refused
  | _ => simp at reply

theorem osUninstallTask_vital {fuel h code : ℕ} (answer : k.osUninstallTask fuel h off = some (l,code)) :
    l.vital = k.vital := by
  by_cases done : code = ok
  · subst done
    exact (named_inside answer).2.2.2.left.vital
  · exact vital_of_shell (osUninstallTask_refused answer done).1

end Kernel

namespace System
open Kernel
variable {cfg : Config} {s t : System cfg} {l : List ℕ}

/-! ### Runs with dynamic tasks -/

/-- The waits are as long as documented, no task comes back from OSDelayTask before its time, and a task
is taken out only where nothing but its priority refers to it. -/
def Clean (s : System cfg) : DynamicAction → Prop
  | .base a => a.InTime cfg ∧ s.Punctual a
  | .uninstall fuel taskHandle safetyOff => ∀ k,
    s.osUninstallTask fuel taskHandle safetyOff = some (k,ok) → s.Removable (s.named taskHandle)
  | _ => True

/-- Nobody is taken out. -/
def Plain (s : System cfg) : DynamicAction → Prop
  | .base a => a.InTime cfg ∧ s.Punctual a
  | .uninstall _ _ _ => False
  | _ => True

instance (a : DynamicAction) : Decidable (s.Plain a) := by
  rcases a <;> unfold Plain <;> infer_instance

theorem Plain.clean {a : DynamicAction} (h : s.Plain a) : s.Clean a := by
  cases a with
  | uninstall fuel taskHandle safetyOff => exact h.elim
  | _ => exact h

theorem uninstall_cases {fuel h off : ℕ} (next : s.stepDynamic (.uninstall fuel h off) = some t) :
    ∃ k code, s.osUninstallTask fuel h off = some (k,code) ∧
      t = if code = ok then ({ s with toKernel := k } : System cfg).forget (s.named h)
        else { s with toKernel := k } := by
  simp only [System.stepDynamic] at next
  split_ifs at next
  obtain ⟨⟨k,code⟩,answer,rfl⟩ := Option.map_eq_some_iff.mp next
  exact ⟨k,code,answer,rfl⟩

theorem Dormant.stepDynamic (h : s.Dormant) {a : DynamicAction} (next : s.stepDynamic a = some t) :
    t.Dormant := by
  cases a with
  | base a =>
    simp only [System.stepDynamic] at next
    split_ifs at next
    exact h.step next
  | start stack =>
    simp only [System.stepDynamic] at next
    split_ifs at next with stopped
    obtain rfl := Option.some.inj next
    intro failed
    have code : (s.osInstallTaskDynamic stack .idle cfg.idleStackSize 0).2.1 ≠ ok := fun e => by
      simp [brtosStartDynamic,e] at failed
    refine ⟨?_,(h stopped).2⟩
    simp only [brtosStartDynamic,ne_eq,code,not_false_eq_true,if_true]
    exact (currentTask_of_vital (osInstallTaskDynamic_vital ..)).trans (h stopped).1
  | install stack f n p =>
    simp only [System.stepDynamic] at next
    split_ifs at next
    obtain rfl := Option.some.inj next
    intro stopped
    exact ⟨(currentTask_of_vital (osInstallTaskDynamic_vital ..)).trans (h stopped).1,(h stopped).2⟩
  | uninstall fuel taskHandle off =>
    obtain ⟨k,code,answer,rfl⟩ := uninstall_cases next
    have vital := osUninstallTask_vital answer
    split_ifs
    · intro stopped
      refine ⟨(currentTask_of_vital vital).trans (h stopped).1,fun u => ?_⟩
      simp only [forget]
      rcases eq_or_ne u (s.named taskHandle) with rfl | other
      · exact Function.update_self ..
      · rw [Function.update_of_ne other]
        exact (h stopped).2 u
    · intro stopped
      exact ⟨(currentTask_of_vital vital).trans (h stopped).1,(h stopped).2⟩

theorem Clocked.uninstall (h : s.Clocked l) {off u : ℕ} {k : Kernel cfg}
    (way : Uninstalls s.toKernel off u k) (inside : u ≠ 0)
    (unlinked : (s.contextTask u).priority ∈ Bitmap.bits s.osReadyList → u ∉ l) :
    (({ s with toKernel := k } : System cfg).forget u).Clocked (l.erase u) := by
  have left := way.left
  have other : ∀ {v : ℕ}, (({ s with toKernel := k } : System cfg).forget u).point v ≠ .run → v ≠ u := by
    rintro v waits rfl
    exact waits (Function.update_self ..)
  have timed : ∀ {v : ℕ}, v ≠ u →
      ((({ s with toKernel := k } : System cfg).forget u).Timed v ↔ s.Timed v) := by
    intro v hv
    simp only [Timed,forget,Function.update_of_ne hv,left.wait hv]
  have limited : ∀ {v : ℕ}, (({ s with toKernel := k } : System cfg).forget u).Timed v → v ≠ u :=
    fun waits => other fun run => waits.1 (by rw [run]; rfl)
  exact
  { spells := (way.list_iff h.spells).mpr unlinked
    mem := fun {v} => by
      by_cases hv : v = u
      · exact iff_of_false (hv ▸ h.spells.nodup.not_mem_erase) fun waits => limited waits hv
      · rw [List.mem_erase_of_ne hv,timed hv,h.mem]
    due := fun {v} waits => by
      have hv := limited waits
      change k.wait v < _
      rw [left.wait hv]
      exact h.due ((timed hv).mp waits)
    napping := fun {v} naps => by
      have hv := other (v := v) (by rw [naps]; simp)
      exact h.napping (by simpa [forget,Function.update_of_ne hv] using naps)
    user := fun {v} waits => by
      have hv := other waits
      simp only [forget,Function.update_of_ne hv] at waits ⊢
      exact h.user waits
    roster := fun {v} user => by
      have hv : v ≠ u := by
        rintro rfl
        exact user (Function.update_self ..)
      simp only [forget,Function.update_of_ne hv] at user
      obtain ⟨low,high,bit⟩ := h.roster user
      refine ⟨low,high,?_⟩
      have apart : v-1 ≠ u-1 := by omega
      change k.taskAlloc.getLsbD (v-1) = true
      simp [left.alloc,bit,apart.symm]
      omega
    counter := by
      change k.osTickCounter < _
      rw [osTickCounter_of_vital left.vital]
      exact h.counter }

/-- An installation gives a free handle a priority, or none where it fails. -/
theorem Clocked.installDynamic (h : s.Clocked l) {stack : StackBlock} {f : Entry} {n p : ℕ}
    (clock : t.clock = (s.osInstallTaskDynamic stack f n p).1.clock)
    (counter : t.osTickCounter = s.osTickCounter) (point : t.point = s.point)
    (failed : (s.osInstallTaskDynamic stack f n p).2.1 ≠ ok → t.inst = s.inst)
    (taken : ∀ u, (s.osInstallTaskDynamic stack f n p).2 = (ok,some u) → s.inst u = 0 →
      t.inst = Function.update s.inst u p) : t.Clocked l := by
  rcases osInstallTaskDynamic_cases s.toKernel stack f n p with ⟨code,other,he⟩ | ⟨i,sp,free,_,he⟩
  · rw [he] at clock failed
    refine h.same (clock.trans ?_) point (failed other) counter
    rw [exitTask_clock,enterTask_clock]
  · rw [he] at clock taken
    have blank : s.inst (i+1) = 0 := by
      by_contra user
      exact (findTcb_free free).2 (by simpa [Core.Installed] using h.roster user)
    refine h.install (n := n) s.enterTask_clock free (clock.trans ?_) counter point (taken _ rfl blank)
    rw [exitTask_clock,installOnHeap_clock]

theorem Clocked.stepDynamic (h : s.Clocked l) (dormant : s.Dormant) {a : DynamicAction}
    (clean : s.Clean a) (next : s.stepDynamic a = some t) : ∃ m, t.Clocked m := by
  cases a with
  | base a =>
    simp only [System.stepDynamic] at next
    split_ifs at next
    exact h.step dormant clean.1 clean.2 next
  | start stack =>
    simp only [System.stepDynamic] at next
    split_ifs at next
    obtain rfl := Option.some.inj next
    have counter := osTickCounter_of_vital
      (osInstallTaskDynamic_vital s.toKernel stack .idle cfg.idleStackSize 0)
    have clock : (s.brtosStartDynamic stack).1.clock =
        (s.osInstallTaskDynamic stack .idle cfg.idleStackSize 0).1.clock := by
      simp only [brtosStartDynamic]
      split_ifs <;> rfl
    refine ⟨l,h.installDynamic clock ?_ rfl (fun _ => rfl) fun u _ blank => ?_⟩
    · simp only [brtosStartDynamic]
      split_ifs <;> exact counter
    · rw [← blank,Function.update_eq_self]
  | install stack f n p =>
    simp only [System.stepDynamic] at next
    split_ifs at next
    obtain rfl := Option.some.inj next
    have vital := osInstallTaskDynamic_vital s.toKernel stack f n p
    refine ⟨l,h.installDynamic rfl (osTickCounter_of_vital vital) rfl (fun failed => ?_)
      fun u taken _ => ?_⟩
    · simp only [nextInst]
      split <;> simp_all
    · simp [nextInst,taken]
  | uninstall fuel taskHandle off =>
    obtain ⟨k,code,answer,rfl⟩ := uninstall_cases next
    split_ifs with done
    · subst done
      obtain ⟨inside,_,_,way⟩ := named_inside answer
      have removable := clean k answer
      exact ⟨_,h.uninstall way inside.1 fun isReady => removable.unlinked isReady l h.spells⟩
    · obtain ⟨shell,core⟩ := osUninstallTask_refused answer done
      exact ⟨l,h.same (clock_congr core) rfl rfl (osTickCounter_of_vital (vital_of_shell shell))⟩

end System
end Brtos
