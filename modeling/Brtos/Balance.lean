import Brtos.Nesting
import Brtos.TimerTask
import Brtos.TimerLists

/-! Critical sections are balanced: what is entered along a service is left again, in every run of the
services, the timer task and the interrupts. -/
namespace Brtos
open Sections Kernel

namespace TimerService
variable {cfg : Config} {s t : TimerService cfg} {p w : ℕ} {r : Reply}

/-! ### The functions of stimer.c -/

theorem wake_sections (h : s.wake p = .ok t) : t.sections = s.sections := by
  unfold wake at h
  by_cases task : s.currentTask ≠ 0
  · rw [if_pos task] at h
    obtain ⟨q,_,h⟩ := bind_eq_ok.mp h
    split_ifs at h
    all_goals
      obtain rfl := Except.ok.inj h
      rfl
  · rw [if_neg task] at h
    obtain rfl := Except.ok.inj h
    rfl

theorem launch_sections (h : s.launch p w = .ok t) : t.sections = s.sections := by
  simp only [launch] at h
  split_ifs at h
  · obtain ⟨l,_,h⟩ := bind_eq_ok.mp h
    obtain rfl := Except.ok.inj h
    rfl
  · obtain ⟨l,_,h⟩ := bind_eq_ok.mp h
    obtain ⟨u,woken,h⟩ := bind_eq_ok.mp h
    obtain rfl := Except.ok.inj h
    exact (wake_sections woken).trans rfl
  · obtain rfl := Except.ok.inj h
    rfl

theorem osTimerSet_sections (room : s.Roomy) {cbp : Bool} {cb : Option ℕ}
    (h : s.osTimerSet cbp cb w = .ok (t,r)) : t.sections = s.sections := by
  simp only [osTimerSet] at h
  split_ifs at h
  · obtain ⟨rfl,_⟩ := Prod.mk.inj (Except.ok.inj h)
    rfl
  · obtain ⟨found,_,h⟩ := bind_eq_ok.mp h
    cases found with
    | error code =>
      obtain ⟨rfl,_⟩ := Prod.mk.inj (Except.ok.inj h)
      exact exitTask_of room rfl
    | ok p =>
      obtain ⟨u,launched,h⟩ := bind_eq_ok.mp h
      obtain ⟨rfl,_⟩ := Prod.mk.inj (Except.ok.inj h)
      exact exitTask_of room ((launch_sections launched).trans rfl)

theorem osTimerGet_sections (room : s.Roomy) (p : Option ℕ) : (s.osTimerGet p).1.sections = s.sections := by
  cases p with
  | none => rfl
  | some p =>
    simp only [osTimerGet]
    split_ifs
    · exact exitTask_of room rfl
    · rfl

theorem osTimerStart_sections (room : s.Roomy) {p : Option ℕ} (h : s.osTimerStart p w = .ok (t,r)) :
    t.sections = s.sections := by
  cases p with
  | none =>
    obtain ⟨rfl,_⟩ := Prod.mk.inj (Except.ok.inj h)
    rfl
  | some p =>
    simp only [osTimerStart] at h
    by_cases zero : w = 0
    · rw [if_pos zero] at h
      obtain ⟨rfl,_⟩ := Prod.mk.inj (Except.ok.inj h)
      rfl
    · rw [if_neg zero] at h
      obtain ⟨u,launched,h⟩ := bind_eq_ok.mp h
      obtain ⟨rfl,_⟩ := Prod.mk.inj (Except.ok.inj h)
      exact exitTask_of room ((launch_sections launched).trans rfl)

theorem osTimerStop_sections (room : s.Roomy) {p : Option ℕ} {del : ℕ}
    (h : s.osTimerStop p del = .ok (t,r)) : t.sections = s.sections := by
  cases p with
  | none =>
    obtain ⟨rfl,_⟩ := Prod.mk.inj (Except.ok.inj h)
    rfl
  | some p =>
    simp only [osTimerStop,osTimerStopWithin] at h
    obtain ⟨pos,_,h⟩ := bind_eq_ok.mp h
    obtain ⟨l,_,h⟩ := bind_eq_ok.mp h
    obtain ⟨l,_,h⟩ := bind_eq_ok.mp h
    obtain ⟨l,_,h⟩ := bind_eq_ok.mp h
    obtain ⟨rfl,_⟩ := Prod.mk.inj (Except.ok.inj h)
    refine exitTask_of room ?_
    unfold release
    split_ifs <;> rfl

theorem osTimerInit_sections {k : Kernel cfg} (room : k.Roomy) {f : Entry} {n h : ℕ}
    (done : osTimerInit k f n p = .ok (s,h)) : s.sections = k.sections := by
  obtain ⟨u,init,done⟩ := bind_eq_ok.mp done
  obtain ⟨mem,_,init⟩ := bind_eq_ok.mp init
  obtain rfl := Except.ok.inj init
  dsimp only at done
  split_ifs at done
  obtain ⟨rfl,_⟩ := Prod.mk.inj (Except.ok.inj done)
  have first : k.enterTask.exitTask.sections = k.sections := exitTask_of room rfl
  exact (osInstallTask_sections (room.of_sections first) f n p).trans first

/-- The end of an iteration of the timer task leaves the section that a callback has made it enter. -/
theorem proceed_sections {q : Option ℕ} (h : s.proceed = .ok (t,q)) :
    t.sections = s.osExitCritical.sections := by
  obtain ⟨l,_,h⟩ := bind_eq_ok.mp h
  obtain ⟨q,_,h⟩ := bind_eq_ok.mp h
  obtain ⟨rfl,_⟩ := Prod.mk.inj (Except.ok.inj h)
  rfl

theorem rearm_sections {behind : Bool} {again : ℕ} (h : s.rearm behind p again = .ok t) :
    t.sections = s.sections := by
  simp only [rearm] at h
  split_ifs at h
  · obtain ⟨future,_,h⟩ := bind_eq_ok.mp h
    obtain ⟨current,_,h⟩ := bind_eq_ok.mp h
    obtain rfl := Except.ok.inj h
    rfl
  · obtain rfl := Except.ok.inj h
    rfl

theorem retire_sections (h : s.retire p = .ok t) : t.sections = s.sections := by
  obtain ⟨current,_,h⟩ := bind_eq_ok.mp h
  obtain rfl := Except.ok.inj h
  rfl

theorem dispatch_sections (room : s.Roomy) {behind : Bool} {again : ℕ} {q : Option ℕ}
    (h : s.dispatch behind p again = .ok (t,q)) : t.sections = s.sections := by
  simp only [dispatch] at h
  split_ifs at h
  · obtain ⟨u,armed,h⟩ := bind_eq_ok.mp h
    exact (proceed_sections h).trans (osExitCritical_of room (rearm_sections armed))
  · obtain ⟨u,retired,h⟩ := bind_eq_ok.mp h
    exact (proceed_sections h).trans (osExitCritical_of room (retire_sections retired))

end TimerService

/-! ### Runs -/

/-- What the others do while OSDelayTaskHMSM sleeps; they leave the sections that they enter. -/
structure Quiet (cfg : Config) extends Meanwhile cfg where
  sections : ∀ n k, (run n k).sections = k.sections

/-- The services of the two builds, and what happens between them. A pend's service ends where it loses
the processor; the timer task runs from stop to stop. -/
inductive Service (cfg : Config)
  | call (c : Call)
  | resume (o : Obj) (iPriority timeWait : ℕ)
  | delayTaskHMSM (m : Quiet cfg) (rate hours minutes seconds miliseconds : ℕ)
  | tick (fuel : ℕ)
  | start
  | startDynamic (stack : StackBlock)
  | install (stack : StackBlock) (fctPtr : Entry) (userStackedBytes iPriority : ℕ)
  | uninstall (fuel taskHandle safetyOff : ℕ)
  | getCurrentTaskHandle
  | getTaskPriority (taskHandle : ℕ)
  | getTickCount
  | queue16Create (size : ℕ)
  | queue32Create (size : ℕ)
  | wQueueWide (q : OsWideRing) (width data : ℕ)
  | rQueueWide (q : OsWideRing) (width : ℕ)
  | cleanQueueWide (q : OsWideRing)
  | timerInit (timerTask : Entry) (stacksize prio : ℕ)
  | timerSet (cbp : Bool) (cb : Option ℕ) (timeWait : ℕ)
  | timerGet (p : Option ℕ)
  | timerStart (p : Option ℕ) (timeWait : ℕ)
  | timerStop (p : Option ℕ) (del : ℕ)
  | timerTask
  | callback (again : ℕ)

def Service.fromMain {cfg : Config} : Service cfg → Bool
  | .start | .startDynamic _ => true
  | _ => false

/-- A service, an interrupt or a switch around it, or whatever other code does to the data. -/
inductive Around (cfg : Config)
  | service (x : Service cfg)
  | isrEnter
  | isrExit
  | switch (task : ℕ)
  | other (s : TimerSystem cfg)

namespace Kernel
variable {cfg : Config} {k l m : Kernel cfg} {v w : List Op}

/-- The operations lead from the counters of the one state to those of the other. -/
def Executes (k : Kernel cfg) (w : List Op) (l : Kernel cfg) : Prop :=
  l.critical = k.critical+net w ∧ l.interruptEventMutex = own k.interruptEventMutex w

theorem executes_osExitCritical (k : Kernel cfg) : k.Executes [.exit] k.osExitCritical := ⟨rfl,rfl⟩

theorem Executes.trans (h : k.Executes v l) (h' : l.Executes w m) : k.Executes (v++w) m := by
  refine ⟨?_,?_⟩
  · rw [h'.1,h.1,net_append,add_assoc]
  · rw [h'.2,h.2,own_append]

/-- The way from the one state to the other has as many exits as entries, and no exit without its entry;
iNesting and the ownership of the mutex are what they were. -/
structure Balanced (k l : Kernel cfg) : Prop where
  critical : l.critical = k.critical
  nested {w : List Op} : k.Executes w l → Nested w
  iNesting : l.iNesting = k.iNesting
  interruptEventMutex : l.interruptEventMutex = k.interruptEventMutex

/-- The critical sections that nobody is in. -/
structure Level (k : Kernel cfg) : Prop where
  unowned : k.interruptEventMutex = 0
  nesting : cfg.criticalNests = true → k.iNesting = 0

def counters (k : Kernel cfg) : ℤ × ℕ × ℕ := (k.critical,k.interruptEventMutex,k.iNesting)

theorem counters_of_sections (h : l.sections = k.sections) : l.counters = k.counters :=
  congrArg (fun c => (c.1,c.2.1,c.2.2.1)) h

theorem Level.roomy (h : k.Level) : k.Roomy := fun nests => by
  rw [h.nesting nests]
  decide

theorem Level.of_counters (h : k.Level) (same : l.counters = k.counters) : l.Level := by
  simp only [counters,Prod.mk.injEq] at same
  exact ⟨same.2.1.trans h.unowned,fun nests => same.2.2.trans (h.nesting nests)⟩

/-- An exit without an entry finds nothing to give back. -/
theorem Level.osExitCritical (h : k.Level) : k.osExitCritical.Level := by
  refine ⟨?_,fun nests => ?_⟩
  · exact congrArg (·-1) h.unowned
  · have calm := h.nesting nests
    simp [Kernel.osExitCritical,calm]

theorem Level.balanced (h : k.Level) (same : l.counters = k.counters) : k.Balanced l := by
  simp only [counters,Prod.mk.injEq] at same
  obtain ⟨count,held,nesting⟩ := same
  refine ⟨count,fun {w} executes => ?_,nesting,held⟩
  rw [nested_iff]
  refine ⟨by linarith [executes.1],?_⟩
  rw [← h.unowned,← executes.2,held]

theorem not_balanced (same : l.counters = k.osExitCritical.counters) : ¬ k.Balanced l := by
  intro balanced
  have count : l.critical = k.critical-1 := congrArg (·.1) same
  have := balanced.critical
  omega

end Kernel

namespace TimerSystem
variable {cfg : Config} (s : TimerSystem cfg)

/-- A service of the kernel leaves the timers alone. -/
def onCore (f : Kernel cfg → Kernel cfg) : TimerSystem cfg := { s with toKernel := f s.toKernel }

/-- A service called in the state `s`, none where it breaks a rule of the language or does not end. -/
def provide : Service cfg → Option (TimerSystem cfg)
  | .call c => some (s.onCore fun k => (k.serve c).1)
  | .resume o p w => some (s.onCore fun k => (k.resumePend o p w).1)
  | .delayTaskHMSM m rate hours minutes seconds miliseconds =>
    some (s.onCore fun k => (osDelayTaskHMSM m.toMeanwhile rate k hours minutes seconds miliseconds).1)
  | .tick fuel => (s.tick fuel).map fun k => s.onCore fun _ => k
  | .start => some (s.onCore fun k => k.brtosStart.1)
  | .startDynamic stack => some (s.onCore fun k => (k.brtosStartDynamic stack).1)
  | .install stack f n p => some (s.onCore fun k => (k.osInstallTaskDynamic stack f n p).1)
  | .uninstall fuel h off => (s.osUninstallTask fuel h off).map fun r => s.onCore fun _ => r.1
  | .getCurrentTaskHandle => some (s.onCore fun k => k.osGetCurrentTaskHandle.1)
  | .getTaskPriority h => some (s.onCore fun k => (k.osGetTaskPriority h).1)
  | .getTickCount => some (s.onCore fun k => k.osGetTickCount.1)
  | .queue16Create size => some (s.onCore fun k => (k.osQueue16Create size).1)
  | .queue32Create size => some (s.onCore fun k => (k.osQueue32Create size).1)
  | .wQueueWide q width data => some (s.onCore fun k => (k.wQueueWide q width data).1)
  | .rQueueWide q width => some (s.onCore fun k => (k.rQueueWide q width).1)
  | .cleanQueueWide q => some (s.onCore fun k => (k.cleanQueueWide q).1)
  | .timerInit timerTask stacksize prio => (boot s.toKernel timerTask stacksize prio).toOption
  | .timerSet cbp cb w => s.step (.set cbp cb w)
  | .timerGet p => some { s with toTimerService := (s.osTimerGet p).1 }
  | .timerStart p w => s.step (.start p w)
  | .timerStop p del => s.step (.stop p del)
  | .timerTask => s.step .run
  | .callback again => s.step (.ret again)

/-- Other code may do anything but what the services alone do, entering and leaving critical sections.
BRTOSStart is called by main, outside of interrupt handlers. -/
def around (s : TimerSystem cfg) : Around cfg → Option (TimerSystem cfg)
  | .service x => if x.fromMain → s.iNesting = 0 then s.provide x else none
  | .isrEnter =>
    if cfg.criticalNests = false then some (s.onCore fun k => { k with iNesting := k.iNesting+1 }) else none
  | .isrExit =>
    if cfg.criticalNests = false then some (s.onCore fun k => { k with iNesting := k.iNesting-1 }) else none
  | .switch task => some (s.onCore fun k => { k with currentTask := task })
  | .other t => if t.sections = s.sections then some t else none

/-- The state behind BRTOSInit. -/
def initial (cfg : Config) : TimerSystem cfg :=
  { TimerService.zeroed (brtosInit cfg) with point := .start, timeout := 0, self := 0 }

/-- The service leaves a section that it has not entered. -/
def Unentered (s : TimerSystem cfg) : Service cfg → Prop
  | .call (.blockTask h) => s.iNesting = 0 ∧ s.Nobody h
  | .uninstall _ h _ => s.Nobody h
  | .timerTask => ∃ behind p, s.point = .loop behind (some p) ∧ (s.mem p).funcCb = none ∧
    (behind = true ∨ (s.mem p).timeout ≤ s.osTickCounter)
  | _ => False

variable {s} {t : TimerSystem cfg} {x : Service cfg}

theorem brtosStart_counters {k : Kernel cfg} (room : k.Roomy) (calm : k.iNesting = 0) :
    k.brtosStart.1.counters = k.counters := by
  have same := counters_of_sections (osInstallTask_sections room .idle cfg.idleStackSize 0)
  simp only [brtosStart]
  split_ifs
  · exact same
  · simp only [counters,Prod.mk.injEq] at same ⊢
    exact ⟨same.1,same.2.1,calm.symm⟩

theorem brtosStartDynamic_counters {k : Kernel cfg} (room : k.Roomy) (calm : k.iNesting = 0)
    (stack : StackBlock) : (k.brtosStartDynamic stack).1.counters = k.counters := by
  have same := counters_of_sections (osInstallTaskDynamic_sections room stack .idle cfg.idleStackSize 0)
  simp only [brtosStartDynamic]
  split_ifs
  · exact same
  · simp only [counters,Prod.mk.injEq] at same ⊢
    exact ⟨same.1,same.2.1,calm.symm⟩

theorem skip_sections {behind : Bool} (h : s.skip behind = .ok t) :
    t.sections = s.osExitCritical.sections := by
  obtain ⟨⟨u,q⟩,hu,h⟩ := bind_eq_ok.mp h
  obtain rfl := Except.ok.inj h
  exact TimerService.proceed_sections hu

/-- An iteration of the timer task at the timer `p`, whose turn it is. -/
theorem turn_sections {behind : Bool} {p : ℕ}
    (h : (if (s.mem p).funcCb ≠ none then .ok (s.goto (.fires behind p)) else s.skip behind) = .ok t) :
    ((s.mem p).funcCb ≠ none → t.sections = s.sections) ∧
      ((s.mem p).funcCb = none → t.sections = s.osExitCritical.sections) := by
  by_cases some_ : (s.mem p).funcCb ≠ none
  · rw [if_pos some_] at h
    obtain rfl := Except.ok.inj h
    exact ⟨fun _ => rfl,fun none_ => absurd none_ some_⟩
  · rw [if_neg some_] at h
    exact ⟨fun some' => absurd some' some_,fun _ => skip_sections h⟩

/-- Elsewhere the timer task leaves what it enters. -/
theorem run_sections_else (room : s.Roomy) (else_ : ∀ behind p, s.point ≠ .loop behind (some p))
    (h : s.run = .ok t) : t.sections = s.sections := by
  unfold run at h
  cases point : s.point with
  | start =>
    rw [point] at h
    obtain ⟨p,_,h⟩ := bind_eq_ok.mp h
    obtain rfl := Except.ok.inj h
    rfl
  | choose p =>
    rw [point] at h
    cases p
    all_goals
      obtain rfl := Except.ok.inj h
      rfl
  | sleep next =>
    rw [point] at h
    obtain rfl := Except.ok.inj h
    rfl
  | enlist =>
    rw [point] at h
    obtain rfl := Except.ok.inj h
    exact osExitCritical_of room (includeTaskIntoDelayList_sections s.osEnterCritical s.currentTask)
  | asleep =>
    rw [point] at h
    obtain ⟨p,_,h⟩ := bind_eq_ok.mp h
    obtain rfl := Except.ok.inj h
    rfl
  | judge p =>
    rw [point] at h
    cases p
    all_goals
      obtain rfl := Except.ok.inj h
      rfl
  | loop behind p =>
    rw [point] at h
    cases p with
    | some p => exact absurd point (else_ behind p)
    | none =>
      cases behind with
      | false =>
        obtain rfl := Except.ok.inj h
        rfl
      | true =>
        obtain ⟨p,_,h⟩ := bind_eq_ok.mp h
        obtain rfl := Except.ok.inj h
        rfl
  | fires behind p =>
    rw [point] at h
    obtain rfl := Except.ok.inj h
    rfl
  | settle p =>
    rw [point] at h
    dsimp only at h
    split_ifs at h
    · obtain ⟨p,_,h⟩ := bind_eq_ok.mp h
      obtain rfl := Except.ok.inj h
      rfl
    · obtain rfl := Except.ok.inj h
      rfl

/-- The timer task leaves what it enters but for the iteration of a timer without a callback. -/
theorem run_sections (room : s.Roomy) (h : s.run = .ok t) :
    (¬ s.Unentered .timerTask → t.sections = s.sections) ∧
      (s.Unentered .timerTask → t.sections = s.osExitCritical.sections) := by
  by_cases turn : ∃ behind p, s.point = .loop behind (some p)
  · obtain ⟨behind,p,point⟩ := turn
    have here : s.Unentered .timerTask ↔
        (s.mem p).funcCb = none ∧ (behind = true ∨ (s.mem p).timeout ≤ s.osTickCounter) := by
      simp [Unentered,point]
    rw [here]
    unfold run at h
    rw [point] at h
    cases behind with
    | true =>
      obtain ⟨enters,leaves⟩ := turn_sections h
      exact ⟨fun not => enters fun none_ => not ⟨none_,.inl rfl⟩,fun both => leaves both.1⟩
    | false =>
      dsimp only at h
      by_cases due : (s.mem p).timeout ≤ s.osTickCounter
      · rw [if_pos due] at h
        obtain ⟨enters,leaves⟩ := turn_sections h
        exact ⟨fun not => enters fun none_ => not ⟨none_,.inr due⟩,fun both => leaves both.1⟩
      · rw [if_neg due] at h
        obtain rfl := Except.ok.inj h
        exact ⟨fun _ => rfl,fun both => absurd both.2 (by simp [due])⟩
  · have else_ : ∀ behind p, s.point ≠ .loop behind (some p) := fun behind p here => turn ⟨behind,p,here⟩
    refine ⟨fun _ => run_sections_else room else_ h,?_⟩
    rintro ⟨behind,p,here,_⟩
    exact absurd here (else_ behind p)

/-- What a service does to the counters. -/
theorem provide_counters (room : s.Roomy) (main : x.fromMain → s.iNesting = 0)
    (next : s.provide x = some t) : (¬ s.Unentered x → t.counters = s.counters) ∧
      (s.Unentered x → t.counters = s.osExitCritical.counters) := by
  have enters : t.counters = s.counters → ¬ s.Unentered x → _ :=
    fun same not => (⟨fun _ => same,fun bad => absurd bad not⟩ :
      (¬ s.Unentered x → t.counters = s.counters) ∧
        (s.Unentered x → t.counters = s.osExitCritical.counters))
  cases x with
  | call c =>
    obtain rfl := Option.some.inj next
    by_cases block : ∃ h, c = .blockTask h
    · obtain ⟨h,rfl⟩ := block
      have same := osBlockTask_sections room h
      exact ⟨fun not => counters_of_sections (same.trans (if_neg not)),
        fun bad => counters_of_sections (same.trans (if_pos bad))⟩
    · have other : ∀ h, c ≠ .blockTask h := fun h e => block ⟨h,e⟩
      refine enters (counters_of_sections (serve_sections room c other)) fun bad => ?_
      cases c with
      | blockTask h => exact other h rfl
      | _ => exact bad
  | resume o p w =>
    obtain rfl := Option.some.inj next
    exact enters (counters_of_sections (resumePend_sections room o p w)) id
  | delayTaskHMSM m rate hours minutes seconds miliseconds =>
    obtain rfl := Option.some.inj next
    exact enters (counters_of_sections (osDelayTaskHMSM_sections m.sections room ..)) id
  | tick fuel =>
    obtain ⟨k,ticked,rfl⟩ := Option.map_eq_some_iff.mp next
    exact enters (counters_of_sections (tick_sections room ticked)) id
  | start =>
    obtain rfl := Option.some.inj next
    exact enters (brtosStart_counters room (main rfl)) id
  | startDynamic stack =>
    obtain rfl := Option.some.inj next
    exact enters (brtosStartDynamic_counters room (main rfl) stack) id
  | install stack f n p =>
    obtain rfl := Option.some.inj next
    exact enters (counters_of_sections (osInstallTaskDynamic_sections room stack f n p)) id
  | uninstall fuel h off =>
    obtain ⟨⟨k,code⟩,done,rfl⟩ := Option.map_eq_some_iff.mp next
    have same := osUninstallTask_sections room done
    exact ⟨fun not => counters_of_sections (same.trans (if_neg not)),
      fun bad => counters_of_sections (same.trans (if_pos bad))⟩
  | getCurrentTaskHandle =>
    obtain rfl := Option.some.inj next
    exact enters (counters_of_sections (osGetCurrentTaskHandle_sections room)) id
  | getTaskPriority h =>
    obtain rfl := Option.some.inj next
    exact enters (counters_of_sections (osGetTaskPriority_sections room h)) id
  | getTickCount =>
    obtain rfl := Option.some.inj next
    exact enters (counters_of_sections (congrArg (·.1.sections) (osGetTickCount_eq room))) id
  | queue16Create size =>
    obtain rfl := Option.some.inj next
    exact enters (counters_of_sections (osQueue16Create_sections room size)) id
  | queue32Create size =>
    obtain rfl := Option.some.inj next
    exact enters (counters_of_sections (osQueue32Create_sections room size)) id
  | wQueueWide q width data =>
    obtain rfl := Option.some.inj next
    exact enters (counters_of_sections (wQueueWide_sections room q width data)) id
  | rQueueWide q width =>
    obtain rfl := Option.some.inj next
    exact enters (counters_of_sections (rQueueWide_sections room q width)) id
  | cleanQueueWide q =>
    obtain rfl := Option.some.inj next
    exact enters (counters_of_sections (cleanQueueWide_sections room q)) id
  | timerInit timerTask stacksize prio =>
    have booted : boot s.toKernel timerTask stacksize prio = .ok t := by
      simp only [provide] at next
      cases result : boot s.toKernel timerTask stacksize prio <;> simp_all [Except.toOption]
    obtain ⟨⟨u,h⟩,begun,booted⟩ := bind_eq_ok.mp booted
    obtain rfl := Except.ok.inj booted
    exact enters (counters_of_sections (TimerService.osTimerInit_sections room begun)) id
  | timerSet cbp cb w =>
    obtain ⟨⟨u,r⟩,done,acted⟩ := bind_eq_ok.mp (step_eq_some.mp next)
    obtain rfl := Except.ok.inj acted
    exact enters (counters_of_sections (TimerService.osTimerSet_sections room done)) id
  | timerGet p =>
    obtain rfl := Option.some.inj next
    exact enters (counters_of_sections (TimerService.osTimerGet_sections room p)) id
  | timerStart p w =>
    obtain ⟨⟨u,r⟩,done,acted⟩ := bind_eq_ok.mp (step_eq_some.mp next)
    obtain rfl := Except.ok.inj acted
    exact enters (counters_of_sections (TimerService.osTimerStart_sections room done)) id
  | timerStop p del =>
    obtain ⟨⟨u,r⟩,done,acted⟩ := bind_eq_ok.mp (step_eq_some.mp next)
    obtain rfl := Except.ok.inj acted
    exact enters (counters_of_sections (TimerService.osTimerStop_sections room done)) id
  | timerTask =>
    obtain ⟨still,leaves⟩ := run_sections room (step_eq_some.mp next)
    exact ⟨fun not => counters_of_sections (still not),fun bad => counters_of_sections (leaves bad)⟩
  | callback again =>
    have acted : s.act (.ret again) = .ok t := step_eq_some.mp next
    unfold act at acted
    cases point : s.point with
    | fires behind p =>
      rw [point] at acted
      obtain ⟨⟨u,q⟩,done,acted⟩ := bind_eq_ok.mp acted
      obtain rfl := Except.ok.inj acted
      exact enters (counters_of_sections (TimerService.dispatch_sections room done)) id
    | _ =>
      rw [point] at acted
      obtain rfl := Except.ok.inj acted
      exact enters rfl id

/-- Between the services nobody is in a section, whatever has been called. -/
theorem level_of_reach (run : Run.Reach around (fun _ _ => True) (initial cfg) s) : s.Level := by
  induction run with
  | refl => exact ⟨rfl,fun _ => rfl⟩
  | @tail s t a run _ next level =>
    cases a with
    | service x =>
      simp only [around] at next
      split_ifs at next with main
      obtain ⟨enters,leaves⟩ := provide_counters level.roomy main next
      by_cases bad : s.Unentered x
      · exact level.osExitCritical.of_counters (leaves bad)
      · exact level.of_counters (enters bad)
    | isrEnter | isrExit =>
      simp only [around] at next
      split_ifs at next with port
      obtain rfl := Option.some.inj next
      exact ⟨level.unowned,fun nests => by simp [port] at nests⟩
    | switch task =>
      obtain rfl := Option.some.inj next
      exact ⟨level.unowned,level.nesting⟩
    | other u =>
      simp only [around] at next
      split_ifs at next with same
      obtain rfl := Option.some.inj next
      exact level.of_counters (counters_of_sections same)

/-- In every run each service is balanced but for the three exits without an entry. -/
theorem balanced_iff (run : Run.Reach around (fun _ _ => True) (initial cfg) s)
    (next : s.around (.service x) = some t) : s.Balanced t.toKernel ↔ ¬ s.Unentered x := by
  have level := level_of_reach run
  simp only [around] at next
  split_ifs at next with main
  obtain ⟨enters,leaves⟩ := provide_counters level.roomy main next
  constructor
  · intro balanced bad
    exact not_balanced (leaves bad) balanced
  · intro entered
    exact level.balanced (enters entered)

/-- A task that asks for a semaphore. -/
theorem balanced_example : ∃ s t : TimerSystem .simulator, s.currentTask = 1 ∧
    s.around (.service (.call (.semPend 0 5))) = some t ∧ s.Balanced t.toKernel := by
  obtain ⟨s,run,task⟩ := Run.exists_reach_of_exec around (fun _ _ => True) (initial .simulator)
    [.service (.call (.install (.user 1) 16 3)),.service (.call (.semCreate 0)),.service .start]
    (fun s => s.currentTask = 1) (by decide +kernel)
  exact ⟨s,_,task,rfl,(balanced_iff (x := .call (.semPend 0 5)) run rfl).mpr id⟩

/-- Main blocks the task with handle zero, before there is one. -/
theorem balanced_fails : ∃ t, (initial .simulator).around (.service (.call (.blockTask 0))) = some t ∧
    (initial .simulator).Executes [.exit] t.toKernel ∧ ¬ (initial .simulator).Balanced t.toKernel :=
  ⟨_,rfl,executes_osExitCritical _,not_balanced rfl⟩

end TimerSystem
end Brtos
