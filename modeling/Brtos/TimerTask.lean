import Brtos.Timers
import Brtos.System

/-! BRTOSTimerTask as a machine that stops wherever the others may run: at its unprotected accesses,
while it sleeps, and for the whole of a callback. -/
namespace Brtos

/-- What the timer task does next. The loop that is `behind` is the one for a counter that has
overflowed. -/
inductive TaskPoint
  | start
  | choose (p : Option ℕ)
  | sleep (nextTimeToWake : ℕ)
  | enlist
  | asleep
  | judge (p : Option ℕ)
  | loop (behind : Bool) (p : Option ℕ)
  | fires (behind : Bool) (p : ℕ)
  | settle (p : Option ℕ)
  deriving DecidableEq, Repr

/-- The timer that the timer task has in its variable `p`. -/
def TaskPoint.timer : TaskPoint → Option ℕ
  | .choose p => p
  | .judge p => p
  | .loop _ p => p
  | .fires _ p => some p
  | .settle p => p
  | _ => none

namespace TimerService
variable {cfg : Config} (s : TimerService cfg)

def switchLists : TimerService cfg := { s with current := s.future, future := s.current }

/-- `p=list->timers[1];` -/
def first : Except Fault (Option ℕ) := s.current.read (array cfg) 1

/-- The deadline of a timer whose callback returned a number of ticks, and whether it is one of the
future list. In the first loop the sum is not reduced. -/
def rearmed (behind : Bool) (again : ℕ) : ℕ × Bool :=
  let timeout := s.osTickCounter+again
  if behind then (timeout%(cfg.maxTimer+1),true)
  else if timeout ≥ cfg.tickCountOverflow then
    ((timeout-cfg.tickCountOverflow)%(cfg.maxTimer+1),true)
  else (timeout%(cfg.maxTimer+1),false)

def rearm (behind : Bool) (p again : ℕ) : Except Fault (TimerService cfg) :=
  let d := s.rearmed behind again
  let s := s.setDeadline p d.1
  if d.2 then do
    let future ← s.future.insert (array cfg) s.mem p
    let current ← s.current.removeFirst (array cfg)
    .ok { s with future := future, current := current }
  else .ok s

def retire (p : ℕ) : Except Fault (TimerService cfg) := do
  let s := s.setTimer p fun _ => ⟨none,0,.notAllocated⟩
  let current ← s.current.removeFirst (array cfg)
  .ok { s with current := current }

/-- The end of an iteration, `Descer (list->timers, 1, list->count); p=list->timers[1];` -/
def proceed : Except Fault (TimerService cfg × Option ℕ) := do
  let l ← s.current.reorder (array cfg) s.mem
  let s : TimerService cfg := { s with current := l }
  let p ← s.first
  .ok (s.onKernel Kernel.osExitCritical,p)

/-- An iteration from the end of the callback of `p`, which returned `again`. -/
def dispatch (behind : Bool) (p again : ℕ) : Except Fault (TimerService cfg × Option ℕ) := do
  let s := s.onKernel Kernel.osEnterCritical
  let s ← if again > 0 then s.rearm behind p again else s.retire p
  s.proceed

/-- A timer that OSTimerSet has handed out. -/
def Handed (p : ℕ) : Prop := p < cfg.brtosMaxTimer ∧ (s.mem p).state ≠ .notUsed

end TimerService

/-- The service with the timer task, its program counter and its variable `timeout`, and its handle. -/
structure TimerSystem (cfg : Config) extends TimerService cfg where
  point : TaskPoint
  timeout : ℕ
  self : ℕ

/-- What the tasks, the callbacks and the tick interrupt do. `ret` ends the callback that the timer
task has called, and `switch` gives the processor to another task. -/
inductive TimerAction
  | set (cbp : Bool) (cb : Option ℕ) (timeWait : ℕ)
  | start (p : Option ℕ) (timeWait : ℕ)
  | stop (p : Option ℕ) (del : ℕ)
  | tick (fuel : ℕ)
  | switch (task : ℕ)
  | run
  | ret (again : ℕ)
  deriving DecidableEq, Repr

namespace TimerSystem
variable {cfg : Config} (s : TimerSystem cfg)

/-- Start-up by OSTimerInit. -/
def boot (k : Kernel cfg) (timerTask : Entry) (stacksize prio : ℕ) :
    Except Fault (TimerSystem cfg) := do
  let r ← TimerService.osTimerInit k timerTask stacksize prio
  .ok { toTimerService := r.1, point := .start, timeout := 0, self := r.2 }

def goto (p : TaskPoint) : TimerSystem cfg := { s with point := p }

/-- An iteration without a callback. -/
def skip (behind : Bool) : Except Fault (TimerSystem cfg) := do
  let r ← s.proceed
  .ok { s with toTimerService := r.1, point := .loop behind r.2 }

/-- The timer task up to its next stop. -/
def run : Except Fault (TimerSystem cfg) :=
  match s.point with
  | .start => do
    let p ← s.first
    .ok ({ s with handlingTask := s.currentTask } |>.goto (.choose p))
  | .choose none => .ok (s.goto (.sleep (timerMaxCounter cfg)))
  | .choose (some p) => .ok (s.goto (.sleep (s.mem p).timeout))
  | .sleep next =>
    .ok ({ s with toKernel := s.setTimeToWait s.currentTask next } |>.goto .enlist)
  | .enlist =>
    let k := s.osEnterCritical
    let k := k.includeTaskIntoDelayList s.currentTask
    let k := (k.clearReady k.currentPriority).changeContext.osExitCritical
    .ok ({ s with toKernel := k } |>.goto .asleep)
  | .asleep => do
    let p ← s.first
    .ok (s.goto (.judge p))
  | .judge none => .ok (s.goto (.loop false none))
  | .judge (some p) => .ok (s.goto (.loop (decide ((s.mem p).timeout > s.osTickCounter)) (some p)))
  | .loop true none => do
    let s := { s with toTimerService := s.switchLists }
    let p ← s.first
    .ok (s.goto (.loop false p))
  | .loop true (some p) =>
    if (s.mem p).funcCb ≠ none then .ok (s.goto (.fires true p)) else s.skip true
  | .loop false none => .ok (s.goto (.settle none))
  | .loop false (some p) =>
    if (s.mem p).timeout ≤ s.osTickCounter then
      if (s.mem p).funcCb ≠ none then .ok (s.goto (.fires false p)) else s.skip false
    else .ok (s.goto (.settle (some p)))
  | .settle p =>
    if s.timeout > timerMaxCounter cfg ∧ p = none then do
      let s := { s with toTimerService := s.switchLists }
      let p ← s.first
      .ok (s.goto (.choose p))
    else .ok (s.goto (.choose p))
  | .fires _ _ => .ok s

def act : TimerAction → Except Fault (TimerSystem cfg)
  | .set cbp cb timeWait => do
    let r ← s.osTimerSet cbp cb timeWait
    .ok { s with toTimerService := r.1 }
  | .start p timeWait => do
    let r ← s.osTimerStart p timeWait
    .ok { s with toTimerService := r.1 }
  | .stop p del => do
    let r ← s.osTimerStop p del
    .ok { s with toTimerService := r.1 }
  | .tick fuel =>
    match s.tick fuel with
    | some k => .ok { s with toKernel := k }
    | none => .error .hang
  | .switch task => .ok { s with currentTask := task }
  | .run => s.run
  | .ret again =>
    match s.point with
    | .fires behind p => do
      let r ← s.dispatch behind p again
      .ok { s with
        toTimerService := r.1
        point := .loop behind r.2
        timeout := if again > 0 then s.osTickCounter+again else s.timeout }
    | _ => .ok s

/-- The timer task is in a callback. -/
def inCallback : Bool :=
  match s.point with
  | .fires _ _ => true
  | _ => false

/-- Who may act: a call comes from another task or from the callback, the timer task runs when it has
the processor and is ready, and the arguments are of their types. -/
def Enabled : TimerAction → Prop
  | .set _ _ timeWait => (s.currentTask = s.self → s.inCallback) ∧ timeWait ≤ cfg.maxTimer
  | .start p timeWait =>
    (s.currentTask = s.self → s.inCallback) ∧ timeWait ≤ cfg.maxTimer ∧ ∀ q ∈ p, s.Handed q
  | .stop p del =>
    (s.currentTask = s.self → s.inCallback) ∧ del < 256 ∧ ∀ q ∈ p, s.Handed q
  | .tick _ => True
  | .switch task => task ≠ 0
  | .run => s.currentTask = s.self ∧ ¬ s.inCallback ∧
    (s.point = .asleep → s.osReadyList &&& priorityMask cfg (s.contextTask s.self).priority ≠ 0#_)
  | .ret again => s.currentTask = s.self ∧ s.inCallback ∧ again ≤ cfg.maxTimer

instance (a : TimerAction) : Decidable (s.Enabled a) :=
  match a with
  | .set _ _ _ => inferInstanceAs (Decidable (_ ∧ _))
  | .start _ _ => inferInstanceAs (Decidable (_ ∧ _ ∧ ∀ q ∈ _, _ ∧ _))
  | .stop _ _ => inferInstanceAs (Decidable (_ ∧ _ ∧ ∀ q ∈ _, _ ∧ _))
  | .tick _ => inferInstanceAs (Decidable True)
  | .switch _ => inferInstanceAs (Decidable (_ ≠ _))
  | .run => inferInstanceAs (Decidable (_ ∧ _ ∧ (_ → _)))
  | .ret _ => inferInstanceAs (Decidable (_ ∧ _ ∧ _))

/-- A step that breaks no rule of the language. -/
def step (s : TimerSystem cfg) (a : TimerAction) : Option (TimerSystem cfg) := (s.act a).toOption

theorem step_eq_some {s t : TimerSystem cfg} {a : TimerAction} : s.step a = some t ↔ s.act a = .ok t := by
  unfold step
  cases s.act a <;> simp [Except.toOption]

end TimerSystem
end Brtos
