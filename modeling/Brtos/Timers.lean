import Brtos.Library.Heap
import Brtos.Event
import Brtos.Tasks

/-! stimer.c: the timer lists and the public functions. A pointer to a timer is its index in
BRTOS_TIMER_VECTOR.mem, a callback is known by a number, and the accesses to the lists are checked. -/
namespace Brtos

/-- What no C program may do: leave an array, follow NULL, or loop for good. -/
inductive Fault
  | bounds
  | null
  | hang
  deriving DecidableEq, Repr

inductive TimerState
  | notAllocated
  | notUsed
  | stopped
  | running
  | search
  deriving DecidableEq, Repr

/-- BRTOS_TIMER_T. -/
structure Timer where
  funcCb : Option ℕ
  timeout : ℕ
  state : TimerState
  deriving DecidableEq, Repr

/-- BRTOS_TMR_T, a heap that begins at entry 1. -/
structure TimerList where
  timers : ℕ → Option ℕ
  count : ℤ

def nullEventPointer : ℕ := 8

/-- Conversion to int8_t. -/
def int8 (x : ℤ) : ℤ := (x+128)%256-128

/-- Conversion to uint8_t. -/
def uint8 (x : ℤ) : ℕ := (x%256).toNat

def pai (i : ℕ) : ℕ := i/2
def left (i : ℕ) : ℕ := 2*i%256
def right (i : ℕ) : ℕ := (2*i+1)%256

/-! ### The lists. `inside` says which entries of the array may be accessed. -/

namespace TimerList
variable (inside : ℕ → Bool) (l : TimerList)

def read (i : ℕ) : Except Fault (Option ℕ) := if inside i then .ok (l.timers i) else .error .bounds

def write (i : ℕ) (p : Option ℕ) : Except Fault TimerList :=
  if inside i then .ok { l with timers := Function.update l.timers i p } else .error .bounds

/-- The timer of an entry that the code follows. -/
def get (i : ℕ) : Except Fault ℕ := do
  match ← l.read inside i with
  | some p => .ok p
  | none => .error .null

/-- `count` where it is an index. -/
def last : Except Fault ℕ := if l.count < 0 then .error .bounds else .ok l.count.toNat

/-- The exchange of two entries that have both been read. -/
def swap (i j : ℕ) : TimerList := { l with timers := Heap.swap l.timers i j }

variable (mem : ℕ → Timer)

/-- Subir; eight rounds bring every index of type uint8_t to the root. -/
def subir : ℕ → TimerList → ℕ → Except Fault TimerList
  | 0,_,_ => .error .hang
  | fuel+1,l,i =>
    if i > 1 then do
      let p ← l.get inside (pai i)
      let q ← l.get inside i
      if (mem p).timeout > (mem q).timeout then subir fuel (l.swap (pai i) i) (pai i) else .ok l
    else .ok l

/-- The child that Descer looks at. -/
def son (n i : ℕ) : Except Fault ℕ :=
  if right i ≤ n then do
    let p ← l.get inside (right i)
    let q ← l.get inside (left i)
    .ok (if (mem p).timeout < (mem q).timeout then right i else left i)
  else .ok (left i)

/-- Descer. A path without the wrap of an index has at most eight entries. -/
def descer (n : ℕ) : ℕ → TimerList → ℕ → Except Fault TimerList
  | 0,_,_ => .error .hang
  | fuel+1,l,i => do
    let son ← l.son inside mem n i
    if son ≤ n then do
      let p ← l.get inside son
      let q ← l.get inside i
      if (mem p).timeout < (mem q).timeout then descer n fuel (l.swap son i) son else .ok l
    else .ok l

/-- `list->timers[++list->count] = p; Subir(list->timers, list->count);` -/
def insert (p : ℕ) : Except Fault TimerList := do
  let l : TimerList := { l with count := int8 (l.count+1) }
  let l ← l.write inside (← l.last) (some p)
  subir inside mem 8 l (uint8 l.count)

/-- `list->timers[1] = list->timers[list->count]; list->timers[list->count] = NULL; list->count--;` -/
def removeFirst : Except Fault TimerList := do
  let n ← l.last
  let l ← l.write inside 1 (← l.read inside n)
  let l ← l.write inside n none
  .ok { l with count := int8 (l.count-1) }

/-- `Descer(list->timers, 1, list->count);` -/
def reorder : Except Fault TimerList := descer inside mem (uint8 l.count) 256 l 1

/-- The loop of OSTimerStop; a count has at most 127 entries to look at. -/
def position : ℕ → ℕ → Except Fault ℕ
  | 0,_ => .error .hang
  | fuel+1,pos =>
    if (pos : ℤ) ≤ l.count then do
      let p ← l.get inside pos
      if (mem p).state = .search then .ok pos else position fuel ((pos+1)%256)
    else .ok pos

end TimerList

/-- The kernel with the data of stimer.c. -/
structure TimerService (cfg : Config) extends Kernel cfg where
  mem : ℕ → Timer
  current : TimerList
  future : TimerList
  handlingTask : ℕ

def timerMaxCounter (cfg : Config) : ℕ := cfg.tickCountOverflow-1

namespace TimerService
variable {cfg : Config} (s : TimerService cfg)

/-- The entries of a list's array. -/
def array (cfg : Config) (i : ℕ) : Bool := i < cfg.brtosMaxTimer

def onKernel (f : Kernel cfg → Kernel cfg) : TimerService cfg := { s with toKernel := f s.toKernel }

def setTimer (p : ℕ) (f : Timer → Timer) : TimerService cfg :=
  { s with mem := Function.update s.mem p (f (s.mem p)) }

def setDeadline (p v : ℕ) : TimerService cfg := s.setTimer p fun t => { t with timeout := v }

def setState (p : ℕ) (v : TimerState) : TimerService cfg := s.setTimer p fun t => { t with state := v }

/-! ### Initialisation -/

/-- The loop of BRTOS_TimerTaskInit, whose index is a uint8_t. -/
def clearTimers (cfg : Config) : ℕ → ℕ → (ℕ → Timer) → Except Fault (ℕ → Timer)
  | 0,_,_ => .error .hang
  | fuel+1,i,mem =>
    if i < cfg.brtosMaxTimer then
      clearTimers cfg fuel ((i+1)%256) (Function.update mem i ⟨none,0,.notUsed⟩)
    else .ok mem

/-- The data as the C start-up code leaves it. -/
def zeroed (k : Kernel cfg) : TimerService cfg where
  toKernel := k
  mem _ := ⟨none,0,.notAllocated⟩
  current := ⟨fun _ => none,0⟩
  future := ⟨fun _ => none,0⟩
  handlingTask := 0

def timerTaskInit (k : Kernel cfg) : Except Fault (TimerService cfg) := do
  let s := zeroed k.enterTask
  let mem ← clearTimers cfg 256 0 s.mem
  .ok (({ s with mem := mem } : TimerService cfg).onKernel Kernel.exitTask)

/-- OSTimerInit, before which the lists are as `zeroed` has them; `timerTask` is BRTOSTimerTask. The
second result is the handle of the new task, which OSTimerInit does not store. -/
def osTimerInit (k : Kernel cfg) (timerTask : Entry) (stacksize prio : ℕ) :
    Except Fault (TimerService cfg × ℕ) := do
  let s ← timerTaskInit k
  let r := s.osInstallTask timerTask stacksize prio
  if r.2.1 ≠ ok then .error .hang else .ok ({ s with toKernel := r.1 },r.2.2.getD 0)

/-! ### The public functions -/

/-- The search of OSTimerSet for a control block, or the code that it returns without one. -/
def findTimer : ℕ → ℕ → Except Fault (Except ℕ ℕ)
  | 0,_ => .error .hang
  | fuel+1,i =>
    if i ≥ cfg.brtosMaxTimer then .ok (.error noAvailableEvent)
    else if (s.mem i).state = .notAllocated then .ok (.error errEventNoCreated)
    else if (s.mem i).state = .notUsed then .ok (.ok i)
    else findTimer fuel ((i+1)%256)

/-- The change of the wake time of the timer task by a timer of the current list. -/
def wake (p : ℕ) : Except Fault (TimerService cfg) :=
  if s.currentTask ≠ 0 then do
    let first ← s.current.get (array cfg) 1
    if (s.mem p).timeout = (s.mem first).timeout then
      .ok (s.onKernel fun k => k.setTimeToWait s.handlingTask (s.mem p).timeout)
    else .ok s
  else .ok s

/-- `if (time_wait > 0) {...}`, which OSTimerSet and OSTimerStart have in common. -/
def launch (p timeWait : ℕ) : Except Fault (TimerService cfg) :=
  if timeWait > 0 then
    let timeout := s.osTickCounter+timeWait
    if timeout ≥ cfg.tickCountOverflow then do
      let s := s.setDeadline p ((timeout-cfg.tickCountOverflow)%(cfg.maxTimer+1))
      let list ← s.future.insert (array cfg) s.mem p
      .ok (({ s with future := list } : TimerService cfg).setState p .running)
    else do
      let s := s.setDeadline p (timeout%(cfg.maxTimer+1))
      let list ← s.current.insert (array cfg) s.mem p
      let s ← ({ s with current := list } : TimerService cfg).wake p
      .ok (s.setState p .running)
  else .ok s

/-- OSTimerSet. `cbp` says whether it has a place for the new timer, which is the data of its reply. -/
def osTimerSet (cbp : Bool) (cb : Option ℕ) (timeWait : ℕ) :
    Except Fault (TimerService cfg × Reply) :=
  if cb = none ∨ cbp = false then .ok (s,.ret nullEventPointer [])
  else do
    let s := s.onKernel Kernel.enterTask
    match ← s.findTimer 256 0 with
    | .error code => .ok (s.onKernel Kernel.exitTask,.ret code [])
    | .ok p =>
      let s := s.setTimer p fun t => { t with state := .stopped, funcCb := cb }
      let s ← s.launch p timeWait
      .ok (s.onKernel Kernel.exitTask,.ret ok [p])

/-- The remaining time that OSTimerGet computes, a TIMER_CNT. -/
def remaining (p : ℕ) : ℕ :=
  if (s.mem p).timeout ≥ s.osTickCounter then (s.mem p).timeout-s.osTickCounter
  else (timerMaxCounter cfg+(cfg.maxTimer+1)-s.osTickCounter+(s.mem p).timeout+1)%(cfg.maxTimer+1)

def osTimerGet (p : Option ℕ) : TimerService cfg × ℕ :=
  match p with
  | none => (s,0)
  | some p =>
    if (s.mem p).state = .running then
      let s := s.onKernel Kernel.enterTask
      (s.onKernel Kernel.exitTask,s.remaining p)
    else (s,0)

def osTimerStart (p : Option ℕ) (timeWait : ℕ) : Except Fault (TimerService cfg × Reply) :=
  match p with
  | none => .ok (s,.ret nullEventPointer [])
  | some p =>
    if timeWait = 0 then .ok (s,.ret nullEventPointer [])
    else do
      let timeWait := if timeWait > timerMaxCounter cfg then timerMaxCounter cfg else timeWait
      let s := s.onKernel Kernel.enterTask
      let s ← s.launch p timeWait
      .ok (s.onKernel Kernel.exitTask,.ret ok [])

/-- The list in which OSTimerStop looks for a timer. -/
def guess (p : ℕ) : TimerList := if (s.mem p).timeout ≥ s.osTickCounter then s.current else s.future

def setGuess (p : ℕ) (l : TimerList) : TimerService cfg :=
  if (s.mem p).timeout ≥ s.osTickCounter then { s with current := l } else { s with future := l }

/-- The state in which OSTimerStop leaves a timer. -/
def release (p del : ℕ) : TimerService cfg :=
  if del > 0 then s.setTimer p fun t => { t with state := .notAllocated, funcCb := none }
  else s.setState p .stopped

/-- OSTimerStop with the entries that it may access. -/
def osTimerStopWithin (inside : ℕ → Bool) (p : Option ℕ) (del : ℕ) :
    Except Fault (TimerService cfg × Reply) :=
  match p with
  | none => .ok (s,.ret nullEventPointer [])
  | some p => do
    let s := s.onKernel Kernel.enterTask
    let found := s.setState p .search
    let pos ← (s.guess p).position inside found.mem 129 1
    let idle := found.setDeadline p 0
    let l ← (s.guess p).subir inside idle.mem 8 pos
    let l ← l.removeFirst inside
    let l ← l.reorder inside idle.mem
    let s := { idle with current := (s.setGuess p l).current, future := (s.setGuess p l).future }
    .ok ((s.release p del).onKernel Kernel.exitTask,.ret ok [])

def osTimerStop (p : Option ℕ) (del : ℕ) : Except Fault (TimerService cfg × Reply) :=
  s.osTimerStopWithin (array cfg) p del

end TimerService
end Brtos
