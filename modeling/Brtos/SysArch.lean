import Brtos.Timing

/-! sys_arch.c, the port of lwIP. A thread that waits for a semaphore or a message makes one pend or
several, and reads the tick counter before and after them; the rest of the system goes on between its
statements. -/
namespace Brtos

/-- The bytes of a `void *`. -/
structure Pointer where
  bytes : List ℕ
  size : bytes.length = 4
  deriving DecidableEq

def errOk : ℤ := 0
def errMem : ℤ := -1
def sysArchTimeout : ℕ := 0xffffffff

/-- Where a thread is in sys_arch_sem_wait or sys_arch_mbox_fetch: before or in a pend, or behind the
one that has returned OK. -/
inductive Frame
  | idle
  | pend (o : Obj) (timeout startTime : ℕ)
  | obtained (o : Obj) (startTime : ℕ) (msg : List ℕ)
  deriving DecidableEq

def Frame.startTime : Frame → Option ℕ
  | .idle => none
  | .pend _ _ startTime => some startTime
  | .obtained _ startTime _ => some startTime

/-- A call of the port that has returned. sys_mbox_post drops the code of its OSDQueuePost. A wait has
no message when it timed out; `ticks` are those between its first and its last statement. -/
inductive Done
  | posted (mbox : ℕ) (data : Pointer) (code : ℕ)
  | tried (mbox : ℕ) (data : Pointer) (err : ℤ)
  | waited (o : Obj) (result : ℕ) (msg : Option (List ℕ)) (ticks : ℕ)
  deriving DecidableEq

/-- The system with the threads in the port. The last three fields are bookkeeping. -/
structure Port (cfg : Config) extends System cfg where
  frame : ℕ → Frame
  returns : List Done
  ticks : ℕ
  since : ℕ → ℕ

inductive PortAction
  | kernel (a : Action)
  | mboxPost (mbox : ℕ) (data : Pointer)
  | mboxTrypost (mbox : ℕ) (data : Pointer)
  | mboxFetch (mbox timeout : ℕ)
  | semWait (sem timeout : ℕ)
  | pend
  | resume
  | finish
  deriving DecidableEq

/-- Steps of the task that runs. -/
def Action.byTask : Action → Bool
  | .call _ | .resume => true
  | _ => false

/-- `(void)OSDQueueCreate(size, sizeof(void *), &mbox);` -/
def sysMboxNew (a : Kernel.Alloc) (size : ℤ) : Call := .dqueueCreate a (size%65536).toNat 4

/-- The time of the pends: ten seconds again and again, or the timeout converted to ostick_t. -/
def pendTime (cfg : Config) (timeout : ℕ) : ℕ := if timeout = 0 then 10000 else timeout%(cfg.maxTimer+1)

/-- The formula of all four waits. The times are of type INT16U. -/
def elapsedTime (cfg : Config) (startTime endTime : ℕ) : ℕ :=
  let elapsed := if endTime > startTime then endTime-startTime
    else (((cfg.tickCountOverflow : ℤ)-startTime+endTime)%65536).toNat
  if elapsed = 0 then 1 else elapsed

namespace Port
variable {cfg : Config} (s : Port cfg)

def init (cfg : Config) : Port cfg :=
  { System.init cfg with frame := fun _ => .idle, returns := [], ticks := 0, since := fun _ => 0 }

def time : ℕ := s.osGetTickCount.2%65536

def setFrame (t : ℕ) (f : Frame) : Port cfg := { s with frame := Function.update s.frame t f }

/-- The running thread is at a statement of its own. -/
def Acts : Prop := s.Running ∧ s.point s.currentTask = .run ∧ s.inst s.currentTask ≠ 0

instance : Decidable s.Acts := by unfold Acts; infer_instance

/-- A service that returns at once to the thread. -/
def callNow (c : Call) : Option (System cfg × ℕ) := do
  let t ← s.toSystem.step (.call c)
  match (s.serve c).2 with
  | .ret code _ => some (t,code)
  | .sleep _ => none

/-- `StartTime = OSGetTickCount();` -/
def wait (o : Obj) (timeout : ℕ) : Option (Port cfg) :=
  if s.Acts ∧ s.frame s.currentTask = .idle then
    some { s.setFrame s.currentTask (.pend o timeout s.time) with
      since := Function.update s.since s.currentTask s.ticks }
  else none

/-- A pend has returned to the thread: it leaves the wait, or it pends again. -/
def answered (t : ℕ) (o : Obj) (timeout startTime code : ℕ) (data : List ℕ) : Port cfg :=
  if code = 0 then s.setFrame t (.obtained o startTime data)
  else if timeout = 0 then s
  else { s.setFrame t .idle with
    returns := .waited o sysArchTimeout none (s.ticks-s.since t) :: s.returns }

/-- `EndTime = OSGetTickCount();` up to the return. -/
def leave (t : ℕ) (o : Obj) (startTime : ℕ) (msg : List ℕ) : Port cfg :=
  { s.setFrame t .idle with
    returns := .waited o (elapsedTime cfg startTime s.time) (some msg) (s.ticks-s.since t) :: s.returns }

def step (s : Port cfg) : PortAction → Option (Port cfg)
  | .kernel a =>
    if a.byTask = true → s.frame s.currentTask = .idle then
      (s.toSystem.step a).map fun t =>
        { s with toSystem := t, ticks := if s.Ticks a then s.ticks+1 else s.ticks }
    else none
  | .mboxPost mbox data =>
    if s.frame s.currentTask = .idle then
      (s.callNow (.dqueuePost mbox data.bytes)).map fun r =>
        { s with toSystem := r.1, returns := .posted mbox data r.2 :: s.returns }
    else none
  | .mboxTrypost mbox data =>
    if s.frame s.currentTask = .idle then
      (s.callNow (.dqueuePost mbox data.bytes)).map fun r =>
        { s with toSystem := r.1,
                 returns := .tried mbox data (if r.2 = 0 then errOk else errMem) :: s.returns }
    else none
  | .mboxFetch mbox timeout => s.wait (.dqueue mbox) timeout
  | .semWait sem timeout => s.wait (.sem sem) timeout
  | .pend =>
    match s.frame s.currentTask with
    | .pend o timeout startTime =>
      let c := o.pendCall (pendTime cfg timeout)
      (s.toSystem.step (.call c)).map fun t =>
        match (s.serve c).2 with
        | .ret code data => answered { s with toSystem := t } s.currentTask o timeout startTime code data
        | .sleep _ => { s with toSystem := t }
    | _ => none
  | .resume =>
    match s.frame s.currentTask,s.point s.currentTask with
    | .pend o timeout startTime,.pend q p w =>
      (s.toSystem.step .resume).map fun t =>
        let r := s.resumePend q p w
        answered { s with toSystem := t } s.currentTask o timeout startTime r.2.1 r.2.2
    | _,_ => none
  | .finish =>
    match s.frame s.currentTask with
    | .obtained o startTime msg => if s.Acts then some (s.leave s.currentTask o startTime msg) else none
    | _ => none

end Port

/-! ### The tick counter -/

namespace Kernel
variable {cfg : Config} {k l : Kernel cfg}

theorem tickLoop_counter {fuel : ℕ} {p : Option ℕ} (h : tickLoop fuel p k = some l) :
    l.osTickCounter = k.osTickCounter := by
  induction fuel generalizing p k with
  | zero =>
    cases p with
    | none => exact Option.some.inj h ▸ rfl
    | some task => simp [tickLoop] at h
  | succ fuel ih =>
    cases p with
    | none => exact Option.some.inj h ▸ rfl
    | some task => exact (ih h).trans (k.visit_counter task)

theorem tick_counter {fuel : ℕ} (h : k.tick fuel = some l) :
    l.osTickCounter = k.osIncCounter.osTickCounter := tickLoop_counter h

end Kernel

namespace System
variable {cfg : Config} {s t : System cfg} {a : Action}

theorem enter_counter (who : Option ℕ) (c : Call) : (s.enter who c).osTickCounter = s.osTickCounter := by
  rw [enter_toKernel]
  exact Kernel.osTickCounter_of_vital (s.serve_vital c)

theorem uartState_counter {fuel : ℕ} (begun : s.uartState fuel = some t) : t.osTickCounter =
    if s.pendingInterrupts.getLsbD interruptTick = true then s.osIncCounter.osTickCounter
    else s.osTickCounter := by
  unfold uartState at begun
  dsimp only at begun
  split_ifs at begun ⊢
  · obtain ⟨k,hk,rfl⟩ := Option.map_eq_some_iff.mp begun
    exact (Kernel.tick_counter hk).trans rfl
  · exact Option.some.inj begun ▸ rfl

/-- The counter goes on with the ticks and with nothing else. -/
theorem counter_of_step (next : s.step a = some t) :
    t.osTickCounter = if s.Ticks a then s.osIncCounter.osTickCounter else s.osTickCounter := by
  cases a with
  | main c | call c | isrCall c =>
    simp only [step] at next
    split_ifs at next
    rw [← Option.some.inj next]
    simp only [Ticks]
    exact enter_counter _ c
  | start =>
    simp only [step] at next
    split_ifs at next
    rw [← Option.some.inj next]
    simp only [Ticks]
    exact brtosStart_counter s
  | resume =>
    simp only [step] at next
    split_ifs at next
    simp only [Ticks]
    unfold proceed at next
    cases point : s.point s.currentTask with
    | run => simp [point] at next
    | delay w =>
      simp only [point,Option.some.injEq] at next
      exact next ▸ rfl
    | pend o p w =>
      simp only [point,Option.some.injEq] at next
      rw [← next]
      exact (resumePend_clock (s := s) o p w).2
  | isrTick fuel =>
    simp only [step] at next
    split_ifs at next
    obtain ⟨k,hk,rfl⟩ := Option.map_eq_some_iff.mp next
    simp only [Ticks]
    exact Kernel.tick_counter hk
  | isrEnter | switch | raise =>
    simp only [step] at next
    split_ifs at next
    exact Option.some.inj next ▸ rfl
  | isrExit =>
    simp only [step] at next
    split_ifs at next
    all_goals exact Option.some.inj next ▸ rfl
  | process fuel i b =>
    simp only [step] at next
    split_ifs at next
    rw [process_eq] at next
    obtain ⟨u,begun,rfl⟩ := Option.map_eq_some_iff.mp next
    refine Eq.trans ?_ (uartState_counter begun)
    dsimp only
    split_ifs
    · exact enter_counter none (.queuePost i b)
    · rfl

end System

namespace Port
variable {cfg : Config}

/-- What each step of the port is. -/
inductive Happens (s : Port cfg) : PortAction → Port cfg → Prop
  | kernel {a : Action} {u : System cfg} (own : a.byTask = true → s.frame s.currentTask = .idle)
      (moved : s.toSystem.step a = some u) :
      Happens s (.kernel a) { s with toSystem := u, ticks := if s.Ticks a then s.ticks+1 else s.ticks }
  | post {mbox code : ℕ} {data : Pointer} {out : List ℕ} {u : System cfg}
      (idle : s.frame s.currentTask = .idle)
      (moved : s.toSystem.step (.call (.dqueuePost mbox data.bytes)) = some u)
      (reply : (s.serve (.dqueuePost mbox data.bytes)).2 = .ret code out) :
      Happens s (.mboxPost mbox data) { s with toSystem := u, returns := .posted mbox data code :: s.returns }
  | trypost {mbox code : ℕ} {data : Pointer} {out : List ℕ} {u : System cfg}
      (idle : s.frame s.currentTask = .idle)
      (moved : s.toSystem.step (.call (.dqueuePost mbox data.bytes)) = some u)
      (reply : (s.serve (.dqueuePost mbox data.bytes)).2 = .ret code out) :
      Happens s (.mboxTrypost mbox data)
        { s with toSystem := u,
                 returns := .tried mbox data (if code = 0 then errOk else errMem) :: s.returns }
  | fetch {mbox timeout : ℕ} {t : Port cfg} (waits : s.wait (.dqueue mbox) timeout = some t) :
      Happens s (.mboxFetch mbox timeout) t
  | wait {sem timeout : ℕ} {t : Port cfg} (waits : s.wait (.sem sem) timeout = some t) :
      Happens s (.semWait sem timeout) t
  | returned {o : Obj} {timeout startTime code : ℕ} {data : List ℕ} {u : System cfg}
      (frame : s.frame s.currentTask = .pend o timeout startTime)
      (moved : s.toSystem.step (.call (o.pendCall (pendTime cfg timeout))) = some u)
      (reply : (s.serve (o.pendCall (pendTime cfg timeout))).2 = .ret code data) :
      Happens s .pend (answered { s with toSystem := u } s.currentTask o timeout startTime code data)
  | asleep {o : Obj} {timeout startTime : ℕ} {p : Point} {u : System cfg}
      (frame : s.frame s.currentTask = .pend o timeout startTime)
      (moved : s.toSystem.step (.call (o.pendCall (pendTime cfg timeout))) = some u)
      (reply : (s.serve (o.pendCall (pendTime cfg timeout))).2 = .sleep p) :
      Happens s .pend { s with toSystem := u }
  | resumed {o q : Obj} {timeout startTime p w : ℕ} {u : System cfg}
      (frame : s.frame s.currentTask = .pend o timeout startTime)
      (point : s.point s.currentTask = .pend q p w) (moved : s.toSystem.step .resume = some u) :
      Happens s .resume (answered { s with toSystem := u } s.currentTask o timeout startTime
        (s.resumePend q p w).2.1 (s.resumePend q p w).2.2)
  | finish {o : Obj} {startTime : ℕ} {msg : List ℕ}
      (frame : s.frame s.currentTask = .obtained o startTime msg) (acts : s.Acts) :
      Happens s .finish (s.leave s.currentTask o startTime msg)

variable {s t : Port cfg}

theorem callNow_step {c : Call} {r : System cfg × ℕ} (now : s.callNow c = some r) :
    s.toSystem.step (.call c) = some r.1 ∧ ∃ data, (s.serve c).2 = .ret r.2 data := by
  unfold callNow at now
  obtain ⟨u,next,now⟩ := Option.bind_eq_some_iff.mp now
  cases reply : (s.serve c).2 with
  | ret code data =>
    rw [reply] at now
    obtain rfl := Option.some.inj now
    exact ⟨next,data,rfl⟩
  | sleep p => simp [reply] at now

theorem step_happens {a : PortAction} (next : s.step a = some t) : s.Happens a t := by
  cases a with
  | kernel a =>
    obtain ⟨own,next⟩ := Option.ite_none_right_eq_some.mp next
    obtain ⟨u,moved,rfl⟩ := Option.map_eq_some_iff.mp next
    exact .kernel own moved
  | mboxPost mbox data =>
    obtain ⟨idle,next⟩ := Option.ite_none_right_eq_some.mp next
    obtain ⟨r,now,rfl⟩ := Option.map_eq_some_iff.mp next
    obtain ⟨moved,out,reply⟩ := callNow_step now
    exact .post idle moved reply
  | mboxTrypost mbox data =>
    obtain ⟨idle,next⟩ := Option.ite_none_right_eq_some.mp next
    obtain ⟨r,now,rfl⟩ := Option.map_eq_some_iff.mp next
    obtain ⟨moved,out,reply⟩ := callNow_step now
    exact .trypost idle moved reply
  | mboxFetch mbox timeout => exact .fetch next
  | semWait sem timeout => exact .wait next
  | pend =>
    simp only [step] at next
    cases frame : s.frame s.currentTask with
    | idle | obtained o startTime msg => simp [frame] at next
    | pend o timeout startTime =>
      simp only [frame] at next
      obtain ⟨u,moved,rfl⟩ := Option.map_eq_some_iff.mp next
      cases reply : (s.serve (o.pendCall (pendTime cfg timeout))).2 with
      | ret code data => exact .returned frame moved reply
      | sleep p => exact .asleep frame moved reply
  | resume =>
    simp only [step] at next
    cases frame : s.frame s.currentTask with
    | idle | obtained o startTime msg => simp [frame] at next
    | pend o timeout startTime =>
      cases point : s.point s.currentTask with
      | run | delay w => simp [frame,point] at next
      | pend q p w =>
        simp only [frame,point] at next
        obtain ⟨u,moved,rfl⟩ := Option.map_eq_some_iff.mp next
        exact .resumed frame point moved
  | finish =>
    simp only [step] at next
    cases frame : s.frame s.currentTask with
    | idle | pend o timeout startTime => simp [frame] at next
    | obtained o startTime msg =>
      simp only [frame] at next
      obtain ⟨acts,next⟩ := Option.ite_none_right_eq_some.mp next
      obtain rfl := Option.some.inj next
      exact .finish frame acts

end Port

/-! ### The times of the waits -/

/-- What the formula makes of `d` ticks. When none has passed, both times are the same, and it takes the
branch for an overflow of the counter. -/
theorem elapsedTime_eq {cfg : Config} (word : cfg.maxTimer < 65536) {startTime d : ℕ}
    (start : startTime < cfg.tickCountOverflow) (few : d < cfg.tickCountOverflow) :
    elapsedTime cfg startTime ((startTime+d)%cfg.tickCountOverflow) =
      if d = 0 then cfg.tickCountOverflow else d := by
  have large := cfg.timer_large
  have limit : cfg.tickCountOverflow = cfg.maxTimer-3 := rfl
  unfold elapsedTime
  dsimp only
  rcases Nat.lt_or_ge (startTime+d) cfg.tickCountOverflow with before | after
  · rw [Nat.mod_eq_of_lt before]
    split_ifs <;> omega
  · rw [Nat.mod_eq_sub_mod after,Nat.mod_eq_of_lt (by omega)]
    split_ifs <;> omega

namespace Port
variable {cfg : Config} {s t : Port cfg}

/-- The counter has gone on by the ticks since each wait began, and each wait that has returned gives
its ticks, at least one, exactly if there was one and it has not timed out. -/
structure Measured (s : Port cfg) : Prop where
  counter : s.osTickCounter < cfg.tickCountOverflow
  begun {u startTime : ℕ} : (s.frame u).startTime = some startTime →
    startTime < cfg.tickCountOverflow ∧ s.since u ≤ s.ticks ∧
      s.osTickCounter = (startTime+(s.ticks-s.since u))%cfg.tickCountOverflow
  returned {o : Obj} {result d : ℕ} {msg : Option (List ℕ)} : .waited o result msg d ∈ s.returns →
    d < cfg.tickCountOverflow → (result = max 1 d ↔ msg.isSome ∧ d ≠ 0)

theorem Measured.system (h : Measured s) {a : Action} {u : System cfg} (next : s.toSystem.step a = some u) :
    Measured { s with toSystem := u, ticks := if s.Ticks a then s.ticks+1 else s.ticks } := by
  have counter := System.counter_of_step next
  split_ifs at counter ⊢
  · rw [Kernel.osIncCounter_eq h.counter] at counter
    refine ⟨counter ▸ Nat.mod_lt _ (by have := h.counter; omega),fun {v startTime} began => ?_,h.returned⟩
    obtain ⟨start,le,now⟩ := h.begun began
    refine ⟨start,Nat.le_succ_of_le le,?_⟩
    rw [counter,now,Nat.mod_add_mod,Nat.sub_add_comm le,← Nat.add_assoc]
  · refine ⟨counter ▸ h.counter,fun began => ?_,h.returned⟩
    rw [counter]
    exact h.begun began

theorem Measured.still (h : Measured s) {a : Action} {u : System cfg} (next : s.toSystem.step a = some u)
    (task : a.byTask = true) : Measured { s with toSystem := u } := by
  have plain : ¬ s.Ticks a := by
    cases a <;> simp [Action.byTask,System.Ticks] at task ⊢
  have moved := h.system next
  rwa [if_neg plain] at moved

theorem setFrame_frame (u v : ℕ) (f : Frame) :
    (s.setFrame u f).frame v = if v = u then f else s.frame v := Function.update_apply _ _ _ _

/-- A frame with the start of the one before it, or with none. -/
theorem Measured.setFrame (h : Measured s) {u : ℕ} {f : Frame}
    (same : ∀ startTime, f.startTime = some startTime → (s.frame u).startTime = some startTime) :
    Measured (s.setFrame u f) where
  counter := h.counter
  begun {v startTime} began := by
    rw [setFrame_frame] at began
    split_ifs at began with here
    · subst here
      exact h.begun (same _ began)
    · exact h.begun began
  returned := h.returned

theorem Measured.answered (h : Measured s) (word : cfg.maxTimer < 65536) {u timeout startTime : ℕ} {o : Obj}
    (frame : s.frame u = .pend o timeout startTime) (code : ℕ) (data : List ℕ) :
    Measured (s.answered u o timeout startTime code data) := by
  unfold Port.answered
  split_ifs
  · apply h.setFrame
    rw [frame]
    exact fun _ began => began
  · exact h
  · have idle : Measured (s.setFrame u .idle) := h.setFrame fun _ began => by simp [Frame.startTime] at began
    refine ⟨h.counter,idle.begun,fun {q result d msg} mem few => ?_⟩
    rcases List.mem_cons.mp mem with same | mem
    · obtain ⟨-,rfl,rfl,-⟩ := Done.waited.inj same
      have limit : cfg.tickCountOverflow = cfg.maxTimer-3 := rfl
      simp only [sysArchTimeout,Option.isSome_none,Bool.false_eq_true,false_and,iff_false]
      omega
    · exact h.returned mem few

theorem time_eq (h : Measured s) (word : cfg.maxTimer < 65536) : s.time = s.osTickCounter := by
  have := h.counter
  have limit : cfg.tickCountOverflow = cfg.maxTimer-3 := rfl
  exact Nat.mod_eq_of_lt (show s.osTickCounter < 65536 by omega)

theorem Measured.leave (h : Measured s) (word : cfg.maxTimer < 65536) {u startTime : ℕ} {o : Obj}
    {msg : List ℕ} (frame : s.frame u = .obtained o startTime msg) :
    Measured (s.leave u o startTime msg) := by
  have idle : Measured (s.setFrame u .idle) := h.setFrame fun _ began => by simp [Frame.startTime] at began
  refine ⟨h.counter,idle.begun,fun {q result d msg} mem few => ?_⟩
  rcases List.mem_cons.mp mem with same | mem
  · obtain ⟨-,rfl,rfl,rfl⟩ := Done.waited.inj same
    obtain ⟨start,-,now⟩ := h.begun (show (s.frame u).startTime = some startTime by rw [frame]; rfl)
    have large := cfg.timer_large
    have limit : cfg.tickCountOverflow = cfg.maxTimer-3 := rfl
    rw [time_eq h word,now,elapsedTime_eq word start few]
    split_ifs with none_
    · simp only [none_,ne_eq,not_true_eq_false,and_false,iff_false]
      omega
    · simp only [Option.isSome_some,true_and,ne_eq,none_,not_false_eq_true,iff_true]
      omega
  · exact h.returned mem few

theorem Measured.wait (h : Measured s) (word : cfg.maxTimer < 65536) {o : Obj} {timeout : ℕ}
    (next : s.wait o timeout = some t) : Measured t := by
  unfold Port.wait at next
  split_ifs at next
  obtain rfl := Option.some.inj next
  refine ⟨h.counter,fun {u startTime} began => ?_,h.returned⟩
  change ((s.setFrame _ _).frame u).startTime = _ at began
  rw [setFrame_frame] at began
  change startTime < _ ∧ Function.update s.since s.currentTask s.ticks u ≤ s.ticks ∧
    s.osTickCounter = (startTime+(s.ticks-Function.update s.since s.currentTask s.ticks u))%_
  by_cases here : u = s.currentTask
  · subst here
    rw [if_pos rfl] at began
    obtain rfl := Option.some.inj began
    rw [time_eq h word]
    exact ⟨h.counter,by simp,by simp [Nat.mod_eq_of_lt h.counter]⟩
  · rw [if_neg here] at began
    simpa [Function.update_of_ne here] using h.begun began

theorem Measured.step (h : Measured s) (word : cfg.maxTimer < 65536) {a : PortAction}
    (next : s.step a = some t) : Measured t := by
  cases step_happens next with
  | kernel own moved => exact h.system moved
  | post idle moved reply | trypost idle moved reply =>
    have still := h.still moved rfl
    exact ⟨still.counter,still.begun,fun mem => still.returned (by simpa using mem)⟩
  | fetch waits | wait waits => exact h.wait word waits
  | returned frame moved reply => exact (h.still moved rfl).answered word frame _ _
  | asleep frame moved reply => exact h.still moved rfl
  | resumed frame point moved => exact (h.still moved rfl).answered word frame _ _
  | finish frame acts => exact h.leave word frame

theorem measured_init (cfg : Config) : Measured (init cfg) where
  counter := by
    have large := cfg.timer_large
    have limit : cfg.tickCountOverflow = cfg.maxTimer-3 := rfl
    change 0 < cfg.tickCountOverflow
    omega
  begun := nofun
  returned := nofun

/-- In every run, a wait that has obtained its semaphore or message after `d` ticks returns `max 1 d`
exactly if at least one tick has passed. -/
theorem waits_iff (word : cfg.maxTimer < 65536) (run : Run.Reach step (fun _ _ => True) (init cfg) s)
    {o : Obj} {result d : ℕ} {msg : List ℕ} (obtained : .waited o result (some msg) d ∈ s.returns)
    (few : d < cfg.tickCountOverflow) : result = max 1 d ↔ d ≠ 0 := by
  have measured : Measured s := run.invariant (measured_init cfg) fun _ _ _ h _ next => h.step word next
  simpa using measured.returned obtained few

/-- A thread waits for a semaphore over a tick, until another one signals it. -/
theorem waits_example : ∃ s : Port .port, Run.Reach step (fun _ _ => True) (init .port) s ∧
    .waited (.sem 0) 1 (some []) 1 ∈ s.returns ∧ ((1 : ℕ) = max 1 1 ↔ (1 : ℕ) ≠ 0) := by
  obtain ⟨s,run,back⟩ := Run.exists_reach_of_exec step (fun _ _ => True) (init .port)
    [.kernel (.main (.install (.user 1) 16 3)),.kernel (.main (.install (.user 2) 16 4)),
      .kernel (.main (.semCreate 0)),.kernel .start,.semWait 0 0,.pend,.kernel .switch,.kernel .isrEnter,
      .kernel (.isrTick 2),.kernel .isrExit,.kernel (.call (.semPost 0)),.kernel .switch,.resume,.finish]
    (fun s => .waited (.sem 0) 1 (some []) 1 ∈ s.returns) (by decide +kernel)
  exact ⟨s,run,back,waits_iff (by decide) run back (by decide)⟩

/-- The semaphore is free, so that the thread does not wait: it returns 65532. -/
theorem waits_fails : ∃ s t u v : Port .port, Run.Reach step (fun _ _ => True) (init .port) s ∧
    s.step (.semWait 0 0) = some t ∧ t.step .pend = some u ∧ u.step .finish = some v ∧
      v.returns = [.waited (.sem 0) 65532 (some []) 0] ∧ 0 < Config.tickCountOverflow .port ∧
      65532 ≠ max 1 0 := by
  obtain ⟨s,run,t,waits,u,pends,v,back,returns⟩ := Run.exists_reach_of_exec step (fun _ _ => True)
    (init .port) [.kernel (.main (.install (.user 1) 16 3)),.kernel (.main (.semCreate 1)),.kernel .start]
    (fun s => ∃ t ∈ s.step (.semWait 0 0), ∃ u ∈ t.step .pend, ∃ v ∈ u.step .finish,
      v.returns = [.waited (.sem 0) 65532 (some []) 0])
    (by decide +kernel)
  exact ⟨s,t,u,v,run,waits,pends,back,returns,by decide,by decide⟩

end Port
end Brtos
