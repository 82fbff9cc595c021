import Brtos.System

/-! The simulated interrupts of the Windows port. The threads of the tick, the UART and the tasks
call GeraInterrupcaoSimulada, EnterCritical and ExitCritical; one more thread runs the loop of
ProcessaInterrupcoesSimuladas. They interleave statement by statement. -/
namespace Brtos
open Bitmap

inductive Thread
  | processing
  | other (n : ℕ)
  deriving DecidableEq

/-- The calls of the hardware layer. A handler is only known by being installed or not. -/
inductive HalCall
  | geraInterrupcaoSimulada (interruptNumber : ℕ)
  | configuraInterruptHandler (interruptNumber : ℕ) (handler : Bool)
  | enterCritical
  | exitCritical
  deriving DecidableEq

/-- The next statement of the call that the thread with the mutex is in. The last two end every call
but EnterCritical, and say whether they close a section. -/
inductive HalPoint
  | mark (interruptNumber : ℕ)
  | test
  | install (interruptNumber : ℕ) (handler : Bool)
  | nest
  | check
  | lower
  | verify
  | signal (closing : Bool)
  | release (closing : Bool)
  deriving DecidableEq

/-- How often the call has taken the mutex. -/
def HalPoint.taken : HalPoint → ℕ
  | .mark _ | .test | .install _ _ | .nest => 1
  | .check | .lower | .verify => 0
  | .signal closing | .release closing => if closing then 0 else 1

/-- ExitCritical has lowered iNesting and not yet released the mutex. -/
def HalPoint.lowered : HalPoint → ℕ
  | .mark _ | .test | .install _ _ | .nest | .check | .lower => 0
  | .verify => 1
  | .signal closing | .release closing => if closing then 1 else 0

/-- The next statement of ProcessaInterrupcoesSimuladas. -/
inductive HalLoop
  | wait
  | scan (i : ℕ)
  | run (i : ℕ)
  | clear (i : ℕ)
  | switch
  | release
  deriving DecidableEq

/-- The call is about to set the event, or to see whether it must. -/
def HalPoint.Signals : HalPoint → Prop
  | .test | .verify | .signal _ => True
  | _ => False

/-- The pass over the interrupts has still to come to `n`. -/
def HalLoop.Reaches : HalLoop → ℕ → Prop
  | .scan i,n | .run i,n | .clear i,n => i ≤ n
  | _,_ => False

/-- The mutex is recursive: `count` is how often its owner has it. `nest` counts the sections that the
owner has entered and not left, and `unserved` tells which interrupts were raised and have had no run of
their handler since. -/
structure Hal where
  pendingInterrupts : BitVec 32
  interruptEvent : Bool
  iNesting : BitVec 8
  isrHandler : ℕ → Bool
  owner : Option Thread
  count : ℕ
  point : Option HalPoint
  nest : ℕ
  unserved : ℕ → Bool
  loop : HalLoop
  switchRequired : BitVec 32
  currentTask : ℕ

inductive HalAct
  | call (t : Thread) (c : HalCall)
  | advance
  | process (switch : Bool) (selected : ℕ)
  deriving DecidableEq

namespace Hal

/-- BTOSStartFirstTask has created the mutex and the event, and ProcessaInterrupcoesSimuladas has raised
the first tick. -/
def start (isrHandler : ℕ → Bool) (currentTask : ℕ) : Hal where
  pendingInterrupts := 1#32 <<< interruptTick
  interruptEvent := true
  iNesting := 0
  isrHandler := isrHandler
  owner := none
  count := 0
  point := none
  nest := 0
  unserved n := decide (n = interruptTick)
  loop := .wait
  switchRequired := 0
  currentTask := currentTask

variable (s : Hal)

/-- WaitForSingleObject on the mutex, before the statement `p`. -/
def acquire (t : Thread) (p : HalPoint) : Option Hal :=
  if s.owner = none ∨ s.owner = some t then
    some { s with owner := some t, count := s.count+1, point := some p }
  else none

def releaseMutex : Hal :=
  { s with count := s.count-1, owner := if s.count = 1 then none else s.owner }

/-- The beginning of a call. -/
def enter (t : Thread) : HalCall → Option Hal
  | .geraInterrupcaoSimulada n => if n < maxInterrupts then s.acquire t (.mark n) else some s
  | .configuraInterruptHandler n h =>
    if n < maxInterrupts then s.acquire t (.install n h) else some s
  | .enterCritical => s.acquire t .nest
  | .exitCritical =>
    -- the calls come in pairs
    if s.owner = some t ∧ 0 < s.nest then some { s with point := some .check } else none

/-- One statement of a call. -/
def advance : HalPoint → Hal
  | .mark n =>
    { s with
      pendingInterrupts := s.pendingInterrupts ||| 1#32 <<< n
      unserved := Function.update s.unserved n true
      point := some .test }
  | .test => { s with point := some (if s.iNesting = 0 then .signal false else .release false) }
  | .install n h =>
    { s with isrHandler := Function.update s.isrHandler n h, point := some (.release false) }
  | .nest => { s with iNesting := s.iNesting+1, nest := s.nest+1, point := none }
  | .check => { s with point := some (if s.iNesting > 0 then .lower else .release true) }
  | .lower => { s with iNesting := s.iNesting-1, point := some .verify }
  | .verify =>
    { s with
      point := some (if s.iNesting = 0 ∧ s.pendingInterrupts ≠ 0 then .signal true
        else .release true) }
  | .signal closing => { s with interruptEvent := true, point := some (.release closing) }
  | .release closing =>
    { s.releaseMutex with nest := if closing then s.nest-1 else s.nest, point := none }

/-- One statement of the loop. WaitForMultipleObjects takes the mutex and the event together; `switch`
is what the handler returned and `selected` what OSSchedule did. -/
def process (switch : Bool) (selected : ℕ) : Option Hal :=
  match s.loop with
  | .wait =>
    if s.owner = none ∧ s.interruptEvent = true then
      some { s with
        owner := some .processing
        count := 1
        interruptEvent := false
        switchRequired := 0
        loop := .scan 0 }
    else none
  | .scan i =>
    some { s with
      loop :=
        if i < maxInterrupts then
          if s.pendingInterrupts &&& 1#32 <<< i ≠ 0 then
            if s.isrHandler i = true then .run i else .clear i
          else .scan (i+1)
        else .switch }
  | .run i =>
    -- the handler has left the calls and the sections it entered
    if s.point = none ∧ s.nest = 0 then
      some { s with
        switchRequired := if switch then s.switchRequired ||| 1#32 <<< i else s.switchRequired
        unserved := Function.update s.unserved i false
        loop := .clear i }
    else none
  | .clear i =>
    some { s with pendingInterrupts := s.pendingInterrupts &&& ~~~(1#32 <<< i), loop := .scan (i+1) }
  | .switch =>
    some { s with
      currentTask := if s.switchRequired ≠ 0 then selected else s.currentTask
      loop := .release }
  | .release => some { s.releaseMutex with loop := .wait }

/-- The processing thread makes calls from the handlers only, and a handler does not raise its own
interrupt. -/
def Calls (t : Thread) (c : HalCall) : Prop :=
  match t,s.loop with
  | .other _,_ => True
  | .processing,.run i => c ≠ .geraInterrupcaoSimulada i
  | .processing,_ => False

instance (t : Thread) (c : HalCall) : Decidable (s.Calls t c) := by
  unfold Calls
  split <;> infer_instance

def step : HalAct → Option Hal
  | .call t c => if s.point = none ∧ s.Calls t c then s.enter t c else none
  | .advance => s.point.map s.advance
  | .process switch selected => s.process switch selected

variable {s} {t : Hal} {a : HalAct}

/-! ### The mutex and the nesting counter -/

variable (s) in
def taken : ℕ := (s.point.map HalPoint.taken).getD 0

variable (s) in
def lowered : ℕ := (s.point.map HalPoint.lowered).getD 0

/-- The bookkeeping of the mutex: it is taken once by the loop, once for each open section, and once
by a call that is not an ExitCritical, and iNesting counts the open sections. -/
structure Locked (s : Hal) : Prop where
  free : s.owner = none → s.count = 0
  held : s.owner ≠ none → 0 < s.count
  count : s.count = (if s.loop = .wait then 0 else 1)+s.nest+s.taken
  owned : s.loop ≠ .wait ↔ s.owner = some .processing
  quiet : s.owner = some .processing → (∃ i, s.loop = .run i) ∨ s.point = none ∧ s.nest = 0
  nesting : s.iNesting.toNat+s.lowered = s.nest
  closes : s.point = some .check ∨ s.point = some .lower → 0 < s.nest
  shallow : s.nest ≤ 255

/-- At most 255 sections are open at once. -/
def Shallow (s : Hal) : HalAct → Prop
  | .advance => s.point = some .nest → s.nest < 255
  | _ => True

instance (s : Hal) (a : HalAct) : Decidable (Shallow s a) := by
  unfold Shallow
  split <;> infer_instance

theorem locked_start (isrHandler : ℕ → Bool) (currentTask : ℕ) :
    Locked (start isrHandler currentTask) where
  free _ := rfl
  held h := absurd rfl h
  count := rfl
  owned := by simp [start]
  quiet h := nomatch h
  nesting := rfl
  closes h := by simp [start] at h
  shallow := by simp [start]

theorem Calls.inside {u : Thread} {c : HalCall} (h : s.Calls u c) (hu : u = .processing) :
    ∃ i, s.loop = .run i := by
  subst hu
  unfold Calls at h
  split at h
  · contradiction
  · exact ⟨_,‹_›⟩
  · contradiction

theorem Locked.acquire (h : Locked s) {u : Thread} {p : HalPoint} (idle : s.point = none)
    (takes : p.taken = 1) (inside : u = .processing → ∃ i, s.loop = .run i)
    (next : s.acquire u p = some t) : Locked t := by
  unfold Hal.acquire at next
  split at next
  · rename_i may
    cases next
    have count := h.count
    have nesting := h.nesting
    simp only [taken,lowered,idle,Option.map_none,Option.getD_none] at count nesting
    have unlowered : p.lowered = 0 := by cases p <;> grind [HalPoint.taken,HalPoint.lowered]
    constructor
    case count => simp only [taken,Option.map_some,Option.getD_some]; omega
    case nesting => simp only [lowered,Option.map_some,Option.getD_some]; omega
    case closes => cases p <;> simp_all [HalPoint.taken]
    case shallow => exact h.shallow
    all_goals grind [h.free,h.owned,h.quiet]
  · contradiction

theorem Locked.enter (h : Locked s) {u : Thread} {c : HalCall} (idle : s.point = none)
    (calls : s.Calls u c) (next : s.enter u c = some t) : Locked t := by
  cases c with
  | geraInterrupcaoSimulada n =>
    simp only [Hal.enter] at next
    split at next
    · exact h.acquire idle rfl calls.inside next
    · exact Option.some.inj next ▸ h
  | configuraInterruptHandler n handler =>
    simp only [Hal.enter] at next
    split at next
    · exact h.acquire idle rfl calls.inside next
    · exact Option.some.inj next ▸ h
  | enterCritical => exact h.acquire idle rfl calls.inside next
  | exitCritical =>
    simp only [Hal.enter] at next
    split at next
    · rename_i may
      cases next
      obtain ⟨free,held,count,owned,quiet,nesting,_,shallow⟩ := h
      simp only [taken,lowered,idle,Option.map_none,Option.getD_none] at count nesting
      constructor
      case count => simpa [taken,HalPoint.taken] using count
      case nesting => simpa [lowered,HalPoint.lowered] using nesting
      case closes => exact fun _ => may.2
      all_goals grind
    · contradiction

/-- A statement that neither takes nor releases the mutex and keeps iNesting. -/
theorem Locked.move (h : Locked s) {p : HalPoint} (here : s.point = some p) (q : HalPoint)
    (takes : q.taken = p.taken) (lowers : q.lowered = p.lowered)
    (closes : q = .check ∨ q = .lower → 0 < s.nest) (r : BitVec 32) (e : Bool) (u i : ℕ → Bool) :
    Locked { s with
      pendingInterrupts := r
      interruptEvent := e
      unserved := u
      isrHandler := i
      point := some q } where
  free := h.free
  held := h.held
  count := by simpa [taken,here,takes] using h.count
  owned := h.owned
  quiet own := by simpa [here] using h.quiet own
  nesting := by simpa [lowered,here,lowers] using h.nesting
  closes at_ := closes (by simpa using at_)
  shallow := h.shallow

theorem Locked.advance (h : Locked s) {p : HalPoint} (here : s.point = some p)
    (shallow : p = .nest → s.nest < 255) : Locked (s.advance p) := by
  have nesting := h.nesting
  simp only [lowered,here,Option.map_some,Option.getD_some] at nesting
  cases p with
  | mark n => exact h.move here .test rfl rfl (by simp) _ _ _ _
  | test =>
    simp only [Hal.advance]
    split
    · exact h.move here (.signal false) rfl rfl (by simp) _ _ _ _
    · exact h.move here (.release false) rfl rfl (by simp) _ _ _ _
  | install n handler => exact h.move here (.release false) rfl rfl (by simp) _ _ _ _
  | nest =>
    have up : (s.iNesting+1).toNat = s.iNesting.toNat+1 := by
      have := shallow rfl
      simp only [HalPoint.lowered] at nesting
      bv_omega
    obtain ⟨free,held,count,owned,quiet,_,_,bound⟩ := h
    constructor <;> grind [Hal.advance,HalPoint.taken,HalPoint.lowered,taken,lowered]
  | check =>
    have inside := h.closes (.inl here)
    have positive : s.iNesting > 0 := by
      simp only [HalPoint.lowered] at nesting
      bv_omega
    simp only [Hal.advance,positive,if_true]
    exact h.move here .lower rfl rfl (fun _ => inside) _ _ _ _
  | lower =>
    have down : (s.iNesting-1).toNat+1 = s.iNesting.toNat := by
      have := h.closes (.inr here)
      simp only [HalPoint.lowered] at nesting
      bv_omega
    obtain ⟨free,held,count,owned,quiet,_,_,bound⟩ := h
    constructor <;> grind [Hal.advance,HalPoint.taken,HalPoint.lowered,taken,lowered]
  | verify =>
    simp only [Hal.advance]
    split
    · exact h.move here (.signal true) rfl rfl (by simp) _ _ _ _
    · exact h.move here (.release true) rfl rfl (by simp) _ _ _ _
  | signal closing => exact h.move here (.release closing) rfl rfl (by simp) _ _ _ _
  | release closing =>
    obtain ⟨free,held,count,owned,quiet,_,_,bound⟩ := h
    constructor <;> grind [Hal.advance,releaseMutex,HalPoint.taken,HalPoint.lowered,taken,lowered]

/-- Nobody is in a call or a section while the mutex is free. -/
theorem Locked.idle (h : Locked s) (free : s.owner = none) :
    s.loop = .wait ∧ s.point = none ∧ s.nest = 0 := by
  have waits : s.loop = .wait := by
    by_contra out
    simp [h.owned.mp out] at free
  have none_held := h.count.symm.trans (h.free free)
  have nest : s.nest = 0 := by omega
  have taken : s.taken = 0 := by omega
  have lowered := h.nesting
  refine ⟨waits,?_,nest⟩
  cases point : s.point with
  | none => rfl
  | some p =>
    simp only [Hal.taken,Hal.lowered,point,Option.map_some,Option.getD_some] at taken lowered
    have closes := h.closes
    cases p <;> grind [HalPoint.taken,HalPoint.lowered]

theorem Locked.process (h : Locked s) {switch : Bool} {selected : ℕ}
    (next : s.process switch selected = some t) : Locked t := by
  have idle := h.idle
  obtain ⟨free,held,count,owned,quiet,nesting,closes,bound⟩ := h
  unfold Hal.process at next
  split at next
  case h_6 leaves =>
    have owns : s.owner = some .processing := owned.mp (by simp [leaves])
    have alone : s.point = none ∧ s.nest = 0 := by
      rcases quiet owns with ⟨i,runs⟩ | alone
      · simp [leaves] at runs
      · exact alone
    have once : s.count = 1 := by simp [count,taken,leaves,alone]
    cases next
    constructor <;> grind [releaseMutex,taken,lowered]
  all_goals constructor <;> grind [taken,lowered]

theorem Locked.step (h : Locked s) (ok : Shallow s a) (next : s.step a = some t) : Locked t := by
  cases a with
  | call u c =>
    simp only [Hal.step] at next
    split at next
    · rename_i may
      exact h.enter may.1 may.2 next
    · contradiction
  | advance =>
    obtain ⟨p,at_,rfl⟩ := Option.map_eq_some_iff.mp next
    exact h.advance at_ fun hp => ok (hp ▸ at_)
  | process switch selected => exact h.process next

/-! ### The event -/

/-- Something will process the interrupt `n`: the signalled event, the end of an open section, the rest
of a call, or the pass that is running. -/
def Due (s : Hal) (n : ℕ) : Prop :=
  s.interruptEvent = true ∨ s.iNesting ≠ 0 ∨ (∃ p, s.point = some p ∧ p.Signals) ∨
    s.loop.Reaches n

structure Signalled (s : Hal) : Prop where
  few : ∀ n ∈ bits s.pendingInterrupts, n < maxInterrupts
  marks : ∀ n, s.point = some (.mark n) → n < maxInterrupts
  due : ∀ n ∈ bits s.pendingInterrupts, s.Due n
  served : ∀ n, s.loop = .clear n → s.isrHandler n = true → s.unserved n = false

theorem bits_raised (r : BitVec 32) {n : ℕ} (h : n < maxInterrupts) :
    bits (r ||| 1#32 <<< n) = insert n (bits r) :=
  bits_or_twoPow r (Nat.lt_trans h (by decide))

theorem bits_cleared (r : BitVec 32) (n : ℕ) : bits (r &&& ~~~(1#32 <<< n)) = (bits r).erase n :=
  bits_and_not_twoPow r n

theorem and_bit_ne_zero (r : BitVec 32) {n : ℕ} (h : n < maxInterrupts) :
    r &&& 1#32 <<< n ≠ 0 ↔ n ∈ bits r :=
  and_twoPow_ne_zero r (Nat.lt_trans h (by decide))

theorem signalled_start (isrHandler : ℕ → Bool) (currentTask : ℕ) :
    Signalled (start isrHandler currentTask) where
  few n hn := by
    change n ∈ bits (1#32 <<< interruptTick) at hn
    rw [← BitVec.zero_or (x := 1#32 <<< interruptTick),bits_raised _ (by decide)] at hn
    simp at hn
    exact hn ▸ by decide
  marks n h := nomatch h
  due n _ := .inl rfl
  served n h := nomatch h

/-- The processing thread is in a call only from within a handler. -/
theorem Locked.calling (h : Locked s) {p : HalPoint} (here : s.point = some p) (n : ℕ) :
    s.loop ≠ .clear n := by
  intro clears
  have owns : s.owner = some .processing := h.owned.mp (by simp [clears])
  rcases h.quiet owns with ⟨i,runs⟩ | alone
  · simp [clears] at runs
  · simp [here] at alone

theorem Signalled.enter (h : Signalled s) {u : Thread} {c : HalCall} (idle : s.point = none)
    (next : s.enter u c = some t) : Signalled t := by
  obtain ⟨few,marks,due,served⟩ := h
  cases c with
  | geraInterrupcaoSimulada n => constructor <;> grind [Hal.enter,Hal.acquire,Due]
  | configuraInterruptHandler n handler => constructor <;> grind [Hal.enter,Hal.acquire,Due]
  | enterCritical => constructor <;> grind [Hal.enter,Hal.acquire,Due]
  | exitCritical => constructor <;> grind [Hal.enter,Hal.acquire,Due]

theorem Signalled.advance (h : Signalled s) (locked : Locked s) {p : HalPoint} (here : s.point = some p)
    (shallow : p = .nest → s.nest < 255) : Signalled (s.advance p) := by
  have busy := locked.calling here
  obtain ⟨few,marks,due,served⟩ := h
  cases p
  case mark n =>
    have raised := bits_raised s.pendingInterrupts (marks n here)
    constructor <;> grind [Hal.advance,Due,HalPoint.Signals]
  case nest =>
    have deeper : s.iNesting+1 ≠ 0 := by
      have := shallow rfl
      have := locked.nesting
      bv_omega
    constructor <;> grind [Hal.advance,Due,HalPoint.Signals]
  case verify =>
    have silent : s.pendingInterrupts = 0 ↔ bits s.pendingInterrupts = ∅ := bits_eq_empty.symm
    constructor <;> grind [Hal.advance,Due,HalPoint.Signals]
  all_goals constructor <;> grind [Hal.advance,Due,HalPoint.Signals,releaseMutex]

theorem Signalled.process (h : Signalled s) {switch : Bool} {selected : ℕ}
    (next : s.process switch selected = some t) : Signalled t := by
  obtain ⟨few,marks,due,served⟩ := h
  unfold Hal.process at next
  split at next
  case h_2 i scans =>
    have tested := and_bit_ne_zero s.pendingInterrupts (n := i)
    cases next
    constructor
    case served =>
      intro n clears handled
      dsimp only at clears handled
      split_ifs at clears with inside set installed
      cases clears
      exact absurd handled installed
    all_goals grind [Due,HalLoop.Reaches]
  case h_3 i runs =>
    split at next
    · cases next
      constructor
      case served =>
        intro n clears _
        cases clears
        exact Function.update_self _ _ _
      all_goals grind [Due,HalLoop.Reaches]
    · contradiction
  case h_4 i clears =>
    have cleared := bits_cleared s.pendingInterrupts i
    constructor <;> grind [Due,HalLoop.Reaches]
  all_goals constructor <;> grind [Due,HalLoop.Reaches,releaseMutex]

theorem Signalled.step (h : Signalled s) (locked : Locked s) (ok : Shallow s a)
    (next : s.step a = some t) : Signalled t := by
  cases a with
  | call u c =>
    simp only [Hal.step] at next
    split at next
    · rename_i may
      exact h.enter may.1 next
    · contradiction
  | advance =>
    obtain ⟨p,here,rfl⟩ := Option.map_eq_some_iff.mp next
    exact h.advance locked here fun hp => ok (hp ▸ here)
  | process switch selected => exact h.process next

theorem sound_of_reaches {isrHandler : ℕ → Bool} {currentTask : ℕ}
    (h : Run.Reach step Shallow (start isrHandler currentTask) s) : Locked s ∧ Signalled s := by
  apply h.invariant (P := fun s => Locked s ∧ Signalled s)
  · exact ⟨locked_start _ _,signalled_start _ _⟩
  · intro s a t sound ok next
    exact ⟨sound.1.step ok next,sound.2.step sound.1 ok next⟩

/-- The only statement that clears a bit of PendingInterrupts. -/
theorem clears_of_step {n : ℕ} (next : s.step a = some t) (set : n ∈ bits s.pendingInterrupts)
    (unset : n ∉ bits t.pendingInterrupts) : s.loop = .clear n := by
  cases a with
  | call u c =>
    cases c <;> grind [Hal.step,Hal.enter,acquire]
  | advance =>
    obtain ⟨p,here,rfl⟩ := Option.map_eq_some_iff.mp next
    cases p
    case mark m =>
      simp only [mem_bits,Hal.advance,BitVec.getLsbD_or,Bool.or_eq_true] at set unset
      exact absurd (.inl set) unset
    all_goals exact absurd set unset
  | process switch selected =>
    simp only [Hal.step] at next
    unfold Hal.process at next
    split at next
    case h_4 i clears =>
      cases next
      simp only [bits_cleared,Finset.mem_erase,not_and] at unset
      by_cases same : n = i
      · exact same ▸ clears
      · exact absurd set (unset same)
    all_goals grind [releaseMutex]

/-- While the mutex is free a pending interrupt with a handler has the event signalled, with the loop
waiting for it, and its bit is cleared only when its handler has run since it was raised. -/
theorem signalled_of_reaches {isrHandler : ℕ → Bool} {currentTask : ℕ}
    (h : Run.Reach step Shallow (start isrHandler currentTask) s) {n : ℕ}
    (pending : n ∈ bits s.pendingInterrupts) (installed : s.isrHandler n = true) :
    (s.owner = none → s.iNesting = 0 → s.interruptEvent = true ∧ s.loop = .wait) ∧
      ∀ a t, s.step a = some t → n ∉ bits t.pendingInterrupts → s.unserved n = false := by
  obtain ⟨locked,signalled⟩ := sound_of_reaches h
  constructor
  · intro free outside
    obtain ⟨waits,idle,_⟩ := locked.idle free
    have due := signalled.due n pending
    simp only [Due,outside,idle,waits,HalLoop.Reaches] at due
    simp at due
    exact ⟨due,waits⟩
  · intro a t next unset
    exact signalled.served n (clears_of_step next pending unset) installed

/-- The handlers that BTOSStartFirstTask installs. -/
def boot : Hal := start (fun n => decide (n < 2)) 0

/-- The first pass, which runs the handler of the tick. -/
def firstPass : List HalAct := List.replicate 9 (.process false 0)

/-- A task enters `n` sections, and leaves them taking `k` statements for each. -/
def enters (n : ℕ) : List HalAct :=
  (List.replicate n [.call (.other 0) .enterCritical,.advance]).flatten

/-- The tick is raised inside a section. -/
def raises : List HalAct :=
  [.call (.other 0) (.geraInterrupcaoSimulada interruptTick),.advance,.advance,.advance]

def exits (n k : ℕ) : List HalAct :=
  (List.replicate n (.call (.other 0) .exitCritical :: List.replicate k .advance)).flatten

theorem signalled_example :
    ∃ s, Run.Reach step Shallow boot s ∧
      ((s.owner = none → s.iNesting = 0 → s.interruptEvent = true ∧ s.loop = .wait) ∧
      ∀ a t, s.step a = some t → interruptTick ∉ bits t.pendingInterrupts →
        s.unserved interruptTick = false) := by
  obtain ⟨s,reach,pending,installed⟩ := Run.exists_reach_of_exec step Shallow boot
    (firstPass++enters 1++raises++exits 1 5)
    (fun s => interruptTick ∈ bits s.pendingInterrupts ∧ s.isrHandler interruptTick = true)
    (by decide)
  exact ⟨s,reach,signalled_of_reaches reach pending installed⟩

/-- The 256th section entered inside the others turns iNesting to zero, and no exit signals the
event. -/
theorem signalled_fails :
    ∃ s, Run.Reach step (fun _ _ => True) boot s ∧ s.owner = none ∧ s.iNesting = 0 ∧
      interruptTick ∈ bits s.pendingInterrupts ∧ s.isrHandler interruptTick = true ∧
      s.interruptEvent = false :=
  Run.exists_reach_of_exec step (fun _ _ => True) boot
    (firstPass++enters 1++raises++enters 255++exits 256 2) _ (by decide +kernel)

/-! ### The critical sections of the kernel -/

/-- iNesting and PendingInterrupts are those of the kernel. -/
structure Shows {cfg : Config} (s : Hal) (k : Kernel cfg) : Prop where
  nesting : s.iNesting.toNat = k.iNesting
  pending : s.pendingInterrupts = k.pendingInterrupts

section Shows
variable {cfg : Config} {k : Kernel cfg} {n : ℕ}

theorem shows_of_exec {l : List HalAct} {i : BitVec 8} {r : BitVec 32}
    (h : (Run.exec step (fun _ _ => True) s l).map
      (fun t => (t.point,t.iNesting,t.pendingInterrupts)) = some (none,i,r))
    (nesting : i.toNat = k.iNesting) (pending : r = k.pendingInterrupts) :
    ∃ t, Run.Reach step (fun _ _ => True) s t ∧ t.point = none ∧ t.Shows k := by
  obtain ⟨t,run,ends⟩ := Option.map_eq_some_iff.mp h
  simp only [Prod.mk.injEq] at ends
  obtain ⟨done,rfl,rfl⟩ := ends
  exact ⟨t,Run.exec_reach run,done,nesting,pending⟩

/-- EnterCritical taken as one step is the kernel's. -/
theorem enterCritical_shows (nests : cfg.criticalNests = true) (h : s.Shows k) (idle : s.point = none)
    (may : s.owner = none ∨ s.owner = some (.other n)) :
    ∃ t, Run.Reach step (fun _ _ => True) s t ∧ t.point = none ∧ t.Shows k.osEnterCritical := by
  apply shows_of_exec (l := [.call (.other n) .enterCritical,.advance]) (i := s.iNesting+1)
    (r := s.pendingInterrupts)
  · simp [Run.exec,step,Calls,enter,acquire,advance,idle,may]
  · simp [Kernel.osEnterCritical,nests,← h.nesting,BitVec.toNat_add]
  · exact h.pending

theorem exitCritical_shows (nests : cfg.criticalNests = true) (h : s.Shows k) (idle : s.point = none)
    (own : s.owner = some (.other n)) (inside : 0 < s.nest) :
    ∃ t, Run.Reach step (fun _ _ => True) s t ∧ t.point = none ∧ t.Shows k.osExitCritical := by
  by_cases zero : s.iNesting = 0
  · apply shows_of_exec (l := .call (.other n) .exitCritical :: List.replicate 2 .advance) (i := 0)
      (r := s.pendingInterrupts)
    · simp [Run.exec,step,Calls,enter,advance,releaseMutex,idle,own,inside,zero,List.replicate]
    · simp [Kernel.osExitCritical,nests,← h.nesting,zero]
    · exact h.pending
  · have positive : 0#8 < s.iNesting := by bv_omega
    have lowered : (s.iNesting-1).toNat = k.iNesting-1 := by
      rw [← h.nesting]
      bv_omega
    by_cases signals : s.iNesting-1#8 = 0#8 ∧ ¬ s.pendingInterrupts = 0#32
    · apply shows_of_exec (l := .call (.other n) .exitCritical :: List.replicate 5 .advance)
        (i := s.iNesting-1) (r := s.pendingInterrupts)
      · simp [Run.exec,step,Calls,enter,advance,releaseMutex,idle,own,inside,positive,signals,
          List.replicate]
      · simpa [Kernel.osExitCritical,nests] using lowered
      · exact h.pending
    · apply shows_of_exec (l := .call (.other n) .exitCritical :: List.replicate 4 .advance)
        (i := s.iNesting-1) (r := s.pendingInterrupts)
      · simp [Run.exec,step,Calls,enter,advance,releaseMutex,idle,own,inside,positive,
          eq_false signals,List.replicate]
      · simpa [Kernel.osExitCritical,nests] using lowered
      · exact h.pending

/-- ChangeContext within a critical section. -/
theorem changeContext_shows (h : s.Shows k) (idle : s.point = none) (outside : ¬ s.iNesting = 0#8)
    (may : s.owner = none ∨ s.owner = some (.other n)) :
    ∃ t, Run.Reach step (fun _ _ => True) s t ∧ t.point = none ∧ t.Shows k.changeContext := by
  apply shows_of_exec (i := s.iNesting) (r := s.pendingInterrupts ||| 1#32 <<< Kernel.interruptSwc)
    (l := .call (.other n) (.geraInterrupcaoSimulada Kernel.interruptSwc) :: List.replicate 3 .advance)
  · simp [Run.exec,step,Calls,enter,acquire,advance,releaseMutex,idle,may,outside,Kernel.interruptSwc,
      maxInterrupts,List.replicate]
  · exact h.nesting
  · simp [Kernel.changeContext,← h.pending]

end Shows

end Hal
end Brtos
