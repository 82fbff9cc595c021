import Brtos.TaskStacks

/-! OSInstallTask and OSUninstallTask together with the heap: the stacks of the tasks and what the other
users of BRTOS_ALLOC hold are apart, and no stack is lost. -/
namespace Brtos

/-! ### The first context of a task, on the Cortex-M4 -/

def initialXpsr : ℕ := 0x01000000

/-- The words that CreateDVirtualStack pushes. -/
def frame (fpuSupport : Bool) (fctPtr parameters : ℕ) : List ℕ :=
  [initialXpsr,fctPtr,0,0x12121212,0x03030303,0x02020202,0x01010101,parameters] ++
    (if fpuSupport then [0xFFFFFFFD] else []) ++
    [0x11111111,0x10101010,0x09090909,0x08080808,0x07070707,0x06060606,0x05050505,0x04040404]

theorem frame_length (fpuSupport : Bool) (fctPtr parameters : ℕ) :
    4*(frame fpuSupport fctPtr parameters).length = if fpuSupport then 68 else 64 := by
  cases fpuSupport <;> rfl

theorem frame_lt {fpuSupport : Bool} {fctPtr parameters : ℕ} (entry : fctPtr < 4294967296)
    (argument : parameters < 4294967296) : ∀ x ∈ frame fpuSupport fctPtr parameters, x < 4294967296 := by
  intro x mem
  cases fpuSupport <;> simp [frame,initialXpsr] at mem <;> omega

namespace World
variable {n : ℕ} {fit : Fit} {w w' : World n} {r : Region} {p : ℕ} {words : List ℕ}

/-- `*--stk_pt = x` for one word after the other. -/
def push (w : World n) (stkPt : ℕ) : List ℕ → World n × ℕ
  | [] => (w,stkPt)
  | x :: words => (w.putPointer (stkPt-4) x).push (stkPt-4) words

def createDVirtualStack (w : World n) (words : List ℕ) (stk stkSize : ℕ) : World n × ℕ :=
  w.push (stk+stkSize) words

@[simp] theorem push_held (w : World n) (p : ℕ) (words : List ℕ) : (w.push p words).1.held = w.held := by
  induction words generalizing w p with
  | nil => rfl
  | cons x words ih => exact ih _ _

theorem push_point (w : World n) (p : ℕ) (words : List ℕ) : (w.push p words).2 = p-4*words.length := by
  induction words generalizing w p with
  | nil => rfl
  | cons x words ih =>
    rw [push,ih,List.length_cons]
    omega

theorem push_wrote (a : ℕ) (below : 4*words.length ≤ p) (outside : ¬ (p-4*words.length ≤ a ∧ a < p)) :
    (w.push p words).1.wrote a = w.wrote a := by
  induction words generalizing w p with
  | nil => rfl
  | cons x words ih =>
    rw [List.length_cons] at below outside
    rw [push,ih (by omega) (by omega),putPointer_wrote,if_neg (by omega)]

theorem push_points (below : 4*words.length ≤ p) {i x : ℕ} (found : words[i]? = some x) :
    (w.push p words).1.Points (p-4*(i+1)) x := by
  induction words generalizing w p i with
  | nil => simp at found
  | cons y words ih =>
    rw [List.length_cons] at below
    cases i with
    | zero =>
      obtain rfl : y = x := by simpa using found
      intro j hj
      rw [push,push_wrote _ (by omega) (by omega)]
      exact putPointer_points j hj
    | succ i =>
      have point : p-4*(i+1+1) = p-4-4*(i+1) := by omega
      rw [push,point]
      exact ih (by omega) (by simpa using found)

theorem Reached.push (h : Reached fit w) (hr : r ∈ w.held) (low : r.ptr+4*words.length ≤ p)
    (high : p ≤ r.ptr+r.size) : Reached fit (w.push p words).1 := by
  induction words generalizing w p with
  | nil => exact h
  | cons x words ih =>
    rw [List.length_cons] at low
    exact ih (h.putPointer hr (by omega) (by omega) x) hr (by omega) (by omega)

end World

/-- How the program has been built: the search of umm_malloc, FPU_SUPPORT, and where the entries of the
tasks are. -/
structure Board where
  fit : Fit
  fpuSupport : Bool
  address : Entry → ℕ
  address_lt : ∀ f, address f < 4294967296

namespace Kernel
variable {cfg : Config} {n : ℕ} (b : Board) (k : Kernel cfg) (w : World n)

/-- OSInstallTask with its calls of BRTOS_ALLOC, BRTOS_DEALLOC and CreateDVirtualStack. -/
def osInstallTaskOnHeap (fctPtr : Entry) (userStackedBytes iPriority parameters : ℕ) :
    Option ((Kernel cfg × ℕ × Option ℕ) × World n) := do
  let k := k.enterTask
  let userStackedBytes := userStackedBytes-userStackedBytes%cfg.sizeofCpuType
  if userStackedBytes < cfg.numberMinOfStackedBytes then
    return ((k.exitTask,stackSizeTooSmall,none),w)
  else if iPriority ≠ 0 ∧ iPriority > cfg.width-1 then
    return ((k.exitTask,endOfAvailablePriorities,none),w)
  else if iPriority ≠ 0 ∧ k.priorityVector iPriority ≠ emptyPrio then
    return ((k.exitTask,busyPriority,none),w)
  else if iPriority = 0 ∧ fctPtr ≠ .idle then
    return ((k.exitTask,cannotAssignIdleTaskPrio,none),w)
  else match ← w.malloc b.fit userStackedBytes with
    | (w,none) => return ((k.exitTask,noMemory,none),w)
    | (w,some stack) => match k.findTcb with
      | none => return ((k.exitTask,endOfAvailableTcb,none),← w.free (some stack))
      | some i =>
        let r := w.createDVirtualStack (frame b.fpuSupport (b.address fctPtr) parameters) stack
          userStackedBytes
        return (((k.installOnHeap (i+1) stack r.2 iPriority).exitTask,ok,some (i+1)),r.1)

/-- `(void*)Task->StackInit`. -/
def stackPointer (taskHandle : ℕ) : Option ℕ :=
  let stackInit := (k.contextTask taskHandle).stackInit
  if stackInit = 0 then none else some stackInit

/-- OSUninstallTask with its BRTOS_DEALLOC. -/
def osUninstallTaskOnHeap (fuel taskHandle safetyOff : ℕ) : Option ((Kernel cfg × ℕ) × World n) := do
  let r ← k.osUninstallTask fuel taskHandle safetyOff
  if r.2 = ok then
    return (r,← w.free (k.stackPointer (k.named taskHandle)))
  else return (r,w)

end Kernel

/-- The kernel with its tasks, the heap, and the regions of those who are no tasks. -/
structure Memory (cfg : Config) (n : ℕ) where
  system : System cfg
  world : World n
  others : List Region

inductive MemoryAction
  | kernel (a : Action)
  | start
  | install (fctPtr : Entry) (userStackedBytes iPriority parameters : ℕ)
  | uninstall (fuel taskHandle safetyOff : ℕ)
  | use (x : Use)
  deriving DecidableEq, Repr

namespace Memory
variable {cfg : Config} {n : ℕ} (b : Board) (m : Memory cfg n)

def init (cfg : Config) (n : ℕ) : Memory cfg n := ⟨System.init cfg,World.start n,[]⟩

def step (m : Memory cfg n) : MemoryAction → Option (Memory cfg n)
  | .kernel a => if a.common then (m.system.step a).map fun s => { m with system := s } else none
  | .start =>
    if m.system.started = false then do
      let r ← m.system.osInstallTaskOnHeap b m.world .idle cfg.idleStackSize 0 0
      if r.1.2.1 ≠ ok then
        return { m with system := { m.system with toKernel := r.1.1, started := false }, world := r.2 }
      else
        let k := { r.1.1 with currentTask := r.1.1.osSchedule, iNesting := 0 }
        return { m with system := { m.system with toKernel := k, started := true }, world := r.2 }
    else none
  | .install fctPtr userStackedBytes iPriority parameters =>
    if m.system.Free then do
      let r ← m.system.osInstallTaskOnHeap b m.world fctPtr userStackedBytes iPriority parameters
      let inst := m.system.nextInst (.install fctPtr userStackedBytes iPriority) r.1.2.1 r.1.2.2.toList
      return { m with system := { m.system with toKernel := r.1.1, inst := inst }, world := r.2 }
    else none
  | .uninstall fuel taskHandle safetyOff =>
    if m.system.Free then do
      let r ← m.system.osUninstallTaskOnHeap m.world fuel taskHandle safetyOff
      let s : System cfg := { m.system with toKernel := r.1.1 }
      let s := if r.1.2 = ok then s.forget (m.system.named taskHandle) else s
      return { m with system := s, world := r.2 }
    else none
  | .use x => (m.world.perform b.fit x).map fun w => { m with
      world := w, others := w.held.filter fun r => r ∈ m.others ∨ r ∉ m.world.held }

/-- Arguments are of their types, tasks are taken out while they are installed, and the others free their
own regions only. A store may be a task's into its stack. -/
def Fair (m : Memory cfg n) : MemoryAction → Prop
  | .kernel _ => True
  | .start => cfg.idleStackSize < 65536
  | .install _ userStackedBytes _ parameters => userStackedBytes < 65536 ∧ parameters < 4294967296
  | .uninstall _ taskHandle _ => m.system.Installed (m.system.named taskHandle)
  | .use x => m.world.Allowed x ∧
    ∀ t ∈ List.range 33, m.system.Installed t → x ≠ .free (some (m.system.contextTask t).stackInit)

instance (x : MemoryAction) : Decidable (m.Fair x) := by
  cases x <;> unfold Fair <;> infer_instance

end Memory

/-! ### The two calls -/

namespace Kernel
variable {cfg : Config} {n : ℕ} {b : Board} {k : Kernel cfg} {w : World n}

/-- What a call of OSInstallTask can come to: nothing but a code, or a task with a new region as its
stack, and the first context in it. -/
inductive Installs (b : Board) (k : Kernel cfg) (w : World n) (f : Entry) (size p parameters : ℕ) :
    (Kernel cfg × ℕ × Option ℕ) × World n → Prop
  | refused {code : ℕ} {w' : World n} (failed : code ≠ ok) (held : w'.held = w.held)
      (wrote : ∀ r ∈ w.held, ∀ a, r.Has a → w'.wrote a = w.wrote a) :
      Installs b k w f size p parameters ((k.enterTask.exitTask,code,none),w')
  | done {i stack : ℕ} {w' : World n} (enough : cfg.numberMinOfStackedBytes ≤ size)
      (found : k.enterTask.findTcb = some i) (held : w'.held = ⟨stack,size⟩ :: w.held)
      (wrote : ∀ r ∈ w.held, ∀ a, r.Has a → w'.wrote a = w.wrote a)
      (points : ∀ j x, (frame b.fpuSupport (b.address f) parameters)[j]? = some x →
        w'.Points (stack+size-4*(j+1)) x) :
      Installs b k w f size p parameters (((k.enterTask.installOnHeap (i+1) stack
        (stack+size-4*(frame b.fpuSupport (b.address f) parameters).length) p).exitTask,ok,some (i+1)),w')

theorem osInstallTaskOnHeap_spec (board : (if b.fpuSupport then 68 else 64) ≤ cfg.numberMinOfStackedBytes)
    (small : n ≤ 32768) (zero : 0 < n) (h : World.Reached b.fit w) (f : Entry) {bytes : ℕ}
    (typed : bytes < 65536) (p parameters : ℕ) :
    ∃ r, k.osInstallTaskOnHeap b w f bytes p parameters = some r ∧ World.Reached b.fit r.2 ∧
      Installs b k w f (bytes-bytes%cfg.sizeofCpuType) p parameters r := by
  generalize hs : bytes-bytes%cfg.sizeofCpuType = size
  have refuse : ∀ code, code ≠ ok → Installs b k w f size p parameters ((k.enterTask.exitTask,code,none),w) :=
    fun code failed => .refused failed rfl fun _ _ _ _ => rfl
  simp only [osInstallTaskOnHeap,hs]
  split_ifs with few high busy idle
  · exact ⟨_,rfl,h,refuse _ (by decide)⟩
  · exact ⟨_,rfl,h,refuse _ (by decide)⟩
  · exact ⟨_,rfl,h,refuse _ (by decide)⟩
  · exact ⟨_,rfl,h,refuse _ (by decide)⟩
  rcases h.malloc small zero (show size < 524277 by omega) with eq | ⟨w₁,stack,eq,h₁,held,wrote⟩
  · exact ⟨_,by simp [eq],h,refuse noMemory (by decide)⟩
  have apart : ∀ r ∈ w.held, ∀ a, r.Has a → w₁.wrote a = w.wrote a := fun r hr a ha =>
    wrote a (h₁.apart small zero held hr ha)
  have new : ⟨stack,size⟩ ∈ w₁.held := by simp [held]
  cases found : k.enterTask.findTcb with
  | none =>
    obtain ⟨w₂,eq₂,h₂,wrote₂,held₂⟩ := h₁.free small zero new
    refine ⟨((k.enterTask.exitTask,endOfAvailableTcb,none),w₂),by simp [eq,eq₂],h₂,
      .refused (by decide) ?_ fun r hr a ha => ?_⟩
    · rw [held₂]
      exact h₁.filter_cons small zero held
    · rw [wrote₂,apart r hr a ha]
  | some i =>
    have length := frame_length b.fpuSupport (b.address f) parameters
    have room : 4*(frame b.fpuSupport (b.address f) parameters).length ≤ size := by omega
    have pushed : World.Reached b.fit
        (w₁.push (stack+size) (frame b.fpuSupport (b.address f) parameters)).1 :=
      h₁.push new (by simp only; omega) (by simp only; omega)
    refine ⟨_,by simp [eq]; rfl,pushed,?_⟩
    simp only [World.createDVirtualStack,World.push_point]
    refine .done (by omega) found (by rw [World.push_held,held]) (fun r hr a ha => ?_) fun j x at_ => ?_
    · have out := h₁.apart small zero held hr ha
      rw [World.push_wrote a (by omega) fun inside => out ⟨by simp only; omega,by simp only; omega⟩,
        apart r hr a ha]
    · exact World.push_points (by omega) at_

/-- To the kernel the call is one of OSInstallTask that BRTOS_ALLOC has answered. -/
theorem osInstallTaskOnHeap_dynamic {f : Entry} {bytes p parameters : ℕ}
    {r : (Kernel cfg × ℕ × Option ℕ) × World n}
    (eq : k.osInstallTaskOnHeap b w f bytes p parameters = some r) :
    ∃ stack, k.osInstallTaskDynamic stack f bytes p = r.1 := by
  simp only [osInstallTaskOnHeap] at eq
  simp only [osInstallTaskDynamic]
  split_ifs at eq with few high busy idle
  · exact ⟨⟨none,0⟩,by rw [if_pos few,← Option.some.inj eq]⟩
  · exact ⟨⟨none,0⟩,by rw [if_neg few,if_pos high,← Option.some.inj eq]⟩
  · exact ⟨⟨none,0⟩,by rw [if_neg few,if_neg high,if_pos busy,← Option.some.inj eq]⟩
  · exact ⟨⟨none,0⟩,by rw [if_neg few,if_neg high,if_neg busy,if_pos idle,← Option.some.inj eq]⟩
  simp only [few,high,busy,idle,if_false]
  obtain ⟨⟨w₁,stack⟩,-,eq⟩ := Option.bind_eq_some_iff.mp eq
  cases stack with
  | none => exact ⟨⟨none,0⟩,by rw [← Option.some.inj eq]⟩
  | some stack =>
    cases found : k.enterTask.findTcb with
    | none =>
      simp only [found] at eq
      obtain ⟨w₂,-,eq⟩ := Option.bind_eq_some_iff.mp eq
      exact ⟨⟨some stack,0⟩,by rw [← Option.some.inj eq]⟩
    | some i =>
      simp only [found] at eq
      exact ⟨⟨some stack,_⟩,by rw [← Option.some.inj eq]⟩

theorem installOnHeap_stackInits (k : Kernel cfg) (t stack point p : ℕ) :
    (k.installOnHeap t stack point p).stackInits = (k.taskAlloc ||| BitVec.twoPow 32 (t-1),
      Function.update (fun u => (k.contextTask u).stackInit) t stack) := by
  refine congrArg₂ Prod.mk rfl (funext fun u => ?_)
  by_cases e : u = t
  · subst e
    simp [installOnHeap,setTask,setPriorityVector,setReady]
  · simp [installOnHeap,setTask,setPriorityVector,setReady,e]

theorem Uninstalls.stackInits {l : Kernel cfg} {off t : ℕ} (way : Uninstalls k off t l) :
    l.stackInits = (k.taskAlloc &&& ~~~ BitVec.twoPow 32 (t-1),
      Function.update (fun u => (k.contextTask u).stackInit) t 0) := by
  have after : ∀ m : Kernel cfg, m.stackInits = k.stackInits → (m.proceedUninstall t).1.stackInits =
      (k.taskAlloc &&& ~~~ BitVec.twoPow 32 (t-1),
        Function.update (fun u => (k.contextTask u).stackInit) t 0) := by
    intro m same
    obtain ⟨alloc,inits⟩ := Prod.mk.inj same
    refine congrArg₂ Prod.mk ?_ (funext fun u => ?_)
    · rw [proceedUninstall_core,alloc]
    · rw [proceedUninstall_core,← inits]
      by_cases e : u = t
      · subst e
        simp
      · simp [e]
  cases way with
  | ready isReady => exact after _ (by rw [clearReady_stackInits,enterTask_stackInits])
  | waiting isNot unsafe_ found =>
    refine after _ ?_
    split_ifs
    · rw [removeFromDelayList_stackInits,enterTask_stackInits]
    · exact k.enterTask_stackInits

end Kernel

/-! ### Steps -/

namespace Memory
variable {cfg : Config} {n : ℕ} {b : Board} {m m' : Memory cfg n} {x : MemoryAction}

/-- The kernel's part of a step is a step of the kernel, or nothing. -/
theorem step_system (next : m.step b x = some m') :
    m'.system = m.system ∨ ∃ a, m.system.stepDynamic a = some m'.system := by
  cases x with
  | kernel a =>
    simp only [step] at next
    split_ifs at next with common
    obtain ⟨s,eq,rfl⟩ := Option.map_eq_some_iff.mp next
    exact Or.inr ⟨.base a,by rw [System.stepDynamic,if_pos common,eq]⟩
  | start =>
    simp only [step] at next
    split_ifs at next with stopped
    obtain ⟨r,eq,next⟩ := Option.bind_eq_some_iff.mp next
    obtain ⟨stack,same⟩ := Kernel.osInstallTaskOnHeap_dynamic eq
    refine Or.inr ⟨.start stack,?_⟩
    simp only [System.stepDynamic,if_pos stopped,Kernel.brtosStartDynamic,same]
    split_ifs at next ⊢ with failed <;> obtain rfl := Option.some.inj next <;> rfl
  | install f bytes p parameters =>
    simp only [step] at next
    split_ifs at next with free
    obtain ⟨r,eq,next⟩ := Option.bind_eq_some_iff.mp next
    obtain ⟨stack,same⟩ := Kernel.osInstallTaskOnHeap_dynamic eq
    refine Or.inr ⟨.install stack f bytes p,?_⟩
    obtain rfl := Option.some.inj next
    simp only [System.stepDynamic,if_pos free,same]
  | uninstall fuel h off =>
    simp only [step] at next
    split_ifs at next with free
    obtain ⟨r,eq,next⟩ := Option.bind_eq_some_iff.mp next
    obtain rfl := Option.some.inj next
    obtain ⟨r',answer,eq⟩ := Option.bind_eq_some_iff.mp eq
    have same : r' = r.1 := by
      split_ifs at eq
      · obtain ⟨w,-,eq⟩ := Option.bind_eq_some_iff.mp eq
        rw [← Option.some.inj eq]
      · rw [← Option.some.inj eq]
    exact Or.inr ⟨.uninstall fuel h off,by rw [System.stepDynamic,if_pos free,answer,same]; rfl⟩
  | use x =>
    obtain ⟨w,-,rfl⟩ := Option.map_eq_some_iff.mp next
    exact Or.inl rfl

/-- What a step does to the stacks and to the regions in use. -/
inductive Move (b : Board) (m : Memory cfg n) : MemoryAction → Memory cfg n → Prop
  | still {x : MemoryAction} {m' : Memory cfg n} (inits : m'.system.stackInits = m.system.stackInits)
      (held : m'.world.held = m.world.held)
      (wrote : ∀ r ∈ m.world.held, ∀ a, r.Has a → m'.world.wrote a = m.world.wrote a)
      (others : m'.others = m.others) : Move b m x m'
  | taken {x : MemoryAction} {m' : Memory cfg n} {t stack size : ℕ} (free : ¬ m.system.Installed t)
      (inside : 1 ≤ t ∧ t ≤ 32) (enough : cfg.numberMinOfStackedBytes ≤ size)
      (inits : m'.system.stackInits = (m.system.taskAlloc ||| BitVec.twoPow 32 (t-1),
        Function.update (fun u => (m.system.contextTask u).stackInit) t stack))
      (held : m'.world.held = ⟨stack,size⟩ :: m.world.held)
      (wrote : ∀ r ∈ m.world.held, ∀ a, r.Has a → m'.world.wrote a = m.world.wrote a)
      (others : m'.others = m.others) : Move b m x m'
  | given {fuel h off : ℕ} {m' : Memory cfg n}
      (inits : m'.system.stackInits = (m.system.taskAlloc &&& ~~~ BitVec.twoPow 32 (m.system.named h-1),
        Function.update (fun u => (m.system.contextTask u).stackInit) (m.system.named h) 0))
      (held : m'.world.held = m.world.held.filter fun r =>
        some r.ptr ≠ some (m.system.contextTask (m.system.named h)).stackInit)
      (wrote : m'.world.wrote = m.world.wrote) (others : m'.others = m.others) :
      Move b m (.uninstall fuel h off) m'
  | used {x : Use} {m' : Memory cfg n} (inits : m'.system.stackInits = m.system.stackInits)
      (performed : m.world.perform b.fit x = some m'.world)
      (others : m'.others = m'.world.held.filter fun r => r ∈ m.others ∨ r ∉ m.world.held) :
      Move b m (.use x) m'

/-- Each installed task has a region of its own, which is nobody else's, and every region in use is a
task's or one of the others. -/
structure Owned (b : Board) (m : Memory cfg n) : Prop where
  reached : World.Reached b.fit m.world
  stack {t : ℕ} : m.system.Installed t → ∃ r ∈ m.world.held,
    r.ptr = (m.system.contextTask t).stackInit ∧ cfg.numberMinOfStackedBytes ≤ r.size ∧ r ∉ m.others
  apart {t u : ℕ} : m.system.Installed t → m.system.Installed u →
    (m.system.contextTask t).stackInit = (m.system.contextTask u).stackInit → t = u
  others : ∀ r ∈ m.others, r ∈ m.world.held
  all : ∀ r ∈ m.world.held,
    r ∈ m.others ∨ ∃ t, m.system.Installed t ∧ r.ptr = (m.system.contextTask t).stackInit

theorem init_installed (t : ℕ) : ¬ (init cfg n).system.Installed t := by
  rintro ⟨-,-,bit⟩
  change (0#32).getLsbD (t-1) = true at bit
  simp at bit

theorem init_owned : Owned b (init cfg n) where
  reached := .refl
  stack installed := absurd installed (init_installed _)
  apart installed := absurd installed (init_installed _)
  others r mem := by simp [init] at mem
  all r mem := by simp [init,World.start] at mem

theorem Move.of_installs {f : Entry} {size p parameters : ℕ}
    {r : (Kernel cfg × ℕ × Option ℕ) × World n}
    (h : Kernel.Installs b m.system.toKernel m.world f size p parameters r)
    (inits : m'.system.stackInits = r.1.1.stackInits) (world : m'.world = r.2)
    (others : m'.others = m.others) : Move b m x m' := by
  cases h with
  | refused failed held wrote =>
    refine .still ?_ (by rw [world,held]) (by rw [world]; exact wrote) others
    rw [inits,Kernel.exitTask_stackInits,Kernel.enterTask_stackInits]
  | @done i stack w' enough found held wrote points =>
    have entered : m.system.enterTask.toCore = m.system.toCore := m.system.enterTask_toCore
    obtain ⟨low,free⟩ := System.findTcb_free found
    have tasks := cfg.tasks_le
    rw [entered] at free
    refine .taken free ⟨by omega,by omega⟩ enough ?_ (by rw [world,held]) (by rw [world]; exact wrote) others
    rw [inits,Kernel.exitTask_stackInits,Kernel.installOnHeap_stackInits,entered]

/-- A step meets one of the descriptions, and leaves the heap in order. -/
theorem Owned.move (h : Owned b m) (board : (if b.fpuSupport then 68 else 64) ≤ cfg.numberMinOfStackedBytes)
    (small : n ≤ 32768) (zero : 0 < n) (fair : m.Fair x) (next : m.step b x = some m') :
    World.Reached b.fit m'.world ∧ Move b m x m' := by
  cases x with
  | kernel a =>
    simp only [step] at next
    split_ifs at next with common
    obtain ⟨s,eq,rfl⟩ := Option.map_eq_some_iff.mp next
    exact ⟨h.reached,.still (System.step_stackInits common eq) rfl (fun _ _ _ _ => rfl) rfl⟩
  | start =>
    simp only [step] at next
    split_ifs at next with stopped
    obtain ⟨r,eq,next⟩ := Option.bind_eq_some_iff.mp next
    obtain ⟨r',eq',reached,installs⟩ := Kernel.osInstallTaskOnHeap_spec (k := m.system.toKernel) board small zero
      h.reached .idle fair 0 0
    obtain rfl := Option.some.inj (eq'.symm.trans eq)
    split_ifs at next with failed <;> obtain rfl := Option.some.inj next
    · exact ⟨reached,.of_installs installs rfl rfl rfl⟩
    · exact ⟨reached,.of_installs installs rfl rfl rfl⟩
  | install f bytes p parameters =>
    simp only [step] at next
    split_ifs at next with free
    obtain ⟨r,eq,next⟩ := Option.bind_eq_some_iff.mp next
    obtain ⟨r',eq',reached,installs⟩ := Kernel.osInstallTaskOnHeap_spec (k := m.system.toKernel) board small zero
      h.reached f fair.1 p parameters
    obtain rfl := Option.some.inj (eq'.symm.trans eq)
    obtain rfl := Option.some.inj next
    exact ⟨reached,.of_installs installs rfl rfl rfl⟩
  | uninstall fuel handle off =>
    simp only [step] at next
    split_ifs at next with free
    obtain ⟨r,eq,next⟩ := Option.bind_eq_some_iff.mp next
    obtain rfl := Option.some.inj next
    obtain ⟨⟨l,code⟩,answer,eq⟩ := Option.bind_eq_some_iff.mp eq
    by_cases done : code = ok
    · subst done
      obtain ⟨-,-,-,way⟩ := Kernel.named_inside answer
      obtain ⟨r',mem,ptr,-,-⟩ := h.stack fair
      have first := (World.reached_regions small zero h.reached).1 r' mem
      have pointer : m.system.stackPointer (m.system.toKernel.named handle) = some r'.ptr := by
        have some_ : r'.ptr ≠ 0 := by omega
        rw [ptr] at some_ ⊢
        exact if_neg some_
      obtain ⟨w',freed,reached,wrote,held⟩ := h.reached.free small zero mem
      simp only [if_true,pointer,freed] at eq
      obtain rfl := Option.some.inj eq
      exact ⟨reached,.given way.stackInits (by rw [ptr] at held; exact held) wrote rfl⟩
    · simp only [if_neg done] at eq
      obtain rfl := Option.some.inj eq
      have same := Kernel.stackInits_congr (Kernel.osUninstallTask_refused answer done).2
      refine ⟨h.reached,.still ?_ rfl (fun _ _ _ _ => rfl) rfl⟩
      simp only [if_neg done]
      exact same
  | use x =>
    obtain ⟨w,eq,rfl⟩ := Option.map_eq_some_iff.mp next
    exact ⟨h.reached.tail fair.1 eq,.used rfl eq rfl⟩

theorem installed_same {t : ℕ} (inits : m'.system.stackInits = m.system.stackInits) :
    m'.system.Installed t ↔ m.system.Installed t := by
  have alloc : m'.system.taskAlloc = m.system.taskAlloc := (Prod.mk.inj inits).1
  simp only [Core.Installed,alloc]

theorem stackInit_same (inits : m'.system.stackInits = m.system.stackInits) (t : ℕ) :
    (m'.system.contextTask t).stackInit = (m.system.contextTask t).stackInit :=
  congrFun (Prod.mk.inj inits).2 t

theorem installed_taken {t u stack : ℕ} (inside : 1 ≤ t ∧ t ≤ 32)
    (inits : m'.system.stackInits = (m.system.taskAlloc ||| BitVec.twoPow 32 (t-1),
      Function.update (fun u => (m.system.contextTask u).stackInit) t stack)) :
    m'.system.Installed u ↔ m.system.Installed u ∨ u = t := by
  have alloc : m'.system.taskAlloc = _ := (Prod.mk.inj inits).1
  rw [← congrFun (m.system.toKernel.installed_or t inside) u]
  simp only [Core.Installed,alloc]

theorem installed_given {t u : ℕ} (installed : m.system.Installed t)
    (inits : m'.system.stackInits = (m.system.taskAlloc &&& ~~~ BitVec.twoPow 32 (t-1),
      Function.update (fun u => (m.system.contextTask u).stackInit) t 0)) :
    m'.system.Installed u ↔ u ≠ t ∧ m.system.Installed u := by
  have alloc : m'.system.taskAlloc = _ := (Prod.mk.inj inits).1
  obtain ⟨low,high,-⟩ := installed
  simp only [Core.Installed,alloc,BitVec.getLsbD_and,BitVec.getLsbD_not,BitVec.getLsbD_twoPow,
    Bool.and_eq_true,Bool.not_eq_true',Bool.and_eq_false_imp,decide_eq_true_eq,decide_eq_false_iff_not]
  constructor
  · rintro ⟨low',high',bit,-,other⟩
    exact ⟨fun e => other (by omega) (by omega),low',high',bit⟩
  · rintro ⟨other,low',high',bit⟩
    exact ⟨low',high',bit,by omega,fun _ => by omega⟩

theorem stackInit_moved {alloc : BitVec 32} {t u stack : ℕ} (inits : m'.system.stackInits = (alloc,
      Function.update (fun u => (m.system.contextTask u).stackInit) t stack)) :
    (m'.system.contextTask u).stackInit = if u = t then stack else (m.system.contextTask u).stackInit := by
  have moved := congrFun (Prod.mk.inj inits).2 u
  rw [Function.update_apply] at moved
  exact moved

/-- A region is known by where it begins. -/
theorem Owned.region_eq (h : Owned b m) (small : n ≤ 32768) (zero : 0 < n) {r s : Region}
    (hr : r ∈ m.world.held) (hs : s ∈ m.world.held) (ptr : r.ptr = s.ptr) : r = s := by
  by_contra ne
  have : Std.Symm fun r s : Region => r.ptr ≠ s.ptr := ⟨fun _ _ ne => ne.symm⟩
  exact (h.reached.distinct small zero).forall hr hs ne ptr

theorem Owned.still (h : Owned b m) (reached : World.Reached b.fit m'.world)
    (inits : m'.system.stackInits = m.system.stackInits) (held : m'.world.held = m.world.held)
    (others : m'.others = m.others) : Owned b m' := by
  refine ⟨reached,fun {t} installed => ?_,fun {t u} ht hu same => ?_,fun r hr => ?_,fun r hr => ?_⟩
  · rw [held,others,stackInit_same inits]
    exact h.stack ((installed_same inits).mp installed)
  · rw [stackInit_same inits,stackInit_same inits] at same
    exact h.apart ((installed_same inits).mp ht) ((installed_same inits).mp hu) same
  · rw [held]
    exact h.others r (others ▸ hr)
  · rw [others]
    refine (h.all r (held ▸ hr)).imp_right fun ⟨t,ht,ptr⟩ => ⟨t,(installed_same inits).mpr ht,?_⟩
    rw [ptr,stackInit_same inits]

/-- A new region is the stack of the task that has been installed. -/
theorem Owned.taken (h : Owned b m) (small : n ≤ 32768) (zero : 0 < n)
    (reached : World.Reached b.fit m'.world) {t stack size : ℕ} (free : ¬ m.system.Installed t)
    (inside : 1 ≤ t ∧ t ≤ 32) (enough : cfg.numberMinOfStackedBytes ≤ size)
    (inits : m'.system.stackInits = (m.system.taskAlloc ||| BitVec.twoPow 32 (t-1),
      Function.update (fun u => (m.system.contextTask u).stackInit) t stack))
    (held : m'.world.held = ⟨stack,size⟩ :: m.world.held) (others : m'.others = m.others) : Owned b m' := by
  have distinct := reached.distinct small zero
  rw [held] at distinct
  have new : ∀ r ∈ m.world.held, stack ≠ r.ptr := (List.pairwise_cons.mp distinct).1
  have away : ∀ {u}, m.system.Installed u → stack ≠ (m.system.contextTask u).stackInit := by
    intro u hu
    obtain ⟨r,hr,ptr,-⟩ := h.stack hu
    exact ptr ▸ new r hr
  have other : ∀ {u}, m.system.Installed u → u ≠ t := fun hu e => free (e ▸ hu)
  refine ⟨reached,fun {u} installed => ?_,fun {u v} hu hv same => ?_,fun r hr => ?_,fun r hr => ?_⟩
  · rw [held,others,stackInit_moved inits]
    rcases (installed_taken inside inits).mp installed with hu | rfl
    · rw [if_neg (other hu)]
      obtain ⟨r,hr,rest⟩ := h.stack hu
      exact ⟨r,List.mem_cons_of_mem _ hr,rest⟩
    · rw [if_pos rfl]
      exact ⟨_,List.mem_cons_self,rfl,enough,fun mem => new _ (h.others _ mem) rfl⟩
  · rw [stackInit_moved inits,stackInit_moved inits] at same
    rcases (installed_taken inside inits).mp hu with hu | rfl <;>
      rcases (installed_taken inside inits).mp hv with hv | rfl
    · rw [if_neg (other hu),if_neg (other hv)] at same
      exact h.apart hu hv same
    · rw [if_neg (other hu),if_pos rfl] at same
      exact absurd same.symm (away hu)
    · rw [if_pos rfl,if_neg (other hv)] at same
      exact absurd same (away hv)
    · rfl
  · rw [held]
    exact List.mem_cons_of_mem _ (h.others r (others ▸ hr))
  · rw [others]
    rw [held] at hr
    rcases List.mem_cons.mp hr with rfl | hr
    · exact Or.inr ⟨t,(installed_taken inside inits).mpr (Or.inr rfl),by rw [stackInit_moved inits,if_pos rfl]⟩
    · refine (h.all r hr).imp_right fun ⟨u,hu,ptr⟩ => ⟨u,(installed_taken inside inits).mpr (Or.inl hu),?_⟩
      rw [stackInit_moved inits,if_neg (other hu),ptr]

/-- A task that is taken out gives its own region back. -/
theorem Owned.given (h : Owned b m) (small : n ≤ 32768) (zero : 0 < n)
    (reached : World.Reached b.fit m'.world) {t : ℕ} (installed : m.system.Installed t)
    (inits : m'.system.stackInits = (m.system.taskAlloc &&& ~~~ BitVec.twoPow 32 (t-1),
      Function.update (fun u => (m.system.contextTask u).stackInit) t 0))
    (held : m'.world.held = m.world.held.filter fun r => some r.ptr ≠ some (m.system.contextTask t).stackInit)
    (others : m'.others = m.others) : Owned b m' := by
  have stays : ∀ {r}, r ∈ m'.world.held ↔
      r ∈ m.world.held ∧ r.ptr ≠ (m.system.contextTask t).stackInit := by
    intro r
    rw [held,List.mem_filter]
    simp
  refine ⟨reached,fun {u} hu => ?_,fun {u v} hu hv same => ?_,fun r hr => ?_,fun r hr => ?_⟩
  · obtain ⟨ne,hu⟩ := (installed_given installed inits).mp hu
    obtain ⟨r,hr,ptr,rest⟩ := h.stack hu
    rw [others,stackInit_moved inits,if_neg ne]
    exact ⟨r,stays.mpr ⟨hr,fun same => ne (h.apart hu installed (ptr.symm.trans same))⟩,ptr,rest⟩
  · obtain ⟨ne,hu⟩ := (installed_given installed inits).mp hu
    obtain ⟨ne',hv⟩ := (installed_given installed inits).mp hv
    rw [stackInit_moved inits,stackInit_moved inits,if_neg ne,if_neg ne'] at same
    exact h.apart hu hv same
  · rw [others] at hr
    obtain ⟨s,hs,ptr,-,no⟩ := h.stack installed
    refine stays.mpr ⟨h.others r hr,fun same => no ?_⟩
    exact h.region_eq small zero (h.others r hr) hs (same.trans ptr.symm) ▸ hr
  · obtain ⟨hr,ne⟩ := stays.mp hr
    rw [others]
    refine (h.all r hr).imp_right fun ⟨u,hu,ptr⟩ => ?_
    have other : u ≠ t := fun e => ne (e ▸ ptr)
    exact ⟨u,(installed_given installed inits).mpr ⟨other,hu⟩,by rw [stackInit_moved inits,if_neg other,ptr]⟩

/-- The others free none of the stacks. -/
theorem Owned.used (h : Owned b m) (small : n ≤ 32768) (zero : 0 < n)
    (reached : World.Reached b.fit m'.world) {x : Use} (fair : m.Fair (.use x))
    (inits : m'.system.stackInits = m.system.stackInits)
    (performed : m.world.perform b.fit x = some m'.world)
    (others : m'.others = m'.world.held.filter fun r => r ∈ m.others ∨ r ∉ m.world.held) : Owned b m' := by
  have mine : ∀ {r}, r ∈ m'.others ↔ r ∈ m'.world.held ∧ (r ∈ m.others ∨ r ∉ m.world.held) := by
    intro r
    rw [others,List.mem_filter]
    simp
  refine ⟨reached,fun {t} installed => ?_,fun {t u} ht hu same => ?_,fun r hr => (mine.mp hr).1,fun r hr => ?_⟩
  · have ht := (installed_same inits).mp installed
    obtain ⟨r,hr,ptr,enough,no⟩ := h.stack ht
    rw [stackInit_same inits]
    have kept := fair.2 t (List.mem_range.mpr (Nat.lt_succ_of_le ht.2.1)) ht
    rw [← ptr] at kept
    refine ⟨r,(h.reached.keeps small zero fair.1 performed hr kept).1,ptr,enough,fun mem => ?_⟩
    exact (mine.mp mem).2.elim no fun out => out hr
  · rw [stackInit_same inits,stackInit_same inits] at same
    exact h.apart ((installed_same inits).mp ht) ((installed_same inits).mp hu) same
  · by_cases old : r ∈ m.world.held
    · refine (h.all r old).imp (fun mem => mine.mpr ⟨hr,Or.inl mem⟩) fun ⟨t,ht,ptr⟩ => ?_
      exact ⟨t,(installed_same inits).mpr ht,by rw [ptr,stackInit_same inits]⟩
    · exact Or.inl (mine.mpr ⟨hr,Or.inr old⟩)

/-- The stacks stay apart whatever the step is. -/
theorem Move.owned (move : Move b m x m') (h : Owned b m) (reached : World.Reached b.fit m'.world)
    (small : n ≤ 32768) (zero : 0 < n) (fair : m.Fair x) : Owned b m' := by
  cases move with
  | still inits held _ others => exact h.still reached inits held others
  | taken free inside enough inits held _ others =>
    exact h.taken small zero reached free inside enough inits held others
  | given inits held _ others => exact h.given small zero reached fair inits held others
  | used inits performed others => exact h.used small zero reached fair inits performed others

/-! ### Runs -/

theorem owned_of_reaches (board : (if b.fpuSupport then 68 else 64) ≤ cfg.numberMinOfStackedBytes)
    (small : n ≤ 32768) (zero : 0 < n) (run : Run.Reach (step b) Fair (init cfg n) m) : Owned b m :=
  run.invariant init_owned fun _ _ _ owned fair next =>
    let ⟨reached,move⟩ := owned.move board small zero fair next
    move.owned owned reached small zero fair

theorem system_of_reaches (run : Run.Reach (step b) Fair (init cfg n) m) :
    Run.Reach System.stepDynamic (fun _ _ => True) (System.init cfg) m.system := by
  induction run with
  | refl => exact .refl
  | tail _ _ next ih =>
    rcases step_system next with same | ⟨a,next⟩
    · rw [same]
      exact ih
    · exact ih.tail trivial next

/-- In every run of the kernel with dynamic tasks and of all who use the heap, each installed task has a
stack that nobody else has a byte of, no stack is lost, and the kernel goes through a run of its own. -/
theorem stacks_of_reaches (board : (if b.fpuSupport then 68 else 64) ≤ cfg.numberMinOfStackedBytes)
    (small : n ≤ 32768) (zero : 0 < n) (run : Run.Reach (step b) Fair (init cfg n) m) :
    (∀ t, m.system.Installed t → ∃ r ∈ m.world.held, r.ptr = (m.system.contextTask t).stackInit ∧
      r ∉ m.others ∧ cfg.numberMinOfStackedBytes ≤ r.size ∧ r.ptr+r.size ≤ 8*n ∧
      ∀ s ∈ m.world.held, s ≠ r → ∀ a, r.Has a → ¬ s.Has a) ∧
    (∀ t u, m.system.Installed t → m.system.Installed u → t ≠ u →
      (m.system.contextTask t).stackInit ≠ (m.system.contextTask u).stackInit) ∧
    (∀ r ∈ m.world.held, r ∈ m.others ∨
      ∃ t, m.system.Installed t ∧ r.ptr = (m.system.contextTask t).stackInit) ∧
    Run.Reach System.stepDynamic (fun _ _ => True) (System.init cfg) m.system := by
  have owned := owned_of_reaches board small zero run
  obtain ⟨inside,apart,-⟩ := World.reached_regions small zero owned.reached
  have : Std.Symm fun r s : Region => ∀ a, r.Has a → ¬ s.Has a := ⟨fun _ _ apart a hs hr => apart a hr hs⟩
  refine ⟨fun t ht => ?_,fun t u ht hu ne same => ne (owned.apart ht hu same),owned.all,
    system_of_reaches run⟩
  obtain ⟨r,hr,ptr,enough,no⟩ := owned.stack ht
  exact ⟨r,hr,ptr,no,enough,(inside r hr).2.2,fun s hs ne => apart.forall hr hs ne.symm⟩

/-- The Cortex-M4 without FPU_SUPPORT. -/
def cortexM4 : Config := { Config.port with numberMinOfStackedBytes := 64, idleStackSize := 64 }

def flatBoard : Board := ⟨.first,false,fun _ => 0x8000,fun _ => by decide⟩

theorem stacks_of_reaches_run : ∃ m : Memory cortexM4 64, m.system.Installed 2 ∧ ¬ m.system.Installed 1 ∧
    m.others = [⟨84,20⟩] ∧ ∃ r ∈ m.world.held, r.ptr = (m.system.contextTask 2).stackInit ∧
      ∀ s ∈ m.world.held, s ≠ r → ∀ a, r.Has a → ¬ s.Has a := by
  obtain ⟨m,run,here,gone,others⟩ := Run.exists_reach_of_exec (step flatBoard) Fair (init cortexM4 64)
    [.install (.user 1) 64 3 0,.use (.malloc 20),.install (.user 2) 70 4 0,.start,.uninstall 10 1 0]
    (fun m => m.system.Installed 2 ∧ ¬ m.system.Installed 1 ∧ m.others = [⟨84,20⟩]) (by decide +kernel)
  obtain ⟨stack,-,-,-⟩ := stacks_of_reaches (by decide) (by decide) (by decide) run
  obtain ⟨r,held,ptr,-,-,-,apart⟩ := stack 2 here
  exact ⟨m,here,gone,others,r,held,ptr,apart⟩

/-- The steps that neither take the task out nor store into its first context. -/
def Spares (m : Memory cfg n) (t low size : ℕ) : MemoryAction → Prop
  | .uninstall _ h _ => m.system.named h ≠ t
  | .use (.store a _) => ¬ (low ≤ a ∧ a < low+size)
  | _ => True

instance (t low size : ℕ) (x : MemoryAction) : Decidable (m.Spares t low size x) := by
  rcases x with _ | _ | _ | _ | (_ | _ | _) <;> unfold Spares <;> infer_instance

/-- The words of a task's first context, in the order in which they are popped, with the stack around
them. -/
structure Waits (m : Memory cfg n) (t point : ℕ) (context : List ℕ) (r : Region) : Prop where
  installed : m.system.Installed t
  held : r ∈ m.world.held
  ptr : r.ptr = (m.system.contextTask t).stackInit
  low : r.ptr ≤ point
  high : point+4*context.length = r.ptr+r.size
  points : ∀ j x, context[j]? = some x → m.world.Points (point+4*j) x

variable {t point : ℕ} {context : List ℕ} {r : Region}

theorem Waits.read (h : Waits m t point context r) (small : n ≤ 32768) (zero : 0 < n) (owned : Owned b m)
    (words : ∀ x ∈ context, x < 4294967296) {j x : ℕ} (found : context[j]? = some x) :
    m.world.getPointer (point+4*j) = x := by
  obtain ⟨short,rfl⟩ := List.getElem?_eq_some_iff.mp found
  have low := h.low
  have high := h.high
  exact owned.reached.getPointer small zero h.held (by omega) (by omega) (h.points j _ found)
    (words _ (List.getElem_mem short))

/-- A task that has just been installed waits with its first context. -/
theorem Owned.waits (h : Owned b m) (board : (if b.fpuSupport then 68 else 64) ≤ cfg.numberMinOfStackedBytes)
    (small : n ≤ 32768) (zero : 0 < n) {f : Entry} {bytes p parameters : ℕ}
    (fair : m.Fair (.install f bytes p parameters))
    (next : m.step b (.install f bytes p parameters) = some m') (new : ¬ m.system.Installed t)
    (now : m'.system.Installed t) : ∃ r, Waits m' t (m'.system.contextTask t).stackPoint
      (frame b.fpuSupport (b.address f) parameters).reverse r := by
  simp only [step] at next
  split_ifs at next with free
  obtain ⟨r,eq,next⟩ := Option.bind_eq_some_iff.mp next
  obtain ⟨r',eq',reached,installs⟩ := Kernel.osInstallTaskOnHeap_spec (k := m.system.toKernel) board small zero
    h.reached f fair.1 p parameters
  obtain rfl := Option.some.inj (eq'.symm.trans eq)
  obtain rfl := Option.some.inj next
  cases installs with
  | refused failed held wrote =>
    refine absurd ((installed_same ?_).mp now) new
    exact (Kernel.exitTask_stackInits _).trans (Kernel.enterTask_stackInits _)
  | @done i stack w' enough found held wrote points =>
    have entered : m.system.enterTask.toCore = m.system.toCore := m.system.enterTask_toCore
    obtain ⟨low,-⟩ := System.findTcb_free found
    have tasks := cfg.tasks_le
    have length := frame_length b.fpuSupport (b.address f) parameters
    have inits := Kernel.exitTask_stackInits (m.system.enterTask.installOnHeap (i+1) stack
      (stack+(bytes-bytes%cfg.sizeofCpuType)-4*(frame b.fpuSupport (b.address f) parameters).length) p)
    rw [Kernel.installOnHeap_stackInits,entered] at inits
    obtain rfl := ((installed_taken ⟨by omega,by omega⟩ inits).mp now).resolve_left new
    have point : ((m.system.enterTask.installOnHeap (i+1) stack
        (stack+(bytes-bytes%cfg.sizeofCpuType)-4*(frame b.fpuSupport (b.address f) parameters).length)
        p).exitTask.contextTask (i+1)).stackPoint =
        stack+(bytes-bytes%cfg.sizeofCpuType)-4*(frame b.fpuSupport (b.address f) parameters).length := by
      rw [Kernel.exitTask_toCore]
      simp [Kernel.installOnHeap,Kernel.setTask,Kernel.setPriorityVector,Kernel.setReady]
    refine ⟨⟨stack,bytes-bytes%cfg.sizeofCpuType⟩,now,?_,?_,?_,?_,fun j x at_ => ?_⟩
    · exact held ▸ List.mem_cons_self
    · rw [stackInit_moved inits,if_pos rfl]
    · rw [point]
      simp only
      omega
    · rw [point,List.length_reverse]
      simp only
      omega
    · obtain ⟨short,-⟩ := List.getElem?_eq_some_iff.mp at_
      rw [List.length_reverse] at short
      rw [List.getElem?_reverse short] at at_
      rw [point]
      have := points _ x at_
      have same : stack+(bytes-bytes%cfg.sizeofCpuType)-4*(frame b.fpuSupport (b.address f) parameters).length+
          4*j = stack+(bytes-bytes%cfg.sizeofCpuType)-
            4*((frame b.fpuSupport (b.address f) parameters).length-1-j+1) := by omega
      rwa [same]

/-- The context stays where it is while the task is not taken out and nobody stores there. -/
theorem Waits.step (h : Waits m t point context r) (owned : Owned b m) (move : Move b m x m')
    (small : n ≤ 32768) (zero : 0 < n) (fair : m.Fair x) (spares : m.Spares t point (4*context.length) x) :
    Waits m' t point context r := by
  have inside : ∀ {j y i}, context[j]? = some y → i < 4 → r.Has (point+4*j+i) := fun found short => by
    have := (List.getElem?_eq_some_iff.mp found).1
    have := h.low
    have := h.high
    exact ⟨by omega,by omega⟩
  cases move with
  | still inits held wrote others =>
    exact
    { h with
      installed := (installed_same inits).mpr h.installed
      held := held ▸ h.held
      ptr := by rw [h.ptr,stackInit_same inits]
      points := fun j y found i hi => by rw [wrote r h.held _ (inside found hi),h.points j y found i hi] }
  | @taken _ _ u stack size free limits enough inits held wrote others =>
    have other : t ≠ u := fun e => free (e ▸ h.installed)
    exact
    { h with
      installed := (installed_taken limits inits).mpr (Or.inl h.installed)
      held := held ▸ List.mem_cons_of_mem _ h.held
      ptr := by rw [h.ptr,stackInit_moved inits,if_neg other]
      points := fun j y found i hi => by rw [wrote r h.held _ (inside found hi),h.points j y found i hi] }
  | @given _ handle _ _ inits held wrote others =>
    have other : t ≠ m.system.named handle := Ne.symm spares
    exact
    { h with
      installed := (installed_given fair inits).mpr ⟨other,h.installed⟩
      held := by
        rw [held,List.mem_filter]
        refine ⟨h.held,?_⟩
        simpa using fun same => other (owned.apart h.installed fair (h.ptr.symm.trans same))
      ptr := by rw [h.ptr,stackInit_moved inits,if_neg other]
      points := fun j y found i hi => by rw [wrote,h.points j y found i hi] }
  | @used x _ inits performed others =>
    have kept := fair.2 t (List.mem_range.mpr (Nat.lt_succ_of_le h.installed.2.1)) h.installed
    rw [← h.ptr] at kept
    obtain ⟨held,wrote⟩ := owned.reached.keeps small zero fair.1 performed h.held kept
    exact
    { h with
      installed := (installed_same inits).mpr h.installed
      held := held
      ptr := by rw [h.ptr,stackInit_same inits]
      points := fun j y found i hi => by
        have short := (List.getElem?_eq_some_iff.mp found).1
        rw [wrote _ (inside found hi) fun v e => ?_,h.points j y found i hi]
        subst e
        simp only [Spares] at spares
        omega }

/-- Until the task is taken out or somebody stores there, whatever else is installed, taken out, allocated
and freed, the words that the port has put on its stack are popped in their order. -/
theorem frame_of_reaches (board : (if b.fpuSupport then 68 else 64) ≤ cfg.numberMinOfStackedBytes)
    (small : n ≤ 32768) (zero : 0 < n) (run : Run.Reach (step b) Fair (init cfg n) m) {f : Entry}
    {bytes p parameters : ℕ} (fair : m.Fair (.install f bytes p parameters))
    (next : m.step b (.install f bytes p parameters) = some m') (new : ¬ m.system.Installed t)
    (now : m'.system.Installed t) {m'' : Memory cfg n}
    (later : Run.Reach (step b) (fun l x => l.Fair x ∧ l.Spares t (m'.system.contextTask t).stackPoint
      (4*(frame b.fpuSupport (b.address f) parameters).length) x) m' m'') {j x : ℕ}
    (popped : (frame b.fpuSupport (b.address f) parameters).reverse[j]? = some x) :
    m''.world.getPointer ((m'.system.contextTask t).stackPoint+4*j) = x := by
  have owned := owned_of_reaches board small zero run
  obtain ⟨r,waits⟩ := owned.waits board small zero fair next new now
  have words : ∀ x ∈ (frame b.fpuSupport (b.address f) parameters).reverse, x < 4294967296 := fun x mem =>
    frame_lt (b.address_lt f) fair.2 x (List.mem_reverse.mp mem)
  have after := owned_of_reaches board small zero (run.tail fair next)
  have kept : Owned b m'' ∧ Waits m'' t (m'.system.contextTask t).stackPoint
      (frame b.fpuSupport (b.address f) parameters).reverse r := by
    induction later with
    | refl => exact ⟨after,waits⟩
    | tail _ met next ih =>
      obtain ⟨reached,move⟩ := ih.1.move board small zero met.1 next
      refine ⟨move.owned ih.1 reached small zero met.1,ih.2.step ih.1 move small zero met.1 ?_⟩
      rw [List.length_reverse]
      exact met.2
  exact kept.2.read small zero kept.1 words popped


theorem frame_of_reaches_popped : ∃ m m' : Memory cortexM4 64, m.system.Installed 1 ∧
    m'.system.Installed 2 ∧ m'.world.getPointer ((m.system.contextTask 1).stackPoint+4*14) = 0x8000 := by
  have both : ((init cortexM4 64).step flatBoard (.install (.user 1) 64 3 7)).any (fun m =>
      decide (m.system.Installed 1) && (m.step flatBoard (.install (.user 2) 64 4 0)).any fun m' =>
        decide (m'.system.Installed 2)) = true := by decide +kernel
  obtain ⟨m,next,rest⟩ := (Option.any_eq_true _ _).mp both
  obtain ⟨now,more⟩ := Bool.and_eq_true_iff.mp rest
  obtain ⟨m',next',second⟩ := (Option.any_eq_true _ _).mp more
  have later : Run.Reach (step flatBoard) (fun l x => l.Fair x ∧ l.Spares 1 (m.system.contextTask 1).stackPoint
      (4*(frame false 0x8000 7).length) x) m m' := by
    have fair : m.Fair (.install (.user 2) 64 4 0) := ⟨by norm_num,by norm_num⟩
    exact .tail .refl ⟨fair,trivial⟩ next'
  exact ⟨m,m',of_decide_eq_true now,of_decide_eq_true second,
    @frame_of_reaches _ _ flatBoard _ _ 1 (by decide) (by decide) (by decide) .refl _ _ _ _
      ⟨by norm_num,by norm_num⟩ next (init_installed 1) (of_decide_eq_true now) m' later 14 0x8000 rfl⟩

end Memory
end Brtos
