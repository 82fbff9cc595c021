import Brtos.Ownership
import Brtos.Library.Run

/-! The stacks of the tasks that OSInstallTask installs on the Windows simulator. -/
namespace Brtos
open Bitmap

/-- sizeof(ThreadState), a pointer. -/
def sizeofThreadState : ℕ := 4

namespace Kernel
variable {cfg : Config} (k : Kernel cfg)

/-- Where CreateVirtualStack writes the handle of the thread, counted from the start of STACK. -/
def createVirtualStack : ℕ := k.iStackAddress*cfg.sizeofCpuType+cfg.numberMinOfStackedBytes

end Kernel

/-- What a call of OSInstallTask that returned OK has installed: the handle, the start and the size of
the stack, the place of the thread's handle, and the size that was asked for. -/
structure Install where
  task : ℕ
  start : ℕ
  size : ℕ
  slot : ℕ
  asked : ℕ

/-- The kernel with the tasks installed so far, the last one first. -/
structure Installation (cfg : Config) extends Kernel cfg where
  installed : List Install

/-- The arguments of OSInstallTask. -/
structure InstallCall where
  fctPtr : Entry
  userStackedBytes : ℕ
  iPriority : ℕ
  deriving DecidableEq

namespace InstallCall

/-- The arguments are of their types. -/
def Typed (c : InstallCall) : Prop := c.userStackedBytes < 65536 ∧ c.iPriority < 256

instance (c : InstallCall) : Decidable c.Typed := inferInstanceAs (Decidable (_ ∧ _))

end InstallCall

namespace Installation
variable {cfg : Config} {s t : Installation cfg} {c : InstallCall}

variable (s) in
/-- One call of OSInstallTask. -/
def install (c : InstallCall) : Installation cfg :=
  let r := s.osInstallTask c.fctPtr c.userStackedBytes c.iPriority
  { toKernel := r.1
    installed :=
      if r.2.1 = ok then
        ⟨r.2.2.getD 0,s.stackAddress,c.userStackedBytes-c.userStackedBytes%cfg.sizeofCpuType,
          s.createVirtualStack,c.userStackedBytes⟩ :: s.installed
      else s.installed }

def step (s : Installation cfg) (c : InstallCall) : Option (Installation cfg) := some (s.install c)

/-- After BRTOS_Init. -/
def start (cfg : Config) : Installation cfg where
  toKernel := Kernel.brtosInit cfg
  installed := []

/-- The tasks have handles and stacks of their own, with the place of the thread's handle in the stack
of the task, and NumberOfInstalledTasks counts the bits of TaskAlloc. -/
structure Sound (s : Installation cfg) : Prop where
  handles : ∀ r ∈ s.installed, 1 ≤ r.task ∧ r.task ≤ cfg.numberOfTasks
  distinct : s.installed.Pairwise fun r r' => r.task ≠ r'.task
  apart : s.installed.Pairwise fun r r' =>
    r.start+r.size ≤ r'.start ∨ r'.start+r'.size ≤ r.start
  inside : ∀ r ∈ s.installed, r.start+r.size ≤ cfg.heapSize
  slot : ∀ r ∈ s.installed, r.start ≤ r.slot ∧ r.slot+sizeofThreadState ≤ r.start+r.size
  point : ∀ r ∈ s.installed, (s.contextTask r.task).stackPoint = r.slot
  count : s.numberOfInstalledTasks = (bits s.taskAlloc).card

/-- What a call leaves alone that does not return OK. -/
def Refuses (s : Installation cfg) (c : InstallCall) : Prop :=
  let r := s.osInstallTask c.fctPtr c.userStackedBytes c.iPriority
  r.2.1 ≠ ok → r.1.taskAlloc = s.taskAlloc ∧ r.1.priorityVector = s.priorityVector ∧
    r.1.iStackAddress = s.iStackAddress ∧ r.1.stackAddress = s.stackAddress ∧
    r.1.osReadyList = s.osReadyList ∧ r.1.numberOfInstalledTasks = s.numberOfInstalledTasks

/-! ### What a call does -/

theorem enterTask_stack (k : Kernel cfg) : k.enterTask.iStackAddress = k.iStackAddress ∧
    k.enterTask.stackAddress = k.stackAddress ∧
    k.enterTask.numberOfInstalledTasks = k.numberOfInstalledTasks := by
  unfold Kernel.enterTask
  split_ifs <;> exact ⟨rfl,rfl,rfl⟩

theorem exitTask_stack (k : Kernel cfg) : k.exitTask.iStackAddress = k.iStackAddress ∧
    k.exitTask.stackAddress = k.stackAddress ∧
    k.exitTask.numberOfInstalledTasks = k.numberOfInstalledTasks := by
  unfold Kernel.exitTask
  split_ifs <;> exact ⟨rfl,rfl,rfl⟩

/-- A call that does not return OK changes nothing. -/
theorem refuses (s : Installation cfg) (c : InstallCall) : s.Refuses c := by
  intro bad
  rcases System.osInstallTask_spec s.toKernel c.fctPtr c.userStackedBytes c.iPriority with
    ⟨code,_,failed⟩ | ⟨i,_,_,_,_,_,_,taken⟩
  · obtain ⟨words,bytes,number⟩ := enterTask_stack s.toKernel
    obtain ⟨words',bytes',number'⟩ := exitTask_stack s.toKernel.enterTask
    have core := (s.toKernel.enterTask.exitTask_toCore).trans s.toKernel.enterTask_toCore
    simp only [failed]
    exact ⟨congrArg Core.taskAlloc core,congrArg Core.priorityVector core,words'.trans words,
      bytes'.trans bytes,congrArg Core.osReadyList core,number'.trans number⟩
  · simp only [taken] at bad
    exact absurd rfl bad

theorem installInto_own (k : Kernel cfg) (u n p : ℕ) :
    ((k.installInto u n p).contextTask u).stackPoint =
      if cfg.stackGrowth then k.stackAddress+cfg.numberMinOfStackedBytes
      else k.stackAddress+(n-cfg.numberMinOfStackedBytes) := by
  simp [Kernel.installInto,Kernel.setTask,Kernel.setPriorityVector,Kernel.setReady]

theorem installInto_others (k : Kernel cfg) {u j : ℕ} (n p : ℕ) (apart : j ≠ u) :
    (k.installInto u n p).contextTask j = k.contextTask j := by
  simp [Kernel.installInto,Kernel.setTask,Kernel.setPriorityVector,Kernel.setReady,apart]

/-- What a call that returns OK changes of the stacks: the next control block gets the next stack. -/
structure Takes (s : Installation cfg) (c : InstallCall) (i : ℕ) (t : Installation cfg) : Prop where
  tcb : i < cfg.numberOfTasks ∧ ¬ s.Installed (i+1)
  size : cfg.numberMinOfStackedBytes ≤ c.userStackedBytes-c.userStackedBytes%cfg.sizeofCpuType
  room : s.iStackAddress+(c.userStackedBytes-c.userStackedBytes%cfg.sizeofCpuType)/cfg.sizeofCpuType ≤
    cfg.heapSize/cfg.sizeofCpuType
  installed : t.installed = ⟨i+1,s.stackAddress,c.userStackedBytes-c.userStackedBytes%cfg.sizeofCpuType,
    s.createVirtualStack,c.userStackedBytes⟩ :: s.installed
  alloc : t.taskAlloc = s.taskAlloc ||| BitVec.twoPow 32 i
  number : t.numberOfInstalledTasks = (s.numberOfInstalledTasks+1)%256
  words : t.iStackAddress =
    (s.iStackAddress+(c.userStackedBytes-c.userStackedBytes%cfg.sizeofCpuType)/cfg.sizeofCpuType)%65536
  bytes : t.stackAddress = s.stackAddress+(c.userStackedBytes-c.userStackedBytes%cfg.sizeofCpuType)
  own : (t.contextTask (i+1)).stackPoint = if cfg.stackGrowth then
      s.stackAddress+cfg.numberMinOfStackedBytes
    else s.stackAddress+(c.userStackedBytes-c.userStackedBytes%cfg.sizeofCpuType-cfg.numberMinOfStackedBytes)
  others {j : ℕ} : j ≠ i+1 → (t.contextTask j).stackPoint = (s.contextTask j).stackPoint

theorem install_spec (s : Installation cfg) (c : InstallCall) :
    (s.install c).installed = s.installed ∧ (s.install c).taskAlloc = s.taskAlloc ∧
      (s.install c).iStackAddress = s.iStackAddress ∧ (s.install c).stackAddress = s.stackAddress ∧
      (s.install c).numberOfInstalledTasks = s.numberOfInstalledTasks ∧
      (s.install c).contextTask = s.contextTask ∨
    ∃ i, Takes s c i (s.install c) := by
  have core := s.toKernel.enterTask_toCore
  obtain ⟨words,bytes,number⟩ := enterTask_stack s.toKernel
  rcases System.osInstallTask_spec s.toKernel c.fctPtr c.userStackedBytes c.iPriority with
    ⟨code,bad,failed⟩ | ⟨i,free,_,_,_,size,room,taken⟩
  · left
    obtain ⟨words',bytes',number'⟩ := exitTask_stack s.toKernel.enterTask
    have core' := (s.toKernel.enterTask.exitTask_toCore).trans core
    unfold install
    rw [failed]
    exact ⟨if_neg bad,congrArg Core.taskAlloc core',words'.trans words,bytes'.trans bytes,
      number'.trans number,congrArg Core.contextTask core'⟩
  · right
    generalize size_eq : c.userStackedBytes-c.userStackedBytes%cfg.sizeofCpuType = n at *
    obtain ⟨words',bytes',number'⟩ :=
      exitTask_stack (s.toKernel.enterTask.installInto (i+1) n c.iPriority)
    have core' := (s.toKernel.enterTask.installInto (i+1) n c.iPriority).exitTask_toCore
    have tcb := System.findTcb_free free
    rw [Core.Installed,core] at tcb
    have call : s.install c = ⟨(s.toKernel.enterTask.installInto (i+1) n c.iPriority).exitTask,
        ⟨i+1,s.stackAddress,n,s.createVirtualStack,c.userStackedBytes⟩ :: s.installed⟩ := by
      unfold install
      rw [taken,size_eq]
      rfl
    rw [call]
    refine ⟨i,tcb,size_eq ▸ size,by rwa [size_eq,← words],by rw [size_eq],?_,?_,?_,?_,?_,fun {j} apart => ?_⟩
    · exact (congrArg Core.taskAlloc core').trans
        (congrArg (fun k : Core cfg => k.taskAlloc ||| BitVec.twoPow 32 i) core)
    · exact number'.trans (congrArg (fun x => (x+1)%256) number)
    · rw [size_eq]
      exact words'.trans (congrArg (fun x => (x+n/cfg.sizeofCpuType)%65536) words)
    · rw [size_eq]
      exact bytes'.trans (congrArg (fun x => x+n) bytes)
    · rw [size_eq,← bytes,← installInto_own]
      exact congrArg (fun k : Core cfg => (k.contextTask (i+1)).stackPoint) core'
    · have same := congrArg (fun k : Core cfg => (k.contextTask j).stackPoint) core'
      refine same.trans ?_
      rw [installInto_others _ _ _ apart]
      exact congrArg (fun k : Core cfg => (k.contextTask j).stackPoint) core

/-! ### Every sequence of calls -/

/-- The stacks lie one behind the other, and each handle has its bit of TaskAlloc. -/
structure Kept (s : Installation Config.simulator) : Prop where
  bytes : s.stackAddress = s.iStackAddress*4
  room : s.iStackAddress ≤ 64
  ends : ∀ r ∈ s.installed, r.start+r.size ≤ s.stackAddress
  sizes : ∀ r ∈ s.installed, 8 ≤ r.size ∧ r.size = r.asked-r.asked%4 ∧ r.slot = r.start+8
  behind : s.installed.Pairwise fun r r' => r'.start+r'.size ≤ r.start
  alive : ∀ r ∈ s.installed, s.Installed r.task
  few : ∀ u ∈ bits s.taskAlloc, u < 10
  distinct : s.installed.Pairwise fun r r' => r.task ≠ r'.task
  point : ∀ r ∈ s.installed, (s.contextTask r.task).stackPoint = r.slot
  count : s.numberOfInstalledTasks = (bits s.taskAlloc).card

theorem start_kept : (start Config.simulator).Kept where
  bytes := rfl
  room := by decide
  ends := by simp [start]
  sizes := by simp [start]
  behind := by simp [start]
  alive := by simp [start]
  few := by
    intro u hu
    have none : (start Config.simulator).taskAlloc = 0#_ := rfl
    simp [none] at hu
  distinct := by simp [start]
  point := by simp [start]
  count := by
    have none : (start Config.simulator).taskAlloc = 0#_ := rfl
    rw [none]
    rfl

theorem Takes.kept {s t : Installation Config.simulator} {i : ℕ} (h : Takes s c i t) (k : s.Kept) :
    t.Kept := by
  obtain ⟨tcb,size,room,installed,alloc,number,words,bytes,own,others⟩ := h
  simp only [Config.simulator,Kernel.createVirtualStack] at tcb size room installed words bytes own
  generalize hn : c.userStackedBytes-c.userStackedBytes%4 = n at *
  have four : n%4 = 0 := by omega
  have space := k.room
  have start := k.bytes
  have wraps : t.iStackAddress = s.iStackAddress+n/4 := by
    rw [words,Nat.mod_eq_of_lt (by omega)]
  have grown : bits t.taskAlloc = insert i (bits s.taskAlloc) := by
    rw [alloc,bits_or_twoPow _ (by omega)]
  have new : i ∉ bits s.taskAlloc := fun bit => tcb.2 ⟨by omega,by omega,by simpa using bit⟩
  have count : (bits s.taskAlloc).card ≤ 10 := by
    have := Finset.card_le_card (fun u hu => Finset.mem_range.mpr (k.few u hu))
    simpa using this
  have apart : ∀ r ∈ s.installed, r.task ≠ i+1 := by
    rintro r hr same
    exact tcb.2 (same ▸ k.alive r hr)
  have bit : ∀ u, t.taskAlloc.getLsbD u = true ↔ u = i ∨ s.taskAlloc.getLsbD u = true := by
    intro u
    rw [← mem_bits,grown,Finset.mem_insert,mem_bits]
  refine ⟨by omega,by omega,?_,?_,?_,?_,?_,?_,?_,?_⟩
  · simp only [installed,List.forall_mem_cons]
    exact ⟨by omega,fun r hr => (k.ends r hr).trans (by omega)⟩
  · simp only [installed,List.forall_mem_cons]
    exact ⟨⟨size,hn.symm,by omega⟩,k.sizes⟩
  · rw [installed,List.pairwise_cons]
    exact ⟨fun r hr => k.ends r hr,k.behind⟩
  · simp only [installed,List.forall_mem_cons]
    refine ⟨⟨by omega,by omega,(bit _).mpr (Or.inl (by omega))⟩,fun r hr => ?_⟩
    obtain ⟨one,small,alive⟩ := k.alive r hr
    exact ⟨one,small,(bit _).mpr (Or.inr alive)⟩
  · rw [grown]
    exact Finset.forall_mem_insert _ _ _ |>.mpr ⟨tcb.1,k.few⟩
  · rw [installed,List.pairwise_cons]
    exact ⟨fun r hr same => apart r hr same.symm,k.distinct⟩
  · simp only [installed,List.forall_mem_cons]
    refine ⟨by rw [own,if_pos trivial]; omega,fun r hr => ?_⟩
    rw [others (apart r hr)]
    exact k.point r hr
  · rw [number,grown,Finset.card_insert_of_notMem new,k.count,Nat.mod_eq_of_lt (by omega)]

theorem install_kept {s : Installation Config.simulator} (k : s.Kept) (c : InstallCall) :
    (s.install c).Kept := by
  rcases install_spec s c with ⟨installed,alloc,words,bytes,number,tasks⟩ | ⟨i,takes⟩
  · obtain ⟨b,r,e,z,h,a,f,d,p,n⟩ := k
    unfold Core.Installed at a
    refine ⟨?_,?_,?_,?_,?_,?_,?_,?_,?_,?_⟩ <;>
      simp only [Core.Installed,installed,alloc,words,bytes,number,tasks] <;> assumption
  · exact takes.kept k

theorem Kept.sound_iff {s : Installation Config.simulator} (k : s.Kept) :
    s.Sound ↔ ∀ r ∈ s.installed, 12 ≤ r.asked := by
  constructor
  · intro sound r hr
    have slot := (sound.slot r hr).2
    obtain ⟨_,size,place⟩ := k.sizes r hr
    unfold sizeofThreadState at slot
    omega
  · intro large
    refine ⟨fun r hr => ?_,k.distinct,k.behind.imp Or.inr,fun r hr => ?_,fun r hr => ?_,k.point,k.count⟩
    · obtain ⟨one,_,alive⟩ := k.alive r hr
      have := k.few (r.task-1) (by simpa using alive)
      exact ⟨one,show r.task ≤ 10 by omega⟩
    · have := k.ends r hr
      have := k.room
      have := k.bytes
      exact show r.start+r.size ≤ 256 by omega
    · obtain ⟨_,size,place⟩ := k.sizes r hr
      have := large r hr
      unfold sizeofThreadState
      omega

/-- For every sequence of calls of OSInstallTask on the simulator after BRTOS_Init: the tasks have handles
and stacks of their own with the place of the thread's handle in them if and only if each call that
returned OK had asked for at least 12 bytes, and a call that does not return OK changes nothing. -/
theorem installs_run {s : Installation Config.simulator}
    (run : Run.Reach step (fun _ c => c.Typed) (start Config.simulator) s) :
    (s.Sound ↔ ∀ r ∈ s.installed, 12 ≤ r.asked) ∧ ∀ c, s.Refuses c := by
  have kept : s.Kept := run.invariant start_kept fun s c t k _ st => by
    obtain rfl := Option.some.inj st
    exact install_kept k c
  exact ⟨kept.sound_iff,s.refuses⟩

/-- Two tasks with stacks of 16 and 13 bytes. -/
theorem installs_example : ∃ s : Installation Config.simulator, s.Sound ∧
    s.installed.map Install.start = [16,0] := by
  obtain ⟨s,reach,starts,large⟩ := Run.exists_reach_of_exec step
    (fun _ c => c.Typed) (start Config.simulator) [⟨.user 0,16,31⟩,⟨.user 1,13,5⟩]
    (fun s => s.installed.map Install.start = [16,0] ∧ ∀ r ∈ s.installed, 12 ≤ r.asked) (by decide +kernel)
  exact ⟨s,(installs_run reach).1.mpr large,starts⟩

/-- The first task of the simulator's main, with a stack of eight bytes: the handle of its thread lies
behind the stack. -/
theorem installs_fails : ∃ s : Installation Config.simulator,
    Run.Reach step (fun _ c => c.Typed) (start Config.simulator) s ∧ ¬ s.Sound := by
  obtain ⟨s,reach,stack⟩ := Run.exists_reach_of_exec step
    (fun _ c => c.Typed) (start Config.simulator) [⟨.user 0,8,31⟩]
    (fun s => s.installed.map (fun r => (r.start+r.size,r.slot)) = [(8,8)]) (by decide +kernel)
  refine ⟨s,reach,fun sound => ?_⟩
  obtain ⟨r,hr,ends⟩ : ∃ r ∈ s.installed, (r.start+r.size,r.slot) = (8,8) := by
    rw [← List.mem_map,stack]
    exact List.mem_singleton_self _
  obtain ⟨place,slot⟩ := Prod.mk.inj ends
  have inside := (sound.slot r hr).2
  unfold sizeofThreadState at inside
  omega

end Installation
end Brtos
