import Brtos.Library.Bitmap

/-! Compile-time configuration, the constants of BRTOS.h and the successive approximation
scheduler. -/
namespace Brtos
open Bitmap

/-- configMAX_TASK_INSTALL, which is also the width of PriorityType. -/
def configMaxTaskInstall (numberOfPriorities : ℕ) : ℕ :=
  if numberOfPriorities > 16 then 32 else if numberOfPriorities > 8 then 16 else 8

/-- BRTOSConfig.h and the part of HAL.h that the kernel tests. `criticalNests` says whether
OSEnterCritical itself increments iNesting, as the Windows simulator's EnterCritical does;
`pastMask` is whatever lies in memory behind the last entry of PriorityMask. -/
structure Config where
  numberOfPriorities : ℕ
  numberOfTasks : ℕ
  sizeofCpuType : ℕ
  numberMinOfStackedBytes : ℕ
  heapSize : ℕ
  queueHeapSize : ℕ
  idleStackSize : ℕ
  brtosMaxSem : ℕ
  brtosMaxMutex : ℕ
  brtosMaxMbox : ℕ
  brtosMaxQueue : ℕ
  brtosMaxTimer : ℕ := 8
  /-- Largest value of ostick_t, an unsigned type of fewer than eight bytes. -/
  maxTimer : ℕ
  /-- SIZE_MAX. -/
  sizeMax : ℕ := 4294967295
  nestingInt : Bool
  errorCheck : Bool
  stackGrowth : Bool
  criticalNests : Bool
  pastMask : ℕ → ℕ
  tasks_le : numberOfTasks ≤ 32
  timer_large : 8 ≤ maxTimer
  nests_ok : criticalNests = true → nestingInt = true
  size_dvd : 65536 ∣ sizeMax+1 := by decide
  timers_pos : 1 ≤ brtosMaxTimer := by decide

namespace Config
variable (cfg : Config)

abbrev width : ℕ := configMaxTaskInstall cfg.numberOfPriorities

/-- NO_TIMEOUT, EXIT_BY_TIMEOUT and TICK_COUNT_OVERFLOW, truncated to ostick_t. -/
def noTimeout : ℕ := cfg.maxTimer - 1
def exitByTimeout : ℕ := cfg.maxTimer - 2
def tickCountOverflow : ℕ := cfg.maxTimer - 3

theorem width_le : cfg.width ≤ 32 := by
  unfold width configMaxTaskInstall
  split_ifs <;> omega

theorem width_pos : 0 < cfg.width := by
  unfold width configMaxTaskInstall
  split_ifs <;> omega

theorem overflow_lt_exit : cfg.tickCountOverflow < cfg.exitByTimeout := by
  have := cfg.timer_large
  simp only [tickCountOverflow,exitByTimeout]
  omega

theorem exit_lt_noTimeout : cfg.exitByTimeout < cfg.noTimeout := by
  have := cfg.timer_large
  simp only [noTimeout,exitByTimeout]
  omega

/-- The Windows simulator: its BRTOSConfig.h and HAL.h. -/
def simulator : Config where
  numberOfPriorities := 32
  numberOfTasks := 10
  sizeofCpuType := 4
  numberMinOfStackedBytes := 8
  heapSize := 256
  queueHeapSize := 1024
  idleStackSize := 8
  brtosMaxSem := 20
  brtosMaxMutex := 10
  brtosMaxMbox := 5
  brtosMaxQueue := 20
  maxTimer := 65535
  nestingInt := true
  errorCheck := false
  stackGrowth := true
  criticalNests := true
  pastMask _ := 0
  tasks_le := by decide
  timer_large := by decide
  nests_ok := by decide

/-- The same build on a port whose critical sections leave iNesting alone. -/
def port : Config := { simulator with criticalNests := false, nests_ok := by decide }

end Config

abbrev PriorityType (cfg : Config) := BitVec cfg.width

/-- The constant table of one-bit masks. Past its end the memory is arbitrary. -/
def priorityMask (cfg : Config) (i : ℕ) : PriorityType cfg :=
  if i < cfg.width then BitVec.twoPow cfg.width i else BitVec.ofNat cfg.width (cfg.pastMask i)

theorem priorityMask_of_lt {cfg : Config} {i : ℕ} (h : i < cfg.width) :
    priorityMask cfg i = BitVec.twoPow cfg.width i := if_pos h

theorem bits_or_mask {cfg : Config} (r : PriorityType cfg) {i : ℕ} (h : i < cfg.width) :
    bits (r ||| priorityMask cfg i) = insert i (bits r) := by
  rw [priorityMask_of_lt h,bits_or_twoPow r h]

theorem bits_and_not_mask {cfg : Config} (r : PriorityType cfg) {i : ℕ} (h : i < cfg.width) :
    bits (r &&& ~~~ priorityMask cfg i) = (bits r).erase i := by
  rw [priorityMask_of_lt h,bits_and_not_twoPow]

theorem and_mask_ne_zero {cfg : Config} (r : PriorityType cfg) {i : ℕ} (h : i < cfg.width) :
    r &&& priorityMask cfg i ≠ 0#_ ↔ i ∈ bits r := by
  rw [priorityMask_of_lt h,Bitmap.and_twoPow_ne_zero r h]

def mutexPrio : ℕ := 0xFE
def emptyPrio : ℕ := 0xFF

/-! Return codes. The groups of BRTOS.h overlap, so they stay numbers. -/

def ok : ℕ := 0
def noMemory : ℕ := 1
def stackSizeTooSmall : ℕ := 2
def endOfAvailablePriorities : ℕ := 3
def busyPriority : ℕ := 4
def timeout : ℕ := 6
def cannotAssignIdleTaskPrio : ℕ := 7
def notValidTask : ℕ := 8
def noTaskDelay : ℕ := 9
def endOfAvailableTcb : ℕ := 10
def exitByNoEntryAvailable : ℕ := 11
def exitByNoResourceAvailable : ℕ := 14

def allocEventOk : ℕ := 0
def noAvailableEvent : ℕ := 1
def noAvailableMemory : ℕ := 2
def invalidParameters : ℕ := 3
def irqPendErr : ℕ := 4
def errSemOvf : ℕ := 5
def errEventNoCreated : ℕ := 7
def errEventOwner : ℕ := 9
def deleteEventOk : ℕ := 10
def availableResource : ℕ := 11
def busyResource : ℕ := 12
def availableMessage : ℕ := 13
def noMessage : ℕ := 14

def readBufferOk : ℕ := 0
def writeBufferOk : ℕ := 0
def bufferUnderrun : ℕ := 1
def cleanBufferOk : ℕ := 2
def noEntryAvailable : ℕ := 3

/-! The decision tree, one definition for each level of conditional compilation. -/

def saScheduler8 (readyList : ℕ) : ℕ :=
  if readyList > 0x0F then
    if readyList > 0x3F then
      if readyList > 0x7F then 7 else 6
    else if readyList > 0x1F then 5 else 4
  else
    if readyList > 0x03 then
      if readyList > 0x07 then 3 else 2
    else if readyList > 0x1 then 1 else 0

def saScheduler16 (readyList : ℕ) : ℕ :=
  if readyList > 0xFF then
    if readyList > 0xFFF then
      if readyList > 0x3FFF then
        if readyList > 0x7FFF then 15 else 14
      else if readyList > 0x1FFF then 13 else 12
    else
      if readyList > 0x3FF then
        if readyList > 0x7FF then 11 else 10
      else if readyList > 0x1FF then 9 else 8
  else saScheduler8 readyList

def saScheduler32 (readyList : ℕ) : ℕ :=
  if readyList > 0xFFFF then
    if readyList > 0xFFFFFF then
      if readyList > 0xFFFFFFF then
        if readyList > 0x3FFFFFFF then
          if readyList > 0x7FFFFFFF then 31 else 30
        else if readyList > 0x1FFFFFFF then 29 else 28
      else
        if readyList > 0x3FFFFFF then
          if readyList > 0x7FFFFFF then 27 else 26
        else if readyList > 0x1FFFFFF then 25 else 24
    else
      if readyList > 0xFFFFF then
        if readyList > 0x3FFFFF then
          if readyList > 0x7FFFFF then 23 else 22
        else if readyList > 0x1FFFFF then 21 else 20
      else
        if readyList > 0x3FFFF then
          if readyList > 0x7FFFF then 19 else 18
        else if readyList > 0x1FFFF then 17 else 16
  else saScheduler16 readyList

/-- SAScheduler, for the three widths of PriorityType. -/
def saScheduler (cfg : Config) (readyList : PriorityType cfg) : ℕ :=
  if cfg.numberOfPriorities > 16 then saScheduler32 readyList.toNat
  else if cfg.numberOfPriorities > 8 then saScheduler16 readyList.toNat
  else saScheduler8 readyList.toNat

/-- `p` is the position of the highest set bit of `n`, or `n` and `p` are both zero. -/
def IsHighest (n p : ℕ) : Prop := (n = 0 ∧ p = 0) ∨ (2^p ≤ n ∧ n < 2^(p+1))

lemma saScheduler8_isHighest (n : ℕ) (h : n < 2^8) : IsHighest n (saScheduler8 n) := by
  unfold saScheduler8 IsHighest
  split_ifs <;> norm_num at * <;> omega

lemma saScheduler16_isHighest (n : ℕ) (h : n < 2^16) : IsHighest n (saScheduler16 n) := by
  by_cases hn : n > 0xFF
  · unfold saScheduler16 IsHighest
    split_ifs <;> norm_num at * <;> omega
  · simpa only [saScheduler16,if_neg hn] using saScheduler8_isHighest n (by omega)

lemma saScheduler32_isHighest (n : ℕ) (h : n < 2^32) : IsHighest n (saScheduler32 n) := by
  by_cases hn : n > 0xFFFF
  · unfold saScheduler32 IsHighest
    split_ifs <;> norm_num at * <;> omega
  · simpa only [saScheduler32,if_neg hn] using saScheduler16_isHighest n (by omega)

/-- The hand-written tree finds the highest set bit at every width, and zero for an empty list. -/
theorem saScheduler_eq_highest (cfg : Config) (r : PriorityType cfg) :
    saScheduler cfg r = highest r := by
  have hr := r.isLt
  have h : IsHighest r.toNat (saScheduler cfg r) := by
    unfold saScheduler
    split_ifs with h1 h2
    · exact saScheduler32_isHighest _ (by simpa [Config.width,configMaxTaskInstall,h1] using hr)
    · exact saScheduler16_isHighest _ (by simpa [Config.width,configMaxTaskInstall,h1,h2] using hr)
    · exact saScheduler8_isHighest _ (by simpa [Config.width,configMaxTaskInstall,h1,h2] using hr)
  rcases h with ⟨h0,hp⟩ | ⟨hl,hu⟩
  · rw [hp,highest,h0,Nat.log2_zero]
  · exact (highest_of_bounds hl hu).symm

/-- The instructions of Optimezed_Scheduler of the Cortex-M4 port: CLZ on a 32-bit register, and RSB
from 0x1F; the answer is an INT8U. -/
def optimezedScheduler (cfg : Config) (readListVar : PriorityType cfg) : ℕ :=
  let register : BitVec 32 := readListVar.setWidth 32
  let clz := register.clz
  (0x1F#32 - clz).toNat % 2^8

/-- The leading zeros of a nonzero register, subtracted from 31, leave the highest set position. -/
theorem optimezedScheduler_bounds (cfg : Config) (r : PriorityType cfg) (h : r ≠ 0#_) :
    2^optimezedScheduler cfg r ≤ r.toNat ∧ r.toNat < 2^(optimezedScheduler cfg r+1) := by
  have value : (r.setWidth 32).toNat = r.toNat := by
    apply BitVec.toNat_setWidth_of_le
    exact cfg.width_le
  have nonzero : r.setWidth 32 ≠ 0#32 := by
    intro h0
    apply h
    apply BitVec.eq_of_toNat_eq
    rw [← value,h0]
    simp
  have few : (r.setWidth 32).clz.toNat < 32 := BitVec.clz_lt_iff_ne_zero.mpr nonzero
  have difference : optimezedScheduler cfg r = 31 - (r.setWidth 32).clz.toNat := by
    simp only [optimezedScheduler,BitVec.toNat_sub,BitVec.toNat_ofNat]
    omega
  have low := BitVec.two_pow_sub_clz_le_toNat_of_ne_zero (by decide) nonzero
  have high := BitVec.toNat_lt_two_pow_sub_clz (x := r.setWidth 32)
  rw [value] at low high
  rw [difference]
  refine ⟨low,?_⟩
  have exponent : 31 - (r.setWidth 32).clz.toNat + 1 = 32 - (r.setWidth 32).clz.toNat := by omega
  rwa [exponent]

/-- Every width and every nonzero list: the tree finds the only position `p` with `r >> p = 1`, and so
do the instructions. -/
theorem saScheduler_eq_optimezed (cfg : Config) (r : PriorityType cfg) (h : r ≠ 0#_) :
    r.toNat >>> saScheduler cfg r = 1 ∧ saScheduler cfg r = optimezedScheduler cfg r := by
  obtain ⟨low,high⟩ := optimezedScheduler_bounds cfg r h
  have same : saScheduler cfg r = optimezedScheduler cfg r := by
    rw [saScheduler_eq_highest]
    exact highest_of_bounds low high
  refine ⟨?_,same⟩
  rw [same,Nat.shiftRight_eq_div_pow]
  apply Nat.div_eq_of_lt_le
  · simpa using low
  · simpa [pow_succ,mul_comm] using high

theorem saScheduler_eq_optimezed_example :
    (0x50#32 : PriorityType .simulator) ≠ 0#_ ∧
      (0x50#32 : PriorityType .simulator).toNat >>> saScheduler .simulator (0x50#32) = 1 ∧
      saScheduler .simulator (0x50#32) = optimezedScheduler .simulator (0x50#32) := by
  have nonzero : (0x50#32 : PriorityType .simulator) ≠ 0#_ := by decide
  exact ⟨nonzero,saScheduler_eq_optimezed .simulator (0x50#32) nonzero⟩
end Brtos
