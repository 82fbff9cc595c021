import Mathlib.Data.Nat.Bitwise

/-! The allocator of umm_malloc.c: blocks of eight bytes, each with two links to its neighbours and, while
it is free, two more in the free list. -/
namespace Brtos

def ummFreelistMask : ℕ := 0x8000
def ummBlocknoMask : ℕ := 0x7FFF

/-- The header of a block and its body; a free block keeps two links in its body. -/
structure UmmBlock where
  next : ℕ
  prev : ℕ
  freeNext : ℕ
  freePrev : ℕ
  deriving Repr,DecidableEq

/-- `umm_heap`. -/
structure Umm (numblocks : ℕ) where
  heap : ℕ → UmmBlock

/-- How a free block is chosen, UMM_FIRST_FIT or UMM_BEST_FIT. -/
inductive Fit
  | first
  | best
  deriving Repr,DecidableEq

/-- The memory at startup. -/
def Umm.zero (n : ℕ) : Umm n := ⟨fun _ => ⟨0,0,0,0⟩⟩

namespace Umm
variable {n : ℕ}

def nblock (u : Umm n) (b : ℕ) : ℕ := (u.heap b).next
def pblock (u : Umm n) (b : ℕ) : ℕ := (u.heap b).prev
def nfree (u : Umm n) (b : ℕ) : ℕ := (u.heap b).freeNext
def pfree (u : Umm n) (b : ℕ) : ℕ := (u.heap b).freePrev

/-- A block's contents with new ones. -/
def update (u : Umm n) (b : ℕ) (f : UmmBlock → UmmBlock) : Umm n :=
  ⟨Function.update u.heap b (f (u.heap b))⟩

def setNblock (u : Umm n) (b v : ℕ) : Umm n := u.update b fun x => {x with next := v % 65536}
def setPblock (u : Umm n) (b v : ℕ) : Umm n := u.update b fun x => {x with prev := v % 65536}
def setNfree (u : Umm n) (b v : ℕ) : Umm n := u.update b fun x => {x with freeNext := v % 65536}
def setPfree (u : Umm n) (b v : ℕ) : Umm n := u.update b fun x => {x with freePrev := v % 65536}

/-! Every access of the code is to a block of the heap; one to another address has no result. -/

def load (u : Umm n) (field : Umm n → ℕ → ℕ) (b : ℕ) : Option ℕ :=
  if b < n then some (field u b) else none

def store (u : Umm n) (field : Umm n → ℕ → ℕ → Umm n) (b v : ℕ) : Option (Umm n) :=
  if b < n then some (field u b v) else none

/-- Both operands promote to `int`, and the difference is cut to sixteen bits. -/
def u16sub (a b : ℕ) : ℕ := (a + 65536 - b) % 65536

def ummBlocks (size : ℕ) : ℕ :=
  if size ≤ 4 then 1 else (2 + (size - 5) / 8) % 65536

def ummMakeNewBlock (u : Umm n) (c blocks freemask : ℕ) : Option (Umm n) := do
  let u ← u.store setNblock (c + blocks) ((← u.load nblock c) &&& ummBlocknoMask)
  let u ← u.store setPblock (c + blocks) c
  let u ← u.store setPblock ((← u.load nblock c) &&& ummBlocknoMask) (c + blocks)
  u.store setNblock c ((c + blocks) ||| freemask)

def ummDisconnectFromFreeList (u : Umm n) (c : ℕ) : Option (Umm n) := do
  let u ← u.store setNfree (← u.load pfree c) (← u.load nfree c)
  let u ← u.store setPfree (← u.load nfree c) (← u.load pfree c)
  u.store setNblock c ((← u.load nblock c) &&& ummBlocknoMask)

def ummAssimilateUp (u : Umm n) (c : ℕ) : Option (Umm n) := do
  let next ← u.load nblock c
  if (← u.load nblock next) &&& ummFreelistMask ≠ 0 then
    let u ← u.ummDisconnectFromFreeList next
    let u ← u.store setPblock ((← u.load nblock (← u.load nblock c)) &&& ummBlocknoMask) c
    u.store setNblock c ((← u.load nblock (← u.load nblock c)) &&& ummBlocknoMask)
  else
    return u

def ummAssimilateDown (u : Umm n) (c freemask : ℕ) : Option (Umm n × ℕ) := do
  let u ← u.store setNblock (← u.load pblock c) ((← u.load nblock c) ||| freemask)
  let u ← u.store setPblock (← u.load nblock c) (← u.load pblock c)
  return (u,← u.load pblock c)

/-- The address of a block's body, from the start of the heap on. -/
def data (c : ℕ) : ℕ := 8 * c + 4

/-- A block becomes the head of the free list. -/
def addToFreeList (u : Umm n) (c : ℕ) : Option (Umm n) := do
  let u ← u.store setPfree (← u.load nfree 0) c
  let u ← u.store setNfree c (← u.load nfree 0)
  let u ← u.store setPfree c 0
  let u ← u.store setNfree 0 c
  u.store setNblock c ((← u.load nblock c) ||| ummFreelistMask)

/-- The body of `umm_free` for the block `c`. -/
def freeBlock (u : Umm n) (c : ℕ) : Option (Umm n) := do
  let u ← u.ummAssimilateUp c
  if (← u.load nblock (← u.load pblock c)) &&& ummFreelistMask ≠ 0 then
    return (← u.ummAssimilateDown c ummFreelistMask).1
  else
    u.addToFreeList c

/-- Pointers are offsets from the start of the heap, NULL is `none`. -/
def ummFree (u : Umm n) : Option ℕ → Option (Umm n)
  | none => some u
  | some ptr => u.freeBlock (ptr / 8 % 65536)

/-- The local variables of `umm_malloc` in its loop. -/
structure Scan where
  cf : ℕ
  blockSize : ℕ
  bestBlock : ℕ
  bestSize : ℕ
  deriving Repr,DecidableEq

/-- The loop over the free list; one that makes more steps than there are blocks is never left. -/
def scan (u : Umm n) (fit : Fit) (blocks : ℕ) : ℕ → Scan → Option Scan
  | 0,_ => none
  | fuel+1,s => do
    let next ← u.load nfree s.cf
    if next ≠ 0 then
      let blockSize := u16sub ((← u.load nblock s.cf) &&& ummBlocknoMask) s.cf
      let s := {s with blockSize := blockSize}
      match fit with
      | .first =>
        if blocks ≤ blockSize then return s else u.scan fit blocks fuel {s with cf := next}
      | .best =>
        let s := if blocks ≤ blockSize ∧ blockSize < s.bestSize then
          {s with bestBlock := s.cf,bestSize := blockSize} else s
        u.scan fit blocks fuel {s with cf := next}
    else
      return s

/-- What is done with the choice of the loop. -/
def Scan.choice (s : Scan) : ℕ × ℕ :=
  if 0x7FFF ≠ s.bestSize then (s.bestBlock,s.bestSize) else (s.cf,s.blockSize)

/-- A block of the free list, or the end of one, is taken. -/
def takeBlock (u : Umm n) (cf blockSize blocks : ℕ) : Option (Umm n × ℕ) := do
  if blockSize = blocks then
    return (← u.ummDisconnectFromFreeList cf,cf)
  else
    let rest := u16sub blockSize blocks
    return (← u.ummMakeNewBlock cf rest ummFreelistMask,(cf + rest) % 65536)

/-- The first call finds a heap of zeros. -/
def initBlock (u : Umm n) (cf : ℕ) : Option (Umm n × ℕ) := do
  if cf = 0 then
    let u ← u.store setNblock 0 1
    let u ← u.store setNfree 0 1
    return (u,1)
  else
    return (u,cf)

/-- The end of the heap becomes a block, with the new end behind it. -/
def newBlock (u : Umm n) (cf blocks : ℕ) : Option (Umm n) := do
  let u ← u.store setNfree (← u.load pfree cf) (cf + blocks)
  let u ← u.store (fun u b _ => u.update b fun _ => u.heap cf) (cf + blocks) 0
  let u ← u.store setNblock cf (cf + blocks)
  u.store setPblock (cf + blocks) cf

def ummMalloc (u : Umm n) (fit : Fit) (size : ℕ) : Option (Umm n × Option ℕ) := do
  if size = 0 then
    return (u,none)
  let blocks := ummBlocks size
  let first ← u.load nfree 0
  let (cf,blockSize) := (← u.scan fit blocks (n + 1) ⟨first,0,first,0x7FFF⟩).choice
  if (← u.load nblock cf) &&& ummBlocknoMask ≠ 0 then
    let (u,c) ← u.takeBlock cf blockSize blocks
    return (u,some (data c))
  else if n % 65536 ≤ cf + blocks + 1 then
    return (u,none)
  else
    let (u,cf) ← u.initBlock cf
    return (← u.newBlock cf blocks,some (data cf))

/-- `UMM_HEAP_INFO`. -/
structure HeapInfo where
  totalEntries : ℕ
  usedEntries : ℕ
  freeEntries : ℕ
  totalBlocks : ℕ
  usedBlocks : ℕ
  freeBlocks : ℕ
  deriving Repr,DecidableEq

/-- One block of the walk of `umm_info` is counted. -/
def HeapInfo.count (h : HeapInfo) (free : Bool) (size : ℕ) : HeapInfo :=
  let h := {h with
    totalEntries := (h.totalEntries + 1) % 65536
    totalBlocks := (h.totalBlocks + size) % 65536}
  if free then
    {h with
      freeEntries := (h.freeEntries + 1) % 65536
      freeBlocks := (h.freeBlocks + size) % 65536}
  else
    {h with
      usedEntries := (h.usedEntries + 1) % 65536
      usedBlocks := (h.usedBlocks + size) % 65536}

/-- The loop of `umm_info`; the second result is the pointer that it has been asked about. -/
def infoLoop (u : Umm n) (ptr : Option ℕ) : ℕ → ℕ → HeapInfo → Option (HeapInfo × Option ℕ)
  | 0,_,_ => none
  | fuel+1,blockNo,h => do
    let word ← u.load nblock blockNo
    let next := word &&& ummBlocknoMask
    if next ≠ 0 then
      let free : Bool := decide (word &&& ummFreelistMask ≠ 0)
      let h := h.count free (u16sub next blockNo)
      if free ∧ ptr = some (8 * blockNo) then
        return (h,ptr)
      else
        u.infoLoop ptr fuel next h
    else
      let rest := u16sub (n % 65536) blockNo
      return ({h with
        freeBlocks := (h.freeBlocks + rest) % 65536
        totalBlocks := (h.totalBlocks + rest) % 65536},none)

def ummInfo (u : Umm n) (ptr : Option ℕ) : Option (HeapInfo × Option ℕ) := do
  let first ← u.load nblock 0
  u.infoLoop ptr (n + 1) (first &&& ummBlocknoMask) ⟨0,0,0,0,0,0⟩

def osGetUsedHeapSize (u : Umm n) : Option ℕ := do
  return (← u.ummInfo none).1.usedBlocks * 8

def osGetFreeHeapSize (u : Umm n) : Option ℕ := do
  return (← u.ummInfo none).1.freeBlocks * 8

end Umm
end Brtos
