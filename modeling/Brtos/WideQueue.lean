import Brtos.QueueStack

/-! queue.c: the calls on queues of 16- and 32-bit elements, which have no wait list. The two kinds run
the same code; a pointer moves by the size of an element. -/
namespace Brtos

/-- A control block with the memory that it points into: `data` gives the element that starts at an
address. -/
structure OsWideRing extends OsWideQueue where
  data : ℕ → ℕ

namespace OsWideRing
variable (width : ℕ) (q : OsWideRing)

/-- The write of an element, none when the queue is full. -/
def write (x : ℕ) : Option OsWideRing :=
  if q.osqEntries < q.osqSize then
    let q := { q with osqEntries := q.osqEntries+1 }
    let q := if q.osqIn = q.osqEnd then { q with osqIn := q.osqStart } else q
    some { q with data := Function.update q.data q.osqIn x, osqIn := q.osqIn+width }
  else none

/-- The read of an element, none when the queue is empty. -/
def read : Option (OsWideRing × ℕ) :=
  if 0 < q.osqEntries then
    let q := if q.osqOut = q.osqEnd then { q with osqOut := q.osqStart } else q
    some ({ q with osqOut := q.osqOut+width, osqEntries := q.osqEntries-1 },q.data q.osqOut)
  else none

def clean : OsWideRing := { q with osqEntries := 0, osqIn := q.osqStart, osqOut := q.osqStart }

/-- The address that a write stores to. -/
def storesAt : List ℕ :=
  if q.osqEntries < q.osqSize then [if q.osqIn = q.osqEnd then q.osqStart else q.osqIn] else []

/-- The address that a read loads from. -/
def loadsAt : List ℕ :=
  if 0 < q.osqEntries then [if q.osqOut = q.osqEnd then q.osqStart else q.osqOut] else []

end OsWideRing

namespace Kernel
variable {cfg : Config} (k : Kernel cfg) (q : OsWideRing)

def wQueueWide (width data : ℕ) : Kernel cfg × OsWideRing × Reply :=
  let k := k.enterNesting
  match q.write width data with
  | none => (k.exitNesting,q,.ret bufferUnderrun [])
  | some q => (k.exitNesting,q,.ret writeBufferOk [])

def rQueueWide (width : ℕ) : Kernel cfg × OsWideRing × Reply :=
  let k := k.enterNesting
  match q.read width with
  | none => (k.exitNesting,q,.ret noEntryAvailable [])
  | some r => (k.exitNesting,r.1,.ret readBufferOk [r.2])

def cleanQueueWide : Kernel cfg × OsWideRing × Reply :=
  (k.enterNesting.exitNesting,q.clean,.ret cleanBufferOk [])

def osWQueue16 (data : ℕ) : Kernel cfg × OsWideRing × Reply := k.wQueueWide q 2 data
def osRQueue16 : Kernel cfg × OsWideRing × Reply := k.rQueueWide q 2
def osCleanQueue16 : Kernel cfg × OsWideRing × Reply := k.cleanQueueWide q
def osWQueue32 (data : ℕ) : Kernel cfg × OsWideRing × Reply := k.wQueueWide q 4 data
def osRQueue32 : Kernel cfg × OsWideRing × Reply := k.rQueueWide q 4
def osCleanQueue32 : Kernel cfg × OsWideRing × Reply := k.cleanQueueWide q

end Kernel
end Brtos
