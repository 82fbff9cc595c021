import Brtos.Records
import Brtos.Cells
import Brtos.Library.Answer

/-! The dynamic queues refine a bounded queue of records exactly when the size of their block fits
its sixteen bits. -/
namespace Brtos

namespace Kernel
variable {cfg : Config} {k : Kernel cfg} {d : QueueKind} {i : ℕ}

/-! ### The ring under the services -/

theorem queue_of_body {l : Kernel cfg} (h : k.body (d.obj i) = l.body (d.obj i)) :
    k.queue d i = l.queue d i := by
  cases d with
  | static => exact Body.queue.inj h
  | dynamic => exact Body.queue.inj h

theorem queue_of_cell {l : Kernel cfg} (h : k.cell (d.obj i) = l.cell (d.obj i)) :
    k.queue d i = l.queue d i := queue_of_body (body_of_cell h)

@[simp] theorem setQueue_queue (q : OsQueue) : (k.setQueue d i q).queue d i = q := by
  cases d <;> simp [setQueue,queue]

@[simp] theorem enterNesting_queue : k.enterNesting.queue d i = k.queue d i :=
  queue_of_cell enterNesting_cell

@[simp] theorem exitNesting_queue : k.exitNesting.queue d i = k.queue d i :=
  queue_of_cell exitNesting_cell

@[simp] theorem osEnterCritical_queue : k.osEnterCritical.queue d i = k.queue d i :=
  queue_of_cell osEnterCritical_cell

@[simp] theorem osExitCritical_queue : k.osExitCritical.queue d i = k.queue d i :=
  queue_of_cell osExitCritical_cell

@[simp] theorem notCreated_enter (o : Obj) : k.enterNesting.notCreated o = k.notCreated o := by
  simp [notCreated]

/-- A post to a queue with room writes its record. -/
theorem queuePost_room (created : k.notCreated (d.obj i) = false)
    (room : (k.queue d i).osqEntries < (k.queue d i).osqLength) (bytes : List ℕ) :
    (k.queuePost d i bytes).2 = .ret writeBufferOk [] ∧
      (k.queuePost d i bytes).1.queue d i = (k.queue d i).turnIn.writeBytes bytes := by
  simp only [queuePost,notCreated_enter,created,Bool.false_eq_true,if_false,enterNesting_queue,
    OsQueue.write_of_room room]
  split_ifs
  · refine ⟨rfl,?_⟩
    rw [exitNesting_queue,queue_of_cell changeContextUnnested_cell,
      queue_of_body (wakeHighest_body _),setQueue_queue]
  · exact ⟨rfl,by simp⟩

theorem queuePost_full (created : k.notCreated (d.obj i) = false)
    (full : ¬ (k.queue d i).osqEntries < (k.queue d i).osqLength) (bytes : List ℕ) :
    k.queuePost d i bytes = (k.enterNesting.exitNesting,.ret bufferUnderrun []) := by
  simp only [queuePost,notCreated_enter,created,Bool.false_eq_true,if_false,enterNesting_queue,
    OsQueue.write_of_full full]

theorem queuePost_error (absent : k.notCreated (d.obj i) = true) (bytes : List ℕ) :
    k.queuePost d i bytes = (k.enterNesting.exitNesting,.ret errEventNoCreated []) := by
  simp [queuePost,absent]

/-- A pend on a queue with a record reads it. -/
theorem queuePend_some (calm : k.iNesting = 0) (created : k.notCreated (d.obj i) = false)
    (some_ : 0 < (k.queue d i).osqEntries) (w : ℕ) :
    k.queuePend d i w = ((k.osEnterCritical.setQueue d i (k.queue d i).read.1).osExitCritical,
      .ret readBufferOk (k.queue d i).read.2) := by
  have created' : k.osEnterCritical.notCreated (d.obj i) = false := created
  simp only [queuePend,calm,lt_irrefl,and_false,if_false,created',Bool.false_eq_true,
    osEnterCritical_queue,some_,if_true]

theorem queuePend_none (calm : k.iNesting = 0) (created : k.notCreated (d.obj i) = false)
    (none_ : (k.queue d i).osqEntries = 0) : k.queuePend d i cfg.noTimeout =
      (k.osEnterCritical.osExitCritical,.ret exitByNoEntryAvailable []) := by
  have created' : k.osEnterCritical.notCreated (d.obj i) = false := created
  simp only [queuePend,calm,lt_irrefl,and_false,if_false,created',Bool.false_eq_true,
    osEnterCritical_queue,none_,if_true]

/-! ### Critical sections that cancel -/

theorem enterNesting_calm (calm : k.iNesting = 0) {l : Kernel cfg}
    (same : l.iNesting = k.enterNesting.iNesting) : l.exitNesting.iNesting = 0 := by
  have nests := cfg.nests_ok
  simp only [enterNesting,calm,or_true,if_true,osEnterCritical] at same
  unfold exitNesting osExitCritical
  split_ifs with h1 h2
  · simp [same,h2]
  · simp [same,h2]
  · have port : cfg.criticalNests = false := by
      by_contra hc
      exact h1 (Or.inl (nests (by simpa using hc)))
    simpa [port] using same

theorem osEnterCritical_calm (calm : k.iNesting = 0) {l : Kernel cfg}
    (same : l.iNesting = k.osEnterCritical.iNesting) : l.osExitCritical.iNesting = 0 := by
  simp only [osEnterCritical,calm] at same
  unfold osExitCritical
  split_ifs with h <;> simp [same,h]

theorem enterTask_calm (calm : k.iNesting = 0) {l : Kernel cfg} (task : l.currentTask = k.currentTask)
    (same : l.iNesting = k.enterTask.iNesting) : l.exitTask.iNesting = 0 := by
  unfold enterTask at same
  unfold exitTask
  rw [task]
  split_ifs at same ⊢
  · exact osEnterCritical_calm calm same
  · exact same.trans calm

@[simp] theorem setQueue_iNesting (q : OsQueue) : (k.setQueue d i q).iNesting = k.iNesting := by
  cases d <;> rfl

@[simp] theorem setQueue_currentTask (q : OsQueue) : (k.setQueue d i q).currentTask = k.currentTask := by
  cases d <;> rfl

@[simp] theorem changeContextUnnested_iNesting : k.changeContextUnnested.iNesting = k.iNesting := by
  unfold changeContextUnnested
  split_ifs <;> rfl

theorem queuePost_calm (calm : k.iNesting = 0) (bytes : List ℕ) :
    (k.queuePost d i bytes).1.iNesting = 0 := by
  simp only [queuePost]
  repeat' split
  all_goals exact enterNesting_calm calm (by simp [wakeHighest,unlist,setReady,setEvent])

theorem queuePost_notCreated (bytes : List ℕ) (o : Obj) :
    (k.queuePost d i bytes).1.notCreated o = k.notCreated o := by
  have same : ((k.queuePost d i bytes).1.event o).osEventAllocated =
      (k.event o).osEventAllocated := by
    simp only [queuePost]
    repeat' split
    all_goals simp [wakeHighest_allocated]
  simp only [notCreated,same]

/-! ### Sequences of operations -/

/-- The operations of the queue's user; a pend does not wait. -/
inductive QueueOp
  | post (pdata : ℕ → ℕ)
  | pend
  | clean

def QueueOp.perform (k : Kernel cfg) (i : ℕ) : QueueOp → Kernel cfg × Reply
  | .post pdata => k.osDQueuePost i pdata
  | .pend => k.osDQueuePend i cfg.noTimeout
  | .clean => k.osDQueueClean i

/-- The addresses of the queue's memory that an operation stores to or loads from. -/
def QueueOp.touches (k : Kernel cfg) (i : ℕ) : QueueOp → List ℕ
  | .post pdata =>
    if k.notCreated (.dqueue i) then []
    else (k.osDqueue i).stores ((List.range (k.osDqueue i).osqTSize).map pdata)
  | .pend =>
    if cfg.errorCheck ∧ 0 < k.iNesting ∨ k.notCreated (.dqueue i) ∨ (k.osDqueue i).osqEntries = 0 then []
    else (k.osDqueue i).loads
  | .clean => []

theorem clean_queue : (k.queueClean d i).1.queue d i = (k.queue d i).clean := by
  simp [queueClean]

/-- The memory of the queue with other bytes in it. -/
def fill (k : Kernel cfg) (d : QueueKind) (i : ℕ) (data : ℕ → ℕ) : Kernel cfg :=
  k.setQueue d i { k.queue d i with data := data }

@[simp] theorem fill_queue (data : ℕ → ℕ) : (k.fill d i data).queue d i = { k.queue d i with data := data } :=
  setQueue_queue _

@[simp] theorem fill_iNesting (data : ℕ → ℕ) : (k.fill d i data).iNesting = k.iNesting :=
  setQueue_iNesting _

@[simp] theorem fill_notCreated (data : ℕ → ℕ) (o : Obj) : (k.fill d i data).notCreated o = k.notCreated o := by
  simp [fill,notCreated]

/-- A post stores to the addresses of its record, if it has any effect. -/
theorem queuePost_footprint (touches bytes : List ℕ)
    (covers : k.notCreated (d.obj i) = false → touches = (k.queue d i).stores bytes) :
    Answer.Footprint (fun k : Kernel cfg => (k.queue d i).data) (fun k => k.fill d i)
      (fun k (_ : Unit) => k.queuePost d i bytes) (fun _ _ => touches) k () := by
  cases created : k.notCreated (d.obj i) with
  | true =>
    refine ⟨fun _ => ?_,fun _ => ?_⟩
    · simp [queuePost_error created]
    · rw [queuePost_error created,queuePost_error (by simpa using created)]
  | false =>
    obtain rfl := covers created
    by_cases room : (k.queue d i).osqEntries < (k.queue d i).osqLength
    · refine ⟨fun out => ?_,fun _ => ?_⟩
      · rw [(queuePost_room created room bytes).2]
        exact OsQueue.write_data room out
      · rw [(queuePost_room created room bytes).1,
          (queuePost_room (by simpa using created) (by simpa using room) bytes).1]
    · refine ⟨fun _ => ?_,fun _ => ?_⟩
      · simp [queuePost_full created room]
      · rw [queuePost_full created room,queuePost_full (by simpa using created) (by simpa using room)]

/-- A pend that does not wait loads its record, if there is one. -/
theorem queuePend_footprint (touches : List ℕ)
    (covers : k.notCreated (d.obj i) = false → 0 < (k.queue d i).osqEntries →
      ¬ (cfg.errorCheck ∧ 0 < k.iNesting) → touches = (k.queue d i).loads) :
    Answer.Footprint (fun k : Kernel cfg => (k.queue d i).data) (fun k => k.fill d i)
      (fun k (_ : Unit) => k.queuePend d i cfg.noTimeout) (fun _ _ => touches) k () := by
  have created (l : Kernel cfg) : l.osEnterCritical.notCreated (d.obj i) = l.notCreated (d.obj i) := rfl
  simp only [queuePend,created]
  refine ⟨fun _ => ?_,fun same => ?_⟩
  · split_ifs
    · rfl
    · simp
    · simp [OsQueue.read_data]
    · simp
  · simp only [fill_iNesting,fill_notCreated,osEnterCritical_queue,fill_queue]
    split_ifs with nested absent some_
    · rfl
    · rfl
    · obtain rfl := covers (by simpa using absent) some_ nested
      exact congrArg (Reply.ret readBufferOk) (OsQueue.read_congr same)
    · rfl

/-- What an operation touches is what `touches` says. -/
theorem QueueOp.footprint (op : QueueOp) :
    Answer.Footprint (fun k : Kernel cfg => (k.osDqueue i).data) (fun k => k.fill .dynamic i)
      (fun k op => op.perform k i) (fun k op => op.touches k i) k op := by
  have present (h : k.notCreated (QueueKind.dynamic.obj i) = false) : ¬ k.notCreated (.dqueue i) = true := by
    simpa [QueueKind.obj] using h
  cases op with
  | post pdata =>
    have post := queuePost_footprint (k := k) (d := .dynamic) (i := i)
      ((QueueOp.post pdata).touches k i) ((List.range (k.osDqueue i).osqTSize).map pdata)
      fun created => if_neg (present created)
    refine ⟨post.stores,fun {data} same => ?_⟩
    have filled : (k.fill .dynamic i data).osDqueue i = { k.osDqueue i with data := data } :=
      fill_queue (d := .dynamic) data
    change (queuePost _ _ _ ((List.range ((k.fill .dynamic i data).osDqueue i).osqTSize).map pdata)).2 = _
    rw [filled]
    exact post.loads same
  | pend =>
    have pend := queuePend_footprint (k := k) (d := .dynamic) (i := i) (QueueOp.pend.touches k i)
      fun created some_ calm => if_neg (not_or.mpr ⟨calm,not_or.mpr ⟨present created,Nat.ne_of_gt some_⟩⟩)
    exact ⟨pend.stores,pend.loads⟩
  | clean =>
    have cleaned : (k.osDQueueClean i).1.osDqueue i = (k.osDqueue i).clean := clean_queue (d := .dynamic)
    exact ⟨fun _ => congrFun (congrArg OsQueue.data cleaned) _,fun _ => rfl⟩

def replies (i : ℕ) : Kernel cfg → List QueueOp → List Reply
  | _,[] => []
  | k,op::rest => (op.perform k i).2 :: replies i (op.perform k i).1 rest

def touched (i : ℕ) : Kernel cfg → List QueueOp → List ℕ
  | _,[] => []
  | k,op::rest => op.touches k i ++ touched i (op.perform k i).1 rest

end Kernel

/-! ### The bounded queue of records -/

namespace Fifo
open Kernel (QueueOp)

/-- One operation on a queue of at most `n` records of `size` bytes. -/
def perform (n size : ℕ) (l : List (List ℕ)) : QueueOp → List (List ℕ) × Reply
  | .post pdata =>
    if l.length < n then (l++[(List.range size).map pdata],.ret writeBufferOk [])
    else (l,.ret bufferUnderrun [])
  | .pend =>
    match l with
    | [] => ([],.ret exitByNoEntryAvailable [])
    | x::rest => (rest,.ret readBufferOk x)
  | .clean => ([],.ret cleanBufferOk [])

def replies (n size : ℕ) : List (List ℕ) → List QueueOp → List Reply
  | _,[] => []
  | l,op::rest => (perform n size l op).2 :: replies n size (perform n size l op).1 rest

end Fifo

namespace Kernel
variable {cfg : Config} {k : Kernel cfg} {i : ℕ}

/-- Task code uses the dynamic queue, which has room for `n` records and holds those of the list. -/
structure Serves (i n size : ℕ) (k : Kernel cfg) (l : List (List ℕ)) : Prop where
  calm : k.iNesting = 0
  created : k.notCreated (.dqueue i) = false
  length : (k.osDqueue i).osqLength = n
  contains : (k.osDqueue i).Contains n size l

variable {n size : ℕ} {l : List (List ℕ)}

@[simp] theorem exitNesting_notCreated (o : Obj) : k.exitNesting.notCreated o = k.notCreated o := by
  simp [notCreated]

theorem Serves.post (h : k.Serves i n size l) (pdata : ℕ → ℕ) :
    (k.osDQueuePost i pdata).2 = (Fifo.perform n size l (.post pdata)).2 ∧
      (k.osDQueuePost i pdata).1.Serves i n size (Fifo.perform n size l (.post pdata)).1 ∧
      ((k.osDQueuePost i pdata).1.osDqueue i).osqStart = (k.osDqueue i).osqStart := by
  have size_ : (k.osDqueue i).osqTSize = size := h.contains.choose_spec.1.tSize
  have counted := h.contains.entries
  have created : k.notCreated (QueueKind.dynamic.obj i) = false := h.created
  simp only [osDQueuePost,size_,Fifo.perform]
  generalize bytes_ : (List.range size).map pdata = bytes
  have length : bytes.length = size := by simp [← bytes_]
  by_cases room : l.length < n
  · have room' : (k.queue .dynamic i).osqEntries < (k.queue .dynamic i).osqLength := by
      simp only [queue,h.length]
      omega
    obtain ⟨reply,ring⟩ := queuePost_room created room' bytes
    have ring' : (k.queuePost .dynamic i bytes).1.osDqueue i =
        (k.osDqueue i).turnIn.writeBytes bytes := ring
    rw [if_pos room]
    refine ⟨reply,⟨queuePost_calm h.calm bytes,?_,?_,?_⟩,?_⟩
    · rw [queuePost_notCreated]
      exact h.created
    · rw [ring',OsQueue.writeBytes_eq]
      exact h.length
    · rw [ring']
      exact h.contains.write room length
    · rw [ring',OsQueue.writeBytes_eq]
      rfl
  · have full : ¬ (k.queue .dynamic i).osqEntries < (k.queue .dynamic i).osqLength := by
      simp only [queue,h.length]
      omega
    have same : (k.enterNesting.exitNesting).osDqueue i = k.osDqueue i :=
      (exitNesting_queue (d := .dynamic)).trans enterNesting_queue
    rw [queuePost_full created full,if_neg room]
    refine ⟨rfl,⟨enterNesting_calm h.calm rfl,?_,?_,?_⟩,?_⟩
    · simpa using h.created
    · rw [same]
      exact h.length
    · rw [same]
      exact h.contains
    · rw [same]

/-- The ring changes and nothing else that matters. -/
theorem Serves.ring (h : k.Serves i n size l) {k' : Kernel cfg} {q : OsQueue} {l' : List (List ℕ)}
    (ring : k'.osDqueue i = q) (calm : k'.iNesting = 0) (event : k'.event = k.event)
    (length : q.osqLength = (k.osDqueue i).osqLength) (contains : q.Contains n size l') :
    k'.Serves i n size l' where
  calm := calm
  created := by
    have := h.created
    simpa only [notCreated,event] using this
  length := by rw [ring,length,h.length]
  contains := ring ▸ contains

theorem Serves.pend (h : k.Serves i n size l) :
    (k.osDQueuePend i cfg.noTimeout).2 = (Fifo.perform n size l .pend).2 ∧
      (k.osDQueuePend i cfg.noTimeout).1.Serves i n size (Fifo.perform n size l .pend).1 ∧
      ((k.osDQueuePend i cfg.noTimeout).1.osDqueue i).osqStart = (k.osDqueue i).osqStart := by
  have counted := h.contains.entries
  have created : k.notCreated (QueueKind.dynamic.obj i) = false := h.created
  cases l with
  | nil =>
    have none_ : (k.queue .dynamic i).osqEntries = 0 := counted.1
    have same : k.osEnterCritical.osExitCritical.osDqueue i = k.osDqueue i := rfl
    rw [osDQueuePend,queuePend_none h.calm created none_]
    exact ⟨rfl,h.ring same (osEnterCritical_calm h.calm rfl) rfl rfl h.contains,congrArg _ same⟩
  | cons x rest =>
    rw [List.length_cons] at counted
    have some_ : 0 < (k.queue .dynamic i).osqEntries := by
      simp only [queue]
      omega
    obtain ⟨first,next⟩ := h.contains.read
    have ring : ((k.osEnterCritical.setQueue .dynamic i (k.osDqueue i).read.1).osExitCritical).osDqueue
        i = (k.osDqueue i).read.1 := (osExitCritical_queue (d := .dynamic)).trans (setQueue_queue _)
    have fields := OsQueue.read_eq (q := k.osDqueue i) (by omega)
    rw [osDQueuePend,queuePend_some h.calm created some_]
    refine ⟨by simp [Fifo.perform,queue,first],?_,?_⟩
    · refine h.ring ring (osEnterCritical_calm h.calm (by simp)) ?_ ?_ next
      · simp
      · rw [fields]
    · rw [show (k.queue .dynamic i) = k.osDqueue i from rfl,ring,fields]

theorem Serves.clean (h : k.Serves i n size l) :
    (k.osDQueueClean i).2 = .ret cleanBufferOk [] ∧ (k.osDQueueClean i).1.Serves i n size [] ∧
      ((k.osDQueueClean i).1.osDqueue i).osqStart = (k.osDqueue i).osqStart := by
  have ring : (k.osDQueueClean i).1.osDqueue i = (k.osDqueue i).clean := clean_queue (d := .dynamic)
  refine ⟨rfl,h.ring ring (enterNesting_calm h.calm (by simp)) ?_ rfl h.contains.clean,by rw [ring]; rfl⟩
  simp [osDQueueClean,queueClean]

/-- Each operation does what the bounded queue does, and it stays in the block. -/
theorem Serves.perform (h : k.Serves i n size l) (pos : 0 < n) (op : QueueOp) :
    (op.perform k i).2 = (Fifo.perform n size l op).2 ∧
      (op.perform k i).1.Serves i n size (Fifo.perform n size l op).1 ∧
      ((op.perform k i).1.osDqueue i).osqStart = (k.osDqueue i).osqStart ∧
      ∀ x ∈ op.touches k i, (k.osDqueue i).InBlock n size x := by
  obtain ⟨b,refines,holds⟩ := h.contains
  cases op with
  | post pdata =>
    obtain ⟨reply,next,start⟩ := h.post pdata
    refine ⟨reply,next,start,fun x hx => ?_⟩
    simp only [QueueOp.touches,h.created,Bool.false_eq_true,if_false] at hx
    exact refines.stores holds.back_le pos (by simp [refines.tSize]) hx
  | pend =>
    obtain ⟨reply,next,start⟩ := h.pend
    refine ⟨reply,next,start,fun x hx => ?_⟩
    simp only [QueueOp.touches] at hx
    split_ifs at hx
    · simp at hx
    · exact refines.loads holds.front_le pos hx
  | clean =>
    obtain ⟨reply,next,start⟩ := h.clean
    exact ⟨reply,next,start,by simp [QueueOp.touches]⟩

/-- The bounded queue answers for the dynamic one, in every sequence of operations. -/
theorem Serves.run (h : k.Serves i n size l) (pos : 0 < n) (ops : List QueueOp) :
    replies i k ops = Fifo.replies n size l ops ∧
      ∀ x ∈ touched i k ops, (k.osDqueue i).InBlock n size x := by
  induction ops generalizing k l with
  | nil => exact ⟨rfl,by simp [touched]⟩
  | cons op rest ih =>
    obtain ⟨reply,next,start,inside⟩ := h.perform pos op
    obtain ⟨later,within⟩ := ih next
    refine ⟨?_,fun x hx => ?_⟩
    · rw [replies,Fifo.replies,reply,later]
    · rcases List.mem_append.mp hx with hx | hx
      · exact inside x hx
      · have := within x hx
        rwa [OsQueue.InBlock,start] at this

/-! ### Creation -/

theorem osDQueueCreate_handler {a : Alloc} {queueLength typeSize : ℕ}
    (reply : (k.osDQueueCreate a queueLength typeSize).2 = .ret allocEventOk [i]) : a.handler = some i := by
  simp only [osDQueueCreate] at reply
  cases handler : a.handler with
  | none =>
    simp only [handler] at reply
    split_ifs at reply <;> simp [noAvailableMemory,invalidParameters,allocEventOk] at reply
  | some j =>
    cases start : a.start with
    | none =>
      simp only [handler,start] at reply
      split_ifs at reply <;> simp [noAvailableMemory,invalidParameters,allocEventOk] at reply
    | some x =>
      simp only [handler,start] at reply
      split_ifs at reply
      · simp at reply
      · simpa using reply
      · simp [noAvailableEvent,allocEventOk] at reply
      · simp [invalidParameters,allocEventOk] at reply

/-- A created queue is empty, and its end is where the truncated size says. -/
theorem osDQueueCreate_ok {a : Alloc} {queueLength typeSize : ℕ}
    (reply : (k.osDQueueCreate a queueLength typeSize).2 = .ret allocEventOk [i]) :
    k.iNesting = 0 ∧ 0 < queueLength ∧ 0 < typeSize ∧ ∃ start, a.start = some start ∧
      (k.osDQueueCreate a queueLength typeSize).1.osDqueue i =
        ⟨start,start+queueLength*typeSize%65536,start,start,typeSize%65536,queueLength,0,
          (k.osDqueue i).data⟩ ∧
      (k.osDQueueCreate a queueLength typeSize).1.iNesting = 0 ∧
      (k.osDQueueCreate a queueLength typeSize).1.notCreated (.dqueue i) = k.notCreated (.dqueue i) := by
  have calm : k.iNesting = 0 := by
    by_contra nested
    simp [osDQueueCreate,Nat.pos_of_ne_zero nested,irqPendErr,allocEventOk] at reply
  have sizes : 0 < queueLength ∧ 0 < typeSize := by
    by_contra h
    simp [osDQueueCreate,calm,h,invalidParameters,allocEventOk] at reply
  obtain ⟨start,block⟩ : ∃ start, a.start = some start := by
    cases hs : a.start with
    | none => simp [osDQueueCreate,calm,sizes,hs,noAvailableMemory,allocEventOk] at reply
    | some start => exact ⟨start,rfl⟩
  have event : a.event = true := by
    by_contra h
    cases hh : a.handler <;> simp [osDQueueCreate,calm,sizes,block,hh,h,noAvailableMemory,
      noAvailableEvent,allocEventOk] at reply
  have handler := osDQueueCreate_handler reply
  refine ⟨calm,sizes.1,sizes.2,start,block,?_⟩
  simp only [osDQueueCreate,calm,lt_irrefl,sizes,block,event,handler,if_true,if_false,and_self]
  have task : k.enterTask.currentTask = k.currentTask := by
    unfold enterTask
    split_ifs <;> rfl
  refine ⟨?_,enterTask_calm calm (by simp [setEvent,task]) (by simp [setEvent]),?_⟩
  · have data : k.enterTask.osDqueue i = k.osDqueue i := by
      unfold enterTask
      split_ifs <;> rfl
    have ring : ∀ l : Kernel cfg, l.exitTask.osDqueue i = l.osDqueue i := fun l => by
      unfold exitTask
      split_ifs <;> rfl
    rw [ring]
    simp [setEvent,setQueue,queue,data]
  · simp [notCreated,setEvent]

/-! ### What every sequence of operations gives -/

/-- From here on the queue behaves like the bounded queue, in a block of `bytes` bytes. -/
def Agrees (i start bytes n size : ℕ) (k : Kernel cfg) (l : List (List ℕ)) : Prop :=
  ∀ ops, replies i k ops = Fifo.replies n size l ops ∧
    ∀ x ∈ touched i k ops, start ≤ x ∧ x < start+bytes

variable {start bytes : ℕ}

theorem Agrees.reply (h : Agrees i start bytes n size k l) (op : QueueOp) :
    (op.perform k i).2 = (Fifo.perform n size l op).2 :=
  (List.cons.inj (h [op]).1).1

theorem Agrees.inside (h : Agrees i start bytes n size k l) (op : QueueOp) :
    ∀ x ∈ op.touches k i, start ≤ x ∧ x < start+bytes := fun x hx =>
  (h [op]).2 x (List.mem_append_left _ hx)

theorem Agrees.step (h : Agrees i start bytes n size k l) (op : QueueOp) :
    Agrees i start bytes n size (op.perform k i).1 (Fifo.perform n size l op).1 := fun ops =>
  ⟨(List.cons.inj (h (op :: ops)).1).2,fun x hx => (h (op :: ops)).2 x (List.mem_append_right _ hx)⟩

/-- A queue that behaves like the bounded one has been filled with `r` records of zeros. -/
structure Filled (i start bytes n size r : ℕ) (k : Kernel cfg) : Prop where
  agrees : Agrees i start bytes n size k (List.replicate r (List.replicate size 0))
  calm : k.iNesting = 0
  created : k.notCreated (.dqueue i) = false
  ring : k.osDqueue i = { k.osDqueue i with
    osqStart := start, osqEnd := start+bytes, osqIn := start+r*size, osqOut := start, osqTSize := size
    osqLength := n, osqEntries := r }

variable {r : ℕ}

theorem Filled.room (h : Filled i start bytes n size r k) :
    (k.osDqueue i).osqEntries < (k.osDqueue i).osqLength ↔ r < n := by
  rw [h.ring]

/-- A post while there is room. -/
theorem Filled.post (h : Filled i start bytes n size r k) (room : r < n) (pdata : ℕ → ℕ) :
    (k.osDQueuePost i pdata).1.iNesting = 0 ∧
      (k.osDQueuePost i pdata).1.notCreated (.dqueue i) = false ∧
      (k.osDQueuePost i pdata).1.osDqueue i =
        (k.osDqueue i).turnIn.writeBytes ((List.range size).map pdata) := by
  have created : k.notCreated (QueueKind.dynamic.obj i) = false := h.created
  have tSize : (k.osDqueue i).osqTSize = size := by rw [h.ring]
  rw [osDQueuePost,tSize]
  exact ⟨queuePost_calm h.calm _,(queuePost_notCreated _ _).trans h.created,
    (queuePost_room created (h.room.mpr room) _).2⟩

/-- The next record of zeros goes behind the last one, where there is room in the block. -/
theorem Filled.next (h : Filled i start bytes n size r k) (room : r < n) (pos : r*size ≠ bytes) :
    Filled i start bytes n size (r+1) (k.osDQueuePost i fun _ => 0).1 := by
  obtain ⟨calm,created,ring⟩ := h.post room fun _ => 0
  refine ⟨?_,calm,created,?_⟩
  · have agrees := h.agrees.step (.post fun _ => 0)
    have contents : (Fifo.perform n size (List.replicate r (List.replicate size 0))
        (.post fun _ => 0)).1 = List.replicate (r+1) (List.replicate size 0) := by
      simp [Fifo.perform,room,List.replicate_succ']
    rwa [contents] at agrees
  · rw [ring,OsQueue.writeBytes_eq,OsQueue.turnIn,h.ring]
    have inner : ¬ start+r*size = start+bytes := by omega
    simp only [inner,if_false,List.length_map,List.length_range,Nat.add_mul,Nat.one_mul,Nat.add_assoc]

/-- The addresses of a post while there is room. -/
theorem Filled.stores (h : Filled i start bytes n size r k) (room : r < n) (pdata : ℕ → ℕ) :
    (QueueOp.post pdata).touches k i =
      List.range' (if r*size = bytes then start else start+r*size) size := by
  simp only [QueueOp.touches,h.created,Bool.false_eq_true,if_false,OsQueue.stores,h.room,room,if_true,
    OsQueue.storedAt_eq,OsQueue.turnIn]
  rw [h.ring]
  simp

/-- A post at the end of the block overwrites the first record, which is the next to be read. -/
theorem Filled.overwrites (h : Filled i start bytes n size r k) (pos : 0 < size) (room : r < n)
    (turned : r*size = bytes) (some_ : 0 < bytes) :
    ((k.osDQueuePost i fun _ => 1).1.osDqueue i).read.2[0]? = some 1 := by
  obtain ⟨_,_,ring⟩ := h.post room fun _ => 1
  have cursor : (k.osDqueue i).turnIn.osqIn = start := by
    rw [OsQueue.turnIn,h.ring]
    simp [turned]
  have first := OsQueue.writeBytes_in (k.osDqueue i).turnIn ((List.range size).map fun _ => 1) (m := 0)
    (by simpa using pos)
  rw [cursor] at first
  have fields := OsQueue.writeBytes_eq (k.osDqueue i).turnIn ((List.range size).map fun _ => 1)
  have entries : ((k.osDQueuePost i fun _ => 1).1.osDqueue i).osqEntries = r+1 := by
    rw [ring,fields,OsQueue.turnIn,h.ring]
  have tSize : ((k.osDQueuePost i fun _ => 1).1.osDqueue i).osqTSize = size := by
    rw [ring,fields,OsQueue.turnIn,h.ring]
  have output : ((k.osDQueuePost i fun _ => 1).1.osDqueue i).turnOut.osqOut = start := by
    rw [OsQueue.turnOut,ring,fields,OsQueue.turnIn,h.ring]
    simp [some_.ne']
  rw [OsQueue.read_eq (by omega),output,tSize,ring]
  simpa [List.getElem?_range pos] using first

/-- A block that is too small is left behind, or its first record is overwritten. -/
theorem Filled.overflows (h : Filled i start bytes n size r k) (pos : 0 < size) (room : r < n)
    (fits : r*size ≤ bytes) (full : bytes < r*size+size) : False := by
  have inside := h.agrees.inside (.post fun _ => 1)
  rw [h.stores room] at inside
  by_cases turned : r*size = bytes
  · rw [if_pos turned] at inside
    cases r with
    | zero =>
      have := inside start (List.mem_range'_1.mpr (by omega))
      omega
    | succ r =>
      obtain ⟨calm,created,ring⟩ := h.post room fun _ => 1
      have some_ : 0 < bytes := turned ▸ Nat.mul_pos r.succ_pos pos
      have top := h.overwrites pos room turned some_
      have posted : (Fifo.perform n size (List.replicate (r+1) (List.replicate size 0))
          (.post fun _ => 1)).1 = List.replicate size 0 ::
            (List.replicate r (List.replicate size 0)++[List.replicate size 1]) := by
        simp [Fifo.perform,room,List.replicate_succ]
      have agrees := h.agrees.step (.post fun _ => 1)
      rw [posted] at agrees
      have reads := queuePend_some (d := .dynamic) (i := i) calm created
        (by rw [queue,ring,OsQueue.writeBytes_eq]; exact Nat.succ_pos _) cfg.noTimeout
      have read : ((k.osDQueuePost i fun _ => 1).1.osDqueue i).read.2 = List.replicate size 0 :=
        (Reply.ret.inj ((congrArg Prod.snd reads).symm.trans (agrees.reply .pend))).2
      simp [read,pos] at top
  · rw [if_neg turned] at inside
    have := inside (start+bytes) (List.mem_range'_1.mpr (by omega))
    omega

/-- As many records of zeros as the block has room for. -/
theorem Filled.fill (h : Filled i start bytes n size 0 k) (pos : 0 < size) (small : bytes < n*size)
    (hr : r*size ≤ bytes) : ∃ k' : Kernel cfg, Filled i start bytes n size r k' := by
  induction r with
  | zero => exact ⟨k,h⟩
  | succ r ih =>
    rw [Nat.add_mul,Nat.one_mul] at hr
    obtain ⟨k',filled⟩ := ih (by omega)
    have room : r < n := by
      by_contra hn
      have := Nat.mul_le_mul_right size (Nat.not_lt.mp hn)
      omega
    exact ⟨_,filled.next room (by omega)⟩

/-- The first record comes out with its size. -/
theorem Agrees.tSize (h : Agrees i start bytes n size k []) (calm : k.iNesting = 0)
    (created : k.notCreated (.dqueue i) = false) (some_ : 0 < n) (length : (k.osDqueue i).osqLength = n)
    (entries : (k.osDqueue i).osqEntries = 0) : (k.osDqueue i).osqTSize = size := by
  have room : (k.queue .dynamic i).osqEntries < (k.queue .dynamic i).osqLength := by
    simpa only [queue,length,entries] using some_
  have agrees := h.step (.post fun _ => 0)
  simp only [QueueOp.perform,osDQueuePost,Fifo.perform,List.length_nil,some_,if_true,List.nil_append]
    at agrees
  generalize bytes_ : (List.range (k.osDqueue i).osqTSize).map (fun _ => 0) = record at agrees
  have ring := (queuePost_room (d := .dynamic) (i := i) created room record).2
  have fields := ring.trans (OsQueue.writeBytes_eq _ _)
  have reads := queuePend_some (d := .dynamic) (i := i) (queuePost_calm (d := .dynamic) calm record)
    ((queuePost_notCreated _ _).trans created) (by rw [fields]; exact Nat.succ_pos _) cfg.noTimeout
  have read := (Reply.ret.inj ((congrArg Prod.snd reads).symm.trans (agrees.reply .pend))).2
  have lengths := congrArg List.length read
  rw [OsQueue.length_read,fields] at lengths
  simpa [OsQueue.turnIn,queue] using lengths

/-- A created queue, of any sizes, that behaves like a bounded queue in its block. -/
def Faithful (k : Kernel cfg) (a : Alloc) (queueLength typeSize i : ℕ) : Prop :=
  ∀ start ∈ a.start, Agrees i start (queueLength*typeSize%65536) queueLength typeSize
    (k.osDQueueCreate a queueLength typeSize).1 []

/-- A dynamic queue that has been created is a queue of `queueLength` records of `typeSize` bytes, in
its block, exactly when their product fits sixteen bits; where errors are checked, the heap must also
have given it a set OSEventAllocated. -/
theorem faithful_iff {a : Alloc} {queueLength typeSize : ℕ}
    (reply : (k.osDQueueCreate a queueLength typeSize).2 = .ret allocEventOk [i]) :
    k.Faithful a queueLength typeSize i ↔ queueLength*typeSize < 65536 ∧
      (cfg.errorCheck = true → (k.event (.dqueue i)).osEventAllocated = 1) := by
  obtain ⟨_,some_,pos,start,block,ring,calm,created⟩ := osDQueueCreate_ok reply
  have allocated : (cfg.errorCheck = true → (k.event (.dqueue i)).osEventAllocated = 1) ↔
      k.notCreated (.dqueue i) = false := by
    simp [notCreated]
  rw [allocated,Faithful,block]
  simp only [Option.mem_some_iff,forall_eq']
  generalize hk : (k.osDQueueCreate a queueLength typeSize).1 = k' at ring calm created ⊢
  constructor
  · intro agrees
    have exists_ : k.notCreated (.dqueue i) = false := by
      by_contra absent
      have absent' : k'.notCreated (QueueKind.dynamic.obj i) = true :=
        created.trans (by simpa using absent)
      have first := Agrees.reply agrees (.post fun _ => 0)
      simp [QueueOp.perform,osDQueuePost,queuePost_error absent',Fifo.perform,some_,errEventNoCreated,
        writeBufferOk] at first
    refine ⟨?_,exists_⟩
    by_contra large
    have tSize := Agrees.tSize agrees calm (created.trans exists_) some_ (by rw [ring]) (by rw [ring])
    have typeSize_eq : typeSize%65536 = typeSize := by rwa [ring] at tSize
    rw [typeSize_eq] at ring
    have filled : Filled i start (queueLength*typeSize%65536) queueLength typeSize 0 k' :=
      ⟨agrees,calm,created.trans exists_,by rw [ring]; simp⟩
    have less : queueLength*typeSize%65536 < queueLength*typeSize := by
      have := Nat.mod_lt (queueLength*typeSize) (y := 65536) (by norm_num)
      omega
    have fits := Nat.div_mul_le_self (queueLength*typeSize%65536) typeSize
    obtain ⟨k'',full⟩ := filled.fill pos less fits
    exact full.overflows pos (Nat.lt_of_mul_lt_mul_right (fits.trans_lt less)) fits
      (Nat.lt_div_mul_add pos)
  · rintro ⟨small,exists_⟩
    have serves : k'.Serves i queueLength typeSize [] := by
      refine ⟨calm,created.trans exists_,by rw [ring],?_⟩
      have typeSize_lt : typeSize < 65536 := (Nat.le_mul_of_pos_left typeSize some_).trans_lt small
      rw [ring,Nat.mod_eq_of_lt small,Nat.mod_eq_of_lt typeSize_lt]
      exact OsQueue.contains_nil pos rfl rfl rfl rfl rfl
    intro ops
    obtain ⟨same,inside⟩ := serves.run some_ ops
    refine ⟨same,fun x hx => ?_⟩
    have := inside x hx
    rwa [OsQueue.InBlock,ring,← Nat.mod_eq_of_lt small] at this

/-- Two records of three bytes. -/
theorem faithful_small : (brtosInit .port).Faithful ⟨some 0,some 0,true⟩ 2 3 0 :=
  (faithful_iff (by decide)).mpr ⟨by decide,by decide⟩

/-- 32769 records of two bytes get a block of two bytes: the second record overwrites the first. -/
theorem faithful_fails : ¬ (brtosInit .simulator).Faithful ⟨some 0,some 0,true⟩ 32769 2 0 :=
  fun h => absurd (h 0 rfl [.post fun _ => 1,.post fun _ => 2,.pend]).1 (by decide +kernel)

end Kernel
end Brtos
