import Brtos.Dynamic
import Brtos.Woken

/-! The elements of a queue: as long as no task that a post has woken finds the ring empty, each
element that a pend returns is the oldest one that has been accepted and not yet returned. -/
namespace Brtos
open Kernel (QueueKind)

/-- What a call that has returned has done to the elements of a queue. -/
inductive Effect
  | accepted (x : List ℕ)
  | delivered (x : List ℕ)
  | cleaned
  deriving DecidableEq, Repr

/-- The effect of a call on a queue whose elements have `size` bytes. -/
def Record.effect (d : QueueKind) (i size : ℕ) (r : Record) : Option Effect :=
  match r.call with
  | .queuePost j b | .queueWrite j b =>
    if d = .static ∧ j = i ∧ r.code = writeBufferOk then some (.accepted [b]) else none
  | .dqueuePost j pdata =>
    if d = .dynamic ∧ j = i ∧ r.code = writeBufferOk then
      some (.accepted ((List.range size).map fun n => pdata.getD n 0))
    else none
  | .queueRead j =>
    if d = .static ∧ j = i ∧ r.code = readBufferOk then some (.delivered r.data) else none
  | .queuePend e j _ => if e = d ∧ j = i ∧ r.code = readBufferOk then some (.delivered r.data) else none
  | .queueClean e j => if e = d ∧ j = i ∧ r.code = cleanBufferOk then some .cleaned else none
  | _ => none

/-- A dynamic queue is deleted, or its memory is made a queue again. -/
def Record.remade (d : QueueKind) (i : ℕ) (r : Record) : Bool :=
  match r.call with
  | .dqueueDelete j => d == .dynamic && j == i
  | .dqueueCreate a _ _ => d == .dynamic && a.handler == some i
  | _ => false

theorem Record.effect_far {d : QueueKind} {i size : ℕ} {r : Record}
    (h : r.call.target ≠ some (d.obj i)) : r.effect d i size = none := by
  unfold effect
  split
  case h_7 => rfl
  all_goals
    refine if_neg fun hj => h ?_
    rename_i e
    rw [e]
    obtain ⟨rfl,rfl,_⟩ := hj
    rfl

namespace Fifo

/-- The elements after a call, none where it has delivered something else than the oldest one. -/
def apply (l : List (List ℕ)) : Option Effect → Option (List (List ℕ))
  | none => some l
  | some (.accepted x) => some (l++[x])
  | some (.delivered x) => if l.head? = some x then some l.tail else none
  | some .cleaned => some []

/-- The elements after all calls, the last one first. -/
def replay (d : QueueKind) (i size : ℕ) : List Record → Option (List (List ℕ))
  | [] => some []
  | r::older => (replay d i size older).bind fun l => apply l (r.effect d i size)

theorem replay_plain {d : QueueKind} {i size : ℕ} {recent : List Record} (l : List Record)
    (h : ∀ r ∈ l, r.effect d i size = none) : replay d i size (l++recent) = replay d i size recent := by
  induction l with
  | nil => rfl
  | cons r l ih =>
    have later := ih fun x hx => h x (List.mem_cons_of_mem _ hx)
    simp [replay,h r List.mem_cons_self,apply,later]

end Fifo

namespace OsQueue

/-- What a service does to the ring, with its effect on the elements. -/
inductive Ringed (q : OsQueue) : OsQueue → Option Effect → Prop
  | same : Ringed q q none
  | write {bytes : List ℕ} (room : q.osqEntries < q.osqLength) (length : bytes.length = q.osqTSize) :
      Ringed q (q.turnIn.writeBytes bytes) (some (.accepted bytes))
  | read (some_ : q.osqEntries ≠ 0) : Ringed q q.read.1 (some (.delivered q.read.2))
  | clean : Ringed q q.clean (some .cleaned)

/-- The ring follows the elements. -/
theorem Ringed.contains {q q' : OsQueue} {e : Option Effect} {n size : ℕ} {l : List (List ℕ)}
    (h : q.Ringed q' e) (length : q.osqLength = n) (contains : q.Contains n size l) :
    q'.osqLength = n ∧ ∃ l', Fifo.apply l e = some l' ∧ q'.Contains n size l' := by
  have counted := contains.entries
  cases h with
  | same => exact ⟨length,l,rfl,contains⟩
  | @write bytes room sized =>
    have tSize : q.osqTSize = size := contains.choose_spec.1.tSize
    refine ⟨?_,_,rfl,contains.write (by omega) (sized.trans tSize)⟩
    rw [writeBytes_eq]
    exact length
  | read some_ =>
    cases l with
    | nil => simp [counted.1] at some_
    | cons x rest =>
      obtain ⟨first,next⟩ := contains.read
      refine ⟨?_,rest,by simp [Fifo.apply,first],next⟩
      rw [read_eq some_]
      exact length
  | clean => exact ⟨length,[],rfl,contains.clean⟩

end OsQueue

namespace System
variable {cfg : Config} (s : System cfg)

/-- The queue was created for `n` elements of `size` bytes; `recent` are the calls that have returned
since. -/
structure Queued (d : QueueKind) (i n size : ℕ) (recent : List Record) : Prop where
  created : s.Created (d.obj i)
  length : (s.queue d i).osqLength = n
  single : d = .static → size = 1
  contents : ∃ l, Fifo.replay d i size recent = some l ∧ (s.queue d i).Contains n size l

variable {s} {t : System cfg} {d : QueueKind} {i n size : ℕ} {recent : List Record}

theorem Queued.tSize (h : s.Queued d i n size recent) : (s.queue d i).osqTSize = size :=
  h.contents.choose_spec.2.choose_spec.1.tSize

/-- Nothing happens to the ring. -/
theorem Queued.keep (h : s.Queued d i n size recent) {l : List Record} (created : t.Created (d.obj i))
    (ring : t.queue d i = s.queue d i) (plain : ∀ r ∈ l, r.effect d i size = none) :
    t.Queued d i n size (l++recent) where
  created := created
  length := ring ▸ h.length
  single := h.single
  contents := by
    rw [Fifo.replay_plain l plain,ring]
    exact h.contents

/-- A call that returns does to the ring what its record says. -/
theorem Queued.next (h : s.Queued d i n size recent) {r : Record} (created : t.Created (d.obj i))
    (ringed : (s.queue d i).Ringed (t.queue d i) (r.effect d i size)) :
    t.Queued d i n size (r :: recent) := by
  obtain ⟨l,replayed,contains⟩ := h.contents
  obtain ⟨length,l',applied,contains'⟩ := ringed.contains h.length contains
  exact ⟨created,length,h.single,l',by simp [Fifo.replay,replayed,applied],contains'⟩

/-! ### The services -/

theorem obj_injective {e : QueueKind} {j : ℕ} (h : d.obj i = e.obj j) : e = d ∧ j = i := by
  cases d <;> cases e <;> simp_all [QueueKind.obj]

/-- A service has done to the ring what it has returned. -/
structure Rings (k : Kernel cfg) (d : QueueKind) (i size : ℕ) (c : Call) (out : Kernel cfg × Reply) :
    Prop where
  allocated : (out.1.event (d.obj i)).osEventAllocated = (k.event (d.obj i)).osEventAllocated
  sleeps {p : Point} : out.2 = .sleep p → out.1.queue d i = k.queue d i
  returns {r : Record} : out.2 = .ret r.code r.data → r.call = c →
    (k.queue d i).Ringed (out.1.queue d i) (r.effect d i size)

variable {k : Kernel cfg} {c : Call}

/-- A call that fails leaves the ring alone. -/
theorem Rings.fails {l : Kernel cfg} {code : ℕ} (event : l.event = k.event)
    (ring : l.queue d i = k.queue d i) (plain : ∀ r : Record, r.call = c → r.code = code →
      r.effect d i size = none) : Rings k d i size c (l,.ret code []) where
  allocated := by rw [event]
  sleeps h := by simp at h
  returns {r} h hc := by
    rw [plain r hc (Reply.ret.inj h).1.symm]
    exact ring ▸ .same

/-- OSQueuePost and OSDQueuePost. -/
theorem queuePost_rings {bytes : List ℕ} (length : bytes.length = (k.queue d i).osqTSize)
    (effect : ∀ r : Record, r.call = c → r.effect d i size =
      if r.code = writeBufferOk then some (.accepted bytes) else none) :
    Rings k d i size c (k.queuePost d i bytes) := by
  by_cases absent : k.notCreated (d.obj i) = true
  · rw [Kernel.queuePost_error absent]
    refine Rings.fails (by simp) (by simp) fun r hc code => ?_
    simp [effect r hc,code,errEventNoCreated,writeBufferOk]
  · have created : k.notCreated (d.obj i) = false := by simpa using absent
    by_cases room : (k.queue d i).osqEntries < (k.queue d i).osqLength
    · obtain ⟨reply,ring⟩ := Kernel.queuePost_room created room bytes
      refine ⟨?_,fun h => ?_,fun {r} h hc => ?_⟩
      · simp only [Kernel.queuePost]
        repeat' split
        all_goals simp [Kernel.wakeHighest_allocated]
      · simp [reply] at h
      · rw [reply] at h
        rw [effect r hc,if_pos (Reply.ret.inj h).1.symm,ring]
        exact .write room length
    · rw [Kernel.queuePost_full created room]
      refine Rings.fails (by simp) (by simp) fun r hc code => ?_
      simp [effect r hc,code,bufferUnderrun,writeBufferOk]

/-- OSQueuePend and OSDQueuePend up to ChangeContext. -/
theorem queuePend_rings (w : ℕ) : Rings k d i size (.queuePend d i w) (k.queuePend d i w) := by
  have effect : ∀ r : Record, r.call = .queuePend d i w → r.effect d i size =
      if r.code = readBufferOk then some (.delivered r.data) else none := fun r hc => by
    unfold Record.effect
    rw [hc]
    simp
  simp only [Kernel.queuePend]
  split_ifs with nested absent some_ now
  · exact Rings.fails rfl rfl fun r hc code => by simp [effect r hc,code,irqPendErr,readBufferOk]
  · exact Rings.fails (by simp) (by simp) fun r hc code => by
      simp [effect r hc,code,errEventNoCreated,readBufferOk]
  · rw [Kernel.osEnterCritical_queue] at some_ ⊢
    refine ⟨by simp,fun h => by simp at h,fun {r} h hc => ?_⟩
    obtain ⟨code,data⟩ := Reply.ret.inj h
    rw [effect r hc,if_pos code.symm,← data,Kernel.osExitCritical_queue,Kernel.setQueue_queue]
    exact .read some_.ne'
  · exact Rings.fails (by simp) (by simp) fun r hc code => by
      simp [effect r hc,code,exitByNoEntryAvailable,readBufferOk]
  · refine ⟨?_,fun _ => ?_,fun h => by simp [Kernel.suspend] at h⟩
    · exact Kernel.suspend_allocated _ _
    · exact Kernel.queue_of_body (Kernel.suspend_body _ _)

theorem queueClean_rings : Rings k d i size (.queueClean d i) (k.queueClean d i) := by
  refine ⟨by simp [Kernel.queueClean],fun h => by simp [Kernel.queueClean] at h,fun {r} h hc => ?_⟩
  have code := (Reply.ret.inj h).1.symm
  have effect : r.effect d i size = some .cleaned := by
    unfold Record.effect
    rw [hc]
    simp [code]
  rw [effect]
  simp only [Kernel.queueClean,Kernel.exitNesting_queue,Kernel.setQueue_queue,Kernel.enterNesting_queue]
  exact .clean

theorem queueWrite_rings {b : ℕ} (one : (k.queue .static i).osqTSize = 1) :
    Rings k .static i size (.queueWrite i b) (k.osWQueue i b) := by
  have effect : ∀ r : Record, r.call = .queueWrite i b → r.effect .static i size =
      if r.code = writeBufferOk then some (.accepted [b]) else none := fun r hc => by
    unfold Record.effect
    rw [hc]
    simp
  simp only [Kernel.osWQueue,Kernel.enterNesting_queue]
  by_cases room : (k.queue .static i).osqEntries < (k.queue .static i).osqLength
  · rw [OsQueue.write_of_room room]
    refine ⟨by simp,fun h => by simp at h,fun {r} h hc => ?_⟩
    rw [effect r hc,if_pos (Reply.ret.inj h).1.symm,Kernel.exitNesting_queue,Kernel.setQueue_queue]
    exact .write room one.symm
  · rw [OsQueue.write_of_full room]
    exact Rings.fails (by simp) (by simp) fun r hc code => by
      simp [effect r hc,code,bufferUnderrun,writeBufferOk]

theorem queueRead_rings : Rings k .static i size (.queueRead i) (k.osRQueue i) := by
  have effect : ∀ r : Record, r.call = .queueRead i → r.effect .static i size =
      if r.code = readBufferOk then some (.delivered r.data) else none := fun r hc => by
    unfold Record.effect
    rw [hc]
    simp
  simp only [Kernel.osRQueue,Kernel.enterNesting_queue]
  split_ifs with some_
  · refine ⟨by simp,fun h => by simp at h,fun {r} h hc => ?_⟩
    obtain ⟨code,data⟩ := Reply.ret.inj h
    rw [effect r hc,if_pos code.symm,← data,Kernel.exitNesting_queue,Kernel.setQueue_queue]
    exact .read some_.ne'
  · exact Rings.fails (by simp) (by simp) fun r hc code => by
      simp [effect r hc,code,noEntryAvailable,readBufferOk]

/-- Every service on an existing queue does to the ring what it returns, or it makes the queue anew. -/
theorem serve_rings (created : k.Created (d.obj i)) (tSize : (k.queue d i).osqTSize = size)
    (single : d = .static → size = 1) (touches : k.Touches (d.obj i) c) :
    Rings k d i size c (k.serve c) ∨
      (∀ p, (k.serve c).2 ≠ .sleep p) ∧ ∀ r : Record, r.call = c → r.remade d i = true := by
  cases c with
  | queueCreate n =>
    obtain ⟨j,found,same⟩ := touches
    obtain ⟨rfl,rfl⟩ := obj_injective (e := .static) same
    exact absurd (created.resolve_left (by simp [QueueKind.obj,Obj.onHeap])) (findEvent_free found)
  | dqueueCreate a l n =>
    obtain ⟨j,handler,same⟩ := touches
    obtain ⟨rfl,rfl⟩ := obj_injective (e := .dynamic) same
    refine Or.inr ⟨fun p => ?_,fun r hc => by simp [Record.remade,hc,handler]⟩
    simp only [Kernel.serve,Kernel.osDQueueCreate]
    repeat' split
    all_goals simp
  | dqueueDelete j =>
    obtain ⟨rfl,rfl⟩ := obj_injective (e := .dynamic) touches
    refine Or.inr ⟨fun p => ?_,fun r hc => by simp [Record.remade,hc]⟩
    simp only [Kernel.serve,Kernel.osDQueueDelete]
    split_ifs <;> simp
  | queueClean e j =>
    obtain ⟨rfl,rfl⟩ := obj_injective touches
    exact Or.inl queueClean_rings
  | queueWrite j b =>
    obtain ⟨rfl,rfl⟩ := obj_injective (e := .static) touches
    exact Or.inl (queueWrite_rings (tSize.trans (single rfl)))
  | queueRead j =>
    obtain ⟨rfl,rfl⟩ := obj_injective (e := .static) touches
    exact Or.inl queueRead_rings
  | queuePend e j w =>
    obtain ⟨rfl,rfl⟩ := obj_injective touches
    exact Or.inl (queuePend_rings w)
  | queuePost j b =>
    obtain ⟨rfl,rfl⟩ := obj_injective (e := .static) touches
    refine Or.inl (queuePost_rings (tSize.trans (single rfl)).symm fun r hc => ?_)
    simp [Record.effect,hc]
  | dqueuePost j pdata =>
    obtain ⟨rfl,rfl⟩ := obj_injective (e := .dynamic) touches
    refine Or.inl (queuePost_rings (by simp [Kernel.queue]) fun r hc => ?_)
    simp [Record.effect,hc,← tSize,Kernel.queue]
  | _ => cases d <;> simp [Kernel.Touches,QueueKind.obj] at touches

/-! ### Runs -/

/-- A call by main, a task or an interrupt handler. -/
theorem Queued.enter (h : s.Queued d i n size recent) (who : Option ℕ)
    (touches : s.Touches (d.obj i) c) :
    (s.enter who c).log = s.log ∧ (s.enter who c).Queued d i n size recent ∨
      ∃ r, (s.enter who c).log = r :: s.log ∧
        (r.remade d i = false → (s.enter who c).Queued d i n size (r :: recent)) := by
  cases hr : (s.serve c).2 with
  | sleep p =>
    rcases serve_rings h.created h.tSize h.single touches with rings | remade
    · rw [enter_sleep hr]
      exact Or.inl ⟨rfl,h.keep (l := []) (created_of_allocated h.created rings.allocated)
        (rings.sleeps hr) (by simp)⟩
    · exact absurd hr (remade.1 p)
  | ret code data =>
    rw [enter_ret hr]
    refine Or.inr ⟨_,rfl,fun kept => ?_⟩
    rcases serve_rings h.created h.tSize h.single touches with rings | remade
    · exact h.next (created_of_allocated h.created rings.allocated) (rings.returns hr rfl)
    · rw [remade.2 _ rfl] at kept
      contradiction

variable (s d i) in
/-- A task that runs again without a timeout finds an element in the queue. -/
def Fed : Action → Prop
  | .resume =>
    match s.point s.currentTask with
    | .pend o p w => o = d.obj i → (s.wakeUp o p w).2 = false → 0 < (s.queue d i).osqEntries
    | _ => True
  | _ => True

instance (a : Action) : Decidable (s.Fed d i a) := by
  rcases a <;> unfold Fed
  case resume =>
    generalize s.point s.currentTask = x
    rcases x <;> infer_instance
  all_goals infer_instance

theorem pendCall_queue (w : ℕ) : (d.obj i).pendCall w = .queuePend d i w := by cases d <;> rfl

theorem resumePend_queue (p w : ℕ) : k.resumePend (d.obj i) p w = k.resumeQueuePend d i p w := by
  cases d <;> rfl

theorem wakeUp_late_enter (o : Obj) (p w : ℕ) : (k.osEnterCritical.wakeUp o p w).2 = (k.wakeUp o p w).2 := by
  have current : k.osEnterCritical.currentTask = k.currentTask := rfl
  by_cases waits : (k.event o).osEventWaitList &&& priorityMask cfg p = 0#_ <;>
    simp [Kernel.wakeUp,current,waits,apply_ite Prod.snd]

/-- A task that runs again reads an element, or it has timed out. -/
theorem resumeQueuePend_rings {p w : ℕ}
    (fed : (k.wakeUp (d.obj i) p w).2 = false → 0 < (k.queue d i).osqEntries) :
    (k.queue d i).Ringed ((k.resumeQueuePend d i p w).1.queue d i)
      (if (k.resumeQueuePend d i p w).2.1 = readBufferOk then
        some (.delivered (k.resumeQueuePend d i p w).2.2) else none) := by
  have ring : (k.osEnterCritical.wakeUp (d.obj i) p w).1.queue d i = k.queue d i :=
    (Kernel.queue_of_body (Kernel.wakeUp_body _ _ _)).trans Kernel.osEnterCritical_queue
  simp only [Kernel.resumeQueuePend]
  split_ifs with late timely
  · simp [timeout,readBufferOk] at timely
  · rw [Kernel.osExitCritical_queue,ring]
    exact .same
  · rw [Kernel.osExitCritical_queue,Kernel.setQueue_queue,ring]
    exact .read (fed ((wakeUp_late_enter _ _ _).symm.trans (by simpa using late))).ne'
  · simp at *

theorem Queued.resume (h : s.Queued d i n size recent) {p w : ℕ}
    (point : s.point s.currentTask = .pend (d.obj i) p w) (fed : s.Fed d i .resume)
    (next : s.proceed = some t) : ∃ r, t.log = r :: s.log ∧ t.Queued d i n size (r :: recent) := by
  simp only [Fed,point,forall_const] at fed
  have allocated : ((s.osEnterCritical.wakeUp (d.obj i) p w).1.event (d.obj i)).osEventAllocated =
      (s.event (d.obj i)).osEventAllocated := Kernel.wakeUp_allocated _ _ _
  have effect : ∀ r : Record, r.call = .queuePend d i w → r.effect d i size =
      if r.code = readBufferOk then some (.delivered r.data) else none := fun r hc => by
    unfold Record.effect
    rw [hc]
    simp
  unfold proceed at next
  simp only [point,Option.some.injEq] at next
  subst next
  refine ⟨_,rfl,h.next (h.created.imp_right ?_) ?_⟩
  · rw [returned_toKernel,resumePend_queue]
    simp only [Kernel.resumeQueuePend]
    split_ifs
    · exact allocated.trans
    · refine fun hc => Eq.trans ?_ (allocated.trans hc)
      simp
  · rw [effect _ (pendCall_queue w),returned_toKernel,resumePend_queue]
    exact resumeQueuePend_rings fed

theorem Queued.step {a : Action} (h : s.Queued d i n size recent) (dormant : s.Dormant)
    (fed : s.Fed d i a) (next : s.step a = some t) :
    t.log = s.log ∧ t.Queued d i n size recent ∨
      ∃ r, t.log = r :: s.log ∧ (r.remade d i = false → t.Queued d i n size (r :: recent)) := by
  cases step_happens dormant (d.obj i) next with
  | quiet apart =>
    obtain ⟨l,log,far⟩ := apart.log
    have kept := h.keep (created_of_event h.created apart.event) (Kernel.queue_of_cell apart.cell)
      fun r hr => Record.effect_far (far r hr)
    rcases step_log next with same | ⟨r,more,_⟩
    · obtain rfl : l = [] := by simpa [same] using log
      exact Or.inl ⟨same,kept⟩
    · obtain rfl : l = [r] := List.append_cancel_right (log.symm.trans more)
      exact Or.inr ⟨r,more,fun _ => kept⟩
  | main stopped from_ touches => exact h.enter none touches
  | call running awake user touches => exact h.enter _ touches
  | isr port from_ touches => exact h.enter none touches
  | resume running point proceeds =>
    obtain ⟨r,log,kept⟩ := h.resume point fed proceeds
    exact Or.inr ⟨r,log,fun _ => kept⟩
  | @uart fuel j b u event begun =>
    obtain ⟨rfl,rfl⟩ := obj_injective (d := d) (i := i) (e := .static) event
    have apart := uartState_apart (o := .queue j) begun
    have first : u.Queued .static j n size recent :=
      h.keep (l := []) (created_of_event h.created apart.event)
        (Kernel.queue_of_cell (d := .static) apart.cell) (by simp)
    have log := uartState_log begun
    have after : ∀ v : System cfg, ({ v with toKernel := (v.clearInterrupt interruptUart).select } :
        System cfg).queue .static j = v.queue .static j := fun v => rfl
    rcases first.enter none (c := .queuePost j b) rfl with ⟨same,kept⟩ | ⟨r,more,kept⟩
    · exact Or.inl ⟨same.trans log,kept.keep (l := []) kept.created (after _) (by simp)⟩
    · exact Or.inr ⟨r,more.trans (log ▸ rfl),fun hr =>
        (kept hr).keep (l := []) (kept hr).created (after _) (by simp)⟩

/-! ### Creation -/

/-- The kind of queue that a call creates, with its capacity and the bytes of an element. -/
def queueSizes (cfg : Config) : Call → Option (QueueKind × ℕ × ℕ)
  | .queueCreate size =>
    some (.static,if size%cfg.sizeofCpuType ≠ 0 then
      (size+(cfg.sizeofCpuType-size%cfg.sizeofCpuType))%65536 else size,1)
  | .dqueueCreate _ queueLength typeSize => some (.dynamic,queueLength,typeSize)
  | _ => none

theorem osQueueCreate_ok {size : ℕ} (reply : (k.osQueueCreate size).2 = .ret allocEventOk [i]) :
    ((k.osQueueCreate size).1.event (.queue i)).osEventAllocated = 1 ∧ ∀ n, queueSizes cfg
      (.queueCreate size) = some (.static,n,1) → ((k.osQueueCreate size).1.queue .static i).osqLength = n ∧
        ((k.osQueueCreate size).1.queue .static i).Contains n 1 [] := by
  have calm : ¬ 0 < k.iNesting := fun nested => by
    simp [Kernel.osQueueCreate,nested,irqPendErr,allocEventOk] at reply
  simp only [Kernel.osQueueCreate,calm,if_false] at reply ⊢
  simp only [queueSizes]
  generalize (if size%cfg.sizeofCpuType ≠ 0 then
    (size+(cfg.sizeofCpuType-size%cfg.sizeofCpuType))%65536 else size) = n at reply ⊢
  by_cases full : k.enterTask.NoRoom (n/cfg.sizeofCpuType)
  · simp [full,noMemory,allocEventOk] at reply
  · simp only [full,if_false] at reply ⊢
    cases found : k.enterTask.findEvent .queue cfg.brtosMaxQueue with
    | none => simp [found,noAvailableEvent,allocEventOk] at reply
    | some j =>
      obtain rfl : j = i := by simpa [found] using reply
      have ring : ∀ l : Kernel cfg, ∀ q, ((l.setQueue .static j q).allocEvent (.queue j)).exitTask.queue
          .static j = q := fun l q => by
        refine (Kernel.queue_of_cell Kernel.exitTask_cell).trans ?_
        simp [Kernel.allocEvent,Kernel.setEvent,Kernel.setQueue,Kernel.queue]
      refine ⟨by simp [Kernel.allocEvent,Kernel.setEvent],fun m hm => ?_⟩
      obtain rfl : n = m := by simpa using hm
      simp only [ring]
      exact ⟨trivial,OsQueue.contains_nil one_pos rfl (by simp) rfl rfl rfl⟩

/-- A created queue is empty. -/
theorem queued_of_create {made : Record} (sizes : queueSizes cfg made.call = some (d,n,size))
    (fits : n*size < 65536) (success : made.code = allocEventOk) (handle : made.data = [i])
    (logs : s.Logs t made) : t.Queued d i n size [] := by
  cases logs with
  | resumed hc =>
    rcases hc with ⟨w,hc⟩ | ⟨q,w,hc⟩
    · simp [hc,queueSizes] at sizes
    · cases q <;> simp [hc,queueSizes,Obj.pendCall] at sizes
  | uart hc =>
    obtain ⟨j,b,hc⟩ := hc
    simp [hc,queueSizes] at sizes
  | @served who reply next =>
    rw [success,handle] at reply
    have kernel : t.toKernel = (s.serve made.call).1 := next ▸ enter_toKernel who made.call
    cases call : made.call with
    | queueCreate m =>
      rw [call] at sizes reply kernel
      obtain ⟨allocated,ring⟩ := osQueueCreate_ok reply
      have kind : d = .static ∧ size = 1 := by
        simp only [queueSizes,Option.some.injEq,Prod.mk.injEq] at sizes
        exact ⟨sizes.1.symm,sizes.2.2.symm⟩
      obtain ⟨rfl,rfl⟩ := kind
      obtain ⟨length,contains⟩ := ring n sizes
      exact ⟨Or.inr (kernel ▸ allocated),kernel ▸ length,fun _ => rfl,[],rfl,kernel ▸ contains⟩
    | dqueueCreate a l m =>
      rw [call] at sizes reply kernel
      obtain ⟨rfl,rfl,rfl⟩ : d = .dynamic ∧ l = n ∧ m = size := by
        simp only [queueSizes,Option.some.injEq,Prod.mk.injEq] at sizes
        exact ⟨sizes.1.symm,sizes.2.1,sizes.2.2⟩
      obtain ⟨_,some_,pos,start,_,ring,_,_⟩ := Kernel.osDQueueCreate_ok reply
      have small : m < 65536 := (Nat.le_mul_of_pos_left m some_).trans_lt fits
      have ring' : t.queue .dynamic i = _ := (congrArg (Kernel.queue · .dynamic i) kernel).trans ring
      refine ⟨Or.inl rfl,by rw [ring'],by simp,[],rfl,?_⟩
      rw [ring',Nat.mod_eq_of_lt fits,Nat.mod_eq_of_lt small]
      exact OsQueue.contains_nil pos rfl rfl rfl rfl rfl
    | _ => simp [call,queueSizes] at sizes

/-- In every run in which no woken task finds the queue empty, the calls since the queue's creation
can be replayed on a bounded queue of elements, and OSQEntries counts what is in there. -/
theorem queued_of_fed (run : Run.Reach step (fun s a => s.Fed d i a) (init cfg) s)
    {recent old : List Record} {made : Record} (log : s.log = recent ++ made :: old)
    (sizes : queueSizes cfg made.call = some (d,n,size)) (fits : n*size < 65536)
    (success : made.code = allocEventOk) (handle : made.data = [i])
    (kept : ∀ r ∈ recent, r.remade d i = false) :
    ∃ l, Fifo.replay d i size recent = some l ∧ (s.queue d i).osqEntries = l.length ∧ l.length ≤ n := by
  have queued : s.Queued d i n size recent := by
    refine run.since (P := fun u l => u.Queued d i n size l) (by rfl) ?_ ?_ ?_ log kept
    · intro u a v reach _ next more
      rcases step_log next with same | ⟨r,more',logs⟩
      · simp [same] at more
      · obtain ⟨rfl,_⟩ := List.cons.inj (more'.symm.trans more)
        exact queued_of_create sizes fits success handle logs
    · intro u a v l reach h fed next
      exact h.step (dormant_of_reach reach) fed next
    · intro u a v next
      exact (step_log next).imp_right fun ⟨r,more,_⟩ => ⟨r,more⟩
  obtain ⟨l,replayed,contains⟩ := queued.contents
  exact ⟨l,replayed,contains.entries⟩

/-- An element that a waiting task has been woken for reaches it. -/
theorem queued_run : ∃ s : System .port, ∃ l, Fifo.replay .static 0 1 (s.log.take 2) = some l ∧
    (s.queue .static 0).osqEntries = l.length ∧ l.length ≤ 4 := by
  obtain ⟨s,run,log⟩ := Run.exists_reach_of_exec step (fun s a => s.Fed .static 0 a) (init .port)
    [.main (.install (.user 1) 16 3),.main (.install (.user 2) 16 4),.main (.queueCreate 3),.start,
      .call (.queuePend .static 0 0),.switch,.call (.queuePost 0 7),.switch,.resume]
    (fun s => s.log = s.log.take 2 ++ ⟨none,.queueCreate 3,allocEventOk,[0],2,false⟩ :: s.log.drop 3 ∧
      ∀ r ∈ s.log.take 2, r.remade .static 0 = false)
    (by decide +kernel)
  exact ⟨s,queued_of_fed run log.1 rfl (by decide) rfl rfl log.2⟩

/-- Task 2 is woken for an element that task 3 reads first: OSQEntries wraps below zero, and task 2
returns what was in the ring before. A clean takes the element away as well. -/
theorem queued_fails :
    (∃ s : System .port, Run.Reach step (fun s a => s.Allowed .restoring a) (init .port) s ∧
      (s.queue .static 0).osqEntries = 65535 ∧ ∃ r ∈ s.log, r.who = some 2 ∧
        r.effect .static 0 1 = some (.delivered [0]) ∧ Fifo.replay .static 0 1 s.log = none) ∧
    ∃ s : System .port, Run.Reach step (fun s a => s.Allowed .restoring a) (init .port) s ∧
      (s.queue .static 0).osqEntries = 65535 ∧ Fifo.replay .static 0 1 s.log = none :=
  ⟨Run.exists_reach_of_exec _ _ _
    [.main (.install (.user 1) 16 3),.main (.install (.user 2) 16 4),.main (.install (.user 3) 16 5),
      .main (.queueCreate 4),.start,.call (.delayTask 1),.switch,.call (.queuePend .static 0 0),.switch,
      .isrEnter,.isrCall (.queuePost 0 7),.isrTick 3,.isrExit,.resume,.call (.queuePend .static 0 0),
      .call (.delayTask 1),.switch,.resume] _ (by decide +kernel),
    Run.exists_reach_of_exec _ _ _
    [.main (.install (.user 1) 16 3),.main (.install (.user 2) 16 4),.main (.queueCreate 4),.start,
      .call (.queuePend .static 0 0),.switch,.isrEnter,.isrCall (.queuePost 0 7),
      .isrCall (.queueClean .static 0),.isrExit,.resume] _ (by decide +kernel)⟩

end System
end Brtos
