import Brtos.WideQueue
import Brtos.Delivery
import Brtos.Library.Answer

/-! The static queues and those of wide elements are bounded lists, whatever else the kernel does between
their calls. -/
namespace Brtos
open Ring (wrap)
open Kernel (QueueKind)

/-! ### The bounded list -/

inductive RingCall
  | write (x : ℕ)
  | read
  | clean
  deriving DecidableEq

/-- What a call does to a list of at most `n` elements. -/
def RingCall.spec (n : ℕ) (l : List ℕ) : RingCall → List ℕ × Reply
  | .write x => if l.length < n then (l++[x],.ret writeBufferOk []) else (l,.ret bufferUnderrun [])
  | .read =>
    match l with
    | [] => ([],.ret noEntryAvailable [])
    | x :: rest => (rest,.ret readBufferOk [x])
  | .clean => ([],.ret cleanBufferOk [])

/-- A queue with its services. -/
structure RingMachine (σ γ β : Type*) where
  perform : σ → γ → σ × Reply
  /-- What may happen between two calls. -/
  idle : σ → σ → Prop
  meaning : γ → RingCall
  queue : σ → β
  entries : σ → ℕ
  /-- The addresses that a call stores to or loads from. -/
  touches : σ → γ → List ℕ
  /-- What the elements' memory holds, and the state in which it holds something else. -/
  memory : σ → ℕ → ℕ
  fill : σ → (ℕ → ℕ) → σ

/-- After the calls of the log the queue is the list that they make. -/
structure RingMachine.Follows {σ γ β : Type*} (m : RingMachine σ γ β) (n start stop width : ℕ)
    (log : List (γ × Reply)) (t : σ) (l : List ℕ) : Prop where
  answers : log.map Prod.snd = Answer.answers (RingCall.spec n) [] (log.map fun r => m.meaning r.1)
  entries : m.entries t = l.length
  fits : l.length ≤ n
  inside : ∀ c, ∀ x ∈ m.touches t c, start ≤ x ∧ x+width ≤ stop
  footprint : ∀ c, Answer.Footprint m.memory m.fill m.perform m.touches t c
  refuses : ∀ c, ((m.perform t c).2 = .ret bufferUnderrun [] ∨ (m.perform t c).2 = .ret noEntryAvailable []) →
    m.queue (m.perform t c).1 = m.queue t

/-- In every run the queue is a list of at most `n` elements that is kept between two addresses. -/
def RingMachine.IsFifo {σ γ β : Type*} (m : RingMachine σ γ β) (n start stop width : ℕ) (s : σ) : Prop :=
  ∀ log t, Answer.Uses m.idle m.perform s log t →
    m.Follows n start stop width log t
      (Answer.final (RingCall.spec n) [] (log.map fun r => m.meaning r.1))

/-- One call at a time. -/
theorem RingMachine.isFifo {σ γ β : Type*} {m : RingMachine σ γ β} {n start stop width : ℕ} {s : σ}
    {R : σ → List ℕ → Prop} (first : R s [])
    (idle : ∀ {t u l}, R t l → m.idle t u → R u l)
    (call : ∀ {t l} c, R t l → (m.perform t c).2 = (RingCall.spec n l (m.meaning c)).2 ∧
      R (m.perform t c).1 (RingCall.spec n l (m.meaning c)).1)
    (entries : ∀ {t l}, R t l → m.entries t = l.length ∧ l.length ≤ n)
    (inside : ∀ {t l} c, R t l → ∀ x ∈ m.touches t c, start ≤ x ∧ x+width ≤ stop)
    (footprint : ∀ t c, Answer.Footprint m.memory m.fill m.perform m.touches t c)
    (refuses : ∀ {t l} c, R t l →
      ((m.perform t c).2 = .ret bufferUnderrun [] ∨ (m.perform t c).2 = .ret noEntryAvailable []) →
      m.queue (m.perform t c).1 = m.queue t) : m.IsFifo n start stop width s := by
  intro log t run
  let spec : List ℕ → γ → List ℕ × Reply := fun l c => RingCall.spec n l (m.meaning c)
  have sim : log.map Prod.snd = Answer.answers spec [] (log.map Prod.fst) ∧
      R t (Answer.final spec [] (log.map Prod.fst)) := run.simulates first idle fun c h => call c h
  have answers : ∀ (l : List ℕ) (cs : List γ), Answer.answers (fun l c => RingCall.spec n l (m.meaning c)) l cs =
      Answer.answers (RingCall.spec n) l (cs.map m.meaning) := by
    intro l cs
    induction cs generalizing l with
    | nil => rfl
    | cons c cs ih => simp only [Answer.answers,List.map_cons,ih]
  have final : Answer.final (fun l c => RingCall.spec n l (m.meaning c)) [] (log.map Prod.fst) =
      Answer.final (RingCall.spec n) [] (log.map fun r => m.meaning r.1) := by
    simp only [Answer.final,List.foldl_map]
  rw [answers,List.map_map,final] at sim
  exact ⟨sim.1,(entries sim.2).1,(entries sim.2).2,fun c => inside c sim.2,footprint t,
    fun c => refuses c sim.2⟩

/-! ### Wide elements -/

namespace OsWideRing
variable {q : OsWideRing} {width n start : ℕ} {b : Ring.Buffer ℕ} {l : List ℕ}

/-- The queue is a circular array of `n` elements. -/
structure Refines (width n start : ℕ) (q : OsWideRing) (b : Ring.Buffer ℕ) : Prop where
  size : q.osqSize = n
  first : q.osqStart = start
  last : q.osqEnd = start+n*width
  input : q.osqIn = start+b.back*width
  output : q.osqOut = start+b.front*width
  entries : q.osqEntries = b.count
  slots {j : ℕ} (hj : j < n) : b.slots j = q.data (start+j*width)

/-- The place where a cursor is used next. -/
theorem turn (pos : 0 < width) (i : ℕ) :
    (if start+i*width = start+n*width then start else start+i*width) = start+wrap n i*width := by
  have cursor : start+i*width = start+n*width ↔ i = n := by
    rw [Nat.add_left_cancel_iff,Nat.mul_left_inj pos.ne']
  simp only [cursor,wrap]
  split_ifs <;> simp

theorem Refines.turnIn (h : q.Refines width n start b) (pos : 0 < width) :
    (if q.osqIn = q.osqEnd then q.osqStart else q.osqIn) = start+wrap n b.back*width := by
  rw [h.input,h.last,h.first]
  exact turn pos _

theorem Refines.turnOut (h : q.Refines width n start b) (pos : 0 < width) :
    (if q.osqOut = q.osqEnd then q.osqStart else q.osqOut) = start+wrap n b.front*width := by
  rw [h.output,h.last,h.first]
  exact turn pos _

theorem Refines.write (h : q.Refines width n start b) (pos : 0 < width) (room : b.count < n) (x : ℕ) :
    ∃ q', q.write width x = some q' ∧ q'.Refines width n start (b.put n x) := by
  have cursor := h.turnIn pos
  refine ⟨{ q with
    osqEntries := q.osqEntries+1
    data := Function.update q.data (start+wrap n b.back*width) x
    osqIn := start+wrap n b.back*width+width },?_,?_⟩
  · have free : q.osqEntries < q.osqSize := by rwa [h.entries,h.size]
    simp only [OsWideRing.write,if_pos free]
    rw [← cursor]
    split_ifs <;> rfl
  · refine ⟨h.size,h.first,h.last,?_,h.output,congrArg (·+1) h.entries,fun {j} hj => ?_⟩
    · simp only [Ring.Buffer.put,Nat.add_mul,Nat.one_mul,Nat.add_assoc]
    · by_cases e : j = wrap n b.back
      · simp [Ring.Buffer.put,e]
      · have apart : start+j*width ≠ start+wrap n b.back*width := by
          rwa [Ne,Nat.add_left_cancel_iff,Nat.mul_left_inj pos.ne']
        simp only [Ring.Buffer.put,Function.update_of_ne e,Function.update_of_ne apart]
        exact h.slots hj

theorem Refines.read (h : q.Refines width n start b) (pos : 0 < width) (some_ : 0 < b.count)
    (front : b.front ≤ n) (room : 0 < n) :
    ∃ q', q.read width = some (q',(b.get n).2) ∧ q'.Refines width n start (b.get n).1 := by
  have cursor := h.turnOut pos
  refine ⟨{ q with
    osqOut := start+wrap n b.front*width+width
    osqEntries := q.osqEntries-1 },?_,?_⟩
  · have filled : 0 < q.osqEntries := by rwa [h.entries]
    simp only [OsWideRing.read,if_pos filled,Ring.Buffer.get]
    rw [h.slots (Ring.wrap_lt front room),← cursor]
    split_ifs <;> rfl
  · refine ⟨h.size,h.first,h.last,h.input,?_,?_,h.slots⟩
    · simp only [Ring.Buffer.get,Nat.add_mul,Nat.one_mul,Nat.add_assoc]
    · simp only [Ring.Buffer.get,h.entries]

theorem Refines.clean (h : q.Refines width n start b) : q.clean.Refines width n start b.clear where
  size := h.size
  first := h.first
  last := h.last
  input := by simp [OsWideRing.clean,Ring.Buffer.clear,h.first]
  output := by simp [OsWideRing.clean,Ring.Buffer.clear,h.first]
  entries := rfl
  slots := h.slots

/-- The queue contains the elements of the list, the oldest one first. -/
def Contains (width n start : ℕ) (q : OsWideRing) (l : List ℕ) : Prop :=
  ∃ b : Ring.Buffer ℕ, q.Refines width n start b ∧ b.Holds n l

theorem Contains.entries (h : q.Contains width n start l) : q.osqEntries = l.length ∧ l.length ≤ n := by
  obtain ⟨b,refines,holds⟩ := h
  exact ⟨refines.entries.trans holds.count_eq,holds.fits⟩

/-- A slot lies between the two addresses. -/
theorem slot_inside {i : ℕ} (h : i < n) : start ≤ start+i*width ∧ start+i*width+width ≤ start+n*width := by
  have := Nat.mul_le_mul_right width h
  rw [Nat.succ_mul] at this
  omega

theorem Contains.storesAt (h : q.Contains width n start l) (pos : 0 < width) {x : ℕ} (hx : x ∈ q.storesAt) :
    start ≤ x ∧ x+width ≤ start+n*width := by
  obtain ⟨b,refines,holds⟩ := h
  by_cases room : q.osqEntries < q.osqSize
  · have size := refines.size
    rw [OsWideRing.storesAt,if_pos room,refines.turnIn pos,List.mem_singleton] at hx
    rw [hx]
    exact slot_inside (Ring.wrap_lt holds.back_le (by omega))
  · rw [OsWideRing.storesAt,if_neg room] at hx
    exact absurd hx List.not_mem_nil

theorem Contains.loadsAt (h : q.Contains width n start l) (pos : 0 < width) {x : ℕ} (hx : x ∈ q.loadsAt) :
    start ≤ x ∧ x+width ≤ start+n*width := by
  have counted := h.entries
  obtain ⟨b,refines,holds⟩ := h
  by_cases some_ : 0 < q.osqEntries
  · rw [OsWideRing.loadsAt,if_pos some_,refines.turnOut pos,List.mem_singleton] at hx
    rw [hx]
    exact slot_inside (Ring.wrap_lt holds.front_le (by omega))
  · rw [OsWideRing.loadsAt,if_neg some_] at hx
    exact absurd hx List.not_mem_nil

/-- A write appends its element, unless the list is full. -/
theorem Contains.write (h : q.Contains width n start l) (pos : 0 < width) (x : ℕ) :
    if l.length < n then ∃ q', q.write width x = some q' ∧ q'.Contains width n start (l++[x])
    else q.write width x = none := by
  obtain ⟨b,refines,holds⟩ := h
  split_ifs with room
  · obtain ⟨q',done,next⟩ := refines.write pos (holds.count_eq ▸ room) x
    exact ⟨q',done,_,next,holds.put room x⟩
  · have full : ¬ q.osqEntries < q.osqSize := by rwa [refines.entries,refines.size,holds.count_eq]
    exact if_neg full

/-- A read takes the oldest element out. -/
theorem Contains.read {x : ℕ} (h : q.Contains width n start (x :: l)) (pos : 0 < width) :
    ∃ q', q.read width = some (q',x) ∧ q'.Contains width n start l := by
  obtain ⟨b,refines,holds⟩ := h
  obtain ⟨first,rest⟩ := holds.get
  have fits := holds.fits
  have counted := holds.count_eq
  rw [List.length_cons] at fits counted
  obtain ⟨q',done,next⟩ := refines.read pos (by omega) holds.front_le (by omega)
  exact ⟨q',first ▸ done,_,next,rest⟩

theorem Contains.read_nil (h : q.Contains width n start []) : q.read width = none :=
  if_neg (by rw [h.entries.1]; exact Nat.lt_irrefl 0)

theorem Contains.clean (h : q.Contains width n start l) : q.clean.Contains width n start [] := by
  obtain ⟨b,refines,_⟩ := h
  exact ⟨_,refines.clean,Ring.Buffer.holds_clear n b⟩

end OsWideRing

/-- The services of a queue of wide elements. -/
def wideQueue (cfg : Config) (width : ℕ) : RingMachine (Kernel cfg × OsWideRing) RingCall OsWideRing where
  perform s c :=
    let r := match c with
      | .write x => s.1.wQueueWide s.2 width x
      | .read => s.1.rQueueWide s.2 width
      | .clean => s.1.cleanQueueWide s.2
    ((r.1,r.2.1),r.2.2)
  idle s t := s.2 = t.2
  meaning c := c
  queue s := s.2
  entries s := s.2.osqEntries
  touches s c := match c with
    | .write _ => s.2.storesAt
    | .read => s.2.loadsAt
    | .clean => []
  memory s := s.2.data
  fill s data := (s.1,{ s.2 with data := data })

/-- OSWQueue16, OSRQueue16 and OSCleanQueue16. -/
def queue16 (cfg : Config) : RingMachine (Kernel cfg × OsWideRing) RingCall OsWideRing :=
  { wideQueue cfg 2 with
    perform := fun s c =>
      let r := match c with
        | .write x => s.1.osWQueue16 s.2 x
        | .read => s.1.osRQueue16 s.2
        | .clean => s.1.osCleanQueue16 s.2
      ((r.1,r.2.1),r.2.2) }

/-- OSWQueue32, OSRQueue32 and OSCleanQueue32. -/
def queue32 (cfg : Config) : RingMachine (Kernel cfg × OsWideRing) RingCall OsWideRing :=
  { wideQueue cfg 4 with
    perform := fun s c =>
      let r := match c with
        | .write x => s.1.osWQueue32 s.2 x
        | .read => s.1.osRQueue32 s.2
        | .clean => s.1.osCleanQueue32 s.2
      ((r.1,r.2.1),r.2.2) }

namespace OsWideRing
variable {cfg : Config} {width n start : ℕ} {s : Kernel cfg × OsWideRing} {l : List ℕ}

theorem Contains.call (h : s.2.Contains width n start l) (pos : 0 < width) (c : RingCall) :
    ((wideQueue cfg width).perform s c).2 = (RingCall.spec n l c).2 ∧
      ((wideQueue cfg width).perform s c).1.2.Contains width n start (RingCall.spec n l c).1 := by
  cases c with
  | write x =>
    have stored := h.write pos x
    simp only [wideQueue,Kernel.wQueueWide,RingCall.spec]
    split_ifs at stored ⊢ with room
    · obtain ⟨q',done,next⟩ := stored
      rw [done]
      exact ⟨rfl,next⟩
    · rw [stored]
      exact ⟨rfl,h⟩
  | read =>
    cases l with
    | nil =>
      simp only [wideQueue,Kernel.rQueueWide,RingCall.spec,h.read_nil]
      exact ⟨trivial,h⟩
    | cons x l =>
      obtain ⟨q',done,next⟩ := h.read pos
      simp only [wideQueue,Kernel.rQueueWide,RingCall.spec,done]
      exact ⟨trivial,next⟩
  | clean => exact ⟨rfl,h.clean⟩

/-- A write changes the one element that it stores, and the answer of a read is the one element that it
loads. -/
theorem footprint (s : Kernel cfg × OsWideRing) (c : RingCall) :
    Answer.Footprint (wideQueue cfg width).memory (wideQueue cfg width).fill (wideQueue cfg width).perform
      (wideQueue cfg width).touches s c := by
  cases c with
  | write x =>
    simp only [wideQueue]
    refine ⟨fun out => ?_,fun _ => ?_⟩
    · simp only [Kernel.wQueueWide,OsWideRing.write,OsWideRing.storesAt] at out ⊢
      split_ifs at out ⊢ with room last
      · exact Function.update_of_ne (by simpa using out) _ _
      · exact Function.update_of_ne (by simpa using out) _ _
      · rfl
    · simp only [Kernel.wQueueWide,OsWideRing.write]
      split_ifs <;> rfl
  | read =>
    simp only [wideQueue]
    refine ⟨fun _ => ?_,fun same => ?_⟩
    · simp only [Kernel.rQueueWide,OsWideRing.read]
      split_ifs <;> rfl
    · simp only [Kernel.rQueueWide,OsWideRing.read,OsWideRing.loadsAt] at same ⊢
      split_ifs at same ⊢ with some_ last
      · exact congrArg (fun x => Reply.ret readBufferOk [x]) (same _ (by simp))
      · exact congrArg (fun x => Reply.ret readBufferOk [x]) (same _ (by simp))
      · rfl
  | clean => exact ⟨fun _ => rfl,fun _ => rfl⟩

theorem Contains.isFifo (h : s.2.Contains width n start []) (pos : 0 < width) :
    (wideQueue cfg width).IsFifo n start (start+n*width) width s := by
  refine RingMachine.isFifo (R := fun t l => t.2.Contains width n start l) h
    (fun kept same => same ▸ kept) (fun c kept => kept.call pos c) (fun kept => kept.entries)
    (fun c kept x hx => ?_) footprint (fun {t l} c kept refused => ?_)
  · cases c with
    | write y => exact kept.storesAt pos hx
    | read => exact kept.loadsAt pos hx
    | clean => exact absurd hx List.not_mem_nil
  · cases c with
    | write y =>
      simp only [wideQueue,Kernel.wQueueWide] at refused ⊢
      cases done : t.2.write width y with
      | none => rfl
      | some q' => simp [done,writeBufferOk,bufferUnderrun,noEntryAvailable] at refused
    | read =>
      simp only [wideQueue,Kernel.rQueueWide] at refused ⊢
      cases done : t.2.read width with
      | none => rfl
      | some r => simp [done] at refused
    | clean => simp [wideQueue,Kernel.cleanQueueWide,cleanBufferOk,bufferUnderrun,noEntryAvailable] at refused

theorem contains_new (start n width : ℕ) (data : ℕ → ℕ) :
    (OsWideRing.mk ⟨start,start+n*width,start,start,n,0⟩ data).Contains width n start [] :=
  ⟨⟨fun j => data (start+j*width),0,0,0⟩,⟨rfl,rfl,rfl,by simp,by simp,rfl,fun _ => rfl⟩,
    Ring.Buffer.holds_clear n ⟨fun j => data (start+j*width),0,0,0⟩⟩

end OsWideRing
/-! ### Bytes -/

/-- The calls on a static queue that wait for nothing. -/
inductive ByteCall
  | wQueue (x : ℕ)
  | rQueue
  | queueClean
  | queuePost (x : ℕ)
  deriving DecidableEq

/-- The services of static queue `i`. -/
def byteQueue (cfg : Config) (i : ℕ) : RingMachine (Kernel cfg) ByteCall OsQueue where
  perform k
    | .wQueue x => k.osWQueue i x
    | .rQueue => k.osRQueue i
    | .queueClean => k.osQueueClean i
    | .queuePost x => k.osQueuePost i x
  idle k l := l.queue .static i = k.queue .static i ∧ l.notCreated (.queue i) = k.notCreated (.queue i)
  meaning
    | .wQueue x | .queuePost x => .write x
    | .rQueue => .read
    | .queueClean => .clean
  queue k := k.queue .static i
  entries k := (k.queue .static i).osqEntries
  touches k
    | .wQueue x | .queuePost x => (k.queue .static i).stores [x]
    | .rQueue => if 0 < (k.queue .static i).osqEntries then (k.queue .static i).loads else []
    | .queueClean => []
  memory k := (k.queue .static i).data
  fill k := k.fill .static i

namespace Kernel
variable {cfg : Config} {k : Kernel cfg} {i : ℕ}

theorem osWQueue_room (room : (k.queue .static i).osqEntries < (k.queue .static i).osqLength) (x : ℕ) :
    k.osWQueue i x = ((k.enterNesting.setQueue .static i
      ((k.queue .static i).turnIn.writeBytes [x])).exitNesting,.ret writeBufferOk []) := by
  simp only [osWQueue,enterNesting_queue,OsQueue.write_of_room room]

theorem osWQueue_full (full : ¬ (k.queue .static i).osqEntries < (k.queue .static i).osqLength) (x : ℕ) :
    k.osWQueue i x = (k.enterNesting.exitNesting,.ret bufferUnderrun []) := by
  simp only [osWQueue,enterNesting_queue,OsQueue.write_of_full full]

theorem osRQueue_some (some_ : 0 < (k.queue .static i).osqEntries) :
    k.osRQueue i = ((k.enterNesting.setQueue .static i (k.queue .static i).read.1).exitNesting,
      .ret readBufferOk (k.queue .static i).read.2) := by
  simp only [osRQueue,enterNesting_queue,some_,if_true]

theorem osRQueue_none (none_ : ¬ 0 < (k.queue .static i).osqEntries) :
    k.osRQueue i = (k.enterNesting.exitNesting,.ret noEntryAvailable []) := by
  simp only [osRQueue,enterNesting_queue,none_,if_false]

theorem osWQueue_footprint (x : ℕ) :
    Answer.Footprint (fun k : Kernel cfg => (k.queue .static i).data) (fun k => k.fill .static i)
      (fun k (_ : Unit) => k.osWQueue i x) (fun k _ => (k.queue .static i).stores [x]) k () := by
  by_cases room : (k.queue .static i).osqEntries < (k.queue .static i).osqLength
  · refine ⟨fun out => ?_,fun _ => ?_⟩
    · rw [osWQueue_room room]
      simpa using OsQueue.write_data room out
    · rw [osWQueue_room room,osWQueue_room (by simpa using room)]
  · refine ⟨fun _ => ?_,fun _ => ?_⟩
    · rw [osWQueue_full room]
      simp
    · rw [osWQueue_full room,osWQueue_full (by simpa using room)]

theorem osRQueue_footprint :
    Answer.Footprint (fun k : Kernel cfg => (k.queue .static i).data) (fun k => k.fill .static i)
      (fun k (_ : Unit) => k.osRQueue i)
      (fun k _ => if 0 < (k.queue .static i).osqEntries then (k.queue .static i).loads else []) k () := by
  by_cases some_ : 0 < (k.queue .static i).osqEntries
  · refine ⟨fun _ => ?_,fun {data} same => ?_⟩
    · rw [osRQueue_some some_]
      simp [OsQueue.read_data]
    · rw [if_pos some_] at same
      rw [osRQueue_some some_,osRQueue_some (by simpa using some_),fill_queue]
      exact congrArg (Reply.ret readBufferOk) (OsQueue.read_congr same)
  · refine ⟨fun _ => ?_,fun _ => ?_⟩
    · rw [osRQueue_none some_]
      simp
    · rw [osRQueue_none some_,osRQueue_none (by simpa using some_)]

/-- What a call on a static queue touches is what `touches` says. -/
theorem byteQueue_footprint (k : Kernel cfg) (c : ByteCall) :
    Answer.Footprint (byteQueue cfg i).memory (byteQueue cfg i).fill (byteQueue cfg i).perform
      (byteQueue cfg i).touches k c := by
  cases c with
  | wQueue x => exact ⟨(osWQueue_footprint x).stores,(osWQueue_footprint x).loads⟩
  | rQueue => exact ⟨osRQueue_footprint.stores,osRQueue_footprint.loads⟩
  | queuePost x =>
    have post := queuePost_footprint (k := k) (d := .static) (i := i)
      ((k.queue .static i).stores [x]) [x] fun _ => rfl
    exact ⟨post.stores,post.loads⟩
  | queueClean =>
    have cleaned : (k.osQueueClean i).1.queue .static i = (k.queue .static i).clean := clean_queue
    exact ⟨fun _ => congrFun (congrArg OsQueue.data cleaned) _,fun _ => rfl⟩

end Kernel

/-- The queue is allocated, and the list is in it. -/
structure Kernel.Serving {cfg : Config} (k : Kernel cfg) (i n start : ℕ) (l : List ℕ) : Prop where
  created : k.notCreated (.queue i) = false
  first : (k.queue .static i).osqStart = start
  length : (k.queue .static i).osqLength = n
  contains : (k.queue .static i).Contains n 1 (l.map fun x => [x])

namespace Kernel.Serving
variable {cfg : Config} {k k' : Kernel cfg} {i n start x : ℕ} {l : List ℕ}

theorem counted (h : k.Serving i n start l) :
    (k.queue .static i).osqEntries = l.length ∧ l.length ≤ n := by
  simpa using h.contains.entries

theorem idle (h : k.Serving i n start l) (queue : k'.queue .static i = k.queue .static i)
    (created : k'.notCreated (.queue i) = k.notCreated (.queue i)) : k'.Serving i n start l := by
  refine ⟨created.trans h.created,?_,?_,?_⟩
  · rw [queue]
    exact h.first
  · rw [queue]
    exact h.length
  · rw [queue]
    exact h.contains

theorem clean (h : k.Serving i n start l) : (k.osQueueClean i).1.Serving i n start [] := by
  have queue : (k.osQueueClean i).1.queue .static i = (k.queue .static i).clean := by
    simp [osQueueClean,queueClean]
  have created : (k.osQueueClean i).1.notCreated (.queue i) = k.notCreated (.queue i) := by
    simp [osQueueClean,queueClean,notCreated]
  refine ⟨created.trans h.created,?_,?_,?_⟩
  · rw [queue]
    exact h.first
  · rw [queue]
    exact h.length
  · rw [queue]
    exact h.contains.clean

/-- The two writes do the same to the ring. -/
theorem write (h : k.Serving i n start l) (room : l.length < n)
    (queue : k'.queue .static i = (k.queue .static i).turnIn.writeBytes [x])
    (created : k'.notCreated (.queue i) = k.notCreated (.queue i)) : k'.Serving i n start (l++[x]) := by
  refine ⟨created.trans h.created,?_,?_,?_⟩
  · rw [queue,OsQueue.writeBytes_eq]
    exact h.first
  · rw [queue,OsQueue.writeBytes_eq]
    exact h.length
  · rw [queue,List.map_append,List.map_singleton]
    exact h.contains.write (by simpa using room) rfl

theorem room_iff (h : k.Serving i n start l) :
    (k.queue .static i).osqEntries < (k.queue .static i).osqLength ↔ l.length < n := by
  rw [h.counted.1,h.length]

theorem post (h : k.Serving i n start l) (x : ℕ) :
    (k.osQueuePost i x).2 = (RingCall.spec n l (.write x)).2 ∧
      (k.osQueuePost i x).1.Serving i n start (RingCall.spec n l (.write x)).1 := by
  have created : (k.osQueuePost i x).1.notCreated (.queue i) = k.notCreated (.queue i) :=
    queuePost_notCreated (d := .static) [x] _
  rw [RingCall.spec]
  split_ifs with room
  · obtain ⟨reply,queue⟩ := queuePost_room (d := .static) h.created (h.room_iff.mpr room) [x]
    exact ⟨reply,h.write room queue created⟩
  · have full := queuePost_full (d := .static) h.created (mt h.room_iff.mp room) [x]
    refine ⟨congrArg Prod.snd full,h.idle ?_ created⟩
    rw [osQueuePost,full]
    simp

theorem wQueue (h : k.Serving i n start l) (x : ℕ) :
    (k.osWQueue i x).2 = (RingCall.spec n l (.write x)).2 ∧
      (k.osWQueue i x).1.Serving i n start (RingCall.spec n l (.write x)).1 := by
  rw [RingCall.spec]
  split_ifs with room
  · rw [osWQueue_room (h.room_iff.mpr room)]
    exact ⟨rfl,h.write room (by simp) (by simp [notCreated])⟩
  · rw [osWQueue_full (mt h.room_iff.mp room)]
    exact ⟨rfl,h.idle (by simp) (by simp [notCreated])⟩

theorem rQueue (h : k.Serving i n start l) :
    (k.osRQueue i).2 = (RingCall.spec n l .read).2 ∧
      (k.osRQueue i).1.Serving i n start (RingCall.spec n l .read).1 := by
  have counted := h.counted.1
  cases l with
  | nil =>
    rw [osRQueue_none (by rw [counted]; exact Nat.lt_irrefl 0)]
    exact ⟨rfl,h.idle (by simp) (by simp [notCreated])⟩
  | cons x l =>
    have some_ : 0 < (k.queue .static i).osqEntries := counted ▸ Nat.succ_pos _
    obtain ⟨first,rest⟩ := OsQueue.Contains.read (by simpa using h.contains)
    rw [osRQueue_some some_,first]
    refine ⟨rfl,?_,?_,?_,?_⟩
    · simpa [notCreated] using h.created
    · simpa [OsQueue.read_eq some_.ne'] using h.first
    · simpa [OsQueue.read_eq some_.ne'] using h.length
    · simpa [RingCall.spec] using rest

theorem call (h : k.Serving i n start l) (c : ByteCall) :
    ((byteQueue cfg i).perform k c).2 = (RingCall.spec n l ((byteQueue cfg i).meaning c)).2 ∧
      ((byteQueue cfg i).perform k c).1.Serving i n start
        (RingCall.spec n l ((byteQueue cfg i).meaning c)).1 := by
  cases c with
  | wQueue x => exact h.wQueue x
  | rQueue => exact h.rQueue
  | queueClean => exact ⟨rfl,h.clean⟩
  | queuePost x => exact h.post x

/-- An address of the block is that of an element between the two ends. -/
theorem inside (h : k.Serving i n start l) {y : ℕ} (hy : (k.queue .static i).InBlock n 1 y) :
    start ≤ y ∧ y+1 ≤ start+n := by
  rw [OsQueue.InBlock,h.first,Nat.mul_one] at hy
  omega

theorem stores (h : k.Serving i n start l) {x y : ℕ} (hy : y ∈ (k.queue .static i).stores [x]) :
    start ≤ y ∧ y+1 ≤ start+n := by
  have pos : 0 < n := by
    by_contra none_
    have full := mt h.room_iff.mp (by omega)
    rw [OsQueue.stores,if_neg full] at hy
    exact List.not_mem_nil hy
  obtain ⟨b,refines,holds⟩ := h.contains
  exact h.inside (refines.stores holds.back_le pos rfl hy)

theorem loads (h : k.Serving i n start l) (some_ : 0 < (k.queue .static i).osqEntries) {y : ℕ}
    (hy : y ∈ (k.queue .static i).loads) : start ≤ y ∧ y+1 ≤ start+n := by
  have counted := h.counted
  obtain ⟨b,refines,holds⟩ := h.contains
  exact h.inside (refines.loads holds.front_le (by omega) hy)

/-- A call that is refused leaves the ring alone. -/
theorem refused (h : k.Serving i n start l) (c : ByteCall)
    (refused : ((byteQueue cfg i).perform k c).2 = .ret bufferUnderrun [] ∨
      ((byteQueue cfg i).perform k c).2 = .ret noEntryAvailable []) :
    ((byteQueue cfg i).perform k c).1.queue .static i = k.queue .static i := by
  simp only [byteQueue] at refused ⊢
  cases c with
  | wQueue x =>
    by_cases room : (k.queue .static i).osqEntries < (k.queue .static i).osqLength
    · simp [osWQueue_room room,writeBufferOk,bufferUnderrun,noEntryAvailable] at refused
    · simp [osWQueue_full room]
  | queuePost x =>
    by_cases room : (k.queue .static i).osqEntries < (k.queue .static i).osqLength
    · simp [osQueuePost,(queuePost_room (d := .static) h.created room [x]).1,writeBufferOk,bufferUnderrun,
        noEntryAvailable] at refused
    · simp [osQueuePost,queuePost_full (d := .static) h.created room [x]]
  | rQueue =>
    by_cases some_ : 0 < (k.queue .static i).osqEntries
    · simp [osRQueue_some some_,readBufferOk,bufferUnderrun,noEntryAvailable] at refused
    · simp [osRQueue_none some_]
  | queueClean => simp [osQueueClean,queueClean,cleanBufferOk,bufferUnderrun,noEntryAvailable] at refused

theorem isFifo (h : k.Serving i n start []) : (byteQueue cfg i).IsFifo n start (start+n) 1 k := by
  refine RingMachine.isFifo (R := fun k l => k.Serving i n start l) h
    (fun kept same => kept.idle same.1 same.2) (fun c kept => kept.call c) (fun kept => kept.counted)
    (fun c kept x hx => ?_) byteQueue_footprint (fun c kept refused => kept.refused c refused)
  cases c with
  | wQueue y => exact kept.stores hx
  | queuePost y => exact kept.stores hx
  | queueClean => exact absurd hx List.not_mem_nil
  | rQueue =>
    simp only [byteQueue] at hx
    split_ifs at hx with some_
    · exact kept.loads some_ hx
    · exact absurd hx List.not_mem_nil

end Kernel.Serving
/-! ### Queues as they are created -/

namespace Kernel
variable {cfg : Config}

theorem osQueueCreate_serving {k : Kernel cfg} {size i : ℕ}
    (reply : (k.osQueueCreate size).2 = .ret allocEventOk [i]) :
    (k.osQueueCreate size).1.Serving i ((k.osQueueCreate size).1.queue .static i).osqLength
      ((k.osQueueCreate size).1.queue .static i).osqStart [] := by
  obtain ⟨allocated,ring⟩ := System.osQueueCreate_ok reply
  obtain ⟨length,contains⟩ := ring _ rfl
  exact ⟨by simp [notCreated,allocated],rfl,rfl,length ▸ contains⟩

/-- What the two create functions store into a control block. -/
theorem carve_queue {k : Kernel cfg} {elem size : ℕ} {q : OsWideQueue}
    (made : (k.carve elem size).2.2 = some q) :
    q = ⟨q.osqStart,q.osqStart+q.osqSize*elem,q.osqStart,q.osqStart,q.osqSize,0⟩ := by
  simp only [carve] at made
  split_ifs at made
  obtain rfl := Option.some.inj made
  rfl

theorem carve_isFifo {k k' : Kernel cfg} {elem size : ℕ} {q : OsWideQueue} (pos : 0 < elem)
    (made : (k.carve elem size).2.2 = some q) (data : ℕ → ℕ) :
    q.osqEnd = q.osqStart+q.osqSize*elem ∧
      (wideQueue cfg elem).IsFifo q.osqSize q.osqStart q.osqEnd elem (k',⟨q,data⟩) := by
  have stored := carve_queue made
  have last : q.osqEnd = q.osqStart+q.osqSize*elem := by rw [stored]
  refine ⟨last,?_⟩
  rw [last]
  refine OsWideRing.Contains.isFifo ?_ pos
  rw [stored]
  exact OsWideRing.contains_new q.osqStart q.osqSize elem data

/-- Every created queue is a bounded list of OSQSize elements. -/
theorem queues_isFifo (k : Kernel cfg) (size : ℕ) :
    (∀ i, (k.osQueueCreate size).2 = .ret allocEventOk [i] →
      let s := (k.osQueueCreate size).1
      let q := s.queue .static i
      q.osqEnd = q.osqStart+q.osqLength ∧
        (byteQueue cfg i).IsFifo q.osqLength q.osqStart q.osqEnd 1 s) ∧
    (∀ q data, (k.osQueue16Create size).2 = (allocEventOk,some q) →
      q.osqEnd = q.osqStart+q.osqSize*2 ∧
        (queue16 cfg).IsFifo q.osqSize q.osqStart q.osqEnd 2 ((k.osQueue16Create size).1,⟨q,data⟩)) ∧
    (∀ q data, (k.osQueue32Create size).2 = (allocEventOk,some q) →
      q.osqEnd = q.osqStart+q.osqSize*4 ∧
        (queue32 cfg).IsFifo q.osqSize q.osqStart q.osqEnd 4 ((k.osQueue32Create size).1,⟨q,data⟩)) := by
  refine ⟨fun i reply => ?_,fun q data made => ?_,fun q data made => ?_⟩
  · have serving := osQueueCreate_serving reply
    obtain ⟨b,refines,_⟩ := serving.contains
    have last := refines.last
    rw [Nat.mul_one] at last
    refine ⟨last,?_⟩
    rw [last]
    exact serving.isFifo
  · have calm : ¬ 0 < k.iNesting := fun nested => by simp [osQueue16Create,nested] at made
    simp only [osQueue16Create,calm,if_false] at made
    exact carve_isFifo Nat.two_pos (congrArg Prod.snd made) data
  · have calm : ¬ 0 < k.iNesting := fun nested => by simp [osQueue32Create,nested] at made
    simp only [osQueue32Create,calm,if_false] at made
    exact carve_isFifo (by decide) (congrArg Prod.snd made) data

theorem queues_isFifo_example : ∃ k : Kernel .simulator,
    (byteQueue .simulator 0).IsFifo 12 0 12 1 (k.osQueueCreate 10).1 ∧
      (queue16 .simulator).IsFifo 10 0 20 2 ((k.osQueue16Create 10).1,⟨⟨0,20,0,0,10,0⟩,fun _ => 0⟩) ∧
      (queue32 .simulator).IsFifo 10 0 40 4 ((k.osQueue32Create 10).1,⟨⟨0,40,0,0,10,0⟩,fun _ => 0⟩) := by
  have bytes := (queues_isFifo QueueStack.fresh.toKernel 10).1 0 (by decide +kernel)
  have length : ((QueueStack.fresh.toKernel.osQueueCreate 10).1.queue .static 0).osqLength = 12 := by
    decide +kernel
  have first : ((QueueStack.fresh.toKernel.osQueueCreate 10).1.queue .static 0).osqStart = 0 := by
    decide +kernel
  have last : ((QueueStack.fresh.toKernel.osQueueCreate 10).1.queue .static 0).osqEnd = 12 := by
    decide +kernel
  simp only [length,first,last] at bytes
  exact ⟨_,bytes.2,((queues_isFifo _ 10).2.1 _ _ (by decide +kernel)).2,
    ((queues_isFifo _ 10).2.2 _ _ (by decide +kernel)).2⟩

end Kernel
end Brtos
