import Brtos.Queue
import Brtos.Library.Ring

/-! The bytes of a queue are a circular array of records, and the cursors of queue.c count them in
steps of OSQTSize. -/
namespace Brtos.OsQueue
open Ring (wrap)

variable {q : OsQueue}

/-! ### The copying loops -/

/-- The addresses that the loop of a post stores to. -/
def storedAt (q : OsQueue) : List ℕ → List ℕ
  | [] => []
  | b::rest =>
    q.osqIn :: storedAt { q with data := Function.update q.data q.osqIn b, osqIn := q.osqIn+1 } rest

/-- The addresses that the loop of a pend loads from. -/
def loadedAt (q : OsQueue) : ℕ → List ℕ
  | 0 => []
  | n+1 => q.osqOut :: loadedAt { q with osqOut := q.osqOut+1 } n

theorem storedAt_eq (q : OsQueue) (l : List ℕ) : q.storedAt l = List.range' q.osqIn l.length := by
  induction l generalizing q with
  | nil => rfl
  | cons b rest ih => simp [storedAt,ih,List.range'_succ]

theorem loadedAt_eq (q : OsQueue) (n : ℕ) : q.loadedAt n = List.range' q.osqOut n := by
  induction n generalizing q with
  | zero => rfl
  | succ n ih => simp [loadedAt,ih,List.range'_succ]

/-- The loop moves the input cursor and leaves the other fields alone. -/
theorem writeBytes_eq (q : OsQueue) (l : List ℕ) :
    q.writeBytes l = { q with data := (q.writeBytes l).data, osqIn := q.osqIn+l.length } := by
  induction l generalizing q with
  | nil => rfl
  | cons b rest ih =>
    rw [writeBytes,ih]
    simp only [List.length_cons,Nat.add_assoc,Nat.add_comm 1]

theorem writeBytes_out (q : OsQueue) (l : List ℕ) {x : ℕ} (h : x < q.osqIn ∨ q.osqIn+l.length ≤ x) :
    (q.writeBytes l).data x = q.data x := by
  induction l generalizing q with
  | nil => rfl
  | cons b rest ih =>
    simp only [List.length_cons] at h
    rw [writeBytes,ih _ (by dsimp only; omega)]
    exact Function.update_of_ne (by omega) _ _

theorem writeBytes_in (q : OsQueue) (l : List ℕ) {m : ℕ} (h : m < l.length) :
    (q.writeBytes l).data (q.osqIn+m) = l[m] := by
  induction l generalizing q m with
  | nil => simp at h
  | cons b rest ih =>
    rw [writeBytes]
    cases m with
    | zero =>
      rw [writeBytes_out _ _ (Or.inl (by simp))]
      simp
    | succ m =>
      have next := ih { q with data := Function.update q.data q.osqIn b, osqIn := q.osqIn+1 }
        (m := m) (by simpa using h)
      simpa [Nat.add_assoc,Nat.add_comm 1] using next

theorem readBytes_eq (q : OsQueue) (n : ℕ) : q.readBytes n =
    ({ q with osqOut := q.osqOut+n },(List.range n).map fun m => q.data (q.osqOut+m)) := by
  induction n generalizing q with
  | zero => rfl
  | succ n ih =>
    rw [readBytes,ih,List.range_succ_eq_map]
    simp only [Prod.mk.injEq,List.map_cons,List.map_map,Nat.add_zero]
    refine ⟨?_,?_⟩
    · rw [Nat.add_assoc,Nat.add_comm 1]
    · refine congrArg _ (List.map_congr_left fun m _ => ?_)
      rw [Function.comp,Nat.add_assoc,Nat.add_comm 1]

/-- The queue of a post that has counted its record and looked for the end of the array. -/
def turnIn (q : OsQueue) : OsQueue :=
  { q with
    osqEntries := q.osqEntries+1
    osqIn := if q.osqIn = q.osqEnd then q.osqStart else q.osqIn }

/-- The queue of a pend that has looked for the end of the array. -/
def turnOut (q : OsQueue) : OsQueue :=
  { q with osqOut := if q.osqOut = q.osqEnd then q.osqStart else q.osqOut }

theorem write_of_room (room : q.osqEntries < q.osqLength) (bytes : List ℕ) :
    q.write bytes = some (q.turnIn.writeBytes bytes) := by
  simp only [write,turnIn,if_pos room]
  split_ifs <;> rfl

theorem write_of_full (full : ¬ q.osqEntries < q.osqLength) (bytes : List ℕ) : q.write bytes = none :=
  if_neg full

theorem read_eq (some_ : q.osqEntries ≠ 0) : q.read =
    ({ q with osqOut := q.turnOut.osqOut+q.osqTSize, osqEntries := q.osqEntries-1 },
      (List.range q.osqTSize).map fun m => q.data (q.turnOut.osqOut+m)) := by
  simp only [read,readBytes_eq,turnOut]
  split_ifs <;> simp

@[simp] theorem length_read (q : OsQueue) : q.read.2.length = q.osqTSize := by
  simp only [read,readBytes_eq]
  split_ifs <;> simp

/-- The addresses that a post stores to. -/
def stores (q : OsQueue) (bytes : List ℕ) : List ℕ :=
  if q.osqEntries < q.osqLength then q.turnIn.storedAt bytes else []

/-- The addresses that a pend which finds a record loads from. -/
def loads (q : OsQueue) : List ℕ := q.turnOut.loadedAt q.osqTSize

/-- A post changes the bytes that it stores and no others. -/
theorem write_data (room : q.osqEntries < q.osqLength) {bytes : List ℕ} {x : ℕ}
    (out : x ∉ q.stores bytes) : (q.turnIn.writeBytes bytes).data x = q.data x := by
  rw [stores,if_pos room,storedAt_eq,List.mem_range'_1] at out
  exact writeBytes_out _ _ (by omega)

theorem read_data (q : OsQueue) : q.read.1.data = q.data := by
  simp only [read,readBytes_eq]
  split_ifs <;> rfl

/-- The record that a pend answers depends on the bytes that it loads and on no others. -/
theorem read_congr {data : ℕ → ℕ} (same : ∀ x ∈ q.loads, data x = q.data x) :
    ({ q with data := data } : OsQueue).read.2 = q.read.2 := by
  have answer : ∀ p : OsQueue, p.read.2 =
      (List.range p.osqTSize).map fun m => p.data (p.turnOut.osqOut+m) := fun p => by
    simp only [read,readBytes_eq,turnOut]
    split_ifs <;> rfl
  rw [answer,answer]
  refine List.map_congr_left fun m hm => same _ ?_
  rw [loads,loadedAt_eq,List.mem_range'_1]
  exact ⟨Nat.le_add_right _ _,Nat.add_lt_add_left (List.mem_range.mp hm) _⟩

/-! ### The circular array of records -/

/-- The record in slot `j`, for records of `size` bytes. -/
def record (q : OsQueue) (size j : ℕ) : List ℕ :=
  (List.range size).map fun m => q.data (q.osqStart+j*size+m)

@[simp] theorem length_record (q : OsQueue) (size j : ℕ) : (q.record size j).length = size := by
  simp [record]

/-- The queue is a circular array of `n` records of `size` bytes each. -/
structure Refines (n size : ℕ) (q : OsQueue) (b : Ring.Buffer (List ℕ)) : Prop where
  pos : 0 < size
  tSize : q.osqTSize = size
  last : q.osqEnd = q.osqStart+n*size
  input : q.osqIn = q.osqStart+b.back*size
  output : q.osqOut = q.osqStart+b.front*size
  entries : q.osqEntries = b.count
  slots {j : ℕ} (hj : j < n) : b.slots j = q.record size j

variable {n size : ℕ} {b : Ring.Buffer (List ℕ)}

/-- The test for the end of the array. -/
theorem cursor_at_end (pos : 0 < size) (i : ℕ) : q.osqStart+i*size = q.osqStart+n*size ↔ i = n := by
  constructor
  · intro h
    exact Nat.eq_of_mul_eq_mul_right pos (by omega)
  · rintro rfl
    rfl

/-- The place where a cursor is used next. -/
theorem Refines.turn (h : q.Refines n size b) (i : ℕ) :
    (if q.osqStart+i*size = q.osqEnd then q.osqStart else q.osqStart+i*size) =
      q.osqStart+wrap n i*size := by
  simp only [h.last,cursor_at_end h.pos,wrap]
  split_ifs <;> simp

theorem Refines.turnIn (h : q.Refines n size b) :
    q.turnIn.osqIn = q.osqStart+wrap n b.back*size := by
  simp only [OsQueue.turnIn,h.input]
  exact h.turn _

theorem Refines.turnOut (h : q.Refines n size b) :
    q.turnOut.osqOut = q.osqStart+wrap n b.front*size := by
  simp only [OsQueue.turnOut,h.output]
  exact h.turn _

/-- A post writes one slot of the array. -/
theorem Refines.write (h : q.Refines n size b) {bytes : List ℕ} (length : bytes.length = size) :
    (q.turnIn.writeBytes bytes).Refines n size (b.put n bytes) := by
  have cursor := h.turnIn
  rw [writeBytes_eq]
  refine ⟨h.pos,h.tSize,h.last,?_,h.output,?_,?_⟩
  · simp only [cursor,length,Ring.Buffer.put,Nat.add_mul,Nat.one_mul,Nat.add_assoc]
    rfl
  · exact congrArg (·+1) h.entries
  · intro j hj
    apply List.ext_getElem
    · by_cases e : j = wrap n b.back
      · subst e
        simp [Ring.Buffer.put,length]
      · simp [Ring.Buffer.put,e,h.slots hj]
    · intro m hm hm'
      have lt : m < size := by simpa using hm'
      simp only [record,List.getElem_map,List.getElem_range]
      by_cases e : j = wrap n b.back
      · subst e
        have stored := writeBytes_in q.turnIn bytes (m := m) (by omega)
        rw [cursor] at stored
        simp only [Ring.Buffer.put,Function.update_self]
        exact stored.symm
      · have apart : q.osqStart+j*size+m < q.turnIn.osqIn ∨
            q.turnIn.osqIn+bytes.length ≤ q.osqStart+j*size+m := by
          rw [cursor,length]
          rcases Nat.lt_or_gt_of_ne e with less | more
          · have := Nat.mul_le_mul_right size less
            rw [Nat.succ_mul] at this
            omega
          · have := Nat.mul_le_mul_right size more
            rw [Nat.succ_mul] at this
            omega
        have kept := writeBytes_out q.turnIn bytes apart
        simp only [Ring.Buffer.put,Function.update_of_ne e,h.slots hj]
        simp only [record,List.getElem_map,List.getElem_range]
        exact kept.symm

/-- A pend reads one slot of the array. -/
theorem Refines.read (h : q.Refines n size b) (front : b.front ≤ n) (pos : 0 < n)
    (some_ : q.osqEntries ≠ 0) :
    q.read.2 = (b.get n).2 ∧ q.read.1.Refines n size (b.get n).1 := by
  have cursor := h.turnOut
  rw [read_eq some_]
  refine ⟨?_,h.pos,h.tSize,h.last,h.input,?_,?_,h.slots⟩
  · rw [Ring.Buffer.get,h.slots (Ring.wrap_lt front pos),cursor,h.tSize]
    rfl
  · simp only [cursor,h.tSize,Ring.Buffer.get,Nat.add_mul,Nat.one_mul,Nat.add_assoc]
  · simp only [h.entries,Ring.Buffer.get]

theorem Refines.clean (h : q.Refines n size b) : q.clean.Refines n size b.clear where
  pos := h.pos
  tSize := h.tSize
  last := h.last
  input := by simp [OsQueue.clean,Ring.Buffer.clear]
  output := by simp [OsQueue.clean,Ring.Buffer.clear]
  entries := rfl
  slots := h.slots

/-! ### The contents -/

/-- The queue of `n` records of `size` bytes contains the records of the list, the oldest first. -/
def Contains (n size : ℕ) (q : OsQueue) (l : List (List ℕ)) : Prop :=
  ∃ b : Ring.Buffer (List ℕ), q.Refines n size b ∧ b.Holds n l

variable {l : List (List ℕ)} {x : List ℕ}

theorem Contains.entries (h : q.Contains n size l) : q.osqEntries = l.length ∧ l.length ≤ n := by
  obtain ⟨b,refines,holds⟩ := h
  exact ⟨refines.entries.trans holds.count_eq,holds.fits⟩

/-- A post appends its record to the contents. -/
theorem Contains.write (h : q.Contains n size l) (room : l.length < n) {bytes : List ℕ}
    (length : bytes.length = size) : (q.turnIn.writeBytes bytes).Contains n size (l++[bytes]) := by
  obtain ⟨b,refines,holds⟩ := h
  exact ⟨_,refines.write length,holds.put room bytes⟩

/-- A pend takes the oldest record out. -/
theorem Contains.read (h : q.Contains n size (x :: l)) :
    q.read.2 = x ∧ q.read.1.Contains n size l := by
  have counted := h.entries
  rw [List.length_cons] at counted
  obtain ⟨b,refines,holds⟩ := h
  obtain ⟨first,rest⟩ := holds.get
  obtain ⟨same,next⟩ := refines.read holds.front_le (by omega) (by omega)
  exact ⟨same.trans first,_,next,rest⟩

theorem Contains.clean (h : q.Contains n size l) : q.clean.Contains n size [] := by
  obtain ⟨b,refines,_⟩ := h
  exact ⟨_,refines.clean,Ring.Buffer.holds_clear n b⟩

/-- A new queue is empty. -/
theorem contains_nil (pos : 0 < size) (tSize : q.osqTSize = size)
    (last : q.osqEnd = q.osqStart+n*size) (input : q.osqIn = q.osqStart) (output : q.osqOut = q.osqStart)
    (entries : q.osqEntries = 0) : q.Contains n size [] :=
  ⟨⟨q.record size,0,0,0⟩,⟨pos,tSize,last,by simpa using input,by simpa using output,entries,fun _ => rfl⟩,
    Ring.Buffer.holds_clear n ⟨q.record size,0,0,0⟩⟩

/-! ### The block of the queue -/

/-- The address belongs to the memory of the queue. -/
def InBlock (n size : ℕ) (q : OsQueue) (x : ℕ) : Prop := q.osqStart ≤ x ∧ x < q.osqStart+n*size

theorem slot_inBlock {j m : ℕ} (hj : j < n) (hm : m < size) :
    q.InBlock n size (q.osqStart+j*size+m) := by
  have := Nat.mul_le_mul_right size hj
  rw [Nat.succ_mul] at this
  constructor <;> omega

/-- A post stores inside the block. -/
theorem Refines.stores (h : q.Refines n size b) (back : b.back ≤ n) (pos : 0 < n) {bytes : List ℕ}
    (length : bytes.length = size) {y : ℕ} (hy : y ∈ q.stores bytes) : q.InBlock n size y := by
  unfold OsQueue.stores at hy
  split_ifs at hy
  · rw [storedAt_eq,length,h.turnIn,List.mem_range'_1] at hy
    obtain ⟨m,rfl⟩ := Nat.exists_eq_add_of_le hy.1
    exact slot_inBlock (Ring.wrap_lt back pos) (by omega)
  · simp at hy

/-- A pend loads from inside the block. -/
theorem Refines.loads (h : q.Refines n size b) (front : b.front ≤ n) (pos : 0 < n) {y : ℕ}
    (hy : y ∈ q.loads) : q.InBlock n size y := by
  rw [OsQueue.loads,loadedAt_eq,h.tSize,h.turnOut,List.mem_range'_1] at hy
  obtain ⟨m,rfl⟩ := Nat.exists_eq_add_of_le hy.1
  exact slot_inBlock (Ring.wrap_lt front pos) (by omega)

end Brtos.OsQueue
