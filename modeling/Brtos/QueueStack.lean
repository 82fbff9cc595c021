import Brtos.Frame

/-! Static queues on QUEUE_STACK: the three create functions advance one cursor, which counts words
of OS_CPU_TYPE, past storage that is measured in elements of one, two or four bytes. -/
namespace Brtos

/-- OS_QUEUE_16 and OS_QUEUE_32, which lie in the caller's memory. Addresses count bytes. -/
structure OsWideQueue where
  osqStart : ℕ
  osqEnd : ℕ
  osqIn : ℕ
  osqOut : ℕ
  osqSize : ℕ
  osqEntries : ℕ
  deriving DecidableEq, Repr

namespace Kernel
variable {cfg : Config} (k : Kernel cfg)

/-- OSQueue16Create and OSQueue32Create behind the rounding. The product is of type size_t. -/
def carve (elem size : ℕ) : Kernel cfg × ℕ × Option OsWideQueue :=
  let words := size*elem%(cfg.sizeMax+1)/cfg.sizeofCpuType
  if k.NoRoom words then (k.exitTask,noMemory,none)
  else
    let start := k.iQueueAddress*cfg.sizeofCpuType
    let k := { k with iQueueAddress := (k.iQueueAddress+words)%65536 }
    (k.exitTask,allocEventOk,some ⟨start,start+size*elem,start,start,size,0⟩)

/-- OSQueue16Create. Sizes are rounded up by one element. -/
def osQueue16Create (size : ℕ) : Kernel cfg × ℕ × Option OsWideQueue :=
  if 0 < k.iNesting then (k,irqPendErr,none) else
  let k := k.enterTask
  let size := if size*2%(cfg.sizeMax+1)%cfg.sizeofCpuType ≠ 0 then (size+1)%65536 else size
  k.carve 2 size

/-- OSQueue32Create, which does not round. -/
def osQueue32Create (size : ℕ) : Kernel cfg × ℕ × Option OsWideQueue :=
  if 0 < k.iNesting then (k,irqPendErr,none) else
  k.enterTask.carve 4 size

end Kernel

/-- A call of one of the three functions; the last two name the caller's control block. -/
inductive CreateCall
  | queue (size : ℕ)
  | queue16 (cqueue size : ℕ)
  | queue32 (cqueue size : ℕ)
  deriving DecidableEq, Repr

/-- A created queue: what OSQStart, OSQEnd and OSQSize say, and the size that was asked for. -/
structure Storage where
  start : ℕ
  stop : ℕ
  size : ℕ
  asked : ℕ
  deriving DecidableEq, Repr

def Storage.Apart (q r : Storage) : Prop := q.stop ≤ r.start ∨ r.stop ≤ q.start

/-- Room for the size that was asked for, and all of it on QUEUE_STACK. -/
def Storage.Fits (cfg : Config) (q : Storage) : Prop :=
  q.asked ≤ q.size ∧ q.stop ≤ cfg.queueHeapSize/cfg.sizeofCpuType*cfg.sizeofCpuType

/-- The kernel, the control blocks of its callers, and the queues created so far, the last first. -/
structure QueueStack (cfg : Config) extends Kernel cfg where
  wide : ℕ → OsWideQueue
  created : List Storage

namespace QueueStack
variable {cfg : Config} (s : QueueStack cfg)

def stored (cqueue asked : ℕ) (r : Kernel cfg × ℕ × Option OsWideQueue) : QueueStack cfg × Reply :=
  match r.2.2 with
  | some q =>
    ({ toKernel := r.1, wide := Function.update s.wide cqueue q,
       created := ⟨q.osqStart,q.osqEnd,q.osqSize,asked⟩ :: s.created },.ret r.2.1 [])
  | none => ({ s with toKernel := r.1 },.ret r.2.1 [])

def create : CreateCall → QueueStack cfg × Reply
  | .queue size =>
    let r := s.osQueueCreate size
    match r.2 with
    | .ret code [i] =>
      let q := r.1.queue .static i
      ({ s with
        toKernel := r.1
        created := ⟨q.osqStart,q.osqEnd,q.osqLength,size⟩ :: s.created },.ret code [i])
    | reply => ({ s with toKernel := r.1 },reply)
  | .queue16 cqueue size => s.stored cqueue size (s.osQueue16Create size)
  | .queue32 cqueue size => s.stored cqueue size (s.osQueue32Create size)

def step (s : QueueStack cfg) (c : CreateCall) : Option (QueueStack cfg) := some (s.create c).1

end QueueStack

namespace CreateCall
variable (cfg : Config) (c : CreateCall)

def asked : CreateCall → ℕ
  | .queue size | .queue16 _ size | .queue32 _ size => size

/-- The bytes of an element. -/
def elem : CreateCall → ℕ
  | .queue _ => 1
  | .queue16 _ _ => 2
  | .queue32 _ _ => 4

/-- The size whose storage is a whole number of words. -/
def rounded : CreateCall → ℕ
  | .queue size =>
    if size%cfg.sizeofCpuType ≠ 0 then size+(cfg.sizeofCpuType-size%cfg.sizeofCpuType) else size
  | .queue16 _ size => if size*2%cfg.sizeofCpuType ≠ 0 then size+1 else size
  | .queue32 _ size => size

/-- OSQSize, in sixteen bits. -/
def size : ℕ := c.rounded cfg%65536

/-- The words that the heap check reckons with. -/
def words : ℕ := c.size cfg*c.elem%(cfg.sizeMax+1)/cfg.sizeofCpuType

variable {cfg c}

theorem asked_le : c.asked ≤ c.rounded cfg := by
  cases c with
  | queue size =>
    simp only [asked,rounded]
    split_ifs <;> omega
  | queue16 p size =>
    simp only [asked,rounded]
    split_ifs <;> omega
  | queue32 p size => exact le_rfl

/-- Rounding goes past sixteen bits only to their end. -/
theorem rounded_le (word : cfg.sizeofCpuType ∣ 4) (small : c.asked < 65536) :
    c.rounded cfg ≤ 65536 := by
  have width : cfg.sizeofCpuType = 1 ∨ cfg.sizeofCpuType = 2 ∨ cfg.sizeofCpuType = 4 := by
    have := Nat.le_of_dvd (by omega) word
    interval_cases cfg.sizeofCpuType <;> simp_all
  cases c with
  | queue size =>
    simp only [asked,rounded] at small ⊢
    rcases width with w | w | w <;> rw [w] <;> split_ifs <;> omega
  | queue16 p size =>
    simp only [asked,rounded] at small ⊢
    split_ifs <;> omega
  | queue32 p size => exact small.le

theorem word_dvd (word : cfg.sizeofCpuType ∣ 4) : cfg.sizeofCpuType ∣ c.rounded cfg*c.elem := by
  have width : cfg.sizeofCpuType = 1 ∨ cfg.sizeofCpuType = 2 ∨ cfg.sizeofCpuType = 4 := by
    have := Nat.le_of_dvd (by omega) word
    interval_cases cfg.sizeofCpuType <;> simp_all
  cases c with
  | queue size =>
    simp only [rounded,elem,mul_one]
    rcases width with w | w | w <;> rw [w] <;> split_ifs <;> omega
  | queue16 p size =>
    simp only [rounded,elem]
    rcases width with w | w | w <;> rw [w] <;> split_ifs <;> omega
  | queue32 p size => exact Dvd.dvd.mul_left word size

theorem size_of_lt (lt : c.rounded cfg < 65536) : c.size cfg = c.rounded cfg := Nat.mod_eq_of_lt lt

/-- A size that the rounding takes to 65536 ends as zero. -/
theorem asked_le_size (word : cfg.sizeofCpuType ∣ 4) (small : c.asked < 65536) :
    c.asked ≤ c.size cfg ↔ c.rounded cfg < 65536 := by
  have bound := rounded_le word small (c := c)
  have least : c.asked ≤ c.rounded cfg := asked_le
  constructor
  · intro enough
    by_contra far
    have full : c.rounded cfg = 65536 := by omega
    have zero : c.asked = 0 := by
      rw [size,full,Nat.mod_self] at enough
      omega
    cases c with
    | queue size =>
      simp only [asked] at zero
      subst zero
      simp [rounded] at full
    | queue16 p size =>
      simp only [asked] at zero
      subst zero
      simp [rounded] at full
    | queue32 p size =>
      simp only [asked] at zero
      subst zero
      simp [rounded] at full
  · intro lt
    rwa [size_of_lt lt]

end CreateCall

namespace Kernel
variable {cfg : Config} (k : Kernel cfg)

/-- iQueueAddress and the tables of the static queues. -/
def queues : ℕ × (ℕ → OsQueue) × (Obj → OsEvent cfg) :=
  (k.iQueueAddress,k.brtosOsQueueTable,k.event)

@[simp] theorem enterTask_queues : k.enterTask.queues = k.queues := by
  unfold enterTask
  split_ifs <;> rfl

@[simp] theorem exitTask_queues : k.exitTask.queues = k.queues := by
  unfold exitTask
  split_ifs <;> rfl

variable {k} in
theorem cursor_of_queues {l : Kernel cfg} (h : k.queues = l.queues) :
    k.iQueueAddress = l.iQueueAddress := congrArg Prod.fst h

@[simp] theorem enterTask_noRoom (words : ℕ) : k.enterTask.NoRoom words ↔ k.NoRoom words := by
  unfold NoRoom
  rw [cursor_of_queues k.enterTask_queues]

end Kernel

namespace QueueStack
variable {cfg : Config} {s t : QueueStack cfg} {c : CreateCall}

variable (s) in
/-- The calls that allocate: made by a task or by main, with a control block left, and let through by
the heap check. -/
def Admits (c : CreateCall) : Prop :=
  s.iNesting = 0 ∧ (c.elem = 1 → s.findEvent .queue cfg.brtosMaxQueue ≠ none) ∧
    ¬ s.NoRoom (c.words cfg)

instance (c : CreateCall) : Decidable (s.Admits c) := by unfold Admits; infer_instance

variable (s) in
/-- No rounding, product or sum of the call leaves its type. -/
def Exact (c : CreateCall) : Prop :=
  c.rounded cfg < 65536 ∧ c.rounded cfg*c.elem ≤ cfg.sizeMax ∧
    s.iQueueAddress+c.rounded cfg*c.elem/cfg.sizeofCpuType ≤ cfg.sizeMax

instance (c : CreateCall) : Decidable (s.Exact c) := by unfold Exact; infer_instance

/-- The storage that a call takes. -/
def storage (s : QueueStack cfg) (c : CreateCall) : Storage :=
  let start := s.iQueueAddress*cfg.sizeofCpuType
  ⟨start,start+c.size cfg*c.elem,c.size cfg,c.asked⟩

/-- What a call leaves alone that does not allocate. -/
structure Refuses (s : QueueStack cfg) (c : CreateCall) : Prop where
  code {code : ℕ} {data : List ℕ} : (s.create c).2 = .ret code data → code ≠ allocEventOk
  queues : (s.create c).1.queues = s.queues
  wide : (s.create c).1.wide = s.wide
  created : (s.create c).1.created = s.created

/-- What a call does that allocates. -/
structure Grants (s : QueueStack cfg) (c : CreateCall) : Prop where
  code : ∃ data, (s.create c).2 = .ret allocEventOk data
  cursor : (s.create c).1.iQueueAddress = (s.iQueueAddress+c.words cfg)%65536
  created : (s.create c).1.created = s.storage c :: s.created

theorem size_le : c.size cfg ≤ cfg.sizeMax := by
  have := Nat.le_of_dvd (by omega) cfg.size_dvd
  have := Nat.mod_lt (c.rounded cfg) (show 0 < 65536 by decide)
  simp only [CreateCall.size]
  omega

theorem queue_words (cfg : Config) (size : ℕ) :
    (CreateCall.queue size).words cfg = (CreateCall.queue size).size cfg/cfg.sizeofCpuType := by
  have : (CreateCall.queue size).size cfg ≤ cfg.sizeMax := size_le
  rw [CreateCall.words,CreateCall.elem,mul_one,Nat.mod_eq_of_lt (by omega)]

theorem queue_size (cfg : Config) {size : ℕ} (small : size < 65536) : (CreateCall.queue size).size cfg =
    if size%cfg.sizeofCpuType ≠ 0 then (size+(cfg.sizeofCpuType-size%cfg.sizeofCpuType))%65536
    else size := by
  simp only [CreateCall.size,CreateCall.rounded]
  split_ifs
  · rfl
  · exact Nat.mod_eq_of_lt small

theorem queue16_size {p size : ℕ} (word : cfg.sizeofCpuType ∣ 4) (small : size < 65536) :
    (CreateCall.queue16 p size).size cfg =
      if size*2%(cfg.sizeMax+1)%cfg.sizeofCpuType ≠ 0 then (size+1)%65536 else size := by
  have divides : cfg.sizeofCpuType ∣ cfg.sizeMax+1 :=
    word.trans ((by decide : 4 ∣ 65536).trans cfg.size_dvd)
  rw [Nat.mod_mod_of_dvd _ divides]
  simp only [CreateCall.size,CreateCall.rounded]
  split_ifs
  · rfl
  · exact Nat.mod_eq_of_lt small

theorem refuses_of_same {k : Kernel cfg} {code : ℕ} (failed : code ≠ allocEventOk)
    (made : s.create c = ({ s with toKernel := k },.ret code [])) (same : k.queues = s.queues) :
    s.Refuses c := by
  refine ⟨fun {n l} h => ?_,?_,?_,?_⟩
  · rw [made] at h
    obtain ⟨rfl,_⟩ := Reply.ret.inj h
    exact failed
  · rw [made]
    exact same
  · rw [made]
  · rw [made]

/-- The outcome of OSQueueCreate. -/
theorem queue_outcome {size : ℕ} (small : size < 65536) :
    if s.Admits (.queue size) then s.Grants (.queue size) else s.Refuses (.queue size) := by
  have words := queue_words cfg size
  have coded := queue_size cfg small
  by_cases nested : 0 < s.iNesting
  · rw [if_neg fun admitted => absurd admitted.1 (by omega)]
    exact refuses_of_same (by decide : irqPendErr ≠ allocEventOk)
      (by simp only [create,Kernel.osQueueCreate,nested,if_true]) rfl
  by_cases full : s.NoRoom ((CreateCall.queue size).words cfg)
  · rw [if_neg fun admitted => admitted.2.2 full]
    refine refuses_of_same (k := s.enterTask.exitTask) (by decide : noMemory ≠ allocEventOk) ?_ (by simp)
    rw [words,coded] at full
    simp only [create,Kernel.osQueueCreate,nested,if_false,Kernel.enterTask_noRoom,full,if_true]
  rw [words,coded] at full
  cases found : s.findEvent .queue cfg.brtosMaxQueue with
  | none =>
    rw [if_neg fun admitted => admitted.2.1 rfl found]
    refine refuses_of_same (k := s.enterTask.exitTask) (by decide : noAvailableEvent ≠ allocEventOk) ?_
      (by simp)
    simp only [create,Kernel.osQueueCreate,nested,if_false,Kernel.enterTask_noRoom,full,
      Kernel.enterTask_findEvent,found]
  | some i =>
    rw [if_pos ⟨by omega,fun _ => by rw [found]; simp,by rwa [words,coded]⟩]
    have begun : s.enterTask.iQueueAddress = s.iQueueAddress :=
      Kernel.cursor_of_queues s.enterTask_queues
    have made : s.osQueueCreate size = ((((({ s.enterTask with
        iQueueAddress := (s.iQueueAddress+(CreateCall.queue size).words cfg)%65536 } :
          Kernel cfg).setQueue .static i { s.brtosOsQueueTable i with
            osqStart := s.iQueueAddress*cfg.sizeofCpuType, osqTSize := 1
            osqLength := (CreateCall.queue size).size cfg, osqEntries := 0
            osqEnd := s.iQueueAddress*cfg.sizeofCpuType+(CreateCall.queue size).size cfg
            osqIn := s.iQueueAddress*cfg.sizeofCpuType
            osqOut := s.iQueueAddress*cfg.sizeofCpuType }).allocEvent (.queue i)).exitTask),
              .ret allocEventOk [i]) := by
      have table : s.enterTask.brtosOsQueueTable = s.brtosOsQueueTable :=
        congrArg (fun q => q.2.1) s.enterTask_queues
      simp only [Kernel.osQueueCreate,nested,if_false,Kernel.enterTask_noRoom,full,
        Kernel.enterTask_findEvent,found,words,coded,begun,Kernel.queue,table]
    have block : ∀ k : Kernel cfg, ∀ q, ((k.setQueue .static i q).allocEvent (.queue i)).exitTask.queue
        .static i = q := fun k q => by
      have table := congrArg (fun q => q.2.1 i)
        ((k.setQueue .static i q).allocEvent (.queue i)).exitTask_queues
      exact table.trans (Function.update_self _ _ _)
    refine ⟨⟨[i],?_⟩,?_,?_⟩
    · simp only [create,made]
    · simp only [create,made]
      exact Kernel.cursor_of_queues (Kernel.exitTask_queues _)
    · simp only [create,made,block,storage,CreateCall.elem,CreateCall.asked,mul_one]

/-- The outcome of the two functions that take the caller's control block. -/
theorem carve_outcome {p size : ℕ} {r : Kernel cfg × ℕ × Option OsWideQueue} (wide : c.elem ≠ 1)
    (made : s.create c = s.stored p c.asked r) (calm : s.iNesting = 0)
    (carved : r = s.enterTask.carve c.elem size) (coded : c.size cfg = size) :
    if s.Admits c then s.Grants c else s.Refuses c := by
  have words : c.words cfg = size*c.elem%(cfg.sizeMax+1)/cfg.sizeofCpuType := by
    rw [CreateCall.words,coded]
  by_cases full : s.NoRoom (c.words cfg)
  · rw [if_neg fun admitted => admitted.2.2 full]
    refine refuses_of_same (k := s.enterTask.exitTask) (by decide : noMemory ≠ allocEventOk) ?_ (by simp)
    rw [words] at full
    rw [made,carved]
    simp only [Kernel.carve,Kernel.enterTask_noRoom,full,if_true,stored]
  · rw [if_pos ⟨calm,fun one => absurd one wide,full⟩]
    have begun : s.enterTask.iQueueAddress = s.iQueueAddress :=
      Kernel.cursor_of_queues s.enterTask_queues
    rw [words] at full
    refine ⟨⟨[],?_⟩,?_,?_⟩
    · rw [made,carved]
      simp only [Kernel.carve,Kernel.enterTask_noRoom,full,if_false,stored]
    · rw [made,carved,words]
      simp only [Kernel.carve,Kernel.enterTask_noRoom,full,if_false,stored,begun]
      exact Kernel.cursor_of_queues (Kernel.exitTask_queues _)
    · rw [made,carved]
      simp only [Kernel.carve,Kernel.enterTask_noRoom,full,if_false,stored,begun,storage,coded]

/-- A call allocates or leaves everything as it is. -/
theorem create_outcome (word : cfg.sizeofCpuType ∣ 4) (small : c.asked < 65536) :
    if s.Admits c then s.Grants c else s.Refuses c := by
  cases c with
  | queue size => exact queue_outcome small
  | queue16 p size =>
    by_cases nested : 0 < s.iNesting
    · rw [if_neg fun admitted => absurd admitted.1 (by omega)]
      exact refuses_of_same (by decide : irqPendErr ≠ allocEventOk)
        (by simp only [create,Kernel.osQueue16Create,nested,if_true,stored]) rfl
    · refine carve_outcome (p := p) (by simp [CreateCall.elem]) rfl (by omega) ?_
        (queue16_size word small)
      simp only [Kernel.osQueue16Create,nested,if_false,CreateCall.elem]
  | queue32 p size =>
    by_cases nested : 0 < s.iNesting
    · rw [if_neg fun admitted => absurd admitted.1 (by omega)]
      exact refuses_of_same (by decide : irqPendErr ≠ allocEventOk)
        (by simp only [create,Kernel.osQueue32Create,nested,if_true,stored]) rfl
    · have coded : (CreateCall.queue32 p size).size cfg = size := Nat.mod_eq_of_lt small
      refine carve_outcome (p := p) (by simp [CreateCall.elem]) rfl (by omega) ?_ coded
      simp only [Kernel.osQueue32Create,nested,if_false,CreateCall.elem]

/-! ### Sequences of calls -/

variable (s) in
/-- The created queues lie one behind the other below the cursor, which has not left the stack. -/
structure Stacked : Prop where
  cursor : s.iQueueAddress ≤ cfg.queueHeapSize/cfg.sizeofCpuType
  enough {q : Storage} : q ∈ s.created → q.asked ≤ q.size
  below {q : Storage} : q ∈ s.created → q.stop ≤ s.iQueueAddress*cfg.sizeofCpuType
  apart : s.created.Pairwise Storage.Apart

variable (s) in
/-- The call keeps within its types, and the cursor within sixteen bits. -/
def InBounds (c : CreateCall) : Prop :=
  c.asked < 65536 ∧ (s.Admits c → s.Exact c ∧
    s.iQueueAddress+c.rounded cfg*c.elem/cfg.sizeofCpuType < 65536)

instance (c : CreateCall) : Decidable (s.InBounds c) := by unfold InBounds; infer_instance

theorem Exact.size (h : s.Exact c) : c.size cfg = c.rounded cfg := CreateCall.size_of_lt h.1

theorem Exact.words (h : s.Exact c) :
    c.words cfg = c.rounded cfg*c.elem/cfg.sizeofCpuType := by
  have bytes := h.2.1
  rw [CreateCall.words,h.size,Nat.mod_eq_of_lt (by omega)]

/-- The storage ends where the cursor goes. -/
theorem Exact.stop (h : s.Exact c) (word : cfg.sizeofCpuType ∣ 4) : (s.storage c).stop =
    (s.iQueueAddress+c.words cfg)*cfg.sizeofCpuType := by
  rw [h.words,Nat.add_mul,Nat.div_mul_cancel (CreateCall.word_dvd word),← h.size]
  rfl

theorem Exact.room (h : s.Exact c) (admits : s.Admits c) :
    s.iQueueAddress+c.words cfg ≤ cfg.queueHeapSize/cfg.sizeofCpuType := by
  have checked := admits.2.2
  have sum := h.2.2
  rw [← h.words] at sum
  rwa [Kernel.NoRoom,Nat.mod_eq_of_lt (by omega),not_lt] at checked

/-- A call that allocates does it well exactly if no rounding, product or sum leaves its type. -/
theorem fits_iff (word : cfg.sizeofCpuType ∣ 4) (heap : cfg.queueHeapSize ≤ cfg.sizeMax)
    (small : c.asked < 65536) (admits : s.Admits c) :
    (s.storage c).Fits cfg ↔ s.Exact c := by
  have positive : 0 < cfg.sizeofCpuType := Nat.pos_of_dvd_of_pos word (by decide)
  constructor
  · rintro ⟨enough,inside⟩
    have lt : c.rounded cfg < 65536 := (CreateCall.asked_le_size word small).mp enough
    have size := CreateCall.size_of_lt lt
    have stack := Nat.div_mul_le_self cfg.queueHeapSize cfg.sizeofCpuType
    have stop : (s.storage c).stop =
        s.iQueueAddress*cfg.sizeofCpuType+c.rounded cfg*c.elem := by rw [← size]; rfl
    have words := Nat.div_le_self (c.rounded cfg*c.elem) cfg.sizeofCpuType
    have cursor := Nat.le_mul_of_pos_right s.iQueueAddress positive
    rw [stop] at inside
    exact ⟨lt,by omega,by omega⟩
  · intro clean
    refine ⟨(CreateCall.asked_le_size word small).mpr clean.1,?_⟩
    rw [clean.stop word]
    exact Nat.mul_le_mul_right _ (clean.room admits)

theorem Refuses.stacked (h : s.Refuses c) (stacked : s.Stacked) : (s.create c).1.Stacked := by
  have cursor := Kernel.cursor_of_queues h.queues
  exact
  { cursor := cursor ▸ stacked.cursor
    enough := fun {q} hq => stacked.enough (h.created ▸ hq)
    below := fun {q} hq => by
      rw [cursor]
      exact stacked.below (h.created ▸ hq)
    apart := h.created ▸ stacked.apart }

theorem Grants.stacked (h : s.Grants c) (stacked : s.Stacked) (word : cfg.sizeofCpuType ∣ 4)
    (admits : s.Admits c) (bounds : s.InBounds c) : (s.create c).1.Stacked := by
  obtain ⟨small,fits⟩ := bounds
  obtain ⟨clean,low⟩ := fits admits
  have cursor : (s.create c).1.iQueueAddress = s.iQueueAddress+c.words cfg := by
    rw [h.cursor,Nat.mod_eq_of_lt (by rwa [clean.words])]
  have stop := clean.stop word
  have grown : s.iQueueAddress*cfg.sizeofCpuType ≤
      (s.iQueueAddress+c.words cfg)*cfg.sizeofCpuType := Nat.mul_le_mul_right _ (Nat.le_add_right _ _)
  refine ⟨?_,fun {q} hq => ?_,fun {q} hq => ?_,?_⟩
  · rw [cursor]
    exact clean.room admits
  · rw [h.created] at hq
    cases hq with
    | head => exact (CreateCall.asked_le_size word small).mpr clean.1
    | tail _ old => exact stacked.enough old
  · rw [h.created] at hq
    rw [cursor]
    cases hq with
    | head => exact stop.le
    | tail _ old => exact (stacked.below old).trans grown
  · rw [h.created]
    exact List.pairwise_cons.mpr ⟨fun q hq => Or.inr (stacked.below hq),stacked.apart⟩

theorem Stacked.step (h : s.Stacked) (word : cfg.sizeofCpuType ∣ 4) (bounds : s.InBounds c)
    (next : s.step c = some t) : t.Stacked := by
  obtain rfl := Option.some.inj next
  have outcome := create_outcome (s := s) word bounds.1
  split_ifs at outcome with admits
  · exact outcome.stacked h word admits bounds
  · exact outcome.stacked h

/-- In every sequence of calls, with whatever sizes, whose roundings, products and sums stay within
their types, the created queues have the room that was asked for, on QUEUE_STACK and apart from each
other. A call that fails changes nothing, and one that succeeds does so properly exactly if it keeps
within its types. -/
theorem stacked_of_inBounds (word : cfg.sizeofCpuType ∣ 4) (heap : cfg.queueHeapSize ≤ cfg.sizeMax)
    (start : s.iQueueAddress ≤ cfg.queueHeapSize/cfg.sizeofCpuType) (empty : s.created = [])
    (run : Run.Reach step InBounds s t) :
    (∀ q ∈ t.created, q.Fits cfg) ∧ t.created.Pairwise Storage.Apart ∧
      ∀ c, c.asked < 65536 → ∀ code data, (t.create c).2 = .ret code data →
        if code = allocEventOk then ∃ q, (t.create c).1.created = q :: t.created ∧
          q.asked = c.asked ∧ (∀ r ∈ t.created, q.Apart r) ∧ (q.Fits cfg ↔ t.Exact c)
        else (t.create c).1.queues = t.queues ∧ (t.create c).1.wide = t.wide := by
  have stacked : t.Stacked := by
    induction run with
    | refl => exact ⟨start,by simp [empty],by simp [empty],by simp [empty]⟩
    | tail _ bounds next ih => exact ih.step word bounds next
  refine ⟨fun q hq => ⟨stacked.enough hq,?_⟩,stacked.apart,fun c small code data reply => ?_⟩
  · exact (stacked.below hq).trans (Nat.mul_le_mul_right _ stacked.cursor)
  have outcome := create_outcome (s := t) word small
  split_ifs at outcome with admits
  · obtain ⟨data',granted⟩ := outcome.code
    obtain ⟨rfl,_⟩ := Reply.ret.inj (reply.symm.trans granted)
    rw [if_pos rfl]
    exact ⟨t.storage c,outcome.created,rfl,fun r hr => Or.inr (stacked.below hr),
      fits_iff word heap small admits⟩
  · rw [if_neg (outcome.code reply)]
    exact ⟨outcome.queues,outcome.wide⟩

/-- The stack of the simulator before the first call. -/
def fresh : QueueStack .simulator :=
  { Kernel.brtosInit .simulator with wide := fun _ => ⟨0,0,0,0,0,0⟩, created := [] }

/-- A queue of ten bytes takes three words, one of five halfwords takes three more. -/
theorem stacked_example : ∃ s : QueueStack .simulator,
    s.created = [⟨12,24,6,5⟩,⟨0,12,12,10⟩] ∧ (∀ q ∈ s.created, q.Fits .simulator) := by
  obtain ⟨s,run,created⟩ := Run.exists_reach_of_exec step InBounds fresh
    [.queue 10,.queue16 0 5] (fun s => s.created = [⟨12,24,6,5⟩,⟨0,12,12,10⟩]) (by decide +kernel)
  exact ⟨s,created,(stacked_of_inBounds (by decide) (by decide) (by decide) rfl run).1⟩

/-- The size 65535 rounds to nothing and passes the heap check. -/
theorem stacked_fails : (fresh.create (.queue 65535)).2 = .ret allocEventOk [0] ∧
    (fresh.create (.queue 65535)).1.created = [⟨0,0,0,65535⟩] ∧
    ¬ Storage.Fits .simulator ⟨0,0,0,65535⟩ := by
  refine ⟨by decide +kernel,by decide +kernel,fun fits => absurd fits.1 (by decide)⟩

end QueueStack
end Brtos
