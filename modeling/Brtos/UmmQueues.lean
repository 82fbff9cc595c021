import Brtos.Config
import Brtos.UmmGaps

/-! The memory of the dynamic queues: OSDQueueCreate takes three regions or none, and OSDQueueDelete finds
them again through the pointers that it reads from the heap. -/
namespace Brtos
namespace World
variable {n : ℕ} {fit : Fit} {w w' : World n} {r : Region} {a v p size : ℕ}

def malloc (fit : Fit) (w : World n) (size : ℕ) : Option (World n × Option ℕ) := do
  match ← w.heap.ummMalloc fit size with
  | (u,none) => return ({w with heap := u},none)
  | (u,some p) => return (w.hand u size p,some p)

def free (w : World n) (p : Option ℕ) : Option (World n) := do
  return {w with heap := ← w.heap.ummFree p,held := w.held.filter fun r => some r.ptr ≠ p}

def put (w : World n) (a v : ℕ) : World n :=
  {w with heap := w.heap.poke a v,wrote := Function.update w.wrote a (some (v % 256))}

/-- A pointer is stored with its lowest byte first; NULL is 0. -/
def putPointer (w : World n) (a p : ℕ) : World n :=
  (((w.put a p).put (a + 1) (p / 256)).put (a + 2) (p / 65536)).put (a + 3) (p / 16777216)

def getPointer (w : World n) (a : ℕ) : ℕ :=
  w.heap.peek a + 256 * w.heap.peek (a + 1) + 65536 * w.heap.peek (a + 2) + 16777216 * w.heap.peek (a + 3)

/-! The structures on a machine with pointers of four bytes: OSQStart is the first member of the queue's
handler, OSEventPointer the fourth one of the event. -/

def sizeofOsDqueue : ℕ := 24
def sizeofBrtosQueue : ℕ := 12
def eventPointer : ℕ := 4

/-- The allocations of OSDQueueCreate, with its result and the pointer that it leaves in `event`. -/
def osDQueueCreate (fit : Fit) (iNesting : ℕ) (w : World n) (queueLength typeSize : ℕ) :
    Option (World n × ℕ × Option ℕ) := do
  if 0 < iNesting then
    return (w,irqPendErr,none)
  else if 0 < queueLength ∧ 0 < typeSize then
    match ← w.malloc fit sizeofOsDqueue with
    | (w,none) => return (w,noAvailableMemory,none)
    | (w,some cqueue) =>
      let sizeInBytes := queueLength * typeSize % 65536
      let (w,start) ← w.malloc fit sizeInBytes
      let w := w.putPointer cqueue (start.getD 0)
      if start = none then
        return (← w.free (some cqueue),noAvailableMemory,none)
      else
        match ← w.malloc fit sizeofBrtosQueue with
        | (w,none) =>
          let w ← w.free (some (w.getPointer cqueue))
          return (← w.free (some cqueue),noAvailableEvent,none)
        | (w,some event) => return (w.putPointer (event + eventPointer) cqueue,allocEventOk,some event)
  else
    return (w,invalidParameters,none)

/-- The deallocations of OSDQueueDelete, with its result. -/
def osDQueueDelete (iNesting : ℕ) (w : World n) (event : ℕ) : Option (World n × ℕ) := do
  if 0 < iNesting then
    return (w,irqPendErr)
  else
    let cqueue := w.getPointer (event + eventPointer)
    let w ← w.free (some (w.getPointer cqueue))
    let w ← w.free (some cqueue)
    return (← w.free (some event),deleteEventOk)

/-! ### The calls as steps of a run -/

theorem Reached.malloc (small : n ≤ 32768) (zero : 0 < n) (h : Reached fit w) (fits : size < 524277) :
    w.malloc fit size = some (w,none) ∨ ∃ w' p, w.malloc fit size = some (w',some p) ∧ Reached fit w' ∧
      w'.held = ⟨p,size⟩ :: w.held ∧ ∀ a, ¬ (Region.mk p size).Has a → w'.wrote a = w.wrote a := by
  have given : ∀ u p, w.heap.ummMalloc fit size = some (u,some p) →
      w.malloc fit size = some (w.hand u size p,some p) ∧ Reached fit (w.hand u size p) := by
    intro u p eq
    refine ⟨by simp [World.malloc,eq],Run.Reach.tail (a := Use.malloc size) h fits ?_⟩
    simp [perform,eq]
  have refused : w.heap.ummMalloc fit size = some (w.heap,none) → w.malloc fit size = some (w,none) := by
    intro eq
    simp [World.malloc,eq]
  have new : ∀ u p, ∀ a, ¬ (Region.mk p size).Has a → (w.hand u size p).wrote a = w.wrote a :=
    fun u p a ha => if_neg ha
  rcases Nat.eq_zero_or_pos size with rfl | pos
  · exact Or.inl (refused (by simp [Umm.ummMalloc]))
  rcases h.fine small zero with rfl | ⟨l,f,z,kept⟩
  · rcases Umm.ummMalloc_zero small zero fit pos fits with ⟨eq,-⟩ | ⟨u,u',-,eq,-,-⟩
    · exact Or.inl (refused eq)
    · exact Or.inr ⟨_,_,(given u' _ eq).1,(given u' _ eq).2,rfl,new u' _⟩
  · rcases Umm.ummMalloc_spec kept.laid kept.apart fit pos fits with ⟨eq,-⟩ | ⟨u,c,l',f',z',eq,-,-⟩
    · exact Or.inl (refused eq)
    · exact Or.inr ⟨_,_,(given u _ eq).1,(given u _ eq).2,rfl,new u _⟩

theorem Reached.free (small : n ≤ 32768) (zero : 0 < n) (h : Reached fit w) (hr : r ∈ w.held) :
    ∃ w', w.free (some r.ptr) = some w' ∧ Reached fit w' ∧ w'.wrote = w.wrote ∧
      w'.held = w.held.filter fun s => some s.ptr ≠ some r.ptr := by
  obtain ⟨w',eq⟩ := reached_perform small zero h (x := .free (some r.ptr)) ⟨r,hr,rfl⟩
  refine ⟨w',eq,Run.Reach.tail (a := .free (some r.ptr)) h ⟨r,hr,rfl⟩ eq,?_⟩
  simp only [perform,Option.bind_eq_bind] at eq
  obtain ⟨u,-,eq⟩ := Option.bind_eq_some_iff.mp eq
  obtain rfl := Option.some.inj eq
  exact ⟨rfl,rfl⟩

theorem Reached.put (h : Reached fit w) (hr : r ∈ w.held) (ha : r.Has a) (v : ℕ) : Reached fit (w.put a v) :=
  Run.Reach.tail (a := Use.store a v) h ⟨r,hr,ha⟩ rfl

/-! ### Pointers in the heap -/

/-- The four bytes at `a` have been written with the pointer `p`. -/
def Points (w : World n) (a p : ℕ) : Prop := ∀ i < 4, w.wrote (a + i) = some (p / 256 ^ i % 256)

theorem putPointer_wrote (b : ℕ) : (w.putPointer a p).wrote b =
    if a ≤ b ∧ b < a + 4 then some (p / 256 ^ (b - a) % 256) else w.wrote b := by
  by_cases inside : a ≤ b ∧ b < a + 4
  · obtain ⟨i,rfl⟩ := Nat.exists_eq_add_of_le inside.1
    rw [if_pos inside,Nat.add_sub_cancel_left]
    have : i < 4 := by omega
    interval_cases i <;> simp [putPointer,put,Function.update]
  · rw [if_neg inside]
    simp only [putPointer,put]
    rw [Function.update_of_ne (by omega),Function.update_of_ne (by omega),Function.update_of_ne (by omega),
      Function.update_of_ne (by omega)]

theorem putPointer_points : (w.putPointer a p).Points a p := fun i hi => by
  rw [putPointer_wrote,if_pos (by omega),Nat.add_sub_cancel_left]

theorem Reached.putPointer (h : Reached fit w) (hr : r ∈ w.held) (lo : r.ptr ≤ a) (hi : a + 4 ≤ r.ptr + r.size)
    (p : ℕ) : Reached fit (w.putPointer a p) := by
  have h0 := h.put hr (a := a) ⟨lo,by omega⟩ p
  have h1 := h0.put hr (a := a + 1) ⟨by omega,by omega⟩ (p / 256)
  have h2 := h1.put hr (a := a + 2) ⟨by omega,by omega⟩ (p / 65536)
  exact h2.put hr (a := a + 3) ⟨by omega,by omega⟩ (p / 16777216)

/-- A pointer in a region reads as it has been written. -/
theorem Reached.getPointer (small : n ≤ 32768) (zero : 0 < n) (h : Reached fit w) (hr : r ∈ w.held)
    (lo : r.ptr ≤ a) (hi : a + 4 ≤ r.ptr + r.size) (points : w.Points a p) (short : p < 4294967296) :
    w.getPointer a = p := by
  have read : ∀ i < 4, w.heap.peek (a + i) = p / 256 ^ i % 256 := fun i lt =>
    (reached_regions small zero h).2.2 r hr (a + i) ⟨by omega,by omega⟩ _ (points i lt)
  have r0 := read 0 (by omega)
  have r1 := read 1 (by omega)
  have r2 := read 2 (by omega)
  have r3 := read 3 (by omega)
  norm_num at r0 r1 r2 r3
  unfold World.getPointer
  omega

/-! ### The queue's three regions -/

/-- The regions of a queue are held, and the pointers between them are in place. -/
structure QueueAt (w : World n) (event cqueue start size : ℕ) : Prop where
  eventHeld : ⟨event,sizeofBrtosQueue⟩ ∈ w.held
  handlerHeld : ⟨cqueue,sizeofOsDqueue⟩ ∈ w.held
  ringHeld : ⟨start,size⟩ ∈ w.held
  distinct : event ≠ cqueue ∧ event ≠ start ∧ cqueue ≠ start
  toHandler : w.Points (event + eventPointer) cqueue
  toRing : w.Points cqueue start

theorem Reached.address (small : n ≤ 32768) (zero : 0 < n) (h : Reached fit w) (hr : r ∈ w.held) :
    r.ptr < 4294967296 := by
  have := (reached_regions small zero h).1 r hr
  omega

/-- The last region has nothing of the others. -/
theorem Reached.apart (small : n ≤ 32768) (zero : 0 < n) (h : Reached fit w) {s : Region} {rest : List Region}
    (held : w.held = s :: rest) (hr : r ∈ rest) (ha : r.Has a) : ¬ s.Has a := by
  have := (reached_regions small zero h).2.1
  rw [held] at this
  exact fun hs => (List.pairwise_cons.mp this).1 r hr a hs ha

theorem Reached.distinct (small : n ≤ 32768) (zero : 0 < n) (h : Reached fit w) :
    w.held.Pairwise fun r s => r.ptr ≠ s.ptr := by
  rcases h.fine small zero with rfl | ⟨l,f,z,kept⟩
  · exact List.Pairwise.nil
  · exact kept.distinct

/-- The last region is given back. -/
theorem Reached.filter_cons (small : n ≤ 32768) (zero : 0 < n) (h : Reached fit w) {s : Region}
    {rest : List Region} (held : w.held = s :: rest) :
    (w.held.filter fun r => some r.ptr ≠ some s.ptr) = rest := by
  have distinct := h.distinct small zero
  rw [held] at distinct ⊢
  rw [List.filter_cons_of_neg (by simp)]
  refine List.filter_eq_self.mpr fun r hr => ?_
  have := (List.pairwise_cons.mp distinct).1 r hr
  simpa using this.symm

/-- A queue is created with its three regions, or not at all: then the regions in use are what they were,
and so is what has been written there. -/
theorem osDQueueCreate_all_or_nothing (small : n ≤ 32768) (zero : 0 < n) (h : Reached fit w)
    (iNesting queueLength typeSize : ℕ) : ∃ w' code event,
      w.osDQueueCreate fit iNesting queueLength typeSize = some (w',code,event) ∧ Reached fit w' ∧
        (∀ r ∈ w.held, ∀ a, r.Has a → w'.wrote a = w.wrote a) ∧
        (code ≠ allocEventOk ∧ event = none ∧ w'.held = w.held ∨
          code = allocEventOk ∧ ∃ e cqueue start, event = some e ∧
            w'.QueueAt e cqueue start (queueLength * typeSize % 65536) ∧
            w'.held = [⟨e,sizeofBrtosQueue⟩,⟨start,queueLength * typeSize % 65536⟩,
              ⟨cqueue,sizeofOsDqueue⟩] ++ w.held) := by
  by_cases nested : 0 < iNesting
  · exact ⟨w,irqPendErr,none,by simp only [osDQueueCreate,if_pos nested]; rfl,h,fun _ _ _ _ => rfl,
      Or.inl ⟨by decide,rfl,rfl⟩⟩
  by_cases sane : 0 < queueLength ∧ 0 < typeSize
  swap
  · exact ⟨w,invalidParameters,none,by simp only [osDQueueCreate,if_neg nested,if_neg sane]; rfl,h,
      fun _ _ _ _ => rfl,Or.inl ⟨by decide,rfl,rfl⟩⟩
  generalize hs : queueLength * typeSize % 65536 = size
  have fits : size < 524277 := by omega
  rcases @Reached.malloc _ _ _ sizeofOsDqueue small zero h (by decide) with eq | ⟨w₁,c,eq,h₁,held₁,wrote₁⟩
  · exact ⟨w,noAvailableMemory,none,by simp [osDQueueCreate,nested,sane,eq],h,fun _ _ _ _ => rfl,
      Or.inl ⟨by decide,rfl,rfl⟩⟩
  have same₁ : ∀ r ∈ w.held, ∀ a, r.Has a → w₁.wrote a = w.wrote a := fun r hr a ha =>
    wrote₁ a (h₁.apart small zero held₁ hr ha)
  have outside : ∀ r ∈ w.held, ∀ a, r.Has a → ¬ (c ≤ a ∧ a < c + 4) := fun r hr a ha inside =>
    h₁.apart small zero held₁ hr ha ⟨inside.1,by simp only [sizeofOsDqueue]; omega⟩
  rcases h₁.malloc small zero fits with eq₂ | ⟨w₂,s,eq₂,h₂,held₂,wrote₂⟩
  · have hc : ⟨c,sizeofOsDqueue⟩ ∈ w₁.held := by simp [held₁]
    have h₃ := h₁.putPointer hc le_rfl (by simp [sizeofOsDqueue]) 0
    obtain ⟨w₄,eq₄,h₄,wrote₄,held₄⟩ := h₃.free small zero (r := ⟨c,sizeofOsDqueue⟩) hc
    refine ⟨w₄,noAvailableMemory,none,by simp [osDQueueCreate,nested,sane,eq,hs,eq₂,eq₄],h₄,fun r hr a ha => ?_,
      Or.inl ⟨by decide,rfl,?_⟩⟩
    · rw [wrote₄,putPointer_wrote,if_neg (outside r hr a ha),same₁ r hr a ha]
    · rw [held₄]
      exact h₃.filter_cons small zero held₁
  have ne : w₂.held = ⟨s,size⟩ :: ⟨c,sizeofOsDqueue⟩ :: w.held := by rw [held₂,held₁]
  have hc : ⟨c,sizeofOsDqueue⟩ ∈ w₂.held := by simp [ne]
  have h₃ := h₂.putPointer hc le_rfl (by simp [sizeofOsDqueue]) s
  have toRing : (w₂.putPointer c s).Points c s := putPointer_points
  have same₃ : ∀ r ∈ w.held, ∀ a, r.Has a → (w₂.putPointer c s).wrote a = w.wrote a := fun r hr a ha => by
    rw [putPointer_wrote,if_neg (outside r hr a ha),
      wrote₂ a (h₂.apart small zero ne (List.mem_cons_of_mem _ hr) ha),same₁ r hr a ha]
  rcases @Reached.malloc _ _ _ sizeofBrtosQueue small zero h₃ (by decide) with eq₄ | ⟨w₄,e,eq₄,h₄,held₄,wrote₄⟩
  · have read : (w₂.putPointer c s).getPointer c = s :=
      h₃.getPointer small zero hc le_rfl (by simp [sizeofOsDqueue]) toRing
        (h₂.address small zero (r := ⟨s,size⟩) (by simp [ne]))
    obtain ⟨w₅,eq₅,h₅,wrote₅,held₅⟩ := h₃.free small zero (r := ⟨s,size⟩) (by
      change _ ∈ w₂.held
      simp [ne])
    rw [h₃.filter_cons small zero ne] at held₅
    obtain ⟨w₆,eq₆,h₆,wrote₆,held₆⟩ := h₅.free small zero (r := ⟨c,sizeofOsDqueue⟩) (by simp [held₅])
    rw [h₅.filter_cons small zero held₅] at held₆
    refine ⟨w₆,noAvailableEvent,none,by simp [osDQueueCreate,nested,sane,eq,hs,eq₂,eq₄,read,eq₅,eq₆],h₆,
      fun r hr a ha => ?_,Or.inl ⟨by decide,rfl,held₆⟩⟩
    rw [wrote₆,wrote₅,same₃ r hr a ha]
  · have whole : w₄.held = ⟨e,sizeofBrtosQueue⟩ :: ⟨s,size⟩ :: ⟨c,sizeofOsDqueue⟩ :: w.held :=
      held₄.trans (congrArg _ ne)
    have he : ⟨e,sizeofBrtosQueue⟩ ∈ w₄.held := by simp [whole]
    have h₅ := h₄.putPointer (a := e + eventPointer) he (by simp) (by simp [sizeofBrtosQueue,eventPointer]) c
    have elsewhere : ∀ r ∈ w₄.held, r ≠ ⟨e,sizeofBrtosQueue⟩ → ∀ a, r.Has a →
        (w₄.putPointer (e + eventPointer) c).wrote a = (w₂.putPointer c s).wrote a := by
      intro r hr ne a ha
      rw [whole] at hr
      have out := h₄.apart small zero whole ((List.mem_cons.mp hr).resolve_left ne) ha
      have out' : ¬ (e + eventPointer ≤ a ∧ a < e + eventPointer + 4) := fun inside =>
        out ⟨by simp only; omega,by simp only [sizeofBrtosQueue,eventPointer] at *; omega⟩
      rw [putPointer_wrote,if_neg out',wrote₄ a out]
    have other : ∀ r ∈ w₂.held, r ≠ ⟨e,sizeofBrtosQueue⟩ := fun r hr same => by
      have first : r.Has e := by
        rw [same]
        exact ⟨le_rfl,by simp [sizeofBrtosQueue]⟩
      exact h₄.apart small zero held₄ hr first (same ▸ first)
    refine ⟨_,allocEventOk,some e,by simp [osDQueueCreate,nested,sane,eq,hs,eq₂,eq₄],h₅,fun r hr a ha => ?_,
      Or.inr ⟨rfl,e,c,s,rfl,?_,whole⟩⟩
    · rw [elsewhere r (by simp [whole,hr]) (other r (by simp [ne,hr])) a ha,same₃ r hr a ha]
    · exact {
        eventHeld := he
        handlerHeld := by
          change _ ∈ w₄.held
          simp [whole]
        ringHeld := by
          change _ ∈ w₄.held
          simp [whole]
        distinct := by
          have distinct := h₄.distinct small zero
          rw [whole] at distinct
          have first := (List.pairwise_cons.mp distinct).1
          have second := (List.pairwise_cons.mp distinct.of_cons).1
          exact ⟨first ⟨c,sizeofOsDqueue⟩ (by simp),first ⟨s,size⟩ (by simp),
            (second ⟨c,sizeofOsDqueue⟩ (by simp)).symm⟩
        toHandler := putPointer_points
        toRing := fun i hi => by
          rw [elsewhere ⟨c,sizeofOsDqueue⟩ (by simp [whole]) (other _ hc) (c + i)
            ⟨by simp,by simp only [sizeofOsDqueue]; omega⟩]
          exact toRing i hi }

theorem osDQueueCreate_first : ∃ w' code event, (start 20).osDQueueCreate .first 0 4 4 = some (w',code,event) ∧
    Reached .first w' := by
  obtain ⟨w',code,event,eq,reached,-⟩ :=
    @osDQueueCreate_all_or_nothing 20 .first _ (by decide) (by decide) Run.Reach.refl 0 4 4
  exact ⟨w',code,event,eq,reached⟩

/-- The others free none of the queue's regions and leave its two pointers alone. -/
def Leaves (event cqueue start : ℕ) : Use → Prop
  | .free (some p) => p ≠ event ∧ p ≠ cqueue ∧ p ≠ start
  | .store a _ => ¬ (event + eventPointer ≤ a ∧ a < event + eventPointer + 4) ∧
      ¬ (cqueue ≤ a ∧ a < cqueue + 4)
  | _ => True

variable {x : Use} {e c s : ℕ}

/-- A step keeps the regions that it does not free and the bytes of theirs that it does not store to. -/
theorem Reached.keeps (small : n ≤ 32768) (zero : 0 < n) (h : Reached fit w) (hx : w.Allowed x)
    (next : w.perform fit x = some w') (hr : r ∈ w.held) (kept : x ≠ .free (some r.ptr)) :
    r ∈ w'.held ∧ ∀ a, r.Has a → (∀ v, x ≠ .store a v) → w'.wrote a = w.wrote a := by
  cases x with
  | malloc size =>
    have next' : (w.malloc fit size).map Prod.fst = some w' := by
      rw [← next]
      simp only [World.malloc,perform]
      cases w.heap.ummMalloc fit size with
      | none => rfl
      | some v => rcases v with ⟨u,_ | p⟩ <;> rfl
    rcases h.malloc small zero hx with eq | ⟨w₁,p,eq,h₁,held,wrote⟩
    · obtain rfl : w = w' := by simpa [eq] using next'
      exact ⟨hr,fun _ _ _ => rfl⟩
    · obtain rfl : w₁ = w' := by simpa [eq] using next'
      exact ⟨held ▸ List.mem_cons_of_mem _ hr,fun a ha _ => wrote a (h₁.apart small zero held hr ha)⟩
  | free p =>
    cases p with
    | none =>
      obtain rfl : w = w' := by simpa [perform,Umm.ummFree] using next
      exact ⟨hr,fun _ _ _ => rfl⟩
    | some p =>
      obtain ⟨t,ht,rfl⟩ := hx
      obtain ⟨w₁,eq,h₁,wrote,held⟩ := h.free small zero ht
      obtain rfl : w₁ = w' := Option.some.inj (eq.symm.trans next)
      have ne : r.ptr ≠ t.ptr := fun e => kept (by rw [e])
      exact ⟨by simpa [held] using ⟨hr,ne⟩,fun a _ _ => by rw [wrote]⟩
  | store a v =>
    obtain rfl : w.put a v = w' := Option.some.inj next
    exact ⟨hr,fun b hb hv => Function.update_of_ne (fun e => hv v (by rw [e])) ..⟩

theorem QueueAt.step (small : n ≤ 32768) (zero : 0 < n) (h : Reached fit w) (q : w.QueueAt e c s size)
    (hx : w.Allowed x) (leaves : Leaves e c s x) (next : w.perform fit x = some w') :
    w'.QueueAt e c s size := by
  have notFree : ∀ p, p = e ∨ p = c ∨ p = s → x ≠ .free (some p) := fun p hp eq => by
    subst eq
    simp only [Leaves] at leaves
    omega
  have keepE := h.keeps small zero hx next q.eventHeld (notFree e (Or.inl rfl))
  have keepC := h.keeps small zero hx next q.handlerHeld (notFree c (Or.inr (Or.inl rfl)))
  have keepS := h.keeps small zero hx next q.ringHeld (notFree s (Or.inr (Or.inr rfl)))
  exact {
    eventHeld := keepE.1
    handlerHeld := keepC.1
    ringHeld := keepS.1
    distinct := q.distinct
    toHandler := fun i hi => by
      rw [keepE.2 _ ⟨by simp only; omega,by simp only [sizeofBrtosQueue,eventPointer]; omega⟩ fun v eq => by
        subst eq
        simp only [Leaves] at leaves
        omega]
      exact q.toHandler i hi
    toRing := fun i hi => by
      rw [keepC.2 _ ⟨by simp only; omega,by simp only [sizeofOsDqueue]; omega⟩ fun v eq => by
        subst eq
        simp only [Leaves] at leaves
        omega]
      exact q.toRing i hi }

/-- Whatever the others have done in the meantime, a deleted queue gives back its three regions, and no
other one. In a handler or a critical section nothing is deleted. -/
theorem osDQueueDelete_gives_back (small : n ≤ 32768) (zero : 0 < n) (h : Reached fit w)
    (q : w.QueueAt e c s size)
    (run : Run.Reach (perform fit) (fun w x => w.Allowed x ∧ Leaves e c s x) w w') (iNesting : ℕ) :
    ∃ w'' code, w'.osDQueueDelete iNesting e = some (w'',code) ∧ Reached fit w'' ∧
      (iNesting = 0 ∧ code = deleteEventOk ∧ w''.held = w'.held.filter (fun r => r.ptr ∉ [e,c,s]) ∨
        0 < iNesting ∧ code = irqPendErr ∧ w'' = w') := by
  have later : Reached fit w' ∧ w'.QueueAt e c s size := by
    induction run with
    | refl => exact ⟨h,q⟩
    | tail _ met next ih => exact ⟨ih.1.tail met.1 next,ih.2.step small zero ih.1 met.1 met.2 next⟩
  obtain ⟨h',q'⟩ := later
  by_cases nested : 0 < iNesting
  · exact ⟨w',irqPendErr,by simp [osDQueueDelete,nested],h',Or.inr ⟨nested,rfl,rfl⟩⟩
  obtain ⟨ec,es,cs⟩ := q'.distinct
  have toHandler := h'.getPointer small zero q'.eventHeld (by simp)
    (by simp [sizeofBrtosQueue,eventPointer]) q'.toHandler (h'.address small zero q'.handlerHeld)
  have toRing := h'.getPointer small zero q'.handlerHeld le_rfl (by simp [sizeofOsDqueue]) q'.toRing
    (h'.address small zero q'.ringHeld)
  obtain ⟨w₁,eq₁,h₁,-,held₁⟩ := h'.free small zero q'.ringHeld
  obtain ⟨w₂,eq₂,h₂,-,held₂⟩ := h₁.free small zero (r := ⟨c,sizeofOsDqueue⟩)
    (by rw [held₁]; simpa [cs] using q'.handlerHeld)
  obtain ⟨w₃,eq₃,h₃,-,held₃⟩ := h₂.free small zero (r := ⟨e,sizeofBrtosQueue⟩)
    (by rw [held₂,held₁]; simpa [ec,es] using q'.eventHeld)
  refine ⟨w₃,deleteEventOk,?_,h₃,Or.inl ⟨Nat.eq_zero_of_not_pos nested,rfl,?_⟩⟩
  · simp [osDQueueDelete,nested,toHandler,toRing,eq₁,eq₂,eq₃]
  · rw [held₃,held₂,held₁,List.filter_filter,List.filter_filter]
    refine List.filter_congr fun r _ => ?_
    simp [Bool.and_assoc]

theorem osDQueueDelete_first : ∃ (w w' w'' : World 20) (e : ℕ),
    (start 20).osDQueueCreate .first 0 4 4 = some (w,allocEventOk,some e) ∧ Run.Reach (perform .first) Allowed w w' ∧
      w'.osDQueueDelete 0 e = some (w'',deleteEventOk) ∧ Reached .first w'' := by
  obtain ⟨w,code,event,eq,reached,-,out⟩ :=
    @osDQueueCreate_all_or_nothing 20 .first _ (by decide) (by decide) Run.Reach.refl 0 4 4
  have created : ((start 20).osDQueueCreate .first 0 4 4).map (·.2.1) = some allocEventOk := by decide
  rw [eq] at created
  have ok : code = allocEventOk := Option.some.inj created
  rcases out with ⟨ne,-⟩ | ⟨-,e,c,s,rfl,q,-⟩
  · exact absurd ok ne
  have run : Run.Reach (perform .first) (fun w x => w.Allowed x ∧ Leaves e c s x) w w := .refl
  obtain ⟨w'',code',eq',reached',⟨-,rfl,-⟩ | ⟨nested,-⟩⟩ :=
    osDQueueDelete_gives_back (by decide) (by decide) reached q run 0
  · exact ⟨w,w,w'',e,ok ▸ eq,.refl,eq',reached'⟩
  · contradiction

end World
end Brtos
