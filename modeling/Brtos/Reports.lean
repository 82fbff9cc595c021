import Brtos.Library.Decimal
import Brtos.Library.Words
import Brtos.TimerLists

/-! The reports of OSInfo.c on the uptime and on the memory, with the stores into their local
arrays. -/
namespace Brtos
open Decimal

def int16 (x : ℤ) : ℤ := (x+32768)%65536-32768
def uint16 (x : ℤ) : ℤ := x%65536

/-- The characters of a literal. -/
def chars (s : String) : List ℤ := s.toList.map fun c => (c.toNat : ℤ)

/-- A local array of characters and the memory behind it, with the indices stored to, the last one
first. -/
structure LocalArray where
  cells : ℕ → ℤ
  stores : List ℕ

namespace LocalArray
variable (buff : LocalArray)

def store (i : ℕ) (c : ℤ) : LocalArray := ⟨Function.update buff.cells i c,i :: buff.stores⟩

/-- `for (i = 0; i < n; i++) *(buff + i) = ' ';` -/
def fillLoop : ℕ → LocalArray
  | 0 => buff
  | n+1 => (fillLoop n).store n 32

end LocalArray

/-- The loop of PrintDecimal that goes down from `i`. -/
def convertLoop : ℕ → ℤ → LocalArray → LocalArray × ℕ
  | 0,_,buff => (buff,0)
  | i+1,val,buff =>
    let backup := uint16 val
    let val := int16 (val.tdiv 10)
    let buff := buff.store (i+1) (int8 (backup-val*10+48))
    if val = 0 then (buff,i) else convertLoop i val buff

/-- PrintDecimal; a pointer into `buff` is its index. -/
def printDecimal (val : ℤ) (buff : LocalArray) : LocalArray × ℕ :=
  let buff := (buff.fillLoop 6).store 6 0
  let (val,s) := if val < 0 then (int16 (-val),45) else (val,32)
  let (buff,i) := convertLoop 5 val buff
  let buff := buff.store i s
  if buff.cells i = 45 then (buff,i) else (buff,i+1)

/-- What mem_cpy copies from a source with fewer than `fuel` characters. -/
def memCpy : ℕ → (ℕ → ℤ) → ℕ → Option (List ℤ)
  | 0,_,_ => none
  | fuel+1,src,p => if src p = 0 then some [] else (memCpy fuel src (p+1)).map (src p :: ·)

/-- `(void)PrintDecimal(val, str); string += mem_cpy(string, &str[1]);` in a column, and otherwise
`string += mem_cpy(string, PrintDecimal(val, str));`. -/
def cpyDecimal (column : Bool) (val : ℤ) (r : List ℤ × LocalArray) : Option (List ℤ × LocalArray) := do
  let (str,p) := printDecimal (int16 val) r.2
  let copied ← memCpy 8 str.cells (if column then 1 else p)
  some (r.1++copied,str)

/-- `string += mem_cpy(string, s);` -/
def cpyChars (s : String) (r : List ℤ × LocalArray) : List ℤ × LocalArray := (r.1++chars s,r.2)

/-- The fields of OSUptime and OSUpDate that the report reads. -/
structure Uptime where
  rtcDay : ℕ
  rtcHour : ℕ
  rtcMinute : ℕ
  rtcSecond : ℕ

/-- The day is left out before the first one is over. -/
def cpyDay (u : Uptime) (r : List ℤ × LocalArray) : Option (List ℤ × LocalArray) :=
  if u.rtcDay > 0 then (cpyDecimal false u.rtcDay r).map (cpyChars "d ") else some r

/-- The string and the local array of OSUptimeInfo. -/
def osUptimeInfo (u : Uptime) (str : LocalArray) : Option (List ℤ × LocalArray) := do
  let r ← cpyDay u (cpyChars "\n\rBRTOS UPTIME: " ([],str))
  let r ← (cpyDecimal false u.rtcHour r).map (cpyChars "h ")
  let r ← (cpyDecimal false u.rtcMinute r).map (cpyChars "m ")
  let r ← (cpyDecimal false u.rtcSecond r).map (cpyChars "s\n\r")
  some (r.1++[0],r.2)

/-- A line of OSAvailableMemory: the size in use and the size of the heap. -/
def cpyHeap (used size : ℕ) (r : List ℤ × LocalArray) : Option (List ℤ × LocalArray) := do
  let r ← (cpyDecimal true used r).map (cpyChars " of ")
  cpyDecimal false size r

/-- The lines of a build with a queue heap. -/
def cpyQueueHeap {cfg : Config} (k : Kernel cfg) (r : List ℤ × LocalArray) :
    Option (List ℤ × LocalArray) :=
  if cfg.queueHeapSize > 0 then
    let address := k.iQueueAddress*cfg.sizeofCpuType%65536
    cpyHeap address cfg.queueHeapSize (cpyChars "\n\rSTATIC QUEUE MEMORY HEAP:  " r)
  else some r

/-- The lines on the dynamic queues, where these are enabled: OSGetUsedHeapSize and
DYNAMIC_HEAP_SIZE. -/
def cpyDynamicQueue : Option (ℕ × ℕ) → List ℤ × LocalArray → Option (List ℤ × LocalArray)
  | none,r => some r
  | some (used,size),r =>
    (cpyHeap used size (cpyChars "DYNAMIC QUEUE MEMORY HEAP: " r)).map (cpyChars "\n\r")

/-- The string and the local array of OSAvailableMemory, in a build with static tasks. -/
def osAvailableMemory {cfg : Config} (k : Kernel cfg) (dynamicQueue : Option (ℕ × ℕ))
    (str : LocalArray) : Option (List ℤ × LocalArray) := do
  let r := cpyChars "\n\r***** BRTOS Memory Info *****\n\r" ([],str)
  let r := cpyChars "STATIC TASK MEMORY HEAP:   " r
  let address := k.iStackAddress*cfg.sizeofCpuType%65536
  let r ← cpyHeap address cfg.heapSize r
  let r ← cpyQueueHeap k r
  let r := cpyChars "\n\r" r
  let r ← cpyDynamicQueue dynamicQueue r
  some (r.1++[0],r.2)

/-! ### PrintDecimal -/

theorem int16_of_small {x : ℤ} (low : -32768 ≤ x) (high : x < 32768) : int16 x = x := by
  unfold int16
  omega

theorem int16_natCast {u : ℕ} (h : u < 65536) : int16 u = if u < 32768 then (u : ℤ) else u-65536 := by
  unfold int16
  split_ifs <;> omega

namespace LocalArray

theorem fillLoop_cells (buff : LocalArray) (n : ℕ) :
    (buff.fillLoop n).cells = put buff.cells 0 (List.replicate n 32) := by
  induction n with
  | zero => exact (put_nil _ _).symm
  | succ n ih =>
    have grown := put_concat buff.cells 0 (List.replicate n 32) 32
    rw [List.length_replicate,Nat.zero_add] at grown
    rw [fillLoop,store,ih,List.replicate_succ']
    exact grown

theorem fillLoop_stores (buff : LocalArray) (n : ℕ) :
    ∀ x ∈ (buff.fillLoop n).stores, x ∈ buff.stores ∨ x < n := by
  induction n with
  | zero => exact fun x hx => .inl hx
  | succ n ih =>
    intro x hx
    rcases List.mem_cons.mp hx with rfl | hx
    · exact .inr (Nat.lt_succ_self x)
    · exact (ih x hx).imp_right fun lt => by omega

end LocalArray

/-- The loop stores to the cells from 1 to `i`, and leaves at one below them. -/
theorem convertLoop_stores (i : ℕ) (val : ℤ) (buff : LocalArray) :
    (convertLoop i val buff).2 ≤ i ∧
      ∀ x, (x ∈ (convertLoop i val buff).1.stores → x ∈ buff.stores ∨ x ≤ i) ∧
        (x ∈ buff.stores → x ∈ (convertLoop i val buff).1.stores) := by
  induction i generalizing val buff with
  | zero => exact ⟨le_rfl,fun x => ⟨.inl,id⟩⟩
  | succ i ih =>
    rw [convertLoop]
    split_ifs
    · refine ⟨Nat.le_succ i,fun x => ⟨fun hx => ?_,List.mem_cons_of_mem _⟩⟩
      rcases List.mem_cons.mp hx with rfl | hx
      · exact .inr le_rfl
      · exact .inl hx
    · obtain ⟨le,mem⟩ := ih (int16 (val.tdiv 10)) (buff.store (i+1)
        (int8 (uint16 val-int16 (val.tdiv 10)*10+48)))
      refine ⟨by omega,fun x => ⟨fun hx => ?_,fun hx => (mem x).2 (List.mem_cons_of_mem _ hx)⟩⟩
      rcases (mem x).1 hx with hx | hx
      · rcases List.mem_cons.mp hx with rfl | hx
        · exact .inr le_rfl
        · exact .inl hx
      · exact .inr (by omega)

/-- A round on a number that is not negative. -/
theorem convertLoop_natCast {n : ℕ} (small : n < 32768) (i : ℕ) (buff : LocalArray) :
    convertLoop (i+1) n buff =
      if n < 10 then (buff.store (i+1) (48+((n%10 : ℕ) : ℤ)),i)
      else convertLoop i ((n/10 : ℕ) : ℤ) (buff.store (i+1) (48+((n%10 : ℕ) : ℤ))) := by
  have quotient : int16 ((n : ℤ).tdiv 10) = ((n/10 : ℕ) : ℤ) := by
    rw [Int.tdiv_eq_ediv_of_nonneg (by omega),int16_of_small (by omega) (by omega)]
    rfl
  have digit : int8 (uint16 n-((n/10 : ℕ) : ℤ)*10+48) = 48+((n%10 : ℕ) : ℤ) := by
    rw [uint16,int8_of_small (by omega) (by omega)]
    omega
  rw [convertLoop,quotient,digit]
  by_cases last : n < 10
  · rw [if_pos (by omega),if_pos last]
  · rw [if_neg (by omega),if_neg last]

theorem store_digit {n : ℕ} (digit : n < 10) (i : ℕ) (buff : LocalArray) :
    (text n).length+i = i+1 ∧
      (buff.store (i+1) (48+((n%10 : ℕ) : ℤ))).cells = put buff.cells (i+1) (text n) := by
  rw [text_of_lt digit,Nat.mod_eq_of_lt digit,← put_cons,put_nil]
  exact ⟨Nat.add_comm 1 i,rfl⟩

/-- The digits of a number that is not negative end in the cell `i`. -/
theorem convertLoop_cells {n i : ℕ} (fits : n < 10^(i+1)) (small : n < 32768) (buff : LocalArray) :
    (text n).length+(convertLoop (i+1) n buff).2 = i+1 ∧
      (convertLoop (i+1) n buff).1.cells =
        put buff.cells ((convertLoop (i+1) n buff).2+1) (text n) := by
  induction i generalizing n buff with
  | zero =>
    have digit : n < 10 := by simpa using fits
    rw [convertLoop_natCast small,if_pos digit]
    exact store_digit digit 0 buff
  | succ i ih =>
    rw [convertLoop_natCast small]
    split_ifs with digit
    · exact store_digit digit (i+1) buff
    · have fits' : n/10 < 10^(i+1) := by
        rw [pow_succ] at fits
        omega
      obtain ⟨length,cells⟩ := ih fits' (by omega) (buff.store (i+1+1) (48+((n%10 : ℕ) : ℤ)))
      generalize convertLoop (i+1) _ _ = r at *
      have place : r.2+1+(text (n/10)).length = i+1+1 := by omega
      rw [text_of_le (not_lt.mp digit),List.length_append,List.length_singleton]
      refine ⟨by omega,?_⟩
      rw [cells,← put_behind,place]
      rfl

/-- What PrintDecimal leaves in the array: blanks, the sign, the digits and the NUL. -/
structure Printed (buff : LocalArray) (r : LocalArray × ℕ) (i : ℕ) (s : ℤ) (w : List ℤ) :
    Prop where
  length : i+1+w.length = 6
  cells : r.1.cells = put buff.cells 0 (List.replicate i 32++(s :: w)++[0])
  offset : r.2 = if s = 45 then i else i+1
  stores (x : ℕ) : x ∈ r.1.stores → x ∈ buff.stores ∨ x ≤ 6
  nul : 6 ∈ r.1.stores

/-- The last store of PrintDecimal and the pointer it returns. -/
def signed (s : ℤ) (r : LocalArray × ℕ) : LocalArray × ℕ :=
  (r.1.store r.2 s,if s = 45 then r.2 else r.2+1)

theorem printDecimal_eq (val : ℤ) (buff : LocalArray) :
    printDecimal val buff = signed (if val < 0 then 45 else 32)
      (convertLoop 5 (if val < 0 then int16 (-val) else val) ((buff.fillLoop 6).store 6 0)) := by
  by_cases neg : val < 0
  · simp [printDecimal,signed,neg,LocalArray.store]
  · simp [printDecimal,signed,neg,LocalArray.store]

/-- When the loop has put the digits `w` below the NUL. -/
theorem printed_of_loop {val : ℤ} {buff : LocalArray} {s : ℤ} {w : List ℤ} {r : LocalArray × ℕ}
    {i : ℕ} (loop : convertLoop 5 val ((buff.fillLoop 6).store 6 0) = r)
    (place : r.2 = i) (length : w.length+i = 5)
    (cells : r.1.cells = put ((buff.fillLoop 6).store 6 0).cells (i+1) w) :
    Printed buff (signed s r) i s w := by
  obtain ⟨le,mem⟩ := convertLoop_stores 5 val ((buff.fillLoop 6).store 6 0)
  rw [loop] at le mem
  refine ⟨by omega,?_,?_,fun x hx => ?_,?_⟩
  · have base : ((buff.fillLoop 6).store 6 0).cells =
        put buff.cells 0 (List.replicate i 32++(List.replicate (w.length+1) 32++[0])) := by
      have grown := put_concat buff.cells 0 (List.replicate 6 32) 0
      rw [List.length_replicate,Nat.zero_add] at grown
      rw [LocalArray.store,LocalArray.fillLoop_cells,← List.append_assoc,← List.replicate_add,
        show i+(w.length+1) = 6 by omega]
      exact grown
    have row := put_put (s := buff.cells) (u := List.replicate i 32)
      (v := List.replicate (w.length+1) 32) (x := [0]) (w := s :: w) (by simp)
    rw [List.length_replicate] at row
    rw [signed,LocalArray.store,cells,place,put_update,base,row,List.append_assoc]
  · rw [signed,place]
  · rcases List.mem_cons.mp hx with rfl | hx
    · omega
    · rcases (mem x).1 hx with hx | hx
      · rcases List.mem_cons.mp hx with rfl | hx
        · exact .inr le_rfl
        · exact (LocalArray.fillLoop_stores buff 6 x hx).imp_right fun lt => lt.le
      · exact .inr (by omega)
  · exact List.mem_cons_of_mem _ ((mem 6).2 List.mem_cons_self)

/-- The 16 bits of -32768 have no opposite, and the characters of its remainders are no digits. -/
theorem convertLoop_lowest (buff : LocalArray) :
    (convertLoop 5 (-32768) buff).2 = 0 ∧
      (convertLoop 5 (-32768) buff).1.cells = put buff.cells 1 [45,46,41,42,40] := by
  refine ⟨rfl,?_⟩
  have stored : (convertLoop 5 (-32768) buff).1 =
      ((((buff.store 5 40).store 4 42).store 3 41).store 2 46).store 1 45 := rfl
  rw [stored,← put_update,← put_update,← put_update,← put_update,← put_update,put_nil]
  rfl

theorem int16_lowest : int16 ((32768 : ℕ) : ℤ) = -32768 ∧ int16 (-(-32768)) = -32768 := by decide

/-- The digits, or what stands in their place when the size has the sign bit of an int16_t. -/
theorem printed_size {u : ℕ} (h : u < 65536) (buff : LocalArray) :
    ∃ i s w, Printed buff (printDecimal (int16 u) buff) i s w ∧ w ≠ [] ∧
      (∀ c ∈ w, 40 ≤ c ∧ c ≤ 57) ∧
      (u < 32768 → s = 32 ∧ w = text u) ∧ (32768 ≤ u → s = 45 ∧ w ≠ text u) := by
  have digits : ∀ n : ℕ, ∀ c ∈ text n, 40 ≤ c ∧ c ≤ 57 := fun n c hc => by
    have := mem_text hc
    omega
  have magnitude : ∀ (s : ℤ) (n : ℕ), n < 32768 → ∃ i, Printed buff
      (signed s (convertLoop 5 n ((buff.fillLoop 6).store 6 0))) i s (text n) := by
    intro s n small
    generalize base : (buff.fillLoop 6).store 6 0 = b
    generalize loop : convertLoop 5 n b = r
    have spec := convertLoop_cells (n := n) (i := 4) (by norm_num; omega) small b
    simp only [Nat.reduceAdd,loop] at spec
    subst base
    exact ⟨r.2,printed_of_loop loop rfl spec.1 spec.2⟩
  rw [printDecimal_eq]
  rcases lt_trichotomy u 32768 with low | here | high
  · have value : int16 u = u := int16_of_small (by omega) (by omega)
    obtain ⟨i,printed⟩ := magnitude 32 u low
    rw [value,if_neg (by omega),if_neg (by omega)]
    exact ⟨i,32,text u,printed,text_ne_nil u,digits u,fun _ => ⟨rfl,rfl⟩,fun large => by omega⟩
  · subst here
    obtain ⟨place,cells⟩ := convertLoop_lowest ((buff.fillLoop 6).store 6 0)
    rw [int16_lowest.1,if_pos (by decide),if_pos (by decide),int16_lowest.2]
    refine ⟨0,45,[45,46,41,42,40],printed_of_loop rfl place rfl cells,by simp,by simp,
      fun low => by omega,fun _ => ⟨rfl,fun same => ?_⟩⟩
    have := mem_text (n := 32768) (c := 40) (by rw [← same]; simp)
    omega
  · have value : int16 u = -((65536-u : ℕ) : ℤ) := by
      rw [int16_natCast h,if_neg (by omega)]
      omega
    have opposite : int16 (-(-((65536-u : ℕ) : ℤ))) = ((65536-u : ℕ) : ℤ) := by
      rw [neg_neg]
      exact int16_of_small (by omega) (by omega)
    obtain ⟨i,printed⟩ := magnitude 45 (65536-u) (by omega)
    rw [value,if_pos (by omega),if_pos (by omega),opposite]
    refine ⟨i,45,text (65536-u),printed,text_ne_nil _,digits _,fun low => by omega,
      fun _ => ⟨rfl,fun same => ?_⟩⟩
    have := text_injective same
    omega

theorem memCpy_put {fuel p : ℕ} {s : ℕ → ℤ} {w : List ℤ} (nonzero : 0 ∉ w) (le : p ≤ w.length)
    (enough : w.length < p+fuel) : memCpy fuel (put s 0 (w++[0])) p = some (w.drop p) := by
  induction fuel generalizing p with
  | zero => omega
  | succ fuel ih =>
    have cell := put_inside (s := s) (i := 0) (w := w++[0]) (j := p) (by simp; omega)
    rw [Nat.zero_add] at cell
    rw [memCpy,cell]
    rcases Nat.eq_or_lt_of_le le with rfl | lt
    · simp
    · have here : (w++[0]).getD p 0 = w[p] := by
        rw [List.getD_append _ _ _ _ lt,List.getD_eq_getElem _ _ lt]
      have visible : w[p] ≠ 0 := fun zero => nonzero (zero ▸ List.getElem_mem lt)
      rw [here,if_neg visible,ih lt (by omega),List.drop_eq_getElem_cons lt]
      rfl

/-- Blanks, and a text without one. -/
structure Column (t w : List ℤ) : Prop where
  nonempty : t ≠ []
  visible : ∀ c ∈ t, 32 < c
  blanks : ∃ b, w = List.replicate b 32++t

/-- The canonical text of `n` behind any number of blanks. -/
def Field (n : ℕ) (w : List ℤ) : Prop := ∃ b, w = List.replicate b 32++text n

/-- What a size adds to a report: its text when it is no more than an int16_t holds, and another one
otherwise. -/
def Size (u : ℕ) (w : List ℤ) : Prop := ∃ t, Column t w ∧ (t = text u ↔ u < 32768)

theorem Field.column {n : ℕ} {w : List ℤ} (h : Field n w) : Column (text n) w :=
  ⟨text_ne_nil n,fun c hc => by have := mem_text hc; omega,h⟩

theorem Size.field {u : ℕ} {w : List ℤ} (h : Size u w) (small : u < 32768) : Field u w := by
  obtain ⟨t,column,text⟩ := h
  obtain ⟨b,rfl⟩ := column.blanks
  exact ⟨b,by rw [text.mpr small]⟩

theorem Column.nonzero {t w : List ℤ} (h : Column t w) : 0 ∉ w := by
  obtain ⟨b,rfl⟩ := h.blanks
  intro zero
  rcases List.mem_append.mp zero with zero | zero
  · simpa using List.eq_of_mem_replicate zero
  · have := h.visible 0 zero
    omega

theorem cpyDecimal_of_copied {column : Bool} {val : ℤ} {string copied : List ℤ} {str : LocalArray}
    (h : memCpy 8 (printDecimal (int16 val) str).1.cells
      (if column then 1 else (printDecimal (int16 val) str).2) = some copied) :
    cpyDecimal column val (string,str) = some (string++copied,(printDecimal (int16 val) str).1) := by
  simp only [cpyDecimal]
  generalize printDecimal (int16 val) str = out at h ⊢
  obtain ⟨str',p⟩ := out
  simp only at h ⊢
  rw [h]
  rfl

section Row
variable {s : ℤ} {w : List ℤ}

theorem nonzero_row (signs : s = 32 ∨ s = 45) (range : ∀ c ∈ w, 40 ≤ c ∧ c ≤ 57) (i : ℕ) :
    0 ∉ List.replicate i 32++(s :: w) := by
  intro zero
  rcases List.mem_append.mp zero with zero | zero
  · simpa using List.eq_of_mem_replicate zero
  · rcases List.mem_cons.mp zero with zero | zero
    · omega
    · have := range 0 zero
      omega

/-- The characters of a row from the column on, or from the pointer on: the sign is among them only
where it is visible. -/
theorem drop_row (signs : s = 32 ∨ s = 45) (column : Bool) (i : ℕ) (w : List ℤ) :
    ∃ b t, (List.replicate i 32++(s :: w)).drop (if column then 1 else if s = 45 then i else i+1) =
        List.replicate b 32++t ∧ (t = w ∨ s = 45 ∧ t = s :: w) ∧ (s = 32 → t = w) := by
  rcases signs with rfl | rfl
  · have inside : (if column then 1 else i+1) ≤ i+1 := by
      split_ifs <;> omega
    refine ⟨i+1-(if column then 1 else i+1),w,?_,.inl rfl,fun _ => rfl⟩
    have blanks : List.replicate i (32 : ℤ)++(32 :: w) = List.replicate (i+1) 32++w := by
      rw [List.replicate_succ',List.append_assoc]
      rfl
    rw [blanks,if_neg (show ¬ (32 : ℤ) = 45 by decide),
      List.drop_append_of_le_length (by simpa using inside),List.drop_replicate]
  · rw [if_pos rfl]
    by_cases first : column = true ∧ i = 0
    · exact ⟨0,w,by simp [first],.inl rfl,fun blank => by omega⟩
    · refine ⟨i-(if column then 1 else i),45 :: w,?_,.inr ⟨rfl,rfl⟩,fun blank => by omega⟩
      have inside : (if column then 1 else i) ≤ i := by
        split_ifs with col
        · exact Nat.one_le_iff_ne_zero.mpr fun zero => first ⟨col,zero⟩
        · exact le_rfl
      rw [List.drop_append_of_le_length (by simpa using inside),List.drop_replicate]

end Row

theorem cpyDecimal_spec (column : Bool) {u : ℕ} (h : u < 65536) (string : List ℤ) (str : LocalArray) :
    ∃ w str', cpyDecimal column u (string,str) = some (string++w,str') ∧ Size u w ∧
      (∀ x ∈ str'.stores, x ∈ str.stores ∨ x ≤ 6) ∧ 6 ∈ str'.stores := by
  obtain ⟨i,s,w,printed,nonempty,range,low,high⟩ := printed_size h str
  have length := printed.length
  have signs : s = 32 ∨ s = 45 := by
    rcases Nat.lt_or_ge u 32768 with small | large
    · exact .inl (low small).1
    · exact .inr (high large).1
  have copied : ∀ p, p ≤ 6 → memCpy 8 (printDecimal (int16 u) str).1.cells p =
      some ((List.replicate i 32++(s :: w)).drop p) := by
    intro p le
    rw [printed.cells]
    exact memCpy_put (nonzero_row signs range i) (by simp; omega) (by simp; omega)
  have offset : (if column then 1 else (printDecimal (int16 u) str).2) ≤ 6 := by
    rw [printed.offset]
    split_ifs <;> omega
  obtain ⟨b,t,same,shape,unsigned⟩ := drop_row signs column i w
  rw [← printed.offset] at same
  refine ⟨_,_,by rw [cpyDecimal_of_copied (copied _ offset),same],⟨t,⟨?_,?_,b,rfl⟩,?_⟩,
    printed.stores,printed.nul⟩
  · rcases shape with rfl | ⟨-,rfl⟩
    · exact nonempty
    · exact List.cons_ne_nil _ _
  · intro c hc
    rcases shape with rfl | ⟨minus,rfl⟩
    · have := range c hc
      omega
    · rcases List.mem_cons.mp hc with rfl | hc
      · omega
      · have := range c hc
        omega
  · constructor
    · rintro rfl
      by_contra large
      obtain ⟨minus,other⟩ := high (not_lt.mp large)
      rcases shape with same | ⟨-,same⟩
      · exact other same.symm
      · have := mem_text (n := u) (c := s) (by rw [same]; exact List.mem_cons_self)
        omega
    · intro small
      obtain ⟨blank,digits⟩ := low small
      rw [unsigned blank,digits]

/-! ### OSUptimeInfo -/

/-- The string names the day if there is one, the hour, the minute and the second. -/
def Uptime.Shown (u : Uptime) (string : List ℤ) : Prop :=
  ∃ day hour minute second, Field u.rtcHour hour ∧ Field u.rtcMinute minute ∧ Field u.rtcSecond second ∧
    (if u.rtcDay > 0 then ∃ d, Field u.rtcDay d ∧ day = d++chars "d " else day = []) ∧
    string = chars "\n\rBRTOS UPTIME: "++day++hour++chars "h "++minute++chars "m "++second++
      chars "s\n\r"++[0]

/-- The counters are of type uint8_t. -/
structure Uptime.Counts (u : Uptime) : Prop where
  day : u.rtcDay < 256
  hour : u.rtcHour < 256
  minute : u.rtcMinute < 256
  second : u.rtcSecond < 256

theorem cpyDecimal_small (column : Bool) {u : ℕ} (h : u < 256) (string : List ℤ) (str : LocalArray) :
    ∃ w str', cpyDecimal column u (string,str) = some (string++w,str') ∧ Field u w ∧
      (∀ x ∈ str'.stores, x ∈ str.stores ∨ x ≤ 6) ∧ 6 ∈ str'.stores := by
  obtain ⟨w,str',done,size,stores⟩ := cpyDecimal_spec column (show u < 65536 by omega) string str
  exact ⟨w,str',done,size.field (by omega),stores⟩

theorem cpyDay_spec {u : Uptime} (counts : u.Counts) (string : List ℤ) (str : LocalArray) :
    ∃ day str', cpyDay u (string,str) = some (string++day,str') ∧
      (if u.rtcDay > 0 then ∃ d, Field u.rtcDay d ∧ day = d++chars "d " else day = []) ∧
      ∀ x ∈ str'.stores, x ∈ str.stores ∨ x ≤ 6 := by
  rw [cpyDay]
  split_ifs
  · obtain ⟨d,str',done,field,stores,-⟩ := cpyDecimal_small false counts.day string str
    refine ⟨d++chars "d ",str',?_,⟨d,field,rfl⟩,stores⟩
    rw [done,Option.map_some,cpyChars,List.append_assoc]
  · exact ⟨[],str,by rw [List.append_nil],rfl,fun x hx => .inl hx⟩

/-- The report of OSUptimeInfo, whose last store is the NUL in the seventh cell. -/
theorem osUptimeInfo_spec {u : Uptime} (counts : u.Counts) (str : LocalArray) :
    ∃ string str', osUptimeInfo u str = some (string,str') ∧ u.Shown string ∧
      (∀ x ∈ str'.stores, x ∈ str.stores ∨ x ≤ 6) ∧ 6 ∈ str'.stores := by
  obtain ⟨day,str₁,first,hday,stores₁⟩ := cpyDay_spec counts (chars "\n\rBRTOS UPTIME: ") str
  obtain ⟨hour,str₂,second,hhour,stores₂,-⟩ := cpyDecimal_small false counts.hour
    (chars "\n\rBRTOS UPTIME: "++day) str₁
  obtain ⟨minute,str₃,third,hminute,stores₃,-⟩ := cpyDecimal_small false counts.minute
    (chars "\n\rBRTOS UPTIME: "++day++hour++chars "h ") str₂
  obtain ⟨sec,str₄,fourth,hsec,stores₄,nul⟩ := cpyDecimal_small false counts.second
    (chars "\n\rBRTOS UPTIME: "++day++hour++chars "h "++minute++chars "m ") str₃
  refine ⟨_,str₄,?_,⟨day,hour,minute,sec,hhour,hminute,hsec,hday,rfl⟩,fun x hx => ?_,nul⟩
  · rw [osUptimeInfo,cpyChars,List.nil_append,first,Option.bind_eq_bind,Option.bind_some,second,
      Option.map_some,cpyChars,Option.bind_some,third,Option.map_some,cpyChars,Option.bind_some,fourth]
    rfl
  · have third := fun x hx => (stores₄ x hx).elim (stores₃ x) .inr
    have second := fun x hx => (third x hx).elim (stores₂ x) .inr
    exact (second x hx).elim (stores₁ x) .inr

/-! ### OSAvailableMemory -/

/-- A line with the size in use and the size of the heap, written as `number` says. -/
def Line (number : ℕ → List ℤ → Prop) (used size : ℕ) (w : List ℤ) : Prop :=
  ∃ f g, number used f ∧ number size g ∧ w = f++chars " of "++g

/-- The string has the lines on the task heap and, if there is one, on the queue heap, and a single
NUL. -/
def Kernel.Lists {cfg : Config} (k : Kernel cfg) (number : ℕ → List ℤ → Prop) (string : List ℤ) : Prop :=
  ∃ tasks queues rest, Line number (k.iStackAddress*cfg.sizeofCpuType) cfg.heapSize tasks ∧
    (if cfg.queueHeapSize > 0 then
      ∃ w, Line number (k.iQueueAddress*cfg.sizeofCpuType) cfg.queueHeapSize w ∧
        queues = chars "\n\rSTATIC QUEUE MEMORY HEAP:  "++w
      else queues = []) ∧ 0 ∉ rest ∧
    string = chars "\n\r***** BRTOS Memory Info *****\n\r"++chars "STATIC TASK MEMORY HEAP:   "++tasks++
      queues++chars "\n\r"++rest++[0]

theorem cpyHeap_spec {used size : ℕ} (hu : used < 65536) (hs : size < 65536) (string : List ℤ)
    (str : LocalArray) :
    ∃ w str', cpyHeap used size (string,str) = some (string++w,str') ∧ Line Size used size w ∧
      ∀ x ∈ str'.stores, x ∈ str.stores ∨ x ≤ 6 := by
  obtain ⟨f,str₁,first,hf,stores₁,-⟩ := cpyDecimal_spec true hu string str
  obtain ⟨g,str₂,second,hg,stores₂,-⟩ := cpyDecimal_spec false hs (string++f++chars " of ") str₁
  refine ⟨f++chars " of "++g,str₂,?_,⟨f,g,hf,hg,rfl⟩,fun x hx => ?_⟩
  · rw [cpyHeap,first,Option.map_some,Option.bind_eq_bind,Option.bind_some,cpyChars,second]
    simp only [List.append_assoc]
  · rcases stores₂ x hx with hx | le
    · exact stores₁ x hx
    · exact .inr le

theorem cpyDecimal_mod (column : Bool) (u : ℕ) (r : List ℤ × LocalArray) :
    cpyDecimal column u r = cpyDecimal column (u%65536 : ℕ) r := by
  have same : int16 u = int16 (u%65536 : ℕ) := by
    unfold int16
    omega
  rw [cpyDecimal,cpyDecimal,same]

theorem cpyHeap_mod (used size : ℕ) (r : List ℤ × LocalArray) :
    cpyHeap used size r = cpyHeap (used%65536) (size%65536) r := by
  have later : cpyDecimal false size = cpyDecimal false (size%65536 : ℕ) := by
    funext r
    exact cpyDecimal_mod false size r
  rw [cpyHeap,cpyHeap,cpyDecimal_mod true used,later]

theorem Line.nonzero {used size : ℕ} {w : List ℤ} (h : Line Size used size w) : 0 ∉ w := by
  obtain ⟨f,g,⟨t,hf,-⟩,⟨t',hg,-⟩,rfl⟩ := h
  simp only [List.mem_append,not_or]
  exact ⟨⟨hf.nonzero,by decide⟩,hg.nonzero⟩

/-- Sizes of any width leave characters, and no NUL among them. -/
theorem cpyDynamicQueue_spec (d : Option (ℕ × ℕ)) (string : List ℤ) (str : LocalArray) :
    ∃ w str', cpyDynamicQueue d (string,str) = some (string++w,str') ∧ 0 ∉ w ∧
      ∀ x ∈ str'.stores, x ∈ str.stores ∨ x ≤ 6 := by
  rcases d with _ | ⟨used,size⟩
  · exact ⟨[],str,by rw [List.append_nil]; rfl,by simp,fun x hx => .inl hx⟩
  · obtain ⟨w,str',done,line,stores⟩ := cpyHeap_spec (Nat.mod_lt used (by decide))
      (Nat.mod_lt size (by decide)) (string++chars "DYNAMIC QUEUE MEMORY HEAP: ") str
    refine ⟨chars "DYNAMIC QUEUE MEMORY HEAP: "++w++chars "\n\r",str',?_,?_,stores⟩
    · rw [cpyDynamicQueue,cpyHeap_mod,cpyChars,done,Option.map_some,cpyChars]
      simp only [List.append_assoc]
    · simp only [List.mem_append,not_or]
      exact ⟨⟨by decide,line.nonzero⟩,by decide⟩

theorem cpyQueueHeap_spec {cfg : Config} (k : Kernel cfg) (string : List ℤ) (str : LocalArray)
    (fits : k.iQueueAddress*cfg.sizeofCpuType < 65536 ∧ cfg.queueHeapSize < 65536) :
    ∃ queues str', cpyQueueHeap k (string,str) = some (string++queues,str') ∧
      (if cfg.queueHeapSize > 0 then
        ∃ w, Line Size (k.iQueueAddress*cfg.sizeofCpuType) cfg.queueHeapSize w ∧
          queues = chars "\n\rSTATIC QUEUE MEMORY HEAP:  "++w
        else queues = []) ∧ ∀ x ∈ str'.stores, x ∈ str.stores ∨ x ≤ 6 := by
  rw [cpyQueueHeap]
  split_ifs
  · obtain ⟨w,str',done,line,stores⟩ := cpyHeap_spec fits.1 fits.2
      (string++chars "\n\rSTATIC QUEUE MEMORY HEAP:  ") str
    refine ⟨chars "\n\rSTATIC QUEUE MEMORY HEAP:  "++w,str',?_,⟨w,line,rfl⟩,stores⟩
    rw [Nat.mod_eq_of_lt fits.1,cpyChars,done,List.append_assoc]
  · exact ⟨[],str,by rw [List.append_nil],rfl,fun x hx => .inl hx⟩

/-- The report of OSAvailableMemory, whose stores stay within the first seven cells. -/
theorem osAvailableMemory_spec {cfg : Config} (k : Kernel cfg) (dynamicQueue : Option (ℕ × ℕ))
    (str : LocalArray) (tasks : k.iStackAddress*cfg.sizeofCpuType < 65536 ∧ cfg.heapSize < 65536)
    (queues : k.iQueueAddress*cfg.sizeofCpuType < 65536 ∧ cfg.queueHeapSize < 65536) :
    ∃ string str', osAvailableMemory k dynamicQueue str = some (string,str') ∧ k.Lists Size string ∧
      ∀ x ∈ str'.stores, x ∈ str.stores ∨ x ≤ 6 := by
  obtain ⟨w,str₁,first,hw,stores₁⟩ := cpyHeap_spec tasks.1 tasks.2
    (chars "\n\r***** BRTOS Memory Info *****\n\r"++chars "STATIC TASK MEMORY HEAP:   ") str
  obtain ⟨queue,str₂,second,hqueue,stores₂⟩ := cpyQueueHeap_spec k
    (chars "\n\r***** BRTOS Memory Info *****\n\r"++chars "STATIC TASK MEMORY HEAP:   "++w) str₁ queues
  obtain ⟨rest,str₃,third,hrest,stores₃⟩ := cpyDynamicQueue_spec dynamicQueue
    (chars "\n\r***** BRTOS Memory Info *****\n\r"++chars "STATIC TASK MEMORY HEAP:   "++w++queue++
      chars "\n\r") str₂
  refine ⟨_,str₃,?_,⟨w,queue,rest,hw,hqueue,hrest,rfl⟩,fun x hx => ?_⟩
  · simp only [osAvailableMemory,cpyChars,List.nil_append,Nat.mod_eq_of_lt tasks.1,first,second,third,
      Option.bind_eq_bind,Option.bind_some]
  · rcases stores₃ x hx with hx | le
    · exact (stores₂ x hx).elim (stores₁ x) .inr
    · exact .inr le

/-! ### Which numbers are right -/

/-- What separates the words of a report. -/
def isBlank (c : ℤ) : Bool := decide (c ≤ 32)

theorem Column.words {t w : List ℤ} (h : Column t w) {a : ℤ} (blank : a ≤ 32) (r : List ℤ) :
    Words.words isBlank (w++a :: r) = t :: Words.words isBlank r := by
  obtain ⟨b,rfl⟩ := h.blanks
  rw [List.append_assoc,Words.words_separators]
  · apply Words.words_run_append _ h.nonempty r (decide_eq_true blank)
    intro c hc
    have := h.visible c hc
    exact decide_eq_false (by omega)
  · intro c hc
    rw [List.eq_of_mem_replicate hc]
    rfl

/-- A number that two ways of writing agree on. -/
theorem Size.lt_of_field {u : ℕ} {w w' : List ℤ} {a : ℤ} {r r' : List ℤ} (size : Size u w) (field : Field u w')
    (blank : a ≤ 32) (same : Words.words isBlank (w++a :: r) = Words.words isBlank (w'++a :: r')) :
    u < 32768 ∧ Words.words isBlank r = Words.words isBlank r' := by
  obtain ⟨t,column,text⟩ := size
  rw [column.words blank,field.column.words blank] at same
  exact ⟨text.mp (List.cons.inj same).1,(List.cons.inj same).2⟩

theorem Line.lt_of_field {used size : ℕ} {w w' : List ℤ} {r r' : List ℤ} (sizes : Line Size used size w)
    (fields : Line Field used size w')
    (same : Words.words isBlank (w++10 :: r) = Words.words isBlank (w'++10 :: r')) :
    (used < 32768 ∧ size < 32768) ∧ Words.words isBlank r = Words.words isBlank r' := by
  obtain ⟨f,g,hf,hg,rfl⟩ := sizes
  obtain ⟨f',g',hf',hg',rfl⟩ := fields
  have blank : chars " of " = 32 :: chars "of " := rfl
  have word : ∀ l, Words.words isBlank (chars "of "++l) = chars "of" :: Words.words isBlank l :=
    fun l => Words.words_run_append (w := chars "of") (a := 32) (by decide) (by decide) l rfl
  simp only [List.append_assoc,blank,List.cons_append] at same
  obtain ⟨first,same⟩ := hf.lt_of_field hf' (by decide) same
  rw [word,word] at same
  obtain ⟨second,same⟩ := hg.lt_of_field hg' (by decide) (List.cons.inj same).2
  exact ⟨⟨first,second⟩,same⟩

section Lists
variable {cfg : Config} {k : Kernel cfg} {string : List ℤ}

/-- Every size that the report of OSAvailableMemory names is below 2^15. -/
def Kernel.Narrow (k : Kernel cfg) : Prop :=
  (k.iStackAddress*cfg.sizeofCpuType < 32768 ∧ cfg.heapSize < 32768) ∧
    (cfg.queueHeapSize > 0 → k.iQueueAddress*cfg.sizeofCpuType < 32768 ∧ cfg.queueHeapSize < 32768)

theorem Line.fields {used size : ℕ} {w : List ℤ} (h : Line Size used size w)
    (narrow : used < 32768 ∧ size < 32768) : Line Field used size w := by
  obtain ⟨f,g,hf,hg,rfl⟩ := h
  exact ⟨f,g,hf.field narrow.1,hg.field narrow.2,rfl⟩

theorem Kernel.Lists.fields (h : k.Lists Size string) (narrow : k.Narrow) : k.Lists Field string := by
  obtain ⟨tasks,queues,rest,line,queue,nonzero,rfl⟩ := h
  refine ⟨tasks,queues,rest,line.fields narrow.1,?_,nonzero,rfl⟩
  split_ifs at queue ⊢ with heap
  · obtain ⟨w,hw,rfl⟩ := queue
    exact ⟨w,hw.fields (narrow.2 heap),rfl⟩
  · exact queue

/-- A report with the right numbers, word by word. -/
theorem Kernel.Lists.narrow (h : k.Lists Size string) (right : k.Lists Field string) : k.Narrow := by
  obtain ⟨tasks,queues,rest,line,queue,-,rfl⟩ := h
  obtain ⟨tasks',queues',rest',line',queue',-,same⟩ := right
  have ends : chars "\n\r" = 10 :: chars "\r" := rfl
  have title : chars "\n\rSTATIC QUEUE MEMORY HEAP:  " =
      10 :: (chars "\rSTATIC QUEUE MEMORY HEAP: "++[32]) := by decide
  simp only [List.append_assoc,List.append_cancel_left_eq] at same
  have words := congrArg (Words.words isBlank) same
  split_ifs at queue queue' with heap
  · obtain ⟨w,hw,rfl⟩ := queue
    obtain ⟨w',hw',rfl⟩ := queue'
    simp only [title,ends,List.append_assoc,List.cons_append,List.nil_append] at words
    obtain ⟨first,words⟩ := line.lt_of_field line' words
    have cut : ∀ r, Words.words isBlank (chars "\rSTATIC QUEUE MEMORY HEAP: "++32 :: r) =
        Words.words isBlank (chars "\rSTATIC QUEUE MEMORY HEAP: ")++Words.words isBlank r :=
      fun r => Words.words_append_cons _ r rfl
    rw [cut,cut] at words
    exact ⟨first,fun _ => (hw.lt_of_field hw' (List.append_cancel_left words)).1⟩
  · subst queue queue'
    simp only [ends,List.nil_append,List.cons_append] at words
    exact ⟨(line.lt_of_field line' words).1,fun positive => absurd positive heap⟩

end Lists

/-- What the user of a report relies on: its numbers, and stores inside the local array of `size`
cells. -/
def Reported (size : ℕ) (shows : List ℤ → Prop) (r : Option (List ℤ × LocalArray)) : Prop :=
  ∃ string str, r = some (string,str) ∧ shows string ∧ ∀ x ∈ str.stores, x < size

theorem osUptimeInfo_reported {u : Uptime} (counts : u.Counts) (cells : ℕ → ℤ) (size : ℕ) :
    Reported size u.Shown (osUptimeInfo u ⟨cells,[]⟩) ↔ 6 < size := by
  obtain ⟨string,str,done,shown,stores,nul⟩ := osUptimeInfo_spec counts ⟨cells,[]⟩
  constructor
  · rintro ⟨string',str',done',-,inside⟩
    obtain ⟨-,rfl⟩ := Prod.mk.inj (Option.some.inj (done.symm.trans done'))
    exact inside 6 nul
  · intro large
    refine ⟨string,str,done,shown,fun x hx => ?_⟩
    have le := (stores x hx).resolve_left (List.not_mem_nil)
    omega

theorem osAvailableMemory_reported {cfg : Config} (k : Kernel cfg) (dynamicQueue : Option (ℕ × ℕ))
    (cells : ℕ → ℤ) (tasks : k.iStackAddress*cfg.sizeofCpuType < 65536 ∧ cfg.heapSize < 65536)
    (queues : k.iQueueAddress*cfg.sizeofCpuType < 65536 ∧ cfg.queueHeapSize < 65536) :
    Reported 8 (k.Lists Field) (osAvailableMemory k dynamicQueue ⟨cells,[]⟩) ↔ k.Narrow := by
  obtain ⟨string,str,done,lists,stores⟩ := osAvailableMemory_spec k dynamicQueue ⟨cells,[]⟩ tasks queues
  constructor
  · rintro ⟨string',str',done',right,-⟩
    obtain ⟨rfl,-⟩ := Prod.mk.inj (Option.some.inj (done.symm.trans done'))
    exact lists.narrow right
  · intro narrow
    refine ⟨string,str,done,lists.fields narrow,fun x hx => ?_⟩
    have le := (stores x hx).resolve_left (List.not_mem_nil)
    omega

/-- The numbers of OSUptimeInfo are always right, but its array of six cells takes a seventh one; the
report of OSAvailableMemory is right exactly as long as its sizes fit in an int16_t. -/
theorem reported_iff {cfg : Config} (u : Uptime) (k : Kernel cfg) (dynamicQueue : Option (ℕ × ℕ))
    (cells : ℕ → ℤ) (counts : u.Counts)
    (tasks : k.iStackAddress*cfg.sizeofCpuType < 65536 ∧ cfg.heapSize < 65536)
    (queues : k.iQueueAddress*cfg.sizeofCpuType < 65536 ∧ cfg.queueHeapSize < 65536) :
    ¬ Reported 6 u.Shown (osUptimeInfo u ⟨cells,[]⟩) ∧
      Reported 7 u.Shown (osUptimeInfo u ⟨cells,[]⟩) ∧
      (Reported 8 (k.Lists Field) (osAvailableMemory k dynamicQueue ⟨cells,[]⟩) ↔ k.Narrow) :=
  ⟨fun h => absurd ((osUptimeInfo_reported counts cells 6).mp h) (lt_irrefl 6),
    (osUptimeInfo_reported counts cells 7).mpr (by decide),
    osAvailableMemory_reported k dynamicQueue cells tasks queues⟩

theorem reported_example :
    Reported 7 (Uptime.Shown ⟨3,4,5,6⟩) (osUptimeInfo ⟨3,4,5,6⟩ ⟨fun _ => 0,[]⟩) ∧
      Reported 8 ((Kernel.brtosInit .simulator).Lists Field)
        (osAvailableMemory (Kernel.brtosInit .simulator) (some (100,1024)) ⟨fun _ => 0,[]⟩) := by
  obtain ⟨-,uptime,memory⟩ := reported_iff ⟨3,4,5,6⟩ (Kernel.brtosInit .simulator) (some (100,1024))
    (fun _ => 0) ⟨by decide,by decide,by decide,by decide⟩ ⟨by decide,by decide⟩ ⟨by decide,by decide⟩
  exact ⟨uptime,memory.mpr ⟨⟨by decide,by decide⟩,fun _ => ⟨by decide,by decide⟩⟩⟩

/-- The NUL of the hour goes behind the array. -/
theorem reported_fails :
    ¬ ∀ (u : Uptime) (k : Kernel .simulator) (cells : ℕ → ℤ), u.Counts →
      k.iStackAddress*4 < 65536 → k.iQueueAddress*4 < 65536 →
      Reported 6 u.Shown (osUptimeInfo u ⟨cells,[]⟩) ∧
        Reported 8 (k.Lists Field) (osAvailableMemory k none ⟨cells,[]⟩) := by
  intro all
  have counts : Uptime.Counts ⟨0,0,0,0⟩ := ⟨by decide,by decide,by decide,by decide⟩
  have reported := (all ⟨0,0,0,0⟩ (.brtosInit .simulator) (fun _ => 0) counts (by decide) (by decide)).1
  exact absurd ((osUptimeInfo_reported counts (fun _ => 0) 6).mp reported) (lt_irrefl 6)

end Brtos
