import Mathlib.Tactic
import Mathlib.Data.Nat.Digits.Defs
import Mathlib.Data.Nat.Digits.Lemmas

/-! atob_lib.c: numbers of 64 bits as texts in any base up to sixteen, and back. Characters are their
codes, and a text ends before its NUL. -/
namespace Brtos
namespace Ato

/-- What llbtoa leaves in `digit`. The remainder becomes an int. -/
def nextDigit (digit rem : ℕ) : ℕ :=
  let rem := Int.bmod rem 4294967296
  if 0 ≤ rem ∧ rem ≤ 9 then rem.toNat+48
  else if 10 ≤ rem ∧ rem ≤ 36 then rem.toNat-10+97
  else digit

/-- The loop that fills `buf`, of which `room` characters are left. None where it runs out of them. -/
def fill (base : ℕ) : ℕ → ℕ → ℕ → Option (List ℕ)
  | 0,_,_ => none
  | room+1,digit,value =>
    if value = 0 then some [] else
    (fill base room (nextDigit digit (value%base)) (value/base)).map (nextDigit digit (value%base) :: ·)

/-- llbtoa, where `digit` holds anything at first. -/
def llbtoa (digit value : ℕ) (base : ℤ) : Option (List ℕ) :=
  if value = 0 then some [48] else
  let neg := base = -10 ∧ 2^63 ≤ value
  let value := if neg then 2^64-value else value
  let base := if base = -10 then 10 else base
  if base % 2^64 = 0 then none else do
    let buf ← fill (base % 2^64).toNat 66 digit value
    let buf := if neg then buf++[45] else buf
    if 66 ≤ buf.length then none else some buf.reverse

def digitOf (c : ℕ) : Option ℕ :=
  if 48 ≤ c ∧ c ≤ 57 then some (c-48)
  else if 97 ≤ c ∧ c ≤ 102 then some (c-97+10)
  else if 65 ≤ c ∧ c ≤ 70 then some (c-65+10)
  else none

/-- The loop over the digits. -/
def readDigits (base : ℤ) : ℕ → List ℕ → Option ℕ
  | value,[] => some value
  | value,c :: p => do
    let digit ← digitOf c
    if base ≤ digit then none else readDigits base ((value*base.toNat+digit)%2^64) p

/-- `0x` in front asks for base 16. -/
def hexPrefix : List ℕ → ℤ → List ℕ × ℤ
  | 48 :: x :: p,base => if x = 120 ∨ x = 88 then (p,16) else (48 :: x :: p,base)
  | p,base => (p,base)

/-- _atob of a text without a point. -/
def plain (p : List ℕ) (base : ℤ) : Option ℕ :=
  readDigits (hexPrefix p base).2 0 (hexPrefix p base).1

/-- _atob. What stands around a point are the two halves of a number in base 16. -/
def atobAny (p : List ℕ) (base : ℤ) : Option ℕ :=
  let r := hexPrefix p base
  if r.2 = 16 ∧ 46 ∈ r.1 then
    let tmp := r.1.takeWhile (· ≠ 46)
    let q := (r.1.dropWhile (· ≠ 46)).tail
    if 19 < tmp.length ∨ 46 ∈ q then none else do
      let v1 ← plain tmp 16
      let v2 ← plain q 16
      some ((v1*65536+v2)%2^64)
  else readDigits r.2 0 r.1

/-- _getbase. -/
def getbase : List ℕ → List ℕ × ℤ
  | 48 :: x :: p =>
    if x = 120 then (p,16)
    else if x = 116 ∨ x = 110 then (p,10)
    else if x = 111 then (p,8)
    else (48 :: x :: p,10)
  | p => (p,10)

def llatob (p : List ℕ) (base : ℤ) : Option ℕ :=
  if base = 0 then atobAny (getbase p).1 (getbase p).2 else atobAny p base

def atob (p : List ℕ) (base : ℤ) : Option ℕ := (llatob p base).map (· % 2^32)

/-! ### Texts -/

/-- The text of a number, the highest digit first. -/
def text (base value : ℕ) : List ℕ :=
  if value = 0 then [48] else ((Nat.digits base value).map (nextDigit 0)).reverse

variable {base value digit room k d : ℕ} {p q l : List ℕ}

theorem nextDigit_of_le (small : d ≤ 36) :
    nextDigit digit d = if d ≤ 9 then d+48 else d-10+97 := by
  have cut : Int.bmod d 4294967296 = d := Int.bmod_eq_of_le_mul_two (by omega) (by omega)
  unfold nextDigit
  rw [cut]
  clear cut
  dsimp only
  split_ifs <;> omega

theorem nextDigit_eq (small : d ≤ 36) : nextDigit digit d = nextDigit 0 d := by
  rw [nextDigit_of_le small,nextDigit_of_le small]

theorem fill_eq (low : 2 ≤ base) (high : base ≤ 36) (fits : value < base^k) (enough : k < room) :
    fill base room digit value = some ((Nat.digits base value).map (nextDigit 0)) := by
  induction room generalizing value digit k with
  | zero => omega
  | succ room ih =>
    rw [fill]
    split_ifs with zero
    · simp [zero]
    · have some_ : k ≠ 0 := by
        rintro rfl
        rw [pow_zero] at fits
        omega
      obtain ⟨k,rfl⟩ := Nat.exists_eq_succ_of_ne_zero some_
      have shorter : value/base < base^k := Nat.div_lt_of_lt_mul (by rwa [pow_succ,mul_comm] at fits)
      have below : value%base < base := Nat.mod_lt _ (by omega)
      have split := Nat.digits_def' (show 1 < base by omega) (show 0 < value by omega)
      rw [ih shorter (by omega),split,nextDigit_eq (by omega)]
      rfl

theorem digitOf_nextDigit (small : d < 16) : digitOf (nextDigit 0 d) = some d := by
  interval_cases d <;> rfl

theorem readDigits_append (base : ℤ) (value : ℕ) (p q : List ℕ) :
    readDigits base value (p++q) = (readDigits base value p).bind fun v => readDigits base v q := by
  induction p generalizing value with
  | nil => rfl
  | cons c p ih =>
    rw [List.cons_append,readDigits,readDigits]
    cases digitOf c with
    | none => rfl
    | some digit =>
      change (if base ≤ digit then none else _) = Option.bind (if base ≤ digit then none else _) _
      split_ifs
      · rfl
      · exact ih _

theorem readDigits_digits (high : base ≤ 16) (small : ∀ d ∈ l, d < base) :
    readDigits base 0 (l.map (nextDigit 0)).reverse = some (Nat.ofDigits base l % 2^64) := by
  induction l with
  | nil => rfl
  | cons d l ih =>
    have below := small d List.mem_cons_self
    rw [List.map_cons,List.reverse_cons,readDigits_append,
      ih fun e mem => small e (List.mem_cons_of_mem d mem),Option.bind_some,readDigits,
      digitOf_nextDigit (by omega),Nat.ofDigits_cons]
    have inside : ¬ (base : ℤ) ≤ d := by omega
    change (if (base : ℤ) ≤ d then none else _) = _
    rw [if_neg inside,Int.toNat_natCast,readDigits,Nat.add_mod,Nat.mul_mod,Nat.mod_mod,← Nat.mul_mod,
      ← Nat.add_mod,mul_comm,add_comm]

/-- The codes of the digits that the texts are made of. -/
def IsDigit (c : ℕ) : Prop := 48 ≤ c ∧ c ≤ 57 ∨ 97 ≤ c ∧ c ≤ 102

theorem nextDigit_isDigit (small : d < 16) : IsDigit (nextDigit 0 d) := by
  rw [IsDigit,nextDigit_of_le (by omega)]
  split_ifs <;> omega

theorem mem_text (low : 2 ≤ base) (high : base ≤ 16) {c : ℕ} (mem : c ∈ text base value) : IsDigit c := by
  unfold text at mem
  split_ifs at mem
  · obtain rfl := List.mem_singleton.mp mem
    exact Or.inl ⟨le_rfl,by decide⟩
  · obtain ⟨d,here,rfl⟩ := List.mem_map.mp (List.mem_reverse.mp mem)
    have := Nat.digits_lt_base (by omega) here
    exact nextDigit_isDigit (by omega)

theorem hexPrefix_eq (digits : ∀ c ∈ p, IsDigit c) (b : ℤ) : hexPrefix p b = (p,b) := by
  unfold hexPrefix
  split
  · next x p =>
    have := digits x (by simp)
    unfold IsDigit at this
    rw [if_neg (by omega)]
  · rfl

theorem getbase_eq (digits : ∀ c ∈ p, IsDigit c) : getbase p = (p,10) := by
  unfold getbase
  split
  · next x p =>
    have := digits x (by simp)
    unfold IsDigit at this
    rw [if_neg (by omega),if_neg (by omega),if_neg (by omega)]
  · rfl

theorem atobAny_eq (digits : ∀ c ∈ p, IsDigit c) (b : ℤ) : atobAny p b = readDigits b 0 p := by
  have point : 46 ∉ p := fun mem => by
    have := digits 46 mem
    unfold IsDigit at this
    omega
  simp only [atobAny,hexPrefix_eq digits,point,and_false,if_false]

theorem atobAny_text (low : 2 ≤ base) (high : base ≤ 16) (fits : value < 2^64) :
    atobAny (text base value) base = some value := by
  rw [atobAny_eq fun c mem => mem_text low high mem]
  unfold text
  split_ifs with zero
  · subst zero
    have some_ : base ≠ 0 := by omega
    simp [readDigits,digitOf,some_]
  · rw [readDigits_digits high fun d mem => Nat.digits_lt_base (by omega) mem,Nat.ofDigits_digits,
      Nat.mod_eq_of_lt fits]

theorem llbtoa_eq (low : 2 ≤ base) (high : base ≤ 36) (fits : value < 2^64) :
    llbtoa digit value base = some (text base value) ∧ (text base value).length ≤ 64 := by
  have short : value < base^64 := lt_of_lt_of_le fits (Nat.pow_le_pow_left low 64)
  have length : (Nat.digits base value).length ≤ 64 := (Nat.digits_length_le_iff (by omega) value).mpr short
  have divisor : (base : ℤ) % 2^64 = base := Int.emod_eq_of_lt (by omega) (by omega)
  have unsigned : (base : ℤ) ≠ -10 := by omega
  have some_ : (base : ℤ) ≠ 0 := by omega
  unfold llbtoa text
  by_cases zero : value = 0
  · simp [zero]
  · simp only [zero,unsigned,false_and,if_false,divisor,some_,Int.toNat_natCast,
      fill_eq low high short (show 64 < 66 by decide)]
    constructor
    · change (if 66 ≤ _ then none else _) = _
      rw [List.length_map,if_neg (by omega)]
    · rw [List.length_reverse,List.length_map]
      exact length

/-- llbtoa stays in its buffer, and llatob reads the number back that it has written; the text in base ten
says its base itself. -/
theorem llatob_llbtoa (low : 2 ≤ base) (high : base ≤ 16) (fits : value < 2^64) (digit : ℕ) :
    ∃ w, llbtoa digit value base = some w ∧ w.length ≤ 64 ∧ llatob w base = some value ∧
      (base = 10 → llatob w 0 = some value) := by
  obtain ⟨written,short⟩ := @llbtoa_eq base value digit low (by omega) fits
  have read := atobAny_text low high fits
  refine ⟨text base value,written,short,?_,?_⟩
  · rw [llatob,if_neg (by omega),read]
  · rintro rfl
    rw [llatob,if_pos rfl,getbase_eq fun c mem => mem_text low high mem]
    exact read

theorem llatob_llbtoa_hex : ∃ w, llbtoa 0 0xBEEF 16 = some w ∧ w.length ≤ 64 ∧ llatob w 16 = some 0xBEEF := by
  obtain ⟨w,written,short,read,-⟩ :=
    llatob_llbtoa (show 2 ≤ 16 by decide) (by decide) (show 0xBEEF < 2^64 by decide) 0
  exact ⟨w,written,short,read⟩

end Ato
end Brtos
