import Brtos.Library.Decimal
import Brtos.TimerLists

/-! The number conversions of utils.c, on a memory of signed characters. -/
namespace Brtos
open Decimal

/-- `do { s[i++] = n % 10 + '0'; } while ((n /= 10) > 0);` for an int of at most `fuel` digits. -/
def digitLoop : ℕ → ℤ → ℕ → (ℕ → ℤ) → Option (ℕ × (ℕ → ℤ))
  | 0,_,_,_ => none
  | fuel+1,n,i,s =>
    let s := Function.update s i (int8 (n.tmod 10+48))
    let i := i+1
    let n := n.tdiv 10
    if n > 0 then digitLoop fuel n i s else some (i,s)

/-- strlen of a string with fewer than `fuel` characters, from the cell `i` on. -/
def strlen : ℕ → (ℕ → ℤ) → ℕ → Option ℕ
  | 0,_,_ => none
  | fuel+1,s,i => if s i = 0 then some i else strlen fuel s (i+1)

/-- The exchanges of `reverse`; `i` and `j` come together in at most `fuel` rounds. -/
def reverseLoop : ℕ → ℕ → ℕ → (ℕ → ℤ) → Option (ℕ → ℤ)
  | 0,_,_,_ => none
  | fuel+1,i,j,s =>
    if i < j then
      let c := s i
      let s := Function.update s i (s j)
      let s := Function.update s j c
      reverseLoop fuel (i+1) (j-1) s
    else some s

/-- reverse, for a string with fewer than `fuel` characters. -/
def reverse (fuel : ℕ) (s : ℕ → ℤ) : Option (ℕ → ℤ) := do
  let length ← strlen fuel s 0
  reverseLoop fuel 0 (length-1) s

/-- The int of the argument has 32 bits, which are ten digits. -/
def intToString (n : ℤ) (s : ℕ → ℤ) : Option (ℕ → ℤ) := do
  let (i,s) ← digitLoop 10 n 0 s
  let s := Function.update s i 0
  reverse 11 s

/-- StringToInteger of a string with fewer than `fuel` characters, in the arithmetic of INT32U. -/
def stringToIntegerLoop : ℕ → (ℕ → ℤ) → ℕ → BitVec 32 → Option (BitVec 32)
  | 0,_,_,_ => none
  | fuel+1,s,p,k =>
    if s p = 0 then some k
    else stringToIntegerLoop fuel s (p+1) ((k <<< 3)+(k <<< 1)+BitVec.ofInt 32 (s p)-48#32)

def stringToInteger (fuel : ℕ) (s : ℕ → ℤ) : Option (BitVec 32) := stringToIntegerLoop fuel s 0 0#32

/-! ### The loops -/

theorem int8_digit {d : ℕ} (h : d < 10) : int8 (d+48) = 48+(d : ℤ) := by
  rw [int8_of_small (by omega) (by omega)]
  omega

theorem digitLoop_eq {n fuel : ℕ} (h : n < 10^(fuel+1)) (i : ℕ) (s : ℕ → ℤ) :
    digitLoop (fuel+1) n i s = some (i+(text n).length,put s i (text n).reverse) := by
  induction fuel generalizing n i s with
  | zero =>
    have small : n < 10 := by simpa using h
    have digit : int8 ((n : ℤ).tmod 10+48) = 48+(n : ℤ) := by
      rw [Int.tmod_eq_of_lt (by omega) (by omega)]
      exact int8_digit small
    rw [digitLoop,digit,Int.tdiv_eq_zero_of_lt (by omega) (by omega),if_neg (lt_irrefl 0),
      text_of_lt small]
    simp [← put_cons]
  | succ fuel ih =>
    have quotient : (n : ℤ).tdiv 10 = ((n/10 : ℕ) : ℤ) := Int.tdiv_eq_ediv_of_nonneg (by omega)
    have digit : int8 ((n : ℤ).tmod 10+48) = 48+((n%10 : ℕ) : ℤ) := by
      rw [Int.tmod_eq_emod_of_nonneg (by omega)]
      exact int8_digit (Nat.mod_lt n (by decide))
    rw [digitLoop,digit,quotient]
    rcases Nat.lt_or_ge n 10 with small | large
    · rw [if_neg (by omega),text_of_lt small,Nat.mod_eq_of_lt small]
      simp [← put_cons]
    · have fits : n/10 < 10^(fuel+1) := by
        rw [pow_succ] at h
        omega
      rw [if_pos (by omega),ih fits,put_cons,text_of_le large]
      simp
      omega

theorem strlen_eq {s : ℕ → ℤ} {i n fuel : ℕ} (nonzero : ∀ j, i ≤ j → j < n → s j ≠ 0) (le : i ≤ n)
    (stop : s n = 0) (enough : n < i+fuel) : strlen fuel s i = some n := by
  induction fuel generalizing i with
  | zero => omega
  | succ fuel ih =>
    rw [strlen]
    rcases Nat.eq_or_lt_of_le le with rfl | lt
    · rw [if_pos stop]
    · rw [if_neg (nonzero i le_rfl lt)]
      exact ih (fun j hj => nonzero j (by omega)) lt (by omega)

/-- The cells from `i` to `j` in the other order. -/
def mirror (s : ℕ → ℤ) (i j k : ℕ) : ℤ := if i ≤ k ∧ k ≤ j then s (i+j-k) else s k

theorem mirror_exchanged {s : ℕ → ℤ} {i j : ℕ} (lt : i < j) :
    mirror (Function.update (Function.update s i (s j)) j (s i)) (i+1) (j-1) = mirror s i j := by
  funext k
  unfold mirror
  by_cases first : k = i
  · subst first
    rw [if_neg (by omega),if_pos ⟨le_rfl,lt.le⟩,Function.update_of_ne lt.ne,Function.update_self,
      Nat.add_sub_cancel_left]
  by_cases last : k = j
  · subst last
    rw [if_neg (by omega),if_pos ⟨lt.le,le_rfl⟩,Function.update_self,Nat.add_sub_cancel]
  by_cases inside : i+1 ≤ k ∧ k ≤ j-1
  · have place : i+1+(j-1)-k = i+j-k := by omega
    rw [if_pos inside,if_pos ⟨by omega,by omega⟩,place,Function.update_of_ne (by omega),
      Function.update_of_ne (by omega)]
  · rw [if_neg inside,if_neg (by omega),Function.update_of_ne last,Function.update_of_ne first]

theorem mirror_of_le {i j : ℕ} (s : ℕ → ℤ) (le : j ≤ i) : mirror s i j = s := by
  funext k
  unfold mirror
  split_ifs with inside
  · rw [show i+j-k = k by omega]
  · rfl

theorem reverseLoop_eq {fuel i j : ℕ} (s : ℕ → ℤ) (enough : j ≤ i+2*fuel) :
    reverseLoop (fuel+1) i j s = some (mirror s i j) := by
  induction fuel generalizing i j s with
  | zero =>
    rw [reverseLoop,if_neg (by omega),mirror_of_le s (by omega)]
  | succ fuel ih =>
    rw [reverseLoop]
    split_ifs with lt
    · rw [ih _ (by omega)]
      exact congrArg some (mirror_exchanged lt)
    · rw [mirror_of_le s (by omega)]

/-- reverse turns a text around and leaves its NUL where it is. -/
theorem reverse_reads {fuel : ℕ} {w : List ℤ} {s : ℕ → ℤ} (h : Reads s w) (nonzero : 0 ∉ w)
    (enough : w.length < fuel) : ∃ r, reverse fuel s = some r ∧ Reads r w.reverse := by
  have length : strlen fuel s 0 = some w.length := by
    apply strlen_eq _ (Nat.zero_le _) h.2 (by omega)
    intro j _ hj zero
    apply nonzero
    rw [← zero,h.1 j hj,List.getD_eq_getElem _ _ hj]
    exact List.getElem_mem hj
  obtain ⟨f,rfl⟩ : ∃ f, fuel = f+1 := ⟨fuel-1,by omega⟩
  refine ⟨mirror s 0 (w.length-1),?_,?_,?_⟩
  · simp only [reverse,length,Option.bind_eq_bind,Option.bind_some]
    exact reverseLoop_eq s (by omega)
  · intro j hj
    rw [List.length_reverse] at hj
    rw [mirror,if_pos ⟨Nat.zero_le j,by omega⟩,h.1 _ (by omega),
      List.getD_eq_getElem _ _ (by omega),List.getD_eq_getElem _ _ (by simpa using hj),
      List.getElem_reverse]
    congr 1
    omega
  · rw [List.length_reverse,mirror]
    split_ifs with inside
    · have empty : w.length = 0 := by omega
      rw [empty]
      simpa [empty] using h.2
    · exact h.2

/-- A round of StringToInteger on the character `c`. -/
theorem round_ofInt (x c : ℤ) :
    (BitVec.ofInt 32 x <<< 3)+(BitVec.ofInt 32 x <<< 1)+BitVec.ofInt 32 c-48#32 =
      BitVec.ofInt 32 (10*x+(c-48)) := by
  have eight : BitVec.ofInt 32 x <<< 3 = BitVec.ofInt 32 (x*8) := by
    rw [BitVec.shiftLeft_eq_mul_twoPow,BitVec.ofInt_mul]
    rfl
  have two : BitVec.ofInt 32 x <<< 1 = BitVec.ofInt 32 (x*2) := by
    rw [BitVec.shiftLeft_eq_mul_twoPow,BitVec.ofInt_mul]
    rfl
  have zero : (48#32 : BitVec 32) = BitVec.ofInt 32 48 := rfl
  rw [eight,two,zero,BitVec.sub_eq_add_neg,← BitVec.ofInt_neg,← BitVec.ofInt_add,← BitVec.ofInt_add,
    ← BitVec.ofInt_add]
  congr 1
  ring

theorem stringToIntegerLoop_eq {fuel p : ℕ} {s : ℕ → ℤ} {w : List ℤ} (x : ℤ)
    (here : ∀ j, j < w.length → s (p+j) = w.getD j 0) (stop : s (p+w.length) = 0) (nonzero : 0 ∉ w)
    (enough : w.length < fuel) :
    stringToIntegerLoop fuel s p (BitVec.ofInt 32 x) =
      some (BitVec.ofInt 32 (w.foldl (fun k c => 10*k+(c-48)) x)) := by
  induction w generalizing fuel p x with
  | nil => 
    obtain ⟨f,rfl⟩ : ∃ f, fuel = f+1 := ⟨fuel-1,by simp at enough; omega⟩
    rw [stringToIntegerLoop,if_pos (by simpa using stop)]
    rfl
  | cons c w ih =>
    obtain ⟨f,rfl⟩ : ∃ f, fuel = f+1 := ⟨fuel-1,by simp at enough; omega⟩
    have first : s p = c := by simpa using here 0 (by simp)
    rw [List.mem_cons,not_or] at nonzero
    rw [stringToIntegerLoop,first,if_neg (Ne.symm nonzero.1),round_ofInt]
    apply ih
    · intro j hj
      have := here (j+1) (by simpa using hj)
      rw [show p+1+j = p+(j+1) by omega,this,List.getD_cons_succ]
    · rw [← stop,List.length_cons]
      congr 1
      omega
    · exact nonzero.2
    · simpa using enough

/-- StringToInteger of a text of digits, modulo 2^32. -/
theorem stringToInteger_eq {fuel : ℕ} {s : ℕ → ℤ} {w : List ℤ} (h : Reads s w) (nonzero : 0 ∉ w)
    (enough : w.length < fuel) : stringToInteger fuel s = some (BitVec.ofInt 32 (value w)) := by
  have zero : (0#32 : BitVec 32) = BitVec.ofInt 32 0 := rfl
  rw [stringToInteger,zero]
  apply stringToIntegerLoop_eq 0 _ _ nonzero enough
  · intro j hj
    rw [Nat.zero_add]
    exact h.1 j hj
  · rw [Nat.zero_add]
    exact h.2

/-! ### IntToString -/

theorem text_nonzero (n : ℕ) : (0 : ℤ) ∉ text n := by
  intro h
  have := mem_text h
  omega

theorem text_length_int {n : ℕ} (h : n < 2^31) : (text n).length ≤ 10 :=
  text_length_le (h.trans (by decide))

/-- The digits of a number come out from the last to the first, and `reverse` puts them in order. -/
theorem intToString_natCast {n : ℕ} (h : n < 2^31) (s : ℕ → ℤ) :
    ∃ r, intToString n s = some r ∧ Reads r (text n) := by
  have ten : n < 10^(9+1) := h.trans (by decide)
  have length := text_length_int h
  have stored : Function.update (put s 0 (text n).reverse) (0+(text n).length) 0 =
      put s 0 ((text n).reverse++[0]) := by
    rw [← put_concat,List.length_reverse]
  have backwards := reads_put s (text n).reverse
  obtain ⟨r,done,reads⟩ := reverse_reads backwards (by simpa using text_nonzero n)
    (show (text n).reverse.length < 11 by rw [List.length_reverse]; omega)
  refine ⟨r,?_,by simpa using reads⟩
  simp only [intToString,digitLoop_eq ten 0 s,Option.bind_eq_bind,Option.bind_some,stored,done]

/-- A negative number leaves the loop at once, with a single character. -/
theorem intToString_negative {n : ℤ} (neg : n < 0) (s : ℕ → ℤ) :
    ∃ r c, intToString n s = some r ∧ Reads r [c] := by
  obtain ⟨m,rfl⟩ : ∃ m : ℕ, n = -m := ⟨n.natAbs,by omega⟩
  have quotient : ¬ 0 < (-(m : ℤ)).tdiv 10 := by
    have := Int.tdiv_nonneg (a := m) (b := 10) (by omega) (by omega)
    rw [Int.neg_tdiv]
    omega
  have low := Int.lt_tmod_of_pos (-(m : ℤ)) (b := 10) (by decide)
  have high := Int.tmod_lt_of_pos (-(m : ℤ)) (b := 10) (by decide)
  generalize character : int8 ((-(m : ℤ)).tmod 10+48) = c
  have visible : c ≠ 0 := by
    rw [int8_of_small (by omega) (by omega)] at character
    omega
  have stored : Function.update (Function.update s 0 c) 1 0 = put s 0 ([c]++[0]) := by
    rw [← put_concat,← put_cons,put_nil]
    rfl
  obtain ⟨r,done,reads⟩ := reverse_reads (reads_put s [c]) (by simpa using visible.symm)
    (show [c].length < 11 by simp)
  refine ⟨r,c,?_,reads⟩
  simp only [intToString,digitLoop,character,if_neg quotient,Option.bind_eq_bind,Option.bind_some,
    Nat.zero_add,stored,done]

/-- The text of `n` is what IntToString leaves in the memory, and StringToInteger takes it back. -/
def Converts (n : ℤ) (s : ℕ → ℤ) : Prop :=
  ∃ r, intToString n s = some r ∧ Reads r (signedText n) ∧
    (0 ≤ n → ∃ k, stringToInteger 11 r = some k ∧ (k.toNat : ℤ) = n)

theorem converts_natCast {n : ℕ} (h : n < 2^31) (s : ℕ → ℤ) : Converts n s := by
  obtain ⟨r,done,reads⟩ := intToString_natCast h s
  have length := text_length_int h
  refine ⟨r,done,?_,fun _ => ⟨BitVec.ofInt 32 n,?_,?_⟩⟩
  · rwa [signedText,if_neg (by omega),Int.natAbs_natCast]
  · rw [stringToInteger_eq reads (text_nonzero n) (by omega),value_text]
  · rw [BitVec.ofInt_natCast,BitVec.toNat_ofNat]
    omega

theorem not_converts {n : ℤ} (neg : n < 0) (s : ℕ → ℤ) : ¬ Converts n s := by
  rintro ⟨r,done,reads,-⟩
  obtain ⟨r',c,done',short⟩ := intToString_negative neg s
  obtain rfl := Option.some.inj (done.symm.trans done')
  have digit := reads.1 1
  rw [signedText,if_pos neg] at digit
  have length := text_length_pos n.natAbs
  have first := digit (by simp; omega)
  rw [List.getD_cons_succ,List.getD_eq_getElem _ _ length] at first
  have visible := mem_text (List.getElem_mem length)
  have nul : r 1 = 0 := short.2
  omega

theorem converts_iff (n : ℤ) (s : ℕ → ℤ) (int : -2^31 ≤ n ∧ n < 2^31) : Converts n s ↔ 0 ≤ n := by
  constructor
  · intro h
    by_contra neg
    exact not_converts (not_le.mp neg) s h
  · intro pos
    obtain ⟨m,rfl⟩ := Int.eq_ofNat_of_zero_le pos
    exact converts_natCast (by omega) s

theorem converts_example : Converts 2050 (fun _ => 0) := (converts_iff 2050 _ (by decide)).mpr (by decide)

/-- The memory begins with a plus for the number -5. -/
theorem converts_fails : ¬ ∀ (n : ℤ) (s : ℕ → ℤ), -2^31 ≤ n → n < 2^31 → Converts n s :=
  fun all => not_converts (n := -5) (by decide) (fun _ => 0) (all (-5) _ (by decide) (by decide))

example : ((intToString (-5) fun _ => 0).map fun r => (r 0,r 1)) = some (43,0) := by decide

end Brtos
