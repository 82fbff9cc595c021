import Brtos.Library.Decimal
import Brtos.MakeTime

/-! strftime and str2time of time_lib.c. Strings are lists of characters without their NUL, and a
store outside of the buffer leaves none. -/
namespace Brtos
open Gregorian

def nul : Char := Char.ofNat 0

/-- The digits of a number. -/
def digits (n : ℕ) : List Char := (Decimal.text n).map fun c => Char.ofNat c.toNat

namespace Tm

def days : List String :=
  ["Sunday","Monday","Tuesday","Wednesday","Thursday","Friday","Saturday"]

def daysAbbrev : List String := ["Sun","Mon","Tue","Wed","Thu","Fri","Sat"]

def months : List String :=
  ["January","February","March","April","May","June","July","August","September","October",
    "November","December"]

def monthsAbbrev : List String :=
  ["Jan","Feb","Mar","Apr","May","Jun","Jul","Aug","Sep","Oct","Nov","Dec"]

/-- An entry of a table of names, `?` outside of it. -/
def name (table : List String) (i : ℤ) : List Char :=
  if i < 0 ∨ table.length ≤ i then ['?'] else (table.getD i.toNat "").toList

/-! ### The week of ISO 8601 -/

/-- The loop of the conversions V, G and g: the year and the week. -/
def isoWeek (year yday wday : ℤ) : ℤ × ℤ :=
  let len := yearsize year
  let bot := (yday+11-wday).tmod 7-3
  let top := bot-len%7
  let top := (if top < -3 then top+7 else top)+len
  if top ≤ yday then (year+1,1)
  else if bot ≤ yday then (year,1+(yday-bot).tdiv 7)
  else isoWeek (year-1) (yday+yearsize (year-1)) wday
termination_by (4-yday).toNat
decreasing_by
  have := yearsize_pos (year-1)
  have := Int.tmod_lt_of_pos (yday+11-wday) (show (0 : ℤ) < 7 by decide)
  omega

/-! ### The conversions -/

/-- What _add or _conv appends; a number comes with a flag for leading zeros and its width. -/
inductive Piece where
  | str (s : List Char)
  | num (zero : Bool) (width : ℕ) (n : ℤ)

/-- sprintf of a number. -/
def pad (zero : Bool) (width : ℕ) (n : ℤ) : List Char :=
  let sign := if n < 0 then ['-'] else []
  let text := digits n.natAbs
  let gap := width-(sign.length+text.length)
  if zero then sign++(List.replicate gap '0'++text) else List.replicate gap ' '++(sign++text)

/-- The text of a piece, none where it leaves `buf[32]`. -/
def Piece.text : Piece → Option (List Char)
  | .str s => some s
  | .num zero width n => if (pad zero width n).length < 32 then some (pad zero width n) else none

/-- A step of the switch. -/
inductive Action where
  | add (pieces : List Piece)
  | fmt (format : String)
  | seconds
  | copy

def hour12 (hour : ℤ) : ℤ := if hour.tmod 12 ≠ 0 then hour.tmod 12 else 12

/-- The switch on the character after the percent sign. -/
def switch (z : Zone) (tm : Tm) : List (Char × Action) := [
  ('A',.add [.str (name days tm.tmWday)]),
  ('a',.add [.str (name daysAbbrev tm.tmWday)]),
  ('B',.add [.str (name months tm.tmMon)]),
  ('b',.add [.str (name monthsAbbrev tm.tmMon)]),
  ('h',.add [.str (name monthsAbbrev tm.tmMon)]),
  ('C',.add [.num true 2 ((tm.tmYear+year0).tdiv 100)]),
  ('c',.fmt "%a %b %e %H:%M:%S %Y"),
  ('D',.fmt "%m/%d/%y"),
  ('d',.add [.num true 2 tm.tmMday]),
  ('e',.add [.num false 2 tm.tmMday]),
  ('F',.fmt "%Y-%m-%d"),
  ('H',.add [.num true 2 tm.tmHour]),
  ('I',.add [.num true 2 (hour12 tm.tmHour)]),
  ('j',.add [.num true 3 (tm.tmYday+1)]),
  ('k',.add [.num false 2 tm.tmHour]),
  ('l',.add [.num false 2 (hour12 tm.tmHour)]),
  ('M',.add [.num true 2 tm.tmMin]),
  ('m',.add [.num true 2 (tm.tmMon+1)]),
  ('n',.add [.str ['\n']]),
  ('p',.add [.str (if 12 ≤ tm.tmHour then "pm" else "am").toList]),
  ('R',.fmt "%H:%M"),
  ('r',.fmt "%I:%M:%S %p"),
  ('S',.add [.num true 2 tm.tmSec]),
  ('s',.seconds),
  ('T',.fmt "%H:%M:%S"),
  ('t',.add [.str ['\t']]),
  ('U',.add [.num true 2 ((tm.tmYday+7-tm.tmWday).tdiv 7)]),
  ('u',.add [.num false 0 (if tm.tmWday = 0 then 7 else tm.tmWday)]),
  ('V',.add [.num true 2 (isoWeek (tm.tmYear+year0) tm.tmYday tm.tmWday).2]),
  ('g',.add [.num true 2 ((isoWeek (tm.tmYear+year0) tm.tmYday tm.tmWday).1.tmod 100)]),
  ('G',.add [.num true 4 (isoWeek (tm.tmYear+year0) tm.tmYday tm.tmWday).1]),
  ('v',.fmt "%e-%b-%Y"),
  ('W',.add [.num true 2 ((tm.tmYday+7-(if tm.tmWday ≠ 0 then tm.tmWday-1 else 6)).tdiv 7)]),
  ('w',.add [.num false 0 tm.tmWday]),
  ('X',.fmt "%H:%M:%S"),
  ('x',.fmt "%m/%d/%y"),
  ('y',.add [.num true 2 ((tm.tmYear+year0).tmod 100)]),
  ('Y',.add [.num true 4 (tm.tmYear+year0)]),
  ('Z',.add [.str ['?']]),
  ('z',.add [.str (if 0 ≤ z.timezone then ['+'] else ['-']),.num true 2 (z.timezone.tdiv 3600),
    .num true 2 ((z.timezone.tmod 3600).tdiv 60)]),
  ('+',.fmt "%a, %d %b %Y %H:%M:%S %z")]

def action (z : Zone) (tm : Tm) (c : Char) : Action :=
  ((switch z tm).lookup c).getD .copy

/-! ### The buffer -/

/-- The buffer from `s` on, and `pt`. -/
structure Out where
  s : ℕ → Char
  pt : ℕ

namespace Out

/-- `*pt = c`, in a buffer of `lim` characters. -/
def store (lim : ℕ) (o : Out) (c : Char) : Option Out :=
  if o.pt < lim then some { o with s := Function.update o.s o.pt c } else none

def next (o : Out) : Out := { o with pt := o.pt+1 }

/-- _add -/
def add (lim : ℕ) : List Char → Out → Option Out
  | [],o => if o.pt < lim then o.store lim nul else some o
  | c :: str,o => if o.pt < lim then (o.store lim c).bind fun o => add lim str o.next else some o

def addPieces (lim : ℕ) : List Piece → Out → Option Out
  | [],o => some o
  | p :: ps,o => do
    let text ← p.text
    let o ← add lim text o
    addPieces lim ps o

end Out

/-- _fmt; the calls for a composite conversion are at most `depth` deep. -/
def fmt (z : Zone) (tm : Tm) (lim : ℕ) (depth : ℕ) (format : List Char) (o : Out) : Option Out :=
  match format with
  | [] => some o
  | '%' :: c :: rest =>
    match action z tm c with
    | .add pieces => (o.addPieces lim pieces).bind (fmt z tm lim depth rest)
    | .fmt inner =>
      match depth with
      | 0 => none
      | depth+1 => (fmt z tm lim depth inner.toList o).bind (fmt z tm lim (depth+1) rest)
    | .seconds => do
      let (_,mkt) ← mktime z tm
      let o ← o.add lim (digits (mkt%4294967296).toNat)
      fmt z tm lim depth rest o
    | .copy =>
      if o.pt = lim then some o
      else (o.store lim c).bind fun o => fmt z tm lim depth rest o.next
  | c :: rest =>
    if o.pt = lim then some o
    else (o.store lim c).bind fun o => fmt z tm lim depth rest o.next
termination_by (depth,format.length)

/-- The buffer that is left behind, and the length of the text; NULL stands for `%c`. -/
def strftime (z : Zone) (s : ℕ → Char) (maxsize : ℕ) (format : Option (List Char)) (tm : Tm) :
    Option ((ℕ → Char) × ℕ) := do
  let o ← fmt z tm maxsize 1 (format.getD "%c".toList) ⟨s,0⟩
  if o.pt = maxsize then return (o.s,0)
  let o ← o.store maxsize nul
  return (o.s,o.pt)

/-! ### The text without the limit -/

def pieceTexts : List Piece → Option (List Char)
  | [] => some []
  | p :: ps => do
    let text ← p.text
    let texts ← pieceTexts ps
    return text++texts

/-- What a format stands for. -/
def rendered (z : Zone) (tm : Tm) (depth : ℕ) (format : List Char) : Option (List Char) :=
  match format with
  | [] => some []
  | '%' :: c :: rest =>
    match action z tm c with
    | .add pieces => (pieceTexts pieces).bind fun text => (rendered z tm depth rest).map (text++·)
    | .fmt inner =>
      match depth with
      | 0 => none
      | depth+1 => (rendered z tm depth inner.toList).bind fun text =>
        (rendered z tm (depth+1) rest).map (text++·)
    | .seconds => (mktime z tm).bind fun made =>
      (rendered z tm depth rest).map (digits (made.2%4294967296).toNat++·)
    | .copy => (rendered z tm depth rest).map (c :: ·)
  | c :: rest => (rendered z tm depth rest).map (c :: ·)
termination_by (depth,format.length)

/-- The text is in the buffer as far as it fits, and no other character but the next one has
changed. -/
structure Wrote (s : ℕ → Char) (lim : ℕ) (text : List Char) (o : Out) : Prop where
  pt : o.pt = min text.length lim
  text : ∀ j < o.pt, o.s j = text.getD j nul
  rest : ∀ j, o.pt < j → o.s j = s j
  outside : ∀ j, lim ≤ j → o.s j = s j

variable {s : ℕ → Char} {lim : ℕ} {text str : List Char} {o : Out} {z : Zone} {tm : Tm}

theorem Wrote.nil (s : ℕ → Char) (lim : ℕ) : Wrote s lim [] ⟨s,0⟩ :=
  ⟨by simp,fun j h => absurd h (Nat.not_lt_zero j),fun _ _ => rfl,fun _ _ => rfl⟩

/-- A full buffer stays as it is. -/
theorem Wrote.full (h : Wrote s lim text o) (full : o.pt = lim) (str : List Char) :
    Wrote s lim (text++str) o := by
  have pt := h.pt
  refine ⟨?_,fun j lt => ?_,h.rest,h.outside⟩
  · rw [List.length_append]
    omega
  · rw [h.text j lt,List.getD_append _ _ _ _ (by omega)]

/-- A character is stored, and kept or not. -/
theorem Wrote.store (h : Wrote s lim text o) (room : o.pt < lim) (c : Char) :
    ∃ o', o.store lim c = some o' ∧ Wrote s lim text o' ∧ Wrote s lim (text++[c]) o'.next := by
  have pt := h.pt
  have changed : ∀ j, j ≠ o.pt → Function.update o.s o.pt c j = o.s j := fun j ne =>
    Function.update_of_ne ne c o.s
  refine ⟨{ o with s := Function.update o.s o.pt c },if_pos room,⟨pt,?_,?_,?_⟩,?_,?_,?_,?_⟩
  · intro j lt
    exact (changed j lt.ne).trans (h.text j lt)
  · intro j lt
    exact (changed j lt.ne').trans (h.rest j lt)
  · intro j le
    exact (changed j (by omega)).trans (h.outside j le)
  · simp only [Out.next,List.length_append,List.length_singleton]
    omega
  · intro j lt
    change Function.update o.s o.pt c j = _
    simp only [Out.next] at lt
    by_cases last : j = o.pt
    · have here : text.length = o.pt := by omega
      subst last
      rw [Function.update_self,List.getD_append_right _ _ _ _ here.le,here]
      simp
    · rw [changed j last,h.text j (by omega),List.getD_append _ _ _ _ (by omega)]
  · intro j lt
    simp only [Out.next] at lt
    exact (changed j (by omega)).trans (h.rest j (by omega))
  · intro j le
    exact (changed j (by omega)).trans (h.outside j le)

theorem Wrote.add (h : Wrote s lim text o) (str : List Char) :
    ∃ o', o.add lim str = some o' ∧ Wrote s lim (text++str) o' := by
  induction str generalizing text o with
  | nil =>
    unfold Out.add
    split_ifs with room
    · obtain ⟨o',eq,kept,_⟩ := h.store room nul
      exact ⟨o',eq,by simpa using kept⟩
    · exact ⟨o,rfl,by simpa using h⟩
  | cons c str ih =>
    have pt := h.pt
    unfold Out.add
    split_ifs with room
    · obtain ⟨o₁,eq,_,moved⟩ := h.store room c
      obtain ⟨o₂,eq₂,wrote⟩ := ih moved
      exact ⟨o₂,by simp [eq,eq₂],by simpa using wrote⟩
    · exact ⟨o,rfl,h.full (by omega) _⟩

theorem Wrote.addPieces (h : Wrote s lim text o) {pieces : List Piece} {w : List Char}
    (texts : pieceTexts pieces = some w) :
    ∃ o', o.addPieces lim pieces = some o' ∧ Wrote s lim (text++w) o' := by
  induction pieces generalizing text o w with
  | nil =>
    cases texts
    exact ⟨o,rfl,by simpa using h⟩
  | cons p ps ih =>
    simp only [pieceTexts,Option.bind_eq_bind,Option.bind_eq_some_iff,Option.pure_def,
      Option.some.injEq] at texts
    obtain ⟨t,here,ts,later,rfl⟩ := texts
    obtain ⟨o₁,eq,wrote⟩ := h.add t
    obtain ⟨o₂,eq₂,wrote₂⟩ := ih wrote later
    exact ⟨o₂,by simp [Out.addPieces,here,eq,eq₂],by simpa using wrote₂⟩

/-- A character of the format is copied. -/
theorem Wrote.copy (h : Wrote s lim text o) (c : Char) {k : Out → Option Out} {w : List Char}
    (later : ∀ o, Wrote s lim (text++[c]) o → ∃ o', k o = some o' ∧ Wrote s lim (text++[c]++w) o') :
    ∃ o', (if o.pt = lim then some o else (o.store lim c).bind fun o => k o.next) = some o' ∧
      Wrote s lim (text++c :: w) o' := by
  have pt := h.pt
  split_ifs with full
  · exact ⟨o,rfl,h.full full _⟩
  · obtain ⟨o₁,eq,_,moved⟩ := h.store (by omega) c
    obtain ⟨o₂,eq₂,wrote⟩ := later o₁.next moved
    exact ⟨o₂,by simp [eq,eq₂],by simpa using wrote⟩

theorem fmt_spec {depth : ℕ} {format w : List Char} (h : Wrote s lim text o)
    (renders : rendered z tm depth format = some w) :
    ∃ o', fmt z tm lim depth format o = some o' ∧ Wrote s lim (text++w) o' := by
  fun_induction rendered z tm depth format generalizing text o w with
  | case1 =>
    cases renders
    exact ⟨o,by simp [fmt],by simpa using h⟩
  | case2 depth c rest pieces act ih =>
    obtain ⟨t,here,renders⟩ := Option.bind_eq_some_iff.mp renders
    obtain ⟨v,later,rfl⟩ := Option.map_eq_some_iff.mp renders
    obtain ⟨o₁,eq,wrote⟩ := h.addPieces here
    obtain ⟨o₂,eq₂,wrote₂⟩ := ih wrote later
    refine ⟨o₂,?_,by simpa using wrote₂⟩
    rw [fmt,act]
    simpa [eq] using eq₂
  | case3 => cases renders
  | case4 c rest inner act depth ihInner ihRest =>
    obtain ⟨t,here,renders⟩ := Option.bind_eq_some_iff.mp renders
    obtain ⟨v,later,rfl⟩ := Option.map_eq_some_iff.mp renders
    obtain ⟨o₁,eq,wrote⟩ := ihInner h here
    obtain ⟨o₂,eq₂,wrote₂⟩ := ihRest wrote later
    refine ⟨o₂,?_,by simpa using wrote₂⟩
    rw [fmt,act]
    simpa [eq] using eq₂
  | case5 depth c rest act ih =>
    obtain ⟨made,found,renders⟩ := Option.bind_eq_some_iff.mp renders
    obtain ⟨v,later,rfl⟩ := Option.map_eq_some_iff.mp renders
    obtain ⟨o₁,eq,wrote⟩ := h.add (digits (made.2%4294967296).toNat)
    obtain ⟨o₂,eq₂,wrote₂⟩ := ih wrote later
    refine ⟨o₂,?_,by simpa using wrote₂⟩
    rw [fmt,act]
    simpa [found,eq] using eq₂
  | case6 depth c rest act ih =>
    obtain ⟨v,later,rfl⟩ := Option.map_eq_some_iff.mp renders
    rw [fmt,act]
    exact h.copy c fun o wrote => ih wrote later
  | case7 depth c rest plain ih =>
    obtain ⟨v,later,rfl⟩ := Option.map_eq_some_iff.mp renders
    rw [fmt.eq_3 _ _ _ _ _ _ _ plain]
    exact h.copy c fun o wrote => ih wrote later

/-- What strftime does with the text that the format stands for. -/
structure Formatted (s : ℕ → Char) (maxsize : ℕ) (w : List Char) (r : (ℕ → Char) × ℕ) : Prop where
  outside : ∀ j, maxsize ≤ j → r.1 j = s j
  fits : w.length < maxsize → r.2 = w.length ∧ (∀ j < w.length, r.1 j = w.getD j nul) ∧
    r.1 w.length = nul ∧ ∀ j, w.length < j → r.1 j = s j
  cut : maxsize ≤ w.length → r.2 = 0

theorem strftime_rendered {maxsize : ℕ} {format : Option (List Char)} {w : List Char}
    (renders : rendered z tm 1 (format.getD "%c".toList) = some w) :
    ∃ r, strftime z s maxsize format tm = some r ∧ Formatted s maxsize w r := by
  obtain ⟨o,eq,wrote⟩ := fmt_spec (Wrote.nil s maxsize) renders
  rw [List.nil_append] at wrote
  have pt := wrote.pt
  by_cases full : o.pt = maxsize
  · refine ⟨(o.s,0),?_,wrote.outside,by omega,fun _ => rfl⟩
    rw [strftime,eq]
    exact if_pos full
  · obtain ⟨o',stored,kept,_⟩ := wrote.store (by omega) nul
    obtain rfl : { o with s := Function.update o.s o.pt nul } = o' := by
      simpa [Out.store,show o.pt < maxsize by omega] using stored
    have length : o.pt = w.length := by omega
    refine ⟨(Function.update o.s o.pt nul,o.pt),?_,kept.outside,fun _ => ⟨length,?_,?_,?_⟩,by omega⟩
    · rw [strftime,eq]
      refine (if_neg full).trans ?_
      rw [stored]
      rfl
    · intro j lt
      exact kept.text j (by simp only; omega)
    · rw [← length]
      exact Function.update_self ..
    · intro j lt
      exact kept.rest j (by simp only; omega)

/-! ### Every format is rendered -/

theorem digits_length {n k : ℕ} (h : n < 10^(k+1)) : (digits n).length ≤ k+1 := by
  rw [digits,List.length_map]
  exact Decimal.text_length_le h

theorem pad_length {zero : Bool} {width : ℕ} {n : ℤ} (short : width ≤ 4)
    (low : -1000000000000 < n) (high : n < 1000000000000) : (pad zero width n).length < 32 := by
  have text := digits_length (n := n.natAbs) (k := 11) (by omega)
  have sign : (if n < 0 then ['-'] else []).length ≤ 1 := by split_ifs <;> simp
  unfold pad
  cases zero
  · simp only [Bool.false_eq_true,if_false,List.length_append,List.length_replicate]
    omega
  · simp only [if_true,List.length_append,List.length_replicate]
    omega

/-- A number that the buffer of _conv can hold. -/
def Piece.Fits : Piece → Prop
  | .str _ => True
  | .num _ width n => width ≤ 4 ∧ -1000000000000 < n ∧ n < 1000000000000

theorem Piece.Fits.exists_text {p : Piece} (h : p.Fits) : ∃ w, p.text = some w := by
  cases p with
  | str w => exact ⟨w,rfl⟩
  | num zero width n => exact ⟨_,if_pos (pad_length h.1 h.2.1 h.2.2)⟩

theorem pieceTexts_total {pieces : List Piece} (h : ∀ p ∈ pieces, p.Fits) :
    ∃ w, pieceTexts pieces = some w := by
  induction pieces with
  | nil => exact ⟨[],rfl⟩
  | cons p ps ih =>
    obtain ⟨w,here⟩ := Piece.Fits.exists_text (h p List.mem_cons_self)
    obtain ⟨v,later⟩ := ih fun q mem => h q (List.mem_cons_of_mem p mem)
    exact ⟨w++v,by simp [pieceTexts,here,later]⟩

/-- The fields that are printed, what the conversions make of them, and the globals of the library. -/
structure Ints (z : Zone) (tm : Tm) : Prop where
  sums : tm.Sums
  month : InInt (tm.tmMon+1)
  year : InInt (tm.tmYear+year0)
  wday : InInt tm.tmWday
  monday : InInt (tm.tmWday-1)
  yday : InInt tm.tmYday
  ordinal : InInt (tm.tmYday+1)
  /-- The loop of the conversions V, G and g adds to the day of the year only up to 369. -/
  iso : InInt (tm.tmYday+11) ∧ InInt (tm.tmYday+11-tm.tmWday) ∧ InInt (369+11-tm.tmWday)
  isoYear : InInt (isoWeek (tm.tmYear+year0) tm.tmYday tm.tmWday).1
  sundays : InInt (tm.tmYday+7) ∧ InInt (tm.tmYday+7-tm.tmWday)
  mondays : InInt (tm.tmYday+7-(if tm.tmWday ≠ 0 then tm.tmWday-1 else 6))
  zone : InInt z.timezone
  bias : 0 ≤ z.dstbias

theorem tdiv_bounds {x n : ℤ} (k : ℤ) (low : -n ≤ x) (high : x ≤ n) :
    -n ≤ x.tdiv k ∧ x.tdiv k ≤ n := by
  have size := Int.natAbs_tdiv_le_natAbs x k
  omega

theorem tmod_bounds (x : ℤ) {k : ℤ} (pos : 0 < k) : -k < x.tmod k ∧ x.tmod k < k :=
  ⟨Int.lt_tmod_of_pos x pos,Int.tmod_lt_of_pos x pos⟩

theorem isoWeek_bounds (year yday wday : ℤ) : (isoWeek year yday wday).1 ≤ year+1 ∧
    year-(isoWeek year yday wday).1 ≤ (4-yday).toNat ∧
    1 ≤ (isoWeek year yday wday).2 ∧ (isoWeek year yday wday).2 ≤ 60 := by
  fun_induction isoWeek year yday wday with
  | case1 => simp only; omega
  | case2 year yday len bot top top' before after =>
    have range := tmod_bounds (yday+11-wday) (show (0 : ℤ) < 7 by decide)
    have size : len ≤ 366 := by
      simp only [len,yearsize]
      split_ifs <;> omega
    have limit : top' ≤ 4+7+len := by
      simp only [top']
      split_ifs <;> omega
    rw [Int.tdiv_eq_ediv_of_nonneg (by omega)]
    omega
  | case3 year yday len bot top top' before after ih =>
    have range := tmod_bounds (yday+11-wday) (show (0 : ℤ) < 7 by decide)
    have size : 0 < yearsize (year-1) := yearsize_pos _
    omega

/-- The conversions that call _fmt. -/
def composites : List Char := "cDFRrTvXx+".toList

/-- The pieces fit, and a format within the switch does not lead to another one. -/
def Action.Fits : Action → Prop
  | .add pieces => ∀ p ∈ pieces, p.Fits
  | .fmt inner => ∀ c ∈ inner.toList, c ∉ composites
  | .seconds | .copy => True

theorem hour12_bounds (hour : ℤ) : -12 < hour12 hour ∧ hour12 hour ≤ 12 := by
  have := tmod_bounds hour (show (0 : ℤ) < 12 by decide)
  unfold hour12
  split_ifs <;> omega

theorem notMem_composites {l : List Char} (h : (l.all fun c => !composites.contains c) = true) :
    ∀ c ∈ l, c ∉ composites := by
  intro c mem held
  have := List.all_eq_true.mp h c mem
  simp only [List.contains_iff_mem.mpr held] at this
  exact absurd this (by decide)

theorem switch_fits (h : Ints z tm) : ∀ e ∈ switch z tm, e.2.Fits := by
  obtain ⟨⟨sec,min,hour,mday,mon,-,-,-,-,-,-,-⟩,month,year,wday,monday,yday,ordinal,-,isoYear,sundays,mondays,
    zone,bias⟩ := h
  simp only [InInt] at *
  have base : year0 = 1900 := rfl
  have century := tdiv_bounds (x := tm.tmYear+year0) (n := 2147485548) 100 (by omega) (by omega)
  have short := tmod_bounds (tm.tmYear+year0) (show (0 : ℤ) < 100 by decide)
  have iso := isoWeek_bounds (tm.tmYear+year0) tm.tmYday tm.tmWday
  have isoShort := tmod_bounds (isoWeek (tm.tmYear+year0) tm.tmYday tm.tmWday).1
    (show (0 : ℤ) < 100 by decide)
  have twelve := hour12_bounds tm.tmHour
  have sundays := tdiv_bounds (x := tm.tmYday+7-tm.tmWday) (n := 5000000000) 7 (by omega) (by omega)
  have mondays := tdiv_bounds (x := tm.tmYday+7-(if tm.tmWday ≠ 0 then tm.tmWday-1 else 6))
    (n := 5000000000) 7 (by split_ifs <;> omega) (by split_ifs <;> omega)
  have sunday : -2147483648 ≤ (if tm.tmWday = 0 then 7 else tm.tmWday) ∧
      (if tm.tmWday = 0 then 7 else tm.tmWday) ≤ 2147483647 := by
    split_ifs <;> omega
  have hours := tdiv_bounds (x := z.timezone) (n := 2147483648) 3600 (by omega) (by omega)
  have rest := tmod_bounds z.timezone (show (0 : ℤ) < 3600 by decide)
  have minutes := tdiv_bounds (x := z.timezone.tmod 3600) (n := 3600) 60 (by omega) (by omega)
  simp only [switch,List.forall_mem_cons,Action.Fits,Piece.Fits]
  and_intros
  all_goals first
    | with_reducible exact True.intro
    | omega
    | exact fun _ mem => absurd mem List.not_mem_nil
    | exact notMem_composites (by decide)

/-- Only the composite conversions call _fmt. -/
theorem switch_composites (z : Zone) (tm : Tm) :
    ∀ e ∈ switch z tm, ∀ inner, e.2 = .fmt inner → e.1 ∈ composites := by
  simp only [switch,List.forall_mem_cons]
  and_intros
  all_goals first
    | exact fun _ _ => by decide
    | exact fun _ eq => by cases eq

theorem action_mem (c : Char) : action z tm c = .copy ∨ (c,action z tm c) ∈ switch z tm := by
  unfold action
  cases found : (switch z tm).lookup c with
  | none => exact .inl rfl
  | some a =>
    obtain ⟨before,after,split,_⟩ := List.lookup_eq_some_iff.mp found
    exact .inr (split ▸ List.mem_append_right before List.mem_cons_self)

theorem action_fits (h : Ints z tm) (c : Char) : (action z tm c).Fits := by
  rcases @action_mem z tm c with copy | mem
  · rw [copy]
    trivial
  · exact switch_fits h _ mem

/-- A format is rendered when those within its conversions are. -/
theorem rendered_of (h : Ints z tm) {depth : ℕ} (format : List Char)
    (inside : ∀ c ∈ format, ∀ inner, action z tm c = .fmt inner →
      ∃ d w, depth = d+1 ∧ rendered z tm d inner.toList = some w) :
    ∃ w, rendered z tm depth format = some w := by
  fun_induction rendered z tm depth format with
  | case1 => exact ⟨[],rfl⟩
  | case2 depth c rest pieces act ih =>
    obtain ⟨t,here⟩ := pieceTexts_total (by have := action_fits h c; rwa [act] at this)
    obtain ⟨v,later⟩ := ih fun c' mem => inside c' (by simp [mem])
    exact ⟨t++v,by simp [here,later]⟩
  | case3 c rest inner act =>
    obtain ⟨d,_,zero,_⟩ := inside c (by simp) inner act
    cases zero
  | case4 c rest inner act depth _ ih =>
    obtain ⟨d,t,succ,here⟩ := inside c (by simp) inner act
    obtain ⟨v,later⟩ := ih fun c' mem => inside c' (by simp [mem])
    cases succ
    exact ⟨t++v,by simp [here,later]⟩
  | case5 depth c rest act ih =>
    obtain ⟨tm',time,made,_⟩ := mktime_spec z tm h.bias
    obtain ⟨v,later⟩ := ih fun c' mem => inside c' (by simp [mem])
    exact ⟨_,by simp only [made,later]; rfl⟩
  | case6 depth c rest act ih =>
    obtain ⟨v,later⟩ := ih fun c' mem => inside c' (by simp [mem])
    exact ⟨c :: v,by simp [later]⟩
  | case7 depth c rest plain ih =>
    obtain ⟨v,later⟩ := ih fun c' mem => inside c' (by simp [mem])
    exact ⟨c :: v,by simp [later]⟩

theorem rendered_total (h : Ints z tm) (format : List Char) :
    ∃ w, rendered z tm 1 format = some w := by
  apply rendered_of h
  intro c _ inner act
  have flat : ∀ c ∈ inner.toList, c ∉ composites := by
    have := action_fits h c
    rwa [act] at this
  obtain ⟨w,eq⟩ := @rendered_of z tm h 0 inner.toList fun c' mem inner' act' => by
    rcases @action_mem z tm c' with copy | entry
    · simp [copy] at act'
    · exact absurd (switch_composites z tm _ entry inner' act') (flat c' mem)
  exact ⟨0,w,rfl,eq⟩

/-- strftime never stores outside of the buffer that it was given, whatever the format and the
struct say; the text of the format is left behind where it fits, and 0 is answered where not. -/
theorem strftime_formats (z : Zone) (tm : Tm) (s : ℕ → Char) (maxsize : ℕ)
    (format : Option (List Char)) (h : Ints z tm) :
    ∃ w r, rendered z tm 1 (format.getD "%c".toList) = some w ∧
      strftime z s maxsize format tm = some r ∧ Formatted s maxsize w r := by
  obtain ⟨w,renders⟩ := rendered_total h (format.getD "%c".toList)
  obtain ⟨r,eq,formatted⟩ := @strftime_rendered s z tm maxsize format w renders
  exact ⟨w,r,renders,eq,formatted⟩

theorem strftime_formats_date : ∃ w r, rendered ⟨0,3600⟩ ⟨0,0,0,1,0,70,4,0,0⟩ 1 "%F".toList = some w ∧
    strftime ⟨0,3600⟩ (fun _ => 'x') 8 (some "%F".toList) ⟨0,0,0,1,0,70,4,0,0⟩ = some r ∧
    Formatted (fun _ => 'x') 8 w r :=
  strftime_formats ⟨0,3600⟩ ⟨0,0,0,1,0,70,4,0,0⟩ (fun _ => 'x') 8 (some "%F".toList)
    { sums := ⟨by decide,by decide,by decide,by decide,by decide,by decide,by decide,by decide,by decide,
        by decide,by decide,by decide +kernel⟩
      month := by decide
      year := by decide
      wday := by decide
      monday := by decide
      yday := by decide
      ordinal := by decide
      iso := by decide
      isoYear := by decide +kernel
      sundays := by decide
      mondays := by decide
      zone := by decide
      bias := by decide }

end Tm
end Brtos
