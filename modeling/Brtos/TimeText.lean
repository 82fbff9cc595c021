import Brtos.Strftime

/-! The week of ISO 8601, and the way from a time to its text and back. -/
namespace Brtos
open Gregorian

namespace Tm
variable {z : Zone} {tm : Tm}

/-! ### The week of ISO 8601 -/

/-- The Thursday of a week from Monday to Sunday, by the days from the year zero. -/
def thursday (day wday : ℤ) : ℤ := day+3-(wday+6)%7

/-- The year and the week of the day are those of its Thursday. -/
structure InWeek (day wday : ℤ) (r : ℤ × ℤ) : Prop where
  le : yearStart r.1 ≤ thursday day wday
  lt : thursday day wday < yearStart (r.1+1)
  week : r.2 = (thursday day wday-yearStart r.1)/7+1

theorem inWeek_isoWeek (year yday wday : ℤ) (nonneg : 0 ≤ yday) (le : yday < yearsize year+4)
    (day : wday = (yearStart year+yday+6)%7) :
    InWeek (yearStart year+yday) wday (isoWeek year yday wday) := by
  have size : ∀ year, 365 ≤ (yearsize year : ℤ) ∧ (yearsize year : ℤ) ≤ 366 := by
    intro year
    unfold yearsize
    split_ifs <;> omega
  have next : ∀ year, yearStart (year+1) = yearStart year+yearsize year := by
    intro year
    rw [yearsize_eq,yearStart_succ]
  fun_induction isoWeek year yday wday with
  | case1 year yday len bot top top' before =>
    have here := size year
    have there := size (year+1)
    have begins := next year
    have ends := next (year+1)
    have rem : bot = (yday+11-wday)%7-3 := by
      simp only [bot]
      rw [Int.tmod_eq_emod_of_nonneg (by omega)]
    have aligned : top' = bot-len%7+len ∨ top' = bot-len%7+7+len := by
      simp only [top',top]
      split_ifs <;> omega
    have low : -3+len ≤ top' := by
      simp only [top',top]
      split_ifs <;> omega
    refine ⟨?_,?_,?_⟩ <;> simp only [thursday] <;> omega
  | case2 year yday len bot top top' before after =>
    have here := size year
    have begins := next year
    have rem : bot = (yday+11-wday)%7-3 := by
      simp only [bot]
      rw [Int.tmod_eq_emod_of_nonneg (by omega)]
    have aligned : top' = bot-len%7+len ∨ top' = bot-len%7+7+len := by
      simp only [top',top]
      split_ifs <;> omega
    have high : top' ≤ 3+len := by
      simp only [top',top]
      split_ifs <;> omega
    rw [Int.tdiv_eq_ediv_of_nonneg (by omega)]
    refine ⟨?_,?_,?_⟩ <;> simp only [thursday] <;> omega
  | case3 year yday len bot top top' before after ih =>
    have before := size (year-1)
    have begins := next (year-1)
    rw [sub_add_cancel] at begins
    have rem : bot = (yday+11-wday)%7-3 := by
      simp only [bot]
      rw [Int.tmod_eq_emod_of_nonneg (by omega)]
    have same : yearStart (year-1)+(yday+yearsize (year-1)) = yearStart year+yday := by omega
    have := ih (by omega) (by omega) (by omega)
    rwa [same] at this

/-- The conversions V and G give the ISO week of every date. -/
theorem isoWeek_thursday (normal : tm.Normal) (derived : tm.Derived) :
    InWeek (civil (tm.tmYear+year0) tm.tmMon.toNat (tm.tmMday-1)) tm.tmWday
      (isoWeek (tm.tmYear+year0) tm.tmYday tm.tmWday) := by
  have nonneg := normal.date.day_nonneg
  have within := normal.date.lt_year
  have yday := derived.yday
  have wday := derived.wday
  have january : civil epochYr 0 0 = 719528 := rfl
  rw [← yearsize_eq] at within
  have day : civil (tm.tmYear+year0) tm.tmMon.toNat (tm.tmMday-1) =
      yearStart (tm.tmYear+year0)+tm.tmYday := by
    rw [yday,civil]
    ring
  rw [dayno,january,day] at wday
  rw [day]
  exact inWeek_isoWeek _ _ _ (by omega) (by omega) (by omega)

/-- The third of January 2021 is in the last week of 2020. -/
theorem isoWeek_thursday_sunday :
    InWeek (civil 2021 0 2) 0 (isoWeek 2021 2 0) :=
  @isoWeek_thursday ⟨0,0,0,3,0,121,0,2,0⟩
    ⟨⟨by decide,by decide,by decide⟩,by decide,by decide,by decide,by decide,by decide,by decide,by decide⟩
    ⟨by decide,by decide⟩

/-! ### str2time -/

def isSpace (c : Char) : Bool := c = ' ' || (9 ≤ c.toNat && c.toNat ≤ 13)

def isDigit (c : Char) : Bool := 48 ≤ c.toNat && c.toNat ≤ 57

/-- The number that a list of digits stands for. -/
def number (w : List Char) : ℕ := (Decimal.value (w.map fun c => (c.toNat : ℤ))).toNat

/-- atoi: blanks, a sign and the digits that follow. -/
def atoi (s : List Char) : ℤ :=
  match s.dropWhile isSpace with
  | '-' :: s => -number (s.takeWhile isDigit)
  | '+' :: s => number (s.takeWhile isDigit)
  | s => number (s.takeWhile isDigit)

/-- The numbers between the delimiters, at most `n`; strchr finds the next one. -/
def numbers : ℕ → List Char → List ℤ
  | 0,_ => []
  | n+1,s =>
    atoi s :: match s.dropWhile (· ≠ ':') with
      | [] => []
      | _ :: s => numbers n s

/-- The fields that have no number are zero; NULL has none at all. -/
def str2time (z : Zone) (s : Option (List Char)) : Option ℤ :=
  let l := (s.map (numbers 6)).getD []
  (mktime z {
    tmSec := l.getD 5 0, tmMin := l.getD 4 0, tmHour := l.getD 3 0, tmMday := l.getD 2 0,
    tmMon := (l[1]?.map (·-1)).getD 0, tmYear := (l[0]?.map (·-1900)).getD 0,
    tmWday := 0, tmYday := 0, tmIsdst := 0 }).map Prod.snd

/-- What strftime writes for str2time. -/
def stamp : List Char := "%Y:%m:%d:%H:%M:%S".toList

theorem code_digit {c : ℤ} (low : 48 ≤ c) (high : c ≤ 57) : (Char.ofNat c.toNat).toNat = c := by
  obtain ⟨k,rfl⟩ := Int.eq_ofNat_of_zero_le (show 0 ≤ c by omega)
  have low : 48 ≤ k := by omega
  have high : k ≤ 57 := by omega
  rw [Int.toNat_natCast]
  interval_cases k <;> rfl

theorem codes_digits (n : ℕ) : (digits n).map (fun c => (c.toNat : ℤ)) = Decimal.text n := by
  rw [digits,List.map_map]
  refine (List.map_congr_left fun c mem => ?_).trans (List.map_id _)
  obtain ⟨low,high⟩ := Decimal.mem_text mem
  exact code_digit low high

theorem isDigit_of_mem {n : ℕ} {c : Char} (h : c ∈ digits n) : isDigit c = true := by
  have code : (c.toNat : ℤ) ∈ Decimal.text n := by
    rw [← codes_digits]
    exact List.mem_map_of_mem h
  obtain ⟨low,high⟩ := Decimal.mem_text code
  simp only [isDigit,Bool.and_eq_true,decide_eq_true_eq]
  omega

theorem value_zeros (zeros : ℕ) (w : List ℤ) :
    Decimal.value (List.replicate zeros 48++w) = Decimal.value w := by
  induction zeros with
  | zero => rfl
  | succ zeros ih => exact ih

theorem number_digits (zeros n : ℕ) : number (List.replicate zeros '0'++digits n) = n := by
  have zero : (('0' : Char).toNat : ℤ) = 48 := rfl
  rw [number,List.map_append,List.map_replicate,zero,codes_digits,value_zeros,Decimal.value_text,
    Int.toNat_natCast]

theorem atoi_digits {w rest : List Char} (all : ∀ c ∈ w, isDigit c = true) (ne : w ≠ [])
    (stops : ∀ c ∈ rest.head?, isDigit c = false) : atoi (w++rest) = number w := by
  obtain ⟨c,w,rfl⟩ := List.exists_cons_of_ne_nil ne
  have first := all c List.mem_cons_self
  have blank : isSpace c = false := by
    simp only [isDigit,isSpace,Bool.and_eq_true,Bool.or_eq_false_iff,Bool.and_eq_false_iff,
      decide_eq_true_eq,decide_eq_false_iff_not] at *
    refine ⟨fun eq => ?_,by omega⟩
    rw [eq] at first
    exact absurd first (by decide)
  have run : ((c :: w)++rest).takeWhile isDigit = c :: w := by
    rw [List.takeWhile_append_of_pos all]
    cases rest with
    | nil => simp
    | cons d rest => simp [stops d rfl]
  have kept : ((c :: w)++rest).dropWhile isSpace = (c :: w)++rest := by simp [blank]
  unfold atoi
  rw [kept]
  split
  case h_1 s eq =>
    rw [List.cons_append,List.cons.injEq] at eq
    rw [eq.1] at first
    exact absurd first (by decide)
  case h_2 s eq =>
    rw [List.cons_append,List.cons.injEq] at eq
    rw [eq.1] at first
    exact absurd first (by decide)
  case h_3 => rw [run]

theorem pad_zeros {width : ℕ} {n : ℤ} (nonneg : 0 ≤ n) : pad true width n =
    List.replicate (width-(digits n.natAbs).length) '0'++digits n.natAbs := by
  simp [pad,not_lt.mpr nonneg]

theorem isDigit_pad {width : ℕ} {n : ℤ} (nonneg : 0 ≤ n) : ∀ c ∈ pad true width n, isDigit c = true := by
  rw [pad_zeros nonneg]
  intro c mem
  rcases List.mem_append.mp mem with zero | digit
  · rw [List.eq_of_mem_replicate zero]
    rfl
  · exact isDigit_of_mem digit

theorem atoi_pad {width : ℕ} {n : ℤ} (nonneg : 0 ≤ n) (rest : List Char)
    (stops : ∀ c ∈ rest.head?, isDigit c = false) : atoi (pad true width n++rest) = n := by
  have ne : pad true width n ≠ [] := by
    rw [pad_zeros nonneg]
    simp [digits,Decimal.text_ne_nil]
  rw [atoi_digits (isDigit_pad nonneg) ne stops,pad_zeros nonneg,number_digits]
  omega

/-- A field of the stamp is read, and the next one begins behind the colon. -/
theorem numbers_pad {width : ℕ} {n : ℤ} (k : ℕ) (nonneg : 0 ≤ n) (rest : List Char) :
    numbers (k+1) (pad true width n ++ ':' :: rest) = n :: numbers k rest := by
  have skipped : (pad true width n ++ ':' :: rest).dropWhile (· ≠ ':') = ':' :: rest := by
    rw [List.dropWhile_append_of_pos]
    · simp
    · intro c mem
      have digit := isDigit_pad nonneg c mem
      simp only [ne_eq,decide_not,Bool.not_eq_eq_eq_not,Bool.not_true,decide_eq_false_iff_not]
      rintro rfl
      exact absurd digit (by decide)
  rw [numbers,skipped,atoi_pad nonneg _ (by simp [isDigit])]

theorem numbers_last {width : ℕ} {n : ℤ} (nonneg : 0 ≤ n) :
    numbers 1 (pad true width n) = [n] := by
  have read := @atoi_pad width n nonneg [] (by simp)
  rw [List.append_nil] at read
  rw [numbers,read]
  congr 1
  split <;> rfl

theorem rendered_num {depth width : ℕ} {c : Char} {n : ℤ} {rest w : List Char} (short : width ≤ 4)
    (act : action z tm c = .add [.num true width n]) (int : InInt n)
    (later : rendered z tm depth rest = some w) :
    rendered z tm depth ('%' :: c :: rest) = some (pad true width n++w) := by
  have := int.1
  have := int.2
  have fits : (pad true width n).length < 32 := pad_length short (by omega) (by omega)
  rw [rendered,act]
  simp [pieceTexts,Piece.text,fits,later]

theorem rendered_colon {depth : ℕ} {rest w : List Char}
    (later : rendered z tm depth rest = some w) :
    rendered z tm depth (':' :: rest) = some (':' :: w) := by
  rw [rendered.eq_3 _ _ _ _ _ (by simp)]
  simp [later]

theorem rendered_stamp (year : InInt (tm.tmYear+year0)) (mon : InInt (tm.tmMon+1))
    (mday : InInt tm.tmMday) (hour : InInt tm.tmHour) (min : InInt tm.tmMin) (sec : InInt tm.tmSec) :
    rendered z tm 1 stamp = some (pad true 4 (tm.tmYear+year0) ++ ':' :: (pad true 2 (tm.tmMon+1)++
      ':' :: (pad true 2 tm.tmMday ++ ':' :: (pad true 2 tm.tmHour ++ ':' :: (pad true 2 tm.tmMin++
        ':' :: (pad true 2 tm.tmSec++[])))))) := by
  have text : stamp = ['%','Y',':','%','m',':','%','d',':','%','H',':','%','M',':','%','S'] := rfl
  have short : 2 ≤ 4 := by decide
  rw [text]
  refine rendered_num le_rfl rfl year (rendered_colon (rendered_num short rfl mon (rendered_colon ?_)))
  refine rendered_num short rfl mday (rendered_colon (rendered_num short rfl hour (rendered_colon ?_)))
  refine rendered_num short rfl min (rendered_colon (rendered_num short rfl sec ?_))
  rw [rendered]

theorem pad_length_eq {k : ℕ} {n : ℤ} (nonneg : 0 ≤ n) (lt : n < 10^(k+1)) :
    (pad true (k+1) n).length = k+1 := by
  have : n.natAbs < 10^(k+1) := by
    zify
    rwa [abs_of_nonneg nonneg]
  have := digits_length this
  rw [pad_zeros nonneg,List.length_append,List.length_replicate]
  omega

/-- What the normal form says about the years that a time_t can hold. -/
theorem Normal.year_range (h : tm.Normal) (nonneg : 0 ≤ tm.epoch) (le : tm.epoch ≤ timeMax) :
    1970 ≤ tm.tmYear+year0 ∧ tm.tmYear+year0 ≤ 2038 := by
  have epoch := h.epoch_eq
  have low := h.secondsOf_nonneg
  have high := h.secondsOf_lt
  have january : civil epochYr 0 0 = 719528 := rfl
  have days := h.date.civil_lt
  have begins := h.date.year_le
  have max : timeMax = 2147483647 := rfl
  rw [dayno,january] at epoch
  constructor
  · by_contra early
    have := yearStart_mono (show tm.tmYear+year0+1 ≤ 1970 by omega)
    have first : yearStart 1970 = 719528 := rfl
    omega
  · by_contra late
    have := yearStart_mono (show 2039 ≤ tm.tmYear+year0 by omega)
    have last : yearStart 2039 = 744730 := rfl
    omega

/-- The stamp of a local time has nineteen characters, and str2time reads the time from them. -/
theorem str2time_strftime {timer : ℤ} (bias : 0 ≤ z.dstbias) (nonneg : 0 ≤ timer)
    (le : timer ≤ timeMax) (zone_nonneg : 0 ≤ timer-z.timezone) (zone_le : timer-z.timezone ≤ timeMax)
    (s : ℕ → Char) {maxsize : ℕ} (room : 20 ≤ maxsize) : ∃ tm r, localtimeR z timer = some tm ∧
      strftime z s maxsize (some stamp) tm = some (r,19) ∧ r 19 = nul ∧
      str2time z (some ((List.range 19).map r)) = some timer := by
  have max : timeMax = 2147483647 := rfl
  obtain ⟨tm,eq,normal,derived,isdst,epoch⟩ := localtimeR_spec z timer zone_nonneg (by omega)
  obtain ⟨early,late⟩ := normal.year_range (by omega) (by omega)
  have date := normal.date.month_lt
  have day_nonneg := normal.date.day_nonneg
  have day_lt := normal.date.day_lt
  have short := lengthOf_le (tm.tmYear+year0) tm.tmMon.toNat
  obtain ⟨_,mon,hour,hour_lt,min,min_lt,sec,sec_lt⟩ := normal
  have renders := @rendered_stamp z tm ⟨by omega,by omega⟩ ⟨by omega,by omega⟩
    ⟨by omega,by omega⟩ ⟨by omega,by omega⟩ ⟨by omega,by omega⟩ ⟨by omega,by omega⟩
  obtain ⟨⟨r,n⟩,written,_,fits,_⟩ :=
    @strftime_rendered s z tm maxsize (some stamp) _ renders
  generalize text_eq : pad true 4 (tm.tmYear+year0)++_ = w at renders fits
  have length : w.length = 19 := by
    rw [← text_eq]
    simp only [List.length_append,List.length_cons,List.length_nil,
      pad_length_eq (k := 3) (show 0 ≤ tm.tmYear+year0 by omega) (by norm_num; omega),
      pad_length_eq (k := 1) (show 0 ≤ tm.tmMon+1 by omega) (by norm_num; omega),
      pad_length_eq (k := 1) (show 0 ≤ tm.tmMday by omega) (by norm_num; omega),
      pad_length_eq (k := 1) hour (by norm_num; omega),
      pad_length_eq (k := 1) min (by norm_num; omega),
      pad_length_eq (k := 1) sec (by norm_num; omega)]
  obtain ⟨count,same,ended,_⟩ := fits (by omega)
  rw [length] at count same ended
  obtain rfl : n = 19 := count
  have text : (List.range 19).map r = w := by
    apply List.ext_getElem
    · simp [length]
    · intro j small _
      have := same j (by simpa using small)
      rw [List.getD_eq_getElem _ _ (by simpa [length] using small)] at this
      simpa using this
  refine ⟨tm,r,eq,written,ended,?_⟩
  have fields : numbers 6 w =
      [tm.tmYear+year0,tm.tmMon+1,tm.tmMday,tm.tmHour,tm.tmMin,tm.tmSec] := by
    rw [← text_eq,numbers_pad 5 (by omega),numbers_pad 4 (by omega),numbers_pad 3 (by omega),
      numbers_pad 2 hour,numbers_pad 1 min,List.append_nil,numbers_last sec]
  rw [text]
  obtain ⟨tm',time,made,_,_,_,represented,_⟩ :=
    mktime_spec z { tm with tmWday := 0, tmYday := 0, tmIsdst := 0 } bias
  have same_epoch : Tm.epoch { tm with tmWday := 0, tmYday := 0, tmIsdst := 0 } = tm.epoch := rfl
  have dst : z.dst { tm with tmWday := 0, tmYday := 0, tmIsdst := 0 } = 0 := if_neg (not_not.mpr rfl)
  obtain ⟨_,value⟩ := represented ⟨by omega,by omega,by omega,by omega,by omega⟩
  have base : year0 = 1900 := rfl
  simp [str2time,fields,base,made]
  omega

theorem str2time_strftime_billion : ∃ tm r, localtimeR ⟨10800,3600⟩ 1000000000 = some tm ∧
    strftime ⟨10800,3600⟩ (fun _ => nul) 32 (some stamp) tm = some (r,19) ∧ r 19 = nul ∧
    str2time ⟨10800,3600⟩ (some ((List.range 19).map r)) = some 1000000000 :=
  str2time_strftime (by decide) (by decide) (by decide) (by decide) (by decide) _ (by decide)

end Tm
end Brtos
