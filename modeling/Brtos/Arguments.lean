import Brtos.LineEditing

/-! The arguments that terminal_process takes out of a line. -/
namespace Brtos
open Words Terminal

variable {A D W L M R : List ℕ} {a n : ℕ}

/-- The line ends in one separator behind a word. -/
def endsInOne (L : List ℕ) : Bool :=
  match L.reverse with
  | b :: a :: _ => isDelim b && !isDelim a
  | _ => false

/-- strtok has put NULs in the place of separators, never two in a row, none at the start, and one at the
end exactly when the line ends in one separator. -/
structure Marked (L M : List ℕ) : Prop where
  same : List.Forall₂ (fun a b => a = b ∨ isDelim a = true ∧ b = 0) L M
  apart : M.IsChain fun a b => a ≠ 0 ∨ b ≠ 0
  first : ∀ b ∈ M.head?, b ≠ 0
  ends : M.getLast? = some 0 ↔ endsInOne L = true

theorem cString_append (A : List ℕ) (h : 0 ∉ W) (R : List ℕ) :
    cString (A++W++0 :: R) A.length = W := by
  have none : ∀ x ∈ W, decide (x ≠ 0) = true := fun x hx => by
    have : x ≠ 0 := fun e => h (e ▸ hx)
    simpa using this
  rw [cString,List.append_assoc,List.drop_left,List.takeWhile_append_of_pos none]
  simp

theorem getD_at {l : List ℕ} {i : ℕ} (A : List ℕ) (b : ℕ) (R : List ℕ) (h : l = A++b :: R)
    (hi : i = A.length) : l.getD i 0 = b := by
  subst h hi
  simp

theorem set_at {l : List ℕ} {i : ℕ} (A : List ℕ) (a b : ℕ) (R : List ℕ) (h : l = A++a :: R)
    (hi : i = A.length) : l.set i b = A++b :: R := by
  subst h hi
  simp

theorem strspn_append (A : List ℕ) (h : ∀ x ∈ D, isDelim x = true) (R : List ℕ)
    (stop : ∀ b ∈ R.head?, isDelim b = false) : strspn (A++(D++R)) A.length = D.length := by
  rw [strspn,List.drop_left,List.takeWhile_append_of_pos h]
  cases R with
  | nil => simp
  | cons b R => simp [stop b rfl]

theorem strcspn_append (A : List ℕ) (h : ∀ x ∈ W, isDelim x = false) (nul : 0 ∉ W) (R : List ℕ)
    (stop : ∀ b ∈ R.head?, b = 0 ∨ isDelim b = true) : strcspn (A++(W++R)) A.length = W.length := by
  have inside : ∀ x ∈ W, (decide (x ≠ 0) && !isDelim x) = true := fun x hx => by
    have : x ≠ 0 := fun e => nul (e ▸ hx)
    simp [this,h x hx]
  rw [strcspn,List.drop_left,List.takeWhile_append_of_pos inside]
  cases R with
  | nil => simp
  | cons b R =>
    rcases stop b rfl with rfl | hb
    · simp
    · simp [hb]

/-- No more tokens. -/
theorem strtok_none (A : List ℕ) (h : ∀ x ∈ D, isDelim x = true) (R : List ℕ) :
    strtok (A++(D++0 :: R)) A.length = ⟨none,A++(D++0 :: R),A.length+D.length,false⟩ := by
  have span := strspn_append A h (0 :: R) (by simp [isDelim])
  have nul : (A++(D++0 :: R)).getD (A.length+D.length) 0 = 0 :=
    getD_at (A++D) 0 R (by simp) (by simp)
  simp only [strtok,span,nul,if_true]
  simp

/-- The token that strtok finds behind separators. -/
theorem strtok_token (A : List ℕ) (hd : ∀ x ∈ D, isDelim x = true) (hw : ∀ x ∈ W, isDelim x = false)
    (nul : 0 ∉ W) (ne : W ≠ []) (ha : a = 0 ∨ isDelim a = true) (R : List ℕ) :
    strtok (A++(D++(W++a :: R))) A.length =
      if a = 0 then
        ⟨some (A.length+D.length),A++(D++(W++a :: R)),A.length+D.length+W.length,false⟩
      else ⟨some (A.length+D.length),A++(D++(W++0 :: R)),A.length+D.length+W.length+1,false⟩ := by
  obtain ⟨b,V,rfl⟩ := List.exists_cons_of_ne_nil ne
  have span := strspn_append A hd (b :: V++a :: R) (by simpa using hw b List.mem_cons_self)
  have run := strcspn_append (A++D) hw nul (a :: R) (by simpa using ha)
  rw [List.append_assoc,List.length_append] at run
  have first : (A++(D++(b :: V++a :: R))).getD (A.length+D.length) 0 = b :=
    getD_at (A++D) b (V++a :: R) (by simp) (by simp)
  have last : (A++(D++(b :: V++a :: R))).getD (A.length+D.length+(b :: V).length) 0 = a :=
    getD_at (A++D++b :: V) a R (by simp) (by simp; omega)
  have cut : (A++(D++(b :: V++a :: R))).set (A.length+D.length+(b :: V).length) 0 =
      A++(D++(b :: V++0 :: R)) := by
    rw [set_at (A++D++b :: V) a 0 R (by simp) (by simp; omega)]
    simp
  have shown : b ≠ 0 := fun e => nul (e ▸ List.mem_cons_self)
  have inside : ¬ (A++(D++(b :: V++a :: R))).length ≤ A.length+D.length+(b :: V).length := by
    simp only [List.length_append,List.length_cons]
    omega
  simp only [strtok,span,first,shown,if_false,run,last,cut,inside,decide_false]

theorem isDelim_ne_zero (h : isDelim a = true) : a ≠ 0 := by
  rintro rfl
  simp [isDelim] at h

theorem getLast?_ne_zero (h : 0 ∉ L) : L.getLast? ≠ some 0 := fun e => h (List.mem_of_mem_getLast? e)

theorem isChain_of_nul (h : 0 ∉ L) : L.IsChain fun a b => a ≠ 0 ∨ b ≠ 0 := by
  rw [List.isChain_iff_getElem]
  intro i hi
  left
  intro e
  exact h (e ▸ List.getElem_mem _)

/-- What stands before the last character matters only when it is no separator. -/
theorem endsInOne_append (seps : ∀ x ∈ A.getLast?, isDelim x = true) (ne : L ≠ []) :
    endsInOne (A++L) = endsInOne L := by
  induction L using List.reverseRecOn with
  | nil => contradiction
  | append_singleton L b _ =>
    induction L using List.reverseRecOn with
    | nil =>
      induction A using List.reverseRecOn with
      | nil => rfl
      | append_singleton A a _ =>
        have sep : isDelim a = true := seps a (by simp)
        simp [endsInOne,sep]
    | append_singleton L a _ => simp [endsInOne]

theorem endsInOne_separators (h : ∀ x ∈ D, isDelim x = true) : endsInOne D = false := by
  induction D using List.reverseRecOn with
  | nil => rfl
  | append_singleton D d _ =>
    rw [endsInOne_append (fun x hx => h x (List.mem_append_left _ (List.mem_of_mem_getLast? hx)))
      (List.cons_ne_nil _ _)]
    rfl

/-- The last character belongs to a word. -/
theorem endsInOne_word (A : List ℕ) (h : ∀ x ∈ W, isDelim x = false) (ne : W ≠ []) :
    endsInOne (A++W) = false := by
  induction W using List.reverseRecOn with
  | nil => contradiction
  | append_singleton W w _ =>
    have word : isDelim w = false := h w (by simp)
    simp only [endsInOne,List.reverse_append,List.reverse_singleton,List.cons_append]
    split
    · rename_i b a r e
      obtain ⟨rfl,-⟩ := List.cons.inj e
      simp [word]
    · rfl

/-- The separator behind the last word. -/
theorem endsInOne_behind (A : List ℕ) (h : ∀ x ∈ W, isDelim x = false) (ne : W ≠ [])
    (ha : isDelim a = true) : endsInOne (A++(W++[a])) = true := by
  induction W using List.reverseRecOn with
  | nil => contradiction
  | append_singleton W w _ =>
    have word : isDelim w = false := h w (by simp)
    simp [endsInOne,word,ha]

/-- strtok leaves a last word as it is, and a line without one. -/
theorem Marked.refl (h : 0 ∉ L) (ends : endsInOne L = false) : Marked L L where
  same := List.forall₂_same.mpr fun _ _ => .inl rfl
  apart := isChain_of_nul h
  first b hb := by
    rintro rfl
    exact h (List.mem_of_mem_head? hb)
  ends := by simp [getLast?_ne_zero h,ends]

/-- A token before what is left. -/
theorem Marked.cons (nd : 0 ∉ D) (nw : 0 ∉ W) (hw : ∀ x ∈ W, isDelim x = false) (ne : W ≠ [])
    (ha : isDelim a = true) (h : Marked L M) : Marked (D++(W++a :: L)) (D++(W++0 :: M)) where
  same := by
    refine List.rel_append (List.forall₂_same.mpr fun _ _ => .inl rfl) ?_
    refine List.rel_append (List.forall₂_same.mpr fun _ _ => .inl rfl) ?_
    exact .cons (.inr ⟨ha,rfl⟩) h.same
  apart := by
    have word : 0 ∉ D++W := by simp [nd,nw]
    rw [← List.append_assoc,List.isChain_append]
    refine ⟨isChain_of_nul word,?_,?_⟩
    · exact List.isChain_cons.mpr ⟨fun b hb => .inr (h.first b hb),h.apart⟩
    · intro b hb _ _
      left
      rintro rfl
      exact word (List.mem_of_mem_getLast? hb)
  first b hb := by
    obtain ⟨w,V,rfl⟩ := List.exists_cons_of_ne_nil ne
    rintro rfl
    cases D with
    | nil =>
      simp only [List.nil_append,List.cons_append,List.head?_cons,Option.mem_some_iff] at hb
      simp [hb] at nw
    | cons d D =>
      simp only [List.cons_append,List.head?_cons,Option.mem_some_iff] at hb
      simp [hb] at nd
  ends := by
    have split : ∀ (x : ℕ) l, D++(W++x :: l) = D++(W++[x])++l := by simp
    cases L with
    | nil =>
      obtain rfl : M = [] := List.forall₂_nil_left_iff.mp h.same
      simp [endsInOne_behind D hw ne ha,List.getLast?_append]
    | cons b L =>
      have more : M ≠ [] := by
        rintro rfl
        exact absurd h.same (by simp)
      have seps : ∀ x ∈ (D++(W++[a])).getLast?, isDelim x = true := by simpa [List.getLast?_append] using ha
      rw [split 0 M,split a (b :: L),List.getLast?_append_of_ne_nil _ more,
        endsInOne_append seps (List.cons_ne_nil _ _)]
      exact h.ends

theorem Marked.prepend (nd : 0 ∉ D) (hd : ∀ x ∈ D, isDelim x = true) (h : Marked L M) :
    Marked (D++L) (D++M) where
  same := List.rel_append (List.forall₂_same.mpr fun _ _ => .inl rfl) h.same
  apart := by
    rw [List.isChain_append]
    refine ⟨isChain_of_nul nd,h.apart,fun b hb _ _ => .inl ?_⟩
    rintro rfl
    exact nd (List.mem_of_mem_getLast? hb)
  first b hb := by
    cases D with
    | nil => exact h.first b hb
    | cons d D =>
      simp only [List.cons_append,List.head?_cons,Option.mem_some_iff] at hb
      rintro rfl
      simp [hb] at nd
  ends := by
    cases L with
    | nil =>
      obtain rfl : M = [] := List.forall₂_nil_left_iff.mp h.same
      simp [getLast?_ne_zero nd,endsInOne_separators hd]
    | cons b L =>
      have more : M ≠ [] := by
        rintro rfl
        exact absurd h.same (by simp)
      rw [List.getLast?_append_of_ne_nil _ more,
        endsInOne_append (fun x hx => hd x (List.mem_of_mem_getLast? hx)) (List.cons_ne_nil _ _)]
      exact h.ends

theorem Marked.length_eq (h : Marked L M) : M.length = L.length := h.same.length_eq.symm

theorem Marked.nil (h : Marked [] M) : M = [] := List.forall₂_nil_left_iff.mp h.same

/-- The loop takes out the words of the string, and marks their ends. -/
theorem splitArgs_spec (A : List ℕ) (nul : 0 ∉ L) (fuel : L.length < n) (R : List ℕ) :
    ∃ argv M, splitArgs n (A++(L++0 :: R)) A.length = (argv,A++(M++0 :: R),false) ∧ Marked L M ∧
      argv.map (cString (A++(M++0 :: R))) = words isDelim L := by
  induction n generalizing A L with
  | zero => omega
  | succ n ih =>
    rcases first_word isDelim L with none | ⟨D,W,hd,hw,ne,rfl | ⟨a,r,ha,rfl⟩⟩
    · exact ⟨[],L,by simp [splitArgs,strtok_none A none],.refl nul (endsInOne_separators none),by simp [words_eq_nil none]⟩
    · have nw : 0 ∉ W := fun h => nul (List.mem_append_right _ h)
      have token := strtok_token A hd hw nw ne (.inl rfl) R
      have pos := List.length_pos_iff.mpr ne
      simp only [List.length_append] at fuel
      obtain ⟨argv,M,rest,marked,args⟩ := ih (L := []) (A++D++W) (by simp) (by simp; omega)
      obtain rfl := marked.nil
      simp only [List.append_assoc,List.nil_append,List.length_append] at rest args token
      refine ⟨(A.length+D.length) :: argv,D++W,?_,.refl nul (endsInOne_word D hw ne),?_⟩
      · simp only [splitArgs,List.append_assoc,token,if_true]
        rw [Nat.add_assoc,rest]
        rfl
      · have word := cString_append (A++D) nw R
        simp only [List.append_assoc,List.length_append] at word
        simp only [List.append_assoc,List.map_cons,word,args,words_separators hd,words_run hw ne,
          words_nil]
    · have nw : 0 ∉ W := fun h => nul (by simp [h])
      have nd : 0 ∉ D := fun h => nul (by simp [h])
      have nr : 0 ∉ r := fun h => nul (by simp [h])
      have token := strtok_token A hd hw nw ne (.inr ha) (r++0 :: R)
      simp only [List.length_append,List.length_cons] at fuel
      obtain ⟨argv,M,rest,marked,args⟩ := ih (A++D++W++[0]) nr (by omega)
      simp only [List.append_assoc,List.singleton_append,List.length_append,List.length_singleton] at rest args
      refine ⟨(A.length+D.length) :: argv,D++(W++0 :: M),?_,marked.cons nd nw hw ne ha,?_⟩
      · have save : A.length+D.length+W.length+1 = A.length+(D.length+(W.length+1)) := by omega
        simp only [splitArgs,List.append_assoc,List.cons_append,token,isDelim_ne_zero ha,if_false,save,
          rest]
        rfl
      · have word := cString_append (A++D) nw (M++0 :: R)
        simp only [List.append_assoc,List.length_append] at word
        simp only [List.append_assoc,List.cons_append,List.map_cons,word,args,words_separators hd,
          words_run_append hw ne r ha]

/-- The string in term_in after the separators at its start have been skipped. -/
theorem split_spec {buf : List ℕ} (line : buf = L++0 :: R) (nul : 0 ∉ L)
    (size : buf.length = termInputBufsize) :
    ∃ argv M, splitArgs (termInputBufsize+1) buf
        (buf.takeWhile fun c => c == 32 || c == 9).length = (argv,M++0 :: R,false) ∧
      Marked L M ∧ argv.map (cString (M++0 :: R)) = words isDelim L ∧
      (buf.takeWhile fun c => c == 32 || c == 9).length ≤ L.length := by
  have split := List.takeWhile_append_dropWhile (p := fun c => c == 32 || c == 9) (l := L)
  have blanks : buf.takeWhile (fun c => c == 32 || c == 9) =
      L.takeWhile fun c => c == 32 || c == 9 := by
    rw [line,List.takeWhile_append]
    split_ifs with whole
    · simpa using ((List.takeWhile_prefix _).eq_of_length whole).symm
    · rfl
  have seps : ∀ x ∈ L.takeWhile (fun c => c == 32 || c == 9), isDelim x = true := fun x hx => by
    have := List.mem_takeWhile_imp hx
    simp only [Bool.or_eq_true,beq_iff_eq] at this
    rcases this with rfl | rfl <;> rfl
  generalize (L.takeWhile fun c => c == 32 || c == 9) = D at *
  generalize (L.dropWhile fun c => c == 32 || c == 9) = K at *
  subst split
  have length := congrArg List.length line
  simp only [List.length_append,List.length_cons,size] at length
  obtain ⟨argv,M,loop,marked,args⟩ := splitArgs_spec (n := termInputBufsize+1) D
    (fun h => nul (List.mem_append_right _ h)) (by omega) R
  refine ⟨argv,D++M,?_,marked.prepend (fun h => nul (List.mem_append_left _ h)) seps,?_,?_⟩
  · rw [blanks,line,List.append_assoc,loop,List.append_assoc]
  · rw [words_separators seps,← args,List.append_assoc]
  · rw [blanks,List.length_append]
    omega

/-! ### The copy of the line -/

/-- What copying makes of a character of the line. -/
def blank (c : ℕ) : ℕ := if c = 0 then 0x20 else c

namespace Terminal
variable {t : Terminal} {e : ℕ}

/-- The loop stops at the first two NULs in a row. -/
theorem copyLoop_spec (size : t.lastTermIn.length = termInputBufsize) (end_le : e+1 < termInputBufsize)
    (first : t.termIn.getD e 0 = 0) (second : t.termIn.getD (e+1) 0 = 0) (start : t.cpi ≤ e)
    (fuel : e-t.cpi < n) :
    ∃ k l, copyLoop n t = { t with cpi := k, lastTermIn := l } ∧ t.cpi ≤ k ∧ k ≤ e ∧
      t.termIn.getD k 0 = 0 ∧ t.termIn.getD (k+1) 0 = 0 ∧
      (∀ j, t.cpi ≤ j → j < k → t.termIn.getD j 0 ≠ 0 ∨ t.termIn.getD (j+1) 0 ≠ 0) ∧
      l.length = termInputBufsize ∧
      ∀ j, l.getD j 0 = if t.cpi ≤ j ∧ j < k then blank (t.termIn.getD j 0) else t.lastTermIn.getD j 0 := by
  induction n generalizing t with
  | zero => omega
  | succ n ih =>
    have inside : ∀ i, i < termInputBufsize → t.touch i = t := fun i hi => by
      simp [touch,Nat.not_le.mpr hi]
    have here : t.cpi < termInputBufsize := by omega
    by_cases stops : t.termIn.getD t.cpi 0 = 0 ∧ t.termIn.getD (t.cpi+1) 0 = 0
    · refine ⟨t.cpi,t.lastTermIn,?_,le_rfl,start,stops.1,stops.2,by omega,size,fun j => ?_⟩
      · simp only [copyLoop,stops.1,stops.2,if_true,inside (t.cpi+1) (by omega)]
        simp
      · rw [if_neg (by omega)]
    · have before : t.cpi ≠ e := by
        rintro rfl
        exact stops ⟨first,second⟩
      have goes : t.termIn.getD t.cpi 0 ≠ 0 ∨ t.termIn.getD (t.cpi+1) 0 ≠ 0 := by
        by_contra both
        simp only [not_or,not_not] at both
        exact stops both
      have next : copyLoop (n+1) t = copyLoop n
          { t with
            lastTermIn := t.lastTermIn.set t.cpi (blank (t.termIn.getD t.cpi 0))
            cpi := t.cpi+1 } := by
        simp only [copyLoop,inside (t.cpi+1) (by omega),ite_self,if_pos goes]
        simp only [inside t.cpi here,blank]
      obtain ⟨k,l,run,after,le,nul,nul',goes_on,length,copied⟩ := ih
        (t := { t with
          lastTermIn := t.lastTermIn.set t.cpi (blank (t.termIn.getD t.cpi 0))
          cpi := t.cpi+1 }) (by simpa using size) first second (by simp only; omega) (by simp only; omega)
      simp only at after copied goes_on run
      refine ⟨k,l,by rw [next,run],by omega,le,nul,nul',fun j low high => ?_,length,fun j => ?_⟩
      · rcases Nat.eq_or_lt_of_le low with rfl | later
        · exact goes
        · exact goes_on j later high
      · rw [copied]
        rcases Nat.lt_trichotomy j t.cpi with earlier | rfl | later
        · rw [if_neg (by omega),if_neg (by omega)]
          simp [List.getD_eq_getElem?_getD,List.getElem?_set_ne (Nat.ne_of_gt earlier)]
        · rw [if_neg (by omega),if_pos ⟨le_rfl,by omega⟩]
          simp [List.getD_eq_getElem?_getD,size,here]
        · by_cases high : j < k
          · rw [if_pos ⟨later,high⟩,if_pos ⟨by omega,high⟩]
          · rw [if_neg (by omega),if_neg (by omega)]
            simp [List.getD_eq_getElem?_getD,List.getElem?_set_ne (Nat.ne_of_lt later)]

/-! ### The buffers -/

/-- The accesses so far were inside, and the next ones will be: term_in ends with two NULs, and the copy
of the last line with one. -/
structure Contained (t : Terminal) : Prop where
  size : t.termIn.length = termInputBufsize
  lastSize : t.lastTermIn.length = termInputBufsize
  cpi : t.cpi+2 ≤ termInputBufsize
  last : t.lastTermIn.getD t.cpi 0 = 0
  first : t.termIn.getD (termInputBufsize-2) 0 = 0
  second : t.termIn.getD (termInputBufsize-1) 0 = 0
  inside : t.outside = false

theorem getD_set {l : List ℕ} {i j x : ℕ} (h : i < l.length) :
    (l.set i x).getD j 0 = if j = i then x else l.getD j 0 := by
  split_ifs with e
  · subst e
    simp [List.getD_eq_getElem?_getD,h]
  · simp [List.getD_eq_getElem?_getD,List.getElem?_set_ne (Ne.symm e)]

/-- A store within the buffer that keeps the NULs at its end. -/
theorem Contained.store (h : t.Contained) {i x : ℕ} (hi : i < termInputBufsize)
    (keeps : termInputBufsize-2 ≤ i → x = 0) : (t.store i x).Contained where
  size := by simpa [Terminal.store] using h.size
  lastSize := h.lastSize
  cpi := h.cpi
  last := h.last
  first := by
    simp only [Terminal.store,getD_set (h.size ▸ hi),h.first]
    split_ifs with e
    · exact keeps e.le
    · rfl
  second := by
    simp only [Terminal.store,getD_set (h.size ▸ hi),h.second]
    split_ifs with e
    · exact keeps (by omega)
    · rfl
  inside := by simp [Terminal.store,touch,h.inside,hi]

theorem upKeyLoop_spec (size : t.termIn.length = termInputBufsize)
    (fits : t.termInIdx+n ≤ termInputBufsize) :
    ∃ l, upKeyLoop n t =
        { t with termInIdx := t.termInIdx+n, termTmpIdx := t.termTmpIdx+n, termIn := l } ∧
      l.length = termInputBufsize ∧
      ∀ j, l.getD j 0 =
        if t.termInIdx ≤ j ∧ j < t.termInIdx+n then t.lastTermIn.getD j 0 else t.termIn.getD j 0 := by
  induction n generalizing t with
  | zero => exact ⟨t.termIn,by simp [upKeyLoop],size,fun j => by rw [if_neg (by omega)]⟩
  | succ n ih =>
    have here : t.termInIdx < termInputBufsize := by omega
    obtain ⟨l,run,length,copied⟩ := ih
      (t := { t.store t.termInIdx (t.lastTermIn.getD t.termInIdx 0) with
        termInIdx := t.termInIdx+1
        termTmpIdx := t.termTmpIdx+1 }) (by simpa [Terminal.store] using size) (by simp only; omega)
    refine ⟨l,?_,length,fun j => ?_⟩
    · have next : upKeyLoop (n+1) t = upKeyLoop n
          { t.store t.termInIdx (t.lastTermIn.getD t.termInIdx 0) with
            termInIdx := t.termInIdx+1
            termTmpIdx := t.termTmpIdx+1 } := rfl
      rw [next,run]
      simp only [Terminal.store,touch,mk.injEq,true_and]
      refine ⟨by omega,by push_cast; omega,by simp [here]⟩
    · rw [copied]
      simp only [Terminal.store,getD_set (size ▸ here),touch]
      grind

/-- The UP key puts the copy of the last line into term_in. -/
theorem upKey_spec (h : t.Contained) (used : t.lastTermIn.getD 0 0 ≠ 0) :
    ∃ l, t.upKey = { t with termInIdx := t.cpi, termTmpIdx := t.cpi, termIn := l } ∧
      l.length = termInputBufsize ∧
      ∀ j, l.getD j 0 =
        if j ≤ t.cpi then t.lastTermIn.getD j 0 else if j = t.cpi+1 then 0 else t.termIn.getD j 0 := by
  have cpi := h.cpi
  obtain ⟨l,run,length,copied⟩ := upKeyLoop_spec (n := t.cpi+1)
    (t := { t with termInIdx := 0, termTmpIdx := 0 }) h.size (by simp only; omega)
  simp only [Nat.zero_add] at run copied
  refine ⟨l.set (t.cpi+1) 0,?_,by simpa using length,fun j => ?_⟩
  · have here : t.cpi+1 < termInputBufsize := by omega
    simp only [upKey]
    rw [if_pos used,run]
    simp [Terminal.store,touch,here]
  · rw [getD_set (length ▸ (by omega)),copied]
    grind

theorem Contained.upKey (h : t.Contained) : t.upKey.Contained := by
  by_cases used : t.lastTermIn.getD 0 0 = 0
  · have same : t.upKey = { t with termInIdx := 0 } := by
      simp only [Terminal.upKey]
      rw [if_neg (by simpa using used)]
    rw [same]
    exact ⟨h.size,h.lastSize,h.cpi,h.last,h.first,h.second,h.inside⟩
  · have cpi := h.cpi
    have last := h.last
    obtain ⟨l,run,length,copied⟩ := upKey_spec h used
    rw [run]
    refine ⟨length,h.lastSize,h.cpi,h.last,?_,?_,h.inside⟩
    · have := h.first
      simp only [copied]
      grind
    · have := h.second
      simp only [copied]
      grind

/-- terminal_input may be called. -/
structure Waiting (t : Terminal) : Prop where
  contained : t.Contained
  idx : t.termInIdx+2 ≤ termInputBufsize

/-- terminal_input has been called. -/
structure Entered (r : Terminal × ℕ) : Prop where
  contained : r.1.Contained
  returns : r.2 = 0 ∨ r.2 = 1
  idx : r.1.termInIdx < termInputBufsize
  waits : r.2 = 0 → r.1.Waiting

theorem Entered.of_waiting (h : t.Waiting) : Entered (t,0) where
  contained := h.contained
  returns := .inl rfl
  idx := by have := h.idx; simp only; omega
  waits _ := h

theorem Contained.set_idx (h : t.Contained) (i : ℕ) : Contained { t with termInIdx := i } :=
  ⟨h.size,h.lastSize,h.cpi,h.last,h.first,h.second,h.inside⟩

theorem Waiting.upKey (h : t.Waiting) : t.upKey.Waiting where
  contained := h.contained.upKey
  idx := by
    by_cases used : t.lastTermIn.getD 0 0 = 0
    · simp only [Terminal.upKey]
      rw [if_neg (by simpa using used)]
      exact (by decide : 0+2 ≤ termInputBufsize)
    · obtain ⟨l,run,_⟩ := upKey_spec h.contained used
      rw [run]
      exact h.contained.cpi

theorem store_again (t : Terminal) (i j x y : ℕ) :
    store { t.store i x with termInIdx := j } i y = { t.store i y with termInIdx := j } := by
  simp [store,touch]

theorem Waiting.edit (h : t.Waiting) (c : ℕ) : Entered (t.edit c) := by
  have here := h.idx
  have cleared := h.contained.store (i := t.termInIdx) (by omega) (fun _ => rfl)
  simp only [Terminal.edit]
  split_ifs with counted del up ends
  · refine .of_waiting ⟨cleared.set_idx _,?_⟩
    simp only [Terminal.store,touch]
    omega
  · exact .of_waiting h.upKey
  · -- the NUL that ends the line goes where the character went
    have idx : ({ t.store t.termInIdx c with termInIdx := t.termInIdx+1 } : Terminal).termInIdx-1 =
        t.termInIdx := rfl
    refine ⟨?_,.inr rfl,?_,by simp⟩
    · change Contained (Terminal.store { t.store t.termInIdx c with termInIdx := t.termInIdx+1 } t.termInIdx 0)
      rw [store_again]
      exact cleared.set_idx _
    · simp only [Terminal.store,touch]
      omega
  · simp only [not_or] at ends
    have before : t.termInIdx+1 ≠ termInputBufsize-1 := ends.2.2
    refine .of_waiting ⟨(h.contained.store (by omega) fun late => by omega).set_idx _,?_⟩
    simp only [Terminal.store,touch]
    omega
  · exact .of_waiting h

theorem Waiting.key (h : t.Waiting) (c : ℕ) : (t.key c).1.Waiting := by
  have inside := h.contained
  have idx := h.idx
  simp only [Terminal.key,count]
  split_ifs <;>
    exact ⟨⟨inside.size,inside.lastSize,inside.cpi,inside.last,inside.first,inside.second,inside.inside⟩,idx⟩

theorem Waiting.terminalInput (h : t.Waiting) (c : ℕ) : Entered (t.terminalInput c) := by
  have key := h.key c
  simp only [Terminal.terminalInput]
  split
  · rename_i u typed
    rw [typed] at key
    exact .of_waiting key
  · rename_i u c' typed
    rw [typed] at key
    exact key.edit c'

/-! ### terminal_process -/

/-- The line in term_in. -/
def lineIn (t : Terminal) : List ℕ := cString t.termIn 0

theorem Contained.split (h : t.Contained) :
    ∃ R, t.termIn = t.lineIn++0 :: R ∧ 0 ∉ t.lineIn ∧ t.lineIn.length+2 ≤ termInputBufsize := by
  have whole := List.takeWhile_append_dropWhile (p := fun c => decide (c ≠ 0)) (l := t.termIn)
  have nul : 0 ∉ t.lineIn := fun h => by simpa using List.mem_takeWhile_imp h
  have line : t.lineIn = t.termIn.takeWhile fun c => decide (c ≠ 0) := by simp [lineIn,cString]
  rw [← line] at whole
  have short : t.lineIn.length+2 ≤ termInputBufsize := by
    by_contra long
    have two : 2 ≤ termInputBufsize := by decide
    have first := h.first
    have inside : termInputBufsize-2 < t.lineIn.length := by omega
    rw [← whole,List.getD_eq_getElem?_getD,List.getElem?_append_left inside] at first
    rw [List.getElem?_eq_getElem inside] at first
    exact nul (first ▸ List.getElem_mem inside)
  cases rest : t.termIn.dropWhile fun c => decide (c ≠ 0) with
  | nil =>
    rw [rest,List.append_nil] at whole
    have size := h.size
    rw [← whole] at size
    omega
  | cons b R =>
    have zero : b = 0 := by
      have := List.head_dropWhile_not (fun c => decide (c ≠ 0)) (l := t.termIn)
        (by rw [rest]; exact List.cons_ne_nil _ _)
      simp only [rest,List.head_cons] at this
      simpa using this
    rw [rest,zero] at whole
    exact ⟨R,whole.symm,nul,short⟩

/-- What terminal_process makes of the line. -/
theorem process_spec (h : t.Contained) :
    ∃ argv M R, t.termIn = t.lineIn++0 :: R ∧ 0 ∉ t.lineIn ∧ Marked t.lineIn M ∧
      argv.map (cString (M++0 :: R)) = words isDelim t.lineIn ∧
      Contained { t with termIn := M++0 :: R } ∧
      t.terminalProcess =
        ({ if argv = [] then { t with termIn := M++0 :: R } else copyLast { t with termIn := M++0 :: R } with
            termIn := List.replicate termInputBufsize 0, termInIdx := 0 },
          if argv = [] then none else some ⟨argv.length%256,argv,M++0 :: R⟩) := by
  obtain ⟨R,line,nul,short⟩ := h.split
  obtain ⟨argv,M,loop,marked,args,skip⟩ := split_spec line nul h.size
  have length := marked.length_eq
  have behind : ∀ j, t.lineIn.length ≤ j → (M++0 :: R).getD j 0 = t.termIn.getD j 0 := fun j hj => by
    simp only [line,List.getD_eq_getElem?_getD]
    rw [List.getElem?_append_right (length ▸ hj),List.getElem?_append_right hj,length]
  refine ⟨argv,M,R,line,nul,marked,args,⟨?_,h.lastSize,h.cpi,h.last,?_,?_,h.inside⟩,?_⟩
  · have size := h.size
    rw [line] at size
    simpa [length] using size
  · simp only
    rw [behind _ (by omega),h.first]
  · simp only
    rw [behind _ (by omega),h.second]
  · have inside : ¬ termInputBufsize ≤ (t.termIn.takeWhile fun c => c == 32 || c == 9).length := by
      omega
    simp only [terminalProcess,loop,touch,inside,decide_false,Bool.or_false]

theorem copyLast_spec (h : t.Contained) :
    ∃ k l, t.copyLast = { t with cpi := k, lastTermIn := l } ∧ k+2 ≤ termInputBufsize ∧
      t.termIn.getD k 0 = 0 ∧ t.termIn.getD (k+1) 0 = 0 ∧
      (∀ j < k, t.termIn.getD j 0 ≠ 0 ∨ t.termIn.getD (j+1) 0 ≠ 0) ∧
      l.length = termInputBufsize ∧ l.getD k 0 = 0 ∧
      ∀ j < k, l.getD j 0 = blank (t.termIn.getD j 0) := by
  have two : 2 ≤ termInputBufsize := by decide
  obtain ⟨k,l,run,_,le,first,second,before,length,copied⟩ :=
    copyLoop_spec (n := termInputBufsize+1) (e := termInputBufsize-2) (t := { t with cpi := 0 })
      h.lastSize (by omega) h.first (by simpa [← Nat.sub_add_comm two] using h.second) (Nat.zero_le _)
      (by omega)
  have here : k < termInputBufsize := by omega
  refine ⟨k,l.set k 0,?_,by omega,first,second,fun j => before j (Nat.zero_le j),by simpa using length,
    ?_,fun j hj => ?_⟩
  · simp [copyLast,run,touch,here]
  · rw [getD_set (length ▸ here),if_pos rfl]
  · rw [getD_set (length ▸ here),if_neg hj.ne,copied,if_pos ⟨Nat.zero_le j,hj⟩]

theorem Contained.terminalProcess (h : t.Contained) : t.terminalProcess.1.Waiting := by
  have zeros : ∀ i, (List.replicate termInputBufsize 0).getD i 0 = 0 := fun i => by
    simp [List.getD_eq_getElem?_getD,List.getElem?_replicate]
    split_ifs <;> rfl
  obtain ⟨argv,M,R,_,_,_,_,marked,run⟩ := process_spec h
  rw [run]
  refine ⟨?_,(by decide : 0+2 ≤ termInputBufsize)⟩
  split_ifs
  · exact ⟨by simp,h.lastSize,h.cpi,h.last,zeros _,zeros _,h.inside⟩
  · obtain ⟨k,l,copy,le,_,_,_,length,last,_⟩ := copyLast_spec marked
    rw [copy]
    exact ⟨by simp,length,le,last,zeros _,zeros _,h.inside⟩

theorem waiting_start : start.Waiting where
  contained := ⟨rfl,rfl,by decide,rfl,rfl,rfl,rfl⟩
  idx := by decide

/-! ### Runs -/

/-- What terminal_process does with a line: it stores at most TERM_ARGS_MAX_COUNT entries, and the command
gets the words of the line. -/
structure Splits (t : Terminal) : Prop where
  called : t.terminalProcess.2 = none ↔ words isDelim t.lineIn = []
  stored : ∀ r, t.terminalProcess.2 = some r → r.argv.length ≤ termArgsMaxCount
  counted : ∀ r, t.terminalProcess.2 = some r → r.argc = r.argv.length
  exactly : ∀ r, t.terminalProcess.2 = some r → r.args = words isDelim t.lineIn

theorem Contained.splits (h : t.Contained) :
    t.Splits ↔ (words isDelim t.lineIn).length ≤ termArgsMaxCount := by
  obtain ⟨argv,M,R,line,nul,marked,args,_,run⟩ := process_spec h
  obtain ⟨_,_,_,short⟩ := h.split
  have length : argv.length = (words isDelim t.lineIn).length := by rw [← args,List.length_map]
  have empty : argv = [] ↔ words isDelim t.lineIn = [] := by
    rw [← List.length_eq_zero_iff,length,List.length_eq_zero_iff]
  have byte : argv.length%256 = argv.length := by
    have := length_words_le isDelim t.lineIn
    have size : termInputBufsize = 32 := rfl
    exact Nat.mod_eq_of_lt (by omega)
  by_cases none : argv = []
  · have command : t.terminalProcess.2 = Option.none := (congrArg Prod.snd run).trans (if_pos none)
    have few : (words isDelim t.lineIn).length ≤ termArgsMaxCount := by simp [empty.mp none]
    exact iff_of_true ⟨by simp [command,empty.mp none],by simp [command],by simp [command],by simp [command]⟩
      few
  · have command : t.terminalProcess.2 = some ⟨argv.length%256,argv,M++0 :: R⟩ :=
      (congrArg Prod.snd run).trans (if_neg none)
    constructor
    · intro splits
      exact length ▸ splits.stored _ command
    · intro few
      refine ⟨by simp [command,← empty,none],?_,?_,?_⟩
      · rintro r hr
        obtain rfl := Option.some.inj (command.symm.trans hr)
        exact length ▸ few
      · rintro r hr
        obtain rfl := Option.some.inj (command.symm.trans hr)
        exact byte
      · rintro r hr
        obtain rfl := Option.some.inj (command.symm.trans hr)
        exact args

end Terminal

namespace Typing
variable {s t : Typing} {c : ℕ}

theorem prompt_waiting (h : Terminal.Entered (s.terminal,s.returned)) : s.prompt.Waiting := by
  simp only [prompt]
  split_ifs with done
  · exact h.contained.terminalProcess
  · exact h.waits (h.returns.resolve_right done)

theorem entered_step (h : Terminal.Entered (s.terminal,s.returned)) (next : s.step c = some t) :
    Terminal.Entered (t.terminal,t.returned) := by
  obtain rfl := Option.some.inj next
  exact (prompt_waiting h).terminalInput c

theorem entered_of_reaches {ok : Typing → ℕ → Prop} (h : Run.Reach step ok start s) :
    Terminal.Entered (s.terminal,s.returned) :=
  h.invariant (P := fun s => Terminal.Entered (s.terminal,s.returned))
    (.of_waiting Terminal.waiting_start) fun _ _ _ entered _ next => entered_step entered next

/-- terminal_process splits a line that terminal_input has left in term_in as it should exactly when the
line has at most TERM_ARGS_MAX_COUNT words. -/
theorem splits_iff (h : Run.Reach step (fun _ _ => True) start s) :
    s.terminal.Splits ↔ (words isDelim s.terminal.lineIn).length ≤ termArgsMaxCount :=
  (entered_of_reaches h).contained.splits

theorem splits_example : ∃ s, Run.Reach step (fun _ _ => True) start s ∧ s.returned = 1 ∧
    s.terminal.lineIn = [97,32,98] ∧ s.terminal.Splits := by
  obtain ⟨s,reach,returned,line,few⟩ := Run.exists_reach_of_exec step (fun _ _ => True) start
    [97,32,98,13] (fun s => s.returned = 1 ∧ s.terminal.lineIn = [97,32,98] ∧
      (words isDelim s.terminal.lineIn).length ≤ termArgsMaxCount) (by decide)
  exact ⟨s,reach,returned,line,(splits_iff reach).mpr few⟩

/-- Seven words of one letter. -/
theorem splits_fails : ∃ s, Run.Reach step (fun _ _ => True) start s ∧ s.returned = 1 ∧
    ¬ s.terminal.Splits := by
  obtain ⟨s,reach,returned,many⟩ := Run.exists_reach_of_exec step (fun _ _ => True) start
    [97,32,98,32,99,32,100,32,101,32,102,32,103,13]
    (fun s => s.returned = 1 ∧ ¬ (words isDelim s.terminal.lineIn).length ≤ termArgsMaxCount) (by decide)
  exact ⟨s,reach,returned,fun splits =>
    many ((entered_of_reaches reach).contained.splits.mp splits)⟩

end Typing
end Brtos
