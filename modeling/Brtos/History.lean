import Brtos.Arguments

/-! The UP key brings the last command back. -/
namespace Brtos
open Words Terminal

variable {B L M R : List ℕ} {c k : ℕ}

/-- The characters in front of the first two NULs in a row. -/
def untilNuls : List ℕ → List ℕ
  | [] => []
  | a :: l => if a = 0 ∧ l.head? = some 0 then [] else a :: untilNuls l

theorem untilNuls_eq_take (apart : ∀ j < k, B.getD j 0 ≠ 0 ∨ B.getD (j+1) 0 ≠ 0) (first : B.getD k 0 = 0)
    (second : B.getD (k+1) 0 = 0) (inside : k+1 < B.length) : untilNuls B = B.take k := by
  induction B generalizing k with
  | nil => simp at inside
  | cons a l ih =>
    obtain ⟨b,r,rfl⟩ : ∃ b r, l = b :: r := List.exists_cons_of_length_pos (by simp at inside; omega)
    cases k with
    | zero =>
      simp only [List.getD_cons_zero,Nat.zero_add,List.getD_cons_succ] at first second
      simp [untilNuls,first,second]
    | succ k =>
      have here : ¬ (a = 0 ∧ b = 0) := by
        have := apart 0 (Nat.succ_pos k)
        simp only [List.getD_cons_zero,Nat.zero_add,List.getD_cons_succ] at this
        rintro ⟨rfl,rfl⟩
        simp at this
      have rest := ih (k := k) (fun j hj => by simpa using apart (j+1) (by omega)) (by simpa using first)
        (by simpa using second) (by simpa using inside)
      rw [untilNuls,if_neg (by simpa using here),rest,List.take_succ_cons]

theorem untilNuls_append (apart : M.IsChain fun a b => a ≠ 0 ∨ b ≠ 0) (last : M.getLast? ≠ some 0)
    (R : List ℕ) : untilNuls (M++R) = M++untilNuls R := by
  induction M with
  | nil => rfl
  | cons a M ih =>
    have here : ¬ (a = 0 ∧ (M++R).head? = some 0) := by
      rintro ⟨rfl,head⟩
      cases M with
      | nil => simp at last
      | cons b M =>
        obtain ⟨first,-⟩ := List.isChain_cons_cons.mp apart
        simp only [List.cons_append,List.head?_cons,Option.some.injEq] at head
        simp [head] at first
    have tail : M.getLast? ≠ some 0 := by
      cases M with
      | nil => simp
      | cons b M => simpa using last
    rw [List.cons_append,untilNuls,if_neg here,ih apart.tail tail,List.cons_append]

/-- A NUL that ends the marked line stands in front of another one. -/
theorem untilNuls_marked (apart : (M++[0]).IsChain fun a b => a ≠ 0 ∨ b ≠ 0) (R : List ℕ) :
    untilNuls (M++[0]++0 :: R) = M := by
  rw [List.isChain_append] at apart
  have last : M.getLast? ≠ some 0 := fun e => by
    have := apart.2.2 0 e 0 rfl
    simp at this
  rw [List.append_assoc,untilNuls_append apart.1 last]
  simp [untilNuls]

theorem cString_take (shown : ∀ j < k, B.getD j 0 ≠ 0) (nul : B.getD k 0 = 0) (size : k < B.length) :
    cString B 0 = B.take k := by
  have last : B[k] = 0 := by simpa [List.getD_eq_getElem?_getD,size] using nul
  have split : B = B.take k++0 :: B.drop (k+1) := by
    rw [← last,List.getElem_cons_drop,List.take_append_drop]
  have none : 0 ∉ B.take k := by
    intro h
    obtain ⟨j,hj,zero⟩ := List.getElem_of_mem h
    simp only [List.length_take,lt_min_iff] at hj
    refine shown j hj.1 ?_
    simpa [List.getD_eq_getElem?_getD,hj.2] using zero
  have first := cString_append [] none (B.drop (k+1))
  rwa [List.nil_append,← split] at first

theorem blank_ne_zero (c : ℕ) : blank c ≠ 0 := by
  unfold blank
  split_ifs with h <;> omega

theorem isDelim_blank : isDelim (blank c) = true ↔ c = 0 ∨ isDelim c = true := by
  by_cases h : c = 0
  · simp [h,blank,isDelim]
  · simp [h,blank]

/-- The copied line has the words of the line. -/
theorem Marked.words_blank (nul : 0 ∉ L) (h : Marked L M) :
    words isDelim (M.map blank) = words isDelim L := by
  symm
  apply words_congr
  rw [List.forall₂_map_right_iff]
  have same := h.same
  clear h
  induction same with
  | nil => exact .nil
  | @cons a b L M first rest ih =>
    have tail := ih fun h => nul (List.mem_cons_of_mem _ h)
    refine .cons ?_ tail
    rcases first with rfl | ⟨sep,rfl⟩
    · left
      have shown : a ≠ 0 := fun e => nul (e ▸ List.mem_cons_self)
      rw [blank,if_neg shown]
    · exact .inr ⟨sep,rfl⟩

/-- What the copy takes from behind the line. -/
theorem Marked.words_copied (nul : 0 ∉ L) (h : Marked L M) (R : List ℕ) :
    words isDelim ((untilNuls (M++0 :: R)).map blank) = words isDelim L ↔
      endsInOne L = true ∨ ∀ c ∈ untilNuls (0 :: R), c = 0 ∨ isDelim c = true := by
  by_cases last : M.getLast? = some 0
  · obtain ⟨N,rfl⟩ := List.getLast?_eq_some_iff.mp last
    have copied := words_append_cons (N.map blank) [] (show isDelim 32 = true from rfl)
    have whole := h.words_blank nul
    have zero : blank 0 = 32 := rfl
    rw [List.map_append,List.map_singleton,zero] at whole
    rw [words_nil,List.append_nil,whole] at copied
    exact iff_of_true (by rw [untilNuls_marked h.apart,copied]) (.inl (h.ends.mp last))
  · have clean : words isDelim ((untilNuls (0 :: R)).map blank) = [] ↔
        ∀ c ∈ untilNuls (0 :: R), c = 0 ∨ isDelim c = true := by
      rw [words_eq_nil_iff,List.forall_mem_map]
      simp only [isDelim_blank]
    have split : words isDelim ((untilNuls (M++0 :: R)).map blank) =
        words isDelim L++words isDelim ((untilNuls (0 :: R)).map blank) := by
      rw [untilNuls_append h.apart last,List.map_append,untilNuls]
      split_ifs
      · simp [h.words_blank nul]
      · rw [List.map_cons]
        have sep : isDelim (blank 0) = true := rfl
        rw [words_append_cons _ _ sep,h.words_blank nul,words_cons _ sep]
    rw [split,← clean,List.append_right_eq_self,or_iff_right]
    rwa [← h.ends]

namespace Terminal
variable {t u : Terminal}

/-! ### The bytes behind the command -/

theorem upKeyLoop_last (n : ℕ) (t : Terminal) :
    (upKeyLoop n t).lastTermIn = t.lastTermIn ∧ (upKeyLoop n t).cpi = t.cpi := by
  induction n generalizing t with
  | zero => exact ⟨rfl,rfl⟩
  | succ n ih =>
    rw [upKeyLoop]
    exact ih _

/-- terminal_input leaves the copy of the last line as it is. -/
theorem terminalInput_last (t : Terminal) (c : ℕ) :
    (t.terminalInput c).1.lastTermIn = t.lastTermIn ∧ (t.terminalInput c).1.cpi = t.cpi := by
  have key : (t.key c).1.lastTermIn = t.lastTermIn ∧ (t.key c).1.cpi = t.cpi := by
    simp only [Terminal.key,count]
    split_ifs <;> exact ⟨rfl,rfl⟩
  have up : ∀ s : Terminal, s.upKey.lastTermIn = s.lastTermIn ∧ s.upKey.cpi = s.cpi := fun s => by
    simp only [upKey]
    split_ifs
    · exact upKeyLoop_last _ _
    · exact ⟨rfl,rfl⟩
  have edit : ∀ s : Terminal, ∀ c, (s.edit c).1.lastTermIn = s.lastTermIn ∧ (s.edit c).1.cpi = s.cpi := by
    intro s c
    simp only [Terminal.edit]
    split_ifs
    all_goals first | exact up s | exact ⟨rfl,rfl⟩
  simp only [Terminal.terminalInput]
  split
  · rename_i s typed
    rwa [typed] at key
  · rename_i s c' typed
    rw [typed] at key
    obtain ⟨last,cpi⟩ := edit s c'
    exact ⟨last.trans key.1,cpi.trans key.2⟩

/-- The terminal after bytes that complete no line. -/
def feed (t : Terminal) : List ℕ → Option Terminal
  | [] => some t
  | c :: cs =>
    let r := t.terminalInput c
    if r.2 = 0 then feed r.1 cs else none

/-- The bytes are typed one after the other, and the counter overflows at none of them. -/
def Counted (intMax : ℕ) (t : Terminal) : List ℕ → Prop
  | [] => True
  | c :: cs => t.Counts intMax c ∧ Counted intMax (t.terminalInput c).1 cs

theorem Waiting.feed (h : t.Waiting) {cs : List ℕ} (fed : t.feed cs = some u) :
    u.Waiting ∧ u.lastTermIn = t.lastTermIn ∧ u.cpi = t.cpi := by
  induction cs generalizing t with
  | nil =>
    obtain rfl := Option.some.inj fed
    exact ⟨h,rfl,rfl⟩
  | cons c cs ih =>
    simp only [Terminal.feed] at fed
    split_ifs at fed with more
    obtain ⟨waits,last,cpi⟩ := ih ((h.terminalInput c).waits more) fed
    obtain ⟨last',cpi'⟩ := terminalInput_last t c
    exact ⟨waits,last.trans last',cpi.trans cpi'⟩

/-! ### The line that comes back -/

/-- The copy of the last line is a string of `cpi` characters, and not empty. -/
structure Remembers (t : Terminal) (line : List ℕ) : Prop where
  pos : 0 < t.cpi
  shown : ∀ j < t.cpi, t.lastTermIn.getD j 0 ≠ 0
  line : t.lastTermIn.take t.cpi = line

/-- The UP key puts the copy into term_in. -/
theorem Waiting.upKey_line (h : t.Waiting) {line : List ℕ} (last : t.Remembers line) :
    t.upKey.lineIn = line ∧ t.upKey.termInIdx = line.length := by
  have cpi := h.contained.cpi
  have lastSize := h.contained.lastSize
  obtain ⟨l,run,length,copied⟩ := upKey_spec h.contained (last.shown 0 last.pos)
  have before : ∀ j < t.cpi, l.getD j 0 = t.lastTermIn.getD j 0 := fun j hj => by
    rw [copied,if_pos hj.le]
  have same : l.take t.cpi = t.lastTermIn.take t.cpi := by
    apply List.ext_getElem
    · simp [length,lastSize]
    · intro j hj hj'
      simp only [List.length_take,lt_min_iff] at hj hj'
      have := before j hj.1
      simpa [List.getD_eq_getElem?_getD,hj.2,hj'.2] using this
  have line_eq : cString l 0 = line := by
    rw [cString_take (k := t.cpi) (fun j hj => before j hj ▸ last.shown j hj) ?_ (by omega),same,last.line]
    rw [copied,if_pos le_rfl,h.contained.last]
  rw [run]
  refine ⟨line_eq,?_⟩
  rw [← last.line,List.length_take]
  simp only
  omega

/-- terminal_input takes the byte as the UP key. -/
theorem Waiting.up (h : t.Waiting) {line : List ℕ} (last : t.Remembers line)
    (up : (t.key c).2 = some upKeyChar) :
    (t.terminalInput c).1.lineIn = line ∧ (t.terminalInput c).1.termInIdx = line.length ∧
      (t.terminalInput c).1.outside = false := by
  have key := h.key c
  have kept : (t.key c).1.lastTermIn = t.lastTermIn ∧ (t.key c).1.cpi = t.cpi ∧
      0 ≤ (t.key c).1.termTmpIdx := by
    simp only [Terminal.key] at up ⊢
    split_ifs at up ⊢ with a b d e
    · simp only [Option.some.injEq] at up
      exact absurd up b
    · exact ⟨rfl,rfl,count_nonneg _ _⟩
    · simp only [ne_eq,not_not] at a
      simp only [a,Option.some.injEq] at up
      contradiction
  have input : t.terminalInput c = ((t.key c).1.upKey,0) := by
    have split : t.key c = ((t.key c).1,some upKeyChar) := by rw [← up]
    rw [Terminal.terminalInput,split]
    have other : ¬ (upKeyChar = 8 ∨ upKeyChar = 0x7F) := by decide
    simp [Terminal.edit,kept.2.2,other]
  rw [input]
  have same : (t.key c).1.Remembers line := by
    refine ⟨kept.2.1 ▸ last.pos,?_,?_⟩
    · rw [kept.1,kept.2.1]
      exact last.shown
    · rw [kept.1,kept.2.1]
      exact last.line
  obtain ⟨line_eq,idx⟩ := key.upKey_line same
  exact ⟨line_eq,idx,key.upKey.contained.inside⟩

/-- Nothing but separators and single NULs stands between the line and the first two NULs in a row. -/
def Clean (t : Terminal) : Prop :=
  ∀ c ∈ untilNuls (t.termIn.drop t.lineIn.length), c = 0 ∨ isDelim c = true

instance (t : Terminal) : Decidable t.Clean :=
  inferInstanceAs (Decidable (∀ c ∈ untilNuls (t.termIn.drop t.lineIn.length), c = 0 ∨ isDelim c = true))

theorem drop_line (h : t.termIn = t.lineIn++0 :: R) : t.termIn.drop t.lineIn.length = 0 :: R := by
  rw [congrArg (List.drop t.lineIn.length) h]
  exact List.drop_left

/-- terminal_process keeps a copy of the line that it has taken apart. -/
theorem Contained.remembers (h : t.Contained) (some_word : words isDelim t.lineIn ≠ []) :
    ∃ line, t.terminalProcess.1.Remembers line ∧
      (words isDelim line = words isDelim t.lineIn ↔ endsInOne t.lineIn = true ∨ t.Clean) := by
  obtain ⟨argv,M,R,line,nul,marked,args,inside,run⟩ := process_spec h
  have called : argv ≠ [] := by
    rintro rfl
    exact some_word args.symm
  obtain ⟨k,l,copy,fits,first,second,apart,length,-,copied⟩ := copyLast_spec inside
  have copy_eq : untilNuls (M++0 :: R) = (M++0 :: R).take k :=
    untilNuls_eq_take apart first second (by rw [inside.size]; omega)
  have size := inside.size
  simp only at size first copied
  refine ⟨(untilNuls (M++0 :: R)).map blank,?_,?_⟩
  · rw [run,if_neg called,copy]
    refine ⟨?_,fun j hj => ?_,?_⟩
    · refine Nat.pos_of_ne_zero ?_
      rintro rfl
      cases M with
      | nil =>
        have := marked.length_eq
        have none : t.lineIn = [] := List.eq_nil_of_length_eq_zero this.symm
        exact some_word (by rw [none,words_nil])
      | cons b M =>
        exact marked.first b rfl (by simpa using first)
    · simp only
      rw [copied j hj]
      exact blank_ne_zero _
    · rw [copy_eq]
      apply List.ext_getElem
      · simp only [List.length_take,List.length_map,size,length]
      · intro j hj hj'
        simp only [List.length_take,lt_min_iff] at hj
        have here : j < (M++0 :: R).length := by rw [size,← length]; exact hj.2
        have := copied j hj.1
        rw [List.getD_eq_getElem?_getD,List.getD_eq_getElem?_getD,List.getElem?_eq_getElem hj.2,
          List.getElem?_eq_getElem here] at this
        rw [List.getElem_take,List.getElem_map,List.getElem_take]
        exact this
  · rw [marked.words_copied nul,Terminal.Clean,drop_line line]

/-! ### The counter -/

/-- The UP key starts to count afresh. -/
theorem Contained.upKey_inInt {intMax : ℕ} (int : 32767 ≤ intMax) (h : t.Contained) (counted : t.InInt intMax) :
    t.upKey.InInt intMax := by
  by_cases used : t.lastTermIn.getD 0 0 = 0
  · have same : t.upKey = { t with termInIdx := 0 } := by
      simp only [Terminal.upKey]
      rw [if_neg (by simpa using used)]
    rw [same]
    exact counted
  · have cpi := h.cpi
    obtain ⟨l,run,_⟩ := upKey_spec h used
    have size : termInputBufsize = 32 := rfl
    rw [run]
    simp only [InInt]
    omega

/-- A deletion on an empty line completes nothing. -/
theorem terminalInput_emptied (empty : t.termInIdx = 0) : (t.terminalInput 0x7F).2 = 0 ∧
    (t.terminalInput 0x7F).1.termTmpIdx = t.termTmpIdx-1 := by
  have key : t.key 0x7F = ({ t with termTmpIdx := t.termTmpIdx-1 },some 0x7F) := by simp [Terminal.key]
  simp only [terminalInput,key,edit,empty,upKeyChar,termInputBufsize,store,touch]
  split_ifs <;> simp_all

theorem terminalInput_up (t : Terminal) :
    t.terminalInput upKeyChar = ({ t with discardChar := charsToDiscard },0) := by
  simp [terminalInput,Terminal.key,upKeyChar]

theorem terminalInput_completes {c : ℕ} (done : (t.terminalInput c).2 = 1) :
    0 ≤ (t.terminalInput c).1.termTmpIdx := by
  simp only [terminalInput] at done ⊢
  split at done
  · contradiction
  · simp only [edit] at done ⊢
    split_ifs at done ⊢ with counted
    all_goals first | contradiction | exact counted

end Terminal

namespace Typing
variable {s t : Typing} {intMax : ℕ}

/-- The bytes of a run overflow no counter. -/
abbrev CountedRun (intMax : ℕ) : Typing → Typing → Prop :=
  Run.Reach step fun s c => s.prompt.Counts intMax c

theorem counted_of_reaches (int : 32767 ≤ intMax) (h : CountedRun intMax start s) :
    s.terminal.InInt intMax ∧ (s.returned = 1 → 0 ≤ s.terminal.termTmpIdx) := by
  have first : start.terminal.InInt intMax := by
    simp only [Terminal.InInt,start,Terminal.start]
    omega
  refine (h.invariant (P := fun s => Terminal.Entered (s.terminal,s.returned) ∧ s.terminal.InInt intMax ∧
    (s.returned = 1 → 0 ≤ s.terminal.termTmpIdx))
    ⟨.of_waiting Terminal.waiting_start,first,fun _ => le_rfl⟩ ?_).2
  rintro s c t ⟨entered,counted,_⟩ counts next
  refine ⟨entered_step entered next,?_,?_⟩
  · obtain rfl := Option.some.inj next
    have waits := prompt_waiting entered
    exact Terminal.terminalInput_inInt int (prompt_inInt counted) counts fun _ =>
      (waits.key c).contained.upKey_inInt int (Terminal.key_inInt int (prompt_inInt counted) counts)
  · obtain rfl := Option.some.inj next
    exact Terminal.terminalInput_completes

/-- What the UP key does after terminal_process has called a command, whatever has been typed since
without completing a line: the line in term_in has the arguments of the command, and term_in_idx is
behind it. -/
structure Recalls (intMax : ℕ) (s : Typing) : Prop where
  stored : ∀ r, s.terminal.terminalProcess.2 = some r → r.argv.length ≤ termArgsMaxCount
  inside : ∀ cs u, s.prompt.Counted intMax cs → s.prompt.feed cs = some u → u.outside = false
  back : ∀ r, s.terminal.terminalProcess.2 = some r → ∀ cs u c, s.prompt.Counted intMax (cs++[c]) →
    s.prompt.feed cs = some u → (u.key c).2 = some upKeyChar →
      words isDelim (u.terminalInput c).1.lineIn = r.args
  idx : ∀ r, s.terminal.terminalProcess.2 = some r → ∀ cs u c, s.prompt.Counted intMax (cs++[c]) →
    s.prompt.feed cs = some u → (u.key c).2 = some upKeyChar →
      (u.terminalInput c).1.termInIdx = (u.terminalInput c).1.lineIn.length

/-- The line has no word; or it has as many as argv holds, and it ends in one separator or nothing but
separators and single NULs is left behind it. -/
def Recallable (t : Terminal) : Prop :=
  words isDelim t.lineIn = [] ∨
    (words isDelim t.lineIn).length ≤ termArgsMaxCount ∧ (endsInOne t.lineIn = true ∨ t.Clean)

instance (t : Terminal) : Decidable (Recallable t) :=
  inferInstanceAs (Decidable (_ ∨ _ ∧ (_ ∨ _)))

/-- The UP key can be typed behind the prompt without an overflow: a deletion first makes room for its
counting. -/
theorem exists_up (done : s.returned = 1) (counted : s.terminal.InInt intMax)
    (nonneg : 0 ≤ s.terminal.termTmpIdx) : ∃ cs u c, s.prompt.Counted intMax (cs++[c]) ∧
      s.prompt.feed cs = some u ∧ (u.key c).2 = some upKeyChar := by
  have prompt : s.prompt = s.terminal.terminalProcess.1 := if_pos done
  obtain ⟨more,lower⟩ := terminalInput_emptied (t := s.prompt) (by rw [prompt]; rfl)
  have tmp := prompt_termTmpIdx s
  have high := counted.2
  have fed : s.prompt.feed [0x7F,upKeyChar] =
      some ((s.prompt.terminalInput 0x7F).1.terminalInput upKeyChar).1 := by
    simp only [Terminal.feed,more,if_true,terminalInput_up]
  refine ⟨[0x7F,upKeyChar],_,72,?_,fed,?_⟩
  · simp only [Terminal.Counted,Terminal.Counts,List.cons_append,List.nil_append,terminalInput_up]
    refine ⟨⟨fun _ => by omega,fun no => absurd rfl no⟩,⟨fun no => absurd no (by decide),
      fun _ no => absurd rfl no⟩,⟨fun no => absurd no (by decide),fun _ _ _ => ?_⟩,trivial⟩
    omega
  · rw [terminalInput_up]
    simp [Terminal.key,upKeyChar,charsToDiscard]

theorem recalls_of_contained (h : s.terminal.Contained) (done : s.returned = 1)
    (counted : s.terminal.InInt intMax) (nonneg : 0 ≤ s.terminal.termTmpIdx) :
    Recalls intMax s ↔ Recallable s.terminal := by
  have prompt : s.prompt = s.terminal.terminalProcess.1 := if_pos done
  have waits : s.prompt.Waiting := prompt ▸ h.terminalProcess
  obtain ⟨argv,M,R,line,nul,marked,args,_,run⟩ := process_spec h
  have length : argv.length = (words isDelim s.terminal.lineIn).length := by rw [← args,List.length_map]
  have bounds : ∀ cs u, s.prompt.feed cs = some u → u.outside = false := fun cs u fed =>
    (waits.feed fed).1.contained.inside
  by_cases none : words isDelim s.terminal.lineIn = []
  · have nothing : s.terminal.terminalProcess.2 = Option.none := by
      rw [none,List.map_eq_nil_iff] at args
      exact (congrArg Prod.snd run).trans (if_pos args)
    exact iff_of_true ⟨by simp [nothing],fun cs u _ => bounds cs u,by simp [nothing],by simp [nothing]⟩
      (.inl none)
  have called : argv ≠ [] := by
    rintro rfl
    exact none args.symm
  have command : s.terminal.terminalProcess.2 = some ⟨argv.length%256,argv,M++0 :: R⟩ :=
    (congrArg Prod.snd run).trans (if_neg called)
  obtain ⟨copy,remembers,same⟩ := h.remembers none
  rw [← prompt] at remembers
  -- the copy outlives what is typed
  have back : ∀ cs u, s.prompt.feed cs = some u → ∀ c, (u.key c).2 = some upKeyChar →
      (u.terminalInput c).1.lineIn = copy ∧ (u.terminalInput c).1.termInIdx = copy.length := by
    intro cs u fed c up
    obtain ⟨waits',last,cpi⟩ := waits.feed fed
    have still : u.Remembers copy := by
      refine ⟨cpi ▸ remembers.pos,?_,?_⟩
      · rw [last,cpi]
        exact remembers.shown
      · rw [last,cpi]
        exact remembers.line
    obtain ⟨shown,idx,-⟩ := waits'.up still up
    exact ⟨shown,idx⟩
  rw [Recallable,or_iff_right none,← same,← length]
  constructor
  · intro recalls
    refine ⟨recalls.stored _ command,?_⟩
    obtain ⟨cs,u,c,counts,fed,up⟩ := exists_up done counted nonneg
    rw [← (back cs u fed c up).1,recalls.back _ command cs u c counts fed up]
    exact args
  · rintro ⟨few,words_eq⟩
    refine ⟨?_,fun cs u _ => bounds cs u,?_,?_⟩
    · intro r hr
      obtain rfl := Option.some.inj (command.symm.trans hr)
      exact few
    · intro r hr cs u c _ fed up
      obtain rfl := Option.some.inj (command.symm.trans hr)
      rw [(back cs u fed c up).1,words_eq]
      exact args.symm
    · intro r hr cs u c _ fed up
      rw [(back cs u fed c up).1,(back cs u fed c up).2]

/-- In every run in which term_tmp_idx does not overflow, the UP key brings back the command that
terminal_process has called exactly when the line was recallable. -/
theorem recalls_iff (int : 32767 ≤ intMax) (h : CountedRun intMax start s) (done : s.returned = 1) :
    Recalls intMax s ↔ Recallable s.terminal := by
  obtain ⟨counted,nonneg⟩ := counted_of_reaches int h
  exact recalls_of_contained (entered_of_reaches h).contained done counted (nonneg done)

theorem recalls_example : ∃ s, CountedRun 32767 start s ∧ s.returned = 1 ∧
    s.terminal.lineIn = [120,121,122] ∧ Recalls 32767 s := by
  obtain ⟨s,reach,returned,line,recallable⟩ := Run.exists_reach_of_exec step
    (fun s c => s.prompt.Counts 32767 c) start
    [120,121,13,97,98,99,224,72,122,13] (fun s => s.returned = 1 ∧ s.terminal.lineIn = [120,121,122] ∧
      Recallable s.terminal) (by decide)
  exact ⟨s,reach,returned,line,(recalls_iff le_rfl reach returned).mpr recallable⟩

/-- The line that the UP key replaces is longer: its end stays behind the command that is recalled and
typed on. -/
theorem recalls_fails : ∃ s, CountedRun 32767 start s ∧ s.returned = 1 ∧ ¬ Recalls 32767 s := by
  obtain ⟨s,reach,returned,stale⟩ := Run.exists_reach_of_exec step
    (fun s c => s.prompt.Counts 32767 c) start
    [120,121,13,97,98,99,100,101,102,103,104,224,72,122,13]
    (fun s => s.returned = 1 ∧ ¬ Recallable s.terminal) (by decide)
  obtain ⟨counted,nonneg⟩ := counted_of_reaches le_rfl reach
  exact ⟨s,reach,returned,fun recalls => stale ((recalls_of_contained
    (entered_of_reaches reach).contained returned counted (nonneg returned)).mp recalls)⟩

end Typing
end Brtos
