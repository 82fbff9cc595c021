import Brtos.Terminal
import Brtos.Library.Run

/-! terminal_input against an editor of lines. -/
namespace Brtos

/-- The editor that terminal_input is meant to be: the line after a byte, and whether it is
complete. -/
def editLine (line : List ℕ) (c : ℕ) : List ℕ × Bool :=
  if c = 8 ∨ c = 0x7F then (line.dropLast,false)
  else if c = 10 ∨ c = 13 then (line,true)
  else if line.length+1 = termInputBufsize-1 then (line,true)
  else (line++[c],false)

namespace Terminal
variable {t : Terminal} {line : List ℕ} {c : ℕ}

/-- The terminal shows the line. Where term_tmp_idx is not negative, it is not behind term_in_idx. -/
structure Shows (t : Terminal) (line : List ℕ) : Prop where
  ready : t.discardChar = 0
  size : t.termIn.length = termInputBufsize
  idx : t.termInIdx = line.length
  shown : t.termIn.take t.termInIdx = line
  short : line.length < termInputBufsize-1
  ahead : 0 ≤ t.termTmpIdx → (t.termInIdx : ℤ) ≤ t.termTmpIdx
  behind : t.termTmpIdx < 0 → t.termInIdx = 0

/-- A deletion meets a character, or for 0x7F the counter at its start. -/
def Deletes (t : Terminal) (c : ℕ) : Prop :=
  (c = 8 → 0 < t.termInIdx) ∧ (c = 0x7F → 0 < t.termInIdx ∨ t.termTmpIdx ≤ 0)

instance (t : Terminal) (c : ℕ) : Decidable (t.Deletes c) := inferInstanceAs (Decidable (_ ∧ _))

/-- What a byte does to a terminal that shows a line. -/
structure Types (t : Terminal) (line : List ℕ) (c : ℕ) : Prop where
  returns : (t.terminalInput c).2 = 1 ↔ (editLine line c).2 = true
  complete : (editLine line c).2 = true →
    (t.terminalInput c).1.termInIdx = line.length+1 ∧
      (t.terminalInput c).1.termIn.take (line.length+1) = line++[0]
  partly : (editLine line c).2 = false → (t.terminalInput c).1.Shows (editLine line c).1
  ready : (t.terminalInput c).1.discardChar = 0

theorem take_set_succ {l : List ℕ} {i : ℕ} (h : i < l.length) (x : ℕ) :
    (l.set i x).take (i+1) = l.take i++[x] := by
  rw [List.take_succ_eq_append_getElem (by simpa using h)]
  simp [List.take_set_of_le]

theorem count_nonneg (t : Terminal) (c : ℕ) : 0 ≤ (t.count c).termTmpIdx := by
  simp only [count]
  split_ifs <;> omega

/-! ### The counter -/

variable {intMax : ℕ}

theorem count_inInt (int : 32767 ≤ intMax) (h : t.InInt intMax) (room : c ≠ 13 → t.termTmpIdx < intMax) :
    (t.count c).InInt intMax := by
  obtain ⟨low,high⟩ := h
  simp only [InInt,count]
  split_ifs with counted more
  · have := room counted
    omega
  · omega
  · omega

theorem key_inInt (int : 32767 ≤ intMax) (h : t.InInt intMax) (counts : t.Counts intMax c) :
    (t.key c).1.InInt intMax := by
  obtain ⟨down,up⟩ := counts
  simp only [key]
  split_ifs with del arrow ready last
  · exact count_inInt int h fun more => up del arrow (.inl more)
  · exact @count_inInt { t with discardChar := t.discardChar-1 } upKeyChar intMax int h
      fun _ => up del arrow (.inr ready)
  · exact h
  · exact h
  · have := down (not_not.mp del)
    obtain ⟨low,high⟩ := h
    simp only [InInt]
    omega

theorem edit_inInt (h : t.InInt intMax) (up : c = upKeyChar → t.upKey.InInt intMax) :
    (t.edit c).1.InInt intMax := by
  simp only [edit]
  split_ifs with counted del key
  · exact h
  · exact up key
  · exact h
  · exact h
  · exact h

/-- term_tmp_idx stays an int over a byte that counts, if the UP key leaves it one. -/
theorem terminalInput_inInt (int : 32767 ≤ intMax) (h : t.InInt intMax) (counts : t.Counts intMax c)
    (up : (t.key c).2 = some upKeyChar → (t.key c).1.upKey.InInt intMax) :
    (t.terminalInput c).1.InInt intMax := by
  have counted := key_inInt int h counts
  simp only [terminalInput]
  cases typed : (t.key c).2 with
  | none =>
    rw [show t.key c = ((t.key c).1,none) from Prod.ext rfl typed]
    exact counted
  | some c' =>
    rw [show t.key c = ((t.key c).1,some c') from Prod.ext rfl typed]
    exact edit_inInt counted fun e => up (e ▸ typed)

/-! ### Bytes -/

theorem edit_delete (counted : 0 ≤ t.termTmpIdx) (del : c = 8 ∨ c = 0x7F) (inside : 0 < t.termInIdx) :
    t.edit c = ({ t.store t.termInIdx 0 with termInIdx := t.termInIdx-1 },0) := by
  simp [edit,counted,del,inside,store,touch]

theorem edit_ends (counted : 0 ≤ t.termTmpIdx) (kept : ¬ (c = 8 ∨ c = 0x7F)) (plain : c ≠ upKeyChar)
    (ends : c = 10 ∨ c = 13 ∨ t.termInIdx+1 = termInputBufsize-1) :
    t.edit c =
      ({ (t.store t.termInIdx c).store t.termInIdx 0 with termInIdx := t.termInIdx+1 },1) := by
  simp [edit,counted,kept,plain,ends,store,touch]

theorem edit_appends (counted : 0 ≤ t.termTmpIdx) (kept : ¬ (c = 8 ∨ c = 0x7F)) (plain : c ≠ upKeyChar)
    (goes : ¬ (c = 10 ∨ c = 13 ∨ t.termInIdx+1 = termInputBufsize-1)) :
    t.edit c = ({ t.store t.termInIdx c with termInIdx := t.termInIdx+1 },0) := by
  simp [edit,counted,kept,plain,goes,store,touch]

/-- The last character of the line goes. -/
theorem Shows.deleted (h : t.Shows line) (inside : 0 < t.termInIdx) {tmp : ℤ}
    (ahead : (t.termInIdx : ℤ)-1 ≤ tmp) :
    Shows { t.store t.termInIdx 0 with termInIdx := t.termInIdx-1, termTmpIdx := tmp }
      line.dropLast where
  ready := h.ready
  size := by simpa [store] using h.size
  idx := by simp [h.idx]
  shown := by
    simp only [store]
    rw [List.take_set_of_le (Nat.sub_le _ _),List.dropLast_eq_take,← h.idx,← h.shown,
      List.take_take,Nat.min_eq_left (Nat.sub_le _ _)]
  short := by
    have := h.short
    simp only [List.length_dropLast]
    omega
  ahead _ := by simp only; omega
  behind neg := by
    simp only at neg
    omega

theorem Shows.appended (h : t.Shows line) (room : t.termInIdx+1 ≠ termInputBufsize-1) {tmp : ℤ}
    (ahead : (t.termInIdx : ℤ)+1 ≤ tmp) :
    Shows { t.store t.termInIdx c with termInIdx := t.termInIdx+1, termTmpIdx := tmp } (line++[c]) where
  ready := h.ready
  size := by simpa [store] using h.size
  idx := by simp [h.idx]
  shown := by
    have := h.short
    simp only [store]
    rw [take_set_succ (by rw [h.size,h.idx]; omega),h.shown]
  short := by
    have := h.short
    have := h.idx
    simp only [List.length_append,List.length_singleton]
    omega
  ahead _ := by simpa using ahead
  behind neg := by
    simp only at neg
    omega

/-- The line is closed by a NUL. -/
theorem Shows.closed (h : t.Shows line) (c : ℕ) :
    ((t.store t.termInIdx c).store t.termInIdx 0).termIn.take (line.length+1) = line++[0] := by
  have := h.short
  simp only [store,List.set_set,← h.idx]
  rw [take_set_succ (by rw [h.size,h.idx]; omega),h.shown]

/-- A character that is counted and ends the line, or is appended to it. -/
theorem Shows.counted (h : t.Shows line) (plain : c ≠ upKeyChar) (kept : ¬ (c = 8 ∨ c = 0x7F)) :
    t.Types line c := by
  have input : t.terminalInput c = (t.count c).edit c := by
    have other : c ≠ 0x7F := fun e => kept (.inr e)
    simp [terminalInput,key,other,plain,h.ready]
  have counted := count_nonneg t c
  have size : termInputBufsize = 32 := rfl
  by_cases ends : c = 10 ∨ c = 13 ∨ t.termInIdx+1 = termInputBufsize-1
  · have full : (editLine line c) = (line,true) := by
      simp only [editLine,if_neg kept,← h.idx]
      rcases ends with e | e | e
      · simp [e]
      · simp [e]
      · split_ifs <;> rfl
    have shut := edit_ends (t := t.count c) counted kept plain ends
    rw [← input] at shut
    refine ⟨?_,?_,?_,?_⟩
    · simp [shut,full]
    · rw [shut]
      exact fun _ => ⟨by simp [count,h.idx],h.closed c⟩
    · simp [full]
    · rw [shut]
      exact h.ready
  · have more : (editLine line c) = (line++[c],false) := by
      simp only [not_or] at ends
      simp [editLine,kept,ends,← h.idx]
    have goes := edit_appends (t := t.count c) counted kept plain ends
    rw [← input] at goes
    simp only [not_or] at ends
    have ahead : (t.termInIdx : ℤ)+1 ≤ (t.count c).termTmpIdx := by
      have := h.ahead
      have := h.behind
      simp only [count,ends.2.1,ne_eq,not_false_eq_true,if_true]
      split_ifs <;> omega
    refine ⟨?_,?_,?_,?_⟩
    · simp [goes,more]
    · simp [more]
    · rw [goes,more]
      exact fun _ => h.appended ends.2.2 ahead
    · rw [goes]
      exact h.ready

/-- A deletion, with the terminal `u` that the counting leaves. -/
theorem Shows.taken (h : t.Shows line) {tmp : ℤ} (del : c = 8 ∨ c = 0x7F)
    (input : t.terminalInput c = edit { t with termTmpIdx := tmp } c) (counted : 0 ≤ tmp)
    (ahead : (t.termInIdx : ℤ)-1 ≤ tmp) (inside : 0 < t.termInIdx) : t.Types line c := by
  have shorter : editLine line c = (line.dropLast,false) := by simp [editLine,del]
  rw [edit_delete (t := { t with termTmpIdx := tmp }) counted del inside] at input
  refine ⟨?_,?_,?_,?_⟩
  · simp [input,shorter]
  · simp [shorter]
  · rw [input,shorter]
    exact fun _ => h.deleted inside ahead
  · rw [input]
    exact h.ready

theorem Shows.deletes (h : t.Shows line) (meets : t.Deletes c) (del : c = 8 ∨ c = 0x7F) :
    t.Types line c := by
  have ahead := h.ahead
  have behind := h.behind
  by_cases inside : 0 < t.termInIdx
  · rcases del with rfl | rfl
    · have tmp := count_nonneg t 8
      refine h.taken (.inl rfl) ?_ tmp ?_ inside
      · simp [terminalInput,key,upKeyChar,h.ready,count]
      · simp only [count]
        split_ifs <;> omega
    · refine h.taken (.inr rfl) ?_ (show 0 ≤ t.termTmpIdx-1 by omega) (by omega) inside
      simp [terminalInput,key]
  · have empty : line = [] := List.eq_nil_of_length_eq_zero (by have := h.idx; omega)
    have start : c = 0x7F := by
      rcases del with e | e
      · exact absurd (meets.1 e) inside
      · exact e
    have early := (meets.2 start).resolve_left inside
    have input : t.terminalInput c = ({ t with termTmpIdx := t.termTmpIdx-1 },0) := by
      have negative : ¬ 1 ≤ t.termTmpIdx := by omega
      simp [terminalInput,key,start,edit,negative]
    have kept : editLine line c = ([],false) := by simp [editLine,del,empty]
    refine ⟨?_,?_,?_,?_⟩
    · simp [input,kept]
    · simp [kept]
    · rw [input,kept]
      refine fun _ => ⟨h.ready,h.size,by simp [h.idx,empty],?_,by decide,?_,?_⟩
      · simpa [empty] using h.shown
      · exact fun nonneg => absurd nonneg (by simp only; omega)
      · exact fun _ => by simp only; omega
    · rw [input]
      exact h.ready

theorem Shows.types (h : t.Shows line) (plain : c ≠ upKeyChar) (meets : t.Deletes c) :
    t.Types line c := by
  by_cases del : c = 8 ∨ c = 0x7F
  · exact h.deletes meets del
  · exact h.counted plain del

/-- Without a character to delete, the byte is stored. -/
theorem Shows.types_iff (h : t.Shows line) (plain : c ≠ upKeyChar) : t.Types line c ↔ t.Deletes c := by
  refine ⟨fun types => ?_,h.types plain⟩
  by_contra misses
  have del : c = 8 ∨ c = 0x7F := by
    by_contra other
    simp only [not_or] at other
    exact misses ⟨fun e => absurd e other.1,fun e => absurd e other.2⟩
  have shorter : editLine line c = (line.dropLast,false) := by simp [editLine,del]
  have partly := types.partly (by rw [shorter])
  rw [shorter] at partly
  have start : t.termInIdx = 0 := by
    by_contra inside
    have inside := Nat.pos_of_ne_zero inside
    exact misses ⟨fun _ => inside,fun _ => .inl inside⟩
  have empty : line = [] := List.eq_nil_of_length_eq_zero (h.idx ▸ start)
  have stored : (t.terminalInput c).1.termInIdx = 1 := by
    rcases del with rfl | rfl
    · have input : t.terminalInput 8 = (t.count 8).edit 8 := by
        simp [terminalInput,key,upKeyChar,h.ready]
      have none : (t.count 8).termInIdx = 0 := start
      simp [input,edit,count_nonneg,none,upKeyChar,store,touch,termInputBufsize]
    · have late : ¬ t.termTmpIdx ≤ 0 := fun early => misses ⟨by simp,fun _ => .inr early⟩
      have counted : 1 ≤ t.termTmpIdx := by omega
      simp [terminalInput,key,upKeyChar,edit,counted,start,store,touch,termInputBufsize]
  have none := partly.idx
  rw [stored,empty] at none
  contradiction

theorem shows_start : start.Shows [] where
  ready := rfl
  size := rfl
  idx := rfl
  shown := rfl
  short := by decide
  ahead _ := by decide
  behind h := absurd h (by decide)

theorem copyLoop_discardChar (n : ℕ) (t : Terminal) : (copyLoop n t).discardChar = t.discardChar := by
  induction n generalizing t with
  | zero => rfl
  | succ n ih =>
    simp only [copyLoop]
    split_ifs <;> simp [ih,touch]

theorem terminalProcess_discardChar (t : Terminal) :
    t.terminalProcess.1.discardChar = t.discardChar := by
  simp only [terminalProcess]
  split_ifs <;> simp [copyLast,copyLoop_discardChar,touch]

theorem copyLoop_termTmpIdx (n : ℕ) (t : Terminal) : (copyLoop n t).termTmpIdx = t.termTmpIdx := by
  induction n generalizing t with
  | zero => rfl
  | succ n ih =>
    simp only [copyLoop]
    split_ifs <;> simp [ih,touch]

theorem terminalProcess_termTmpIdx (t : Terminal) : t.terminalProcess.1.termTmpIdx = t.termTmpIdx := by
  simp only [terminalProcess]
  split_ifs <;> simp [copyLast,copyLoop_termTmpIdx,touch]

/-- terminal_process leaves an empty line. -/
theorem shows_process (t : Terminal) (ready : t.discardChar = 0) : t.terminalProcess.1.Shows [] where
  ready := by rw [terminalProcess_discardChar,ready]
  size := by simp [terminalProcess]
  idx := rfl
  shown := rfl
  short := by decide
  ahead nonneg := nonneg
  behind _ := rfl

end Terminal

/-- A terminal at which a byte has been typed, with the value that terminal_input has returned, and the
editor beside it. -/
structure Typing where
  terminal : Terminal
  returned : ℕ
  line : List ℕ
  completed : Bool
  deriving DecidableEq

namespace Typing
variable {s t : Typing} {c : ℕ}

def start : Typing := ⟨.start,0,[],false⟩

/-- The task calls terminal_process when terminal_input has returned 1. -/
def prompt (s : Typing) : Terminal :=
  if s.returned = 1 then s.terminal.terminalProcess.1 else s.terminal

def step (s : Typing) (c : ℕ) : Option Typing :=
  let r := s.prompt.terminalInput c
  let e := editLine (if s.completed then [] else s.line) c
  some ⟨r.1,r.2,e.1,e.2⟩

/-- The byte is not the UP key, a deletion meets a character, or for 0x7F the counter at its start, and
the counter does not overflow. -/
def Met (intMax : ℕ) (s : Typing) (c : ℕ) : Prop :=
  c ≠ upKeyChar ∧ s.prompt.Deletes c ∧ s.prompt.Counts intMax c

instance (intMax : ℕ) (s : Typing) (c : ℕ) : Decidable (Met intMax s c) :=
  inferInstanceAs (Decidable (_ ∧ _ ∧ _))

/-- The terminal does what the editor does. -/
structure Agrees (s : Typing) : Prop where
  returns : s.returned = 1 ↔ s.completed = true
  complete : s.completed = true → s.terminal.termIn.take (s.line.length+1) = s.line++[0]
  partly : s.completed = false → s.terminal.termIn.take s.terminal.termInIdx = s.line
  bounded : s.terminal.termInIdx ≤ termInputBufsize-1

/-- The terminal at the prompt shows the editor's line. -/
structure Sound (s : Typing) : Prop where
  agrees : s.Agrees
  ready : s.terminal.discardChar = 0
  shows : s.completed = false → s.terminal.Shows s.line

theorem Sound.prompt (h : s.Sound) : s.prompt.Shows (if s.completed then [] else s.line) := by
  simp only [Typing.prompt,h.agrees.returns]
  split_ifs with done
  · exact Terminal.shows_process _ h.ready
  · exact h.shows (by simpa using done)

theorem sound_start : start.Sound where
  agrees := ⟨by simp [start],by simp [start],fun _ => rfl,by decide⟩
  ready := rfl
  shows _ := Terminal.shows_start

theorem Sound.step {intMax : ℕ} (h : s.Sound) (met : Met intMax s c) (next : s.step c = some t) :
    t.Sound := by
  have types := h.prompt.types met.1 met.2.1
  have short := h.prompt.short
  obtain rfl := Option.some.inj next
  have bounded : (s.prompt.terminalInput c).1.termInIdx ≤ termInputBufsize-1 := by
    cases done : (editLine (if s.completed then [] else s.line) c).2 with
    | true =>
      rw [(types.complete done).1]
      exact short
    | false =>
      have := (types.partly done).short
      rw [(types.partly done).idx]
      exact Nat.le_of_lt this
  have complete : ∀ line c, (editLine line c).2 = true → (editLine line c).1 = line := by
    intro line c
    simp only [editLine]
    split_ifs <;> simp
  refine ⟨⟨types.returns,fun done => ?_,fun more => (types.partly more).shown,bounded⟩,types.ready,
    types.partly⟩
  simp only
  rw [complete _ _ done]
  exact (types.complete done).2

theorem prompt_termTmpIdx (s : Typing) : s.prompt.termTmpIdx = s.terminal.termTmpIdx := by
  unfold prompt
  split_ifs
  · exact Terminal.terminalProcess_termTmpIdx _
  · rfl

theorem prompt_inInt {intMax : ℕ} (h : s.terminal.InInt intMax) : s.prompt.InInt intMax := by
  rwa [Terminal.InInt,prompt_termTmpIdx]

/-- terminal_input does what the editor does, in every run without the UP key whose deletions meet a
character, or for 0x7F the counter at its start, and in which term_tmp_idx does not overflow. -/
theorem edits_run {intMax : ℕ} (int : 32767 ≤ intMax) (h : Run.Reach step (Met intMax) start s) :
    s.Agrees ∧ s.terminal.InInt intMax := by
  have first : start.terminal.InInt intMax := by
    simp only [Terminal.InInt,start,Terminal.start]
    omega
  have kept : s.Sound ∧ s.terminal.InInt intMax := by
    apply h.invariant (P := fun s => s.Sound ∧ s.terminal.InInt intMax) ⟨sound_start,first⟩
    rintro s c t ⟨sound,counted⟩ met next
    refine ⟨sound.step met next,?_⟩
    have ready := sound.prompt.ready
    obtain rfl := Option.some.inj next
    refine Terminal.terminalInput_inInt int (prompt_inInt counted) met.2.2 fun up => ?_
    have typed : (s.prompt.key c).2 = some c := by
      simp only [Terminal.key,ready,met.1,ne_eq,not_false_iff,if_true]
      split_ifs <;> rfl
    exact absurd (Option.some.inj (typed.symm.trans up)) met.1
  exact ⟨kept.1.agrees,kept.2⟩

theorem edits_example : ∃ s, Run.Reach step (Met 32767) start s ∧ s.Agrees ∧ s.line = [97] ∧
    s.completed := by
  obtain ⟨s,reach,shown⟩ := Run.exists_reach_of_exec step (Met 32767) start [97,98,8,0x7F,97,10]
    (fun s => s.line = [97] ∧ s.completed) (by decide)
  exact ⟨s,reach,(edits_run le_rfl reach).1,shown⟩

/-- A backspace on an empty line is stored. -/
theorem edits_fails : ∃ s, Run.Reach step (fun _ c => c ≠ upKeyChar) start s ∧ ¬ s.Agrees := by
  obtain ⟨s,reach,line,completed,stored⟩ := Run.exists_reach_of_exec step (fun _ c => c ≠ upKeyChar) start
    [8] (fun s => s.line = [] ∧ s.completed = false ∧ s.terminal.termIn.take s.terminal.termInIdx = [8])
    (by decide)
  refine ⟨s,reach,fun agrees => ?_⟩
  have kept := agrees.partly completed
  rw [stored,line] at kept
  contradiction

end Typing
end Brtos
