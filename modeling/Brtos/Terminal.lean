import Brtos.Library.Words

/-! The line editor and the prompt of terminal.c. Characters are bytes. The echo through
putchar_func, the callback input(c) and what a command does are left out. -/
namespace Brtos
open Words

def termInputBufsize : ℕ := 32
def charsToDiscard : ℕ := 1
def termArgsMaxCount : ℕ := 6

/-- (char)-32. -/
def upKeyChar : ℕ := 224

/-- The characters of " \t\r\n". -/
def isDelim (c : ℕ) : Bool := c == 32 || c == 9 || c == 13 || c == 10

/-- The static variables of terminal.c. `outside` records an access outside term_in or
last_term_in. term_tmp_idx is an int; `Counts` below says where its counting stays in range. -/
structure Terminal where
  termInIdx : ℕ
  termTmpIdx : ℤ
  discardChar : ℕ
  cpi : ℕ
  termIn : List ℕ
  lastTermIn : List ℕ
  outside : Bool
  deriving DecidableEq

/-! ### The C library -/

/-- The string that starts at `p`. -/
def cString (buf : List ℕ) (p : ℕ) : List ℕ := (buf.drop p).takeWhile fun c => c ≠ 0

def strspn (buf : List ℕ) (p : ℕ) : ℕ := ((buf.drop p).takeWhile isDelim).length

def strcspn (buf : List ℕ) (p : ℕ) : ℕ :=
  ((buf.drop p).takeWhile fun c => c ≠ 0 && !isDelim c).length

/-- What strtok returns and leaves behind, with the pointer that it keeps for its next call. -/
structure Strtok where
  token : Option ℕ
  buf : List ℕ
  save : ℕ
  outside : Bool
  deriving DecidableEq

def strtok (buf : List ℕ) (p : ℕ) : Strtok :=
  let start := p+strspn buf p
  if buf.getD start 0 = 0 then ⟨none,buf,start,decide (buf.length ≤ start)⟩
  else
    let stop := start+strcspn buf start
    if buf.getD stop 0 = 0 then ⟨some start,buf,stop,decide (buf.length ≤ stop)⟩
    else ⟨some start,buf.set stop 0,stop+1,false⟩

/-! ### terminal_input -/

namespace Terminal

def start : Terminal where
  termInIdx := 0
  termTmpIdx := 0
  discardChar := 0
  cpi := 0
  termIn := List.replicate termInputBufsize 0
  lastTermIn := List.replicate termInputBufsize 0
  outside := false

variable (s : Terminal)

def touch (i : ℕ) : Terminal :=
  { s with outside := s.outside || decide (termInputBufsize ≤ i) }

/-- `term_in[i] = c`. -/
def store (i c : ℕ) : Terminal := { s.touch i with termIn := s.termIn.set i c }

/-- The counting of a character that is not 0x7F. -/
def count (c : ℕ) : Terminal :=
  { s with
    termTmpIdx := if c ≠ 13 then if 0 ≤ s.termTmpIdx then s.termTmpIdx+1 else 1 else 0 }

/-- The first part of terminal_input: none when it returns, else the character to edit with. -/
def key (c : ℕ) : Terminal × Option ℕ :=
  if c ≠ 0x7F then
    if c ≠ upKeyChar then
      if s.discardChar = 0 then (s.count c,some c)
      else
        let s := { s with discardChar := s.discardChar-1 }
        if s.discardChar = 0 then (s.count upKeyChar,some upKeyChar) else (s,none)
    else ({ s with discardChar := charsToDiscard },none)
  else ({ s with termTmpIdx := s.termTmpIdx-1 },some c)

/-- The loop that copies last_term_in. -/
def upKeyLoop : ℕ → Terminal → Terminal
  | 0,s => s
  | n+1,s =>
    let s := s.store s.termInIdx (s.lastTermIn.getD s.termInIdx 0)
    upKeyLoop n { s with termInIdx := s.termInIdx+1, termTmpIdx := s.termTmpIdx+1 }

/-- The UP key. -/
def upKey : Terminal :=
  let s := { s with termInIdx := 0 }
  if s.lastTermIn.getD 0 0 ≠ 0 then
    let s := upKeyLoop (s.cpi+1) { s with termTmpIdx := 0 }
    let s := { s with termTmpIdx := s.termTmpIdx-1 }
    let s := s.store s.termInIdx 0
    { s with termInIdx := s.termInIdx-1 }
  else s

/-- The second part of terminal_input. -/
def edit (c : ℕ) : Terminal × ℕ :=
  if 0 ≤ s.termTmpIdx then
    if (c = 8 ∨ c = 0x7F) ∧ 0 < s.termInIdx then
      let s := s.store s.termInIdx 0
      ({ s with termInIdx := s.termInIdx-1 },0)
    else if c = upKeyChar then (s.upKey,0)
    else
      let s := s.store s.termInIdx c
      let s := { s with termInIdx := s.termInIdx+1 }
      if c = 10 ∨ c = 13 ∨ s.termInIdx = termInputBufsize-1 then (s.store (s.termInIdx-1) 0,1)
      else (s,0)
  else (s,0)

/-- terminal_input, behind the callback input(c) that it begins with. -/
def terminalInput (c : ℕ) : Terminal × ℕ :=
  match s.key c with
  | (s,none) => (s,0)
  | (s,some c) => s.edit c

/-- term_tmp_idx is in the range of an int. INT_MAX is at least 32767. -/
def InInt (intMax : ℕ) : Prop := -(intMax:ℤ)-1 ≤ s.termTmpIdx ∧ s.termTmpIdx ≤ intMax

/-- The counting of the byte does not overflow. -/
def Counts (intMax c : ℕ) : Prop :=
  (c = 0x7F → -(intMax:ℤ) ≤ s.termTmpIdx) ∧
    (c ≠ 0x7F → c ≠ upKeyChar → c ≠ 13 ∨ s.discardChar ≠ 0 → s.termTmpIdx < intMax)

instance (intMax c : ℕ) : Decidable (s.Counts intMax c) := inferInstanceAs (Decidable (_ ∧ _))

/-! ### terminal_process -/

/-- The pointers stored in argv, and the buffer they point into. -/
structure Command where
  argc : ℕ
  argv : List ℕ
  termIn : List ℕ
  deriving DecidableEq

/-- The arguments that a command gets. -/
def Command.args (r : Command) : List (List ℕ) := r.argv.map (cString r.termIn)

/-- The loop around strtok, with the entries of argv, the buffer and whether strtok left it. -/
def splitArgs : ℕ → List ℕ → ℕ → List ℕ × List ℕ × Bool
  | 0,buf,_ => ([],buf,true)
  | n+1,buf,p =>
    let r := strtok buf p
    match r.token with
    | none => ([],r.buf,r.outside)
    | some arg =>
      let rest := splitArgs n r.buf r.save
      (arg :: rest.1,rest.2.1,r.outside || rest.2.2)

/-- The loop that copies term_in into last_term_in. -/
def copyLoop : ℕ → Terminal → Terminal
  | 0,s => s
  | n+1,s =>
    let c := s.termIn.getD s.cpi 0
    let s := if c = 0 then s.touch (s.cpi+1) else s
    if c ≠ 0 ∨ s.termIn.getD (s.cpi+1) 0 ≠ 0 then
      let s := { s.touch s.cpi with lastTermIn := s.lastTermIn.set s.cpi (if c = 0 then 0x20 else c) }
      copyLoop n { s with cpi := s.cpi+1 }
    else s

def copyLast : Terminal :=
  let s := copyLoop (termInputBufsize+1) { s with cpi := 0 }
  { s.touch s.cpi with lastTermIn := s.lastTermIn.set s.cpi 0 }

/-- terminal_process, with the command that it calls. -/
def terminalProcess : Terminal × Option Command :=
  let idxStart := (s.termIn.takeWhile fun c => c == 32 || c == 9).length
  let r := splitArgs (termInputBufsize+1) s.termIn idxStart
  let s := { s.touch idxStart with termIn := r.2.1 }
  let s := { s with outside := s.outside || r.2.2 }
  let command := if r.1 = [] then none else some ⟨r.1.length%256,r.1,r.2.1⟩
  let s := if r.1 = [] then s else s.copyLast
  ({ s with termIn := List.replicate termInputBufsize 0, termInIdx := 0 },command)

end Terminal
end Brtos
