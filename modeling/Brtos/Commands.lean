import Brtos.Library.Bisection
import Brtos.Terminal
import Brtos.Timers

/-! The commands of terminal.c: the binary search in the static table, the list of the commands that
terminal_add_cmd has added, and the choice that terminal_process makes. -/
namespace Brtos
open Bisection

/-- strcmp, which compares bytes. The shorter one of two strings comes first. -/
def strcmp : List ℕ → List ℕ → ℤ
  | [],[] => 0
  | [],_::_ => -1
  | _::_,[] => 1
  | a::s,b::t => if a = b then strcmp s t else if a < b then -1 else 1

/-- An entry of cmds. Functions are known by numbers. -/
structure Cmd where
  cmdFunc : ℕ
  cmdName : List ℕ
  deriving DecidableEq

structure DCmd where
  cmdFunc : ℕ
  cmdName : List ℕ
  cmdDescription : List ℕ
  next : Option ℕ
  deriving DecidableEq

/-- The table, the head of the list and the dcmd_t blocks by their addresses. -/
structure Commands where
  cmds : List Cmd
  cmdHead : Option ℕ
  block : ℕ → DCmd

namespace Commands
variable (s : Commands)

def numberOfCommands : ℕ := s.cmds.length

/-- An access to cmds, none outside. -/
def cmd (i : ℤ) : Option Cmd := if 0 ≤ i then s.cmds[i.toNat]? else none

/-- The loop of search_cmd over cmds: none when it does not end within the fuel or leaves the table, else
the index returned or none. -/
def searchLoop (c : List ℕ) : ℕ → ℤ → ℤ → Option (Option ℤ)
  | 0,_,_ => none
  | fuel+1,inf,sup =>
    if inf ≤ sup then
      let meio := int8 (uint8 ((inf+sup) >>> (1 : ℕ)))
      (s.cmd meio).bind fun entry =>
        if strcmp entry.cmdName c < 0 then searchLoop c fuel (int8 (uint8 (meio+1))) sup
        else if 0 < strcmp entry.cmdName c then searchLoop c fuel inf (int8 (uint8 (meio-1)))
        else some (some meio)
    else some none

/-- Its loop over the list. -/
def listLoop (c : List ℕ) : ℕ → Option ℕ → ℕ → Option (Option ℕ)
  | _,none,_ => some none
  | 0,some _,_ => none
  | fuel+1,some p,idx =>
    if strcmp (s.block p).cmdName c = 0 then some (some idx)
    else listLoop c fuel (s.block p).next ((idx+1)%256)

def searchCmd (fuel : ℕ) (c : List ℕ) : Option ℕ :=
  (s.searchLoop c fuel 0 (int8 (s.numberOfCommands-1))).bind fun found =>
    match found with
    | some meio => some (uint8 meio)
    | none => (s.listLoop c fuel s.cmdHead (s.numberOfCommands%256)).map fun idx => idx.getD 0

/-- `while(idx) { cmd_p = cmd_p->next; idx--; }`, none when it reads through NULL. -/
def walkLoop : ℕ → Option ℕ → Option (Option ℕ)
  | 0,p => some p
  | _+1,none => none
  | idx+1,some p => walkLoop idx (s.block p).next

/-- The function that terminal_process calls for the name in argv[0]. -/
def dispatch (fuel : ℕ) (name : List ℕ) : Option ℕ :=
  (s.searchCmd fuel name).bind fun c =>
    if c < s.numberOfCommands then (s.cmd c).map fun entry => entry.cmdFunc
    else (s.walkLoop (c-s.numberOfCommands) s.cmdHead).bind fun p => p.map fun p => (s.block p).cmdFunc

/-- The loop of terminal_add_cmd. -/
def lastLoop : ℕ → ℕ → Option ℕ
  | 0,_ => none
  | fuel+1,p =>
    match (s.block p).next with
    | none => some p
    | some q => lastLoop fuel q

def link (fuel handler : ℕ) : Option Commands :=
  match s.cmdHead with
  | none => some { s with cmdHead := some handler }
  | some p => (s.lastLoop fuel p).map fun q =>
      { s with block := Function.update s.block q { s.block q with next := some handler } }

/-- The arguments of a terminal_add_cmd. -/
structure Added where
  handler : ℕ
  cmd : ℕ
  name : List ℕ
  description : List ℕ
  deriving DecidableEq

def terminalAddCmd (fuel : ℕ) (a : Added) : Option Commands :=
  (s.link fuel a.handler).map fun s =>
    { s with block := Function.update s.block a.handler ⟨a.cmd,a.name,a.description,none⟩ }

end Commands

/-- The tables in question. An array of C has an entry. -/
structure Table where
  cmds : List Cmd
  pos : 0 < cmds.length
  few : cmds.length ≤ 127
  sorted : cmds.Pairwise fun a b => strcmp a.cmdName b.cmdName < 0

/-- The function for a name: that of the static command, else of the first one added, else of the first
entry. -/
def chosen (table : Table) (added : List Commands.Added) (name : List ℕ) : ℕ :=
  match table.cmds.find? fun x => x.cmdName = name with
  | some x => x.cmdFunc
  | none =>
    match added.find? fun x => x.name = name with
    | some x => x.cmd
    | none => (table.cmds.get ⟨0,table.pos⟩).cmdFunc

/-! ### Strings -/

theorem strcmp_self (s : List ℕ) : strcmp s s = 0 := by
  induction s with
  | nil => rfl
  | cons a s ih => simpa [strcmp] using ih

theorem strcmp_neg {s t : List ℕ} : strcmp s t < 0 ↔ s < t := by
  induction s generalizing t with
  | nil => cases t <;> simp [strcmp]
  | cons a s ih =>
    cases t with
    | nil => simp [strcmp]
    | cons b t =>
      rw [strcmp,List.cons_lt_cons_iff]
      split_ifs with same less
      · simp [same,ih]
      · simp [less]
      · simp [less,same]

theorem strcmp_pos {s t : List ℕ} : 0 < strcmp s t ↔ t < s := by
  induction s generalizing t with
  | nil => cases t <;> simp [strcmp]
  | cons a s ih =>
    cases t with
    | nil => simp [strcmp]
    | cons b t =>
      rw [strcmp,List.cons_lt_cons_iff]
      split_ifs with same less
      · simp [same,ih]
      · have : ¬ b < a := by omega
        simp [this,Ne.symm same]
      · have : b < a := by omega
        simp [this]

theorem strcmp_eq_zero {s t : List ℕ} : strcmp s t = 0 ↔ s = t := by
  constructor
  · intro zero
    have notLess : ¬ s < t := fun h => by have := strcmp_neg.mpr h; omega
    have notMore : ¬ t < s := fun h => by have := strcmp_pos.mpr h; omega
    exact le_antisymm (not_lt.mp notMore) (not_lt.mp notLess)
  · rintro rfl
    exact strcmp_self s

/-! ### The static table -/

theorem int8_uint8 {x : ℤ} (ge : -128 ≤ x) (lt : x < 128) : int8 (uint8 x) = x := by
  rw [int8,uint8]
  omega

/-- How the name of each entry compares with the one looked for. -/
def signs (cmds : List Cmd) (c : List ℕ) (i : ℕ) : ℤ := (cmds[i]?).elim 1 fun x => strcmp x.cmdName c

theorem signs_of_lt {cmds : List Cmd} {i : ℕ} (c : List ℕ) (h : i < cmds.length) :
    signs cmds c i = strcmp cmds[i].cmdName c := by
  simp [signs,h]

theorem Table.ascending (table : Table) (c : List ℕ) :
    Ascending (signs table.cmds c) table.cmds.length := by
  intro i j lt hj le
  have hi : i < table.cmds.length := lt.trans hj
  rw [signs_of_lt c hi]
  rw [signs_of_lt c hj] at le
  have earlier := strcmp_neg.mp (List.pairwise_iff_getElem.mp table.sorted i j hi hj lt)
  have notMore : ¬ c < table.cmds[j].cmdName := fun h => by
    have := strcmp_pos.mpr h
    omega
  exact strcmp_neg.mpr (earlier.trans_le (not_lt.mp notMore))

namespace Commands
variable {s : Commands} {table : Table} {c : List ℕ} {fuel : ℕ}

theorem searchLoop_spec (same : s.cmds = table.cmds) {inf sup : ℤ}
    (brackets : Brackets (signs table.cmds c) table.cmds.length inf sup) (long : sup-inf+1 < fuel) :
    (∃ i < table.cmds.length, signs table.cmds c i = 0 ∧ s.searchLoop c fuel inf sup = some (some (i : ℤ))) ∨
      (∀ i < table.cmds.length, signs table.cmds c i ≠ 0) ∧ s.searchLoop c fuel inf sup = some none := by
  have few := table.few
  have ascending := table.ascending c
  induction fuel generalizing inf sup with
  | zero =>
    have := brackets.le
    omega
  | succ fuel ih =>
    rw [searchLoop]
    split_ifs with le
    · obtain ⟨ge,le',pos,lt⟩ := brackets.mid le
      have shift : (inf+sup) >>> (1 : ℕ) = (inf+sup)/2 := by rw [Int.shiftRight_eq_div_pow]; rfl
      obtain ⟨j,hj⟩ := Int.eq_ofNat_of_zero_le pos
      have inside : j < table.cmds.length := by omega
      have entry : s.cmd j = some table.cmds[j] := by simp [cmd,same,inside]
      have sign := signs_of_lt c inside
      rw [shift,hj,int8_uint8 (by omega) (by omega)]
      simp only [entry,Option.bind_some,← sign]
      split_ifs with small large
      · rw [int8_uint8 (by omega) (by omega)]
        exact ih (brackets.right ascending inside (by omega) small) (by omega)
      · rw [int8_uint8 (by omega) (by omega)]
        exact ih (brackets.left ascending inside (by omega) large) (by omega)
      · exact Or.inl ⟨j,inside,by omega,rfl⟩
    · exact Or.inr ⟨fun i hi => brackets.empty (by omega) hi,rfl⟩

/-! ### The list of the commands added -/

/-- The links from `p` lead through the blocks of these commands to NULL. -/
def Listed (block : ℕ → DCmd) : Option ℕ → List Added → Prop
  | p,[] => p = none
  | p,a :: l => p = some a.handler ∧
      ∃ next, block a.handler = ⟨a.cmd,a.name,a.description,next⟩ ∧ Listed block next l

theorem listLoop_spec {l : List Added} {p : Option ℕ} {idx : ℕ} (listed : Listed s.block p l)
    (long : l.length ≤ fuel) (small : idx+l.length < 256) :
    s.listLoop c fuel p idx = some ((l.findIdx? fun x => x.name = c).map fun i => idx+i) := by
  induction l generalizing p idx fuel with
  | nil =>
    obtain rfl := listed
    cases fuel <;> rfl
  | cons a l ih =>
    obtain ⟨rfl,next,block,rest⟩ := listed
    rw [List.length_cons] at long small
    obtain ⟨fuel,rfl⟩ := Nat.exists_eq_add_one_of_ne_zero (by omega : fuel ≠ 0)
    rw [listLoop,block,List.findIdx?_cons]
    by_cases here : a.name = c
    · simp [here,strcmp_self]
    · rw [if_neg (by simpa [strcmp_eq_zero] using here),Nat.mod_eq_of_lt (by omega),
        ih rest (by omega) (by omega)]
      simp [here,Option.map_map,Function.comp_def,Nat.add_assoc,Nat.add_comm 1]

theorem walkLoop_spec {l : List Added} {p : Option ℕ} {i : ℕ} (listed : Listed s.block p l)
    (lt : i < l.length) : s.walkLoop i p = some (some l[i].handler) ∧
      (s.block l[i].handler).cmdFunc = l[i].cmd := by
  induction l generalizing p i with
  | nil => simp at lt
  | cons a l ih =>
    obtain ⟨rfl,next,block,rest⟩ := listed
    cases i with
    | zero => exact ⟨rfl,by simp [block]⟩
    | succ i =>
      rw [walkLoop,block]
      exact ih rest (by simpa using lt)

theorem lastLoop_spec {a : Added} {l : List Added} (listed : Listed s.block (some a.handler) (a :: l))
    (long : l.length < fuel) : s.lastLoop fuel a.handler = some ((a :: l).getLast (by simp)).handler := by
  induction l generalizing a fuel with
  | nil =>
    obtain ⟨fuel,rfl⟩ := Nat.exists_eq_add_one_of_ne_zero (by omega : fuel ≠ 0)
    obtain ⟨-,next,block,rfl⟩ := listed
    simp [lastLoop,block]
  | cons b l ih =>
    rw [List.length_cons] at long
    obtain ⟨fuel,rfl⟩ := Nat.exists_eq_add_one_of_ne_zero (by omega : fuel ≠ 0)
    obtain ⟨-,next,block,rest⟩ := listed
    obtain rfl := rest.1
    simp only [lastLoop,block]
    rw [ih rest (by omega)]
    simp

/-- Other blocks do not matter. -/
theorem Listed.congr {block block' : ℕ → DCmd} {l : List Added} {p : Option ℕ} (listed : Listed block p l)
    (same : ∀ x ∈ l, block' x.handler = block x.handler) : Listed block' p l := by
  induction l generalizing p with
  | nil => exact listed
  | cons a l ih =>
    obtain ⟨head,next,here,rest⟩ := listed
    exact ⟨head,next,(same a List.mem_cons_self).trans here,
      ih rest fun x hx => same x (List.mem_cons_of_mem _ hx)⟩

/-- The stores of terminal_add_cmd put the new block behind the last one. -/
theorem Listed.add {block : ℕ → DCmd} {b : Added} {l : List Added} {p : Option ℕ} (a : Added)
    (listed : Listed block p (b :: l)) (nodup : ((b :: l).map Added.handler).Nodup)
    (fresh : a.handler ∉ (b :: l).map Added.handler) :
    let q := ((b :: l).getLast (by simp)).handler
    Listed (Function.update (Function.update block q { block q with next := some a.handler }) a.handler
      ⟨a.cmd,a.name,a.description,none⟩) p (b :: l ++ [a]) := by
  induction l generalizing b p with
  | nil =>
    obtain ⟨head,next,here,-⟩ := listed
    have other : b.handler ≠ a.handler := fun e => fresh (by simp [e])
    refine ⟨head,some a.handler,?_,rfl,none,Function.update_self _ _ _,rfl⟩
    simp [Function.update_of_ne other,here]
  | cons d l ih =>
    obtain ⟨head,next,here,rest⟩ := listed
    rw [List.map_cons,List.nodup_cons] at nodup
    have first : b.handler ≠ a.handler := fun e => fresh (by simp [e])
    have last : b.handler ≠ ((d :: l).getLast (by simp)).handler := fun e =>
      nodup.1 (e ▸ List.mem_map_of_mem (List.getLast_mem _))
    refine ⟨head,next,?_,ih rest nodup.2 fun mem => fresh (List.mem_cons_of_mem _ mem)⟩
    simpa [Function.update_of_ne first,List.getLast_cons,Function.update_of_ne last] using here

theorem link_spec {l : List Added} (listed : Listed s.block s.cmdHead l) (a : Added)
    (nodup : (l.map Added.handler).Nodup) (fresh : a.handler ∉ l.map Added.handler)
    (long : l.length ≤ fuel) : ∃ t, s.link fuel a.handler = some t ∧ t.cmds = s.cmds ∧
      Listed (Function.update t.block a.handler ⟨a.cmd,a.name,a.description,none⟩) t.cmdHead (l ++ [a]) := by
  cases l with
  | nil =>
    have head : s.cmdHead = none := listed
    exact ⟨{ s with cmdHead := some a.handler },by simp only [link,head],rfl,rfl,none,
      Function.update_self _ _ _,rfl⟩
  | cons b l =>
    have head := listed.1
    have last := lastLoop_spec (head ▸ listed) (long : l.length < fuel)
    let q := ((b :: l).getLast (by simp)).handler
    exact ⟨{ s with block := Function.update s.block q { s.block q with next := some a.handler } },
      by simp only [link,head,last,Option.map_some,q],rfl,listed.add a nodup fresh⟩

theorem terminalAddCmd_spec {l : List Added} (listed : Listed s.block s.cmdHead l) (a : Added)
    (nodup : (l.map Added.handler).Nodup) (fresh : a.handler ∉ l.map Added.handler)
    (long : l.length ≤ fuel) : ∃ t, s.terminalAddCmd fuel a = some t ∧ t.cmds = s.cmds ∧
      Listed t.block t.cmdHead (l ++ [a]) := by
  obtain ⟨t,links,same,more⟩ := link_spec listed a nodup fresh long
  exact ⟨{ t with block := _ },Option.map_eq_some_iff.mpr ⟨t,links,rfl⟩,same,more⟩

/-- terminal_add_cmd once for each command. -/
def addCmds (fuel : ℕ) : Commands → List Added → Option Commands
  | s,[] => some s
  | s,a :: l => (s.terminalAddCmd fuel a).bind fun s => addCmds fuel s l

theorem addCmds_spec {l added : List Added} (listed : Listed s.block s.cmdHead l)
    (nodup : ((l ++ added).map Added.handler).Nodup) (long : l.length+added.length ≤ fuel) :
    ∃ t, addCmds fuel s added = some t ∧ t.cmds = s.cmds ∧ Listed t.block t.cmdHead (l ++ added) := by
  induction added generalizing s l with
  | nil => exact ⟨s,rfl,rfl,by simpa using listed⟩
  | cons a added ih =>
    rw [List.length_cons] at long
    have parts := nodup
    rw [List.map_append,List.nodup_append] at parts
    obtain ⟨u,adds,same,more⟩ := terminalAddCmd_spec listed a parts.1
      (fun mem => parts.2.2 _ mem _ (by simp) rfl) (show l.length ≤ fuel by omega)
    obtain ⟨t,rest,same',all⟩ := ih more (by simpa using nodup) (by simp; omega)
    exact ⟨t,by rw [addCmds,adds,Option.bind_some,rest],same'.trans same,by simpa using all⟩

/-! ### The choice -/

theorem searchCmd_spec (same : s.cmds = table.cmds) {added : List Added}
    (listed : Listed s.block s.cmdHead added) (total : table.cmds.length+added.length < 256)
    (enough : 256 ≤ fuel) (name : List ℕ) :
    (∃ i, ∃ h : i < table.cmds.length, table.cmds[i].cmdName = name ∧ s.searchCmd fuel name = some i) ∨
      (∀ x ∈ table.cmds, x.cmdName ≠ name) ∧ s.searchCmd fuel name =
        some (((added.findIdx? fun x => x.name = name).map fun i => table.cmds.length+i).getD 0) := by
  have few := table.few
  have pos := table.pos
  have limit : int8 ((s.numberOfCommands : ℤ)-1) = table.cmds.length-1 := by
    rw [numberOfCommands,same]
    rw [int8]
    omega
  have number : s.numberOfCommands%256 = table.cmds.length := by
    rw [numberOfCommands,same]
    omega
  rw [searchCmd,limit,number]
  rcases searchLoop_spec same (brackets_all (signs table.cmds name) _)
      (show (table.cmds.length : ℤ)-1-0+1 < fuel by omega) with
    ⟨i,hi,zero,found⟩ | ⟨absent,none_⟩
  · rw [signs_of_lt name hi] at zero
    refine Or.inl ⟨i,hi,strcmp_eq_zero.mp zero,?_⟩
    simp only [found,Option.bind_some,uint8]
    congr 1
    omega
  · refine Or.inr ⟨fun x mem same => ?_,?_⟩
    · obtain ⟨i,hi,rfl⟩ := List.getElem_of_mem mem
      exact absent i hi (by rw [signs_of_lt name hi,strcmp_eq_zero.mpr same])
    · simp only [none_,Option.bind_some,listLoop_spec listed (by omega : added.length ≤ fuel) total,
        Option.map_some]

/-- For every table, every list of commands added and every name, search_cmd ends and terminal_process
calls the function of the command chosen. -/
theorem dispatch_chosen (table : Table) {added : List Added} (distinct : (added.map Added.handler).Nodup)
    (total : table.cmds.length+added.length < 256) (block : ℕ → DCmd) (name : List ℕ)
    (enough : 256 ≤ fuel) : ∃ s, addCmds fuel ⟨table.cmds,none,block⟩ added = some s ∧
      s.dispatch fuel name = some (chosen table added name) := by
  obtain ⟨s,adds,same,listed⟩ := addCmds_spec
    (show Listed (Commands.mk table.cmds none block).block none [] from rfl) (by simpa using distinct)
    (show 0+added.length ≤ fuel by omega)
  rw [List.nil_append] at listed
  refine ⟨s,adds,?_⟩
  have count : s.numberOfCommands = table.cmds.length := by rw [numberOfCommands,same]
  have entry : ∀ i (h : i < table.cmds.length), s.cmd i = some table.cmds[i] := fun i h => by
    simp [cmd,same,h]
  rw [dispatch,chosen,count]
  rcases searchCmd_spec same listed total enough name with ⟨i,hi,here,found⟩ | ⟨absent,found⟩
  · have first : table.cmds.find? (fun x => x.cmdName = name) = some table.cmds[i] := by
      rw [List.find?_eq_some_iff_getElem]
      refine ⟨by simpa using here,i,hi,rfl,fun j lt => ?_⟩
      have less := List.pairwise_iff_getElem.mp table.sorted j i (lt.trans hi) hi lt
      simp only [Bool.not_eq_true',decide_eq_false_iff_not]
      intro again
      rw [again,here,strcmp_self] at less
      omega
    rw [found,Option.bind_some,if_pos hi,entry i hi,first]
    rfl
  · have none_ : table.cmds.find? (fun x => x.cmdName = name) = none := by
      simpa [List.find?_eq_none] using absent
    rw [found,none_,Option.bind_some]
    cases index : added.findIdx? fun x => x.name = name with
    | none =>
      have nowhere : added.find? (fun x => x.name = name) = none := by
        simpa [List.find?_eq_none,List.findIdx?_eq_none_iff] using index
      simp only [Option.map_none,Option.getD_none,if_pos table.pos,nowhere]
      rw [show s.cmd ((0 : ℕ) : ℤ) = _ from entry 0 table.pos]
      rfl
    | some i =>
      obtain ⟨hi,here,earlier⟩ := List.findIdx?_eq_some_iff_getElem.mp index
      have first : added.find? (fun x => x.name = name) = some added[i] :=
        List.find?_eq_some_iff_getElem.mpr ⟨here,i,hi,rfl,fun j lt => by simpa using earlier j lt⟩
      obtain ⟨walk,func⟩ := walkLoop_spec listed hi
      simp only [Option.map_some,Option.getD_some,first]
      rw [if_neg (by omega),Nat.add_sub_cancel_left,walk]
      simp [func]

/-- The table of terminal_cfg.h (help, runst, top and ver) with ps and log added. -/
theorem dispatch_example : ∃ s, addCmds 256 ⟨[⟨1,[104,101,108,112]⟩,⟨2,[114,117,110,115,116]⟩,
    ⟨3,[116,111,112]⟩,⟨4,[118,101,114]⟩],none,fun _ => ⟨0,[],[],none⟩⟩
      [⟨16,7,[112,115],[]⟩,⟨32,8,[108,111,103],[]⟩] = some s ∧ s.dispatch 256 [108,111,103] = some 8 :=
  dispatch_chosen ⟨_,by decide,by decide,by decide⟩ (by decide) (by decide) _ _ le_rfl

end Commands

end Brtos
