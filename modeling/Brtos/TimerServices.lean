import Brtos.TimerLists
import Brtos.TimerTask
import Brtos.Frame

/-! What each service of stimer.c does when the counts of the lists are right, and when it breaks a
rule of the language instead. -/
namespace Brtos
open Heap TimerList

theorem due_congr {mem mem' : ℕ → Timer} (same : ∀ q, (mem q).timeout = (mem' q).timeout) :
    due mem = due mem' := by
  funext x
  exact same _

namespace TimerService
variable {cfg : Config} {s t : TimerService cfg} {l : TimerList} {p w n m : ℕ}

theorem array_iff {i : ℕ} : array cfg i = true ↔ i < cfg.brtosMaxTimer := by simp [array]

theorem within (fits : n < cfg.brtosMaxTimer) (i : ℕ) (_ : 1 ≤ i) (le : i ≤ n) : array cfg i = true :=
  array_iff.mpr (le.trans_lt fits)

/-- The list can take one more timer. -/
def HasRoom (cfg : Config) (l : TimerList) : Prop := l.count+1 < cfg.brtosMaxTimer ∧ l.count < 127

instance (l : TimerList) : Decidable (HasRoom cfg l) := inferInstanceAs (Decidable (_ ∧ _))

theorem hasRoom_iff (h : l.Filled n) : HasRoom cfg l ↔ n+1 < cfg.brtosMaxTimer ∧ n+1 ≤ 127 := by
  rw [HasRoom,h.count]
  omega

/-- The list that a timer for the next `w` ticks goes into. -/
def target (s : TimerService cfg) (w : ℕ) : TimerList :=
  if s.osTickCounter+w ≥ cfg.tickCountOverflow then s.future else s.current

/-- Without room an insertion leaves the array. -/
theorem insert_full (mem : ℕ → Timer) (p : ℕ) (h : l.Filled n) (full : ¬ HasRoom cfg l) :
    l.insert (array cfg) mem p = .error .bounds := by
  rw [hasRoom_iff h] at full
  apply insert_fault h
  have := h.small
  by_cases top : n = 127
  · exact Or.inr top
  · refine Or.inl ?_
    simp only [array,decide_eq_false_iff_not]
    omega

theorem insert_iff (mem : ℕ → Timer) (p : ℕ) (h : l.Filled n) :
    (∃ r, l.insert (array cfg) mem p = .ok r) ↔ HasRoom cfg l := by
  constructor
  · rintro ⟨r,hr⟩
    by_contra full
    simp [insert_full mem p h full] at hr
  · intro room
    obtain ⟨fits,small⟩ := (hasRoom_iff h).mp room
    exact ⟨_,insert_eq h (within fits) small p⟩

theorem insert_ok {mem : ℕ → Timer} {r : TimerList} (h : l.Filled n)
    (hr : l.insert (array cfg) mem p = .ok r) : n+1 < cfg.brtosMaxTimer ∧ Inserted mem l p n r := by
  obtain ⟨fits,small⟩ := (hasRoom_iff h).mp ((insert_iff mem p h).mp ⟨r,hr⟩)
  rw [insert_eq h (within fits) small p] at hr
  obtain rfl := Except.ok.inj hr
  exact ⟨fits,inserted h small p⟩

theorem Inserted.congr {mem mem' : ℕ → Timer} {r : TimerList} (h : Inserted mem l p n r)
    (same : due mem = due mem') : Inserted mem' l p n r := by
  obtain ⟨filled,items,ordered⟩ := h
  exact ⟨filled,items,same ▸ ordered⟩

/-! ### Starting a timer -/

/-- The control block of a timer started for `w` ticks. -/
def begun (s : TimerService cfg) (p w : ℕ) : Timer :=
  { s.mem p with timeout := s.deadline w, state := .running }

/-- What starting a timer changes: its control block, the list that it goes into, and the wake time
of the timer task if it has got the least deadline of the current list. -/
structure Launched (s : TimerService cfg) (p w : ℕ) (t : TimerService cfg) : Prop where
  mem : t.mem = Function.update s.mem p (s.begun p w)
  handlingTask : t.handlingTask = s.handlingTask
  late : s.osTickCounter+w ≥ cfg.tickCountOverflow →
    t.toKernel = s.toKernel ∧ t.current = s.current ∧
      ∀ m, s.future.Filled m → m+1 < cfg.brtosMaxTimer ∧ Inserted t.mem s.future p m t.future
  early : s.osTickCounter+w < cfg.tickCountOverflow →
    t.toKernel = (if s.currentTask ≠ 0 ∧ s.deadline w = due t.mem (t.current.timers 1) then
      s.setTimeToWait s.handlingTask (s.deadline w) else s.toKernel) ∧ t.future = s.future ∧
      ∀ n, s.current.Filled n → n+1 < cfg.brtosMaxTimer ∧ Inserted t.mem s.current p n t.current

theorem setDeadline_setState (v : ℕ) (x : TimerState) : ((s.setDeadline p v).setState p x).mem =
    Function.update s.mem p { s.mem p with timeout := v, state := x } := by
  simp [setDeadline,setState,setTimer]

theorem due_setState (x : TimerState) : due (s.setState p x).mem = due s.mem := by
  apply due_congr
  intro q
  by_cases here : q = p
  · subst here
    simp [setState,setTimer]
  · simp [setState,setTimer,here]

theorem due_setDeadline_self (v : ℕ) : due (s.setDeadline p v).mem (some p) = v := by
  simp [setDeadline,setTimer]

theorem wake_eq (current : s.current.Filled n) (pos : 1 ≤ n) (fits : n < cfg.brtosMaxTimer) :
    s.wake p = .ok { s with toKernel :=
      (if s.currentTask ≠ 0 ∧ (s.mem p).timeout = due s.mem (s.current.timers 1) then
        s.setTimeToWait s.handlingTask (s.mem p).timeout else s.toKernel) } := by
  obtain ⟨q,hq⟩ := Option.isSome_iff_exists.mp ((current.some_iff 1).mpr ⟨le_rfl,pos⟩)
  unfold wake
  by_cases task : s.currentTask ≠ 0
  · rw [if_pos task,get_ok (within fits 1 le_rfl pos) hq,ok_bind,hq,due_some]
    by_cases least : (s.mem p).timeout = (s.mem q).timeout
    · rw [if_pos least,if_pos ⟨task,least⟩]
      rfl
    · rw [if_neg least,if_neg fun go => least go.2]
  · rw [if_neg task,if_neg fun go => task go.1]

theorem launch_zero : s.launch p 0 = .ok s := rfl

theorem launch_ok (current : s.current.Filled n) (future : s.future.Filled m) (pos : 0 < w)
    (h : s.launch p w = .ok t) : Launched s p w t := by
  simp only [launch,if_pos pos] at h
  by_cases late : s.osTickCounter+w ≥ cfg.tickCountOverflow
  · have d : s.deadline w = (s.osTickCounter+w-cfg.tickCountOverflow)%(cfg.maxTimer+1) := by
      simp only [Kernel.deadline,if_pos late]
    rw [if_pos late,← d] at h
    obtain ⟨r,hr,ht⟩ := bind_eq_ok.mp h
    obtain rfl := Except.ok.inj ht
    have list : (s.setDeadline p (s.deadline w)).future.Filled m := future
    obtain ⟨fits,inserted⟩ := insert_ok list hr
    refine ⟨setDeadline_setState _ _,rfl,fun _ => ⟨rfl,rfl,fun m' future' => ?_⟩,fun early => ?_⟩
    · obtain rfl := future'.count_unique future
      exact ⟨fits,Inserted.congr inserted (due_setState (s := { s.setDeadline p (s.deadline w) with
        future := r }) _).symm⟩
    · omega
  · have d : s.deadline w = (s.osTickCounter+w)%(cfg.maxTimer+1) := by
      simp only [Kernel.deadline,if_neg late]
    rw [if_neg late,← d] at h
    obtain ⟨r,hr,h⟩ := bind_eq_ok.mp h
    have list : (s.setDeadline p (s.deadline w)).current.Filled n := current
    obtain ⟨fits,inserted⟩ := insert_ok list hr
    rw [wake_eq (n := n+1) inserted.filled (by omega) fits,ok_bind] at h
    obtain rfl := Except.ok.inj h
    have self : ((s.setDeadline p (s.deadline w)).mem p).timeout = s.deadline w :=
      due_setDeadline_self _
    have same : ∀ k : Kernel cfg, due (setState { s.setDeadline p (s.deadline w) with
        current := r, toKernel := k } p .running).mem = due (s.setDeadline p (s.deadline w)).mem :=
      fun k => due_setState (s := { s.setDeadline p (s.deadline w) with current := r, toKernel := k }) _
    refine ⟨setDeadline_setState _ _,rfl,fun late' => absurd late' late,
      fun _ => ⟨?_,rfl,fun n' current' => ?_⟩⟩
    · change (if s.currentTask ≠ 0 ∧ ((s.setDeadline p (s.deadline w)).mem p).timeout = _ then
        s.setTimeToWait s.handlingTask ((s.setDeadline p (s.deadline w)).mem p).timeout
        else s.toKernel) = if s.currentTask ≠ 0 ∧ _ = due (setState _ p .running).mem _ then _ else _
      rw [self]
      exact congrArg (fun d => if s.currentTask ≠ 0 ∧ s.deadline w = d (r.timers 1) then _ else _)
        (same _).symm
    · obtain rfl := current'.count_unique current
      exact ⟨fits,Inserted.congr inserted (same _).symm⟩

theorem launch_iff (current : s.current.Filled n) (future : s.future.Filled m) :
    (∃ t, s.launch p w = .ok t) ↔ w = 0 ∨ HasRoom cfg (s.target w) := by
  rcases Nat.eq_zero_or_pos w with rfl | pos
  · exact iff_of_true ⟨s,rfl⟩ (Or.inl rfl)
  rw [or_iff_right (by omega)]
  unfold target
  simp only [launch,if_pos pos]
  split_ifs with late
  · rw [← insert_iff (s.setDeadline p ((s.osTickCounter+w-cfg.tickCountOverflow)%(cfg.maxTimer+1))).mem p
      future]
    constructor
    · rintro ⟨t,h⟩
      obtain ⟨r,hr,_⟩ := bind_eq_ok.mp h
      exact ⟨r,hr⟩
    · rintro ⟨r,hr⟩
      exact ⟨_,bind_eq_ok.mpr ⟨r,hr,rfl⟩⟩
  · have list : (s.setDeadline p ((s.osTickCounter+w)%(cfg.maxTimer+1))).current.Filled n := current
    rw [← insert_iff (s.setDeadline p ((s.osTickCounter+w)%(cfg.maxTimer+1))).mem p current]
    constructor
    · rintro ⟨t,h⟩
      obtain ⟨r,hr,_⟩ := bind_eq_ok.mp h
      exact ⟨r,hr⟩
    · rintro ⟨r,hr⟩
      obtain ⟨fits,inserted⟩ := insert_ok list hr
      have woken := wake_eq (s := { s.setDeadline p ((s.osTickCounter+w)%(cfg.maxTimer+1)) with
        current := r }) (p := p) inserted.filled (by omega) fits
      exact ⟨_,bind_eq_ok.mpr ⟨r,hr,bind_eq_ok.mpr ⟨_,woken,rfl⟩⟩⟩

theorem launch_full (current : s.current.Filled n) (future : s.future.Filled m) (pos : 0 < w)
    (full : ¬ HasRoom cfg (s.target w)) : s.launch p w = .error .bounds := by
  unfold target at full
  simp only [launch,if_pos pos]
  split_ifs at full ⊢ with late
  · exact congrArg (· >>= _) (insert_full _ p future full)
  · exact congrArg (· >>= _) (insert_full _ p current full)

/-! ### OSTimerSet -/

/-- A control block that the search of OSTimerSet passes. -/
def Taken (s : TimerService cfg) (i : ℕ) : Prop :=
  (s.mem i).state ≠ .notAllocated ∧ (s.mem i).state ≠ .notUsed

/-- What the search has seen when it ends. -/
def Scanned (s : TimerService cfg) : Except ℕ ℕ → Prop
  | .ok p => p < cfg.brtosMaxTimer ∧ (s.mem p).state = .notUsed ∧ ∀ i < p, s.Taken i
  | .error code => code = noAvailableEvent ∧ (∀ i < cfg.brtosMaxTimer, s.Taken i) ∨
    code = errEventNoCreated ∧
      ∃ p < cfg.brtosMaxTimer, (s.mem p).state = .notAllocated ∧ ∀ i < p, s.Taken i

theorem findTimer_ok {f i : ℕ} {r : Except ℕ ℕ} (before : ∀ j < i, s.Taken j)
    (h : s.findTimer f i = .ok r) : s.Scanned r := by
  induction f generalizing i with
  | zero => simp [findTimer] at h
  | succ f ih =>
    rw [findTimer] at h
    split_ifs at h with past dead free
    · obtain rfl := Except.ok.inj h
      exact Or.inl ⟨rfl,fun j lt => before j (by omega)⟩
    · obtain rfl := Except.ok.inj h
      exact Or.inr ⟨rfl,i,by omega,dead,before⟩
    · obtain rfl := Except.ok.inj h
      exact ⟨by omega,free,before⟩
    · apply ih _ h
      intro j lt
      have := Nat.mod_le (i+1) 256
      rcases Nat.lt_succ_iff_lt_or_eq.mp (show j < i+1 by omega) with lt | rfl
      · exact before j lt
      · exact ⟨dead,free⟩

theorem findTimer_total (small : cfg.brtosMaxTimer ≤ 255) {f i : ℕ} (le : i ≤ cfg.brtosMaxTimer)
    (fuel : cfg.brtosMaxTimer+1 ≤ i+f) : ∃ r, s.findTimer f i = .ok r := by
  induction f generalizing i with
  | zero => omega
  | succ f ih =>
    rw [findTimer]
    split_ifs with past dead free
    · exact ⟨_,rfl⟩
    · exact ⟨_,rfl⟩
    · exact ⟨_,rfl⟩
    · rw [Nat.mod_eq_of_lt (by omega)]
      exact ih (by omega) (by omega)

/-- The service in OSTimerSet, when it has taken the control block. -/
def created (s : TimerService cfg) (p : ℕ) (cb : Option ℕ) : TimerService cfg :=
  (s.onKernel Kernel.enterTask).setTimer p fun t => { t with state := .stopped, funcCb := cb }

theorem findTimer_onKernel (f : Kernel cfg → Kernel cfg) (n i : ℕ) :
    (s.onKernel f).findTimer n i = s.findTimer n i := by
  induction n generalizing i with
  | zero => rfl
  | succ n ih =>
    rw [findTimer,findTimer,ih]
    rfl

theorem osTimerSet_eq (s : TimerService cfg) (cb w : ℕ) : s.osTimerSet true (some cb) w = (do
    match ← s.findTimer 256 0 with
    | .error code => .ok ((s.onKernel Kernel.enterTask).onKernel Kernel.exitTask,.ret code [])
    | .ok p => do
      let u ← (s.created p (some cb)).launch p w
      .ok (u.onKernel Kernel.exitTask,.ret ok [p])) := by
  simp only [osTimerSet,findTimer_onKernel]
  rfl

theorem osTimerSet_ok {cbp : Bool} {cb : Option ℕ} {r : Reply} (h : s.osTimerSet cbp cb w = .ok (t,r)) :
    (∃ code, r = .ret code [] ∧ code ≠ ok ∧ t.shell = s.shell ∧ t.mem = s.mem ∧
      t.current = s.current ∧ t.future = s.future ∧ t.handlingTask = s.handlingTask) ∨
    ∃ p u, cb ≠ none ∧ s.findTimer 256 0 = .ok (.ok p) ∧ r = .ret ok [p] ∧
      (s.created p cb).launch p w = .ok u ∧ t = u.onKernel Kernel.exitTask := by
  unfold osTimerSet at h
  split_ifs at h with bad
  · obtain ⟨rfl,rfl⟩ := Prod.mk.inj (Except.ok.inj h)
    exact Or.inl ⟨nullEventPointer,rfl,by decide,rfl,rfl,rfl,rfl,rfl⟩
  · simp only [findTimer_onKernel] at h
    obtain ⟨found,hf,h⟩ := bind_eq_ok.mp h
    cases found with
    | error code =>
      obtain ⟨rfl,rfl⟩ := Prod.mk.inj (Except.ok.inj h)
      refine Or.inl ⟨code,rfl,?_,(Kernel.exitTask_shell _).trans s.toKernel.enterTask_shell,rfl,rfl,rfl,
        rfl⟩
      rcases findTimer_ok (by simp) hf with ⟨rfl,_⟩ | ⟨rfl,_⟩ <;> decide
    | ok p =>
      obtain ⟨u,hu,h⟩ := bind_eq_ok.mp h
      obtain ⟨rfl,rfl⟩ := Prod.mk.inj (Except.ok.inj h)
      exact Or.inr ⟨p,u,fun none => bad (Or.inl none),hf,rfl,hu,rfl⟩

/-! ### OSTimerStart -/

theorem osTimerStart_ok {r : Reply} {q : Option ℕ} (h : s.osTimerStart q w = .ok (t,r)) :
    t = s ∧ r = .ret nullEventPointer [] ∧ (q = none ∨ w = 0) ∨
    ∃ p u, q = some p ∧ 0 < w ∧ r = .ret ok [] ∧
      (s.onKernel Kernel.enterTask).launch p (min w (timerMaxCounter cfg)) = .ok u ∧
      t = u.onKernel Kernel.exitTask := by
  cases q with
  | none =>
    obtain ⟨rfl,rfl⟩ := Prod.mk.inj (Except.ok.inj h)
    exact Or.inl ⟨rfl,rfl,Or.inl rfl⟩
  | some p =>
    by_cases zero : w = 0
    · rw [osTimerStart,if_pos zero] at h
      obtain ⟨rfl,rfl⟩ := Prod.mk.inj (Except.ok.inj h)
      exact Or.inl ⟨rfl,rfl,Or.inr zero⟩
    · rw [osTimerStart,if_neg zero] at h
      have clamp : (if w > timerMaxCounter cfg then timerMaxCounter cfg else w) =
          min w (timerMaxCounter cfg) := by split_ifs <;> omega
      simp only [clamp] at h
      obtain ⟨u,hu,h⟩ := bind_eq_ok.mp h
      obtain ⟨rfl,rfl⟩ := Prod.mk.inj (Except.ok.inj h)
      exact Or.inr ⟨p,u,rfl,by omega,rfl,hu,rfl⟩

/-! ### OSTimerStop -/

/-- The control block of a timer that was stopped. -/
def ended (s : TimerService cfg) (p del : ℕ) : Timer :=
  if del > 0 then ⟨none,0,.notAllocated⟩ else { s.mem p with timeout := 0, state := .stopped }

/-- A list of `n` entries when its entry `i` was moved up and the first entry removed. -/
def without (mem : ℕ → Timer) (l : TimerList) (i n : ℕ) : TimerList :=
  sunk mem (beheaded { l with timers := up (due mem) 8 l.timers i } n) (n-1)

/-- What stopping the timer at entry `i` of `n` changes. -/
structure Stopped (s : TimerService cfg) (p del i n : ℕ) (t : TimerService cfg) : Prop where
  mem : t.mem = Function.update s.mem p (s.ended p del)
  kernel : t.toKernel = s.enterTask.exitTask
  handlingTask : t.handlingTask = s.handlingTask
  ahead : (s.mem p).timeout ≥ s.osTickCounter →
    t.current = without t.mem s.current i n ∧ t.future = s.future
  passed : (s.mem p).timeout < s.osTickCounter →
    t.current = s.current ∧ t.future = without t.mem s.future i n

theorem without_congr {mem mem' : ℕ → Timer} (same : due mem = due mem') (l : TimerList) (i n : ℕ) :
    without mem l i n = without mem' l i n := by
  simp only [without,sunk,same]

theorem release_frame (s : TimerService cfg) (p del : ℕ) : (s.release p del).toKernel = s.toKernel ∧
    (s.release p del).current = s.current ∧ (s.release p del).future = s.future ∧
    (s.release p del).handlingTask = s.handlingTask := by
  unfold release
  split_ifs <;> exact ⟨rfl,rfl,rfl,rfl⟩

theorem setDeadline_setState' (s : TimerService cfg) (p : ℕ) :
    (((s.onKernel Kernel.enterTask).setState p .search).setDeadline p 0).mem =
      Function.update s.mem p { s.mem p with timeout := 0, state := .search } := by
  simp [setDeadline,setState,setTimer,onKernel]

theorem release_mem {u : TimerService cfg} {del : ℕ}
    (h : u.mem = Function.update s.mem p { s.mem p with timeout := 0, state := .search }) :
    (u.release p del).mem = Function.update s.mem p (s.ended p del) := by
  unfold release ended
  split_ifs <;> simp [setState,setTimer,h]

theorem enterTask_counter (k : Kernel cfg) : k.enterTask.osTickCounter = k.osTickCounter :=
  Kernel.osTickCounter_of_vital (Kernel.vital_of_shell k.enterTask_shell)

theorem guess_enter (p : ℕ) : (s.onKernel Kernel.enterTask).guess p = s.guess p := by
  unfold guess
  rw [show (s.onKernel Kernel.enterTask).osTickCounter = s.osTickCounter from enterTask_counter _]
  rfl

theorem search_mark (settled : ∀ q, (s.mem q).state ≠ .search) (p q : ℕ) :
    ((s.setState p .search).mem q).state = .search ↔ q = p := by
  by_cases here : q = p
  · subst here
    simp [setState,setTimer]
  · simp [setState,setTimer,here,settled q]

theorem without_eq {inside : ℕ → Bool} (mem : ℕ → Timer) {i : ℕ} (h : l.Filled n)
    (covers : ∀ j, 1 ≤ j → j ≤ n → inside j) (pos : 1 ≤ i) (le : i ≤ n) :
    (do let l ← l.subir inside mem 8 i
        let l ← l.removeFirst inside
        l.reorder inside mem) = .ok (without mem l i n) := by
  have small := h.small
  have moved := h.of_shuffles ((up_shuffles (due mem) 8 l.timers i).mono le)
  rw [subir_eq (fun j hj hji => (h.some_iff j).mpr ⟨hj,by omega⟩) (fun j hj hji => covers j hj (by omega))
    pos (by omega),ok_bind,removeFirst_eq moved (by omega) covers,ok_bind]
  exact reorder_eq (moved.pop (by omega)) fun j hj hjn => covers j hj (by omega)

theorem osTimerStop_iff {inside : ℕ → Bool} (del : ℕ) (list : (s.guess p).Filled n)
    (settled : ∀ q, (s.mem q).state ≠ .search) (covers : ∀ j, 1 ≤ j → j ≤ n → inside j) :
    (∃ r, s.osTimerStopWithin inside (some p) del = .ok r) ↔ some p ∈ (s.guess p).items := by
  obtain ⟨i,hi,found⟩ := position_spec list covers (search_mark (s := s.onKernel Kernel.enterTask)
    settled p) (f := 129) (k := 1) (by have := list.small; omega) le_rfl (by omega) (by intros; omega)
  simp only [osTimerStopWithin,guess_enter,hi,ok_bind]
  rcases found with ⟨pos,le,he⟩ | ⟨rfl,absent⟩
  · refine iff_of_true ?_ (list.mem_items.mpr ⟨i,pos,le,he⟩)
    have done := without_eq (((s.onKernel Kernel.enterTask).setState p .search).setDeadline p 0).mem
      list covers pos le
    obtain ⟨l₁,h₁,done⟩ := bind_eq_ok.mp done
    obtain ⟨l₂,h₂,h₃⟩ := bind_eq_ok.mp done
    exact ⟨_,bind_eq_ok.mpr ⟨l₁,h₁,bind_eq_ok.mpr ⟨l₂,h₂,bind_eq_ok.mpr ⟨_,h₃,rfl⟩⟩⟩⟩
  · refine iff_of_false ?_ absent
    rintro ⟨r,h⟩
    obtain ⟨l₁,h₁,h⟩ := bind_eq_ok.mp h
    obtain ⟨l₂,h₂,h⟩ := bind_eq_ok.mp h
    obtain ⟨l₃,h₃,_⟩ := bind_eq_ok.mp h
    rcases Nat.eq_zero_or_pos n with rfl | pos
    · rw [subir,if_neg (by omega)] at h₁
      obtain rfl := Except.ok.inj h₁
      exact remove_fault list h₂ h₃
    · exact subir_null (by omega) (list.isNone (by omega)) l₁ h₁

/-- The end of OSTimerStop, when it has put the list back. -/
theorem release_stopped {u : TimerService cfg} {del i : ℕ}
    (mem : u.mem = Function.update s.mem p { s.mem p with timeout := 0, state := .search })
    (kernel : u.toKernel = s.enterTask) (task : u.handlingTask = s.handlingTask)
    (current : u.current =
      ((s.onKernel Kernel.enterTask).setGuess p (without u.mem (s.guess p) i n)).current)
    (future : u.future =
      ((s.onKernel Kernel.enterTask).setGuess p (without u.mem (s.guess p) i n)).future) :
    Stopped s p del i n ((u.release p del).onKernel Kernel.exitTask) := by
  obtain ⟨kernel',current',future',task'⟩ := release_frame u p del
  have final : (u.release p del).mem = _ := release_mem mem
  have same : due u.mem = due (u.release p del).mem := by
    apply due_congr
    intro q
    rw [mem,final]
    by_cases here : q = p
    · subst here
      simp only [Function.update_self,ended]
      split_ifs <;> rfl
    · simp [here]
  have counter : (s.onKernel Kernel.enterTask).osTickCounter = s.osTickCounter := enterTask_counter _
  rw [without_congr same] at current future
  have deadline : ((s.onKernel Kernel.enterTask).mem p).timeout = (s.mem p).timeout := rfl
  refine ⟨final,?_,task'.trans task,fun ahead => ?_,fun passed => ?_⟩
  · exact congrArg Kernel.exitTask (kernel'.trans kernel)
  · simp only [setGuess,guess,counter,deadline,if_pos ahead] at current future
    exact ⟨current'.trans current,future'.trans future⟩
  · have back : ¬ (s.mem p).timeout ≥ s.osTickCounter := by omega
    simp only [setGuess,guess,counter,deadline,if_neg back] at current future
    exact ⟨current'.trans current,future'.trans future⟩

theorem osTimerStop_ok {inside : ℕ → Bool} {del : ℕ} {r : Reply} (list : (s.guess p).Filled n)
    (settled : ∀ q, (s.mem q).state ≠ .search) (covers : ∀ j, 1 ≤ j → j ≤ n → inside j)
    (h : s.osTimerStopWithin inside (some p) del = .ok (t,r)) :
    r = .ret ok [] ∧ ∃ i, 1 ≤ i ∧ i ≤ n ∧ (s.guess p).timers i = some p ∧ Stopped s p del i n t := by
  have member := (osTimerStop_iff del list settled covers).mp ⟨_,h⟩
  obtain ⟨i,hi,found⟩ := position_spec list covers (search_mark (s := s.onKernel Kernel.enterTask)
    settled p) (f := 129) (k := 1) (by have := list.small; omega) le_rfl (by omega) (by intros; omega)
  obtain ⟨pos,le,he⟩ : 1 ≤ i ∧ i ≤ n ∧ (s.guess p).timers i = some p :=
    found.resolve_right fun absent => absent.2 member
  simp only [osTimerStopWithin,guess_enter,hi,ok_bind] at h
  have done := without_eq (((s.onKernel Kernel.enterTask).setState p .search).setDeadline p 0).mem
    list covers pos le
  obtain ⟨l₁,h₁,h⟩ := bind_eq_ok.mp h
  obtain ⟨l₂,h₂,h⟩ := bind_eq_ok.mp h
  obtain ⟨l₃,h₃,h⟩ := bind_eq_ok.mp h
  rw [h₁,ok_bind,h₂,ok_bind,h₃] at done
  obtain rfl := Except.ok.inj done
  obtain ⟨rfl,rfl⟩ := Prod.mk.inj (Except.ok.inj h)
  refine ⟨rfl,i,pos,le,he,?_⟩
  exact release_stopped (setDeadline_setState' s p) rfl rfl rfl rfl

/-! ### The end of an iteration of the timer task -/

theorem first_ok {q : Option ℕ} (h : s.first = .ok q) :
    1 < cfg.brtosMaxTimer ∧ q = s.current.timers 1 := by
  unfold first TimerList.read at h
  split_ifs at h with inside
  exact ⟨array_iff.mp inside,(Except.ok.inj h).symm⟩

theorem first_eq (fits : 1 < cfg.brtosMaxTimer) : s.first = .ok (s.current.timers 1) :=
  read_ok (array_iff.mpr fits)

theorem proceed_eq (current : s.current.Filled n) (fits : n < cfg.brtosMaxTimer)
    (two : 1 < cfg.brtosMaxTimer) : s.proceed = .ok (({ s with
      current := sunk s.mem s.current n } : TimerService cfg).onKernel Kernel.osExitCritical,
      (sunk s.mem s.current n).timers 1) := by
  rw [proceed,reorder_eq current (within fits),ok_bind]
  exact congrArg (fun x : Except Fault (Option ℕ) => x >>= _)
    (first_eq (s := { s with current := sunk s.mem s.current n }) two)

theorem proceed_ok {q : Option ℕ} (current : s.current.Filled n) (fits : n < cfg.brtosMaxTimer)
    (h : s.proceed = .ok (t,q)) : 1 < cfg.brtosMaxTimer ∧ t = ({ s with
      current := sunk s.mem s.current n } : TimerService cfg).onKernel Kernel.osExitCritical ∧
      q = t.current.timers 1 := by
  have two : 1 < cfg.brtosMaxTimer := by
    unfold proceed at h
    obtain ⟨l,_,h⟩ := bind_eq_ok.mp h
    obtain ⟨q,hq,_⟩ := bind_eq_ok.mp h
    exact (first_ok hq).1
  rw [proceed_eq current fits two] at h
  obtain ⟨rfl,rfl⟩ := Prod.mk.inj (Except.ok.inj h)
  exact ⟨two,rfl,rfl⟩

/-- What the end of a callback changes: the timer is retired, or moved to the future list, or stays
where it is with a new deadline. -/
structure Dispatched (s : TimerService cfg) (behind : Bool) (p again : ℕ) (t : TimerService cfg)
    (q : Option ℕ) : Prop where
  two : 1 < cfg.brtosMaxTimer
  next : q = t.current.timers 1
  kernel : t.toKernel = s.osEnterCritical.osExitCritical
  handlingTask : t.handlingTask = s.handlingTask
  retired : again = 0 → t.mem = Function.update s.mem p ⟨none,0,.notAllocated⟩ ∧ t.future = s.future
  armed : 0 < again →
    t.mem = Function.update s.mem p { s.mem p with timeout := (s.rearmed behind again).1 }
  moved : 0 < again → (s.rearmed behind again).2 = true → ∀ m, s.future.Filled m →
    m+1 < cfg.brtosMaxTimer ∧ Inserted t.mem s.future p m t.future
  stayed : 0 < again → (s.rearmed behind again).2 = false → t.future = s.future ∧
    ∀ n, s.current.Filled n → t.current = sunk t.mem s.current n
  removed : again = 0 ∨ (s.rearmed behind again).2 = true → ∀ n, s.current.Filled n →
    1 ≤ n ∧ Removed t.mem s.current n t.current

/-- The removal of the first entry in a service that goes on with `proceed`. -/
theorem removeFirst_proceed {l : TimerList} {q : Option ℕ} (current : s.current.Filled n)
    (fits : n < cfg.brtosMaxTimer) (hl : s.current.removeFirst (array cfg) = .ok l)
    (h : ({ s with current := l } : TimerService cfg).proceed = .ok (t,q)) :
    1 ≤ n ∧ 1 < cfg.brtosMaxTimer ∧ q = t.current.timers 1 ∧ t = ({ s with
      current := sunk s.mem (beheaded s.current n) (n-1) } : TimerService cfg).onKernel
        Kernel.osExitCritical := by
  rcases Nat.eq_zero_or_pos n with rfl | pos
  · unfold proceed at h
    obtain ⟨l',hl',_⟩ := bind_eq_ok.mp h
    exact absurd hl' (remove_fault current hl)
  · rw [removeFirst_eq current pos (within fits)] at hl
    obtain rfl := Except.ok.inj hl
    obtain ⟨two,ht,hq⟩ := proceed_ok (s := { s with current := beheaded s.current n })
      (current.pop pos) (by omega) h
    exact ⟨pos,two,hq,ht⟩

theorem dispatch_ok {behind : Bool} {again : ℕ} {q : Option ℕ} (current : s.current.Filled n)
    (future : s.future.Filled m) (fits : n < cfg.brtosMaxTimer)
    (h : s.dispatch behind p again = .ok (t,q)) : Dispatched s behind p again t q := by
  simp only [dispatch] at h
  rcases Nat.eq_zero_or_pos again with rfl | pos
  · rw [if_neg (by omega)] at h
    obtain ⟨u,hu,h⟩ := bind_eq_ok.mp h
    obtain ⟨l,hl,hu⟩ := bind_eq_ok.mp hu
    obtain rfl := Except.ok.inj hu
    obtain ⟨positive,two,hq,rfl⟩ := removeFirst_proceed (s := (s.onKernel
      Kernel.osEnterCritical).setTimer p fun _ => ⟨none,0,.notAllocated⟩) current fits hl h
    refine ⟨two,hq,rfl,rfl,fun _ => ⟨rfl,rfl⟩,by omega,by omega,by omega,fun _ n' h' => ?_⟩
    obtain rfl := h'.count_unique current
    exact ⟨positive,TimerList.removed _ current positive⟩
  · rw [if_pos pos] at h
    obtain ⟨u,hu,h⟩ := bind_eq_ok.mp h
    have d : (s.onKernel Kernel.osEnterCritical).rearmed behind again = s.rearmed behind again := rfl
    simp only [rearm,d] at hu
    cases moves : (s.rearmed behind again).2 with
    | true =>
      rw [if_pos moves] at hu
      obtain ⟨l₁,h₁,hu⟩ := bind_eq_ok.mp hu
      obtain ⟨l₂,h₂,hu⟩ := bind_eq_ok.mp hu
      obtain rfl := Except.ok.inj hu
      obtain ⟨room,inserted⟩ := insert_ok (l := s.future) future h₁
      obtain ⟨positive,two,hq,rfl⟩ := removeFirst_proceed (s := { ((s.onKernel
        Kernel.osEnterCritical).setDeadline p (s.rearmed behind again).1) with future := l₁ }) current
        fits h₂ h
      refine ⟨two,hq,rfl,rfl,by omega,fun _ => rfl,fun _ _ m' h' => ?_,fun _ no => by simp [moves] at no,
        fun _ n' h' => ?_⟩
      · obtain rfl := h'.count_unique future
        exact ⟨room,inserted⟩
      · obtain rfl := h'.count_unique current
        exact ⟨positive,TimerList.removed _ current positive⟩
    | false =>
      rw [if_neg (by simp [moves])] at hu
      obtain rfl := Except.ok.inj hu
      obtain ⟨two,rfl,hq⟩ := proceed_ok (s := (s.onKernel Kernel.osEnterCritical).setDeadline p
        (s.rearmed behind again).1) current fits h
      refine ⟨two,hq,rfl,rfl,by omega,fun _ => rfl,fun _ yes => by simp [moves] at yes,
        fun _ _ => ⟨rfl,fun n' h' => ?_⟩,fun yes => by simp [moves] at yes; omega⟩
      obtain rfl := h'.count_unique current
      rfl

theorem dispatch_iff (behind : Bool) (p again : ℕ) (current : s.current.Filled n)
    (future : s.future.Filled m) (fits : n < cfg.brtosMaxTimer) :
    (∃ r, s.dispatch behind p again = .ok r) ↔ 1 < cfg.brtosMaxTimer ∧
      (again = 0 ∨ (s.rearmed behind again).2 = true → 1 ≤ n) ∧
      (0 < again → (s.rearmed behind again).2 = true → HasRoom cfg s.future) := by
  constructor
  · rintro ⟨⟨t,q⟩,h⟩
    have d := dispatch_ok current future fits h
    refine ⟨d.two,fun leaves => (d.removed leaves n current).1,fun pos moves => ?_⟩
    obtain ⟨room,inserted⟩ := d.moved pos moves m future
    exact (hasRoom_iff future).mpr ⟨room,inserted.filled.small⟩
  · rintro ⟨two,leaves,room⟩
    simp only [dispatch]
    rcases Nat.eq_zero_or_pos again with rfl | pos
    · have positive := leaves (Or.inl rfl)
      rw [if_neg (by omega)]
      have gone := removeFirst_eq current positive (within fits)
      exact ⟨_,bind_eq_ok.mpr ⟨_,bind_eq_ok.mpr ⟨_,gone,rfl⟩,
        proceed_eq (n := n-1) (current.pop positive) (by omega) two⟩⟩
    · rw [if_pos pos]
      have d : (s.onKernel Kernel.osEnterCritical).rearmed behind again = s.rearmed behind again := rfl
      simp only [rearm,d]
      cases moves : (s.rearmed behind again).2 with
      | true =>
        have positive := leaves (Or.inr moves)
        obtain ⟨l,hl⟩ := (insert_iff ((s.onKernel Kernel.osEnterCritical).setDeadline p
          (s.rearmed behind again).1).mem p future).mpr (room pos moves)
        have gone := removeFirst_eq current positive (within fits)
        rw [if_pos rfl]
        exact ⟨_,bind_eq_ok.mpr ⟨_,bind_eq_ok.mpr ⟨l,hl,bind_eq_ok.mpr ⟨_,gone,rfl⟩⟩,
          proceed_eq (n := n-1) (current.pop positive) (by omega) two⟩⟩
      | false =>
        rw [if_neg (by simp)]
        exact ⟨_,bind_eq_ok.mpr ⟨_,rfl,proceed_eq (n := n) current fits two⟩⟩

end TimerService
end Brtos
