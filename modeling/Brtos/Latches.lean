import Brtos.Tokens
import Brtos.Waiting
import Brtos.Library.Counter

/-! Semaphores are counters that saturate: a counting one at 255, a binary one at one. -/
namespace Brtos
open Bitmap
open Counter (Signal)

namespace System
variable {cfg : Config} (s : System cfg)

/-- What a call does at a semaphore: a post finds a task waiting or not, a pend returns OK at once or
not. -/
def signalOf (i : ℕ) : Call → Option Signal
  | .semPost j =>
    if j = i then some (if (s.event (.sem i)).osEventWait = 0 then .put else .hand) else none
  | .semPend j w => if j = i then some (if (s.osSemPend i w).2 = .ret ok [] then .take else .miss) else none
  | _ => none

def signal (i : ℕ) : Action → Option Signal
  | .main c | .call c | .isrCall c => s.signalOf i c
  | _ => none

/-- The semaphore is deleted. -/
def Deletes (i : ℕ) : Action → Prop
  | .main c | .call c => c = .semDelete i ∧ (s.osSemDelete i).2 = .ret deleteEventOk []
  | _ => False

/-- What OSEventCount can come to. -/
def tokenLimit (binary : Bool) : ℕ := if binary then 1 else 255

/-- The control block of a semaphore with `c` tokens. -/
structure Metered (i : ℕ) (binary : Bool) (c : ℕ) : Prop where
  created : s.Created (.sem i)
  mode : (s.brtosSemTable i).binary = binary
  count : (s.brtosSemTable i).osEventCount = c
  limit : binary = true → c ≤ 1
  none_waits : 0 < c → (s.event (.sem i)).osEventWait = 0

variable {s} {t : System cfg} {i c : ℕ} {binary : Bool}

theorem Metered.next (h : s.Metered i binary c) {d : ℕ} (created : t.Created (.sem i))
    (table : t.brtosSemTable i = { s.brtosSemTable i with osEventCount := d })
    (limit : binary = true → d ≤ 1) (none_waits : 0 < d → (t.event (.sem i)).osEventWait = 0) :
    t.Metered i binary d where
  created := created
  mode := table ▸ h.mode
  count := table ▸ rfl
  limit := limit
  none_waits := none_waits

theorem Metered.same (h : s.Metered i binary c) (table : t.brtosSemTable i = s.brtosSemTable i)
    (event : t.event (.sem i) = s.event (.sem i)) : t.Metered i binary c :=
  h.next (created_of_event h.created event) (by rw [table,← h.count]) h.limit (event ▸ h.none_waits)

theorem osSemPost_overflow (reply : (s.osSemPost i).2 = .ret errSemOvf []) :
    (s.osSemPost i).1 = s.enterNesting.exitNesting ∧ (s.event (.sem i)).osEventWait = 0 ∧
      ¬ (s.brtosSemTable i).osEventCount < 255 := by
  simp only [Kernel.osSemPost,enterNesting_sem] at reply ⊢
  split_ifs at reply ⊢ with h1 h2 h3
  all_goals simp_all [errSemOvf,ok,errEventNoCreated]

/-- A post counts its token where nobody waits, as far as the counter goes. -/
theorem Metered.post (h : s.Metered i binary c) (kernel : t.toKernel = (s.osSemPost i).1) {g : Signal}
    (signal : s.signalOf i (.semPost i) = some g) :
    Counter.Fits c g ∧ t.Metered i binary (Counter.next (tokenLimit binary) c g) := by
  have post := postOf (i := i) (notCreated_of_created rfl h.created)
  rw [← kernel] at post
  simp only [signalOf,if_true,Option.some.injEq] at signal
  generalize hr : (s.osSemPost i).2 = r at post
  cases post with
  | wakes wait core table =>
    obtain rfl : Signal.hand = g := by rwa [if_neg wait] at signal
    have none_ : c = 0 := by
      by_contra hne
      exact wait (h.none_waits (Nat.pos_of_ne_zero hne))
    have created : t.Created (.sem i) := h.created.imp_right fun hc => by
      rw [core]
      exact (Kernel.wakeHighest_allocated _).trans hc
    exact ⟨none_,h.next created (by rw [table,← h.count]; rfl) h.limit fun some_ => absurd none_ some_.ne'⟩
  | counts alone room core table =>
    obtain rfl : Signal.put = g := by rwa [if_pos alone] at signal
    have event : t.event (.sem i) = s.event (.sem i) := by rw [core]
    have counted : Counter.next (tokenLimit binary) c .put =
        if (s.brtosSemTable i).binary then 1 else (s.brtosSemTable i).osEventCount+1 := by
      rw [h.mode,h.count]
      cases binary with
      | false => simp [Counter.next,tokenLimit,← h.count,room]
      | true =>
        have := h.limit rfl
        simp only [Counter.next,tokenLimit,if_true]
        split_ifs <;> omega
    refine ⟨trivial,h.next (created_of_event h.created event) (counted ▸ table) (fun hb => ?_)
      fun _ => event ▸ alone⟩
    rw [counted,h.mode,hb]
    exact le_rfl
  | full same =>
    obtain ⟨_,alone,full⟩ := osSemPost_overflow hr
    obtain rfl : Signal.put = g := by rwa [if_pos alone] at signal
    have counting : binary = false := by
      cases binary with
      | false => rfl
      | true =>
        have := h.limit rfl
        have := h.count
        omega
    have stays : Counter.next (tokenLimit binary) c .put = c := by
      rw [counting]
      exact if_neg (h.count ▸ full)
    rw [stays]
    exact ⟨trivial,h.same (by rw [same]; simp) (by rw [same]; simp)⟩

theorem osSemPend_some (created : s.notCreated (.sem i) = false) (calm : s.iNesting = 0) (w : ℕ)
    (some_ : 0 < (s.brtosSemTable i).osEventCount) : (s.osSemPend i w).2 = .ret ok [] := by
  have created' : s.osEnterCritical.notCreated (.sem i) = false := created
  have some_' : 0 < (s.osEnterCritical.brtosSemTable i).osEventCount := some_
  simp only [Kernel.osSemPend,calm,lt_irrefl,and_false,if_false,created',Bool.false_eq_true,some_',if_true]

/-- A pend takes a token, or it finds none. -/
theorem Metered.pend (h : s.Metered i binary c) (calm : s.iNesting = 0) (w : ℕ)
    (kernel : t.toKernel = (s.osSemPend i w).1) {g : Signal}
    (signal : s.signalOf i (.semPend i w) = some g) :
    Counter.Fits c g ∧ t.Metered i binary (Counter.next (tokenLimit binary) c g) := by
  have created := notCreated_of_created rfl h.created
  have pend := pendOf created calm w
  have taken := osSemPend_some created calm w
  rw [← kernel] at pend
  simp only [signalOf,if_true,Option.some.injEq] at signal
  generalize hr : (s.osSemPend i w).2 = r at pend signal taken
  have misses : r ≠ .ret ok [] → Signal.miss = g ∧ c = 0 := fun far => by
    refine ⟨by rwa [if_neg far] at signal,?_⟩
    by_contra hne
    exact far (taken (h.count ▸ Nat.pos_of_ne_zero hne))
  cases pend with
  | takes some_ core table =>
    obtain rfl : Signal.take = g := by rwa [if_pos rfl] at signal
    have event : t.event (.sem i) = s.event (.sem i) := by rw [core]
    rw [h.count] at table some_
    refine ⟨some_,h.next (created_of_event h.created event) table (fun hb => ?_) fun _ => ?_⟩
    · exact (Nat.sub_le c 1).trans (h.limit hb)
    · exact event ▸ h.none_waits some_
  | leaves core table =>
    obtain ⟨rfl,none_⟩ := misses (by simp [exitByNoEntryAvailable,ok])
    exact ⟨none_,h.same (by rw [table]) (by rw [core])⟩
  | sleeps none_ suspended =>
    obtain ⟨rfl,none_⟩ := misses (by simp)
    have table : t.brtosSemTable i = s.brtosSemTable i := by
      rw [suspended]
      exact sem_of_body ((Kernel.suspend_body _ _).trans (Kernel.body_of_cell Kernel.osEnterCritical_cell))
    have created : t.Created (.sem i) := h.created.imp_right fun hc => by
      rw [suspended]
      exact (Kernel.suspend_allocated _ w).trans hc
    exact ⟨none_,h.next created (by rw [table,← h.count]; rfl) h.limit fun some_ => absurd none_ some_.ne'⟩

/-- A task that runs again changes nothing. -/
theorem Metered.resume (h : s.Metered i binary c) (hs : View.Sound cfg s.view) {p w : ℕ}
    (point : s.point s.currentTask = .pend (.sem i) p w) (next : s.proceed = some t) :
    t.Metered i binary c := by
  unfold proceed at next
  simp only [point,Option.some.injEq] at next
  subst next
  have table := resumeSemPend_table (s := s) i p w
  have created : ((s.resumeSemPend i p w).1.event (.sem i)).osEventAllocated =
      (s.event (.sem i)).osEventAllocated := by
    rw [(resumeSemPend_core i p w).1]
    exact Kernel.wakeUp_allocated _ _ _
  refine h.next (h.created.imp_right created.trans) ?_ h.limit fun some_ => ?_
  · rw [← h.count]
    exact table
  · exact resumeSemPend_alone hs point (h.none_waits some_)

/-! ### Steps -/

theorem signalOf_some {call : Call} {g : Signal} (signal : s.signalOf i call = some g) :
    call = .semPost i ∨ ∃ w, call = .semPend i w := by
  cases call with
  | semPost j =>
    by_cases e : j = i
    · exact Or.inl (by rw [e])
    · simp [signalOf,e] at signal
  | semPend j w =>
    by_cases e : j = i
    · exact Or.inr ⟨w,by rw [e]⟩
    · simp [signalOf,e] at signal
  | _ => simp [signalOf] at signal

theorem signalOf_post : s.signalOf i (.semPost i) ≠ none := by simp [signalOf]

theorem signalOf_pend (w : ℕ) : s.signalOf i (.semPend i w) ≠ none := by simp [signalOf]

/-- A step that shows something is a post or a pend. -/
theorem Metered.shows (h : s.Metered i binary c) {a : Action} (next : s.step a = some t)
    {g : Signal} (signal : s.signal i a = some g) :
    Counter.Fits c g ∧ t.Metered i binary (Counter.next (tokenLimit binary) c g) := by
  cases a with
  | main call =>
    simp only [step] at next
    split_ifs at next with hg
    obtain rfl := Option.some.inj next
    rcases signalOf_some signal with rfl | ⟨w,rfl⟩
    · exact h.post (enter_toKernel none _) signal
    · simp [Call.fromMain] at hg
  | call call =>
    simp only [step] at next
    split_ifs at next with hg
    obtain rfl := Option.some.inj next
    rcases signalOf_some signal with rfl | ⟨w,rfl⟩
    · exact h.post (enter_toKernel _ _) signal
    · exact h.pend hg.1.2.1 w (enter_toKernel _ _) signal
  | isrCall call =>
    simp only [step] at next
    split_ifs at next with hg
    obtain rfl := Option.some.inj next
    rcases signalOf_some signal with rfl | ⟨w,rfl⟩
    · exact h.post (enter_toKernel none _) signal
    · simp [Call.fromIsr] at hg
  | _ => simp [System.signal] at signal

/-- Every other step leaves the semaphore alone, unless it deletes it. -/
theorem Metered.quiet (h : s.Metered i binary c) (inv : s.Inv) {a : Action} (next : s.step a = some t)
    (silent : s.signal i a = none) (kept : ¬ s.Deletes i a) : t.Metered i binary c := by
  have refused : (s.osSemDelete i).2 ≠ .ret deleteEventOk [] → ∀ who,
      (s.enter who (.semDelete i)).Metered i binary c := fun failed who => by
    have nested : 0 < s.iNesting := by
      by_contra calm
      simp [Kernel.osSemDelete,calm] at failed
    have kernel : (s.enter who (.semDelete i)).toKernel = s.toKernel := by
      rw [enter_toKernel]
      simp [Kernel.serve,Kernel.osSemDelete,nested]
    exact h.same (by rw [kernel]) (by rw [kernel])
  cases step_happens inv.dormant (.sem i) next with
  | quiet apart => exact h.same (sem_of_body (Kernel.body_of_cell apart.cell)) apart.event
  | main stopped from_ touches =>
    rcases touches_sem h.created touches with rfl | ⟨w,rfl⟩ | rfl
    · exact absurd silent signalOf_post
    · simp [Call.fromMain] at from_
    · exact refused (fun done => kept ⟨rfl,done⟩) none
  | call running awake user touches =>
    rcases touches_sem h.created touches with rfl | ⟨w,rfl⟩ | rfl
    · exact absurd silent signalOf_post
    · exact absurd silent (signalOf_pend w)
    · exact refused (fun done => kept ⟨rfl,done⟩) (some s.currentTask)
  | isr port from_ touches =>
    rcases touches_sem h.created touches with rfl | ⟨w,rfl⟩ | rfl
    · exact absurd silent signalOf_post
    · simp [Call.fromIsr] at from_
    · simp [Call.fromIsr] at from_
  | resume running point proceeds => exact h.resume inv.sound point proceeds
  | uart event => simp at event

/-! ### Releases -/

variable (s) in
/-- A post takes one task off the wait list, the one with the highest priority there, and makes no other
task ready. -/
structure Releases (i u : ℕ) : Prop where
  wakes : s.Wakes (s.osSemPost i).1 (.sem i) u
  list : ∃ p w, s.point u = .pend (.sem i) p w ∧ p ∈ bits (s.event (.sem i)).osEventWaitList ∧
    bits ((s.osSemPost i).1.event (.sem i)).osEventWaitList =
      (bits (s.event (.sem i)).osEventWaitList).erase p
  count : ((s.osSemPost i).1.event (.sem i)).osEventWait+1 = (s.event (.sem i)).osEventWait

theorem releases (hs : View.Sound cfg s.view) (created : s.Created (.sem i))
    (wait : (s.event (.sem i)).osEventWait ≠ 0) :
    (s.osSemPost i).2 = .ret ok [] ∧ ∃ u, s.Releases i u := by
  have exists_ := notCreated_of_created rfl created
  have found : s.Finds (.semPost i) (.sem i) := ⟨rfl,exists_,wait,trivial⟩
  have core := post_core found (by simp)
  obtain ⟨u,wakes⟩ := wakes_of_post hs found (by simp)
  obtain ⟨p,w,hu,mem⟩ := wakes.waits
  have some_ : (s.view.waiting (.sem i)).Nonempty := ⟨p,mem⟩
  have top := s.highestWaiting_isTop s.point s.inst s.held (.sem i) some_
  have woke := s.wakeHighest_view s.point s.inst s.held (.sem i) some_
  have same : p = s.highestWaiting (.sem i) := by
    obtain ⟨v,x,hv,_,_⟩ := hs.waiter top.1
    refine le_antisymm (top.2 p mem) ?_
    exact (wakes.top hv top.1).trans_eq (hs.pending (t := u) hu).2.1
  have event : (s.osSemPost i).1.event = (s.wakeHighest (.sem i)).event := congrArg Core.event core
  refine ⟨?_,u,wakes,⟨p,w,hu,mem,?_⟩,?_⟩
  · have post := postOf (i := i) exists_
    generalize hr : (s.osSemPost i).2 = r at post
    cases post with
    | full same => exact absurd (osSemPost_overflow hr).2.1 wait
    | _ => rfl
  · rw [event,same]
    exact (congrFun (congrArg View.waiting woke) _).trans (Function.update_self _ _ _)
  · have left : ((s.osSemPost i).1.event (.sem i)).osEventWait =
        ((s.event (.sem i)).osEventWait+255)%256 := by
      rw [event]
      exact (congrFun (congrArg View.count woke) _).trans (Function.update_self _ _ _)
    have few : (s.event (.sem i)).osEventWait ≤ 32 := (hs.count (.sem i)).trans_le (hs.card_le _)
    omega

/-! ### Creation -/

theorem osSemBinaryCreate_ok {bit : ℕ} (reply : (s.osSemBinaryCreate bit).2 = .ret allocEventOk [i]) :
    (s.osSemBinaryCreate bit).1 = ((s.enterTask.allocEvent (.sem i)).setSem i fun _ =>
      ⟨if bit > 1 then 1 else 0,true⟩).exitTask := by
  simp only [Kernel.osSemBinaryCreate] at reply ⊢
  by_cases nested : 0 < s.iNesting
  · simp [nested,irqPendErr,allocEventOk] at reply
  · simp only [nested,if_false] at reply ⊢
    cases found : s.enterTask.findEvent .sem cfg.brtosMaxSem with
    | none => simp [found,noAvailableEvent,allocEventOk] at reply
    | some j =>
      obtain rfl : j = i := by simpa [found] using reply
      rfl

theorem metered_of_made {b : BrtosSem} (limit : b.binary = true → b.osEventCount ≤ 1)
    (kernel : t.toKernel = ((s.enterTask.allocEvent (.sem i)).setSem i fun _ => b).exitTask) :
    t.Metered i b.binary b.osEventCount := by
  have table : t.brtosSemTable i = b := by
    refine Body.sem.inj (?_ : t.body (.sem i) = .sem b)
    rw [kernel,Kernel.body_of_cell Kernel.exitTask_cell]
    simp [Kernel.body,Kernel.setSem]
  refine ⟨Or.inr ?_,by rw [table],by rw [table],limit,fun _ => ?_⟩
  · rw [kernel]
    simp [Kernel.allocEvent,Kernel.setEvent]
  · rw [kernel]
    simp [Kernel.allocEvent,Kernel.setEvent]

theorem served_of_create {made : Record} (logs : s.Logs t made)
    (call : (∃ bit, made.call = .semBinaryCreate bit) ∨ ∃ cnt, made.call = .semCreate cnt) :
    (s.serve made.call).2 = .ret made.code made.data ∧ t.toKernel = (s.serve made.call).1 := by
  cases logs with
  | resumed hc =>
    rcases hc with ⟨w,hc⟩ | ⟨q,w,hc⟩
    · simp [hc] at call
    · cases q <;> simp [hc,Obj.pendCall] at call
  | uart hc =>
    obtain ⟨j,b,hc⟩ := hc
    simp [hc] at call
  | served reply next => exact ⟨reply,next ▸ enter_toKernel _ _⟩

theorem metered_of_binaryCreate {made : Record} {bit : ℕ} (logs : s.Logs t made)
    (call : made.call = .semBinaryCreate bit) (success : made.code = allocEventOk)
    (handle : made.data = [i]) : t.Metered i true (if bit > 1 then 1 else 0) := by
  obtain ⟨reply,kernel⟩ := served_of_create logs (Or.inl ⟨bit,call⟩)
  rw [call,success,handle] at reply
  rw [call] at kernel
  refine metered_of_made (s := s) (b := ⟨if bit > 1 then 1 else 0,true⟩) (fun _ => ?_)
    (kernel.trans (osSemBinaryCreate_ok reply))
  dsimp only
  split_ifs <;> decide

theorem metered_of_create {made : Record} {cnt : ℕ} (logs : s.Logs t made) (call : made.call = .semCreate cnt)
    (success : made.code = allocEventOk) (handle : made.data = [i]) : t.Metered i false cnt := by
  obtain ⟨reply,kernel⟩ := served_of_create logs (Or.inr ⟨cnt,call⟩)
  rw [call,success,handle] at reply
  rw [call] at kernel
  exact metered_of_made (s := s) (b := ⟨cnt,false⟩) (by simp) (kernel.trans (osSemCreate_ok reply).2)

/-! ### Runs -/

variable (s) in
/-- The runs in which semaphore `i` is not deleted, with what the calls show of it. -/
abbrev Shows (i : ℕ) : List Signal → System cfg → Prop :=
  Run.Signals step (fun s a => s.Allowed .restoring a ∧ ¬ s.Deletes i a) (fun s a => s.signal i a) s

variable (s) in
/-- What the next post to the semaphore does. -/
structure Posts (i : ℕ) (binary : Bool) : Prop where
  alone : (s.event (.sem i)).osEventWait = 0 → (s.osSemPost i).2 =
    .ret (if binary = true ∨ (s.brtosSemTable i).osEventCount < 255 then ok else errSemOvf) []
  waits : (s.event (.sem i)).osEventWait ≠ 0 → (s.osSemPost i).2 = .ret ok [] ∧ ∃ u, s.Releases i u

theorem Metered.posts (h : s.Metered i binary c) (hs : View.Sound cfg s.view) : s.Posts i binary where
  alone alone := by
    have post := postOf (i := i) (notCreated_of_created rfl h.created)
    generalize hr : (s.osSemPost i).2 = r at post
    cases post with
    | wakes wait => exact absurd alone wait
    | counts _ room => rw [if_pos (Or.inr room)]
    | full same =>
      have full := (osSemPost_overflow hr).2.2
      have counting : binary ≠ true := fun hb => by
        have := h.limit hb
        have := h.count
        omega
      rw [if_neg (not_or.mpr ⟨counting,full⟩)]
  waits wait := releases hs h.created wait

theorem Metered.run (h : s.Metered i binary c) (inv : s.Inv) {signals : List Signal}
    (run : s.Shows i signals t) : ∃ d, Counter.Counts (tokenLimit binary) c signals d ∧
      t.Inv ∧ t.Metered i binary d := by
  refine run.counts (R := fun t d => t.Inv ∧ t.Metered i binary d) ⟨inv,h⟩ ?_ ?_
  · rintro t u a d ⟨inv,h⟩ met next silent
    exact ⟨(step_inv View.Policy.restoring_safe inv trivial met.1 next).2,h.quiet inv next silent met.2⟩
  · rintro t u a d g ⟨inv,h⟩ met next signal
    obtain ⟨fits,kept⟩ := h.shows next signal
    exact ⟨fits,(step_inv View.Policy.restoring_safe inv trivial met.1 next).2,kept⟩

variable (s) in
/-- A new binary semaphore is a latch that starts as its argument says: of those that ask behind a post,
the first one gets its token and nobody else. -/
structure Latches (i bit : ℕ) : Prop where
  starts : (s.brtosSemTable i).osEventCount = 1 ↔ bit ≠ 0
  count {signals : List Signal} {t : System cfg} : s.Shows i signals t →
    (t.brtosSemTable i).osEventCount ≤ 1 ∧
      Counter.Counts 1 (if bit ≠ 0 then 1 else 0) signals (t.brtosSemTable i).osEventCount
  posts {signals : List Signal} {t : System cfg} : s.Shows i signals t → t.Posts i true
  once {before after : List Signal} {t : System cfg} : s.Shows i (before++.put :: after) t →
    .put ∉ after → Counter.asks after = [] ∨ ∃ k, Counter.asks after = true :: List.replicate k false

variable (s) in
/-- A new counting semaphore counts, whatever its control block was before. -/
structure CountsUp (i cnt : ℕ) : Prop where
  count {signals : List Signal} {t : System cfg} : s.Shows i signals t →
    Counter.Counts 255 cnt signals (t.brtosSemTable i).osEventCount
  posts {signals : List Signal} {t : System cfg} : s.Shows i signals t → t.Posts i false

/-- A binary semaphore is a latch exactly where it was not created with 1; the control block of a
counting one counts. -/
theorem latches_iff (run : Reaches .restoring (init cfg) s) {a : Action} (ok : s.Allowed .restoring a)
    (next : s.step a = some t) {made : Record} (log : t.log = made :: s.log)
    (success : made.code = allocEventOk) (handle : made.data = [i]) :
    (∀ bit, made.call = .semBinaryCreate bit → (t.Latches i bit ↔ bit ≠ 1)) ∧
      ∀ cnt, made.call = .semCreate cnt → t.CountsUp i cnt := by
  have inv : s.Inv := (run.inv View.Policy.restoring_safe trivial init_inv).2.1
  have inv' : t.Inv := (step_inv View.Policy.restoring_safe inv trivial ok next).2
  have logs : s.Logs t made := by
    rcases step_log next with same | ⟨r,more,logs⟩
    · simp [log] at same
    · obtain rfl := (List.cons.inj (log.symm.trans more)).1
      exact logs
  refine ⟨fun bit call => ⟨?_,fun far => ?_⟩,fun cnt call => ?_⟩
  · rintro latches rfl
    have start := (metered_of_binaryCreate logs call success handle).count
    rw [latches.starts.mpr Nat.one_ne_zero] at start
    simp at start
  · have start := metered_of_binaryCreate logs call success handle
    have bit_ : (if bit > 1 then 1 else 0) = if bit ≠ 0 then 1 else 0 := by
      split_ifs <;> omega
    rw [bit_] at start
    have small : (if bit ≠ 0 then 1 else 0) ≤ 1 := by split_ifs <;> decide
    refine ⟨?_,fun shows => ?_,fun shows => ?_,fun shows quiet => ?_⟩
    · rw [start.count]
      split_ifs <;> simp_all
    all_goals obtain ⟨d,counted,inv'',meter⟩ := start.run inv' shows
    · rw [meter.count]
      exact ⟨meter.limit rfl,counted⟩
    · exact meter.posts inv''.sound
    · exact (counted.once small rfl quiet).imp (·.1) (·.1)
  · have start := metered_of_create logs call success handle
    refine ⟨fun shows => ?_,fun shows => ?_⟩
    all_goals obtain ⟨d,counted,inv'',meter⟩ := start.run inv' shows
    · rw [meter.count]
      exact counted
    · exact meter.posts inv''.sound

/-- Created with 2, it is one. -/
theorem latches_example : ∃ t : System .port,
    t.log = [⟨none,.semBinaryCreate 2,allocEventOk,[0],0,false⟩] ∧ t.Latches 0 2 := by
  obtain ⟨t,next,log⟩ := Option.map_eq_some_iff.mp (show ((init .port).step
    (.main (.semBinaryCreate 2))).map log = some [⟨none,.semBinaryCreate 2,allocEventOk,[0],0,false⟩] by
      decide +kernel)
  exact ⟨t,log,((latches_iff .refl (by decide +kernel) next log rfl rfl).1 2 rfl).mpr (by decide)⟩

/-- Created with 1 it starts at zero. -/
theorem latches_fails : ∃ t : System .port, Reaches .restoring (init .port) t ∧
    t.log = [⟨none,.semBinaryCreate 1,allocEventOk,[0],0,false⟩] ∧ ¬ t.Latches 0 1 := by
  obtain ⟨t,run,log,zero⟩ := Run.exists_reach_of_exec step (fun s a => s.Allowed .restoring a) (init .port)
    [.main (.semBinaryCreate 1)] (fun t => t.log = [⟨none,.semBinaryCreate 1,allocEventOk,[0],0,false⟩] ∧
      (t.brtosSemTable 0).osEventCount = 0) (by decide +kernel)
  refine ⟨t,run,log,fun latches => ?_⟩
  have one := latches.starts.mpr Nat.one_ne_zero
  omega

end System
end Brtos
