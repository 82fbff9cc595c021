import Brtos.Tokens

/-! The messages of a mailbox: each one is the message of one post, and as long as no message for a
waiting task is overwritten or missing when the task runs again, each one reaches one pend. -/
namespace Brtos
open Bitmap

namespace Record

/-- The message of a post that has returned OK. -/
def sent (i : ℕ) (r : Record) : Option ℕ :=
  match r.call with
  | .mboxPost j m => if j = i ∧ r.code = ok then some m else none
  | _ => none

/-- What a pend that has returned OK has stored for its caller. -/
def got (i : ℕ) (r : Record) : Option (List ℕ) :=
  match r.call with
  | .mboxPend j _ => if j = i ∧ r.code = ok then some r.data else none
  | _ => none

/-- The message with the number `g` has been returned by this pend. -/
def took (i g : ℕ) (r : Record) : Bool := (r.got i).isSome && r.tag == g

def mboxDeleted (i : ℕ) (r : Record) : Bool := r.call == .mboxDelete i && r.code == deleteEventOk

theorem plain_far {i : ℕ} {r : Record} (h : r.call.target ≠ some (.mbox i)) :
    r.got i = none ∧ r.sent i = none := by
  constructor
  · unfold got
    split
    · rename_i j w e
      refine if_neg fun hj => h ?_
      rw [e,hj.1]
      rfl
    · rfl
  · unfold sent
    split
    · rename_i j m e
      refine if_neg fun hj => h ?_
      rw [e,hj.1]
      rfl
    · rfl

end Record

/-- How often the message with the number `g` has been returned. -/
def taken (i : ℕ) (recent : List Record) (g : ℕ) : ℕ := recent.countP (Record.took i g)

/-- The number `g` is that of the message `m`, posted since the mailbox was created with its first
message, or that one. -/
def Origin (i : ℕ) (made : Record) (first : ℕ) (recent : List Record) (g m : ℕ) : Prop :=
  (∃ r ∈ recent, r.sent i = some m ∧ r.tag = g) ∨ made.tag = g ∧ m = first

theorem Origin.mono {i : ℕ} {made : Record} {first g m : ℕ} {recent : List Record}
    (h : Origin i made first recent g m) (l : List Record) : Origin i made first (l++recent) g m :=
  h.imp_left fun ⟨r,hr,hm⟩ => ⟨r,List.mem_append_right l hr,hm⟩

theorem taken_plain {i g : ℕ} {l recent : List Record} (h : ∀ r ∈ l, r.got i = none) :
    taken i (l++recent) g = taken i recent g := by
  have none_ : l.countP (Record.took i g) = 0 :=
    List.countP_eq_zero.mpr fun r hr => by simp [Record.took,h r hr]
  rw [taken,List.countP_append,none_,zero_add]
  rfl

theorem taken_got {i g : ℕ} {r : Record} {recent : List Record} (h : (r.got i).isSome = true) :
    taken i (r :: recent) g = taken i recent g+if r.tag = g then 1 else 0 := by
  rw [taken,List.countP_cons]
  simp [taken,Record.took,h]

namespace System
variable {cfg : Config} (s : System cfg)

/-- The mailbox was created by the call `made` with its first message; `recent` are the calls that
have returned since. -/
structure Delivered (i : ℕ) (made : Record) (first : ℕ) (recent : List Record) : Prop where
  created : s.Created (.mbox i)
  number : s.mail i < s.log.length
  past {g : ℕ} : 0 < taken i recent g → g ≤ s.mail i
  once (g : ℕ) : taken i recent g ≤ 1
  fresh : (s.brtosMboxTable i).osEventState = availableMessage → taken i recent (s.mail i) = 0
  slot : Origin i made first recent (s.mail i) (s.brtosMboxTable i).osEventPointer
  genuine {r : Record} {data : List ℕ} : r ∈ recent → r.got i = some data →
    ∃ m, data = [m] ∧ Origin i made first recent r.tag m
  handed {r : Record} : r ∈ recent → (r.sent i).isSome = true → r.woke = true →
    taken i recent r.tag = 1 ∨
      r.tag = s.mail i ∧ (s.brtosMboxTable i).osEventState = availableMessage
  known {r : Record} : r ∈ recent → r ∈ s.log

variable {s} {t : System cfg} {i first : ℕ} {made : Record} {recent : List Record}

/-- Nothing happens to the mailbox, and no message is posted or returned. -/
theorem Delivered.keep (h : s.Delivered i made first recent) {l : List Record}
    (created : t.Created (.mbox i)) (table : t.brtosMboxTable i = s.brtosMboxTable i)
    (mail : t.mail i = s.mail i) (log : t.log = l++s.log)
    (plain : ∀ r ∈ l, r.got i = none ∧ r.sent i = none) : t.Delivered i made first (l++recent) := by
  have same : ∀ g, taken i (l++recent) g = taken i recent g := fun g =>
    taken_plain fun r hr => (plain r hr).1
  refine ⟨created,?_,?_,?_,?_,?_,?_,?_,?_⟩
  · have := h.number
    rw [mail,log,List.length_append]
    omega
  · intro g
    rw [same,mail]
    exact h.past
  · intro g
    rw [same]
    exact h.once g
  · rw [table,mail,same]
    exact h.fresh
  · rw [table,mail]
    exact h.slot.mono l
  · intro r data hr hd
    rcases List.mem_append.mp hr with hr | hr
    · simp [(plain r hr).1] at hd
    · obtain ⟨m,hm,origin⟩ := h.genuine hr hd
      exact ⟨m,hm,origin.mono l⟩
  · intro r hr hs hw
    rcases List.mem_append.mp hr with hr | hr
    · simp [(plain r hr).2] at hs
    · rw [same,mail,table]
      exact h.handed hr hs hw
  · intro r hr
    rw [log]
    exact (List.mem_append.mp hr).elim (List.mem_append_left _) fun hr =>
      List.mem_append_right _ (h.known hr)

/-- The message in the slot is returned. -/
theorem Delivered.take (h : s.Delivered i made first recent) {r : Record}
    (created : t.Created (.mbox i)) (available : (s.brtosMboxTable i).osEventState = availableMessage)
    (table : t.brtosMboxTable i = { s.brtosMboxTable i with osEventState := noMessage })
    (mail : t.mail i = s.mail i) (log : t.log = r :: s.log)
    (got : r.got i = some [(s.brtosMboxTable i).osEventPointer]) (tag : r.tag = s.mail i)
    (sent : r.sent i = none) : t.Delivered i made first (r :: recent) := by
  have count : ∀ g, taken i (r :: recent) g = taken i recent g+if s.mail i = g then 1 else 0 :=
    fun g => tag ▸ taken_got (by simp [got])
  have fresh := h.fresh available
  refine ⟨created,?_,?_,?_,?_,?_,?_,?_,?_⟩
  · have := h.number
    rw [mail,log,List.length_cons]
    omega
  · intro g
    rw [count,mail]
    split_ifs with e
    · exact fun _ => e.ge
    · exact h.past
  · intro g
    rw [count]
    split_ifs with e
    · rw [← e,fresh]
    · exact h.once g
  · simp [table,noMessage,availableMessage]
  · rw [mail,table]
    exact h.slot.mono [r]
  · intro x data hx hd
    rcases List.mem_cons.mp hx with rfl | hx
    · rw [got] at hd
      obtain rfl := Option.some.inj hd
      exact ⟨_,rfl,tag ▸ h.slot.mono [x]⟩
    · obtain ⟨m,hm,origin⟩ := h.genuine hx hd
      exact ⟨m,hm,origin.mono [r]⟩
  · intro x hx hs hw
    rcases List.mem_cons.mp hx with rfl | hx
    · simp [sent] at hs
    · left
      rw [count]
      rcases h.handed hx hs hw with done | ⟨current,_⟩
      · have apart : s.mail i ≠ x.tag := fun e => by simp [← e,fresh] at done
        simp [done,apart]
      · simp [current,fresh]
  · intro x hx
    rw [log]
    exact (List.mem_cons.mp hx).elim (· ▸ List.mem_cons_self) fun hx => List.mem_cons_of_mem _ (h.known hx)

/-- A new message comes into the slot, over none that a waiting task has been woken for. -/
theorem Delivered.send (h : s.Delivered i made first recent) {r : Record} {m : ℕ}
    (created : t.Created (.mbox i))
    (spared : ∀ x ∈ recent, (x.sent i).isSome = true → x.woke = true → x.tag = s.mail i →
      (s.brtosMboxTable i).osEventState ≠ availableMessage)
    (table : t.brtosMboxTable i = ⟨availableMessage,m⟩) (mail : t.mail i = s.log.length)
    (log : t.log = r :: s.log) (sent : r.sent i = some m) (tag : r.tag = s.log.length)
    (got : r.got i = none) : t.Delivered i made first (r :: recent) := by
  have same : ∀ g, taken i (r :: recent) g = taken i recent g := fun g =>
    taken_plain (l := [r]) fun x hx => List.mem_singleton.mp hx ▸ got
  have past := h.number
  refine ⟨created,?_,?_,?_,?_,?_,?_,?_,?_⟩
  · rw [mail,log,List.length_cons]
    omega
  · intro g
    rw [same,mail]
    exact fun hg => (h.past hg).trans past.le
  · intro g
    rw [same]
    exact h.once g
  · intro _
    rw [same,mail]
    by_contra hne
    have := h.past (Nat.pos_of_ne_zero hne)
    omega
  · rw [mail,table]
    exact Or.inl ⟨r,List.mem_cons_self,sent,tag⟩
  · intro x data hx hd
    rcases List.mem_cons.mp hx with rfl | hx
    · simp [got] at hd
    · obtain ⟨y,hy,origin⟩ := h.genuine hx hd
      exact ⟨y,hy,origin.mono [r]⟩
  · intro x hx hs hw
    rw [same,table]
    rcases List.mem_cons.mp hx with rfl | hx
    · exact Or.inr ⟨tag.trans mail.symm,rfl⟩
    · refine Or.inl ((h.handed hx hs hw).resolve_right ?_)
      rintro ⟨current,available⟩
      exact spared x hx hs hw current available
  · intro x hx
    rw [log]
    exact (List.mem_cons.mp hx).elim (· ▸ List.mem_cons_self) fun hx => List.mem_cons_of_mem _ (h.known hx)

/-! ### The services -/

theorem mbox_of_body {k l : Kernel cfg} (h : k.body (.mbox i) = l.body (.mbox i)) :
    k.brtosMboxTable i = l.brtosMboxTable i := Body.mbox.inj h

/-- A post to a mailbox that exists always returns OK. -/
theorem osMboxPost_ok (created : s.notCreated (.mbox i) = false) (m : ℕ) :
    (s.osMboxPost i m).2 = .ret ok [] ∧
      (s.osMboxPost i m).1.brtosMboxTable i = ⟨availableMessage,m⟩ ∧
      ((s.osMboxPost i m).1.event (.mbox i)).osEventAllocated =
        (s.event (.mbox i)).osEventAllocated := by
  have written : ∀ k : Kernel cfg,
      (k.setMbox i fun _ => ⟨availableMessage,m⟩).brtosMboxTable i = ⟨availableMessage,m⟩ := fun k => by
    simp [Kernel.setMbox]
  simp only [Kernel.osMboxPost,enterNesting_notCreated,created,Bool.false_eq_true,if_false]
  split_ifs
  · refine ⟨trivial,?_,by simp [Kernel.wakeHighest_allocated]⟩
    rw [mbox_of_body (Kernel.body_of_cell (Kernel.exitNesting_cell.trans
      Kernel.changeContextUnnested_cell))]
    exact written _
  · refine ⟨trivial,?_,by simp⟩
    rw [mbox_of_body (Kernel.body_of_cell Kernel.exitNesting_cell)]
    exact written _

/-- The ways of a pend on a mailbox that exists. -/
inductive MboxPendOf (s : System cfg) (i : ℕ) (k : Kernel cfg) : Reply → Prop
  | takes (available : (s.brtosMboxTable i).osEventState = availableMessage)
      (table : k.brtosMboxTable i = { s.brtosMboxTable i with osEventState := noMessage }) :
      MboxPendOf s i k (.ret ok [(s.brtosMboxTable i).osEventPointer])
  | leaves {code : ℕ} {data : List ℕ} (fails : code ≠ ok)
      (table : k.brtosMboxTable i = s.brtosMboxTable i) : MboxPendOf s i k (.ret code data)
  | sleeps {p : Point} (table : k.brtosMboxTable i = s.brtosMboxTable i) : MboxPendOf s i k (.sleep p)

theorem mboxPendOf (created : s.notCreated (.mbox i) = false) (w : ℕ) :
    MboxPendOf s i (s.osMboxPend i w).1 (s.osMboxPend i w).2 ∧
      ((s.osMboxPend i w).1.event (.mbox i)).osEventAllocated =
        (s.event (.mbox i)).osEventAllocated := by
  have created' : s.osEnterCritical.notCreated (.mbox i) = false := created
  simp only [Kernel.osMboxPend,created',Bool.false_eq_true,if_false]
  split_ifs with h0 h1 h2
  · exact ⟨.leaves (show irqPendErr ≠ ok by decide) rfl,rfl⟩
  · refine ⟨.takes h1 ?_,rfl⟩
    simp [Kernel.takeMail,Kernel.setMbox,Kernel.osExitCritical,Kernel.osEnterCritical]
  · exact ⟨.leaves (show exitByNoEntryAvailable ≠ ok by decide) rfl,rfl⟩
  · refine ⟨.sleeps ?_,Kernel.suspend_allocated _ w⟩
    exact mbox_of_body ((Kernel.suspend_body _ _).trans (Kernel.body_of_cell Kernel.osEnterCritical_cell))

/-- A post by a task, an interrupt or main that overwrites no message for a waiting task. -/
theorem Delivered.post (h : s.Delivered i made first recent)
    (spared : ∀ x ∈ recent, (x.sent i).isSome = true → x.woke = true → x.tag = s.mail i →
      (s.brtosMboxTable i).osEventState ≠ availableMessage) (who : Option ℕ) (m : ℕ) : ∃ r,
      (s.enter who (.mboxPost i m)).log = r :: s.log ∧
        (s.enter who (.mboxPost i m)).Delivered i made first (r :: recent) := by
  obtain ⟨reply,table,allocated⟩ := osMboxPost_ok (notCreated_of_created rfl h.created) m
  rw [enter_ret (c := .mboxPost i m) reply]
  exact ⟨_,rfl,h.send (created_of_allocated h.created allocated) spared table
    (by simp [returned,nextMail]) rfl (by simp [Record.sent]) rfl rfl⟩

/-- A pend by a running task. -/
theorem Delivered.pend (h : s.Delivered i made first recent) (who : Option ℕ) (w : ℕ) :
    ∃ l, (s.enter who (.mboxPend i w)).log = l++s.log ∧
      (s.enter who (.mboxPend i w)).Delivered i made first (l++recent) := by
  obtain ⟨pend,allocated⟩ := mboxPendOf (notCreated_of_created rfl h.created) w
  cases hr : (s.osMboxPend i w).2 with
  | sleep p =>
    rw [enter_sleep (c := .mboxPend i w) hr]
    rw [hr] at pend
    cases pend with
    | sleeps table =>
      exact ⟨[],rfl,h.keep (l := []) (created_of_allocated h.created allocated) table rfl rfl (by simp)⟩
  | ret code data =>
    rw [enter_ret (c := .mboxPend i w) hr]
    refine ⟨[_],rfl,?_⟩
    rw [hr] at pend
    cases pend with
    | takes available table =>
      exact h.take (created_of_allocated h.created allocated) available table rfl rfl
        (by simp [Record.got]) rfl rfl
    | leaves fails table =>
      refine h.keep (created_of_allocated h.created allocated) table rfl rfl ?_
      simp [Record.got,Record.sent,fails]

/-- A task that runs again returns the message in the slot, or it times out. -/
theorem Delivered.resume (h : s.Delivered i made first recent) {p w : ℕ}
    (point : s.point s.currentTask = .pend (.mbox i) p w)
    (available : (s.osEnterCritical.wakeUp (.mbox i) p w).2 = false →
      (s.brtosMboxTable i).osEventState = availableMessage) (next : s.proceed = some t) :
    ∃ r, t.log = r :: s.log ∧ t.Delivered i made first (r :: recent) := by
  unfold proceed at next
  simp only [point,Option.some.injEq] at next
  subst next
  refine ⟨_,rfl,?_⟩
  have table : (s.osEnterCritical.wakeUp (.mbox i) p w).1.brtosMboxTable i = s.brtosMboxTable i :=
    mbox_of_body ((Kernel.wakeUp_body _ _ _).trans (Kernel.body_of_cell Kernel.osEnterCritical_cell))
  have created : ((s.resumePend (.mbox i) p w).1.event (.mbox i)).osEventAllocated =
      (s.event (.mbox i)).osEventAllocated := by
    rw [resumePend_event]
    exact Kernel.wakeUp_allocated _ _ _
  revert created
  simp only [Kernel.resumePend,Kernel.resumeMboxPend]
  split_ifs with late
  · intro created
    refine h.keep (l := [_]) (h.created.imp_right created.trans) table rfl rfl ?_
    simp [Record.got,Record.sent,Obj.pendCall,timeout,ok]
  · intro created
    refine h.take (h.created.imp_right created.trans) (available (by simpa using late)) ?_ rfl rfl ?_
      rfl rfl
    · simp [Kernel.takeMail,Kernel.setMbox,Kernel.osExitCritical,table]
    · simp [Record.got,Obj.pendCall,Kernel.takeMail,table]

theorem Delivered.delete (h : s.Delivered i made first recent) (who : Option ℕ) : ∃ r,
    (s.enter who (.mboxDelete i)).log = r :: s.log ∧ (r.mboxDeleted i = false →
      (s.enter who (.mboxDelete i)).Delivered i made first (r :: recent)) := by
  by_cases nested : 0 < s.iNesting
  · have fails : s.serve (.mboxDelete i) = (s.toKernel,.ret irqPendErr []) := by
      simp [Kernel.serve,Kernel.osMboxDelete,nested]
    rw [enter_ret (congrArg Prod.snd fails),fails]
    exact ⟨_,rfl,fun _ => h.keep (l := [_]) h.created rfl rfl rfl
      (by simp [Record.got,Record.sent])⟩
  · have reply : (s.serve (.mboxDelete i)).2 = .ret deleteEventOk [] := by
      simp [Kernel.serve,Kernel.osMboxDelete,nested]
    rw [enter_ret reply]
    refine ⟨_,rfl,fun kept => ?_⟩
    simp [Record.mboxDeleted] at kept

/-! ### Runs -/

/-- The calls that touch a mailbox that exists. -/
theorem touches_mbox (h : s.Created (.mbox i)) {c : Call} (touches : s.Touches (.mbox i) c) :
    (∃ m, c = .mboxPost i m) ∨ (∃ w, c = .mboxPend i w) ∨ c = .mboxDelete i := by
  have taken : (s.event (.mbox i)).osEventAllocated = 1 := h.resolve_left (by simp [Obj.onHeap])
  cases c <;> simp only [Kernel.Touches,Obj.mbox.injEq,reduceCtorEq,and_false,exists_false] at touches
  case mboxCreate =>
    obtain ⟨j,found,rfl⟩ := touches
    exact absurd taken (findEvent_free found)
  case queueClean d j | queuePend d j _ => cases d <;> simp [Kernel.QueueKind.obj] at touches
  all_goals simp [touches]

variable (s i) in
/-- A post does not find a message that was posted to a waiting task. -/
def Spares : Call → Prop
  | .mboxPost j _ => j = i → ∀ r ∈ s.log, (r.sent i).isSome = true → r.woke = true → r.tag = s.mail i →
    (s.brtosMboxTable i).osEventState ≠ availableMessage
  | _ => True

instance (c : Call) : Decidable (s.Spares i c) := by
  rcases c <;> unfold Spares <;> infer_instance

variable (s i) in
/-- No message for a waiting task is overwritten, and a task that runs again without a timeout finds
a message. -/
def Patient : Action → Prop
  | .main c | .call c | .isrCall c => s.Spares i c
  | .resume =>
    match s.point s.currentTask with
    | .pend o p w => o = .mbox i → (s.osEnterCritical.wakeUp o p w).2 = false →
      (s.brtosMboxTable i).osEventState = availableMessage
    | _ => True
  | _ => True

instance (a : Action) : Decidable (s.Patient i a) := by
  rcases a <;> unfold Patient
  case resume =>
    generalize s.point s.currentTask = x
    rcases x <;> infer_instance
  all_goals infer_instance

/-- Each step keeps the account of the messages, and a deletion ends it. -/
theorem Delivered.step {a : Action} (h : s.Delivered i made first recent) (dormant : s.Dormant)
    (patient : s.Patient i a) (next : s.step a = some t) :
    t.log = s.log ∧ t.Delivered i made first recent ∨ ∃ r, t.log = r :: s.log ∧
      (r.mboxDeleted i = false → t.Delivered i made first (r :: recent)) := by
  have logged : ∀ {l}, t.log = l++s.log → t.Delivered i made first (l++recent) →
      t.log = s.log ∧ t.Delivered i made first recent ∨ ∃ r, t.log = r :: s.log ∧
        (r.mboxDeleted i = false → t.Delivered i made first (r :: recent)) := fun {l} log kept => by
    rcases step_log next with same | ⟨r,more,_⟩
    · obtain rfl : l = [] := by simpa [same] using log
      exact Or.inl ⟨same,kept⟩
    · obtain rfl : l = [r] := List.append_cancel_right (log.symm.trans more)
      exact Or.inr ⟨r,more,fun _ => kept⟩
  have spared : (∀ r ∈ s.log, (r.sent i).isSome = true → r.woke = true → r.tag = s.mail i →
      (s.brtosMboxTable i).osEventState ≠ availableMessage) → ∀ r ∈ recent, (r.sent i).isSome = true →
        r.woke = true → r.tag = s.mail i → (s.brtosMboxTable i).osEventState ≠ availableMessage :=
    fun spared r hr => spared r (h.known hr)
  cases step_happens dormant (.mbox i) next with
  | quiet apart =>
    obtain ⟨l,log,far⟩ := apart.log
    refine logged log (h.keep (created_of_event h.created apart.event) ?_ (apart.mail rfl) log
      fun r hr => Record.plain_far (far r hr))
    exact mbox_of_body (Kernel.body_of_cell apart.cell)
  | main stopped from_ touches =>
    rcases touches_mbox h.created touches with ⟨m,rfl⟩ | ⟨w,rfl⟩ | rfl
    · obtain ⟨r,log,kept⟩ := h.post (spared (patient rfl)) none m
      exact Or.inr ⟨r,log,fun _ => kept⟩
    · simp [Call.fromMain] at from_
    · exact Or.inr (h.delete none)
  | call running awake user touches =>
    rcases touches_mbox h.created touches with ⟨m,rfl⟩ | ⟨w,rfl⟩ | rfl
    · obtain ⟨r,log,kept⟩ := h.post (spared (patient rfl)) (some s.currentTask) m
      exact Or.inr ⟨r,log,fun _ => kept⟩
    · obtain ⟨l,log,kept⟩ := h.pend (some s.currentTask) w
      exact logged log kept
    · exact Or.inr (h.delete (some s.currentTask))
  | isr port from_ touches =>
    rcases touches_mbox h.created touches with ⟨m,rfl⟩ | ⟨w,rfl⟩ | rfl
    · obtain ⟨r,log,kept⟩ := h.post (spared (patient rfl)) none m
      exact Or.inr ⟨r,log,fun _ => kept⟩
    · simp [Call.fromIsr] at from_
    · simp [Call.fromIsr] at from_
  | resume running point proceeds =>
    simp only [Patient,point,forall_const] at patient
    obtain ⟨r,log,kept⟩ := h.resume point patient proceeds
    exact Or.inr ⟨r,log,fun _ => kept⟩
  | uart event => simp at event

theorem osMboxCreate_ok {m : ℕ} (reply : (s.osMboxCreate m).2 = .ret allocEventOk [i]) :
    s.enterTask.findEvent .mbox cfg.brtosMaxMbox = some i ∧ (s.osMboxCreate m).1 =
      ((s.enterTask.allocEvent (.mbox i)).setMbox i fun _ =>
        ⟨if m ≠ 0 then availableMessage else noMessage,m⟩).exitTask := by
  simp only [Kernel.osMboxCreate] at reply ⊢
  by_cases nested : 0 < s.iNesting
  · simp [nested,irqPendErr,allocEventOk] at reply
  · simp only [nested,if_false] at reply ⊢
    cases found : s.enterTask.findEvent .mbox cfg.brtosMaxMbox with
    | none => simp [found,noAvailableEvent,allocEventOk] at reply
    | some j =>
      obtain rfl : j = i := by simpa [found] using reply
      exact ⟨rfl,rfl⟩

/-- A created mailbox holds its first message. -/
theorem delivered_of_create (call : made.call = .mboxCreate first)
    (success : made.code = allocEventOk) (handle : made.data = [i]) (log : t.log = made :: s.log)
    (logs : s.Logs t made) : t.Delivered i made first [] := by
  cases logs with
  | resumed hc =>
    rcases hc with ⟨w,hc⟩ | ⟨q,w,hc⟩
    · simp [call] at hc
    · cases q <;> simp [call,Obj.pendCall] at hc
  | uart hc =>
    obtain ⟨j,b,hc⟩ := hc
    simp [call] at hc
  | @served who reply next =>
    rw [call,success,handle] at reply
    rw [call,enter_ret reply] at next
    subst next
    obtain ⟨_,kernel⟩ := osMboxCreate_ok reply
    have tag : made.tag = s.log.length := by
      obtain rfl := (List.cons.inj log).1
      rfl
    rw [show (s.serve (.mboxCreate first)).1 = _ from kernel]
    have table : ((s.enterTask.allocEvent (.mbox i)).setMbox i fun _ =>
        ⟨if first ≠ 0 then availableMessage else noMessage,first⟩).exitTask.brtosMboxTable i =
          ⟨if first ≠ 0 then availableMessage else noMessage,first⟩ := by
      rw [mbox_of_body (Kernel.body_of_cell Kernel.exitTask_cell)]
      simp [Kernel.setMbox]
    have mail : ∀ k : Kernel cfg, (s.returned who (.mboxCreate first) k allocEventOk [i]).mail i =
        s.log.length := fun k => Function.update_self _ _ _
    have none_ : ∀ g, taken i [] g = 0 := fun g => rfl
    refine ⟨Or.inr ?_,?_,?_,?_,?_,?_,by simp,by simp,by simp⟩
    · simp [Kernel.allocEvent,Kernel.setEvent]
    · rw [mail]
      simp [returned]
    · intro g hg
      simp [none_] at hg
    · simp [none_]
    · exact fun _ => none_ _
    · rw [mail,returned_toKernel,table]
      exact Or.inr ⟨tag,rfl⟩

/-- In every run that spares the messages for waiting tasks, no message is returned twice, each
returned message is one that was posted, and a message posted to a waiting task has been returned or
is still in the mailbox. -/
theorem delivered_of_patient (run : Run.Reach step (Patient · i) (init cfg) s)
    {recent old : List Record} {made : Record} {first : ℕ} (log : s.log = recent ++ made :: old)
    (call : made.call = .mboxCreate first) (success : made.code = allocEventOk)
    (handle : made.data = [i]) (kept : ∀ r ∈ recent, r.mboxDeleted i = false) :
    (∀ g, taken i recent g ≤ 1) ∧
    (∀ r ∈ recent, ∀ data, r.got i = some data →
      ∃ m, data = [m] ∧ Origin i made first recent r.tag m) ∧
    ∀ r ∈ recent, (r.sent i).isSome = true → r.woke = true → taken i recent r.tag = 1 ∨
      r.tag = s.mail i ∧ (s.brtosMboxTable i).osEventState = availableMessage := by
  have delivered : s.Delivered i made first recent := by
    refine run.since (P := fun u l => u.Delivered i made first l) (by rfl) ?_ ?_ ?_ log kept
    · intro u a v reach _ next more
      rcases step_log next with same | ⟨r,more',logs⟩
      · simp [same] at more
      · obtain ⟨rfl,_⟩ := List.cons.inj (more'.symm.trans more)
        exact delivered_of_create call success handle more logs
    · intro u a v l reach h patient next
      exact h.step (dormant_of_reach reach) patient next
    · intro u a v next
      exact (step_log next).imp_right fun ⟨r,more,_⟩ => ⟨r,more⟩
  exact ⟨delivered.once,fun r hr data => delivered.genuine hr,fun r hr => delivered.handed hr⟩

/-- A message posted to a waiting task reaches it. -/
theorem delivered_run : ∃ s : System .port, ∃ r : Record, s.log.head? = some r ∧ r.got 0 = some [7] ∧
    taken 0 (s.log.take 2) r.tag ≤ 1 := by
  obtain ⟨s,run,r,top,got,log⟩ := Run.exists_reach_of_exec step
    (fun s a => s.Patient 0 a) (init .port)
    [.main (.install (.user 1) 16 3),.main (.install (.user 2) 16 4),.main (.mboxCreate 0),.start,
      .call (.mboxPend 0 0),.switch,.call (.mboxPost 0 7),.switch,.resume]
    (fun s => ∃ r ∈ s.log.head?, r.got 0 = some [7] ∧ s.log = [⟨some 2,.mboxPend 0 0,ok,[7],3,false⟩,
      ⟨some 1,.mboxPost 0 7,ok,[],3,true⟩] ++ ⟨none,.mboxCreate 0,ok,[0],2,false⟩ :: s.log.drop 3)
    (by decide +kernel)
  refine ⟨s,r,top,got,?_⟩
  rw [log]
  exact (delivered_of_patient run log rfl rfl rfl (by decide)).1 _

/-- Task 2 is woken for a message that task 3 takes first: both return it. And a second post
overwrites the message that task 2 has been woken for: no pend returns it. -/
theorem delivered_fails :
    (∃ s : System .port, Run.Reach step (fun s a => s.Allowed .restoring a) (init .port) s ∧
      ∃ r ∈ s.log, r.got 0 = some [7] ∧ taken 0 s.log r.tag = 2) ∧
    ∃ s : System .port, Run.Reach step (fun s a => s.Allowed .restoring a) (init .port) s ∧
      ∃ r ∈ s.log, r.sent 0 = some 7 ∧ r.woke = true ∧ taken 0 s.log r.tag = 0 ∧ s.mail 0 ≠ r.tag :=
  ⟨Run.exists_reach_of_exec _ _ _
    [.main (.install (.user 1) 16 3),.main (.install (.user 2) 16 4),.main (.install (.user 3) 16 5),
      .main (.mboxCreate 0),.start,.call (.delayTask 1),.switch,.call (.mboxPend 0 0),.switch,.isrEnter,
      .isrCall (.mboxPost 0 7),.isrTick 3,.isrExit,.resume,.call (.mboxPend 0 0),.call (.delayTask 1),
      .switch,.resume] _ (by decide +kernel),
    Run.exists_reach_of_exec _ _ _
    [.main (.install (.user 1) 16 3),.main (.install (.user 2) 16 4),.main (.mboxCreate 0),.start,
      .call (.mboxPend 0 0),.switch,.isrEnter,.isrCall (.mboxPost 0 7),.isrCall (.mboxPost 0 8)] _
      (by decide +kernel)⟩

end System
end Brtos
