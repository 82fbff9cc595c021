import Brtos.Delivery
import Brtos.SysArch

/-! The mailboxes of lwIP: as long as no sys_mbox_post finds the queue full, the messages that the port
has accepted are fetched once and in order. -/
namespace Brtos
open Kernel (QueueKind)

/-- The call is about the dynamic queue, or it makes its block a queue. -/
def Call.uses (i : ℕ) : Call → Bool
  | .dqueueCreate a _ _ => a.handler == some i
  | c => c.target == some (.dqueue i)

def Action.uses (i : ℕ) : Action → Bool
  | .main c | .call c | .isrCall c => c.uses i
  | _ => false

theorem not_touches {cfg : Config} {k : Kernel cfg} {i : ℕ} {c : Call} (unused : c.uses i = false) :
    ¬ k.Touches (.dqueue i) c := by
  intro touches
  cases c with
  | dqueueCreate a l n =>
    obtain ⟨j,handler,same⟩ := touches
    obtain rfl := Obj.dqueue.inj same
    simp [Call.uses,handler] at unused
  | queueClean d j | queuePend d j w =>
    rw [Kernel.Touches] at touches
    simp [Call.uses,Call.target,← touches] at unused
  | dqueueDelete j | dqueuePost j pdata =>
    obtain rfl := Obj.dqueue.inj touches
    simp [Call.uses,Call.target] at unused
  | _ => simp [Kernel.Touches] at touches

namespace System
variable {cfg : Config} {s t : System cfg} {a : Action}

theorem uartState_point {fuel : ℕ} (begun : s.uartState fuel = some t) : t.point = s.point := by
  unfold uartState at begun
  dsimp only at begun
  split_ifs at begun
  · obtain ⟨k,_,rfl⟩ := Option.map_eq_some_iff.mp begun
    rfl
  · exact Option.some.inj begun ▸ rfl

theorem enter_point_other (who : Option ℕ) (c : Call) {u : ℕ} (other : u ≠ s.currentTask) :
    (s.enter who c).point u = s.point u := by
  unfold enter
  cases (s.serve c).2 with
  | ret code data => rfl
  | sleep p => exact Function.update_of_ne other _ _

/-- A task gets on by its own steps only. -/
theorem point_of_step (dormant : s.Dormant) (next : s.step a = some t) {u : ℕ}
    (other : a.byTask = true → u ≠ s.currentTask) : t.point u = s.point u := by
  cases a with
  | main c =>
    simp only [step] at next
    split_ifs at next with hg
    rw [← Option.some.inj next,enter_point fun p hp => (serve_sleeps hp).2.2.1 hg.2 (dormant hg.1).1]
  | call c =>
    simp only [step] at next
    split_ifs at next
    rw [← Option.some.inj next]
    exact enter_point_other _ c (other rfl)
  | isrCall c =>
    simp only [step] at next
    split_ifs at next with hg
    rw [← Option.some.inj next,enter_point fun p hp => ?_]
    simpa [hg.2.2.2] using (serve_sleeps hp).2.1
  | resume =>
    simp only [step] at next
    split_ifs at next
    rw [proceed_point next]
    exact Function.update_of_ne (other rfl) _ _
  | isrTick fuel =>
    simp only [step] at next
    split_ifs at next
    obtain ⟨k,hk,rfl⟩ := Option.map_eq_some_iff.mp next
    rfl
  | start | isrEnter | isrExit | switch | raise =>
    simp only [step] at next
    split_ifs at next
    all_goals exact Option.some.inj next ▸ rfl
  | process fuel i b =>
    simp only [step] at next
    split_ifs at next
    rw [process_eq] at next
    obtain ⟨v,begun,rfl⟩ := Option.map_eq_some_iff.mp next
    rw [← uartState_point begun]
    dsimp only
    split_ifs
    · exact congrFun (enter_point (osQueuePost_awake i b)) u
    · rfl

theorem call_returns {c : Call} (next : s.step (.call c) = some t) {code : ℕ} {data : List ℕ}
    (reply : (s.serve c).2 = .ret code data) : t.point s.currentTask = .run := by
  simp only [step] at next
  split_ifs at next with hg
  rw [← Option.some.inj next,enter_ret reply]
  exact hg.2.1

theorem call_sleeps {c : Call} (next : s.step (.call c) = some t) {p : Point}
    (reply : (s.serve c).2 = .sleep p) : t.point s.currentTask = p := by
  simp only [step] at next
  split_ifs at next
  rw [← Option.some.inj next,enter_sleep reply]
  exact Function.update_self _ _ _

theorem resume_runs (next : s.step .resume = some t) : t.point s.currentTask = .run := by
  simp only [step] at next
  split_ifs at next
  rw [proceed_point next,Function.update_self]

end System

/-! ### What the port has done -/

/-- The message of a call that was to put it into the mailbox. -/
def Done.promised (i : ℕ) : Done → Option (List ℕ)
  | .posted mbox data _ => if mbox = i then some data.bytes else none
  | .tried mbox data err => if mbox = i ∧ err = errOk then some data.bytes else none
  | .waited _ _ _ _ => none

/-- The message that a fetch has returned. -/
def Done.fetched (i : ℕ) : Done → Option (List ℕ)
  | .waited o _ msg _ => if o = .dqueue i then msg else none
  | _ => none

def Frame.obj : Frame → Option Obj
  | .idle => none
  | .pend o _ _ => some o
  | .obtained o _ _ => some o

/-- The message of a fetch that has not returned yet. -/
def Frame.carried (i : ℕ) : Frame → List (List ℕ)
  | .obtained o _ msg => if o = .dqueue i then [msg] else []
  | _ => []

theorem Frame.carried_nil {i : ℕ} {g : Frame} (h : g.obj ≠ some (.dqueue i)) : g.carried i = [] := by
  cases g with
  | idle | pend o timeout startTime => rfl
  | obtained o startTime msg => exact if_neg fun e => h (congrArg some e)

/-- The messages posted, the first one first, are those that have been fetched, then the one that the
thread is about to return, and then those in the queue. -/
def Balanced (i : ℕ) (recent : List Done) (frame : Frame) (l : List (List ℕ)) : Prop :=
  recent.reverse.filterMap (Done.promised i) =
    recent.reverse.filterMap (Done.fetched i) ++ (frame.carried i ++ l)

section Balanced
variable {i : ℕ} {recent : List Done} {frame : Frame} {l : List (List ℕ)} {d : Done}

theorem Balanced.plain (h : Balanced i recent frame l) (promised : d.promised i = none)
    (fetched : d.fetched i = none) : Balanced i (d :: recent) frame l := by
  simpa [Balanced,List.filterMap_append,promised,fetched] using h

theorem Balanced.post (h : Balanced i recent frame l) {x : List ℕ} (promised : d.promised i = some x)
    (fetched : d.fetched i = none) : Balanced i (d :: recent) frame (l++[x]) := by
  simp only [Balanced,List.reverse_cons,List.filterMap_append,List.filterMap_cons,List.filterMap_nil,
    promised,fetched,List.append_nil] at h ⊢
  simp only [h,List.append_assoc]

/-- A pend takes the first message out. -/
theorem Balanced.take {o : Obj} {timeout startTime : ℕ} {x : List ℕ}
    (h : Balanced i recent (.pend o timeout startTime) (x :: l)) :
    Balanced i recent (.obtained (.dqueue i) startTime x) l := by
  simpa [Balanced,Frame.carried] using h

/-- The fetch returns it. -/
theorem Balanced.give {startTime result ticks : ℕ} {msg : List ℕ}
    (h : Balanced i recent (.obtained (.dqueue i) startTime msg) l) :
    Balanced i (.waited (.dqueue i) result (some msg) ticks :: recent) .idle l := by
  simp only [Balanced,List.reverse_cons,List.filterMap_append,List.filterMap_cons,List.filterMap_nil,
    Done.promised,Done.fetched,Frame.carried,if_true,List.append_nil,List.nil_append] at h ⊢
  simpa only [List.append_assoc] using h

end Balanced

namespace Port
variable {cfg : Config}

/-- The mailbox `i` is a queue of `n` messages that thread `f` fetches from; `recent` are the calls of
the port that have returned since it was made. -/
structure Carries (s : System cfg) (frame : ℕ → Frame) (i n f : ℕ) (recent : List Done) : Prop where
  own {u p w : ℕ} : s.point u = .pend (.dqueue i) p w →
    ∃ timeout startTime, frame u = .pend (.dqueue i) timeout startTime
  only {u : ℕ} : (frame u).obj = some (.dqueue i) → u = f
  length : (s.queue .dynamic i).osqLength = n
  fed : f ∈ s.woken (.dqueue i) → 0 < (s.queue .dynamic i).osqEntries
  contents : ∃ l, (s.queue .dynamic i).Contains n 4 l ∧ Balanced i recent (frame f) l

variable {s t : System cfg} {frame : ℕ → Frame} {i n f : ℕ} {recent : List Done}

/-- A step that leaves the queue alone. -/
theorem Carries.apart (h : Carries s frame i n f recent) (apart : s.Apart (.dqueue i) t) :
    Carries t frame i n f recent := by
  have ring : t.queue .dynamic i = s.queue .dynamic i := Kernel.queue_of_cell apart.cell
  refine ⟨fun point => h.own (apart.point.mp point),h.only,ring ▸ h.length,fun woken => ?_,?_⟩
  · rw [ring]
    exact h.fed (apart.woken ▸ woken)
  · rw [ring]
    exact h.contents

/-- A thread that is not in a pend goes on in its wait. -/
theorem Carries.setFrame (h : Carries s frame i n f recent) {u : ℕ} {g : Frame}
    (run : s.point u = .run) (only : g.obj = some (.dqueue i) → u = f)
    (same : g.carried i = (frame u).carried i) :
    Carries s (Function.update frame u g) i n f recent where
  own {v p w} point := by
    have other : v ≠ u := fun e => by simp [e,run] at point
    rw [Function.update_of_ne other]
    exact h.own point
  only {v} obj := by
    by_cases here : v = u
    · subst here
      exact only (by simpa using obj)
    · rw [Function.update_of_ne here] at obj
      exact h.only obj
  length := h.length
  fed := h.fed
  contents := by
    obtain ⟨l,contains,balanced⟩ := h.contents
    refine ⟨l,contains,?_⟩
    by_cases here : f = u
    · subst here
      simpa [Balanced,same] using balanced
    · rwa [Function.update_of_ne here]

/-- The thread's pend has returned. -/
theorem Carries.taken (h : Carries s frame i n f recent) {timeout startTime code : ℕ} {data : List ℕ}
    (waits : frame f = .pend (.dqueue i) timeout startTime) (run : t.point f = .run)
    (others : ∀ u ≠ f, t.point u = s.point u)
    (ringed : (s.queue .dynamic i).Ringed (t.queue .dynamic i)
      (if code = ok then some (.delivered data) else none)) :
    Carries t (if code = ok then Function.update frame f (.obtained (.dqueue i) startTime data) else frame)
      i n f recent := by
  obtain ⟨l,contains,balanced⟩ := h.contents
  obtain ⟨length,l',applied,contains'⟩ := ringed.contains h.length contains
  have own : ∀ {u p w}, t.point u = .pend (.dqueue i) p w → u ≠ f ∧
      ∃ timeout startTime, frame u = .pend (.dqueue i) timeout startTime := fun {u p w} point => by
    have other : u ≠ f := fun e => by simp [e,run] at point
    exact ⟨other,h.own ((others u other).symm.trans point)⟩
  have fed : f ∉ t.woken (.dqueue i) := fun woken => by
    obtain ⟨_,p,w,point,_⟩ := View.mem_wokenBy.mp woken
    simp [run] at point
  split_ifs at applied ⊢ with success
  · refine ⟨fun point => ?_,fun {u} obj => ?_,length,fun woken => absurd woken fed,l',contains',?_⟩
    · rw [Function.update_of_ne (own point).1]
      exact (own point).2
    · by_contra other
      rw [Function.update_of_ne other] at obj
      exact other (h.only obj)
    · cases l with
      | nil => simp [Fifo.apply] at applied
      | cons x rest =>
        obtain ⟨rfl,rfl⟩ : x = data ∧ rest = l' := by simpa [Fifo.apply] using applied
        rw [waits] at balanced
        rw [Function.update_self]
        exact balanced.take
  · obtain rfl := Option.some.inj applied
    exact ⟨fun point => (own point).2,h.only,length,fun woken => absurd woken fed,l,contains',balanced⟩

theorem Carries.plain (h : Carries s frame i n f recent) {d : Done} (promised : d.promised i = none)
    (fetched : d.fetched i = none) : Carries s frame i n f (d :: recent) where
  own := h.own
  only := h.only
  length := h.length
  fed := h.fed
  contents := by
    obtain ⟨l,contains,balanced⟩ := h.contents
    exact ⟨l,contains,balanced.plain promised fetched⟩

/-- The fetch returns. -/
theorem Carries.give (h : Carries s frame i n f recent) (run : s.point f = .run)
    {startTime result ticks : ℕ} {msg : List ℕ} (obtained : frame f = .obtained (.dqueue i) startTime msg) :
    Carries s (Function.update frame f .idle) i n f
      (.waited (.dqueue i) result (some msg) ticks :: recent) where
  own {u p w} point := by
    have other : u ≠ f := fun e => by simp [e,run] at point
    rw [Function.update_of_ne other]
    exact h.own point
  only {u} obj := by
    by_contra other
    rw [Function.update_of_ne other] at obj
    exact other (h.only obj)
  length := h.length
  fed := h.fed
  contents := by
    obtain ⟨l,contains,balanced⟩ := h.contents
    rw [obtained] at balanced
    exact ⟨l,contains,by simpa using balanced.give⟩

theorem woken_of_reply (inv : s.Inv) {P : View.Policy} {c : Call} (allowed : s.Allowed P (.call c))
    (next : s.step (.call c) = some t) (fails : ∀ code data, (s.serve c).2 = .ret code data → code ≠ ok)
    (woken : f ∈ t.woken (.dqueue i)) : f ∈ s.woken (.dqueue i) := by
  by_contra old
  obtain ⟨r,log,_,success⟩ := System.woken_step inv allowed next old woken
  simp only [System.step] at next
  split_ifs at next
  obtain rfl := Option.some.inj next
  rcases s.enter_log (some s.currentTask) c with ⟨code,data,reply,more⟩ | ⟨p,_,same⟩
  · obtain ⟨rfl,_⟩ := List.cons.inj (log.symm.trans more)
    exact fails code data reply success
  · simp [same] at log

/-- OSDQueuePost has returned to a thread. -/
theorem Carries.posted (h : Carries s frame i n f recent) (inv : s.Inv) {P : View.Policy} {x : List ℕ}
    (allowed : s.Allowed P (.call (.dqueuePost i x))) (next : s.step (.call (.dqueuePost i x)) = some t)
    (length : x.length = 4) {code : ℕ} {out : List ℕ}
    (reply : (s.serve (.dqueuePost i x)).2 = .ret code out) {d : Done} (fetched : d.fetched i = none)
    (promised : d.promised i = if code = ok then some x else none) :
    Carries t frame i n f (d :: recent) := by
  have kept : code ≠ ok → f ∈ t.woken (.dqueue i) → f ∈ s.woken (.dqueue i) := fun failed =>
    woken_of_reply inv allowed next fun code' data' reply' =>
      (Reply.ret.inj (reply.symm.trans reply')).1 ▸ failed
  simp only [System.step] at next
  split_ifs at next
  obtain rfl := Option.some.inj next
  obtain ⟨l,contains,balanced⟩ := h.contents
  have tSize : (s.queue .dynamic i).osqTSize = 4 := contains.choose_spec.1.tSize
  have bytes : (List.range (s.queue .dynamic i).osqTSize).map (fun m => x.getD m 0) = x := by
    apply List.ext_getElem
    · simp [tSize,length]
    · intro m hm hm'
      simp [List.getElem?_eq_getElem hm']
  have rings : System.Rings s.toKernel .dynamic i 4 (.dqueuePost i x) (s.queuePost .dynamic i
      ((List.range (s.queue .dynamic i).osqTSize).map fun m => x.getD m 0)) :=
    System.queuePost_rings (by simp) (fun r hc => by simp [Record.effect,hc,tSize])
  have point : (s.enter (some s.currentTask) (.dqueuePost i x)).point = s.point := by
    rw [System.enter_ret reply]
    rfl
  have ring : (s.enter (some s.currentTask) (.dqueuePost i x)).queue .dynamic i =
      ((s.serve (.dqueuePost i x)).1).queue .dynamic i :=
    congrArg (Kernel.queue · .dynamic i) (System.enter_toKernel _ _)
  have ringed := rings.returns (r := ⟨none,.dqueuePost i x,code,out,0,false⟩) reply rfl
  have effect : Record.effect .dynamic i 4 ⟨none,.dqueuePost i x,code,out,0,false⟩ =
      if code = ok then some (.accepted x) else none := by
    rw [tSize] at bytes
    simp only [Record.effect,true_and,bytes]
    rfl
  rw [effect] at ringed
  obtain ⟨size,l',applied,contains'⟩ := OsQueue.Ringed.contains (ring ▸ ringed) h.length contains
  refine ⟨fun p => h.own (point ▸ p),h.only,size,fun woken => ?_,l',contains',?_⟩
  · rw [contains'.entries.1]
    split_ifs at applied with success
    · obtain rfl := Option.some.inj applied
      simp
    · obtain rfl := Option.some.inj applied
      rw [← contains.entries.1]
      exact h.fed (kept success woken)
  · split_ifs at applied promised with success
    · obtain rfl := Option.some.inj applied
      exact balanced.post promised fetched
    · obtain rfl := Option.some.inj applied
      exact balanced.plain promised fetched

section Pend
variable {w timeout startTime : ℕ}

/-- OSDQueuePend has returned without suspending the thread. -/
theorem Carries.pend_returns (h : Carries s frame i n f recent) (here : s.currentTask = f)
    (waits : frame f = .pend (.dqueue i) timeout startTime)
    (next : s.step (.call (.queuePend .dynamic i w)) = some t) {code : ℕ} {data : List ℕ}
    (reply : (s.serve (.queuePend .dynamic i w)).2 = .ret code data) :
    Carries t (if code = ok then Function.update frame f (.obtained (.dqueue i) startTime data) else frame)
      i n f recent := by
  simp only [System.step] at next
  split_ifs at next with guard
  obtain rfl := Option.some.inj next
  have point : (s.enter (some s.currentTask) (.queuePend .dynamic i w)).point = s.point := by
    rw [System.enter_ret reply]
    rfl
  have rings : System.Rings s.toKernel .dynamic i 4 (.queuePend .dynamic i w) (s.queuePend .dynamic i w) :=
    System.queuePend_rings w
  have ringed := rings.returns (r := ⟨none,.queuePend .dynamic i w,code,data,0,false⟩) reply rfl
  have effect : Record.effect .dynamic i 4 ⟨none,.queuePend .dynamic i w,code,data,0,false⟩ =
      if code = ok then some (.delivered data) else none := by
    simp only [Record.effect,true_and]
    rfl
  rw [effect] at ringed
  refine h.taken waits (point ▸ here ▸ guard.2.1) (fun u _ => by rw [point]) ?_
  rw [congrArg (Kernel.queue · .dynamic i) (System.enter_toKernel (some s.currentTask) _)]
  exact ringed

/-- OSDQueuePend has suspended the thread. -/
theorem Carries.pend_sleeps (h : Carries s frame i n f recent) (inv : s.Inv) {P : View.Policy}
    (here : s.currentTask = f) (waits : frame f = .pend (.dqueue i) timeout startTime)
    (allowed : s.Allowed P (.call (.queuePend .dynamic i w)))
    (next : s.step (.call (.queuePend .dynamic i w)) = some t) {x : Point}
    (reply : (s.serve (.queuePend .dynamic i w)).2 = .sleep x) : Carries t frame i n f recent := by
  have kept : f ∈ t.woken (.dqueue i) → f ∈ s.woken (.dqueue i) :=
    woken_of_reply inv allowed next fun code data back => by simp [reply] at back
  simp only [System.step] at next
  split_ifs at next with guard
  obtain rfl := Option.some.inj next
  have rings : System.Rings s.toKernel .dynamic i 4 (.queuePend .dynamic i w) (s.queuePend .dynamic i w) :=
    System.queuePend_rings w
  have ring := rings.sleeps reply
  have same : (s.enter (some s.currentTask) (.queuePend .dynamic i w)).queue .dynamic i =
      s.queue .dynamic i :=
    (congrArg (Kernel.queue · .dynamic i) (System.enter_toKernel (some s.currentTask) _)).trans ring
  refine ⟨fun {u p v} point => ?_,h.only,same ▸ h.length,fun woken => ?_,?_⟩
  · by_cases other : u = f
    · exact ⟨timeout,startTime,other ▸ waits⟩
    · exact h.own ((System.enter_point_other _ _ (here ▸ other)).symm.trans point)
  · rw [same]
    exact h.fed (kept woken)
  · rw [same]
    exact h.contents

/-- The thread takes up its OSDQueuePend. -/
theorem Carries.resumed (h : Carries s frame i n f recent) (inv : s.Inv) (here : s.currentTask = f)
    (waits : frame f = .pend (.dqueue i) timeout startTime) {p : ℕ}
    (point : s.point f = .pend (.dqueue i) p w) (next : s.step .resume = some t) :
    let r := s.resumePend (.dqueue i) p w
    Carries t (if r.2.1 = ok then Function.update frame f (.obtained (.dqueue i) startTime r.2.2) else frame)
      i n f recent := by
  subst here
  simp only [System.step] at next
  split_ifs at next with running
  have moved := System.proceed_point next
  have fed : (s.wakeUp (.dqueue i) p w).2 = false → 0 < (s.queue .dynamic i).osqEntries := fun early => by
    have woken := System.woken_resume inv.sound point (inv.due_pend running point) moved
      (System.proceed_event point next)
    rw [if_neg (by simpa [System.wakeUp_late_enter] using early)] at woken
    exact h.fed woken.1
  have ringed := System.resumeQueuePend_rings (k := s.toKernel) (d := .dynamic) fed
  refine h.taken waits (by rw [moved,Function.update_self])
    (fun u other => by rw [moved,Function.update_of_ne other]) ?_
  unfold System.proceed at next
  simp only [point,Option.some.injEq] at next
  rw [← next]
  exact ringed

end Pend

/-! ### Runs of the port -/

variable (s : Port cfg)

/-- The step of the kernel in a step of the port. -/
def under : PortAction → Option Action
  | .kernel a => some a
  | .mboxPost mbox data | .mboxTrypost mbox data => some (.call (.dqueuePost mbox data.bytes))
  | .mboxFetch _ _ | .semWait _ _ | .finish => none
  | .pend =>
    match s.frame s.currentTask with
    | .pend o timeout _ => some (.call (o.pendCall (pendTime cfg timeout)))
    | _ => none
  | .resume => some .resume

/-- The services are called as their contracts say. -/
def Lawful (a : PortAction) : Prop := ∀ k ∈ s.under a, s.Allowed .restoring k

instance (a : PortAction) : Decidable (s.Lawful a) := by unfold Lawful; infer_instance

variable {s} {t : Port cfg} {a : PortAction}

@[simp] theorem answered_toSystem (u : ℕ) (o : Obj) (timeout startTime code : ℕ) (data : List ℕ) :
    (s.answered u o timeout startTime code data).toSystem = s.toSystem := by
  unfold answered
  split_ifs <;> rfl

theorem answered_frame {u v : ℕ} (other : v ≠ u) (o : Obj) (timeout startTime code : ℕ) (data : List ℕ) :
    (s.answered u o timeout startTime code data).frame v = s.frame v := by
  unfold answered
  split_ifs
  · exact Function.update_of_ne other _ _
  · rfl
  · exact Function.update_of_ne other _ _

theorem wait_eq {o : Obj} {timeout : ℕ} (waits : s.wait o timeout = some t) :
    s.Acts ∧ s.frame s.currentTask = .idle ∧ t.toSystem = s.toSystem ∧ t.returns = s.returns ∧
      t.frame = Function.update s.frame s.currentTask (.pend o timeout s.time) := by
  obtain ⟨⟨acts,idle⟩,waits⟩ := Option.ite_none_right_eq_some.mp waits
  obtain rfl := Option.some.inj waits
  exact ⟨acts,idle,rfl,rfl,rfl⟩

theorem under_pend {o : Obj} {timeout startTime : ℕ} (frame : s.frame s.currentTask = .pend o timeout startTime) :
    s.under .pend = some (.call (o.pendCall (pendTime cfg timeout))) := by
  simp only [under,frame]

theorem under_step (next : s.step a = some t) :
    (∃ k ∈ s.under a, s.toSystem.step k = some t.toSystem) ∨ t.toSystem = s.toSystem := by
  cases step_happens next with
  | kernel own moved => exact Or.inl ⟨_,rfl,moved⟩
  | post idle moved reply | trypost idle moved reply => exact Or.inl ⟨_,rfl,moved⟩
  | fetch waits | wait waits => exact Or.inr (wait_eq waits).2.2.1
  | returned frame moved reply | asleep frame moved reply =>
    exact Or.inl ⟨_,under_pend frame,by simpa using moved⟩
  | resumed frame point moved => exact Or.inl ⟨_,rfl,by simpa using moved⟩
  | finish frame acts => exact Or.inr rfl

/-- A thread in a pend is suspended there and nowhere else. -/
structure Sane (s : Port cfg) : Prop where
  inv : s.toSystem.Inv
  agree {u p w timeout startTime : ℕ} {o q : Obj} : s.frame u = .pend o timeout startTime →
    s.point u = .pend q p w → q = o
  small {u : ℕ} : s.frame u ≠ .idle → u < 33

theorem Sane.others (h : Sane s) (next : s.step a = some t) {u : ℕ} (other : u ≠ s.currentTask) :
    t.frame u = s.frame u ∧ t.point u = s.point u := by
  have point : t.point u = s.point u := by
    rcases under_step next with ⟨k,_,moved⟩ | same
    · exact System.point_of_step h.inv.dormant moved fun _ => other
    · rw [same]
  refine ⟨?_,point⟩
  cases step_happens next with
  | kernel | post | trypost | asleep => rfl
  | fetch waits | wait waits => rw [(wait_eq waits).2.2.2.2,Function.update_of_ne other]
  | returned | resumed => exact answered_frame other _ _ _ _ _
  | finish => exact Function.update_of_ne other _ _

theorem Sane.step (h : Sane s) (lawful : s.Lawful a) (next : s.step a = some t) : Sane t where
  inv := by
    rcases under_step next with ⟨k,under,moved⟩ | same
    · exact (System.step_inv View.Policy.restoring_safe h.inv trivial (lawful k under) moved).2
    · exact same ▸ h.inv
  agree {u p w timeout startTime o q} frame point := by
    by_cases other : u ≠ s.currentTask
    · obtain ⟨sameFrame,samePoint⟩ := h.others next other
      exact h.agree (sameFrame ▸ frame) (samePoint ▸ point)
    obtain rfl := not_not.mp other
    cases step_happens next with
    | kernel own moved =>
      refine h.agree frame ((System.point_of_step h.inv.dormant moved fun task => ?_) ▸ point)
      simp [own task] at frame
    | post idle moved reply | trypost idle moved reply => simp [idle] at frame
    | fetch waits | wait waits =>
      obtain ⟨acts,_,same,_,_⟩ := wait_eq waits
      rw [same,acts.2.1] at point
      cases point
    | returned frame' moved reply => simp [System.call_returns moved reply] at point
    | asleep frame' moved reply =>
      obtain rfl := (Frame.pend.inj (frame.symm.trans frame')).1
      have on := (System.serve_sleeps reply).2.2.2.1
      obtain rfl := (System.call_sleeps moved reply).symm.trans point
      exact Option.some.inj (on.trans (System.pendCall_target _ _))
    | resumed frame' point' moved => simp [System.resume_runs moved] at point
    | finish frame' acts => simp [leave,Port.setFrame] at frame
  small {u} busy := by
    by_cases other : u ≠ s.currentTask
    · exact h.small ((h.others next other).1 ▸ busy)
    obtain rfl := not_not.mp other
    cases step_happens next with
    | kernel own moved => exact h.small busy
    | post idle moved reply | trypost idle moved reply => exact absurd idle busy
    | fetch waits | wait waits =>
      have := h.inv.sound.handle (h.inv.current (wait_eq waits).1.1.1)
      omega
    | returned frame | asleep frame | resumed frame | finish frame => exact h.small (by simp [frame])

theorem sane_init : Sane (init cfg) where
  inv := System.init_inv
  agree := nofun
  small busy := absurd rfl busy

variable (s) in
/-- The mailbox is used through the port, one thread fetches, and no sys_mbox_post finds it full. -/
def Tends (i f : ℕ) : PortAction → Prop
  | .kernel a => a.uses i = false
  | .mboxPost mbox _ => mbox = i → s.notCreated (.dqueue i) = false ∧
      (s.queue .dynamic i).osqEntries < (s.queue .dynamic i).osqLength
  | .mboxFetch mbox _ => mbox = i → s.currentTask = f
  | _ => True

instance (i f : ℕ) (a : PortAction) : Decidable (s.Tends i f a) := by
  rcases a <;> unfold Tends <;> infer_instance

/-- A pend of a thread on something else. -/
theorem not_concerns {o : Obj} (other : o ≠ .dqueue i) (w : ℕ) :
    ¬ s.Concerns (.dqueue i) (.call (o.pendCall w)) := fun touches => by
  refine not_touches ?_ touches
  cases o with
  | dqueue j => simpa [Obj.pendCall,Call.uses,Call.target,QueueKind.obj] using other
  | _ => simp [Obj.pendCall,Call.uses,Call.target,QueueKind.obj]

theorem post_elsewhere {mbox : ℕ} (other : mbox ≠ i) (x : List ℕ) :
    ¬ s.Concerns (.dqueue i) (.call (.dqueuePost mbox x)) := fun touches =>
  other (Obj.dqueue.inj touches).symm

theorem Carries.answered {u : System cfg} {v : ℕ} {o : Obj} {timeout startTime code : ℕ} {data : List ℕ}
    (run : u.point v = .run) (only : o = .dqueue i → v = f)
    (taken : Carries u (if o = .dqueue i ∧ code = ok then
      Function.update s.frame v (.obtained (.dqueue i) startTime data) else s.frame) i n f recent)
    (waits : s.frame v = .pend o timeout startTime) :
    ∃ more, (Port.answered { s with toSystem := u } v o timeout startTime code data).returns = more ++ s.returns ∧
      Carries u (Port.answered { s with toSystem := u } v o timeout startTime code data).frame i n f
        (more ++ recent) := by
  unfold Port.answered
  split_ifs with success forever
  · refine ⟨[],rfl,?_⟩
    by_cases here : o = .dqueue i
    · simpa [here,success,ok,Port.setFrame] using taken
    · rw [if_neg (by simp [here])] at taken
      exact taken.setFrame run (fun obj => only (Option.some.inj obj)) (by simp [waits,Frame.carried,here])
  · refine ⟨[],rfl,?_⟩
    rwa [if_neg (by simp [ok,success])] at taken
  · refine ⟨[.waited o sysArchTimeout none (s.ticks-s.since v)],rfl,?_⟩
    rw [if_neg (by simp [ok,success])] at taken
    exact (taken.setFrame run (by simp [Frame.obj]) (by simp [waits,Frame.carried])).plain rfl
      (by simp [Done.fetched])

/-- A step of the kernel that is none of the port. -/
theorem Carries.far (h : Carries s.toSystem s.frame i n f recent) {k : Action}
    (own : k.byTask = true → s.frame s.currentTask = .idle) (unused : k.uses i = false) :
    ¬ s.Concerns (.dqueue i) k := by
  cases k with
  | main c | call c | isrCall c => exact not_touches unused
  | resume =>
    intro on
    cases point : s.point s.currentTask with
    | run | delay w => simp [System.Concerns,point,Point.on] at on
    | pend q p w =>
      obtain rfl : q = .dqueue i := by simpa [System.Concerns,point,Point.on] using on
      obtain ⟨timeout,startTime,frame⟩ := h.own point
      simp [own rfl] at frame
  | process fuel j b =>
    intro near
    cases near.2
  | _ => exact id

theorem Carries.step (h : Carries s.toSystem s.frame i n f recent) (sane : Sane s) (lawful : s.Lawful a)
    (tends : s.Tends i f a) (next : s.step a = some t) :
    ∃ more, t.returns = more ++ s.returns ∧ Carries t.toSystem t.frame i n f (more ++ recent) := by
  have inv := sane.inv
  have still : ∀ {k : Action} {u : System cfg}, ¬ s.Concerns (.dqueue i) k →
      s.toSystem.step k = some u → Carries u s.frame i n f recent := fun far moved =>
    h.apart (System.step_apart inv.dormant far moved)
  cases step_happens next with
  | kernel own moved => exact ⟨[],rfl,still (h.far own tends) moved⟩
  | @post mbox code data out u idle moved reply =>
    refine ⟨[_],rfl,?_⟩
    by_cases here : mbox = i
    · subst here
      obtain ⟨created,room⟩ := tends rfl
      have accepted : (s.serve (.dqueuePost mbox data.bytes)).2 = .ret writeBufferOk [] :=
        (Kernel.queuePost_room (d := .dynamic) created room _).1
      obtain rfl : writeBufferOk = code := (Reply.ret.inj (accepted.symm.trans reply)).1
      exact h.posted inv (lawful _ rfl) moved data.size reply rfl (by simp [Done.promised,writeBufferOk,ok])
    · exact (still (post_elsewhere here _) moved).plain (by simp [Done.promised,here]) rfl
  | @trypost mbox code data out u idle moved reply =>
    refine ⟨[_],rfl,?_⟩
    by_cases here : mbox = i
    · subst here
      refine h.posted inv (lawful _ rfl) moved data.size reply rfl ?_
      by_cases success : code = 0 <;> simp [Done.promised,success,ok,errOk,errMem]
    · exact (still (post_elsewhere here _) moved).plain (by simp [Done.promised,here]) rfl
  | fetch waits =>
    obtain ⟨acts,idle,same,returns,frame⟩ := wait_eq waits
    refine ⟨[],returns,?_⟩
    rw [same,frame]
    exact h.setFrame acts.2.1 (fun obj => tends (Obj.dqueue.inj (Option.some.inj obj)))
      (by simp [idle,Frame.carried])
  | wait waits =>
    obtain ⟨acts,idle,same,returns,frame⟩ := wait_eq waits
    refine ⟨[],returns,?_⟩
    rw [same,frame]
    exact h.setFrame acts.2.1 (by simp [Frame.obj]) (by simp [idle,Frame.carried])
  | @returned o timeout startTime code data u frame moved reply =>
    have only : o = .dqueue i → s.currentTask = f := fun e => h.only (by rw [frame,e]; rfl)
    rw [answered_toSystem]
    refine Carries.answered (System.call_returns moved reply) only ?_ frame
    by_cases here : o = .dqueue i
    · subst here
      simpa [only rfl] using h.pend_returns (only rfl) (only rfl ▸ frame) moved reply
    · rw [if_neg (by simp [here])]
      exact still (not_concerns here _) moved
  | @asleep o timeout startTime p u frame moved reply =>
    refine ⟨[],rfl,?_⟩
    by_cases here : o = .dqueue i
    · subst here
      have only : s.currentTask = f := h.only (by rw [frame]; rfl)
      exact h.pend_sleeps inv only (only ▸ frame) (lawful _ (under_pend frame)) moved reply
    · exact still (not_concerns here _) moved
  | @resumed o q timeout startTime p w u frame point moved =>
    obtain rfl := sane.agree frame point
    have only : q = .dqueue i → s.currentTask = f := fun e => h.only (by rw [frame,e]; rfl)
    rw [answered_toSystem]
    refine Carries.answered (System.resume_runs moved) only ?_ frame
    by_cases here : q = .dqueue i
    · subst here
      simpa [only rfl] using h.resumed inv (only rfl) (only rfl ▸ frame) (only rfl ▸ point) moved
    · rw [if_neg (by simp [here])]
      exact still (by simpa [System.Concerns,point,Point.on] using here) moved
  | @finish o startTime msg frame acts =>
    refine ⟨[_],rfl,?_⟩
    by_cases here : o = .dqueue i
    · subst here
      obtain rfl : s.currentTask = f := h.only (by rw [frame]; rfl)
      exact h.give acts.2.1 frame
    · exact (h.setFrame acts.2.1 (by simp [Frame.obj]) (by simp [frame,Frame.carried,here])).plain rfl
        (by simp [Done.fetched,here])

variable (s) in
/-- Main or a thread calls sys_mbox_new, its OSDQueueCreate makes the queue `i`, and nobody waits there
already. Handles end at 32. -/
def Makes (k : Action) (b : Kernel.Alloc) (size : ℤ) (i : ℕ) : Prop :=
  (k = .main (sysMboxNew b size) ∨ k = .call (sysMboxNew b size)) ∧ s.Lawful (.kernel k) ∧
    (s.serve (sysMboxNew b size)).2 = .ret allocEventOk [i] ∧
    ∀ u < 33, (s.frame u).obj ≠ some (.dqueue i)

instance (k : Action) (b : Kernel.Alloc) (size : ℤ) (i : ℕ) : Decidable (s.Makes k b size i) := by
  unfold Makes
  infer_instance

theorem carries_new {v : Port cfg} {k : Action} {b : Kernel.Alloc} {size : ℤ} (sane : Sane s)
    (makes : s.Makes k b size i) (create : s.step (.kernel k) = some v)
    (fits : (size%65536).toNat*4 < 65536) : Carries v.toSystem v.frame i (size%65536).toNat f [] := by
  obtain ⟨who,lawful,made,unused⟩ := makes
  have legal : s.Legal (sysMboxNew b size) := by
    rcases who with rfl | rfl <;> exact (lawful _ rfl).1.1
  have quiet : s.view.Unattended (.dqueue i) := System.unattended_of_quiet sane.inv.sound
    (legal.2 i (Kernel.osDQueueCreate_handler made))
  obtain ⟨caller,entered⟩ : ∃ caller, v.toSystem = s.enter caller (sysMboxNew b size) := by
    cases step_happens create with
    | kernel own moved =>
      rcases who with rfl | rfl <;> simp only [System.step] at moved <;> split_ifs at moved <;>
        exact ⟨_,(Option.some.inj moved).symm⟩
  have frame : v.frame = s.frame := by
    cases step_happens create
    rfl
  have point : v.point = s.point := by rw [entered,System.enter_ret made]; rfl
  have queued : v.toSystem.Queued .dynamic i (size%65536).toNat 4 [] :=
    System.queued_of_create rfl fits rfl rfl (show s.toSystem.Logs v.toSystem
      ⟨caller,sysMboxNew b size,allocEventOk,[i],0,false⟩ from .served made entered)
  have nobody : ∀ u, (v.frame u).obj ≠ some (.dqueue i) := fun u obj => by
    rw [frame] at obj
    by_cases idle : s.frame u = .idle
    · simp [idle,Frame.obj] at obj
    · exact unused u (sane.small idle) obj
  have awake : ∀ u p w, v.point u ≠ .pend (.dqueue i) p w := fun u p w asleep => by
    rw [point] at asleep
    exact quiet u p w asleep
  refine ⟨fun {u p w} asleep => absurd asleep (awake u p w),fun {u} obj => absurd obj (nobody u),
    queued.length,fun woken => ?_,?_⟩
  · rw [System.woken_of_quiet awake] at woken
    simp at woken
  · obtain ⟨l,replayed,contains⟩ := queued.contents
    obtain rfl := Option.some.inj replayed
    exact ⟨[],contains,by simp [Balanced,Frame.carried_nil (nobody f)]⟩

/-- The messages that sys_mbox_post and sys_mbox_trypost have taken since the mailbox was made in `v`,
the first one first, are those that `f` has fetched, then the one that its fetch is about to return,
and then those in the queue. -/
def Kept (v s : Port cfg) (i n f : ℕ) : Prop := ∃ recent l, s.returns = recent ++ v.returns ∧
  (s.queue .dynamic i).Contains n 4 l ∧ Balanced i recent (s.frame f) l

theorem mailbox_keeps {u v : Port cfg} {k : Action} {b : Kernel.Alloc} {size : ℤ}
    (run : Run.Reach step Lawful (init cfg) u) (makes : u.Makes k b size i)
    (create : u.step (.kernel k) = some v) (fits : (size%65536).toNat*4 < 65536)
    (later : Run.Reach step (fun s a => s.Lawful a ∧ s.Tends i f a) v s) :
    Kept v s i (size%65536).toNat f := by
  have sane : Sane u := run.invariant sane_init fun _ _ _ h ok next => h.step ok next
  have start : Sane v := sane.step makes.2.1 create
  have kept : Sane s ∧ ∃ recent, s.returns = recent ++ v.returns ∧
      Carries s.toSystem s.frame i (size%65536).toNat f recent := by
    refine later.invariant (P := fun s => Sane s ∧ ∃ recent, s.returns = recent ++ v.returns ∧
      Carries s.toSystem s.frame i (size%65536).toNat f recent)
      ⟨start,[],rfl,carries_new sane makes create fits⟩ ?_
    rintro x a y ⟨sane,recent,returns,carries⟩ ok next
    obtain ⟨more,returns',carries'⟩ := carries.step sane ok.1 ok.2 next
    exact ⟨sane.step ok.1 next,more ++ recent,by rw [returns',returns,List.append_assoc],carries'⟩
  obtain ⟨-,recent,returns,carries⟩ := kept
  obtain ⟨l,contains,balanced⟩ := carries.contents
  exact ⟨recent,l,returns,contains,balanced⟩

/-- Thread 2 makes a mailbox for two messages and waits there; thread 1 posts one, which it fetches, and
then another one. -/
theorem mailbox_example : ∃ v s : Port .port, Kept v s 0 2 2 ∧ s.returns.length = 3 := by
  obtain ⟨u,run,makes,v,create,posted⟩ := Run.exists_reach_of_exec step Lawful (init .port)
    [.kernel (.main (.install (.user 1) 16 3)),.kernel (.main (.install (.user 2) 16 4)),.kernel .start]
    (fun u => u.Makes (.call (sysMboxNew ⟨some 0,some 0,true⟩ 2)) ⟨some 0,some 0,true⟩ 2 0 ∧
      ∃ v ∈ u.step (.kernel (.call (sysMboxNew ⟨some 0,some 0,true⟩ 2))),
        (Run.exec step (fun s a => s.Lawful a ∧ s.Tends 0 2 a) v [.mboxFetch 0 0,.pend,.kernel .switch,
          .mboxPost 0 ⟨[1,2,3,4],rfl⟩,.kernel .switch,.resume,.finish,.mboxTrypost 0 ⟨[5,6,7,8],rfl⟩]).map
            (fun s => s.returns.length) = some 3)
    (by decide +kernel)
  obtain ⟨s,later,length⟩ := Option.map_eq_some_iff.mp posted
  exact ⟨v,s,mailbox_keeps run makes create (by decide) (Run.exec_reach later),length⟩

/-- The mailbox has room for one message: the second sys_mbox_post loses its own. -/
theorem mailbox_fails : ∃ u v s : Port .port, Run.Reach step Lawful (init .port) u ∧
    u.Makes (.call (sysMboxNew ⟨some 0,some 0,true⟩ 1)) ⟨some 0,some 0,true⟩ 1 0 ∧
    u.step (.kernel (.call (sysMboxNew ⟨some 0,some 0,true⟩ 1))) = some v ∧
    Run.exec step Lawful v [.mboxPost 0 ⟨[1,2,3,4],rfl⟩,.mboxPost 0 ⟨[5,6,7,8],rfl⟩] = some s ∧
      ¬ Kept v s 0 1 2 := by
  obtain ⟨u,run,makes,v,create,before,posted⟩ := Run.exists_reach_of_exec step Lawful (init .port)
    [.kernel (.main (.install (.user 1) 16 3)),.kernel (.main (.install (.user 2) 16 4)),.kernel .start]
    (fun u => u.Makes (.call (sysMboxNew ⟨some 0,some 0,true⟩ 1)) ⟨some 0,some 0,true⟩ 1 0 ∧
      ∃ v ∈ u.step (.kernel (.call (sysMboxNew ⟨some 0,some 0,true⟩ 1))), v.returns = [] ∧
        (Run.exec step Lawful v [.mboxPost 0 ⟨[1,2,3,4],rfl⟩,.mboxPost 0 ⟨[5,6,7,8],rfl⟩]).map
          (fun s => (s.returns,(s.queue .dynamic 0).osqEntries,s.frame 2)) =
            some ([.posted 0 ⟨[5,6,7,8],rfl⟩ bufferUnderrun,.posted 0 ⟨[1,2,3,4],rfl⟩ 0],1,.idle))
    (by decide +kernel)
  obtain ⟨s,posts,result⟩ := Option.map_eq_some_iff.mp posted
  obtain ⟨returns,entries,idle⟩ : s.returns = _ ∧ _ = 1 ∧ s.frame 2 = .idle := by simpa using result
  refine ⟨u,v,s,run,makes,create,posts,?_⟩
  rintro ⟨recent,l,same,contains,balanced⟩
  rw [before,List.append_nil,returns] at same
  rw [← same,idle] at balanced
  have two : l.length = 2 := by
    simpa [List.filterMap_cons,Done.promised,Done.fetched,Frame.carried] using
      (congrArg List.length balanced).symm
  rw [contains.entries.1,two] at entries
  contradiction

end Port
end Brtos
