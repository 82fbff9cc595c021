import Brtos.Cells
import Brtos.Waiting

/-! A step leaves every event alone that it does not concern: its data, the tasks suspended on it
and the calls on it that have returned. -/
namespace Brtos

namespace System
variable {cfg : Config} (s : System cfg) (o : Obj)

/-- The events whose data or whose tasks an action may change. -/
def Concerns : Action → Prop
  | .main c | .call c | .isrCall c => s.Touches o c
  | .resume => (s.point s.currentTask).on = some o
  | .process _ uartQueue _ => s.pendingInterrupts.getLsbD interruptUart = true ∧ o = .queue uartQueue
  | _ => False

/-- Nothing about the event has changed. -/
structure Apart (t : System cfg) : Prop where
  cell : t.cell o = s.cell o
  point {u p w : ℕ} : t.point u = .pend o p w ↔ s.point u = .pend o p w
  log : ∃ l, t.log = l ++ s.log ∧ ∀ r ∈ l, r.call.target ≠ some o
  mail {i : ℕ} : o = .mbox i → t.mail i = s.mail i

variable {s o} {t u : System cfg}

theorem Apart.trans (h : s.Apart o t) (h' : t.Apart o u) : s.Apart o u where
  cell := h'.cell.trans h.cell
  point := h'.point.trans h.point
  log := by
    obtain ⟨l,hl,far⟩ := h.log
    obtain ⟨l',hl',far'⟩ := h'.log
    refine ⟨l'++l,by rw [hl',hl,List.append_assoc],fun r hr => ?_⟩
    rcases List.mem_append.mp hr with hr | hr
    · exact far' r hr
    · exact far r hr
  mail e := (h'.mail e).trans (h.mail e)

/-- A step of the kernel alone. -/
theorem Apart.kernel {k : Kernel cfg} (h : k.cell o = s.cell o) :
    s.Apart o ({ s with toKernel := k } : System cfg) where
  cell := h
  point := Iff.rfl
  log := ⟨[],rfl,by simp⟩
  mail _ := rfl

theorem select_cell (k : Kernel cfg) : k.select.cell o = k.cell o := by cases o <;> rfl

theorem clearInterrupt_cell (k : Kernel cfg) (n : ℕ) : (k.clearInterrupt n).cell o = k.cell o := by
  cases o <;> rfl

theorem raiseInterrupt_cell (k : Kernel cfg) (n : ℕ) : (k.raiseInterrupt n).cell o = k.cell o := by
  cases o <;> rfl

theorem withNesting_cell (k : Kernel cfg) (n : ℕ) :
    ({ k with iNesting := n } : Kernel cfg).cell o = k.cell o := by cases o <;> rfl

theorem touches_of_target {c : Call} (h : c.target = some o) : s.Touches o c := by
  cases c <;> simp only [Call.target,Option.some.injEq,reduceCtorEq] at h <;> exact h.symm

theorem nextMail_apart {c : Call} (h : ¬ s.Touches o c) {i : ℕ} (ho : o = .mbox i) {code : ℕ}
    {data : List ℕ} (reply : (s.serve c).2 = .ret code data) :
    s.nextMail c code data i = s.mail i := by
  subst ho
  cases c with
  | mboxCreate m =>
    match data with
    | [j] =>
      have found : s.findEvent .mbox cfg.brtosMaxMbox = some j := by
        simp only [Kernel.serve,Kernel.osMboxCreate,Kernel.enterTask_findEvent] at reply
        split_ifs at reply
        · simp at reply
        all_goals
          cases hf : s.findEvent .mbox cfg.brtosMaxMbox with
          | none => simp [hf] at reply
          | some n =>
            simp only [hf,Reply.ret.injEq,List.cons.injEq,and_true] at reply
            rw [reply.2]
      have apart : i ≠ j := fun e => h ⟨j,found,e ▸ rfl⟩
      simp [nextMail,apart]
    | [] => rfl
    | _ :: _ :: _ => rfl
  | mboxPost j m =>
    have apart : i ≠ j := fun e => h (e ▸ rfl)
    simp only [nextMail]
    split_ifs
    · exact Function.update_of_ne apart _ _
    · rfl
  | _ => rfl

theorem enter_apart (who : Option ℕ) {c : Call} (h : ¬ s.Touches o c)
    (awake : ∀ p, (s.serve c).2 = .sleep p → s.point s.currentTask = .run) :
    s.Apart o (s.enter who c) := by
  have far : c.target ≠ some o := fun e => h (touches_of_target e)
  refine ⟨?_,?_,?_,?_⟩
  · have kernel := enter_toKernel (s := s) who c
    have same := Kernel.serve_cell h
    rw [← kernel] at same
    exact same
  · intro u p w
    unfold enter
    cases hr : (s.serve c).2 with
    | ret code data => rfl
    | sleep q =>
      by_cases e : u = s.currentTask
      · subst e
        have on : q.on = c.target := (serve_sleeps hr).2.2.2.1
        simp only [setPoint,Function.update_self,awake q hr,reduceCtorEq,iff_false]
        rintro rfl
        exact far on.symm
      · simp only [setPoint,Function.update_of_ne e]
  · unfold enter
    cases hr : (s.serve c).2 with
    | ret code data => exact ⟨[_],rfl,fun r hr => by simpa [List.mem_singleton.mp hr] using far⟩
    | sleep q => exact ⟨[],rfl,by simp⟩
  · intro i ho
    unfold enter
    cases hr : (s.serve c).2 with
    | ret code data => exact nextMail_apart h ho hr
    | sleep q => rfl

theorem pendCall_target (q : Obj) (w : ℕ) : (q.pendCall w).target = some q := by cases q <;> rfl

theorem proceed_apart (h : (s.point s.currentTask).on ≠ some o) (ht : s.proceed = some t) :
    s.Apart o t := by
  have point : ∀ {u p w}, Function.update s.point s.currentTask .run u = .pend o p w ↔
      s.point u = .pend o p w := fun {u p w} => by
    by_cases e : u = s.currentTask
    · subst e
      rw [Function.update_self]
      refine ⟨by simp,fun hp => absurd ?_ h⟩
      rw [hp]
      rfl
    · rw [Function.update_of_ne e]
  unfold proceed at ht
  cases hp : s.point s.currentTask with
  | run => simp [hp] at ht
  | delay w =>
    simp only [hp,Option.some.injEq] at ht
    subst ht
    exact ⟨rfl,point,⟨[_],rfl,fun r hr => by simp [List.mem_singleton.mp hr,Call.target]⟩,fun _ => rfl⟩
  | pend q p w =>
    simp only [hp,Option.some.injEq] at ht
    subst ht
    have apart : o ≠ q := fun e => h (by rw [hp,e]; rfl)
    refine ⟨Kernel.resumePend_cell apart p w,point,⟨[_],rfl,fun r hr => ?_⟩,fun _ => ?_⟩
    · rw [List.mem_singleton.mp hr]
      exact fun e => apart (Option.some.inj (e.symm.trans (pendCall_target q w)))
    · cases q <;> rfl

theorem uartState_apart {fuel : ℕ} (hu : s.uartState fuel = some u) : s.Apart o u := by
  unfold uartState at hu
  dsimp only at hu
  split_ifs at hu
  · obtain ⟨k,hk,rfl⟩ := Option.map_eq_some_iff.mp hu
    refine Apart.kernel ?_
    rw [clearInterrupt_cell,Kernel.tick_cell (k := s.clearInterrupt Kernel.interruptSwc) hk,
      clearInterrupt_cell]
  · exact Option.some.inj hu ▸ Apart.kernel (clearInterrupt_cell _ _)

theorem osQueuePost_awake (i b : ℕ) (p : Point) : (s.serve (.queuePost i b)).2 ≠ .sleep p :=
  fun h => by simpa [Call.fromIsr] using (serve_sleeps h).2.1

theorem process_apart {fuel i b : ℕ}
    (far : ¬ (s.pendingInterrupts.getLsbD interruptUart = true ∧ o = .queue i))
    (ht : s.process fuel i b = some t) : s.Apart o t := by
  rw [process_eq] at ht
  obtain ⟨u,hu,rfl⟩ := Option.map_eq_some_iff.mp ht
  have first := uartState_apart (o := o) hu
  by_cases uart : s.pendingInterrupts.getLsbD interruptUart = true
  · have apart : o ≠ .queue i := fun e => far ⟨uart,e⟩
    have posted : u.Apart o (u.enter none (.queuePost i b)) :=
      enter_apart none apart fun p hp => absurd hp (osQueuePost_awake i b p)
    simp only [uart,if_true]
    refine (first.trans posted).trans (Apart.kernel ?_)
    rw [select_cell,clearInterrupt_cell]
  · simp only [uart]
    exact first.trans (Apart.kernel (select_cell _))

/-- Before the start no task is running, and none is suspended. -/
def Dormant (s : System cfg) : Prop := s.started = false → s.currentTask = 0 ∧ ∀ t, s.point t = .run

theorem process_started {fuel i b : ℕ} (ht : s.process fuel i b = some t) : t.started = s.started := by
  rw [process_eq] at ht
  obtain ⟨u,hu,rfl⟩ := Option.map_eq_some_iff.mp ht
  have begun : u.started = s.started := by
    unfold uartState at hu
    dsimp only at hu
    split_ifs at hu
    · obtain ⟨k,_,rfl⟩ := Option.map_eq_some_iff.mp hu
      rfl
    · exact Option.some.inj hu ▸ rfl
  rw [← begun]
  dsimp only
  split_ifs
  · exact enter_started none _
  · rfl

/-- The steps other than those of main need a system that has been started, and do not stop it. -/
theorem step_started {a : Action} (next : s.step a = some t) :
    (∃ c, a = .main c) ∨ a = .start ∨ s.started = true ∧ t.started = true := by
  cases a with
  | main c => exact Or.inl ⟨c,rfl⟩
  | start => exact Or.inr (Or.inl rfl)
  | call c =>
    simp only [step] at next
    split_ifs at next with hg
    exact Or.inr (Or.inr ⟨hg.1.1,Option.some.inj next ▸ (enter_started _ c).trans hg.1.1⟩)
  | resume =>
    simp only [step] at next
    split_ifs at next with hg
    exact Or.inr (Or.inr ⟨hg.1,(proceed_started next).trans hg.1⟩)
  | isrTick fuel =>
    simp only [step] at next
    split_ifs at next with hg
    obtain ⟨k,_,rfl⟩ := Option.map_eq_some_iff.mp next
    exact Or.inr (Or.inr ⟨hg.1,hg.1⟩)
  | isrCall c =>
    simp only [step] at next
    split_ifs at next with hg
    exact Or.inr (Or.inr ⟨hg.1,Option.some.inj next ▸ (enter_started _ c).trans hg.1⟩)
  | process fuel i b =>
    simp only [step] at next
    split_ifs at next with hg
    exact Or.inr (Or.inr ⟨hg.1,(process_started next).trans hg.1⟩)
  | isrEnter | isrExit | switch | raise =>
    simp only [step] at next
    split_ifs at next with hg
    all_goals exact Or.inr (Or.inr ⟨hg.1,Option.some.inj next ▸ hg.1⟩)

theorem Dormant.step (h : s.Dormant) {a : Action} (next : s.step a = some t) : t.Dormant := by
  intro stopped
  rcases step_started next with ⟨c,rfl⟩ | rfl | ⟨_,started⟩
  · simp only [System.step] at next
    split_ifs at next with hg
    obtain rfl := Option.some.inj next
    have current := Kernel.currentTask_of_vital (s.serve_vital c)
    rw [← enter_toKernel none c] at current
    refine ⟨current.trans (h hg.1).1,?_⟩
    rw [enter_point fun p hp => (serve_sleeps hp).2.2.1 hg.2 (h hg.1).1]
    exact (h hg.1).2
  · simp only [System.step] at next
    split_ifs at next with hg
    obtain rfl := Option.some.inj next
    refine ⟨?_,(h hg).2⟩
    have current := Kernel.currentTask_of_vital (s.serve_vital (.install .idle cfg.idleStackSize 0))
    have failed : (s.osInstallTask .idle cfg.idleStackSize 0).2.1 ≠ ok := fun e => by
      simp [Kernel.brtosStart,e] at stopped
    simp only [Kernel.brtosStart,ne_eq,failed,not_false_eq_true,if_true]
    exact current.trans (h hg).1
  · simp [started] at stopped

/-- In every run, whatever the services are called with. -/
theorem dormant_of_reach {ok' : System cfg → Action → Prop}
    (run : Run.Reach step ok' (init cfg) s) : s.Dormant :=
  run.invariant (fun _ => ⟨rfl,fun _ => rfl⟩) fun _ _ _ h _ next => h.step next

/-- A step leaves the events alone that it does not concern. -/
theorem step_apart (h : s.Dormant) {a : Action} (far : ¬ s.Concerns o a) (next : s.step a = some t) :
    s.Apart o t := by
  cases a with
  | main c =>
    simp only [step] at next
    split_ifs at next with hg
    obtain rfl := Option.some.inj next
    exact enter_apart none far fun p _ => (h hg.1).2 _
  | start =>
    simp only [step] at next
    split_ifs at next
    obtain rfl := Option.some.inj next
    have cell : s.brtosStart.1.cell o = s.cell o := by
      have first := Kernel.osInstallTask_cell (k := s.toKernel) (o := o) .idle cfg.idleStackSize 0
      simp only [Kernel.brtosStart]
      split_ifs
      · exact first
      · refine Eq.trans ?_ first
        cases o <;> rfl
    exact ⟨cell,Iff.rfl,⟨[],rfl,by simp⟩,fun _ => rfl⟩
  | call c =>
    simp only [step] at next
    split_ifs at next with hg
    obtain rfl := Option.some.inj next
    exact enter_apart _ far fun p _ => hg.2.1
  | resume =>
    simp only [step] at next
    split_ifs at next
    exact proceed_apart far next
  | isrEnter =>
    simp only [step] at next
    split_ifs at next
    exact Option.some.inj next ▸ Apart.kernel (withNesting_cell _ _)
  | isrTick fuel =>
    simp only [step] at next
    split_ifs at next
    obtain ⟨k,hk,rfl⟩ := Option.map_eq_some_iff.mp next
    exact Apart.kernel (Kernel.tick_cell hk)
  | isrCall c =>
    simp only [step] at next
    split_ifs at next with hg
    obtain rfl := Option.some.inj next
    exact enter_apart none far fun p hp => by
      have := (serve_sleeps hp).2.1
      simp [hg.2.2.2] at this
  | isrExit =>
    simp only [step] at next
    split_ifs at next
    · refine Option.some.inj next ▸ Apart.kernel ?_
      rw [select_cell,withNesting_cell]
    · exact Option.some.inj next ▸ Apart.kernel (withNesting_cell _ _)
  | switch =>
    simp only [step] at next
    split_ifs at next
    refine Option.some.inj next ▸ Apart.kernel ?_
    rw [clearInterrupt_cell,select_cell]
  | raise n =>
    simp only [step] at next
    split_ifs at next
    exact Option.some.inj next ▸ Apart.kernel (raiseInterrupt_cell _ _)
  | process fuel i b =>
    simp only [step] at next
    split_ifs at next
    exact process_apart far next

/-! ### What happens to one event -/

variable (s o) in
/-- A step that concerns an event is a call by main, by a task or by an interrupt handler, the rest
of a suspended pend, or the post of the UART. -/
inductive Happens : Action → System cfg → Prop
  | quiet {a : Action} {t : System cfg} (apart : s.Apart o t) : Happens a t
  | main {c : Call} (stopped : s.started = false) (from_ : c.fromMain = true)
      (touches : s.Touches o c) : Happens (.main c) (s.enter none c)
  | call {c : Call} (running : s.Running) (awake : s.point s.currentTask = .run)
      (user : s.inst s.currentTask ≠ 0) (touches : s.Touches o c) :
      Happens (.call c) (s.enter (some s.currentTask) c)
  | isr {c : Call} (port : cfg.criticalNests = false) (from_ : c.fromIsr = true)
      (touches : s.Touches o c) : Happens (.isrCall c) (s.enter none c)
  | resume {t : System cfg} {p w : ℕ} (running : s.Running)
      (point : s.point s.currentTask = .pend o p w) (next : s.proceed = some t) : Happens .resume t
  | uart {fuel i b : ℕ} {u : System cfg} (event : o = .queue i)
      (begun : s.uartState fuel = some u) : Happens (.process fuel i b)
        (let u := u.enter none (.queuePost i b)
          let u := { u with toKernel := u.clearInterrupt interruptUart }
          { u with toKernel := u.select })

/-- Every step is one of these. -/
theorem step_happens (h : s.Dormant) {a : Action} (o : Obj) (next : s.step a = some t) :
    s.Happens o a t := by
  by_cases far : ¬ s.Concerns o a
  · exact .quiet (step_apart h far next)
  have near : s.Concerns o a := not_not.mp far
  cases a with
  | main c =>
    simp only [step] at next
    split_ifs at next with hg
    exact Option.some.inj next ▸ .main hg.1 hg.2 near
  | call c =>
    simp only [step] at next
    split_ifs at next with hg
    exact Option.some.inj next ▸ .call hg.1 hg.2.1 hg.2.2 near
  | isrCall c =>
    simp only [step] at next
    split_ifs at next with hg
    exact Option.some.inj next ▸ .isr hg.2.1 hg.2.2.2 near
  | resume =>
    simp only [step] at next
    split_ifs at next with hg
    cases hp : s.point s.currentTask with
    | pend q p w =>
      obtain rfl : q = o := by simpa [Concerns,hp,Point.on] using near
      exact .resume hg hp next
    | _ => simp [Concerns,hp,Point.on] at near
  | process fuel i b =>
    simp only [step] at next
    split_ifs at next
    obtain ⟨uart,rfl⟩ := near
    rw [process_eq] at next
    obtain ⟨u,hu,rfl⟩ := Option.map_eq_some_iff.mp next
    simp only [uart,if_true]
    exact .uart rfl hu
  | _ => exact near.elim

theorem enter_log (who : Option ℕ) (c : Call) :
    (∃ code data, (s.serve c).2 = .ret code data ∧
      (s.enter who c).log = ⟨who,c,code,data,s.tagOf c,s.wokeBy c⟩ :: s.log) ∨
    (∃ p, (s.serve c).2 = .sleep p ∧ (s.enter who c).log = s.log) := by
  unfold enter
  cases hr : (s.serve c).2 with
  | ret code data => exact Or.inl ⟨code,data,rfl,rfl⟩
  | sleep p => exact Or.inr ⟨p,rfl,rfl⟩

theorem uartState_log {fuel : ℕ} (hu : s.uartState fuel = some u) : u.log = s.log := by
  unfold uartState at hu
  dsimp only at hu
  split_ifs at hu
  · obtain ⟨k,_,rfl⟩ := Option.map_eq_some_iff.mp hu
    rfl
  · exact Option.some.inj hu ▸ rfl

variable (s) in
/-- Where an entry of the log comes from. -/
inductive Logs (t : System cfg) (r : Record) : Prop
  | served {who : Option ℕ} (reply : (s.serve r.call).2 = .ret r.code r.data)
      (next : t = s.enter who r.call)
  | resumed (call : (∃ w, r.call = .delayTask w) ∨ ∃ (q : Obj) (w : ℕ), r.call = q.pendCall w)
  | uart (call : ∃ i b, r.call = .queuePost i b)

theorem enter_logs (who : Option ℕ) (c : Call) : (s.enter who c).log = s.log ∨
    ∃ r, (s.enter who c).log = r :: s.log ∧ r.call = c ∧ s.Logs (s.enter who c) r := by
  rcases s.enter_log who c with ⟨code,data,hr,hl⟩ | ⟨p,_,hl⟩
  · exact Or.inr ⟨_,hl,rfl,.served hr rfl⟩
  · exact Or.inl hl

/-- A step enters at most one call in the log. -/
theorem step_log {a : Action} (next : s.step a = some t) :
    t.log = s.log ∨ ∃ r, t.log = r :: s.log ∧ s.Logs t r := by
  cases a with
  | main c | call c | isrCall c =>
    simp only [step] at next
    split_ifs at next
    obtain rfl := Option.some.inj next
    refine (enter_logs _ c).imp_right ?_
    rintro ⟨r,hl,_,hr⟩
    exact ⟨r,hl,hr⟩
  | start =>
    simp only [step] at next
    split_ifs at next
    exact Or.inl (Option.some.inj next ▸ rfl)
  | resume =>
    simp only [step] at next
    split_ifs at next
    unfold proceed at next
    split at next <;> simp only [Option.some.injEq,reduceCtorEq] at next
    · exact next ▸ Or.inr ⟨_,rfl,.resumed (Or.inl ⟨_,rfl⟩)⟩
    · exact next ▸ Or.inr ⟨_,rfl,.resumed (Or.inr ⟨_,_,rfl⟩)⟩
  | isrTick fuel =>
    simp only [step] at next
    split_ifs at next
    obtain ⟨k,_,rfl⟩ := Option.map_eq_some_iff.mp next
    exact Or.inl rfl
  | process fuel i b =>
    simp only [step] at next
    split_ifs at next
    rw [process_eq] at next
    obtain ⟨u,hu,rfl⟩ := Option.map_eq_some_iff.mp next
    have before := uartState_log hu
    split_ifs
    · rcases u.enter_logs none (.queuePost i b) with hl | ⟨r,hl,call,_⟩
      · exact Or.inl (hl.trans before)
      · exact Or.inr ⟨r,hl.trans (before ▸ rfl),.uart ⟨i,b,call⟩⟩
    · exact Or.inl before
  | _ =>
    simp only [step] at next
    split_ifs at next
    all_goals exact Or.inl (Option.some.inj next ▸ rfl)

end System
end Brtos
