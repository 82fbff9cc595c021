import Brtos.Switching
import Brtos.Exclusion

/-! Under the ceiling protocol a task never waits for a mutex: whoever runs finds each mutex free
that it may ask for. -/
namespace Brtos
open Bitmap

namespace View
variable {cfg : Config} {P : Policy} {cur : ℕ} {v w : View}

/-- The mutexes that `u` holds have ceilings below the priority `t` was installed with. -/
def Below (v : View) (u t : ℕ) : Prop := ∀ m ∈ v.held u, v.ceiling m < v.inst t

/-- The running task asks for mutexes only whose ceilings reach its own priority, and each release
goes back to the priority that the remaining mutexes call for. -/
def Policy.ceilings (cur : ℕ) : Policy where
  acquire v t m := t = cur ∧ v.inst t ≤ v.ceiling m
  release v t m := v.saved m = v.demand t ((v.held t).erase m)

instance (v : View) (t m : ℕ) : Decidable ((Policy.ceilings cur).acquire v t m) :=
  inferInstanceAs (Decidable (_ ∧ _))
instance (v : View) (t m : ℕ) : Decidable ((Policy.ceilings cur).release v t m) :=
  inferInstanceAs (Decidable (_ = _))
instance (v : View) (p : ℕ) : Decidable ((Policy.ceilings cur).install v p) :=
  inferInstanceAs (Decidable True)

/-- The same acquisitions, with releases in the reverse order. -/
def Policy.nestedCeilings (cur : ℕ) : Policy where
  acquire := (Policy.ceilings cur).acquire
  release := Policy.reverse.release

/-- Of two tasks one has come after the other, with a priority above all the mutexes that the other
one holds. The task `cur` has come after all of them, and nobody waits for a mutex. -/
structure Stacked (cur : ℕ) (v : View) : Prop where
  level : v.Level
  ordered {u t : ℕ} : u ≠ t → v.Below u t ∨ v.Below t u
  calm (t m p x : ℕ) : v.point t ≠ .pend (.mutex m) p x
  top {u : ℕ} : u ≠ cur → v.Below u cur
  here {u : ℕ} : v.held u ≠ [] → v.installed cur

theorem Below.of_nil {u t : ℕ} (h : v.held u = []) : v.Below u t := by
  intro m hm
  simp [h] at hm

/-- A mutex that is not free is out of reach for the running task, unless it holds it. -/
theorem Stacked.free (q : Stacked cur v) (hs : Sound cfg v) {m : ℕ} (created : v.created (.mutex m))
    (reach : v.inst cur ≤ v.ceiling m) (other : v.owner m ≠ cur) : v.state m = availableResource := by
  rcases hs.busy created with ⟨free,_⟩ | ⟨_,owned⟩
  · exact free
  · rcases (hs.owned owned).2 with held | ⟨p,x,point,_⟩
    · have := q.top other m held
      omega
    · exact absurd point (q.calm _ _ _ _)

/-- A task goes to sleep at a mutex only when it is another one's. -/
theorem Move.contends (h : Move cfg P v w) {t m p x : ℕ} (hw : w.point t = .pend (.mutex m) p x) :
    v.point t = .pend (.mutex m) p x ∨ P.acquire v t m ∧ v.created (.mutex m) ∧ v.owner m ≠ t ∧
      v.state m ≠ availableResource := by
  rcases h.pends hw with old | met
  · exact Or.inl old
  have other : ∀ {u q}, w.point = Function.update v.point u q → (∀ m p x, q ≠ .pend (.mutex m) p x) →
      v.point t = .pend (.mutex m) p x := fun {u q} hp hq => by
    by_cases e : t = u
    · subst e
      rw [hp,Function.update_self] at hw
      exact absurd hw (hq m p x)
    · rwa [hp,Function.update_of_ne e] at hw
  cases h with
  | @sleep u y d o inst idle run created busy _ _ =>
    by_cases e : t = u
    · subst e
      replace hw : Function.update v.point t (.pend o (v.prio t) y) t = _ := hw
      rw [Function.update_self] at hw
      obtain ⟨rfl,_⟩ := Point.pend.inj hw
      exact Or.inr ⟨met,created,busy m rfl⟩
    · exact Or.inl ((Function.update_of_ne e _ _).symm.trans hw)
  | nap => exact Or.inl (other rfl (by simp))
  | goOn => exact Or.inl (other rfl (by simp))
  | wakeNap => exact Or.inl (other rfl (by simp))
  | giveUp => exact Or.inl (other rfl (by simp))
  | @obtain u => exact Or.inl (other (u := u) (q := .run) (lift_point _ _ _) (by simp))
  | @take u n => exact Or.inl ((congrFun (lift_point ((v.gain u n).save u n) u n) t).symm.trans hw)
  | release => exact Or.inl ((congrFun (restore_point _ _ _) t).symm.trans hw)
  | handOver => exact Or.inl ((congrFun (restore_point _ _ _) t).symm.trans hw)
  | _ => exact Or.inl hw

theorem Stacked.calm_move (q : Stacked cur v) (hs : Sound cfg v)
    (h : Move cfg (.ceilings cur) v w) (t m p x : ℕ) : w.point t ≠ .pend (.mutex m) p x := by
  intro hw
  rcases h.contends hw with old | ⟨⟨rfl,reach⟩,created,other,busy⟩
  · exact q.calm t m p x old
  · exact busy (q.free hs created reach other)

theorem Stacked.untouched (q : Stacked cur v) (h : Move cfg (.ceilings cur) v w)
    (hs : Sound cfg v) (hu : Untouched v w) : Stacked cur w := by
  have keep : ∀ {u t}, v.held t ≠ [] ∨ v.installed t → v.Below u t → w.Below u t := by
    intro u t known below m hm
    rw [hu.held] at hm
    have inst : w.inst t = v.inst t := known.elim hu.inst h.inst
    rw [inst,ceiling,hu.mutex hm]
    exact below m hm
  refine ⟨q.level.untouched hu,fun {u t} ne => ?_,q.calm_move hs h,fun {u} ne => ?_,fun {u} some => ?_⟩
  · by_cases hu' : v.held u = []
    · exact Or.inl (.of_nil (hu.held ▸ hu'))
    by_cases ht : v.held t = []
    · exact Or.inr (.of_nil (hu.held ▸ ht))
    exact (q.ordered ne).imp (keep (Or.inl ht)) (keep (Or.inl hu'))
  · by_cases hu' : v.held u = []
    · exact .of_nil (hu.held ▸ hu')
    · exact keep (Or.inr (q.here hu')) (q.top ne)
  · rw [hu.held] at some
    exact h.installed (q.here some)

theorem Stacked.acquired (q : Stacked cur v) (hs : Sound cfg v)
    (calm : ∀ t m p x, w.point t ≠ .pend (.mutex m) p x) {m : ℕ} (ha : Acquired v w cur m) :
    Stacked cur w := by
  have keep : ∀ {u t}, u ≠ cur → v.Below u t → w.Below u t := by
    intro u t ne below n hn
    rw [ha.held,Function.update_of_ne ne] at hn
    rw [ha.ceil,ha.insts]
    exact below n hn
  refine ⟨q.level.acquired hs ha,fun {u t} ne => ?_,calm,fun ne => keep ne (q.top ne),
    fun _ => ha.installed ▸ ha.inst⟩
  by_cases hu : u = cur
  · subst hu
    exact Or.inr (keep ne.symm (q.top ne.symm))
  by_cases ht : t = cur
  · subst ht
    exact Or.inl (keep hu (q.top hu))
  exact (q.ordered ne).imp (keep hu) (keep ht)

theorem Stacked.released (q : Stacked cur v) (hs : Sound cfg v)
    (calm : ∀ t m p x, w.point t ≠ .pend (.mutex m) p x) {t m : ℕ}
    (hr : Released (.ceilings cur) v w t m) : Stacked cur w := by
  have keep : ∀ {u t}, v.Below u t → w.Below u t := by
    intro u t below n hn
    rw [hr.ceil,hr.insts]
    exact below n ((hr.mem hs).mp hn).1
  refine ⟨q.level.released hs { hr with met := hr.met },fun ne => (q.ordered ne).imp keep keep,calm,
    fun ne => keep (q.top ne),fun {u} some => ?_⟩
  rw [hr.installed]
  obtain ⟨n,hn⟩ := List.exists_mem_of_ne_nil _ some
  exact q.here (List.ne_nil_of_mem ((hr.mem hs).mp hn).1)

theorem Policy.ceilings_safe : (Policy.ceilings cur).Safe cfg (Stacked cur) where
  keep {v w} hs q h := by
    have calm := q.calm_move hs h
    rcases h.custody hs with hu | ⟨t,m,ha | hr⟩
    · exact q.untouched h hs hu
    · have mem : w.held t = m :: v.held t := by rw [ha.held,Function.update_self]
      rcases (h.gains mem).2 with ⟨rfl,_⟩ | ⟨p,x,point⟩
      · exact q.acquired hs calm ha
      · exact absurd point (q.calm _ _ _ _)
    · exact q.released hs calm hr
  back hs q hm met := q.level.restorable hs hm met

end View

namespace System
variable {cfg : Config} {s t : System cfg}

/-- Every task that holds a mutex is ready and not blocked. -/
def HoldersReady (s : System cfg) : Prop :=
  ∀ u ≤ 32, s.held u ≠ [] → s.view.prio u ∈ bits s.osReadyList ∩ bits s.osBlockedList

instance (s : System cfg) : Decidable s.HoldersReady := by unfold HoldersReady; infer_instance

/-- The steps of tasks that ask for no mutex with a ceiling below their own priority, and that
neither go to sleep nor are blocked while they hold one. -/
def Disciplined (s : System cfg) (a : Action) : Prop :=
  s.Allowed (.ceilings s.currentTask) a ∧ ∀ t ∈ s.step a, t.HoldersReady

instance (s : System cfg) (a : Action) : Decidable (s.Disciplined a) :=
  inferInstanceAs (Decidable (_ ∧ _))

/-- The processor stays where it is, or it goes to the scheduler's choice. -/
theorem step_current {P : View.Policy} {Q : View → Prop} (safe : P.Safe cfg Q) (h : s.Inv)
    (q : Q s.view) {a : Action} (allowed : s.Allowed P a) (next : s.step a = some t) :
    t.currentTask = s.currentTask ∨ t.started = true ∧ t.currentTask = t.osSchedule := by
  obtain ⟨moves,inv⟩ := step_inv safe h q allowed next
  have dormant : s.started = false → t.started = false → t.currentTask = s.currentTask := fun hs ht =>
    (inv.dormant ht).1.trans (h.dormant hs).1.symm
  cases a with
  | main c =>
    simp only [step] at next
    split_ifs at next with hg
    obtain rfl := Option.some.inj next
    exact Or.inl (dormant hg.1 ((enter_started none c).trans hg.1))
  | start =>
    simp only [step] at next
    split_ifs at next with hg
    obtain rfl := Option.some.inj next
    by_cases started : (s.brtosStart.2 == ok) = true
    · refine Or.inr ⟨started,?_⟩
      have split : s.brtosStart = if (s.osInstallTask .idle cfg.idleStackSize 0).2.1 ≠ ok then
          ((s.osInstallTask .idle cfg.idleStackSize 0).1,noMemory)
        else ({ (s.osInstallTask .idle cfg.idleStackSize 0).1 with
          currentTask := (s.osInstallTask .idle cfg.idleStackSize 0).1.osSchedule, iNesting := 0 },ok) := rfl
      rw [split] at started ⊢
      split_ifs at started ⊢
      · simp [noMemory,ok] at started
      · rfl
    · exact Or.inl (dormant hg (Bool.eq_false_iff.mpr started))
  | call c =>
    simp only [step] at next
    split_ifs at next with hg
    obtain rfl := Option.some.inj next
    exact Or.inl (call_entered safe h q hg.1 hg.2.1 hg.2.2 ⟨allowed.1.1,allowed.1.2,allowed.2⟩).currentTask
  | resume =>
    simp only [step] at next
    split_ifs at next with hg
    exact Or.inl (proceeded (P := P) h.sound h.links (h.due hg.1 hg.2.2) next).currentTask
  | isrEnter =>
    simp only [step] at next
    split_ifs at next with hg
    obtain rfl := Option.some.inj next
    exact Or.inl rfl
  | isrTick fuel =>
    simp only [step] at next
    split_ifs at next with hg
    obtain ⟨k,hk,rfl⟩ := Option.map_eq_some_iff.mp next
    have ticked := tick_ticked (P := P) h.toTidy hk
    have same : k.currentTask = s.osIncCounter.currentTask :=
      Kernel.currentTask_of_vital (Kernel.vital_of_shell ticked.shell)
    exact Or.inl same
  | isrCall c =>
    simp only [step] at next
    split_ifs at next with hg
    obtain rfl := Option.some.inj next
    exact Or.inl (isr_entered safe h.toTidy q hg.2.2.2 allowed.1).currentTask
  | isrExit =>
    simp only [step] at next
    split_ifs at next with hg h0
    · obtain rfl := Option.some.inj next
      exact Or.inr ⟨hg.1,rfl⟩
    · obtain rfl := Option.some.inj next
      exact Or.inl rfl
  | switch =>
    simp only [step] at next
    split_ifs at next with hg
    obtain rfl := Option.some.inj next
    exact Or.inr ⟨hg.1,rfl⟩
  | raise n =>
    simp only [step] at next
    split_ifs at next with hg
    obtain rfl := Option.some.inj next
    exact Or.inl rfl
  | process fuel i b =>
    simp only [step] at next
    split_ifs at next with hg
    refine Or.inr ⟨?_,?_⟩
    · by_contra stopped
      obtain ⟨u,installed,idle⟩ := h.idle hg.1
      exact inv.noIdle (Bool.eq_false_iff.mpr stopped) u (moves.installed installed)
        ((moves.inst installed).trans idle)
    · unfold process at next
      obtain ⟨u,_,rfl⟩ := Option.map_eq_some_iff.mp next
      rfl

theorem stacked_select (hs : View.Sound cfg s.view) (idle : ∃ u, s.Installed u ∧ s.inst u = 0)
    (ready : s.HoldersReady) {cur : ℕ} (q : View.Stacked cur s.view) :
    View.Stacked s.osSchedule s.view := by
  have chosen := osSchedule_selected hs idle
  refine { q with top := fun {u} ne => ?_, here := fun _ => chosen.1 }
  by_cases none : s.view.held u = []
  · exact .of_nil none
  obtain ⟨n,hn⟩ := List.exists_mem_of_ne_nil _ none
  have inst := hs.held_installed hn
  have eligible := ready u (hs.handle inst).2 none
  rcases chosen.2 with ⟨_,highest⟩ | ⟨empty,_⟩
  swap
  · simp [empty] at eligible
  have lower : s.view.prio u < s.view.prio s.osSchedule :=
    lt_of_le_of_ne (highest _ eligible) fun same => ne (hs.prio_inj inst chosen.1 same)
  rcases q.ordered ne with below | above
  · exact below
  have needs := q.level.prio inst
  have own : s.view.prio s.osSchedule = s.view.inst s.osSchedule := by
    rcases q.level.top chosen.1 with own | ⟨n,hn,_,raised⟩
    · exact own
    · have := above n hn
      have := s.view.inst_le_demand u (s.view.held u)
      omega
  intro m hm
  have := s.view.ceiling_le_demand u hm
  omega

theorem step_stacked (h : s.Inv) (q : View.Stacked s.currentTask s.view) {a : Action}
    (ok : s.Disciplined a) (next : s.step a = some t) :
    t.Inv ∧ View.Stacked t.currentTask t.view := by
  obtain ⟨moves,inv⟩ := step_inv View.Policy.ceilings_safe h q ok.1 next
  have kept := (moves.sound View.Policy.ceilings_safe h.sound q).2
  refine ⟨inv,?_⟩
  rcases step_current View.Policy.ceilings_safe h q ok.1 next with same | ⟨started,chosen⟩
  · rw [same]
    exact kept
  · rw [chosen]
    exact stacked_select inv.sound (inv.idle started) (ok.2 t next) kept

theorem init_stacked : View.Stacked (init cfg).currentTask (init cfg).view where
  level := init_level
  ordered _ := Or.inl (.of_nil rfl)
  calm := by simp [view,Core.view,init]
  top _ := .of_nil rfl
  here some := absurd rfl some

/-- It is enough that mutexes are given back last in, first out. -/
theorem disciplined_of_reverse (run : Run.Reach step (fun s a =>
    s.Allowed (.nestedCeilings s.currentTask) a ∧ ∀ t ∈ s.step a, t.HoldersReady) (init cfg) s) :
    Run.Reach step Disciplined (init cfg) s := by
  suffices along : Run.Reach step Disciplined (init cfg) s ∧ s.Inv ∧ s.view.Level ∧ s.view.Nested from along.1
  induction run with
  | refl => exact ⟨.refl,init_inv,init_level,init_nested⟩
  | @tail s t a run met next ih =>
    obtain ⟨run',inv,level,nested⟩ := ih
    have reverse : s.Allowed .reverse a :=
      met.1.mono (fun _ _ => trivial) (fun _ _ last => last) fun _ _ => trivial
    obtain ⟨moves,inv'⟩ := step_inv View.Policy.reverse_safe inv ⟨level,nested⟩ reverse next
    have kept := (moves.sound View.Policy.reverse_safe inv.sound ⟨level,nested⟩).2
    have allowed : s.Allowed (.ceilings s.currentTask) a :=
      met.1.mono (fun _ reach => reach) (fun _ _ last => nested.fits last) fun _ _ => trivial
    exact ⟨run'.tail ⟨allowed,met.2⟩ next,inv',kept⟩

/-- No task ever waits for a mutex, and an acquisition by the running task returns OK at once. -/
theorem uncontended (run : Run.Reach step Disciplined (init cfg) s) :
    (∀ t m p w, s.point t ≠ .pend (.mutex m) p w) ∧
    ∀ i w, s.Running → s.Created (.mutex i) →
      s.inst s.currentTask ≤ (s.brtosMutexTable i).osMaxPriority →
      (s.serve (.mutexAcquire i w)).2 = .ret ok [] := by
  obtain ⟨inv,q⟩ := run.invariant (P := fun s => s.Inv ∧ View.Stacked s.currentTask s.view)
    ⟨init_inv,init_stacked⟩ fun s a t h met next => step_stacked h.1 h.2 met next
  refine ⟨q.calm,fun i w running created reach => ?_⟩
  have created' : s.osEnterCritical.notCreated (.mutex i) = false := notCreated_of_created rfl created
  change (s.osMutexAcquire i w).2 = _
  simp only [Kernel.osMutexAcquire,running.2.1,lt_irrefl,and_false,if_false,created',
    Bool.false_eq_true]
  by_cases mine : s.currentTask = (s.brtosMutexTable i).osEventOwner
  · rw [if_pos (show s.osEnterCritical.currentTask =
      (s.osEnterCritical.brtosMutexTable i).osEventOwner from mine)]
  · rw [if_neg (show ¬s.osEnterCritical.currentTask =
      (s.osEnterCritical.brtosMutexTable i).osEventOwner from mine),
      if_pos (show (s.osEnterCritical.brtosMutexTable i).osEventState = availableResource from
        q.free inv.sound created reach (Ne.symm mine))]

/-- Task 2 preempts task 1 within its critical section and goes through one of its own. -/
def preemptedRun : List Action :=
  [.main (.install (.user 1) 16 3),.main (.install (.user 2) 16 6),.main (.mutexCreate 5),
    .main (.mutexCreate 7),.main (.semCreate 0),.start,.call (.semPend 0 0),.switch,
    .call (.mutexAcquire 0 0),.isrEnter,.isrCall (.semPost 0),.isrExit,.resume,
    .call (.mutexAcquire 1 0)]

theorem uncontended_preempted : ∃ s : System .port, s.currentTask = 2 ∧ s.held 1 = [0] ∧
    s.held 2 = [1] ∧ (∀ t m p w, s.point t ≠ .pend (.mutex m) p w) ∧
    (s.serve (.mutexAcquire 1 0)).2 = .ret ok [] := by
  obtain ⟨s,run,current,held,held',running,created,reach⟩ := Run.exists_reach_of_exec step
    Disciplined (init .port) preemptedRun
    (fun s => s.currentTask = 2 ∧ s.held 1 = [0] ∧ s.held 2 = [1] ∧ s.Running ∧
      s.Created (.mutex 1) ∧ s.inst s.currentTask ≤ (s.brtosMutexTable 1).osMaxPriority)
    (by decide +kernel)
  obtain ⟨calm,free⟩ := uncontended run
  exact ⟨s,current,held,held',calm,free 1 0 running created reach⟩

end System
end Brtos
