import Brtos.Invariant

/-! Every step of a run keeps the invariant, given that the policy of the run sends no task back to
a priority that is no longer its own. -/
namespace Brtos
open Bitmap

namespace View
variable {cfg : Config} {P : Policy} {Q : View → Prop} {v w : View}

/-- Along runs that obey `P` the property `Q` is kept, and it makes every release safe. -/
structure Policy.Safe (cfg : Config) (P : Policy) (Q : View → Prop) : Prop where
  keep {v w : View} : Sound cfg v → Q v → Move cfg P v w → Q w
  back {v : View} {t m : ℕ} : Sound cfg v → Q v → m ∈ v.held t → P.release v t m → v.Restorable t m

theorem Policy.usersOnly_safe : Policy.usersOnly.Safe cfg fun _ => True :=
  ⟨fun _ _ _ => trivial,fun _ _ _ h => h⟩

end View

variable {cfg : Config} {P : View.Policy} {Q : View → Prop}

theorem Moves.sound (safe : P.Safe cfg Q) {v w : View} (h : Moves cfg P v w)
    (hs : View.Sound cfg v) (q : Q v) : View.Sound cfg w ∧ Q w := by
  induction h with
  | refl => exact ⟨hs,q⟩
  | tail _ step ih => exact ⟨step.sound ih.1 (safe.back ih.1 ih.2),safe.keep ih.1 ih.2 step⟩

namespace System
variable {s t : System cfg}

theorem Entered.vital' (e : Entered P s t) : t.vital = s.vital := by
  simpa only [Kernel.shell_vital] using e.vital

theorem Entered.tidy (e : Entered P s t) (safe : P.Safe cfg Q) (h : s.Tidy) (q : Q s.view) :
    t.Tidy ∧ Q t.view := by
  have hs := e.moves.sound safe h.sound q
  refine ⟨⟨hs.1,fun u hu => e.moves.installed (e.links u hu),?_,fun hu => ?_⟩,hs.2⟩
  · have := Kernel.osTickCounter_of_vital (k := t.toKernel) (l := s.toKernel) e.vital'
    rw [this]
    exact h.counter
  · exact e.moves.blank (fun _ => h.blank) _ hu

theorem Entered.currentTask (e : Entered P s t) : t.currentTask = s.currentTask :=
  Kernel.currentTask_of_vital (k := t.toKernel) (l := s.toKernel) e.vital'

theorem Entered.current (e : Entered P s t) (h : s.Installed s.currentTask) :
    t.Installed t.currentTask := by
  rw [e.currentTask]
  exact e.moves.installed h

/-- Idle stays installed. -/
theorem Entered.idle (e : Entered P s t) (h : ∃ u, s.Installed u ∧ s.inst u = 0) :
    ∃ u, t.Installed u ∧ t.inst u = 0 := by
  obtain ⟨u,hu,h0⟩ := h
  exact ⟨u,e.moves.installed hu,(e.moves.inst hu).trans h0⟩

/-! ### Service calls -/

theorem enter_toKernel (who : Option ℕ) (c : Call) : (s.enter who c).toKernel = (s.serve c).1 := by
  unfold enter
  split <;> rfl

theorem enter_point {who : Option ℕ} {c : Call} (h : ∀ p, (s.serve c).2 ≠ .sleep p) :
    (s.enter who c).point = s.point := by
  unfold enter
  cases hr : (s.serve c).2 with
  | ret code data => rfl
  | sleep p => exact absurd hr (h p)

theorem inv_main (safe : P.Safe cfg Q) (h : s.Inv) (q : Q s.view) {c : Call}
    (hstart : s.started = false) (hc : c.fromMain = true) (ok : s.Proper P s.currentTask c) :
    Moves cfg P s.view (s.enter none c).view ∧ (s.enter none c).Inv := by
  have awake : s.currentTask = 0 := (h.dormant hstart).1
  have e : ∀ {P' : View.Policy} {Q' : View → Prop}, P'.Safe cfg Q' → Q' s.view →
      s.Meets P' s.currentTask c → Entered P' s (s.enter none c) := fun safe' q' meets =>
    entered h.sound h.links ok.legal meets (by simp [hc]) (by simp [awake])
      (fun stack hi => by simpa [hi,Call.installsIdle] using ok.notIdle)
      fun hm hr => safe'.back h.sound q' hm hr
  have first := e safe q ok.meets
  have users : s.Meets .usersOnly s.currentTask c := by
    have := ok.notIdle
    cases c with
    | install f n p =>
      cases f with
      | idle => simp [Call.installsIdle] at this
      | user n => simp [Meets,View.Policy.usersOnly]
    | mutexAcquire => exact fun _ => trivial
    | mutexRelease => simp [Call.fromMain] at hc
    | _ => trivial
  have tidy := (first.tidy safe h.toTidy q).1
  have started := enter_started (s := s) none c
  have point : (s.enter none c).point = s.point :=
    enter_point fun p hp => (serve_sleeps hp).2.2.1 hc awake
  exact ⟨first.moves,{ tidy with
    current := by simp [started,hstart]
    dormant := fun _ => ⟨first.currentTask.trans awake,point ▸ (h.dormant hstart).2⟩
    idle := by simp [started,hstart]
    noIdle := fun _ => (e View.Policy.usersOnly_safe trivial users).moves.noIdle (h.noIdle hstart)
    due := by simp [started,hstart] }⟩

theorem call_entered (safe : P.Safe cfg Q) (h : s.Inv) (q : Q s.view) {c : Call} (hr : s.Running)
    (run : s.point s.currentTask = .run) (idle : s.inst s.currentTask ≠ 0)
    (ok : s.Proper P s.currentTask c) : Entered P s (s.enter (some s.currentTask) c) := by
  have caller := h.caller hr.1 run idle
  exact entered h.sound h.links ok.legal ok.meets (fun _ => ⟨caller,rfl⟩) (fun _ _ => caller)
    (fun stack hi => by simpa [hi,Call.installsIdle] using ok.notIdle)
    fun hm hr => safe.back h.sound q hm hr

theorem inv_call (safe : P.Safe cfg Q) (h : s.Inv) (q : Q s.view) {c : Call} (hr : s.Running)
    (run : s.point s.currentTask = .run) (idle : s.inst s.currentTask ≠ 0)
    (ok : s.Proper P s.currentTask c) :
    Moves cfg P s.view (s.enter (some s.currentTask) c).view ∧
      (s.enter (some s.currentTask) c).Inv := by
  have e := call_entered safe h q hr run idle ok
  have tidy := (e.tidy safe h.toTidy q).1
  have started : (s.enter (some s.currentTask) c).started = true :=
    (enter_started _ c).trans hr.1
  refine ⟨e.moves,{ tidy with
    current := fun _ => e.current (h.current hr.1)
    dormant := by simp [started]
    idle := fun _ => e.idle (h.idle hr.1)
    noIdle := by simp [started]
    due := fun _ still hp => ?_ }⟩
  rw [e.currentTask] at hp
  unfold enter at still hp
  cases hc : (s.serve c).2 with
  | ret code data =>
    simp only [hc,returned_point] at hp
    exact absurd run hp
  | sleep p =>
    simp only [hc] at still
    exact absurd (still.symm.trans (serve_sleeps hc).1) (by simp)

theorem inv_resume (safe : P.Safe cfg Q) (h : s.Inv) (q : Q s.view) (hr : s.Running)
    (ht : s.proceed = some t) : Moves cfg P s.view t.view ∧ t.Inv := by
  have e : Entered P s t := proceeded h.sound h.links (h.due hr.1 hr.2.2) ht
  have tidy := (e.tidy safe h.toTidy q).1
  have started : t.started = true := (proceed_started ht).trans hr.1
  exact ⟨e.moves,{ tidy with
    current := fun _ => e.current (h.current hr.1)
    dormant := by simp [started]
    idle := fun _ => e.idle (h.idle hr.1)
    noIdle := by simp [started]
    due := fun _ _ hp => by
      rw [e.currentTask,proceed_point ht] at hp
      simp at hp }⟩

/-! ### Interrupts and context switches -/

theorem withKernel_view {k : Kernel cfg} (hk : k.toCore = s.toCore) :
    ({ s with toKernel := k } : System cfg).view = s.view := by
  simp only [System.view,hk]

/-- Updates outside the scheduler's data. -/
theorem Tidy.same (h : s.Tidy) {k : Kernel cfg} (hk : k.toCore = s.toCore)
    (counter : k.osTickCounter = s.osTickCounter) : ({ s with toKernel := k } : System cfg).Tidy := by
  have view := withKernel_view hk
  have inst : ({ s with toKernel := k } : System cfg).Installed = s.Installed :=
    congrArg View.installed view
  exact {
    sound := view ▸ h.sound
    links := fun u hu => inst ▸ h.links u (hk ▸ hu)
    counter := counter ▸ h.counter
    blank := fun hu => h.blank (inst ▸ hu) }

/-- The processor goes to the selected task. -/
theorem Inv.select (h : s.Tidy) (started : s.started = true)
    (idle : ∃ u, s.Installed u ∧ s.inst u = 0) {k : Kernel cfg} (hk : k.toCore = s.toCore)
    (counter : k.osTickCounter = s.osTickCounter) (current : k.currentTask = s.osSchedule) :
    ({ s with toKernel := k } : System cfg).Inv := by
  have chosen := osSchedule_selected h.sound idle
  have view := withKernel_view hk
  have inst : ({ s with toKernel := k } : System cfg).Installed = s.Installed :=
    congrArg View.installed view
  exact { h.same hk counter with
    current := fun _ => inst ▸ current ▸ chosen.1
    dormant := by simp [started]
    idle := fun _ => inst ▸ idle
    noIdle := by simp [started]
    due := fun _ _ hp => by
      rw [view]
      rw [show ({ s with toKernel := k } : System cfg).currentTask = s.osSchedule from current] at hp ⊢
      exact chosen.due h.sound hp }

/-- The running task keeps the processor, and no request for a switch is lost. -/
theorem Inv.same (h : s.Inv) {k : Kernel cfg} (hk : k.toCore = s.toCore)
    (current : k.currentTask = s.currentTask) (ticks : k.osTickCounter = s.osTickCounter)
    (pending : s.switchPending = true → k.switchPending = true) :
    ({ s with toKernel := k } : System cfg).Inv := by
  have view := withKernel_view hk
  have inst : ({ s with toKernel := k } : System cfg).Installed = s.Installed :=
    congrArg View.installed view
  exact { h.toTidy.same hk ticks with
    current := fun hs => inst ▸ current ▸ h.current hs
    dormant := fun hs => ⟨current.trans (h.dormant hs).1,(h.dormant hs).2⟩
    idle := fun hs => inst ▸ h.idle hs
    noIdle := fun hs u hu => h.noIdle hs u (inst ▸ hu)
    due := fun hs still hp => by
      have quiet : s.switchPending = false := by
        by_contra hne
        exact absurd (still.symm.trans (pending (by simpa using hne))) (by simp)
      rw [view]
      rw [show ({ s with toKernel := k } : System cfg).currentTask = s.currentTask from current]
        at hp ⊢
      exact h.due hs quiet hp }

theorem osIncCounter_lt (h : s.osTickCounter < cfg.tickCountOverflow) :
    s.osIncCounter.osTickCounter < cfg.tickCountOverflow := by
  have := cfg.timer_large
  simp only [Config.tickCountOverflow] at h
  have next : (s.osTickCounter+1)%(cfg.maxTimer+1) = s.osTickCounter+1 :=
    Nat.mod_eq_of_lt (by omega)
  change (if (s.osTickCounter+1)%(cfg.maxTimer+1) = cfg.tickCountOverflow then 0
    else (s.osTickCounter+1)%(cfg.maxTimer+1)) < cfg.tickCountOverflow
  rw [next,Config.tickCountOverflow]
  split_ifs <;> omega

theorem tick_ticked (h : s.Tidy) {fuel : ℕ} {k : Kernel cfg} (hk : s.tick fuel = some k) :
    Kernel.Ticked P s.osIncCounter k s.point s.inst s.held :=
  Kernel.tickLoop_ticked s.point s.inst s.held hk h.sound h.links (osIncCounter_lt h.counter)
    fun u hu => h.links u (Or.inl hu)

/-- The tick interrupt, seen on the whole system. -/
theorem Tidy.tick (safe : P.Safe cfg Q) (h : s.Tidy) (q : Q s.view) {fuel : ℕ} {k : Kernel cfg}
    (hk : s.tick fuel = some k) :
    Moves cfg P s.view ({ s with toKernel := k } : System cfg).view ∧
      ({ s with toKernel := k } : System cfg).Tidy := by
  have ticked := tick_ticked (P := P) h hk
  have moves : Moves cfg P s.view ({ s with toKernel := k } : System cfg).view := ticked.moves
  refine ⟨moves,{
    sound := (moves.sound safe h.sound q).1
    links := fun u hu => moves.installed (ticked.links u hu)
    counter := ?_
    blank := fun hu => moves.blank (fun _ => h.blank) _ hu }⟩
  have := Kernel.osTickCounter_of_vital (Kernel.vital_of_shell ticked.shell)
  rw [show ({ s with toKernel := k } : System cfg).osTickCounter = k.osTickCounter from rfl,this]
  exact osIncCounter_lt h.counter

theorem inv_isrTick (safe : P.Safe cfg Q) (h : s.Inv) (q : Q s.view) (started : s.started = true)
    {fuel : ℕ} {k : Kernel cfg} (hk : s.tick fuel = some k) :
    Moves cfg P s.view ({ s with toKernel := k } : System cfg).view ∧
      ({ s with toKernel := k } : System cfg).Inv := by
  have ticked := tick_ticked (P := P) h.toTidy hk
  obtain ⟨moves,tidy⟩ := h.toTidy.tick safe q hk
  have current : k.currentTask = s.osIncCounter.currentTask :=
    Kernel.currentTask_of_vital (Kernel.vital_of_shell ticked.shell)
  refine ⟨moves,{ tidy with
    current := fun _ => ?_
    dormant := by simp [started]
    idle := fun _ => ?_
    noIdle := by simp [started]
    due := fun _ still hp => ?_ }⟩
  · rw [show ({ s with toKernel := k } : System cfg).currentTask = s.currentTask from current]
    exact moves.installed (h.current started)
  · obtain ⟨u,hu,h0⟩ := h.idle started
    exact ⟨u,moves.installed hu,h0⟩
  · have quiet : s.switchPending = false := by
      have hp : k.pendingInterrupts = s.pendingInterrupts := ticked.pending
      simp only [Kernel.switchPending,hp] at still
      exact still
    rw [show ({ s with toKernel := k } : System cfg).currentTask = s.currentTask from current] at hp ⊢
    have ready : s.view.prio s.currentTask ∈ bits s.osReadyList := h.due started quiet hp
    rw [show ({ s with toKernel := k } : System cfg).view.prio s.currentTask =
      s.view.prio s.currentTask from ticked.prio s.currentTask]
    exact ticked.ready ready

theorem isr_entered (safe : P.Safe cfg Q) (h : s.Tidy) (q : Q s.view) {c : Call}
    (isr : c.fromIsr = true) (legal : s.Legal c) : Entered P s (s.enter none c) := by
  refine entered h.sound h.links legal ?_ ?_ ?_ ?_ fun hm hr => safe.back h.sound q hm hr
  · cases c <;> trivial
  · cases c <;> simp [Call.fromIsr,Call.fromMain] at isr ⊢
  · simp [isr]
  · rintro stack rfl
    simp [Call.fromIsr] at isr

theorem inv_isrCall (safe : P.Safe cfg Q) (h : s.Inv) (q : Q s.view) (started : s.started = true)
    {c : Call} (isr : c.fromIsr = true) (legal : s.Legal c) :
    Moves cfg P s.view (s.enter none c).view ∧ (s.enter none c).Inv := by
  have e := isr_entered safe h.toTidy q isr legal
  have tidy := (e.tidy safe h.toTidy q).1
  have started' : (s.enter none c).started = true := (enter_started _ c).trans started
  have awake : ∀ p, (s.serve c).2 ≠ .sleep p := fun p hp => by
    simp [(serve_sleeps hp).2.1] at isr
  have kernel := enter_toKernel (s := s) none c
  have kept := serve_kept (s := s) isr
  refine ⟨e.moves,{ tidy with
    current := fun _ => e.current (h.current started)
    dormant := by simp [started']
    idle := fun _ => e.idle (h.idle started)
    noIdle := by simp [started']
    due := fun _ still hp => ?_ }⟩
  rw [enter_point awake,e.currentTask] at hp
  have quiet : s.switchPending = false := by
    by_contra hne
    rw [kernel,kept.pending (by simpa using hne)] at still
    simp at still
  have ready : s.view.prio s.currentTask ∈ bits s.osReadyList := h.due started quiet hp
  rw [e.currentTask,show (s.enter none c).view.prio s.currentTask = s.view.prio s.currentTask by
    simp only [view,Core.view,kernel,kept.contextTask]]
  change _ ∈ bits (s.enter none c).osReadyList
  rw [kernel]
  exact kept.ready ready

/-- What the handlers leave behind before the selected task runs again. -/
structure Handled (P : View.Policy) (s t : System cfg) : Prop extends Tidy t where
  moves : Moves cfg P s.view t.view
  started : t.started = s.started

theorem Handled.same (h : Handled P s t) {k : Kernel cfg} (hk : k.toCore = t.toCore)
    (counter : k.osTickCounter = t.osTickCounter) :
    Handled P s ({ t with toKernel := k } : System cfg) :=
  { h.toTidy.same hk counter with moves := withKernel_view hk ▸ h.moves, started := h.started }

theorem Handled.tick (safe : P.Safe cfg Q) (h : Handled P s t) (q : Q t.view) {fuel : ℕ}
    {k : Kernel cfg} (hk : t.tick fuel = some k) :
    Handled P s ({ t with toKernel := k } : System cfg) :=
  { (h.toTidy.tick safe q hk).2 with
    moves := h.moves.trans (h.toTidy.tick safe q hk).1, started := h.started }

theorem Handled.queuePost (safe : P.Safe cfg Q) (h : Handled P s t) (q : Q t.view) (i b : ℕ) :
    Handled P s (t.enter none (.queuePost i b)) := by
  have e : Entered P t (t.enter none (.queuePost i b)) :=
    enter_queuePost h.sound h.links none .static i [b] _ (fun _ _ => rfl) (fun _ _ => rfl) rfl
  exact { (e.tidy safe h.toTidy q).1 with
    moves := h.moves.trans e.moves, started := (enter_started _ _).trans h.started }

/-- One round of the handler thread. -/
theorem inv_process (safe : P.Safe cfg Q) (h : s.Inv) (q : Q s.view) (started : s.started = true)
    {fuel uartQueue uartData : ℕ} (ht : s.process fuel uartQueue uartData = some t) :
    Moves cfg P s.view t.view ∧ t.Inv := by
  have begun : Handled P s s := { h.toTidy with moves := .refl, started := rfl }
  have kept : ∀ {u : System cfg}, Handled P s u → Q u.view :=
    fun hu => (hu.moves.sound safe h.sound q).2
  have first : Handled P s { s with toKernel := s.clearInterrupt Kernel.interruptSwc } :=
    begun.same rfl rfl
  unfold process at ht
  obtain ⟨u,hu,rfl⟩ := Option.map_eq_some_iff.mp ht
  have ticked : Handled P s u := by
    split_ifs at hu
    · obtain ⟨k,hk,rfl⟩ := Option.map_eq_some_iff.mp hu
      have := first.tick safe (kept first) hk
      exact this.same (k := k.clearInterrupt interruptTick) rfl rfl
    · obtain rfl := Option.some.inj hu
      exact first
  have posted : Handled P s (if s.pendingInterrupts.getLsbD interruptUart then
      { u.enter none (.queuePost uartQueue uartData) with
        toKernel := (u.enter none (.queuePost uartQueue uartData)).clearInterrupt interruptUart }
      else u) := by
    split_ifs
    · exact (ticked.queuePost safe (kept ticked) uartQueue uartData).same rfl rfl
    · exact ticked
  revert posted
  dsimp only
  generalize (if s.pendingInterrupts.getLsbD interruptUart = true then
    { u.enter none (.queuePost uartQueue uartData) with
      toKernel := (u.enter none (.queuePost uartQueue uartData)).clearInterrupt interruptUart }
    else u) = w
  intro posted
  have idle : ∃ t, w.Installed t ∧ w.inst t = 0 := by
    obtain ⟨t,hi,h0⟩ := h.idle started
    exact ⟨t,posted.moves.installed hi,(posted.moves.inst hi).trans h0⟩
  exact ⟨posted.moves,Inv.select posted.toTidy (posted.started.trans started) idle rfl rfl rfl⟩

/-- The installation of Idle by BRTOSStart. -/
theorem install_idle (safe : P.Safe cfg Q) (h : s.Inv) (q : Q s.view) (hstart : s.started = false)
    (ok' : P.install s.view 0) {i n : ℕ} (hf : s.enterTask.findTcb = some i) {k : Kernel cfg}
    (hk : k = (s.enterTask.installInto (i+1) n 0).exitTask) :
    Moves cfg P s.view ({ s with toKernel := k, started := true } : System cfg).view ∧
      ({ s with toKernel := k, started := true } : System cfg).Tidy ∧
      ∃ t, k.Installed t ∧ s.inst t = 0 := by
  obtain ⟨hlt,fresh⟩ := findTcb_free hf
  have range : 1 ≤ i+1 ∧ i+1 ≤ 32 := ⟨by omega,by have := cfg.tasks_le; omega⟩
  have he := s.enterTask.installInto_view s.point s.inst s.held (i+1) n 0 range cfg.width_pos
  rw [Kernel.enterTask_toCore] at fresh he
  have blank : s.inst (i+1) = 0 := h.blank fresh
  have inst : Function.update s.inst (i+1) 0 = s.inst := by
    rw [← blank,Function.update_eq_self]
  have view : ({ s with toKernel := k, started := true } : System cfg).view =
      s.view.enroll (i+1) 0 cfg.noTimeout := by
    rw [← he,inst]
    simp only [System.view,hk,Kernel.exitTask_toCore]
  have moves : Moves cfg P s.view ({ s with toKernel := k, started := true } : System cfg).view := by
    rw [view]
    exact .one (.enroll fresh range cfg.width_pos (fun hp => absurd rfl hp)
      (fun _ => h.noIdle hstart) ok')
  have vital : k.vital = s.vital := by
    rw [hk,← Kernel.shell_vital]
    simp
  refine ⟨moves,⟨(moves.sound safe h.sound q).1,?_,?_,?_⟩,i+1,?_,blank⟩
  · have kept : s.enterTask.LinksIn s.Installed := fun t ht => h.links t (by simpa using ht)
    intro t ht
    exact moves.installed (kept.installInto (i+1) n 0 t (by simpa [hk] using ht))
  · exact (Kernel.osTickCounter_of_vital vital).trans_lt h.counter
  · exact moves.blank (fun _ => h.blank) _
  · have := congrFun (congrArg View.installed view) (i+1)
    exact this.mpr (Or.inr rfl)

/-- BRTOSStart installs Idle, or it fails without an effect. -/
theorem inv_start (safe : P.Safe cfg Q) (h : s.Inv) (q : Q s.view) (hstart : s.started = false)
    (ok' : P.install s.view 0) :
    Moves cfg P s.view
        ({ s with toKernel := s.brtosStart.1, started := s.brtosStart.2 == ok } : System cfg).view ∧
      ({ s with toKernel := s.brtosStart.1, started := s.brtosStart.2 == ok } : System cfg).Inv := by
  rcases osInstallTask_cases s.toKernel .idle cfg.idleStackSize 0 with
    ⟨code,hc,hi⟩ | ⟨i,n,hf,_,_,_,hi⟩
  · have hb : s.brtosStart = (s.enterTask.exitTask,noMemory) := by
      simp [Kernel.brtosStart,hi,hc]
    have hs : ({ s with toKernel := s.brtosStart.1, started := s.brtosStart.2 == ok } : System cfg) =
        { s with toKernel := s.enterTask.exitTask } := by
      rw [hb]
      simp [hstart,noMemory,ok]
    rw [hs]
    have vital : s.enterTask.exitTask.vital = s.vital := by
      rw [← Kernel.shell_vital]
      simp
    refine ⟨Moves.same (withKernel_view (by simp)),h.same (by simp)
      (Kernel.currentTask_of_vital vital) (Kernel.osTickCounter_of_vital vital) ?_⟩
    · unfold Kernel.enterTask Kernel.exitTask
      split_ifs <;> exact id
  · obtain ⟨moves,tidy,idle⟩ := install_idle safe h q hstart ok' hf (n := n) rfl
    have hb : s.brtosStart = ({ (s.enterTask.installInto (i+1) n 0).exitTask with
        currentTask := (s.enterTask.installInto (i+1) n 0).exitTask.osSchedule
        iNesting := 0 },ok) := by
      simp [Kernel.brtosStart,hi]
    rw [hb]
    exact ⟨moves,Inv.select tidy rfl idle rfl rfl rfl⟩

/-- Each step keeps the invariant, and on the view it is a sequence of moves. -/
theorem step_inv (safe : P.Safe cfg Q) (h : s.Inv) (q : Q s.view) {a : Action}
    (ok : s.Allowed P a) (ht : s.step a = some t) : Moves cfg P s.view t.view ∧ t.Inv := by
  cases a with
  | main c =>
    simp only [step] at ht
    split_ifs at ht with hg
    obtain rfl := Option.some.inj ht
    exact inv_main safe h q hg.1 hg.2 ⟨ok.1.1,ok.1.2,ok.2⟩
  | start =>
    simp only [step] at ht
    split_ifs at ht with hg
    obtain rfl := Option.some.inj ht
    exact inv_start safe h q hg ok.1
  | call c =>
    simp only [step] at ht
    split_ifs at ht with hg
    obtain rfl := Option.some.inj ht
    exact inv_call safe h q hg.1 hg.2.1 hg.2.2 ⟨ok.1.1,ok.1.2,ok.2⟩
  | resume =>
    simp only [step] at ht
    split_ifs at ht with hg
    exact inv_resume safe h q hg ht
  | isrEnter =>
    simp only [step] at ht
    split_ifs at ht with hg
    obtain rfl := Option.some.inj ht
    exact ⟨.refl,h.same rfl rfl rfl id⟩
  | isrTick fuel =>
    simp only [step] at ht
    split_ifs at ht with hg
    obtain ⟨k,hk,rfl⟩ := Option.map_eq_some_iff.mp ht
    exact inv_isrTick safe h q hg.1 hk
  | isrCall c =>
    simp only [step] at ht
    split_ifs at ht with hg
    obtain rfl := Option.some.inj ht
    exact inv_isrCall safe h q hg.1 hg.2.2.2 ok.1
  | isrExit =>
    simp only [step] at ht
    split_ifs at ht with hg h0
    · obtain rfl := Option.some.inj ht
      exact ⟨.refl,Inv.select h.toTidy hg.1 (h.idle hg.1) rfl rfl rfl⟩
    · obtain rfl := Option.some.inj ht
      exact ⟨.refl,h.same rfl rfl rfl id⟩
  | switch =>
    simp only [step] at ht
    split_ifs at ht with hg
    obtain rfl := Option.some.inj ht
    exact ⟨.refl,Inv.select h.toTidy hg.1 (h.idle hg.1) rfl rfl rfl⟩
  | raise n =>
    simp only [step] at ht
    split_ifs at ht with hg
    obtain rfl := Option.some.inj ht
    refine ⟨.refl,h.same rfl rfl rfl fun hp => ?_⟩
    simp only [Kernel.switchPending,Kernel.raiseInterrupt,BitVec.getLsbD_or,Bool.or_eq_true]
    exact Or.inl hp
  | process fuel i b =>
    simp only [step] at ht
    split_ifs at ht with hg
    exact inv_process safe h q hg.1 ht

/-! ### Runs -/

theorem init_installed (u : ℕ) : ¬ (init cfg).Installed u := by
  rintro ⟨_,_,h⟩
  simp [init,Kernel.brtosInit,Kernel.preInstallTasks] at h

theorem init_created {o : Obj} (h : (init cfg).Created o) : o.onHeap = true := by
  rcases h with h | h
  · exact h
  · cases o <;> simp [init,Kernel.brtosInit,Kernel.preInstallTasks,Kernel.initEvents,
      Kernel.zeroed] at h

theorem init_event (o : Obj) : ((init cfg).event o).osEventWait = 0 ∧
    ((init cfg).event o).osEventWaitList = 0#_ := by
  cases o <;> simp [init,Kernel.brtosInit,Kernel.preInstallTasks,Kernel.initEvents,Kernel.zeroed]

theorem init_sound : View.Sound cfg (init cfg).view where
  handle h := absurd h (init_installed _)
  prio_lt h := absurd h (init_installed _)
  inst_lt h := absurd h (init_installed _)
  slot h := absurd h (init_installed _)
  inst_slot h := absurd h (init_installed _)
  level h := absurd h (init_installed _)
  ready h := by simp [view,Core.view,init,Kernel.brtosInit,Kernel.preInstallTasks,
    Kernel.initEvents,Kernel.zeroed] at h
  pending h := by simp [view,Core.view,init] at h
  waits {o p} h := by simp [view,Core.view,(@init_event cfg o).2] at h
  count o := by simp [view,Core.view,@init_event cfg o]
  asleep h := by simp [view,Core.view,init] at h
  timed h := absurd h (init_installed _)
  napping h := by simp [view,Core.view,init] at h
  fresh _ := ⟨rfl,rfl⟩
  idle h := absurd h (init_installed _)
  ceil_lt h := absurd h (lt_irrefl 0)
  reserved h := absurd h (lt_irrefl 0)
  ceil_inst h := absurd h (init_installed _)
  ceil_inj h := absurd h (lt_irrefl 0)
  held_owner h := by simp [view,Core.view,init] at h
  nodup _ := List.nodup_nil
  owned h := absurd rfl h
  assigned h := by simp [view,Core.view,init] at h
  busy h := by simpa [Obj.onHeap] using init_created h
  unused _ := ⟨rfl,rfl⟩

theorem init_inv : (init cfg).Inv where
  sound := init_sound
  links u hu := by
    rcases hu with hu | hu | ⟨t,hu | hu⟩
    · simp [init,Kernel.brtosInit,Kernel.preInstallTasks] at hu
    · simp [init,Kernel.brtosInit,Kernel.preInstallTasks] at hu
    · simp only [init,Kernel.brtosInit,Kernel.preInstallTasks] at hu
      split_ifs at hu <;> simp [Kernel.initEvents,Kernel.zeroed] at hu
    · simp only [init,Kernel.brtosInit,Kernel.preInstallTasks] at hu
      split_ifs at hu <;> simp [Kernel.initEvents,Kernel.zeroed] at hu
  counter := by
    have := cfg.timer_large
    change 0 < cfg.maxTimer-3
    omega
  blank _ := rfl
  current h := by simp [init] at h
  dormant _ := ⟨rfl,fun _ => rfl⟩
  idle h := by simp [init] at h
  noIdle _ u hu := absurd hu (init_installed u)
  due h := by simp [init] at h

/-- The runs whose calls obey the contracts and the policy. -/
abbrev Reaches (P : View.Policy) : System cfg → System cfg → Prop :=
  Run.Reach step fun s a => s.Allowed P a

theorem Reaches.inv (safe : P.Safe cfg Q) (q : Q s.view) (h : s.Inv) (run : Reaches P s t) :
    Moves cfg P s.view t.view ∧ t.Inv ∧ Q t.view := by
  induction run with
  | refl => exact ⟨.refl,h,q⟩
  | tail _ met next ih =>
    obtain ⟨moves,inv⟩ := step_inv safe ih.2.1 ih.2.2 met next
    exact ⟨ih.1.trans moves,inv,(moves.sound safe ih.2.1.sound ih.2.2).2⟩

end System
end Brtos
