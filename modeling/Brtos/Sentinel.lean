import Brtos.Timing

/-! Deadlines against the values of TimeToWait that are reserved: NO_TIMEOUT and EXIT_BY_TIMEOUT lie
above every deadline exactly if the counter and the wait together stay below two turns. -/
namespace Brtos
open Chain

namespace Kernel
variable {cfg : Config} {k : Kernel cfg}

/-- The traversal leaves a task alone whose deadline is not the counter, on whatever list. -/
theorem tickLoop_wait {n : ℕ} {p : Option ℕ} {m : Kernel cfg} (done : tickLoop n p k = some m)
    {u : ℕ} (early : k.wait u ≠ k.osTickCounter) :
    m.wait u = k.wait u ∧ m.taskAlloc = k.taskAlloc := by
  induction n generalizing p k with
  | zero =>
    cases p with
    | none => exact Option.some.inj done ▸ ⟨rfl,rfl⟩
    | some t => simp [tickLoop] at done
  | succ n ih =>
    cases p with
    | none => exact Option.some.inj done ▸ ⟨rfl,rfl⟩
    | some t =>
      have wait : (k.visit t).wait u = k.wait u := by
        rw [visit_wait]
        split_ifs with due
        · apply Function.update_of_ne
          rintro rfl
          exact early due
        · rfl
      have rest := ih (k := k.visit t) done (by rwa [wait,visit_counter])
      exact ⟨rest.1.trans wait,rest.2.trans (visit_taskAlloc t)⟩

/-- Behind ChangeContext a task takes itself off the list unless it reads EXIT_BY_TIMEOUT. -/
theorem wakeUp_removes {l : List ℕ} (h : k.links.Spells l) (mem : k.currentTask ∈ l) {o : Obj}
    {p w : ℕ} (limited : w ≠ 0) (early : k.wait k.currentTask ≠ cfg.exitByTimeout) :
    (k.wakeUp o p w).1.links.Spells (l.erase k.currentTask) := by
  have before : (k.setTimeToWait k.currentTask cfg.noTimeout).links.Spells l := by
    rwa [setTimeToWait_links]
  have left : (k.wakeUp o p w).1 =
      (k.setTimeToWait k.currentTask cfg.noTimeout).removeFromDelayList k.currentTask := by
    have here : ¬ (k.contextTask k.currentTask).timeToWait = cfg.exitByTimeout := early
    simp only [wakeUp,limited,here,if_false]
  obtain ⟨a,b,split⟩ := List.append_of_mem mem
  have new : k.currentTask ∉ a := fun ha => by
    have nodup := split ▸ h.nodup
    exact (List.nodup_append.mp nodup).2.2 _ ha _ List.mem_cons_self rfl
  rw [left,remove_links before mem,split,List.erase_append_right _ new,List.erase_cons_head]
  exact before.remove split

theorem wakeUp_others (o : Obj) (p w : ℕ) {u : ℕ} (other : u ≠ k.currentTask) :
    (k.wakeUp o p w).1.wait u = k.wait u ∧ (k.wakeUp o p w).1.taskAlloc = k.taskAlloc := by
  simp only [wakeUp]
  split_ifs
  · exact ⟨rfl,rfl⟩
  · exact ⟨rfl,rfl⟩
  · exact ⟨rfl,rfl⟩
  · refine ⟨?_,removeFromDelayList_taskAlloc _⟩
    rw [removeFromDelayList_wait,setTimeToWait_wait,Function.update_of_ne other]

end Kernel

namespace System
variable {cfg : Config} {s t : System cfg}

/-- The task sleeps in `x` with TimeToWait `d`. -/
structure Sleeps (s : System cfg) (u : ℕ) (x : Point) (d : ℕ) : Prop extends s.Awaits u x d where
  started : s.started = true
  installed : s.Installed u
  suspended : x ≠ .run

variable (s) in
/-- The tick handler has come to the value that the task waits for. -/
def Expires (u : ℕ) (a : Action) : Prop := s.Ticks a ∧ s.wait u = s.osIncCounter.osTickCounter

variable (s) in
/-- The task goes on behind its ChangeContext. -/
def Resumes (u : ℕ) (a : Action) : Prop := a = .resume ∧ s.currentTask = u

instance (u : ℕ) (a : Action) : Decidable (s.Expires u a) := by unfold Expires; infer_instance

instance (u : ℕ) (a : Action) : Decidable (s.Resumes u a) := by unfold Resumes; infer_instance

theorem Sleeps.same {u d : ℕ} {x : Point} (h : s.Sleeps u x d) (point : t.point u = s.point u)
    (wait : t.wait u = s.wait u) (started : t.started = s.started)
    (installed : s.Installed u → t.Installed u) : t.Sleeps u x d where
  point := point.trans h.point
  wait := wait.trans h.wait
  started := started.trans h.started
  installed := installed h.installed
  suspended := h.suspended

theorem Sleeps.clock {u d : ℕ} {x : Point} (h : s.Sleeps u x d) {k : Kernel cfg}
    (clock : k.clock = s.clock) : ({ s with toKernel := k } : System cfg).Sleeps u x d :=
  h.same rfl (congrFun (Kernel.wait_of_clock clock) u) rfl fun old => by
    simpa [Core.Installed,Kernel.taskAlloc_of_clock clock] using old

/-- A service that another task or a handler calls. -/
theorem Sleeps.enter {u d : ℕ} {x : Point} (h : s.Sleeps u x d) (who : Option ℕ) {c : Call}
    (caller : ∀ p, (s.serve c).2 = .sleep p → s.point s.currentTask = .run) :
    (s.enter who c).Sleeps u x d := by
  cases reply : (s.serve c).2 with
  | sleep p =>
    have other : u ≠ s.currentTask := by
      rintro rfl
      exact h.suspended (h.point ▸ caller p reply)
    obtain ⟨slept,_⟩ := serve_slept reply
    rw [enter_sleep reply]
    refine h.same (Function.update_of_ne other _ _) ?_ rfl fun old => ?_
    · change (s.serve c).1.wait u = s.wait u
      rw [slept.wait,Function.update_of_ne other]
    · simpa [Core.Installed,setPoint,slept.taskAlloc] using old
  | ret code data =>
    rw [enter_ret reply]
    suffices clean : (s.serve c).1.wait u = s.wait u ∧
        (s.Installed u → (s.serve c).1.Installed u) from h.same rfl clean.1 rfl clean.2
    by_cases new : ∃ f n p, c = .install f n p
    · obtain ⟨f,n,p,rfl⟩ := new
      rcases osInstallTask_cases s.toKernel f n p with
        ⟨_,_,he⟩ | ⟨i,size,free,_,_,_,he⟩ <;> simp only [Kernel.serve,he]
      · have clock : s.enterTask.exitTask.clock = s.clock := by simp
        refine ⟨congrFun (Kernel.wait_of_clock clock) u,fun old => ?_⟩
        simpa [Core.Installed,Kernel.taskAlloc_of_clock clock] using old
      · have clock := (s.enterTask.installInto (i+1) size p).exitTask_clock
        have fresh := findTcb_free free
        have other : u ≠ i+1 := by
          rintro rfl
          exact fresh.2 (by simpa [Core.Installed] using h.installed)
        constructor
        · rw [Kernel.wait_of_clock clock,Kernel.installInto_wait,Function.update_of_ne other]
          exact congrFun (Kernel.wait_of_clock s.enterTask_clock) u
        · intro old
          have before : s.enterTask.taskAlloc = s.taskAlloc :=
            Kernel.taskAlloc_of_clock s.enterTask_clock
          have alloc : (s.enterTask.installInto (i+1) size p).exitTask.taskAlloc =
              s.taskAlloc ||| BitVec.twoPow 32 (i+1-1) := by
            rw [Kernel.taskAlloc_of_clock clock,← before]
            rfl
          refine ⟨old.1,old.2.1,?_⟩
          rw [alloc,BitVec.getLsbD_or,old.2.2,Bool.true_or]
    · have clock := serve_returns reply fun f n p e => new ⟨f,n,p,e⟩
      refine ⟨congrFun (Kernel.wait_of_clock clock) u,fun old => ?_⟩
      simpa [Core.Installed,Kernel.taskAlloc_of_clock clock] using old

theorem Sleeps.tick {u d : ℕ} {x : Point} (h : s.Sleeps u x d) {fuel : ℕ} {k : Kernel cfg}
    (early : s.wait u ≠ s.osIncCounter.osTickCounter) (ticked : s.tick fuel = some k) :
    ({ s with toKernel := k } : System cfg).Sleeps u x d := by
  obtain ⟨wait,alloc⟩ := Kernel.tickLoop_wait (k := s.osIncCounter) ticked early
  refine h.same rfl wait rfl fun old => ?_
  have same : k.taskAlloc = s.taskAlloc := alloc
  simpa [Core.Installed,same] using old

theorem Sleeps.proceed {u d : ℕ} {x : Point} (h : s.Sleeps u x d) (other : u ≠ s.currentTask)
    (next : s.proceed = some t) : t.Sleeps u x d := by
  have point := proceed_point next
  unfold System.proceed at next
  cases here : s.point s.currentTask with
  | run => simp [here] at next
  | delay w =>
    simp only [here,Option.some.injEq] at next
    subst next
    exact h.same (by rw [point,Function.update_of_ne other]) rfl rfl id
  | pend o p w =>
    simp only [here,Option.some.injEq] at next
    subst next
    obtain ⟨clock,_⟩ := resumePend_clock (s := s) o p w
    obtain ⟨wait,alloc⟩ := Kernel.wakeUp_others (k := s.osEnterCritical) o p w other
    refine h.same (by rw [point,Function.update_of_ne other]) ?_ rfl fun old => ?_
    · exact (congrFun (Kernel.wait_of_clock clock) u).trans wait
    · have same : (s.resumePend o p w).1.taskAlloc = s.taskAlloc :=
        (Kernel.taskAlloc_of_clock clock).trans alloc
      simpa [Core.Installed,returned,same] using old

/-- Nothing but its own return and the tick of its deadline touches a sleeping task. -/
theorem Sleeps.step {u d : ℕ} {x : Point} (h : s.Sleeps u x d) {a : Action}
    (early : ¬ s.Expires u a) (asleep : ¬ s.Resumes u a) (next : s.step a = some t) :
    t.Sleeps u x d := by
  cases a with
  | main c =>
    simp only [System.step,h.started] at next
    simp at next
  | start =>
    simp only [System.step,h.started] at next
    simp at next
  | call c =>
    simp only [System.step] at next
    split_ifs at next with hg
    obtain rfl := Option.some.inj next
    exact h.enter _ fun _ _ => hg.2.1
  | resume =>
    simp only [System.step] at next
    split_ifs at next
    exact h.proceed (fun e => asleep ⟨rfl,e.symm⟩) next
  | isrTick fuel =>
    simp only [System.step] at next
    split_ifs at next
    obtain ⟨k,hk,rfl⟩ := Option.map_eq_some_iff.mp next
    exact h.tick (fun due => early ⟨trivial,due⟩) hk
  | isrCall c =>
    simp only [System.step] at next
    split_ifs at next with hg
    obtain rfl := Option.some.inj next
    refine h.enter none fun p hp => ?_
    simpa [hg.2.2.2] using (serve_sleeps hp).2.1
  | isrEnter | switch | raise =>
    simp only [System.step] at next
    split_ifs at next
    obtain rfl := Option.some.inj next
    exact h.same rfl rfl rfl id
  | isrExit =>
    simp only [System.step] at next
    split_ifs at next
    all_goals
      obtain rfl := Option.some.inj next
      exact h.same rfl rfl rfl id
  | process fuel i b =>
    simp only [System.step] at next
    split_ifs at next
    rw [process_eq] at next
    obtain ⟨v,begun,rfl⟩ := Option.map_eq_some_iff.mp next
    have ticked : v.Sleeps u x d := by
      have cleared := h.clock (k := s.clearInterrupt Kernel.interruptSwc) rfl
      unfold System.uartState at begun
      dsimp only at begun
      split_ifs at begun with due
      · obtain ⟨k,hk,rfl⟩ := Option.map_eq_some_iff.mp begun
        exact (cleared.tick (fun now => early ⟨due,now⟩) hk).clock rfl
      · exact Option.some.inj begun ▸ cleared
    dsimp only
    split_ifs
    · have posted := ticked.enter none (c := .queuePost i b)
        fun p hp => absurd hp (osQueuePost_awake i b p)
      exact posted.same rfl rfl rfl id
    · exact ticked.same rfl rfl rfl id

theorem sleeps_of_call {c : Call} {x : Point} (task : s.Installed s.currentTask)
    (next : s.step (.call c) = some t) (slept : t.point s.currentTask = x) (limited : x.limit ≠ 0) :
    x.limit = c.timeWait ∧ t.Sleeps s.currentTask x (s.deadline c.timeWait) := by
  simp only [System.step] at next
  split_ifs at next with running
  obtain rfl := Option.some.inj next
  cases reply : (s.serve c).2 with
  | ret code data =>
    rw [enter_ret reply] at slept
    exact absurd (slept.symm.trans running.2.1) (by rintro rfl; exact limited rfl)
  | sleep p =>
    obtain ⟨asleep,argument,_⟩ := serve_slept reply
    rw [enter_sleep reply] at slept ⊢
    obtain rfl : p = x := by simpa [setPoint] using slept
    refine ⟨argument,⟨slept,?_⟩,running.1.1,?_,?_⟩
    · change (s.serve c).1.wait s.currentTask = _
      rw [asleep.wait,Function.update_self,if_neg limited,argument]
    · simpa [Core.Installed,setPoint,asleep.taskAlloc] using task
    · rintro rfl
      exact limited rfl

/-- A pend that was posted to: its task reads the deadline that it wrote. -/
theorem Sleeps.leaves {u : System cfg} {o : Obj} {p w d : ℕ}
    (h : u.Sleeps u.currentTask (.pend o p w) d) (limited : w ≠ 0) (apart : d ≠ cfg.exitByTimeout)
    (next : u.step .resume = some t) {l : List ℕ} (spells : u.links.Spells l)
    (mem : u.currentTask ∈ l) : t.links.Spells (l.erase u.currentTask) := by
  simp only [System.step] at next
  split_ifs at next
  unfold System.proceed at next
  simp only [h.point,Option.some.injEq] at next
  subst next
  obtain ⟨clock,_⟩ := resumePend_clock (s := u) o p w
  have early : u.wait u.currentTask ≠ cfg.exitByTimeout := by rwa [h.wait]
  have left := Kernel.wakeUp_removes (k := u.osEnterCritical) spells mem (o := o) (p := p) limited early
  have links := Kernel.links_of_clock clock
  rw [← links] at left
  exact left

/-- A service that puts its caller to sleep for `time_wait` ticks writes a TimeToWait below
TICK_COUNT_OVERFLOW, and a caller that goes on before its timeout takes itself off the list then,
whatever happened in between, exactly if counter and wait together are less than two turns of the
counter. -/
theorem deadline_apart {c : Call} {x : Point} (task : s.Installed s.currentTask)
    (now : s.osTickCounter < cfg.tickCountOverflow) (fits : c.timeWait ≤ cfg.maxTimer)
    (next : s.step (.call c) = some t) (slept : t.point s.currentTask = x) (limited : x.limit ≠ 0) :
    (t.wait s.currentTask < cfg.tickCountOverflow ∧ t.wait s.currentTask ≠ cfg.noTimeout ∧
      t.wait s.currentTask ≠ cfg.exitByTimeout ∧ ∀ u v : System cfg,
        Run.Reach step (fun u a => ¬ u.Expires s.currentTask a ∧ ¬ u.Resumes s.currentTask a) t u →
          ∀ o p w, x = .pend o p w → u.currentTask = s.currentTask → u.step .resume = some v →
          ∀ l, u.links.Spells l → s.currentTask ∈ l →
            v.links.Spells (l.erase s.currentTask) ∧ s.currentTask ∉ l.erase s.currentTask) ↔
      s.osTickCounter+c.timeWait < 2*cfg.tickCountOverflow := by
  obtain ⟨argument,sleeps⟩ := sleeps_of_call task next slept limited
  have small := Kernel.deadline_lt_iff now fits
  rw [← small,sleeps.wait]
  refine ⟨fun good => good.1,fun early => ?_⟩
  have below := cfg.overflow_lt_exit
  have above := cfg.exit_lt_noTimeout
  refine ⟨early,by omega,by omega,fun u v run o p w pend current resumed l spells mem => ?_⟩
  have still : u.Sleeps s.currentTask x (s.deadline c.timeWait) :=
    run.invariant (P := fun u => u.Sleeps s.currentTask x (s.deadline c.timeWait)) sleeps
      fun _ _ _ h met next => Sleeps.step h met.1 met.2 next
  rw [← current] at still mem ⊢
  subst pend
  exact ⟨still.leaves limited (by omega) resumed spells mem,fun left =>
    (spells.nodup.mem_erase_iff.mp left).1 rfl⟩

/-- A pend with a limit of five ticks at tick zero. -/
theorem deadline_run : ∃ s t : System .port, s.step (.call (.semPend 0 5)) = some t ∧
    t.wait s.currentTask < Config.tickCountOverflow .port ∧
    t.wait s.currentTask ≠ Config.exitByTimeout .port := by
  obtain ⟨s,_,task,now,t,next,slept⟩ := Run.exists_reach_of_exec step (fun _ _ => True) (init .port)
    [.main (.install (.user 1) 16 3),.main (.install (.user 2) 16 4),.main (.semCreate 0),.start]
    (fun s => s.Installed s.currentTask ∧ s.osTickCounter = 0 ∧
      ∃ t ∈ s.step (.call (.semPend 0 5)), t.point s.currentTask = .pend (.sem 0) 4 5)
    (by decide +kernel)
  have apart := (deadline_apart task (by rw [now]; decide) (by decide) next slept (by decide)).mpr
    (by rw [now]; decide)
  exact ⟨s,t,next,apart.1,apart.2.2.1⟩

/-- Ticks that find the delay list empty take the counter anywhere. -/
theorem reach_counter {ok : System cfg → Action → Prop} (tick : ∀ s, ok s (.isrTick 0))
    (started : s.started = true) (isr : cfg.criticalNests = false ∧ 0 < s.iNesting)
    (empty : s.head = none) (zero : s.osTickCounter = 0) {n : ℕ} (lt : n < cfg.tickCountOverflow) :
    Run.Reach step ok s { s with osTickCounter := n } := by
  induction n with
  | zero =>
    rw [← zero]
    exact .refl
  | succ n ih =>
    refine (ih (by omega)).tail (a := .isrTick 0) (tick _) ?_
    have large := cfg.timer_large
    have small : cfg.tickCountOverflow ≤ cfg.maxTimer := by simp [Config.tickCountOverflow]
    have next : (n+1)%(cfg.maxTimer+1) = n+1 := Nat.mod_eq_of_lt (by omega)
    simp only [System.step,started,isr.1,isr.2,and_self,if_true,Kernel.tick,Kernel.osIncCounter,next,
      if_neg (show n+1 ≠ cfg.tickCountOverflow by omega),Kernel.osTickHandler,empty,Kernel.tickLoop,
      Option.map_some]

/-- The deadline of a wait of 65535 ticks that starts at tick 65530 reads EXIT_BY_TIMEOUT: the task
is posted to, runs on, and is still on the delay list. -/
theorem deadline_fails : ∃ s t u v : System .port, Run.Reach step (fun _ _ => True) (init .port) s ∧
    s.osTickCounter = 65530 ∧ s.currentTask = 2 ∧ s.step (.call (.semPend 0 65535)) = some t ∧
    t.wait 2 = Config.exitByTimeout .port ∧
    Run.Reach step (fun u a => ¬ u.Expires 2 a ∧ ¬ u.Resumes 2 a) t u ∧
    u.step .resume = some v ∧ u.currentTask = 2 ∧ v.point 2 = .run ∧ v.head = some 2 := by
  obtain ⟨r,run,started,isr,empty,zero,s,left,current,counter,t,next,wait,more⟩ :=
    Run.exists_reach_of_exec step (fun _ _ => True) (init .port)
      [.main (.install (.user 1) 16 3),.main (.install (.user 2) 16 4),.main (.semCreate 0),.start,
        .isrEnter]
      (fun r => r.started = true ∧ (Config.criticalNests .port = false ∧ 0 < r.iNesting) ∧
        r.head = none ∧ r.osTickCounter = 0 ∧
        ∃ s ∈ ({ r with osTickCounter := 65530 } : System .port).step .isrExit,
          s.currentTask = 2 ∧ s.osTickCounter = 65530 ∧ ∃ t ∈ s.step (.call (.semPend 0 65535)),
            t.wait 2 = Config.exitByTimeout .port ∧
            (Run.exec step (fun u a => ¬ u.Expires 2 a ∧ ¬ u.Resumes 2 a) t
              [.switch,.isrEnter,.isrCall (.semPost 0),.isrExit]).map (fun u => decide
                (∃ v ∈ u.step .resume, u.currentTask = 2 ∧ v.point 2 = .run ∧ v.head = some 2)) =
                  some true)
      (by decide +kernel)
  obtain ⟨u,posted,v,back,after⟩ := Run.exists_reach_of_exec _ _ _ _ _ more
  exact ⟨s,t,u,v,(run.trans (reach_counter (fun _ => trivial) started isr empty zero
    (by decide))).tail (a := .isrExit) trivial left,counter,current,next,wait,posted,back,after⟩

end System
end Brtos
