import Brtos.Delayed
import Brtos.Woken

/-! When a wait with a limit ends: at the tick whose number the limit is, and at no earlier one. -/
namespace Brtos
open Chain Bitmap

namespace Kernel
variable {cfg : Config} {k : Kernel cfg}

@[simp] theorem removeFromDelayList_ready (t : ℕ) :
    (k.removeFromDelayList t).osReadyList = k.osReadyList := by
  have links : ∀ (k : Kernel cfg) p v, (k.setNext p v).osReadyList = k.osReadyList ∧
      (k.setPrevious p v).osReadyList = k.osReadyList := fun k p v => by cases p <;> exact ⟨rfl,rfl⟩
  unfold removeFromDelayList
  split_ifs
  · rfl
  · rw [(links _ _ _).2]
  · rw [(links _ _ _).1]
  · rw [(links _ _ _).1,(links _ _ _).2]

theorem visit_ready (t : ℕ) : (k.visit t).osReadyList =
    if k.wait t = k.osTickCounter then k.osReadyList ||| priorityMask cfg (k.contextTask t).priority
    else k.osReadyList := by
  simp only [visit,expire]
  split_ifs
  · exact removeFromDelayList_ready _
  · exact removeFromDelayList_ready _
  · rfl

theorem visit_priority (t u : ℕ) :
    ((k.visit t).contextTask u).priority = (k.contextTask u).priority := by
  have view : ((k.visit t).view (fun _ => .run) (fun _ => 0) fun _ => []).prio =
      (k.view (fun _ => .run) (fun _ => 0) fun _ => []).prio := by
    simp only [visit,expire]
    split_ifs <;> simp only [removeFromDelayList_view,osExitCritical_toCore,setTimeToWait_view] <;> rfl
  exact congrFun view u

/-- A visit takes nobody off the ready list. -/
theorem visit_mem {p : ℕ} (h : p ∈ bits k.osReadyList) (t : ℕ) : p ∈ bits (k.visit t).osReadyList := by
  rw [visit_ready]
  split_ifs
  · rw [mem_bits] at h ⊢
    simp [h]
  · exact h

theorem foldl_visit_mem {p : ℕ} (h : p ∈ bits k.osReadyList) (l : List ℕ) :
    p ∈ bits (l.foldl visit k).osReadyList := by
  induction l generalizing k with
  | nil => exact h
  | cons t l ih => exact ih (visit_mem h t)

/-- The tasks of the list whose deadline has come are ready after the traversal. -/
theorem foldl_visit_due {l : List ℕ} (nodup : l.Nodup) {t : ℕ} (mem : t ∈ l)
    (lt : (k.contextTask t).priority < cfg.width) (due : k.wait t = k.osTickCounter) :
    (k.contextTask t).priority ∈ bits (l.foldl visit k).osReadyList := by
  induction l generalizing k with
  | nil => simp at mem
  | cons u l ih =>
    obtain ⟨far,nodup⟩ := List.nodup_cons.mp nodup
    rw [List.foldl_cons]
    by_cases e : t = u
    · subst e
      refine foldl_visit_mem ?_ l
      rw [visit_ready,if_pos due,bits_or_mask _ lt]
      exact Finset.mem_insert_self _ _
    · have later := ih nodup (List.mem_of_ne_of_mem e mem) (k := k.visit u)
        (by rwa [visit_priority]) (by rw [visit_wait_of_ne e,visit_counter,due])
      rwa [visit_priority] at later

end Kernel

namespace System
variable {cfg : Config} {s t : System cfg} {l : List ℕ}

/-- The steps that make a tick, each by one call of OSIncCounter. -/
def Ticks (s : System cfg) : Action → Prop
  | .isrTick _ => True
  | .process _ _ _ => s.pendingInterrupts.getLsbD interruptTick = true
  | _ => False

instance (a : Action) : Decidable (s.Ticks a) := by
  rcases a <;> unfold Ticks <;> infer_instance

/-- A service leaves the waits of the other suspended tasks alone. -/
theorem enter_still (h : s.Clocked l) (who : Option ℕ) {c : Call} (time : c.InTime cfg)
    (caller : ∀ p, (s.serve c).2 = .sleep p → s.point s.currentTask = .run) {u : ℕ}
    (suspended : s.point u ≠ .run) :
    (s.enter who c).point u = s.point u ∧ (s.enter who c).wait u = s.wait u := by
  cases reply : (s.serve c).2 with
  | sleep p =>
    have other : u ≠ s.currentTask := by
      rintro rfl
      exact suspended (caller p reply)
    obtain ⟨slept,_,_⟩ := serve_asleep h.spells reply time
    rw [enter_sleep reply]
    refine ⟨Function.update_of_ne other _ _,?_⟩
    change (s.serve c).1.wait u = s.wait u
    rw [slept.wait,Function.update_of_ne other]
  | ret code data =>
    have apart : (s.serve c).1.wait u = s.wait u := by
      by_cases new : ∃ f n p, c = .install f n p
      · obtain ⟨f,n,p,rfl⟩ := new
        rcases osInstallTask_cases s.toKernel f n p with
          ⟨_,_,he⟩ | ⟨i,size,free,_,_,_,he⟩ <;> simp only [Kernel.serve,he]
        · exact congrFun (Kernel.wait_of_clock (l := s.toKernel) (by simp)) u
        · have fresh := (findTcb_free free).2
          have other : u ≠ i+1 := by
            rintro rfl
            refine fresh ?_
            simpa [Core.Installed] using h.roster (h.user suspended)
          have wait := Kernel.wait_of_clock ((s.enterTask.installInto (i+1) size p).exitTask_clock)
          rw [wait,Kernel.installInto_wait,Function.update_of_ne other]
          exact congrFun (Kernel.wait_of_clock s.enterTask_clock) u
      · exact congrFun (Kernel.wait_of_clock (serve_returns reply fun f n p e => new ⟨f,n,p,e⟩)) u
    rw [enter_ret reply]
    exact ⟨rfl,apart⟩

/-- The task that runs again is the only one whose time may change. -/
theorem proceed_wait (h : s.Clocked l) (next : s.proceed = some t) :
    (t.wait = s.wait ∨ t.wait = Function.update s.wait s.currentTask cfg.noTimeout) ∧
      t.osTickCounter = s.osTickCounter := by
  unfold proceed at next
  cases point : s.point s.currentTask with
  | run => simp [point] at next
  | delay w =>
    simp only [point,Option.some.injEq] at next
    subst next
    exact ⟨Or.inl rfl,rfl⟩
  | pend o p w =>
    simp only [point,Option.some.injEq] at next
    subst next
    obtain ⟨clock,counter⟩ := resumePend_clock (s := s) o p w
    refine ⟨?_,counter⟩
    rcases (wakeUp_clock h point clock).2 with ⟨_,wait,_⟩ | ⟨_,wait,_⟩
    · exact Or.inl wait
    · exact Or.inr wait

/-- Behind the tick the simulator's handler thread only posts. -/
theorem process_still (h : s.Clocked l) {fuel i b : ℕ} (next : s.process fuel i b = some t) :
    ∃ v, s.uartState fuel = some v ∧ ∀ {u : ℕ}, v.point u ≠ .run → t.point u = v.point u ∧
      t.wait u = v.wait u ∧ t.osTickCounter = v.osTickCounter ∧
      (∀ p, p ∈ bits v.osReadyList → p ∈ bits t.osReadyList) ∧ t.contextTask = v.contextTask := by
  rw [process_eq] at next
  obtain ⟨v,begun,rfl⟩ := Option.map_eq_some_iff.mp next
  obtain ⟨m,ticked⟩ := h.uartState begun
  refine ⟨v,begun,fun {u} suspended => ?_⟩
  dsimp only
  split_ifs
  · obtain ⟨point,wait⟩ := enter_still ticked none (c := .queuePost i b) trivial
      (fun p hp => absurd hp (osQueuePost_awake i b p)) suspended
    have kept := serve_kept (s := v) (c := .queuePost i b) rfl
    rw [← enter_toKernel none] at kept
    refine ⟨point,wait,?_,fun p hp => kept.ready hp,kept.contextTask⟩
    have vital := v.serve_vital (.queuePost i b)
    rw [← enter_toKernel none] at vital
    have counter := Kernel.osTickCounter_of_vital vital
    exact counter
  · exact ⟨rfl,rfl,rfl,fun _ hp => hp,rfl⟩

/-- A step that makes no tick leaves the wait of a suspended task alone that it does not resume. -/
theorem step_still (h : s.Clocked l) (dormant : s.Dormant) {a : Action} (time : a.InTime cfg)
    (plain : ¬ s.Ticks a) {u : ℕ} (suspended : s.point u ≠ .run)
    (asleep : a = .resume → s.currentTask ≠ u) (next : s.step a = some t) :
    t.point u = s.point u ∧ t.wait u = s.wait u ∧ t.osTickCounter = s.osTickCounter := by
  have served : ∀ who c, (s.enter who c).osTickCounter = s.osTickCounter := fun who c => by
    rw [enter_toKernel]
    exact Kernel.osTickCounter_of_vital (s.serve_vital c)
  cases a with
  | main c =>
    simp only [step] at next
    split_ifs at next with hg
    obtain rfl := Option.some.inj next
    obtain ⟨point,wait⟩ := enter_still h none time (fun p _ => (dormant hg.1).2 _) suspended
    exact ⟨point,wait,served _ _⟩
  | start =>
    simp only [step] at next
    split_ifs at next with hg
    exact absurd ((dormant hg).2 u) suspended
  | call c =>
    simp only [step] at next
    split_ifs at next with hg
    obtain rfl := Option.some.inj next
    obtain ⟨point,wait⟩ := enter_still h _ time (fun _ _ => hg.2.1) suspended
    exact ⟨point,wait,served _ _⟩
  | resume =>
    simp only [step] at next
    split_ifs at next
    have other : u ≠ s.currentTask := Ne.symm (asleep rfl)
    obtain ⟨wait,counter⟩ := proceed_wait h next
    refine ⟨by rw [proceed_point next,Function.update_of_ne other],?_,counter⟩
    rcases wait with wait | wait
    · exact congrFun wait u
    · rw [wait,Function.update_of_ne other]
  | isrTick fuel => exact absurd trivial plain
  | isrCall c =>
    simp only [step] at next
    split_ifs at next with hg
    obtain rfl := Option.some.inj next
    obtain ⟨point,wait⟩ := enter_still h none time
      (fun p hp => by simpa [hg.2.2.2] using (serve_sleeps hp).2.1) suspended
    exact ⟨point,wait,served _ _⟩
  | isrEnter | switch | raise =>
    simp only [step] at next
    split_ifs at next
    obtain rfl := Option.some.inj next
    exact ⟨rfl,rfl,rfl⟩
  | isrExit =>
    simp only [step] at next
    split_ifs at next
    all_goals
      obtain rfl := Option.some.inj next
      exact ⟨rfl,rfl,rfl⟩
  | process fuel i b =>
    simp only [step] at next
    split_ifs at next
    obtain ⟨v,begun,handled⟩ := process_still h next
    have cleared : v = { s with toKernel := s.clearInterrupt Kernel.interruptSwc } := by
      unfold System.uartState at begun
      dsimp only at begun
      rw [if_neg (show ¬ s.pendingInterrupts.getLsbD interruptTick = true from plain)] at begun
      exact (Option.some.inj begun).symm
    obtain ⟨point,wait,counter,_⟩ := handled (by rw [cleared]; exact suspended)
    rw [cleared] at point wait counter
    exact ⟨point,wait,counter⟩

/-- What a tick does to a task: its time is over when the counter comes to its deadline. -/
structure Ticked (s t : System cfg) (l : List ℕ) (u : ℕ) : Prop where
  point : t.point u = s.point u
  wait : t.wait u = if u ∈ l ∧ s.wait u = s.osIncCounter.osTickCounter then cfg.exitByTimeout
    else s.wait u
  counter : t.osTickCounter = s.osIncCounter.osTickCounter
  priority : (t.contextTask u).priority = (s.contextTask u).priority
  ready : u ∈ l → s.wait u = s.osIncCounter.osTickCounter →
    (s.contextTask u).priority < cfg.width → (s.contextTask u).priority ∈ bits t.osReadyList

theorem Clocked.ticked (h : s.Clocked l) {fuel : ℕ} {k : Kernel cfg} (hk : s.tick fuel = some k)
    (u : ℕ) : s.Ticked { s with toKernel := k } l u := by
  obtain ⟨ticked,_⟩ := h.tick fuel
  rw [ticked] at hk
  split_ifs at hk
  obtain rfl := Option.some.inj hk
  have begun : s.osIncCounter.links.Spells ([] ++ l) := h.spells
  obtain ⟨_,_,wait⟩ := Kernel.tickLoop_visits begun fuel
  exact
  { point := rfl
    wait := wait u
    counter := foldl_keeps (g := fun k : Kernel cfg => k.osTickCounter)
      (fun _ t => Kernel.visit_counter t) l _
    priority := foldl_keeps (g := fun k : Kernel cfg => (k.contextTask u).priority)
      (fun _ t => Kernel.visit_priority t u) l s.osIncCounter
    ready := fun mem due lt => Kernel.foldl_visit_due (k := s.osIncCounter) h.spells.nodup mem lt due }

theorem step_tick (h : s.Clocked l) {a : Action} (ticks : s.Ticks a) (next : s.step a = some t)
    {u : ℕ} (suspended : s.point u ≠ .run) : s.Ticked t l u := by
  cases a with
  | isrTick fuel =>
    simp only [step] at next
    split_ifs at next
    obtain ⟨k,hk,rfl⟩ := Option.map_eq_some_iff.mp next
    exact h.ticked hk u
  | process fuel i b =>
    simp only [step] at next
    split_ifs at next
    obtain ⟨v,begun,handled⟩ := process_still h next
    unfold System.uartState at begun
    dsimp only at begun
    rw [if_pos (show s.pendingInterrupts.getLsbD interruptTick = true from ticks)] at begun
    obtain ⟨k,hk,rfl⟩ := Option.map_eq_some_iff.mp begun
    have cleared : ({ s with toKernel := s.clearInterrupt Kernel.interruptSwc } : System cfg).Clocked l :=
      h.same rfl rfl rfl rfl
    have done := cleared.ticked hk u
    obtain ⟨point,wait,counter,ready,tasks⟩ := handled suspended
    exact
    { point := point
      wait := wait.trans done.wait
      counter := counter.trans done.counter
      priority := by
        rw [tasks]
        exact done.priority
      ready := fun mem due lt => ready _ (done.ready mem due lt) }
  | _ => exact ticks.elim

/-! ### Runs -/

/-- Times less than a full turn of the counter apart are different. -/
theorem mod_apart {c m n r : ℕ} (apart : m < n) (near : n ≤ r) (first : 0 < m) :
    (c+m)%r ≠ (c+n)%r := by
  intro same
  have turn : m%r = n%r := Nat.ModEq.add_left_cancel' c same
  rcases Nat.lt_or_eq_of_le near with lt | rfl
  · rw [Nat.mod_eq_of_lt (by omega),Nat.mod_eq_of_lt lt] at turn
    omega
  · rw [Nat.mod_eq_of_lt apart,Nat.mod_self] at turn
    omega

/-- The steps of a well-behaved system whose releases go back to a priority of their caller and
whose waits are as long as documented. -/
def Timely (s : System cfg) (a : Action) : Prop := s.Allowed .restoring a ∧ a.InTime cfg

instance (a : Action) : Decidable (s.Timely a) := by unfold Timely; infer_instance

/-- A task that has the processor back behind OSDelayTask has been woken by its timeout. -/
theorem punctual_of_inv (inv : s.Inv) (h : s.Clocked l) {a : Action} (next : s.step a = some t) :
    s.Punctual a := by
  unfold Punctual
  split
  · split
    · rename_i w point
      simp only [step] at next
      split_ifs at next with running
      have ready := inv.due running.1 running.2.2 (by simp [point])
      have late := (inv.sound.napping (t := s.currentTask) point).2 ready
      by_contra open_
      have early := h.due (t := s.currentTask) ⟨by
        rw [point]
        rintro rfl
        exact h.napping point,open_⟩
      exact absurd early (not_lt.mpr late)
    · trivial
  · trivial

theorem Timely.inv (run : Run.Reach step Timely (init cfg) s) : s.Inv ∧ ∃ l, s.Clocked l := by
  have inv : ∀ {t : System cfg}, Run.Reach step Timely (init cfg) t → t.Inv := fun run =>
    (Reaches.inv View.Policy.restoring_safe trivial init_inv (run.mono fun _ _ met => met.1)).2.1
  refine ⟨inv run,?_⟩
  induction run with
  | refl => exact ⟨[],init_clocked⟩
  | tail run met next ih =>
    obtain ⟨l,h⟩ := ih
    exact h.step (dormant_of_reach run) met.2 (punctual_of_inv (inv run) h next) next

/-- No post has taken the task off the wait list it waits on. -/
def Unposted (s : System cfg) (t : ℕ) (x : Point) : Prop := ∀ o p w, x = .pend o p w → t ∉ s.woken o

/-- A task whose deadline is still to come is not ready unless it has been posted to. -/
theorem not_ready (inv : s.Inv) {u : ℕ} {x : Point} (point : s.point u = x) (limited : x.limit ≠ 0)
    (open_ : s.wait u < cfg.tickCountOverflow) (unposted : s.Unposted u x) :
    (s.contextTask u).priority ∉ bits s.osReadyList := by
  intro ready
  have apart := cfg.overflow_lt_exit
  cases x with
  | run => exact limited rfl
  | delay w =>
    have late := (inv.sound.napping (t := u) point).2 ready
    exact absurd open_ (not_lt.mpr late)
  | pend o p w =>
    have pending := inv.sound.pending (t := u) point
    have waits : p ∈ s.view.waiting o := by
      by_contra far
      exact unposted o p w rfl (View.mem_wokenBy.mpr ⟨inv.sound.small point,p,w,point,far⟩)
    have late : s.wait u = cfg.exitByTimeout :=
      (inv.sound.asleep (t := u) point waits (pending.2.1 ▸ ready)).2
    omega

/-- The task waits in `x` for the counter to come to `d`. -/
structure Awaits (s : System cfg) (t : ℕ) (x : Point) (d : ℕ) : Prop where
  point : s.point t = x
  wait : s.wait t = d

/-- The wait as it is while `n` of its `w` ticks are over. -/
theorem waits_of_tally {t w c n : ℕ} {x : Point} (start : Run.Reach step Timely (init cfg) s)
    (small : w ≤ cfg.tickCountOverflow) (limit : x.limit = w) (positive : w ≠ 0)
    (begun : s.Awaits t x ((c+w)%cfg.tickCountOverflow))
    (now : s.osTickCounter = c%cfg.tickCountOverflow) {u : System cfg}
    (run : Run.Tally step (fun s a => s.Timely a ∧ s.Unposted t x) Ticks s n u) (early : n < w) :
    u.osTickCounter = (c+n)%cfg.tickCountOverflow ∧
      u.Awaits t x ((c+w)%cfg.tickCountOverflow) := by
  have suspended : ∀ {v : System cfg} {d : ℕ}, v.Awaits t x d → v.point t ≠ .run := fun h => by
    rw [h.point]
    rintro rfl
    exact positive limit.symm
  induction run with
  | refl => exact ⟨now,begun⟩
  | @other u v a n run met next plain ih =>
    obtain ⟨counter,waits⟩ := ih early
    have reached := start.trans (run.reach.mono fun _ _ met => met.1)
    obtain ⟨inv,l,clocked⟩ := Timely.inv reached
    have below : u.wait t < cfg.tickCountOverflow := by
      rw [waits.wait]
      exact Nat.mod_lt _ (by omega)
    have asleep : a = .resume → u.currentTask ≠ t := by
      rintro rfl rfl
      simp only [step] at next
      split_ifs at next with running
      have ready := inv.due running.1 running.2.2 (suspended waits)
      exact not_ready inv waits.point (limit ▸ positive) below met.2 ready
    obtain ⟨point,wait,count⟩ := step_still clocked (dormant_of_reach reached) met.1.2 plain
      (suspended waits) asleep next
    exact ⟨count.trans counter,point.trans waits.point,wait.trans waits.wait⟩
  | @marked u v a n run met next hit ih =>
    obtain ⟨counter,waits⟩ := ih (by omega)
    have reached := start.trans (run.reach.mono fun _ _ met => met.1)
    obtain ⟨_,l,clocked⟩ := Timely.inv reached
    have ticked := step_tick clocked hit next (suspended waits)
    have below : u.wait t < cfg.tickCountOverflow := by
      rw [waits.wait]
      exact Nat.mod_lt _ (by omega)
    have limits := cfg.overflow_lt_exit
    have count : u.osIncCounter.osTickCounter = (c+(n+1))%cfg.tickCountOverflow := by
      rw [Kernel.osIncCounter_eq clocked.counter,counter,Nat.mod_add_mod,Nat.add_assoc]
    have apart : u.wait t ≠ u.osIncCounter.osTickCounter := by
      rw [waits.wait,count]
      exact (mod_apart (by omega) (by omega) (by omega)).symm
    refine ⟨ticked.counter.trans count,ticked.point.trans waits.point,?_⟩
    rw [ticked.wait,if_neg fun due => apart due.2,waits.wait]

/-- A wait of `w` ticks ends at the `w`th tick: until then its task is not ready unless it has been
posted to, and a tick makes it ready exactly if it is that one. -/
theorem due_of_waits {t w c n : ℕ} {x : Point} (start : Run.Reach step Timely (init cfg) s)
    (small : w ≤ cfg.tickCountOverflow) (limit : x.limit = w) (positive : w ≠ 0)
    (begun : s.Awaits t x ((c+w)%cfg.tickCountOverflow))
    (now : s.osTickCounter = c%cfg.tickCountOverflow) {u : System cfg}
    (run : Run.Tally step (fun s a => s.Timely a ∧ s.Unposted t x) Ticks s n u) (early : n < w)
    (unposted : u.Unposted t x) : u.point t = x ∧ (u.contextTask t).priority ∉ bits u.osReadyList ∧
      ∀ a v, u.Timely a → u.Ticks a → u.step a = some v → v.Unposted t x →
        ((v.contextTask t).priority ∈ bits v.osReadyList ↔ n+1 = w) := by
  obtain ⟨counter,waits⟩ := waits_of_tally start small limit positive begun now run early
  have reached := start.trans (run.reach.mono fun _ _ met => met.1)
  obtain ⟨inv,l,clocked⟩ := Timely.inv reached
  have limits := cfg.overflow_lt_exit
  have limited : x.limit ≠ 0 := limit ▸ positive
  have suspended : u.point t ≠ .run := by
    rw [waits.point]
    rintro rfl
    exact limited rfl
  have below : u.wait t < cfg.tickCountOverflow := by
    rw [waits.wait]
    exact Nat.mod_lt _ (by omega)
  refine ⟨waits.point,not_ready inv waits.point limited below unposted,fun a v met hit next later => ?_⟩
  have ticked := step_tick clocked hit next suspended
  have count : u.osIncCounter.osTickCounter = (c+(n+1))%cfg.tickCountOverflow := by
    rw [Kernel.osIncCounter_eq clocked.counter,counter,Nat.mod_add_mod,Nat.add_assoc]
  constructor
  · intro ready
    by_contra other
    -- the counter has not come to the deadline, so the task still waits
    have inv' := (Timely.inv (reached.tail met next)).1
    have apart : u.wait t ≠ u.osIncCounter.osTickCounter := by
      rw [waits.wait,count]
      exact (mod_apart (by omega) (by omega) (by omega)).symm
    have wait : v.wait t = u.wait t := by rw [ticked.wait,if_neg fun due => apart due.2]
    exact not_ready inv' (ticked.point.trans waits.point) limited (wait ▸ below) later ready
  · rintro rfl
    have mem : t ∈ l := clocked.mem.mpr ⟨by rw [waits.point]; exact limited,by omega⟩
    have due : u.wait t = u.osIncCounter.osTickCounter := by rw [waits.wait,count]
    have lt := inv.sound.prio_lt (clocked.roster (clocked.user suspended))
    rw [ticked.priority]
    exact ticked.ready mem due lt

/-- A call that suspends its task for a limited time sets the deadline. -/
theorem awaits_of_call (start : Run.Reach step Timely (init cfg) s) {c : Call}
    (met : s.Timely (.call c)) (next : s.step (.call c) = some t) {x : Point}
    (slept : t.point s.currentTask = x) (limited : x.limit ≠ 0) :
    x.limit ≤ cfg.tickCountOverflow ∧ t.osTickCounter = s.osTickCounter%cfg.tickCountOverflow ∧
      t.Awaits s.currentTask x ((s.osTickCounter+x.limit)%cfg.tickCountOverflow) := by
  obtain ⟨_,l,clocked⟩ := Timely.inv start
  simp only [step] at next
  split_ifs at next with running
  obtain rfl := Option.some.inj next
  cases reply : (s.serve c).2 with
  | ret code data =>
    rw [enter_ret reply] at slept
    exact absurd (slept.symm.trans running.2.1) (by rintro rfl; exact limited rfl)
  | sleep p =>
    obtain ⟨asleep,small,_⟩ := serve_asleep clocked.spells reply met.2
    rw [enter_sleep reply] at slept ⊢
    obtain rfl : p = x := by simpa [setPoint] using slept
    have counter := Kernel.osTickCounter_of_vital (s.serve_vital c)
    refine ⟨small,?_,slept,?_⟩
    · rw [Nat.mod_eq_of_lt clocked.counter]
      exact counter
    · change (s.serve c).1.wait s.currentTask = _
      rw [asleep.wait,Function.update_self,if_neg limited,Kernel.deadline_eq clocked.counter small]

/-- A task that may call OSDelayTask sleeps there. -/
theorem delayTask_sleeps (start : Run.Reach step Timely (init cfg) s) {w : ℕ} (limited : w ≠ 0)
    (next : s.step (.call (.delayTask w)) = some t) : t.point s.currentTask = .delay w := by
  obtain ⟨_,l,clocked⟩ := Timely.inv start
  simp only [step] at next
  split_ifs at next with running
  obtain rfl := Option.some.inj next
  have calm : ¬ 0 < s.iNesting := by
    have := running.1.2.1
    omega
  have task : s.currentTask ≠ 0 := by
    have := (clocked.roster running.2.2).1
    omega
  have reply : (s.serve (.delayTask w)).2 = .sleep (.delay w) := by
    simp [Kernel.serve,Kernel.osDelayTask,calm,task,limited]
  rw [enter_sleep reply]
  exact Function.update_self _ _ _

/-- A task that calls OSDelayTask(w) becomes ready at the tick whose number is `w` and not before,
whatever the other tasks and the interrupts do meanwhile; so does a task that waits with a limit of
`w` ticks, as long as it is not posted to. -/
theorem due_on_time (start : Run.Reach step Timely (init cfg) s) {w : ℕ} (positive : 1 ≤ w) :
    (s.Timely (.call (.delayTask w)) → s.step (.call (.delayTask w)) = some t →
      ∀ {n : ℕ} {u : System cfg}, Run.Tally step Timely Ticks t n u → n < w →
        u.point s.currentTask = .delay w ∧
        (u.contextTask s.currentTask).priority ∉ bits u.osReadyList ∧
        ∀ a v, u.Timely a → u.Ticks a → u.step a = some v →
          ((v.contextTask s.currentTask).priority ∈ bits v.osReadyList ↔ n+1 = w)) ∧
    ∀ {o : Obj} {p : ℕ}, s.Timely (.call (o.pendCall w)) → s.step (.call (o.pendCall w)) = some t →
      t.point s.currentTask = .pend o p w → ∀ {n : ℕ} {u : System cfg},
        Run.Tally step (fun v a => v.Timely a ∧ s.currentTask ∉ v.woken o) Ticks t n u → n < w →
        s.currentTask ∉ u.woken o → u.point s.currentTask = .pend o p w ∧
        (u.contextTask s.currentTask).priority ∉ bits u.osReadyList ∧
        ∀ a v, u.Timely a → u.Ticks a → u.step a = some v → s.currentTask ∉ v.woken o →
          ((v.contextTask s.currentTask).priority ∈ bits v.osReadyList ↔ n+1 = w) := by
  have limited : w ≠ 0 := by omega
  constructor
  · intro met next n u run early
    have slept : t.point s.currentTask = .delay w := delayTask_sleeps start limited next
    obtain ⟨small,now,begun⟩ := awaits_of_call start met next slept limited
    have never : ∀ v : System cfg, v.Unposted s.currentTask (.delay w) := fun v o p x h => by simp at h
    obtain ⟨point,asleep,due⟩ := due_of_waits (start.tail met next) small rfl limited begun now
      (run.mono fun v a met => ⟨met,never v⟩) early (never u)
    exact ⟨point,asleep,fun a v met hit next => due a v met hit next (never v)⟩
  · intro o p met next slept n u run early unposted
    obtain ⟨small,now,begun⟩ := awaits_of_call start met next slept limited
    have asks : ∀ v : System cfg, s.currentTask ∉ v.woken o → v.Unposted s.currentTask (.pend o p w) :=
      fun v hv q r x h => by
        obtain ⟨rfl,_,_⟩ := Point.pend.inj h
        exact hv
    obtain ⟨point,asleep,due⟩ := due_of_waits (start.tail met next) small rfl limited begun now
      (run.mono fun v a met => ⟨met.1,asks v met.2⟩) early (asks u unposted)
    exact ⟨point,asleep,fun a v met hit next later => due a v met hit next (asks v later)⟩

/-- Task 2 delays for one tick, which makes it ready. -/
theorem due_run : ∃ u v : System .port, u.point 2 = .delay 1 ∧
    (u.contextTask 2).priority ∉ bits u.osReadyList ∧ u.step (.isrTick 2) = some v ∧
    (v.contextTask 2).priority ∈ bits v.osReadyList := by
  obtain ⟨s,run,current,met,t,next,met',u,next',met'',more⟩ := Run.exists_reach_of_exec step Timely
    (init .port) [.main (.install (.user 1) 16 3),.main (.install (.user 2) 16 4),.start]
    (fun s => s.currentTask = 2 ∧ s.Timely (.call (.delayTask 1)) ∧
      ∃ t ∈ s.step (.call (.delayTask 1)), t.Timely .isrEnter ∧
        ∃ u ∈ t.step .isrEnter, u.Timely (.isrTick 2) ∧ (u.step (.isrTick 2)).isSome = true)
    (by decide +kernel)
  obtain ⟨v,hv⟩ := Option.isSome_iff_exists.mp more
  have later : Run.Tally step Timely Ticks t 0 u := .other .refl met' next' id
  obtain ⟨point,asleep,due⟩ := (due_on_time run le_rfl).1 met next later zero_lt_one
  rw [current] at point asleep due
  exact ⟨u,v,point,asleep,hv,(due _ v met'' trivial hv).mpr rfl⟩

/-- Two tasks delay at one priority after a release that restores the ceiling of a mutex given back
before: the tick at which the first one is due makes the second one ready too. -/
theorem due_fails : ∃ s t : System .port,
    Run.Reach step (fun s a => a.InTime .port ∧ s.Lawful .oneCeiling a) (init .port) s ∧
      s.point 2 = .delay 9 ∧ (s.contextTask 2).priority ∉ bits s.osReadyList ∧
      s.step (.isrTick 2) = some t ∧ (t.contextTask 2).priority ∈ bits t.osReadyList ∧
      t.wait 2 ≠ t.osTickCounter ∧ t.wait 2 ≠ Config.exitByTimeout .port := by
  obtain ⟨s,run,slept,asleep,t,next,ready⟩ := Run.exists_reach_of_exec step
    (fun s a => a.InTime .port ∧ s.Lawful .oneCeiling a) (init .port)
    [.main (.install (.user 1) 16 3),.main (.install (.user 2) 16 4),.main (.mutexCreate 5),
      .main (.mutexCreate 0),.start,.call (.delayTask 1),.switch,.call (.mutexAcquire 0 0),
      .call (.mutexAcquire 1 0),.call (.mutexRelease 0),.call (.mutexRelease 1),.call (.delayTask 3),
      .switch,.isrEnter,.isrTick 2,.isrExit,.resume,.call (.mutexAcquire 0 0),.call (.delayTask 9),
      .switch,.isrEnter,.isrTick 2]
    (fun s => s.point 2 = .delay 9 ∧ (s.contextTask 2).priority ∉ bits s.osReadyList ∧
      ∃ t ∈ s.step (.isrTick 2), (t.contextTask 2).priority ∈ bits t.osReadyList ∧
        t.wait 2 ≠ t.osTickCounter ∧ t.wait 2 ≠ Config.exitByTimeout .port) (by decide +kernel)
  exact ⟨s,t,run,slept,asleep,next,ready⟩

end System
end Brtos
