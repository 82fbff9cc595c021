import Brtos.Delayed

/-! Tickless operation (TICKLESS = 1 on the Cortex-M4 port): the sleep up to the next deadline, and
what is added to the tick counter when it ends. `cycles` is configCPU_CLOCK_HZ/configTICK_RATE_HZ. -/
namespace Brtos
open Chain

/-- The kernel with the port's variables and the reload value of SysTick. -/
structure Tickless (cfg : Config) extends Kernel cfg where
  normalRun : Bool
  timeNextTask : ℕ
  sysTickLoad : ℕ

def maxTicks (cycles : ℕ) : ℕ := 0x00FFFFFF/(cycles-1)

namespace Kernel
variable {cfg : Config} (k : Kernel cfg)

/-- OSIncCounter(inc); the sum is reduced as those of the deadlines are. -/
def osIncCounterBy (inc : ℕ) : Kernel cfg :=
  if inc ≠ 1 then { k with osTickCounter := k.deadline inc } else k.osIncCounter

/-- The loop of WaitTickless. `ostick_t` stands for `uint16_t`, which is no macro and neither is `uint64_t`,
so `#if (ostick_t != uint64_t)` compares zero with zero, and the branch for deadlines behind the overflow
is not compiled. -/
def waitLoop : ℕ → Option ℕ → ℕ → Option ℕ
  | _,none,lowWait => some lowWait
  | 0,some _,_ => none
  | n+1,some task,lowWait =>
    let lowWait :=
      if (k.contextTask task).timeToWait ≥ k.osTickCounter then
        let time := (k.contextTask task).timeToWait-k.osTickCounter
        if time < lowWait then time else lowWait
      else lowWait
    waitLoop n (k.contextTask task).next lowWait

def waitTickless (cycles fuel : ℕ) : Option (Tickless cfg) :=
  (k.waitLoop fuel k.head cfg.maxTimer).map fun lowWait =>
    let timeNextTask := if lowWait > maxTicks cycles then maxTicks cycles else lowWait
    { k with
      normalRun := false
      timeNextTask := timeNextTask
      sysTickLoad := if timeNextTask > 0 then (cycles-1)*timeNextTask else cycles-1 }

/-- How far the counter is from a deadline, going up and round. -/
def distance (d : ℕ) : ℕ := (d+cfg.tickCountOverflow-k.osTickCounter)%cfg.tickCountOverflow

end Kernel

namespace Tickless
variable {cfg : Config} (s : Tickless cfg)

/-- TickTimerSetup, and the end of the sleep. -/
def setup (cycles : ℕ) : Tickless cfg := { s with normalRun := true, sysTickLoad := cycles-1 }

/-- The ticks that BRTOS_WakeUP takes as passed, an ostick_t. -/
def elapsed (cycles cnt : ℕ) : ℕ :=
  (s.timeNextTask+(cfg.maxTimer+1)-cnt/(cycles-1)%(cfg.maxTimer+1))%(cfg.maxTimer+1)

/-- BRTOS_WakeUP, called by SwitchContext; `cnt` is what it reads in NVIC_SYSTICK_CNT. -/
def brtosWakeUp (cycles cnt fuel : ℕ) : Option (Tickless cfg) :=
  if s.normalRun then some s
  else
    let time := s.elapsed cycles cnt
    let k := if time > 0 then (s.osIncCounterBy time).osTickHandler fuel else some s.toKernel
    k.map fun k => ({ s with toKernel := k } : Tickless cfg).setup cycles

def osIncTickLess (cycles : ℕ) : Tickless cfg :=
  if s.normalRun = false then
    ({ s with toKernel := s.osIncCounterBy s.timeNextTask } : Tickless cfg).setup cycles
  else { s with toKernel := s.osIncCounterBy 1 }

/-- TickTimer, the handler of SysTick. -/
def tickTimer (cycles fuel : ℕ) : Option (Tickless cfg) :=
  let s := s.osIncTickLess cycles
  (s.osTickHandler fuel).map fun k => { s with toKernel := k }

end Tickless

namespace Kernel
variable {cfg : Config} {k : Kernel cfg} {l : List ℕ}

theorem distance_of_le {d : ℕ} (lt : d < cfg.tickCountOverflow) (le : k.osTickCounter ≤ d) :
    k.distance d = d-k.osTickCounter := by
  rw [distance,show d+cfg.tickCountOverflow-k.osTickCounter = d-k.osTickCounter+cfg.tickCountOverflow by
    omega,Nat.add_mod_right,Nat.mod_eq_of_lt (by omega)]

theorem distance_of_lt (now : k.osTickCounter < cfg.tickCountOverflow) {d : ℕ}
    (lt : d < k.osTickCounter) : k.distance d = d+cfg.tickCountOverflow-k.osTickCounter :=
  Nat.mod_eq_of_lt (by omega)

theorem distance_lt (now : k.osTickCounter < cfg.tickCountOverflow) (d : ℕ) :
    k.distance d < cfg.tickCountOverflow := Nat.mod_lt _ (by omega)

/-- Going on by its distance leads to the deadline. -/
theorem add_distance (now : k.osTickCounter < cfg.tickCountOverflow) {d : ℕ}
    (lt : d < cfg.tickCountOverflow) :
    (k.osTickCounter+k.distance d)%cfg.tickCountOverflow = d := by
  rcases Nat.lt_or_ge d k.osTickCounter with past | ahead
  · rw [distance_of_lt now past,show k.osTickCounter+(d+cfg.tickCountOverflow-k.osTickCounter) =
      d+cfg.tickCountOverflow by omega,Nat.add_mod_right,Nat.mod_eq_of_lt lt]
  · rw [distance_of_le lt ahead,Nat.add_sub_cancel' ahead,Nat.mod_eq_of_lt lt]

/-- The loop takes the least distance of the deadlines that are not below the counter. -/
theorem waitLoop_least {a b : List ℕ} (h : k.links.Spells (a ++ b)) {n : ℕ} (long : b.length ≤ n)
    (low : ℕ) : ∃ r, k.waitLoop n b.head? low = some r ∧ r ≤ low ∧
      (∀ t ∈ b, k.osTickCounter ≤ k.wait t → r ≤ k.wait t-k.osTickCounter) ∧
      (r = low ∨ ∃ t ∈ b, k.osTickCounter ≤ k.wait t ∧ r = k.wait t-k.osTickCounter) := by
  induction b generalizing a n low with
  | nil => exact ⟨low,by cases n <;> rfl,le_rfl,by simp,Or.inl rfl⟩
  | cons u b ih =>
    cases n with
    | zero => simp at long
    | succ n =>
      have next : (k.contextTask u).next = b.head? := (h.cell rfl).1
      obtain ⟨r,loop,below,least,from_⟩ := ih (a := a ++ [u]) (by simpa using h)
        (by simpa using long) (if k.wait u ≥ k.osTickCounter then
          if k.wait u-k.osTickCounter < low then k.wait u-k.osTickCounter else low else low)
      refine ⟨r,?_,?_,fun t ht ahead => ?_,?_⟩
      · change k.waitLoop n (k.contextTask u).next _ = _
        rw [next]
        exact loop
      · split_ifs at below <;> omega
      · cases ht with
        | head =>
          rw [if_pos (show k.wait u ≥ k.osTickCounter from ahead)] at below
          split_ifs at below <;> omega
        | tail _ later => exact least t later ahead
      · rcases from_ with same | ⟨t,ht,ahead,same⟩
        · split_ifs at same with ahead near
          · exact Or.inr ⟨u,List.mem_cons_self,ahead,same⟩
          · exact Or.inl same
          · exact Or.inl same
        · exact Or.inr ⟨t,List.mem_cons_of_mem u ht,ahead,same⟩

theorem osIncCounterBy_counter (now : k.osTickCounter < cfg.tickCountOverflow) {inc : ℕ}
    (fits : inc ≤ cfg.maxTimer) :
    (k.osIncCounterBy inc).osTickCounter < cfg.tickCountOverflow ↔
      k.osTickCounter+inc < 2*cfg.tickCountOverflow := by
  unfold osIncCounterBy
  split_ifs with one
  · exact deadline_lt_iff now fits
  · rw [osIncCounter_eq now]
    exact iff_of_true (Nat.mod_lt _ (by omega)) (by omega)

theorem osIncCounterBy_eq (now : k.osTickCounter < cfg.tickCountOverflow) {inc : ℕ}
    (near : k.osTickCounter+inc < 2*cfg.tickCountOverflow) :
    (k.osIncCounterBy inc).osTickCounter = (k.osTickCounter+inc)%cfg.tickCountOverflow := by
  have small : cfg.tickCountOverflow ≤ cfg.maxTimer := by simp [Config.tickCountOverflow]
  unfold osIncCounterBy
  split_ifs with one
  · change k.deadline inc = _
    simp only [deadline]
    split_ifs with late
    · rw [Nat.mod_eq_of_lt (by omega),Nat.mod_eq_sub_mod late,Nat.mod_eq_of_lt (by omega)]
    · rw [Nat.mod_eq_of_lt (by omega),Nat.mod_eq_of_lt (by omega)]
  · obtain rfl : inc = 1 := not_not.mp one
    exact osIncCounter_eq now

theorem osIncCounterBy_clock (inc : ℕ) : (k.osIncCounterBy inc).clock = k.clock := by
  unfold osIncCounterBy
  split_ifs <;> rfl

/-- The tick handler on a well-formed list. -/
theorem osTickHandler_spec (h : k.links.Spells l) {fuel : ℕ} (long : l.length ≤ fuel) :
    ∃ m, k.osTickHandler fuel = some m ∧ m.osTickCounter = k.osTickCounter ∧
      ∀ t ∈ l, k.wait t = k.osTickCounter → m.wait t = cfg.exitByTimeout := by
  have begun : k.links.Spells ([] ++ l) := h
  obtain ⟨loop,_,wait⟩ := tickLoop_visits begun fuel
  have first : l.head? = k.head := h.first.symm
  refine ⟨l.foldl visit k,?_,?_,fun t ht due => ?_⟩
  · rw [osTickHandler,← first,loop,if_pos long]
  · exact foldl_keeps (g := fun k : Kernel cfg => k.osTickCounter) (fun _ t => visit_counter t) l _
  · rw [wait,if_pos ⟨ht,due⟩]

end Kernel

namespace Tickless
variable {cfg : Config} {k m : Kernel cfg} {s t : Tickless cfg} {l : List ℕ}

/-- The counter goes on by `inc` ticks and the handler runs: it keeps within its range, moves past no
deadline of the list, and a deadline that it comes to is served. -/
def Arrives (k : Kernel cfg) (l : List ℕ) (inc : ℕ) (r : Option (Tickless cfg)) : Prop :=
  ∃ t, r = some t ∧ t.osTickCounter < cfg.tickCountOverflow ∧
    ∀ u ∈ l, inc ≤ k.distance (k.wait u) ∧
      (inc ≠ 0 → k.distance (k.wait u) = inc → t.wait u = cfg.exitByTimeout)

/-- An increment that reaches no further than the nearest deadline. -/
theorem arrives_of_le (h : k.links.Spells l) (now : k.osTickCounter < cfg.tickCountOverflow)
    (due : ∀ u ∈ l, k.wait u < cfg.tickCountOverflow) {inc fuel : ℕ} (long : l.length ≤ fuel)
    (clock : m.clock = k.clock) (counter : m.osTickCounter = k.osTickCounter)
    (near : k.osTickCounter+inc < 2*cfg.tickCountOverflow)
    (first : ∀ u ∈ l, inc ≤ k.distance (k.wait u)) {r : Option (Tickless cfg)}
    {f : Kernel cfg → Tickless cfg} (keeps : ∀ m, (f m).toKernel = m)
    (handled : r = ((m.osIncCounterBy inc).osTickHandler fuel).map f) : Arrives k l inc r := by
  have clock' := (Kernel.osIncCounterBy_clock (k := m) inc).trans clock
  have spells : (m.osIncCounterBy inc).links.Spells l := by rwa [Kernel.links_of_clock clock']
  have wait := Kernel.wait_of_clock clock'
  have moved : (m.osIncCounterBy inc).osTickCounter =
      (k.osTickCounter+inc)%cfg.tickCountOverflow := by
    rw [Kernel.osIncCounterBy_eq (by rwa [counter]) (by rwa [counter]),counter]
  obtain ⟨n,done,same,served⟩ := Kernel.osTickHandler_spec spells long
  refine ⟨f n,by rw [handled,done]; rfl,?_,fun u hu => ⟨first u hu,fun _ reached => ?_⟩⟩
  · rw [keeps,same,moved]
    exact Nat.mod_lt _ (by omega)
  · rw [keeps]
    refine served u hu ?_
    rw [wait,moved,← reached,Kernel.add_distance now (due u hu)]

/-- The parts of the state that WaitTickless has chosen. -/
theorem waitTickless_spec {cycles fuel : ℕ} (h : k.links.Spells l) (long : l.length ≤ fuel)
    (slept : k.waitTickless cycles fuel = some s) : s.toKernel = k ∧ s.normalRun = false ∧
      s.sysTickLoad = (if s.timeNextTask > 0 then (cycles-1)*s.timeNextTask else cycles-1) ∧
      ∃ low, s.timeNextTask = min low (maxTicks cycles) ∧ low ≤ cfg.maxTimer ∧
        (∀ t ∈ l, k.osTickCounter ≤ k.wait t → low ≤ k.wait t-k.osTickCounter) ∧
        (low = cfg.maxTimer ∨
          ∃ t ∈ l, k.osTickCounter ≤ k.wait t ∧ low = k.wait t-k.osTickCounter) := by
  have begun : k.links.Spells ([] ++ l) := h
  obtain ⟨low,loop,below,least,from_⟩ := Kernel.waitLoop_least begun long cfg.maxTimer
  have first : l.head? = k.head := h.first.symm
  rw [first] at loop
  simp only [Kernel.waitTickless,loop,Option.map_some,Option.some.injEq] at slept
  subst slept
  refine ⟨rfl,rfl,rfl,low,?_,below,least,from_⟩
  simp only
  split_ifs <;> omega

/-- BRTOS_WakeUP never counts more ticks than the sleep was to last, unless it was to last none. -/
theorem elapsed_le {cycles : ℕ} (cnt : ℕ) (cycle : 2 ≤ cycles) (fits : s.timeNextTask ≤ cfg.maxTimer)
    (load : s.sysTickLoad = if s.timeNextTask > 0 then (cycles-1)*s.timeNextTask else cycles-1)
    (reload : cnt ≤ s.sysTickLoad) : s.elapsed cycles cnt =
      if s.timeNextTask = 0 ∧ cnt = cycles-1 then cfg.maxTimer
      else s.timeNextTask-cnt/(cycles-1) := by
  have positive : 0 < cycles-1 := by omega
  by_cases none : s.timeNextTask = 0
  · rw [if_neg (show ¬ s.timeNextTask > 0 by omega)] at load
    rw [load] at reload
    have large := cfg.timer_large
    rcases Nat.lt_or_eq_of_le reload with lt | full
    · rw [if_neg (by omega),elapsed,none,Nat.div_eq_of_lt lt,Nat.zero_mod]
      simp
    · rw [if_pos ⟨none,full⟩,elapsed,none,full,Nat.div_self positive,
        Nat.mod_eq_of_lt (show 1 < cfg.maxTimer+1 by omega),Nat.zero_add,Nat.add_sub_cancel,
        Nat.mod_eq_of_lt (by omega)]
  · rw [if_pos (by omega)] at load
    have passed : cnt/(cycles-1) ≤ s.timeNextTask := by
      rw [load] at reload
      exact Nat.div_le_of_le_mul reload
    rw [if_neg (fun full => none full.1),elapsed,Nat.mod_eq_of_lt (show cnt/(cycles-1) < cfg.maxTimer+1 by
      omega),show s.timeNextTask+(cfg.maxTimer+1)-cnt/(cycles-1) =
        s.timeNextTask-cnt/(cycles-1)+(cfg.maxTimer+1) by omega,Nat.add_mod_right,
      Nat.mod_eq_of_lt (Nat.lt_succ_of_le ((Nat.sub_le _ _).trans fits))]

/-- BRTOS_WakeUP in a sleep whose kernel an interrupt may have changed. -/
theorem brtosWakeUp_asleep (asleep : s.normalRun = false) (cycles cnt fuel : ℕ) :
    ({ s with toKernel := m } : Tickless cfg).brtosWakeUp cycles cnt fuel =
      (if s.elapsed cycles cnt > 0 then (m.osIncCounterBy (s.elapsed cycles cnt)).osTickHandler fuel
        else some m).map fun n =>
          { s with toKernel := n, normalRun := true, sysTickLoad := cycles-1 } := by
  simp only [brtosWakeUp]
  rw [if_neg (by simp [asleep])]
  rfl

/-- The deadlines that the compiled loop looks at keep the sleep short enough, and the counter that
SysTick shows is no reload value that BRTOS_WakeUP would take for minus one tick. -/
structure Covers (k : Kernel cfg) (l : List ℕ) (cycles cnt : ℕ) : Prop where
  behind {t : ℕ} : t ∈ l → k.wait t < k.osTickCounter →
    maxTicks cycles ≤ k.distance (k.wait t) ∨
      ∃ u ∈ l, k.osTickCounter ≤ k.wait u ∧ k.wait u-k.osTickCounter ≤ k.distance (k.wait t)
  range : (∃ t ∈ l, k.osTickCounter ≤ k.wait t) ∨
    k.osTickCounter+min cfg.maxTimer (maxTicks cycles) < 2*cfg.tickCountOverflow
  reload : (∃ t ∈ l, k.wait t = k.osTickCounter) → cnt < cycles-1

/-- For every delay list with deadlines of the counter's range: the sleep of WaitTickless is at most
the distance to every deadline, and whether SysTick or another interrupt ends it, the counter moves
past no deadline that is not served, exactly if the deadlines behind the overflow, which the compiled
loop skips, are no nearer than the others and the limit of the timer. -/
theorem arrives_iff {cycles cnt fuel : ℕ} (cycle : 2 ≤ cycles) (timer : cycles-1 ≤ 0x00FFFFFF)
    (h : k.links.Spells l) (now : k.osTickCounter < cfg.tickCountOverflow)
    (due : ∀ u ∈ l, k.wait u < cfg.tickCountOverflow) (long : l.length ≤ fuel)
    (slept : k.waitTickless cycles fuel = some s) (reload : cnt ≤ s.sysTickLoad)
    (clock : m.clock = k.clock) (counter : m.osTickCounter = k.osTickCounter) :
    ((∀ u ∈ l, s.timeNextTask ≤ k.distance (k.wait u)) ∧
      Arrives k l s.timeNextTask (({ s with toKernel := m } : Tickless cfg).tickTimer cycles fuel) ∧
      Arrives k l (s.elapsed cycles cnt)
        (({ s with toKernel := m } : Tickless cfg).brtosWakeUp cycles cnt fuel)) ↔
      Covers k l cycles cnt := by
  obtain ⟨kernel,asleep,load,low,chosen,below,least,from_⟩ := waitTickless_spec h long slept
  have limits := cfg.overflow_lt_exit
  have above := cfg.exit_lt_noTimeout
  have top : cfg.noTimeout ≤ cfg.maxTimer := Nat.sub_le _ _
  have fits : s.timeNextTask ≤ cfg.maxTimer := by omega
  have time := elapsed_le cnt cycle fits load reload
  have least_tick : 1 ≤ maxTicks cycles := (Nat.one_le_div_iff (by omega)).mpr timer
  have far := fun d => Kernel.distance_lt now d
  constructor
  · rintro ⟨first,⟨t,ticked,inRange,_⟩,⟨t',woken,_,passes⟩⟩
    refine ⟨fun {t} ht past => ?_,?_,?_⟩
    · rcases from_ with none | ⟨u,hu,ahead,same⟩
      · have := first t ht
        have := far (k.wait t)
        exact Or.inl (by omega)
      · have := first t ht
        by_cases clamped : low ≤ maxTicks cycles
        · exact Or.inr ⟨u,hu,ahead,by omega⟩
        · exact Or.inl (by omega)
    · rcases from_ with none | ⟨u,hu,ahead,same⟩
      · refine Or.inr ?_
        have advanced : (m.osIncCounterBy s.timeNextTask).osTickCounter < cfg.tickCountOverflow := by
          simp only [tickTimer,osIncTickLess,asleep,if_true,setup] at ticked
          obtain ⟨n,handled,rfl⟩ := Option.map_eq_some_iff.mp ticked
          have clock' := (Kernel.osIncCounterBy_clock (k := m) s.timeNextTask).trans clock
          obtain ⟨n',done,same,_⟩ := Kernel.osTickHandler_spec
            (k := m.osIncCounterBy s.timeNextTask) (by rwa [Kernel.links_of_clock clock']) long
          obtain rfl := Option.some.inj (done.symm.trans handled)
          rw [← same]
          exact inRange
        rw [Kernel.osIncCounterBy_counter (by rwa [counter]) fits,counter,chosen,none] at advanced
        exact advanced
      · exact Or.inl ⟨u,hu,ahead⟩
    · rintro ⟨u,hu,here⟩
      have zero : s.timeNextTask = 0 := by
        have := first u hu
        rw [here,Kernel.distance_of_le now le_rfl] at this
        omega
      rw [zero,if_neg (by omega)] at load
      by_contra full
      rw [if_pos ⟨zero,by omega⟩] at time
      have := (passes u hu).1
      rw [time,here,Kernel.distance_of_le now le_rfl] at this
      omega
  · intro covers
    have first : ∀ u ∈ l, s.timeNextTask ≤ k.distance (k.wait u) := fun u hu => by
      rcases Nat.lt_or_ge (k.wait u) k.osTickCounter with past | ahead
      · rcases covers.behind hu past with clamp | ⟨v,hv,ahead,near⟩
        · omega
        · have := least v hv ahead
          omega
      · have := least u hu ahead
        rw [Kernel.distance_of_le (due u hu) ahead]
        omega
    have near : k.osTickCounter+s.timeNextTask < 2*cfg.tickCountOverflow := by
      rcases covers.range with ⟨u,hu,ahead⟩ | range
      · have := first u hu
        have := far (k.wait u)
        omega
      · omega
    have shorter : s.elapsed cycles cnt ≤ s.timeNextTask := by
      rw [time]
      split_ifs with full
      · rcases from_ with none | ⟨u,hu,ahead,same⟩
        · omega
        · have := covers.reload ⟨u,hu,by omega⟩
          omega
      · exact Nat.sub_le _ _
    refine ⟨first,?_,?_⟩
    · refine arrives_of_le h now due long clock counter near first (r := _)
        (f := fun n => { s with toKernel := n, normalRun := true, sysTickLoad := cycles-1 })
        (fun _ => rfl) ?_
      simp only [tickTimer,osIncTickLess,asleep,if_true,setup]
    · by_cases passed : s.elapsed cycles cnt > 0
      · refine arrives_of_le h now due long clock counter (by omega)
          (fun u hu => shorter.trans (first u hu)) (r := _)
          (f := fun n => { s with toKernel := n, normalRun := true, sysTickLoad := cycles-1 })
          (fun _ => rfl) ?_
        rw [brtosWakeUp_asleep asleep,if_pos passed]
      · refine ⟨{ s with toKernel := m, normalRun := true, sysTickLoad := cycles-1 },?_,?_,
          fun u hu => ⟨by omega,fun some_ => absurd some_ (by omega)⟩⟩
        · rw [brtosWakeUp_asleep asleep,if_neg passed,Option.map_some]
        · rw [← counter] at now
          exact now

/-- A task that waits for five ticks from tick zero on: the processor sleeps for five ticks. -/
theorem arrives_example : ∃ (k : Kernel .port) (s : Tickless .port), k.links.Spells [2] ∧
    k.waitTickless 168000 1 = some s ∧ s.timeNextTask ≤ k.distance (k.wait 2) ∧
    Arrives k [2] s.timeNextTask (s.tickTimer 168000 1) := by
  let k : Kernel .port := { Kernel.brtosInit .port with currentTask := 2 }
  have spells : (k.fallAsleep 5).links.Spells [2] := by
    have empty : k.links.Spells [] := Links.spells_nil rfl rfl
    rw [Kernel.fallAsleep_links empty]
    exact empty.push (by simp)
  obtain ⟨s,slept⟩ : ∃ s, (k.fallAsleep 5).waitTickless 168000 1 = some s :=
    Option.isSome_iff_exists.mp (by decide +kernel)
  have kernel := (waitTickless_spec spells le_rfl slept).1
  have covers : Covers (k.fallAsleep 5) [2] 168000 0 :=
    ⟨fun {t} ht past => by
      obtain rfl := List.mem_singleton.mp ht
      exact absurd past (by decide +kernel),
      Or.inl ⟨2,by simp,by decide +kernel⟩,fun _ => by decide⟩
  have arrives := (arrives_iff (m := s.toKernel) (by decide) (by decide) spells (by decide +kernel)
    (fun u hu => by
      obtain rfl := List.mem_singleton.mp hu
      decide +kernel) le_rfl slept (Nat.zero_le _) (by rw [kernel]) (by rw [kernel])).mpr covers
  exact ⟨_,s,spells,slept,arrives.1 2 (by simp),arrives.2.1⟩

/-- A task with its deadline behind the overflow, at the end of the counter's range. -/
def overflowing : Kernel .port :=
  { Kernel.brtosInit .port with osTickCounter := 65530, currentTask := 2 }

/-- A wait of five ticks that ends at tick 3, with a clock of 168 MHz and 1000 ticks a second: the
processor sleeps for 99 ticks, and the deadline is passed over. -/
theorem arrives_fails : ((overflowing.fallAsleep 5).wait 2,(overflowing.fallAsleep 5).head) =
      (3,some 2) ∧ (overflowing.fallAsleep 5).distance 3 = 5 ∧
    ((overflowing.fallAsleep 5).waitTickless 168000 1).map (fun s => s.timeNextTask) = some 99 ∧
    (((overflowing.fallAsleep 5).waitTickless 168000 1).bind fun s => s.tickTimer 168000 1).map
      (fun s => (s.osTickCounter,s.wait 2)) = some (97,3) := by
  decide +kernel

end Tickless
end Brtos
