import Brtos.Bounds

/-! The end of a callback that has called the timer service itself. -/
namespace Brtos
open TimerList TimerService

namespace TimerService
variable {cfg : Config} {s t : TimerService cfg} {p again : ℕ} {behind : Bool}

/-- The timer goes to the future list when its callback returns. -/
def Moves (s : TimerService cfg) (behind : Bool) (again : ℕ) : Prop :=
  behind = true ∨ s.osTickCounter+again ≥ cfg.tickCountOverflow

instance (s : TimerService cfg) (behind : Bool) (again : ℕ) : Decidable (s.Moves behind again) :=
  inferInstanceAs (Decidable (_ ∨ _))

/-- From `s` to `t` the timer was retired and is in no list, or was re-armed and is once in the list of
its new deadline, and nothing happened to the others. -/
structure Attended (s t : TimerService cfg) (behind : Bool) (p again : ℕ) : Prop where
  others {q : ℕ} : q ≠ p → t.mem q = s.mem q
  current {q : ℕ} : q ≠ p → t.current.items.count (some q) = s.current.items.count (some q)
  future {q : ℕ} : q ≠ p → t.future.items.count (some q) = s.future.items.count (some q)
  retired : again = 0 → t.mem p = ⟨none,0,.notAllocated⟩ ∧ ¬ t.Listed p
  rearmed : 0 < again → t.mem p = { s.mem p with timeout := (s.rearmed behind again).1 } ∧
    t.current.items.count (some p) = (if s.Moves behind again then 0 else 1) ∧
    t.future.items.count (some p) = if s.Moves behind again then 1 else 0

/-- The timer is once in the current list, and the first one there if it has to leave, and it finds room
in the future list if it has to go there. -/
structure Attendable (s : TimerService cfg) (behind : Bool) (p again : ℕ) : Prop where
  current : s.current.items.count (some p) = 1
  future : s.future.items.count (some p) = 0
  first : again = 0 ∨ s.Moves behind again → s.current.timers 1 = some p
  room : 0 < again → s.Moves behind again → HasRoom cfg s.future

/-- The timer leaves the current list. -/
theorem Dispatched.leaves_iff {q : Option ℕ} (d : Dispatched s behind p again t q) (h : s.Regular)
    (leaves : again = 0 ∨ s.Moves behind again) : Attended s t behind p again ↔
      s.current.items.count (some p) = 1 ∧ s.future.items.count (some p) = 0 ∧
        s.current.timers 1 = some p := by
  obtain ⟨n,current,_⟩ := h.current
  obtain ⟨m,future,_⟩ := h.future
  have moves := rearmed_moves s behind again
  obtain ⟨positive,gone⟩ := d.removed (leaves.imp_right moves.mpr) n current
  obtain ⟨r,hr⟩ := Option.isSome_iff_exists.mp ((current.some_iff 1).mpr ⟨le_rfl,positive⟩)
  have items := gone.items
  rw [hr] at items
  -- The future list has one more entry exactly if the timer is armed again.
  have grows : ∀ x, t.future.items.count x =
      s.future.items.count x+if 0 < again ∧ x = some p then 1 else 0 := by
    intro x
    rcases Nat.eq_zero_or_pos again with rfl | pos
    · simp [(d.retired rfl).2]
    · have inserted := (d.moved pos (moves.mpr (leaves.resolve_left (by omega))) m future).2
      rw [inserted.items,Multiset.count_cons]
      simp [pos]
  constructor
  · intro attended
    have here : r = p := by
      by_contra apart
      have same := attended.current apart
      rw [← items,Multiset.count_cons_self] at same
      omega
    have counts : t.current.items.count (some p) = 0 ∧
        t.future.items.count (some p) = if 0 < again then 1 else 0 := by
      rcases Nat.eq_zero_or_pos again with rfl | pos
      · have absent := (attended.retired rfl).2
        unfold Listed at absent
        rw [not_or] at absent
        exact ⟨Multiset.count_eq_zero.mpr absent.1,Multiset.count_eq_zero.mpr absent.2⟩
      · have goes := leaves.resolve_left (by omega)
        obtain ⟨_,none,once⟩ := attended.rearmed pos
        rw [if_pos goes] at none once
        exact ⟨none,by rw [once,if_pos pos]⟩
    rw [here] at items hr
    have more := grows (some p)
    rw [counts.2] at more
    refine ⟨by rw [← items,Multiset.count_cons_self,counts.1],?_,hr⟩
    simp only [and_true] at more
    split_ifs at more <;> omega
  · rintro ⟨once,absent,first⟩
    obtain rfl := Option.some.inj (hr.symm.trans first)
    have none : t.current.items.count (some r) = 0 := by
      rw [← items,Multiset.count_cons_self] at once
      omega
    have now := grows (some r)
    rw [absent] at now
    refine ⟨fun apart => ?_,fun apart => ?_,fun apart => ?_,fun zero => ?_,fun pos => ?_⟩
    · rw [d.mem,Function.update_of_ne apart]
    · rw [← items,Multiset.count_cons_of_ne (by simpa using apart)]
    · rw [grows,if_neg fun both => apart (by simpa using both.2),Nat.add_zero]
    · refine ⟨by rw [(d.retired zero).1,Function.update_self],?_⟩
      unfold Listed
      rw [if_neg (by omega)] at now
      rw [not_or]
      exact ⟨Multiset.count_eq_zero.mp none,Multiset.count_eq_zero.mp now⟩
    · have goes := leaves.resolve_left (by omega)
      rw [if_pos ⟨pos,rfl⟩] at now
      exact ⟨by rw [d.armed pos,Function.update_self],by rw [none,if_pos goes],by rw [now,if_pos goes]⟩

/-- The timer stays in the current list. -/
theorem Dispatched.stays_iff {q : Option ℕ} (d : Dispatched s behind p again t q) (h : s.Regular)
    (pos : 0 < again) (stays : ¬ s.Moves behind again) : Attended s t behind p again ↔
      s.current.items.count (some p) = 1 ∧ s.future.items.count (some p) = 0 := by
  obtain ⟨n,current,_⟩ := h.current
  have idle : (s.rearmed behind again).2 = false :=
    Bool.eq_false_iff.mpr (mt (rearmed_moves s behind again).mp stays)
  obtain ⟨same,sinks⟩ := d.stayed pos idle
  have items := (sunk_filled t.mem current).2
  rw [← sinks n current] at items
  constructor
  · intro attended
    obtain ⟨_,once,absent⟩ := attended.rearmed pos
    rw [if_neg stays] at once absent
    exact ⟨items ▸ once,same ▸ absent⟩
  · rintro ⟨once,absent⟩
    refine ⟨fun apart => ?_,fun _ => by rw [items],fun _ => by rw [same],by omega,fun _ => ?_⟩
    · rw [d.mem,Function.update_of_ne apart]
    · rw [if_neg stays,if_neg stays,items,same]
      exact ⟨by rw [d.armed pos,Function.update_self],once,absent⟩

theorem Dispatched.attended_iff {q : Option ℕ} (d : Dispatched s behind p again t q) (h : s.Regular) :
    Attended s t behind p again ↔ s.current.items.count (some p) = 1 ∧
      s.future.items.count (some p) = 0 ∧
      (again = 0 ∨ s.Moves behind again → s.current.timers 1 = some p) := by
  by_cases leaves : again = 0 ∨ s.Moves behind again
  · rw [d.leaves_iff h leaves]
    simp [leaves]
  · rw [not_or] at leaves
    rw [d.stays_iff h (by omega) leaves.2]
    simp [leaves]

/-- The end of a callback comes to its end and attends to the timer, exactly if the timer is as it has
to be. -/
theorem attends_iff (h : s.Regular) (two : 1 < cfg.brtosMaxTimer) :
    (∃ r, s.dispatch behind p again = .ok r ∧ Attended s r.1 behind p again) ↔
      s.Attendable behind p again := by
  obtain ⟨n,current,fits⟩ := h.current
  obtain ⟨m,future,_⟩ := h.future
  have total := dispatch_iff behind p again current future fits
  have moves := rearmed_moves s behind again
  constructor
  · rintro ⟨⟨t,q⟩,st,attended⟩
    obtain ⟨once,absent,first⟩ := ((dispatch_ok current future fits st).attended_iff h).mp attended
    exact ⟨once,absent,first,fun pos goes => (total.mp ⟨_,st⟩).2.2 pos (moves.mpr goes)⟩
  · rintro ⟨once,absent,first,room⟩
    have entries : again = 0 ∨ (s.rearmed behind again).2 = true → 1 ≤ n := by
      intro leaves
      have some := first (leaves.imp_right moves.mp)
      exact ((current.some_iff 1).mp (by rw [some]; rfl)).2
    obtain ⟨⟨t,q⟩,st⟩ := total.mpr ⟨two,entries,fun pos goes => room pos (moves.mp goes)⟩
    exact ⟨_,st,((dispatch_ok current future fits st).attended_iff h).mpr ⟨once,absent,first⟩⟩

end TimerService

namespace TimerSystem
variable {cfg : Config} {s t x : TimerSystem cfg} {p again : ℕ} {behind : Bool}

/-- A timer task that has left its first stop has found the first entry of the list in the array. -/
theorem reach_two {ok : TimerSystem cfg → TimerAction → Prop} (start : s.Booted)
    (typed : ∀ s a, ok s a → s.Enabled a) (run : Run.Reach step ok s x) :
    x.point ≠ .start → 1 < cfg.brtosMaxTimer := by
  have first : s.Regular ∧ (s.point ≠ .start → 1 < cfg.brtosMaxTimer) :=
    ⟨start.fresh.regular,fun left => absurd start.fresh.point left⟩
  refine (run.invariant (P := fun x => x.Regular ∧ (x.point ≠ .start → 1 < cfg.brtosMaxTimer)) first ?_).2
  rintro s a t ⟨regular,two⟩ e next
  have st := step_eq_some.mp next
  exact ⟨act_regular regular (typed _ _ e) st,two_step regular (typed _ _ e) st two⟩

/-- The iteration attends to the timer whose callback returns, and to no other. -/
def AttendsOnly (s : TimerSystem cfg) (behind : Bool) (p again : ℕ) : Prop :=
  ∃ t, s.act (.ret again) = .ok t ∧ Attended s.toTimerService t.toTimerService behind p again

/-- For every run after OSTimerInit, with callbacks that call the service as they like, and every timer
whose callback returns: the iteration of the timer task attends to that timer and to no other if and only
if the timer is then once in the current list and not in the future one, is the first entry unless it
stays there, and finds room where it goes. -/
theorem attends_run (start : s.Booted) (run : Run.Reach step Enabled s x)
    (fires : x.point = .fires behind p) :
    x.AttendsOnly behind p again ↔ x.Attendable behind p again := by
  have regular := (reach_regular start (fun _ _ => id) run).service
  have two := reach_two start (fun _ _ => id) run (by simp [fires])
  rw [← attends_iff regular two]
  constructor
  · rintro ⟨t,st,attended⟩
    rw [act,fires] at st
    obtain ⟨r,hr,ht⟩ := bind_eq_ok.mp st
    obtain rfl := Except.ok.inj ht
    exact ⟨r,hr,attended⟩
  · rintro ⟨r,hr,attended⟩
    unfold AttendsOnly
    rw [act,fires]
    exact ⟨_,bind_eq_ok.mpr ⟨r,hr,rfl⟩,attended⟩

/-- The timer task goes to sleep, two timers are started for five and for nine ticks, and after five
ticks the timer task calls the callback of the first one. -/
def firing : List TimerAction :=
  [.switch 1,.run,.run,.run,.run,.switch 2,.set true (some 0) 5,.set true (some 0) 9,.tick 9,.tick 9,
    .tick 9,.tick 9,.tick 9,.switch 1,.run,.run,.run]

/-- The callback starts a third timer, stops the second one and asks for seven more ticks. -/
theorem attends_example : ∃ s x : TimerSystem Config.simulator, s.Booted ∧ x.point = .fires false 0 ∧
    x.AttendsOnly false 0 7 := by
  obtain ⟨s,booted,run⟩ := exists_booted (Kernel.brtosInit Config.simulator) (.user 0) 16 30
    (fun s => (Run.exec step Enabled s (firing ++ [.set true (some 0) 4,.stop (some 1) 0])).map
      fun x : TimerSystem Config.simulator => decide (x.point = .fires false 0 ∧ ¬ x.Moves false 7 ∧
        x.current.items.count (some 0) = 1 ∧ x.future.items.count (some 0) = 0)) (by decide +kernel)
  obtain ⟨x,reach,fires,stays,once,absent⟩ := Run.exists_reach_of_exec step Enabled s _ _ run
  refine ⟨s,x,booted,fires,(attends_run booted reach fires).mpr ⟨once,absent,?_,fun _ => ?_⟩⟩
  · rintro (zero | moves)
    · cases zero
    · exact absurd moves stays
  · exact fun moves => absurd moves stays

/-- The callback stops its own timer and returns zero: the other timer, now the first, is removed. -/
theorem attends_fails : ∃ s x : TimerSystem Config.simulator, s.Booted ∧ Run.Reach step Enabled s x ∧
    x.point = .fires false 0 ∧ x.Enabled (.ret 0) ∧ ¬ x.AttendsOnly false 0 0 := by
  obtain ⟨s,booted,run⟩ := exists_booted (Kernel.brtosInit Config.simulator) (.user 0) 16 30
    (fun s => (Run.exec step Enabled s (firing ++ [.stop (some 0) 0])).map
      fun x : TimerSystem Config.simulator => decide (x.point = .fires false 0 ∧ x.Enabled (.ret 0) ∧
        x.current.items.count (some 1) = 1 ∧ (x.step (.ret 0)).map
          (fun t => decide (t.current.items.count (some 1) = 0)) = some true)) (by decide +kernel)
  obtain ⟨x,reach,fires,enabled,before,after⟩ := Run.exists_reach_of_exec step Enabled s _ _ run
  refine ⟨s,x,booted,reach,fires,enabled,?_⟩
  rintro ⟨t,st,attended⟩
  rw [step_eq_some.mpr st] at after
  have lost : t.current.items.count (some 1) = 0 := of_decide_eq_true (Option.some.inj after)
  have kept := attended.current (q := 1) (by decide)
  rw [lost,before] at kept
  cases kept

end TimerSystem
end Brtos
