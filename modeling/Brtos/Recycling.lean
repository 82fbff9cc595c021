import Brtos.Starting

/-! The control blocks of the timers over their whole history. -/
namespace Brtos
open TimerService

namespace TimerSystem
variable {cfg : Config} {s t : TimerSystem cfg} {a : TimerAction} {live : Finset ℕ}

/-- The timers that have been created and neither deleted nor retired, after one more action. -/
def record (s : TimerSystem cfg) (live : Finset ℕ) : TimerAction → Finset ℕ
  | .set cbp cb w =>
    match s.osTimerSet cbp cb w with
    | .ok (_,.ret 0 [p]) => insert p live
    | _ => live
  | .stop (some p) del => if del > 0 then live.erase p else live
  | .ret 0 =>
    match s.point with
    | .fires _ p => live.erase p
    | _ => live
  | _ => live

def ledgerStep (x : TimerSystem cfg × Finset ℕ) (a : TimerAction) :
    Option (TimerSystem cfg × Finset ℕ) :=
  (x.1.step a).map fun t => (t,x.1.record x.2 a)

/-- Nobody starts or stops a timer that is gone, except to delete it once more. -/
def Proper (x : TimerSystem cfg × Finset ℕ) (a : TimerAction) : Prop :=
  x.1.Enabled a ∧
    match a with
    | .start (some p) _ => p ∈ x.2
    | .stop (some p) del => del > 0 ∨ p ∈ x.2
    | _ => True

/-- The live timers are the control blocks in use, and no free one stands before them. -/
structure Roster (s : TimerSystem cfg) (live : Finset ℕ) : Prop where
  regular : s.Regular
  live (p : ℕ) : p ∈ live ↔ s.Taken p
  inside {p : ℕ} : s.Taken p → p < cfg.brtosMaxTimer
  free : ∃ n, ∀ i < cfg.brtosMaxTimer, (s.mem i).state = .notUsed ↔ n ≤ i

theorem Roster.same (h : Roster s live) (regular : t.Regular) (mem : t.mem = s.mem) :
    Roster t live where
  regular := regular
  live p := by
    rw [h.live p,Taken,Taken,mem]
  inside used := h.inside (by rwa [Taken,mem] at used)
  free := mem ▸ h.free

/-- A control block that was handed out is rewritten. -/
theorem Roster.update {p : ℕ} {v : Timer} (h : Roster s live) (regular : t.Regular)
    (mem : t.mem = Function.update s.mem p v) (handed : s.Handed p) (used : v.state ≠ .notUsed) :
    Roster t (if v.state = .notAllocated then live.erase p else insert p live) := by
  have taken : ∀ q, t.Taken q ↔ if q = p then v.state ≠ .notAllocated else s.Taken q := by
    intro q
    unfold Taken
    rw [mem]
    by_cases here : q = p
    · subst here
      simp [used]
    · simp [here]
  refine ⟨regular,fun q => ?_,fun {q} hq => ?_,?_⟩
  · rw [taken]
    split_ifs with dead here here
    · simp [here,dead]
    · simp [here,h.live q]
    · simp [here,dead]
    · simp [here,h.live q]
  · rw [taken] at hq
    split_ifs at hq with here
    · exact here ▸ handed.1
    · exact h.inside hq
  · obtain ⟨n,free⟩ := h.free
    refine ⟨n,fun i lt => ?_⟩
    rw [mem]
    by_cases here : i = p
    · subst here
      rw [Function.update_self]
      exact iff_of_false used fun le => handed.2 ((free i lt).mpr le)
    · rw [Function.update_of_ne here]
      exact free i lt

/-- The first free control block is taken. -/
theorem Roster.take {p : ℕ} {v : Timer} (h : Roster s live) (regular : t.Regular)
    (mem : t.mem = Function.update s.mem p v) (scanned : s.Scanned (.ok p))
    (used : v.state ≠ .notUsed ∧ v.state ≠ .notAllocated) : Roster t (insert p live) := by
  obtain ⟨fits,unused,before⟩ := scanned
  have taken : ∀ q, t.Taken q ↔ q = p ∨ s.Taken q := by
    intro q
    unfold Taken
    rw [mem]
    by_cases here : q = p
    · subst here
      simp [used]
    · simp [here]
  refine ⟨regular,fun q => ?_,fun {q} hq => ?_,p+1,fun i lt => ?_⟩
  · rw [taken,Finset.mem_insert,h.live]
  · rcases (taken q).mp hq with rfl | old
    · exact fits
    · exact h.inside old
  · rw [mem]
    rcases Nat.lt_trichotomy i p with less | rfl | more
    · rw [Function.update_of_ne (by omega)]
      exact iff_of_false (before i less).2 (by omega)
    · rw [Function.update_self]
      exact iff_of_false used.1 (by omega)
    · rw [Function.update_of_ne (by omega)]
      obtain ⟨n,free⟩ := h.free
      have := (free p fits).mp unused
      exact iff_of_true ((free i lt).mpr (by omega)) more

theorem Roster.step (h : Roster s live) (e : Proper (s,live) a) (st : s.act a = .ok t) :
    Roster t (s.record live a) := by
  have regular := act_regular h.regular e.1 st
  cases a with
  | set cbp cb w =>
    obtain ⟨⟨u,r⟩,hu,ht⟩ := bind_eq_ok.mp st
    obtain rfl := Except.ok.inj ht
    rcases (osTimerSet_frame hu).2 with
      ⟨code,rfl,_,mem⟩ | ⟨p,v,rfl,found,mem,_,state⟩
    · simp only [record,hu]
      exact h.same regular mem
    · simp only [record,hu]
      refine h.take regular mem (findTimer_ok (by simp) found) ?_
      rw [state]
      split_ifs <;> simp
  | start q w =>
    obtain ⟨⟨u,r⟩,hu,ht⟩ := bind_eq_ok.mp st
    obtain rfl := Except.ok.inj ht
    rcases (osTimerStart_frame hu).2 with ⟨mem,_⟩ | ⟨p,rfl,_,_,mem⟩
    · exact h.same regular mem
    · have next := h.update regular mem (e.1.2.2 p rfl) (by simp [begun])
      rwa [if_neg (by simp [begun]),Finset.insert_eq_of_mem e.2] at next
  | stop q del =>
    obtain ⟨⟨u,r⟩,hu,ht⟩ := bind_eq_ok.mp st
    obtain rfl := Except.ok.inj ht
    rcases (osTimerStop_frame hu).2 with ⟨mem,rfl⟩ | ⟨p,rfl,mem⟩
    · exact h.same regular mem
    · have state := ended_state s.toTimerService p del
      have next := h.update regular mem (e.1.2.2 p rfl) (by rw [state]; split_ifs <;> simp)
      rw [state] at next
      simp only [record]
      split_ifs with deleted
      · rwa [if_pos deleted,if_pos rfl] at next
      · rwa [if_neg deleted,if_neg (by simp),Finset.insert_eq_of_mem (e.2.resolve_left deleted)] at next
  | tick fuel =>
    rcases (act_frame st).1 with mem | ⟨p,v,writes,_⟩
    · exact h.same regular mem
    · cases writes
  | switch task =>
    rcases (act_frame st).1 with mem | ⟨p,v,writes,_⟩
    · exact h.same regular mem
    · cases writes
  | run =>
    rcases (act_frame st).1 with mem | ⟨p,v,writes,_⟩
    · exact h.same regular mem
    · cases writes
  | ret again =>
    obtain ⟨behind,p,point,d,_⟩ := ret_ok h.regular.service e.1 st
    have mem := d.mem
    have handed := h.regular.held (p := p) (by rw [point]; rfl)
    have state := served_state s.toTimerService behind p again
    cases again with
    | zero =>
      have next := h.update regular mem handed (by rw [state]; simp)
      rw [state,if_pos rfl,if_pos rfl] at next
      simp only [record,point]
      exact next
    | succ again =>
      rw [if_neg (by omega)] at state
      have next := h.update regular mem handed (by rw [state]; exact handed.2)
      rw [state] at next
      simp only [record]
      split_ifs at next with dead
      · rwa [Finset.erase_eq_of_notMem fun hp => ((h.live p).mp hp).1 dead] at next
      · rwa [Finset.insert_eq_of_mem ((h.live p).mpr ⟨dead,handed.2⟩)] at next

theorem Fresh.roster (h : s.Fresh) : Roster s ∅ where
  regular := h.regular
  live p := by
    unfold Taken
    rw [h.mem]
    simp only [Finset.notMem_empty,false_iff]
    split_ifs <;> simp
  inside {p} used := by
    unfold Taken at used
    rw [h.mem] at used
    by_contra outside
    simp [outside] at used
  free := ⟨0,fun i lt => by rw [h.mem,if_pos lt]; simp⟩

theorem reach_roster {ok : TimerSystem cfg × Finset ℕ → TimerAction → Prop} (start : s.Booted)
    (proper : ∀ x a, ok x a → Proper x a) {x : TimerSystem cfg × Finset ℕ}
    (run : Run.Reach ledgerStep ok (s,∅) x) : Roster x.1 x.2 := by
  apply run.invariant (P := fun x => Roster x.1 x.2) start.fresh.roster
  intro x a y roster e st
  obtain ⟨t,ht,rfl⟩ := Option.map_eq_some_iff.mp st
  exact roster.step (proper x a e) (step_eq_some.mp ht)

/-- OSTimerSet for `w` ticks returns: it takes a control block that is not live as long as there are
fewer live timers than control blocks, and says that there is none otherwise. -/
def Recycles (s : TimerSystem cfg) (live : Finset ℕ) (w : ℕ) : Prop :=
  ∀ cb, ∃ t r, s.osTimerSet true (some cb) w = .ok (t,r) ∧
    (live.card < cfg.brtosMaxTimer → ∃ p, r = .ret ok [p] ∧ p ∉ live) ∧
    (cfg.brtosMaxTimer ≤ live.card → r = .ret noAvailableEvent [])

/-- A timer that is started at once finds room in its list. -/
def Admits (s : TimerSystem cfg) (live : Finset ℕ) (w : ℕ) : Prop :=
  live.card < cfg.brtosMaxTimer → w = 0 ∨ HasRoom cfg (s.target w)

theorem Roster.subset (h : Roster s live) : live ⊆ Finset.range cfg.brtosMaxTimer := by
  intro p hp
  exact Finset.mem_range.mpr (h.inside ((h.live p).mp hp))

/-- A control block that is not live leaves the live timers fewer than the control blocks. -/
theorem Roster.card_lt (h : Roster s live) {p : ℕ} (fits : p < cfg.brtosMaxTimer) (dead : ¬ s.Taken p) :
    live.card < cfg.brtosMaxTimer := by
  have proper : live ⊂ Finset.range cfg.brtosMaxTimer := by
    refine h.subset.ssubset_of_not_subset fun all => ?_
    exact dead ((h.live p).mp (all (Finset.mem_range.mpr fits)))
  simpa using Finset.card_lt_card proper

theorem Roster.recycles_iff (h : Roster s live) (w : ℕ) : Recycles s live w ↔
    (∀ p < cfg.brtosMaxTimer, (s.mem p).state ≠ .notAllocated) ∧ Admits s live w := by
  obtain ⟨found,hf⟩ := findTimer_total (s := s.toTimerService) h.regular.service.small
    (f := 256) (i := 0) (Nat.zero_le _) (by have := h.regular.service.small; omega)
  have scanned := findTimer_ok (by simp) hf
  cases found with
  | ok q =>
    obtain ⟨fits,unused,before⟩ := scanned
    have untaken : ¬ s.Taken q := fun used => used.2 unused
    have few := h.card_lt fits untaken
    have alive : ∀ p < cfg.brtosMaxTimer, (s.mem p).state ≠ .notAllocated := by
      intro p inside dead
      obtain ⟨n,free⟩ := h.free
      have first : ¬ n ≤ p := fun le => by simpa [dead] using (free p inside).mpr le
      have := (free q fits).mp unused
      exact (before p (by omega)).1 dead
    refine Iff.trans ?_ (and_iff_right alive).symm
    have returns := fun cb => osTimerSet_launches (w := w) h.regular.service hf cb
    constructor
    · intro recycles _
      obtain ⟨t,r,done,_⟩ := recycles 0
      exact (returns 0).mp ⟨_,done⟩
    · intro room cb
      obtain ⟨⟨t,r⟩,done⟩ := (returns cb).mpr (room few)
      refine ⟨t,r,done,fun _ => ⟨q,?_,fun hq => untaken ((h.live q).mp hq)⟩,fun full => by omega⟩
      rw [osTimerSet_taken hf] at done
      obtain ⟨u,_,done⟩ := bind_eq_ok.mp done
      exact (Prod.mk.inj (Except.ok.inj done)).2.symm
  | error code =>
    have done := fun cb => osTimerSet_eq s.toTimerService cb w
    simp only [hf,ok_bind] at done
    constructor
    · intro recycles
      have full : cfg.brtosMaxTimer ≤ live.card := by
        by_contra few
        obtain ⟨t,r,done',answer,_⟩ := recycles 0
        obtain ⟨p,rfl,_⟩ := answer (by omega)
        simpa using (Prod.mk.inj (Except.ok.inj ((done 0).symm.trans done'))).2
      exact ⟨fun p fits dead => by have := h.card_lt fits fun used => used.1 dead; omega,
        fun few => by omega⟩
    · rintro ⟨alive,_⟩ cb
      refine ⟨_,_,done cb,?_⟩
      rcases scanned with ⟨rfl,all⟩ | ⟨_,p,fits,dead,_⟩
      · refine ⟨fun few => ?_,fun _ => rfl⟩
        have every : Finset.range cfg.brtosMaxTimer ⊆ live := fun p hp =>
          (h.live p).mpr (all p (Finset.mem_range.mp hp))
        have := Finset.card_le_card every
        rw [Finset.card_range] at this
        omega
      · exact absurd dead (alive p fits)

/-- The action ends a timer for good. -/
def Kills : TimerAction → Prop
  | .stop _ del => del > 0
  | .ret again => again = 0
  | _ => False

instance (a : TimerAction) : Decidable (Kills a) :=
  match a with
  | .stop _ _ => inferInstanceAs (Decidable (_ > _))
  | .ret _ => inferInstanceAs (Decidable (_ = _))
  | .set _ _ _ | .start _ _ | .tick _ | .switch _ | .run => inferInstanceAs (Decidable False)

/-- No control block of a timer that has ended. -/
def Alive (s : TimerSystem cfg) : Prop := ∀ p < cfg.brtosMaxTimer, (s.mem p).state ≠ .notAllocated

theorem Alive.step (h : s.Alive) (spares : ¬ Kills a) (st : s.act a = .ok t) : t.Alive := by
  intro p fits
  rcases (act_frame st).1 with mem | ⟨q,v,writes,mem⟩
  · rw [mem]
    exact h p fits
  · rw [mem]
    by_cases here : p = q
    · subst here
      rw [Function.update_self]
      cases writes with
      | set _ _ state => rw [state]; split_ifs <;> simp
      | start => simp [begun]
      | @stop _ del =>
        rw [ended_state,if_neg (show ¬ del > 0 from spares)]
        simp
      | @ret _ _ again _ =>
        rw [served_state,if_neg (show ¬ again = 0 from spares)]
        exact h p fits
    · rw [Function.update_of_ne here]
      exact h p fits

/-- For every history of the timers after OSTimerInit, OSTimerSet recycles the control blocks exactly
if none of them is that of a timer that has ended and the new timer finds room; and as long as no timer
ends, exactly if the new timer finds room. -/
theorem recycles_run (start : s.Booted) (w : ℕ) :
    (∀ x, Run.Reach ledgerStep Proper (s,∅) x → (Recycles x.1 x.2 w ↔
      (∀ p < cfg.brtosMaxTimer, (x.1.mem p).state ≠ .notAllocated) ∧ Admits x.1 x.2 w)) ∧
    ∀ x, Run.Reach ledgerStep (fun x a => Proper x a ∧ ¬ Kills a) (s,∅) x →
      (Recycles x.1 x.2 w ↔ Admits x.1 x.2 w) := by
  refine ⟨fun x run => (reach_roster start (fun _ _ => id) run).recycles_iff w,fun x run => ?_⟩
  have roster := reach_roster start (fun _ _ ok => ok.1) run
  refine (roster.recycles_iff w).trans (and_iff_right ?_)
  have born : s.Alive := by
    intro p fits
    rw [start.fresh.mem,if_pos fits]
    simp
  apply run.invariant (P := fun x => x.1.Alive) born
  rintro x a y alive ⟨_,spares⟩ st
  obtain ⟨t,ht,rfl⟩ := Option.map_eq_some_iff.mp st
  exact alive.step spares (step_eq_some.mp ht)

instance (x : TimerSystem cfg × Finset ℕ) (a : TimerAction) : Decidable (Proper x a) :=
  match a with
  | .set _ _ _ => inferInstanceAs (Decidable (_ ∧ True))
  | .start none _ => inferInstanceAs (Decidable (_ ∧ True))
  | .start (some _) _ => inferInstanceAs (Decidable (_ ∧ _ ∈ _))
  | .stop none _ => inferInstanceAs (Decidable (_ ∧ True))
  | .stop (some _) _ => inferInstanceAs (Decidable (_ ∧ (_ ∨ _)))
  | .tick _ => inferInstanceAs (Decidable (_ ∧ True))
  | .switch _ => inferInstanceAs (Decidable (_ ∧ True))
  | .run => inferInstanceAs (Decidable (_ ∧ True))
  | .ret _ => inferInstanceAs (Decidable (_ ∧ True))

/-- A timer for five ticks is deleted. None of the eight control blocks is in use, and there is none for
the next timer. -/
theorem recycles_fails : ∃ (s : TimerSystem Config.simulator) (x : TimerSystem Config.simulator × Finset ℕ),
    s.Booted ∧ Run.Reach ledgerStep Proper (s,∅) x ∧ ¬ Recycles x.1 x.2 5 := by
  obtain ⟨s,booted,run⟩ := exists_booted (Kernel.brtosInit Config.simulator) (.user 0) 16 30
    (fun s => (Run.exec ledgerStep Proper (s,∅) [.set true (some 0) 5,.stop (some 0) 1]).map
      fun x : TimerSystem Config.simulator × Finset ℕ => decide (x.2.card < 8 ∧ ((x.1.osTimerSet true (some 0) 5).toOption.map Prod.snd) =
        some (.ret errEventNoCreated []))) (by decide +kernel)
  obtain ⟨x,reach,few,reply⟩ := Run.exists_reach_of_exec ledgerStep Proper (s,∅) _ _ run
  refine ⟨s,x,booted,reach,fun recycles => ?_⟩
  obtain ⟨t,r,done,answer,_⟩ := recycles 0
  obtain ⟨p,rfl,_⟩ := answer few
  simp [done,Except.toOption] at reply

/-- One timer is live, and the next one gets another control block. -/
theorem recycles_example : ∃ (s : TimerSystem Config.simulator)
    (x : TimerSystem Config.simulator × Finset ℕ), s.Booted ∧ x.2.card = 1 ∧ Recycles x.1 x.2 5 := by
  obtain ⟨s,booted,run⟩ := exists_booted (Kernel.brtosInit Config.simulator) (.user 0) 16 30
    (fun s => (Run.exec ledgerStep (fun x a => Proper x a ∧ ¬ Kills a) (s,∅)
      [.set true (some 0) 5,.stop (some 0) 0]).map
        fun x : TimerSystem Config.simulator × Finset ℕ =>
          decide (x.2.card = 1 ∧ HasRoom Config.simulator (x.1.target 5))) (by decide +kernel)
  obtain ⟨x,reach,one,room⟩ := Run.exists_reach_of_exec ledgerStep _ (s,∅) _ _ run
  exact ⟨s,x,booted,one,((recycles_run booted 5).2 x reach).mpr fun _ => Or.inr room⟩

end TimerSystem
end Brtos
