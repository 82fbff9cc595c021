import Brtos.Mapping

/-! Priorities under the ceiling protocol, for tasks that hold several mutexes. -/
namespace Brtos
open Bitmap

namespace View
variable {cfg : Config} {v w : View}

/-- The priority that a task needs while it holds the mutexes of a list. -/
def demand (v : View) (t : ℕ) (l : List ℕ) : ℕ := l.foldr (fun m a => max (v.ceiling m) a) (v.inst t)

theorem inst_le_demand (v : View) (t : ℕ) (l : List ℕ) : v.inst t ≤ v.demand t l := by
  induction l with
  | nil => exact le_rfl
  | cons m l ih => exact ih.trans (le_max_right _ _)

theorem ceiling_le_demand (v : View) (t : ℕ) {l : List ℕ} {m : ℕ} (h : m ∈ l) :
    v.ceiling m ≤ v.demand t l := by
  induction l with
  | nil => simp at h
  | cons n l ih =>
    rcases List.mem_cons.mp h with rfl | h
    · exact le_max_left _ _
    · exact (ih h).trans (le_max_right _ _)

theorem demand_erase (v : View) (t : ℕ) {l : List ℕ} {m : ℕ} (h : m ∈ l) :
    v.demand t l = max (v.ceiling m) (v.demand t (l.erase m)) := by
  induction l with
  | nil => simp at h
  | cons n l ih =>
    by_cases e : n = m
    · subst e
      rw [List.erase_cons_head]
      rfl
    · rw [List.erase_cons_tail (by simpa using e)]
      have hm : m ∈ l := (List.mem_cons.mp h).resolve_left (Ne.symm e)
      change max (v.ceiling n) (v.demand t l) = max (v.ceiling m) (max (v.ceiling n) _)
      rw [ih hm,max_left_comm]
      rfl

theorem demand_congr {t : ℕ} {l : List ℕ} (inst : w.inst t = v.inst t)
    (ceil : ∀ m ∈ l, w.ceiling m = v.ceiling m) : w.demand t l = v.demand t l := by
  induction l with
  | nil => exact inst
  | cons m l ih =>
    change max (w.ceiling m) (w.demand t l) = max (v.ceiling m) (v.demand t l)
    rw [ceil m (by simp),ih fun n hn => ceil n (by simp [hn])]

/-- A release goes back to the priority that the remaining mutexes call for. -/
def Policy.fitting : Policy where
  acquire _ _ _ := True
  release v t m := v.saved m = v.demand t ((v.held t).erase m)

/-- The acquisition of the mutex has moved its holder up. -/
def Raised (v : View) (m : ℕ) : Prop := v.saved m < v.ceiling m

/-- A task runs at the priority it needs, which is its own or the ceiling of a mutex that has raised
it; and each such mutex has been acquired at a priority of this kind. -/
structure Level (v : View) : Prop where
  prio {t : ℕ} : v.installed t → v.prio t = v.demand t (v.held t)
  top {t : ℕ} : v.installed t → v.prio t = v.inst t ∨
    ∃ n ∈ v.held t, v.Raised n ∧ v.prio t = v.ceiling n
  chain {t m : ℕ} : m ∈ v.held t → v.Raised m → v.slot (v.ceiling m) = t ∧
    (v.saved m = v.inst t ∨ ∃ n ∈ v.held t, v.Raised n ∧ v.saved m = v.ceiling n)

/-- What a fitting release restores: the caller's own priority, or the ceiling of another mutex that
has raised it. -/
theorem Level.back (h : v.Level) (hs : Sound cfg v) {t m : ℕ} (hm : m ∈ v.held t)
    (met : v.saved m = v.demand t ((v.held t).erase m)) : v.saved m = v.inst t ∨
      ∃ n ∈ v.held t, n ≠ m ∧ v.Raised n ∧ v.saved m = v.ceiling n := by
  have ht := hs.held_installed hm
  by_cases raised : v.Raised m
  · rcases (h.chain hm raised).2 with hi | ⟨n,hn,hr,he⟩
    · exact Or.inl hi
    · refine Or.inr ⟨n,hn,?_,hr,he⟩
      rintro rfl
      exact absurd he raised.ne
  · -- a mutex that has not raised its holder leaves it where it is
    have same : v.saved m = v.prio t := by
      rw [h.prio ht,v.demand_erase t hm,← met,max_eq_right (not_lt.mp raised)]
    rcases h.top ht with hi | ⟨n,hn,hr,he⟩
    · exact Or.inl (same.trans hi)
    · refine Or.inr ⟨n,hn,?_,hr,same.trans he⟩
      rintro rfl
      exact raised hr

theorem Level.restorable (h : v.Level) (hs : Sound cfg v) {t m : ℕ} (hm : m ∈ v.held t)
    (met : Policy.fitting.release v t m) : v.Restorable t m := by
  rcases h.back hs hm met with hi | ⟨n,hn,hne,hr,he⟩
  · exact Or.inl hi
  · exact Or.inr ⟨n,hn,hne,lt_of_le_of_lt (Nat.zero_le _) hr,he,(h.chain hn hr).1⟩

theorem Level.untouched (h : v.Level) (hu : Untouched v w) : w.Level where
  prio {t} ht := by
    rw [hu.held]
    rcases hu.roster ht with ⟨hv,hp,hi⟩ | ⟨hp,hn⟩
    · rw [hp,h.prio hv]
      exact (demand_congr hi fun m hm => by simp only [ceiling,hu.mutex hm]).symm
    · rw [hn]
      exact hp
  top {t} ht := by
    rw [hu.held]
    rcases hu.roster ht with ⟨hv,hp,hi⟩ | ⟨hp,_⟩
    · rw [hp,hi]
      rcases h.top hv with h0 | ⟨n,hn,hr,he⟩
      · exact Or.inl h0
      · exact Or.inr ⟨n,hn,by simpa only [Raised,saved,ceiling,hu.mutex hn] using hr,
          by simpa only [ceiling,hu.mutex hn] using he⟩
    · exact Or.inl hp
  chain {t m} hm hr := by
    rw [hu.held] at hm ⊢
    simp only [Raised,saved,ceiling,hu.mutex hm] at hr ⊢
    obtain ⟨hl,hs⟩ := h.chain hm hr
    refine ⟨hu.slot hm (lt_of_le_of_lt (Nat.zero_le _) hr) hl,?_⟩
    rw [hu.inst (List.ne_nil_of_mem hm)]
    rcases hs with hs | ⟨n,hn,hr',he⟩
    · exact Or.inl hs
    · exact Or.inr ⟨n,hn,by simpa only [Raised,saved,ceiling,hu.mutex hn] using hr',
        by simpa only [ceiling,hu.mutex hn] using he⟩

theorem Level.acquired (h : v.Level) (hs : Sound cfg v) {t m : ℕ} (ha : Acquired v w t m) :
    w.Level := by
  have keeps : ∀ {u n}, n ∈ v.held u → (w.Raised n ↔ v.Raised n) := fun hn => by
    rw [Raised,Raised,ha.saved (ha.ne hn),ha.ceil]
  have mem : ∀ {u n}, n ∈ v.held u → n ∈ w.held u := fun hn => ha.mem.mpr (Or.inl hn)
  have new : w.Raised m ↔ v.prio t < v.ceiling m := by rw [Raised,ha.fresh,ha.ceil]
  have demand : ∀ u l, w.demand u l = v.demand u l := fun u l =>
    demand_congr (congrFun ha.insts u) fun n _ => ha.ceil n
  have top : ∀ {u}, v.installed u → v.prio u = w.inst u ∨
      ∃ n ∈ w.held u, w.Raised n ∧ v.prio u = w.ceiling n := fun hu => by
    rw [ha.insts]
    rcases h.top hu with hi | ⟨n,hn,hr,he⟩
    · exact Or.inl hi
    · exact Or.inr ⟨n,mem hn,(keeps hn).mpr hr,he.trans (ha.ceil n).symm⟩
  refine ⟨fun {u} hu => ?_,fun {u} hu => ?_,fun {u n} hn hr => ?_⟩
  · rw [ha.installed] at hu
    rw [ha.prio,ha.held,demand]
    by_cases e : u = t
    · subst e
      rw [Function.update_self,Function.update_self,h.prio hu]
      rfl
    · rw [Function.update_of_ne e,Function.update_of_ne e,h.prio hu]
  · rw [ha.installed] at hu
    rw [ha.prio]
    by_cases e : u = t
    · subst e
      rw [Function.update_self]
      rcases lt_or_ge (v.prio u) (v.ceiling m) with hlt | hge
      · rw [max_eq_left hlt.le]
        exact Or.inr ⟨m,ha.mem.mpr (Or.inr ⟨rfl,rfl⟩),new.mpr hlt,(ha.ceil m).symm⟩
      · rw [max_eq_right hge]
        exact top hu
    · rw [Function.update_of_ne e]
      exact top hu
  · rcases ha.mem.mp hn with hn' | ⟨rfl,rfl⟩
    · have hr' := (keeps hn').mp hr
      obtain ⟨hl,hc⟩ := h.chain hn' hr'
      have pos : 0 < v.ceiling n := lt_of_le_of_lt (Nat.zero_le _) hr'
      rw [ha.ceil,ha.saved (ha.ne hn'),ha.insts,ha.slot fun hc => ha.ne hn' (hs.ceil_inj pos hc)]
      refine ⟨hl,?_⟩
      rcases hc with hi | ⟨k,hk,hk',he⟩
      · exact Or.inl hi
      · exact Or.inr ⟨k,mem hk,(keeps hk).mpr hk',he.trans (ha.ceil k).symm⟩
    · rw [ha.ceil,ha.fresh]
      exact ⟨ha.own (new.mp hr),top ha.inst⟩

theorem Level.released (h : v.Level) (hs : Sound cfg v) {t m : ℕ}
    (hr : Released .fitting v w t m) : w.Level := by
  have met : v.saved m = v.demand t ((v.held t).erase m) := hr.met
  have raised : ∀ n, w.Raised n ↔ v.Raised n := fun n => by rw [Raised,Raised,hr.saved,hr.ceil]
  have demand : ∀ u l, w.demand u l = v.demand u l := fun u l =>
    demand_congr (congrFun hr.insts u) fun n _ => hr.ceil n
  refine ⟨fun {u} hu => ?_,fun {u} hu => ?_,fun {u k} hk hk' => ?_⟩
  · rw [hr.installed] at hu
    rw [hr.prio,hr.held,demand]
    by_cases e : u = t
    · subst e
      rw [Function.update_self,Function.update_self,met]
    · rw [Function.update_of_ne e,Function.update_of_ne e,h.prio hu]
  · rw [hr.installed] at hu
    rw [hr.prio,hr.insts]
    by_cases e : u = t
    · subst e
      rw [Function.update_self]
      rcases h.back hs hr.owns met with hi | ⟨n,hn,hne,hn',he⟩
      · exact Or.inl hi
      · exact Or.inr ⟨n,(hr.mem hs).mpr ⟨hn,hne⟩,(raised n).mpr hn',he.trans (hr.ceil n).symm⟩
    · rw [Function.update_of_ne e]
      rcases h.top hu with hi | ⟨n,hn,hn',he⟩
      · exact Or.inl hi
      · refine Or.inr ⟨n,(hr.mem hs).mpr ⟨hn,?_⟩,(raised n).mpr hn',he.trans (hr.ceil n).symm⟩
        rintro rfl
        exact e ((hs.held_owner hn).1.symm.trans (hs.held_owner hr.owns).1)
  · obtain ⟨hv,hne⟩ := (hr.mem hs).mp hk
    have hk'' := (raised k).mp hk'
    obtain ⟨hl,hc⟩ := h.chain hv hk''
    have pos : 0 < v.ceiling k := lt_of_le_of_lt (Nat.zero_le _) hk''
    rw [hr.ceil,hr.saved,hr.insts,hr.slot fun hc => hne (hs.ceil_inj pos hc)]
    refine ⟨hl,?_⟩
    rcases hc with hi | ⟨n,hn,hn',he⟩
    · exact Or.inl hi
    · refine Or.inr ⟨n,(hr.mem hs).mpr ⟨hn,?_⟩,(raised n).mpr hn',he.trans (hr.ceil n).symm⟩
      -- a mutex acquired above the released one would still need its ceiling
      rintro rfl
      obtain rfl : u = t := (hs.held_owner hn).1.symm.trans (hs.held_owner hr.owns).1
      have := v.ceiling_le_demand u (l := (v.held u).erase n)
        ((hs.nodup u).mem_erase_iff.mpr ⟨hne,hv⟩)
      unfold Raised at hk'' hn'
      omega

theorem Policy.fitting_safe : Policy.fitting.Safe cfg Level where
  keep hs h hm := by
    rcases hm.custody hs with hu | ⟨t,m,ha | hr⟩
    · exact h.untouched hu
    · exact h.acquired hs ha
    · exact h.released hs hr
  back hs h hm met := h.restorable hs hm met

/-! ### Last in, first out -/

def Policy.reverse : Policy where
  acquire _ _ _ := True
  release v t m := (v.held t).head? = some m

/-- Each mutex keeps the priority that the mutexes acquired before it call for. -/
def Nested (v : View) : Prop := ∀ t m rest, m :: rest <:+ v.held t → v.saved m = v.demand t rest

/-- Releases in the reverse order of the acquisitions fit. -/
theorem Nested.fits (h : v.Nested) {t m : ℕ} (met : Policy.reverse.release v t m) :
    v.saved m = v.demand t ((v.held t).erase m) := by
  obtain ⟨rest,hl⟩ := List.head?_eq_some_iff.mp met
  rw [hl,List.erase_cons_head]
  exact h t m rest (hl ▸ List.suffix_rfl)

theorem Nested.untouched (h : v.Nested) (hu : Untouched v w) : w.Nested := by
  intro t m rest hs
  rw [hu.held] at hs
  have hm : m ∈ v.held t := hs.subset (by simp)
  rw [saved,hu.mutex hm]
  refine (h t m rest hs).trans ?_
  exact (demand_congr (hu.inst (List.ne_nil_of_mem hm)) fun n hn => by
    rw [ceiling,hu.mutex (hs.subset (List.mem_cons_of_mem _ hn))]).symm

theorem Nested.acquired (h : v.Nested) (level : v.Level) {t m : ℕ} (ha : Acquired v w t m) :
    w.Nested := by
  have demand : ∀ u l, w.demand u l = v.demand u l := fun u l =>
    demand_congr (congrFun ha.insts u) fun n _ => ha.ceil n
  intro u k rest hs
  have old : k :: rest <:+ v.held u → w.saved k = w.demand u rest := fun hv => by
    rw [ha.saved (ha.ne (hv.subset (by simp))),demand]
    exact h u k rest hv
  rw [ha.held] at hs
  by_cases e : u = t
  · subst e
    rw [Function.update_self] at hs
    rcases List.suffix_cons_iff.mp hs with hk | hk
    · obtain ⟨rfl,rfl⟩ := List.cons.inj hk
      rw [ha.fresh,demand,level.prio ha.inst]
    · exact old hk
  · rw [Function.update_of_ne e] at hs
    exact old hs

theorem Nested.released (h : v.Nested) {t m : ℕ} (hr : Released .reverse v w t m) : w.Nested := by
  obtain ⟨rest,hl⟩ := List.head?_eq_some_iff.mp hr.met
  intro u k l hs
  rw [hr.held] at hs
  have hv : k :: l <:+ v.held u := by
    by_cases e : u = t
    · subst e
      rw [Function.update_self,hl,List.erase_cons_head] at hs
      rw [hl]
      exact hs.trans (List.suffix_cons _ _)
    · rwa [Function.update_of_ne e] at hs
  rw [hr.saved,h u k l hv]
  exact (demand_congr (congrFun hr.insts u) fun n _ => hr.ceil n).symm

theorem Policy.reverse_safe : Policy.reverse.Safe cfg fun v => v.Level ∧ v.Nested where
  keep hs h hm := by
    rcases hm.custody hs with hu | ⟨t,m,ha | hr⟩
    · exact ⟨h.1.untouched hu,h.2.untouched hu⟩
    · exact ⟨h.1.acquired hs ha,h.2.acquired h.1 ha⟩
    · exact ⟨h.1.released hs { hr with met := h.2.fits hr.met },h.2.released hr⟩
  back hs h hm met := h.1.restorable hs hm (h.2.fits met)

instance (v : View) (t m : ℕ) : Decidable (Policy.fitting.acquire v t m) := inferInstanceAs (Decidable True)
instance (v : View) (t m : ℕ) : Decidable (Policy.fitting.release v t m) :=
  inferInstanceAs (Decidable (_ = _))
instance (v : View) (p : ℕ) : Decidable (Policy.fitting.install v p) := inferInstanceAs (Decidable True)

/-- No condition on the mutex calls. -/
def Policy.any : Policy := ⟨fun _ _ _ => True,fun _ _ _ => True,fun _ _ => True⟩

instance (v : View) (t m : ℕ) : Decidable (Policy.any.acquire v t m) := inferInstanceAs (Decidable True)
instance (v : View) (t m : ℕ) : Decidable (Policy.any.release v t m) := inferInstanceAs (Decidable True)
instance (v : View) (p : ℕ) : Decidable (Policy.any.install v p) := inferInstanceAs (Decidable True)

end View

namespace System
variable {cfg : Config} {s : System cfg}

/-- A task is never below the ceiling of a mutex it holds, and without mutexes it is back at its own
priority. -/
structure Levelled (s : System cfg) : Prop where
  inst_le {t : ℕ} : s.Installed t → s.inst t ≤ (s.contextTask t).priority
  ceiling_le {t m : ℕ} : s.Installed t → m ∈ s.held t →
    (s.brtosMutexTable m).osMaxPriority ≤ (s.contextTask t).priority
  back {t : ℕ} : s.Installed t → s.held t = [] → (s.contextTask t).priority = s.inst t

theorem levelled_of_level (h : s.view.Level) : s.Levelled where
  inst_le ht := (s.view.inst_le_demand _ _).trans_eq (h.prio ht).symm
  ceiling_le ht hm := (s.view.ceiling_le_demand _ hm).trans_eq (h.prio ht).symm
  back {t} ht h0 := by
    have hp := h.prio ht
    rw [show s.view.held t = [] from h0] at hp
    exact hp

theorem init_level : (init cfg).view.Level where
  prio h := absurd h (init_installed _)
  top h := absurd h (init_installed _)
  chain h := by simp [view,Core.view,init] at h

/-- While each release goes back to the priority that the remaining mutexes call for, priorities
follow the ceilings, and the scheduler finds a task for the highest eligible priority. -/
theorem levelled_of_reaches (run : Reaches .fitting (init cfg) s) : s.Levelled ∧
    ((bits s.osReadyList ∩ bits s.osBlockedList).Nonempty → s.Installed s.osSchedule) := by
  obtain ⟨_,inv,level⟩ := run.inv View.Policy.fitting_safe init_level init_inv
  exact ⟨levelled_of_level level,fun h => (osSchedule_highest inv.sound h).1⟩

/-- Two mutexes, given back in the reverse order and one of them is still held. -/
theorem levelled_run : ∃ s : System .port, s.held 1 = [0] ∧ s.Levelled := by
  obtain ⟨s,run,held⟩ := Run.exists_reach_of_exec step (fun s a => s.Allowed .fitting a)
    (init .port) [.main (.install (.user 1) 16 3),.main (.mutexCreate 5),.main (.mutexCreate 7),
      .start,.call (.mutexAcquire 0 0),.call (.mutexAcquire 1 0),.call (.mutexRelease 1)]
    (fun s => s.held 1 = [0]) (by decide +kernel)
  exact ⟨s,held,(levelled_of_reaches run).1⟩

theorem init_nested : (init cfg).view.Nested := by
  intro t m rest h
  have := h.subset (List.mem_cons_self (a := m))
  simp [view,Core.view,init] at this

/-- Runs in which every task gives its mutexes back in the reverse order. -/
theorem levelled_of_reverse (run : Reaches .reverse (init cfg) s) : s.Levelled :=
  levelled_of_level (run.inv View.Policy.reverse_safe ⟨init_level,init_nested⟩ init_inv).2.2.1

/-- The first mutex is given back first: its holder falls below the ceiling of the second one, and
then it goes back to the ceiling of the first, which is reserved again. -/
theorem levelled_fails :
    (∃ s : System .port, Reaches .any (init .port) s ∧ s.Installed 1 ∧ 1 ∈ s.held 1 ∧
      (s.contextTask 1).priority < (s.brtosMutexTable 1).osMaxPriority) ∧
    ∃ s : System .port, Reaches .any (init .port) s ∧ s.held 1 = [] ∧
      (s.contextTask 1).priority ≠ s.inst 1 ∧ s.osSchedule = mutexPrio :=
  ⟨Run.exists_reach_of_exec _ _ _
    [.main (.install (.user 1) 16 3),.main (.mutexCreate 5),.main (.mutexCreate 7),.start,
      .call (.mutexAcquire 0 0),.call (.mutexAcquire 1 0),.call (.mutexRelease 0)] _
    (by decide +kernel),
  Run.exists_reach_of_exec _ _ _
    [.main (.install (.user 1) 16 3),.main (.mutexCreate 5),.main (.mutexCreate 7),.start,
      .call (.mutexAcquire 0 0),.call (.mutexAcquire 1 0),.call (.mutexRelease 0),
      .call (.mutexRelease 1)] _ (by decide +kernel)⟩

end System
end Brtos
