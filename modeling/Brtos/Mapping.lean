import Brtos.Custody

/-! The priority vector maps the priorities in use to the installed tasks, so that the scheduler
always finds a task. -/
namespace Brtos
open Bitmap

namespace View
variable {cfg : Config} {v w : View}

/-- Each release goes back to a priority that is still the caller's. -/
def Policy.restoring : Policy where
  acquire _ _ _ := True
  release v t m := v.Restorable t m

instance (v : View) (t m : ℕ) : Decidable (Policy.restoring.acquire v t m) :=
  inferInstanceAs (Decidable True)
instance (v : View) (t m : ℕ) : Decidable (Policy.restoring.release v t m) := by
  change Decidable (v.Restorable t m)
  unfold Restorable
  infer_instance
instance (v : View) (p : ℕ) : Decidable (Policy.restoring.install v p) :=
  inferInstanceAs (Decidable True)

theorem Policy.restoring_safe {cfg : Config} : Policy.restoring.Safe cfg fun _ => True :=
  ⟨fun _ _ _ => trivial,fun _ _ _ h => h⟩

/-! ### Last in, first out -/

/-- A mutex with a ceiling is released only while it is the last one its holder has acquired. -/
def Policy.lastIn : Policy where
  acquire _ _ _ := True
  release v t m := 0 < v.ceiling m → (v.held t).head? = some m

/-- Task `t` acquired `n` before `m` and holds both; the list of what it holds starts with the last
one. -/
def Before (v : View) (t n m : ℕ) : Prop := List.Sublist [m,n] (v.held t)

/-- What a mutex keeps for its release is the priority its holder was installed with, or the ceiling
of a mutex acquired before it. -/
def Ordered (v : View) : Prop := ∀ t, ∀ m ∈ v.held t, v.saved m = v.inst t ∨
  ∃ n, v.Before t n m ∧ 0 < v.ceiling n ∧ v.saved m = v.ceiling n ∧ v.slot (v.ceiling n) = t

theorem Ordered.restorable (h : v.Ordered) (hs : Sound cfg v) {t m : ℕ} (hm : m ∈ v.held t) :
    v.Restorable t m := by
  rcases h t m hm with hi | ⟨n,hb,hn⟩
  · exact Or.inl hi
  · refine Or.inr ⟨n,hb.subset (by simp),?_,hn⟩
    rintro rfl
    exact absurd (hb.nodup (hs.nodup t)) (by simp)

theorem Ordered.untouched (h : v.Ordered) (hu : Untouched v w) : w.Ordered := by
  intro t m hm
  rw [hu.held] at hm
  simp only [saved,ceiling,hu.mutex hm,hu.inst (List.ne_nil_of_mem hm)]
  rcases h t m hm with hs | ⟨n,hb,hc,hs,hl⟩
  · exact Or.inl hs
  · have hn : n ∈ v.held t := hb.subset (by simp)
    refine Or.inr ⟨n,by simpa only [Before,hu.held] using hb,?_⟩
    rw [hu.mutex hn]
    exact ⟨hc,hs,hu.slot hn hc hl⟩

/-- Nothing was acquired before the first of a list, the mutex acquired last. -/
theorem Before.ne_head {t n m : ℕ} (h : v.Before t n m) (hd : (v.held t).Nodup) :
    (v.held t).head? ≠ some n := by
  intro hh
  obtain ⟨rest,hl⟩ := List.head?_eq_some_iff.mp hh
  unfold Before at h
  rw [hl] at h hd
  have hn : n ∉ rest := (List.nodup_cons.mp hd).1
  cases h with
  | cons _ hs => exact hn (hs.subset (by simp))
  | cons_cons _ hs => exact hn (hs.subset (by simp))

theorem Before.erase {t n m k : ℕ} (h : v.Before t n m) (hn : n ≠ k) (hm : m ≠ k) :
    List.Sublist [m,n] ((v.held t).erase k) := by
  have := List.Sublist.erase k h
  rwa [List.erase_cons_tail (by simpa using hm),List.erase_cons_tail (by simpa using hn),
    List.erase_nil] at this

theorem Ordered.released (h : v.Ordered) (hs : Sound cfg v) {t m : ℕ}
    (hr : Released .lastIn v w t m) : w.Ordered := by
  intro u k hk
  obtain ⟨hk',hne⟩ := (hr.mem hs).mp hk
  rw [hr.saved,hr.insts]
  rcases h u k hk' with hi | ⟨n,hb,hc,hv,hl⟩
  · exact Or.inl hi
  have hn : n ∈ v.held u := hb.subset (by simp)
  have apart : n ≠ m := by
    rintro rfl
    obtain rfl : u = t := (hs.held_owner hn).1.symm.trans (hs.held_owner hr.owns).1
    exact hb.ne_head (hs.nodup u) (hr.met hc)
  refine Or.inr ⟨n,?_,by rwa [hr.ceil],by rwa [hr.ceil],?_⟩
  · unfold Before
    rw [hr.held]
    by_cases e : u = t
    · subst e
      rw [Function.update_self]
      exact hb.erase apart hne
    · rwa [Function.update_of_ne e]
  · rw [hr.ceil,hr.slot fun e => apart (hs.ceil_inj hc e)]
    exact hl

theorem Ordered.acquired (h : v.Ordered) (hs : Sound cfg v) {t m : ℕ} (ha : Acquired v w t m) :
    w.Ordered := by
  intro u k hk
  rcases ha.mem.mp hk with hk' | ⟨rfl,rfl⟩
  · rw [ha.saved (ha.ne hk'),ha.insts]
    rcases h u k hk' with hi | ⟨n,hb,hc,hv,hl⟩
    · exact Or.inl hi
    · have apart := ha.ne (hb.subset (by simp : n ∈ [k,n]))
      refine Or.inr ⟨n,hb.trans ?_,by rwa [ha.ceil],by rwa [ha.ceil],?_⟩
      · rw [ha.held]
        by_cases e : u = t
        · subst e
          rw [Function.update_self]
          exact List.sublist_cons_self _ _
        · rw [Function.update_of_ne e]
      · rw [ha.ceil,ha.slot fun e => apart (hs.ceil_inj hc e)]
        exact hl
  · -- the new holder's priority is its own or the ceiling of a mutex acquired before
    rw [ha.fresh,ha.insts]
    rcases hs.level ha.inst with hi | ⟨n,hn,hc,hp⟩
    · exact Or.inl hi
    · refine Or.inr ⟨n,?_,by rwa [ha.ceil],by rwa [ha.ceil],?_⟩
      · unfold Before
        rw [ha.held,Function.update_self]
        exact (List.singleton_sublist.mpr hn).cons_cons _
      · rw [ha.ceil,ha.slot fun e => ha.ne hn (hs.ceil_inj hc e),← hp]
        exact hs.slot ha.inst

theorem Ordered.keep (hs : Sound cfg v) (h : v.Ordered) (hm : Move cfg Policy.lastIn v w) :
    w.Ordered := by
  rcases hm.custody hs with hu | ⟨t,m,ha | hr⟩
  · exact h.untouched hu
  · exact h.acquired hs ha
  · exact h.released hs hr

theorem Policy.lastIn_safe : Policy.lastIn.Safe cfg Ordered :=
  ⟨fun hs h hm => h.keep hs hm,fun hs h hm _ => h.restorable hs hm⟩

/-- No task comes to hold two mutexes with a ceiling. -/
def Policy.oneCeiling : Policy where
  acquire v t m := 0 < v.ceiling m → ∀ n ∈ v.held t, v.ceiling n = 0
  release _ _ _ := True

instance (v : View) (t m : ℕ) : Decidable (Policy.oneCeiling.acquire v t m) :=
  inferInstanceAs (Decidable (_ → _))
instance (v : View) (t m : ℕ) : Decidable (Policy.oneCeiling.release v t m) :=
  inferInstanceAs (Decidable True)
instance (v : View) (p : ℕ) : Decidable (Policy.oneCeiling.install v p) :=
  inferInstanceAs (Decidable True)

end View

namespace System
variable {cfg : Config} {s t : System cfg}

/-- The priority vector maps the priorities in use to their tasks. -/
structure Mapped (s : System cfg) : Prop where
  vector {t : ℕ} : s.Installed t → s.priorityVector (s.contextTask t).priority = t
  distinct {t u : ℕ} : s.Installed t → s.Installed u →
    (s.contextTask t).priority = (s.contextTask u).priority → t = u
  ready {p : ℕ} : s.osReadyList.getLsbD p = true → ∃ t, s.Installed t ∧ (s.contextTask t).priority = p

theorem Inv.mapped (h : s.Inv) : s.Mapped where
  vector ht := h.sound.slot ht
  distinct ht hu e := h.sound.prio_inj ht hu e
  ready hp := h.sound.ready (mem_bits.mpr hp)

/-! ### Policies under which releases restore -/

/-- Along the runs of a safe policy each release goes back to a priority of its caller. -/
theorem Reaches.restoring {P : View.Policy} {Q : View → Prop} (safe : P.Safe cfg Q) (q : Q s.view)
    (h : s.Inv) (run : Reaches P s t) : Reaches .restoring s t := by
  induction run with
  | refl => exact .refl
  | tail run met next ih =>
    obtain ⟨_,inv,held⟩ := Reaches.inv safe q h run
    exact .tail ih (met.mono (fun _ _ => trivial) (fun _ own back => safe.back inv.sound held own back)
      fun _ _ => trivial) next

theorem init_ordered : (init cfg).view.Ordered := by
  intro t m hm
  simp [view,Core.view,init] at hm

/-- It is enough that mutexes with a ceiling are given back last in, first out. -/
theorem restoring_of_lastIn (run : Reaches .lastIn (init cfg) s) : Reaches .restoring (init cfg) s :=
  run.restoring View.Policy.lastIn_safe init_ordered init_inv

/-! ### The scheduler's choice -/

/-- The scheduler chooses a task, never one of the marks of PriorityVector. -/
theorem Selected.handle {t : ℕ} (h : s.Selected t) : t ≠ emptyPrio ∧ t ≠ mutexPrio := by
  have := h.1.2.1
  simp only [emptyPrio,mutexPrio]
  omega

/-- In every run whose releases go back to a priority of their caller, the priority vector maps the
priorities in use to their tasks, and OSSchedule finds the highest eligible task. -/
theorem mapped_of_reaches (run : Reaches .restoring (init cfg) s) : s.Mapped ∧
    (s.started = true → s.Selected s.osSchedule ∧ s.osSchedule ≠ emptyPrio ∧
      s.osSchedule ≠ mutexPrio) := by
  obtain ⟨_,inv,_⟩ := run.inv View.Policy.restoring_safe trivial init_inv
  refine ⟨inv.mapped,fun started => ?_⟩
  have chosen := osSchedule_selected inv.sound (inv.idle started)
  exact ⟨chosen,chosen.handle⟩

/-- A task acquires two mutexes, gives them back in the other order and delays. -/
def nestedRun : List Action :=
  [.main (.install (.user 1) 16 3),.main (.install (.user 2) 16 2),.main (.mutexCreate 5),
    .main (.mutexCreate 0),.start,.call (.mutexAcquire 0 0),.call (.mutexAcquire 1 0),
    .call (.mutexRelease 1),.call (.mutexRelease 0),.call (.delayTask 10),.switch]

theorem mapped_nestedRun : ∃ s : System .port, s.currentTask = 2 ∧ s.Mapped ∧
    s.Selected s.osSchedule := by
  obtain ⟨s,run,started,current⟩ := Run.exists_reach_of_exec step
    (fun s a => s.Allowed .restoring a) (init .port) nestedRun
    (fun s => s.started = true ∧ s.currentTask = 2) (by decide +kernel)
  have mapped := mapped_of_reaches run
  exact ⟨s,current,mapped.1,(mapped.2 started).1⟩

/-- Before BRTOSStart there is no task to find; main can install Idle a second time; and a mutex
without a ceiling that outlives one with a ceiling takes its holder back to a reserved priority. -/
theorem mapped_fails :
    (∃ s : System .port, Run.Reach step (fun s a => s.Lawful .oneCeiling a) (init .port) s ∧
      s.osSchedule = emptyPrio) ∧
    (∃ s : System .port, Run.Reach step (fun s a => s.Lawful .oneCeiling a) (init .port) s ∧
      s.Installed 1 ∧ s.Installed 2 ∧ (s.contextTask 1).priority = (s.contextTask 2).priority) ∧
    ∃ s : System .port, Run.Reach step (fun s a => s.Lawful .oneCeiling a) (init .port) s ∧
      s.started = true ∧ s.osSchedule = mutexPrio :=
  ⟨⟨init .port,.refl,by decide +kernel⟩,
    Run.exists_reach_of_exec _ _ _ [.main (.install .idle 16 0),.main (.install .idle 16 0)] _
      (by decide +kernel),
    Run.exists_reach_of_exec _ _ _
      [.main (.install (.user 1) 16 3),.main (.mutexCreate 5),.main (.mutexCreate 0),.start,
        .call (.mutexAcquire 0 0),.call (.mutexAcquire 1 0),.call (.mutexRelease 0),
        .call (.mutexRelease 1)] _ (by decide +kernel)⟩

end System
end Brtos
