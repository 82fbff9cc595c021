import Brtos.DynamicTasks

/-! What OSUninstallTask leaves behind, and what it does with a handle that belongs to no task. -/
namespace Brtos
open Bitmap Chain

namespace Kernel
variable {cfg : Config} (k : Kernel cfg)

/-- The handle that OSUninstallTask works on. -/
def named (taskHandle : ℕ) : ℕ := if taskHandle = 0 then k.currentTask else taskHandle

variable {k} {k' : Kernel cfg} {fuel h off t : ℕ} {l : List ℕ}

/-! ### The search -/

/-- The search along the list finds its members. -/
theorem searchDelayList_eq (spells : k.links.Spells l) {linked : Bool}
    (found : k.searchDelayList t fuel k.head = some linked) : linked = true ↔ t ∈ l := by
  have along : ∀ (b a : List ℕ) (n : ℕ), l = a ++ b → k.searchDelayList t n b.head? = some linked →
      (linked = true ↔ t ∈ b) := by
    intro b
    induction b with
    | nil =>
      intro a n _ found
      cases n <;> simp_all [searchDelayList]
    | cons u b ih =>
      intro a n split found
      cases n with
      | zero => simp [searchDelayList] at found
      | succ n =>
        have next : (k.contextTask u).next = b.head? := (spells.cell split).1
        simp only [List.head?_cons,searchDelayList,next] at found
        split_ifs at found with same
        · simp_all
        · rw [ih (a++[u]) n (by simp [split]) found]
          simp [Ne.symm same]
  have first : k.head = l.head? := spells.first
  rw [first] at found
  exact along l [] fuel rfl found

theorem enterTask_links : k.enterTask.links = k.links := links_of_clock k.enterTask_clock

/-! ### The ways of a call -/

theorem and_mask_ne_iff (r : PriorityType cfg) {p : ℕ} (hp : p < cfg.width) :
    r &&& priorityMask cfg p ≠ priorityMask cfg p ↔ p ∉ bits r := by
  rw [priorityMask_of_lt hp,BitVec.and_twoPow,mem_bits]
  by_cases h : r.getLsbD p = true
  · simp [h]
  · have some_ : BitVec.twoPow cfg.width p ≠ 0#_ := fun e => by
      have bit := congrArg (fun x => x.getLsbD p) e
      simp [hp] at bit
    simp [h,some_.symm]

@[simp] theorem enterTask_currentTask : k.enterTask.currentTask = k.currentTask := by
  unfold enterTask
  split_ifs <;> rfl

/-- How OSUninstallTask can succeed: a ready task leaves the ready list only, another one the delay
list. -/
inductive Uninstalls (k : Kernel cfg) (off t : ℕ) : Kernel cfg → Prop
  | ready (isReady : (k.contextTask t).priority ∈ bits k.osReadyList) : Uninstalls k off t
      ((k.enterTask.clearReady (k.contextTask t).priority).proceedUninstall t).1
  | waiting (isNot : (k.contextTask t).priority ∉ bits k.osReadyList) (unsafe_ : off = 1) {fuel : ℕ}
      {linked : Bool} (found : k.enterTask.searchDelayList t fuel k.enterTask.head = some linked) :
      Uninstalls k off t
        ((if linked then k.enterTask.removeFromDelayList t else k.enterTask).proceedUninstall t).1

/-- What OSUninstallTask can come to. -/
inductive Outcome (k : Kernel cfg) (h off t : ℕ) : Option (Kernel cfg × ℕ) → Prop
  | nobody (none_ : h = 0 ∧ k.currentTask = 0) : Outcome k h off t (some (k.osExitCritical,notValidTask))
  | outside (named : t ≠ 0) (far : cfg.numberOfTasks < t ∨
      (k.contextTask t).priority ≠ 0 ∧ cfg.width ≤ (k.contextTask t).priority) : Outcome k h off t none
  | idle (named : t ≠ 0) (zero : (k.contextTask t).priority = 0) :
      Outcome k h off t (some (k.enterTask.exitTask,cannotUninstallIdleTask))
  | waits (named : t ≠ 0) (isNot : (k.contextTask t).priority ∉ bits k.osReadyList) (safe : off ≠ 1) :
      Outcome k h off t (some (k.enterTask.exitTask,taskWaitingEvent))
  | endless (named : t ≠ 0) : Outcome k h off t none
  | done (named : t ≠ 0) (inside : t ≤ cfg.numberOfTasks) (user : (k.contextTask t).priority ≠ 0)
      (fits : (k.contextTask t).priority < cfg.width) {l : Kernel cfg} (way : Uninstalls k off t l) :
      Outcome k h off t (some (l,ok))

/-- Each call comes to one of these. -/
theorem osUninstallTask_outcome (k : Kernel cfg) (fuel h off : ℕ) :
    Outcome k h off (k.named h) (k.osUninstallTask fuel h off) := by
  simp only [osUninstallTask,enterTask_currentTask,enterTask_toCore]
  by_cases none_ : h = 0 ∧ k.currentTask = 0
  · have same : k.enterTask = k := if_neg (by simp [none_.2])
    rw [if_pos none_,same]
    exact .nobody none_
  rw [if_neg none_,← named]
  have some_ : k.named h ≠ 0 := by
    unfold named
    split_ifs with zero
    · exact fun e => none_ ⟨zero,e⟩
    · exact zero
  by_cases far : cfg.numberOfTasks < k.named h
  · rw [if_pos far]
    exact .outside some_ (Or.inl far)
  rw [if_neg far]
  by_cases zero : (k.contextTask (k.named h)).priority = 0
  · rw [if_pos zero]
    exact .idle some_ zero
  rw [if_neg zero]
  by_cases wide : cfg.width ≤ (k.contextTask (k.named h)).priority
  · rw [if_pos wide]
    exact .outside some_ (Or.inr ⟨zero,wide⟩)
  have fits := Nat.lt_of_not_le wide
  simp only [wide,if_false,and_mask_ne_iff _ fits]
  by_cases isReady : (k.contextTask (k.named h)).priority ∈ bits k.osReadyList
  · rw [if_neg (not_not.mpr isReady)]
    exact .done some_ (Nat.le_of_not_lt far) zero fits (.ready isReady)
  rw [if_pos isReady]
  by_cases unsafe_ : off = 1
  · rw [if_pos unsafe_]
    cases found : k.enterTask.searchDelayList (k.named h) fuel k.head with
    | none => exact .endless some_
    | some linked =>
      exact .done some_ (Nat.le_of_not_lt far) zero fits
        (.waiting isReady unsafe_ (by rwa [enterTask_toCore]))
  · rw [if_neg unsafe_]
    exact .waits some_ isReady unsafe_

/-! ### Handles of no task -/

/-- The answer that the claimed contract asks for. -/
def Rejects (k : Kernel cfg) (fuel h off : ℕ) : Prop :=
  ∃ l, k.osUninstallTask fuel h off = some (l,notValidTask) ∧ l.toCore = k.toCore ∧
    l.numberOfInstalledTasks = k.numberOfInstalledTasks

/-- Whatever has been installed and taken out before, a handle is rejected exactly where it is zero and
no task runs yet. -/
theorem rejects_iff (k : Kernel cfg) (fuel h off : ℕ) :
    (¬ k.Installed h → k.Rejects fuel h off) ↔ k.Installed h ∨ h = 0 ∧ k.currentTask = 0 := by
  have only : k.Rejects fuel h off ↔ h = 0 ∧ k.currentTask = 0 := by
    have outcome := osUninstallTask_outcome k fuel h off
    constructor
    · rintro ⟨l,answer,_⟩
      rw [answer] at outcome
      generalize answer_ : some (l,notValidTask) = r at outcome
      cases outcome with
      | nobody none_ => exact none_
      | _ => simp [notValidTask,cannotUninstallIdleTask,taskWaitingEvent,ok] at answer_
    · intro none_
      have same : k.enterTask = k := if_neg (by simp [none_.2])
      exact ⟨k.osExitCritical,by simp [osUninstallTask,same,none_],rfl,rfl⟩
  rw [only]
  exact or_iff_not_imp_left.symm

/-- What it does instead with a handle above NUMBER_OF_TASKS or that of a free control block: it reads
behind the end of ContextTask, or PriorityMask at EMPTY_PRIO. -/
theorem osUninstallTask_outside (named : h ≠ 0)
    (far : cfg.numberOfTasks < h ∨ (k.contextTask h).priority = emptyPrio) :
    k.osUninstallTask fuel h off = none := by
  by_cases high : cfg.numberOfTasks < h
  · simp only [osUninstallTask,named,false_and,if_false,high,if_true]
  · have free := far.resolve_left high
    have past : cfg.width ≤ emptyPrio := cfg.width_le.trans (by decide)
    simp only [osUninstallTask,named,false_and,if_false,high,enterTask_toCore,free,past,if_true]
    rfl

end Kernel

/-- A task is taken out, and then once more. -/
theorem rejects_fails : ∃ s : System .simulator,
    Run.Reach System.stepDynamic (fun _ _ => True) (System.init .simulator) s ∧ ¬ s.Installed 1 ∧
      ∀ fuel off, s.osUninstallTask fuel 1 off = none ∧ ¬ s.Rejects fuel 1 off := by
  obtain ⟨s,run,free,prio⟩ := Run.exists_reach_of_exec System.stepDynamic (fun _ _ => True)
    (System.init .simulator)
    [.install ⟨some 0,8⟩ (.user 1) 16 3,.install ⟨some 16,24⟩ (.user 2) 16 4,.start ⟨some 32,40⟩,
      .uninstall 10 1 1]
    (fun s => ¬ s.Installed 1 ∧ (s.contextTask 1).priority = emptyPrio) (by decide +kernel)
  refine ⟨s,run,free,fun fuel off => ?_⟩
  have outside : s.osUninstallTask fuel 1 off = none :=
    Kernel.osUninstallTask_outside Nat.one_ne_zero (Or.inr prio)
  refine ⟨outside,?_⟩
  rintro ⟨l,answer,_⟩
  simp [outside] at answer

end Brtos
