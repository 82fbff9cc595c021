import Brtos.Reachable

/-! What the moves do to the mutexes that tasks hold: nothing, one acquisition or one release. -/
namespace Brtos.View
variable {cfg : Config} {P : Policy} {v w : View}

/-- Holders, their priorities and the mutexes they hold stay as they are. -/
structure Untouched (v w : View) : Prop where
  roster {t : ℕ} : w.installed t → v.installed t ∧ w.prio t = v.prio t ∧ w.inst t = v.inst t ∨
    w.prio t = w.inst t ∧ v.held t = []
  held : w.held = v.held
  inst {t : ℕ} : v.held t ≠ [] → w.inst t = v.inst t
  mutex {t m : ℕ} : m ∈ v.held t → w.mutex m = v.mutex m
  slot {t m : ℕ} : m ∈ v.held t → 0 < v.ceiling m → v.slot (v.ceiling m) = t →
    w.slot (v.ceiling m) = t

/-- Task `t` comes to hold the mutex, which keeps its priority and moves it up to the ceiling. -/
structure Acquired (v w : View) (t m : ℕ) : Prop where
  inst : v.installed t
  unheld (u : ℕ) : m ∉ v.held u
  installed : w.installed = v.installed
  held : w.held = Function.update v.held t (m :: v.held t)
  insts : w.inst = v.inst
  saved {n : ℕ} : n ≠ m → w.saved n = v.saved n
  fresh : w.saved m = v.prio t
  ceil (n : ℕ) : w.ceiling n = v.ceiling n
  prio : w.prio = Function.update v.prio t (max (v.ceiling m) (v.prio t))
  slot {p : ℕ} : p ≠ v.ceiling m → w.slot p = v.slot p
  own : v.prio t < v.ceiling m → w.slot (v.ceiling m) = t

/-- Task `t` no longer holds the mutex and goes back to the priority that the mutex has kept. -/
structure Released (P : Policy) (v w : View) (t m : ℕ) : Prop where
  owns : m ∈ v.held t
  met : P.release v t m
  installed : w.installed = v.installed
  held : w.held = Function.update v.held t ((v.held t).erase m)
  insts : w.inst = v.inst
  saved (n : ℕ) : w.saved n = v.saved n
  ceil (n : ℕ) : w.ceiling n = v.ceiling n
  prio : w.prio = Function.update v.prio t (v.saved m)
  slot {p : ℕ} : p ≠ v.ceiling m → w.slot p = v.slot p

theorem Untouched.of_mutex (hs : Sound cfg v) {m : ℕ} (owner : v.owner m = 0)
    (held : w.held = v.held) (roster : w.installed = v.installed ∧ w.prio = v.prio ∧ w.inst = v.inst)
    (mutex : ∀ n, n ≠ m → w.mutex n = v.mutex n) (slot : w.slot = v.slot) : Untouched v w where
  roster ht := Or.inl ⟨roster.1 ▸ ht,by rw [roster.2.1],by rw [roster.2.2]⟩
  held := held
  inst _ := by rw [roster.2.2]
  mutex {t n} hn := mutex n fun e => by
    have pos := (hs.handle (hs.held_installed hn)).1
    have := (hs.held_owner (e ▸ hn)).1.symm.trans owner
    omega
  slot _ _ hl := by rw [slot,hl]

theorem take_acquired {t m : ℕ} (inst : v.installed t) (unheld : ∀ u, m ∉ v.held u) :
    Acquired v (v.take t m) t m where
  inst := inst
  unheld := unheld
  installed := lift_installed _ t m
  held := v.take_held t m
  insts := v.take_inst t m
  saved hn := by rw [take_saved,Function.update_of_ne hn]
  fresh := by rw [take_saved,Function.update_self]
  ceil n := by rw [take_ceiling]
  prio := v.take_prio t m
  slot hp := v.take_slot t m hp
  own h := v.take_slot_self t m h

/-- Every move leaves the mutexes alone, or it is an acquisition or a release. -/
theorem Move.custody (h : Move cfg P v w) (hs : Sound cfg v) :
    Untouched v w ∨ ∃ t m, Acquired v w t m ∨ Released P v w t m := by
  cases h with
  | @enroll t p fresh range lt free idle met =>
    have apart : ∀ u, v.held u ≠ [] → u ≠ t := by
      rintro u hu rfl
      exact hu (hs.fresh fresh).2
    refine Or.inl ⟨fun {u} hu => ?_,rfl,fun hu => Function.update_of_ne (apart _ hu) _ _,
      fun _ => rfl,fun hn hc hl => (Function.update_of_ne ?_ _ _).trans hl⟩
    · by_cases e : u = t
      · subst e
        exact Or.inr ⟨by simp [View.enroll],(hs.fresh fresh).2⟩
      · exact Or.inl ⟨hu.resolve_right e,Function.update_of_ne e _ _,Function.update_of_ne e _ _⟩
    · intro e
      exact hs.reserved hc (e ▸ free (by omega))
  | @reserve p free =>
    refine Or.inl ⟨fun hu => Or.inl ⟨hu,rfl,rfl⟩,rfl,fun _ => rfl,fun _ => rfl,fun hn hc hl =>
      (Function.update_of_ne ?_ _ _).trans hl⟩
    rintro rfl
    exact hs.reserved hc free
  | @establishMutex m c unused =>
    exact Or.inl (.of_mutex hs (hs.unused unused).1 rfl ⟨rfl,rfl,rfl⟩
      (fun n hn => Function.update_of_ne hn _ _) rfl)
  | @abolishMutex m unused free =>
    exact Or.inl (.of_mutex hs free rfl ⟨rfl,rfl,rfl⟩ (fun n hn => Function.update_of_ne hn _ _) rfl)
  | @take t m inst idle run created free met =>
    exact Or.inr ⟨t,m,Or.inl (take_acquired inst (hs.unheld_of_free created free))⟩
  | @obtain t m p w d point selected late =>
    have acquired := (v.goOn t d).take_acquired (t := t) (hs.pending point).1
      (hs.unheld_of_assigned point selected)
    exact Or.inr ⟨t,m,Or.inl { acquired with }⟩
  | @release t m run owns met alone =>
    exact Or.inr ⟨t,m,Or.inr {
      owns := owns, met := met, installed := v.restore_installed t m, held := v.release_held t m
      insts := v.release_inst t m, saved := fun n => congrFun (v.release_saved t m) n
      ceil := fun n => congrFun (v.release_ceiling t m) n, prio := v.restore_prio t m
      slot := fun hp => v.release_slot t m hp }⟩
  | @handOver t m p run owns met top =>
    exact Or.inr ⟨t,m,Or.inr {
      owns := owns, met := met, installed := v.restore_installed t m, held := v.handOver_held t m p
      insts := v.handOver_inst t m p, saved := fun n => congrFun (v.handOver_saved t m p) n
      ceil := fun n => congrFun (v.handOver_ceiling t m p) n, prio := v.restore_prio t m
      slot := fun _ => congrFun (v.handOver_slot t m p) _ }⟩
  | _ => exact Or.inl ⟨fun hu => Or.inl ⟨hu,rfl,rfl⟩,rfl,fun _ => rfl,fun _ => rfl,fun _ _ hl => hl⟩

/-- Who holds what after a release. -/
theorem Released.mem {t m : ℕ} (h : Released P v w t m) (hs : Sound cfg v) {u n : ℕ} :
    n ∈ w.held u ↔ n ∈ v.held u ∧ n ≠ m := by
  rw [h.held]
  by_cases e : u = t
  · subst e
    rw [Function.update_self,(hs.nodup u).mem_erase_iff,and_comm]
  · rw [Function.update_of_ne e]
    refine ⟨fun hn => ⟨hn,?_⟩,And.left⟩
    rintro rfl
    exact e ((hs.held_owner hn).1.symm.trans (hs.held_owner h.owns).1)

/-- Who holds what after an acquisition. -/
theorem Acquired.mem {t m : ℕ} (h : Acquired v w t m) {u n : ℕ} :
    n ∈ w.held u ↔ n ∈ v.held u ∨ u = t ∧ n = m := by
  rw [h.held]
  by_cases e : u = t
  · subst e
    rw [Function.update_self,List.mem_cons]
    tauto
  · rw [Function.update_of_ne e]
    tauto

theorem Acquired.ne {t m : ℕ} (h : Acquired v w t m) {u n : ℕ} (hn : n ∈ v.held u) : n ≠ m := by
  rintro rfl
  exact h.unheld u hn

end Brtos.View
