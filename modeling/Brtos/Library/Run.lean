import Mathlib.Tactic

/-! Runs of a deterministic machine whose environment chooses the actions. A condition on the
state and the action about to be taken restricts which runs are considered. -/
namespace Run

variable {σ α : Type*} {step : σ → α → Option σ} {ok ok' : σ → α → Prop}

/-- The states reached from `s` by actions that all meet `ok`. -/
inductive Reach (step : σ → α → Option σ) (ok : σ → α → Prop) (s : σ) : σ → Prop
  | refl : Reach step ok s s
  | tail {t u : σ} {a : α} (run : Reach step ok s t) (met : ok t a) (next : step t a = some u) :
      Reach step ok s u

theorem Reach.mono {s t : σ} (h : Reach step ok s t) (hok : ∀ s a, ok s a → ok' s a) :
    Reach step ok' s t := by
  induction h with
  | refl => exact .refl
  | tail _ met next ih => exact .tail ih (hok _ _ met) next

theorem Reach.trans {s t u : σ} (h : Reach step ok s t) (hu : Reach step ok t u) :
    Reach step ok s u := by
  induction hu with
  | refl => exact h
  | tail _ met next ih => exact .tail ih met next

/-- What holds at the start and is kept by every allowed step holds along the run. -/
theorem Reach.invariant {P : σ → Prop} {s t : σ} (h : Reach step ok s t) (start : P s)
    (keep : ∀ s a t, P s → ok s a → step s a = some t → P t) : P t := by
  induction h with
  | refl => exact start
  | tail _ met next ih => exact keep _ _ _ ih met next

/-- Runs with the number of those steps that are marked. -/
inductive Tally (step : σ → α → Option σ) (ok mark : σ → α → Prop) (s : σ) : ℕ → σ → Prop
  | refl : Tally step ok mark s 0 s
  | other {t u : σ} {a : α} {n : ℕ} (run : Tally step ok mark s n t) (met : ok t a)
      (next : step t a = some u) (plain : ¬ mark t a) : Tally step ok mark s n u
  | marked {t u : σ} {a : α} {n : ℕ} (run : Tally step ok mark s n t) (met : ok t a)
      (next : step t a = some u) (hit : mark t a) : Tally step ok mark s (n+1) u

theorem Tally.mono {mark : σ → α → Prop} {s t : σ} {n : ℕ} (h : Tally step ok mark s n t)
    (hok : ∀ s a, ok s a → ok' s a) : Tally step ok' mark s n t := by
  induction h with
  | refl => exact .refl
  | other _ met next plain ih => exact .other ih (hok _ _ met) next plain
  | marked _ met next hit ih => exact .marked ih (hok _ _ met) next hit

theorem Tally.reach {mark : σ → α → Prop} {s t : σ} {n : ℕ} (h : Tally step ok mark s n t) :
    Reach step ok s t := by
  induction h with
  | refl => exact .refl
  | other _ met next _ ih => exact .tail ih met next
  | marked _ met next _ ih => exact .tail ih met next

/-- A journal grows by at most one entry in a step. What the entry `r` sets up is kept as long as
the later entries allow it. -/
theorem Reach.since {ρ : Type*} {journal : σ → List ρ} {P : σ → List ρ → Prop} {kept : ρ → Prop}
    {r : ρ} {s t : σ} (h : Reach step ok s t) (start : journal s = [])
    (sets : ∀ u a v, Reach step ok s u → ok u a → step u a = some v → journal v = r :: journal u →
      P v [])
    (keep : ∀ u a v l, Reach step ok s u → P u l → ok u a → step u a = some v →
      journal v = journal u ∧ P v l ∨ ∃ x, journal v = x :: journal u ∧ (kept x → P v (x :: l)))
    (grows : ∀ u a v, step u a = some v → journal v = journal u ∨ ∃ x, journal v = x :: journal u)
    {recent old : List ρ} (split : journal t = recent ++ r :: old) (allowed : ∀ x ∈ recent, kept x) :
    P t recent := by
  induction h generalizing recent old with
  | refl => simp [start] at split
  | tail run met next ih =>
    rcases grows _ _ _ next with same | ⟨x,more⟩
    · have held := ih (same ▸ split) allowed
      rcases keep _ _ _ _ run held met next with ⟨_,hp⟩ | ⟨y,more,_⟩
      · exact hp
      · simp [same] at more
    · cases recent with
      | nil =>
        obtain ⟨rfl,rfl⟩ := List.cons.inj (more.symm.trans split)
        exact sets _ _ _ run met next more
      | cons y recent =>
        obtain ⟨rfl,tail⟩ := List.cons.inj (more.symm.trans split)
        have held := ih tail fun z hz => allowed z (List.mem_cons_of_mem _ hz)
        rcases keep _ _ _ _ run held met next with ⟨same,_⟩ | ⟨z,more',hp⟩
        · simp [more] at same
        · obtain ⟨rfl,_⟩ := List.cons.inj (more.symm.trans more')
          exact hp (allowed _ List.mem_cons_self)

/-- Execute a list of actions, stopping where the condition or the step fails. -/
def exec (step : σ → α → Option σ) (ok : σ → α → Prop) [∀ s a, Decidable (ok s a)] :
    σ → List α → Option σ
  | s,[] => some s
  | s,a::rest => if ok s a then (step s a).bind fun t => exec step ok t rest else none

theorem exec_reach [∀ s a, Decidable (ok s a)] {s t : σ} {l : List α}
    (h : exec step ok s l = some t) : Reach step ok s t := by
  induction l generalizing s with
  | nil =>
    simp only [exec,Option.some.injEq] at h
    exact h ▸ .refl
  | cons a rest ih =>
    simp only [exec] at h
    split at h
    · rename_i met
      obtain ⟨u,hu,ht⟩ := Option.bind_eq_some_iff.mp h
      exact Reach.trans (.tail .refl met hu) (ih ht)
    · contradiction

/-- A computed run whose last state passes a test gives a reachable state that passes it. -/
theorem exists_reach_of_exec (step : σ → α → Option σ) (ok : σ → α → Prop)
    [∀ s a, Decidable (ok s a)] (s : σ) (l : List α) (p : σ → Prop) [DecidablePred p]
    (h : (exec step ok s l).map (fun t => decide (p t)) = some true) : ∃ t, Reach step ok s t ∧ p t := by
  obtain ⟨t,ht,hp⟩ := Option.map_eq_some_iff.mp h
  exact ⟨t,exec_reach ht,of_decide_eq_true hp⟩

end Run
