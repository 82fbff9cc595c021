import Mathlib.Tactic

/-! Two machines that answer calls: one stands for what the other should do. What a call touches of a
machine's memory. -/
namespace Answer

variable {σ τ γ ρ : Type*}

/-- The calls with their answers, the state they lead to, and what the environment does in between. -/
inductive Uses (idle : σ → σ → Prop) (perform : σ → γ → σ × ρ) (s : σ) : List (γ × ρ) → σ → Prop
  | nil : Uses idle perform s [] s
  | idle {log : List (γ × ρ)} {t u : σ} (run : Uses idle perform s log t) (other : idle t u) :
      Uses idle perform s log u
  | call {log : List (γ × ρ)} {t : σ} (run : Uses idle perform s log t) (c : γ) :
      Uses idle perform s (log++[(c,(perform t c).2)]) (perform t c).1

/-- The state of the machine after the calls. -/
def final (spec : τ → γ → τ × ρ) (t : τ) (calls : List γ) : τ := calls.foldl (fun t c => (spec t c).1) t

/-- Its answers. -/
def answers (spec : τ → γ → τ × ρ) : τ → List γ → List ρ
  | _,[] => []
  | t,c :: calls => (spec t c).2 :: answers spec (spec t c).1 calls

/-- The addresses that a call touches are the only ones that it stores to and that its answer depends
on: the memory of the machine stays as it is elsewhere, and it may hold anything else there. -/
structure Footprint {α ν : Type*} (memory : σ → α → ν) (fill : σ → (α → ν) → σ)
    (perform : σ → γ → σ × ρ) (touches : σ → γ → List α) (s : σ) (c : γ) : Prop where
  stores {x : α} : x ∉ touches s c → memory (perform s c).1 x = memory s x
  loads {data : α → ν} : (∀ x ∈ touches s c, data x = memory s x) →
    (perform (fill s data) c).2 = (perform s c).2

variable {spec : τ → γ → τ × ρ}

theorem final_concat (t : τ) (calls : List γ) (c : γ) :
    final spec t (calls++[c]) = (spec (final spec t calls) c).1 := by
  simp [final,List.foldl_append]

theorem answers_concat (t : τ) (calls : List γ) (c : γ) :
    answers spec t (calls++[c]) = answers spec t calls++[(spec (final spec t calls) c).2] := by
  induction calls generalizing t with
  | nil => rfl
  | cons d calls ih =>
    rw [List.cons_append,answers,ih]
    rfl

/-- A relation that every call keeps, with equal answers, and that the environment keeps, gives equal
answers in every run. -/
theorem Uses.simulates {idle : σ → σ → Prop} {perform : σ → γ → σ × ρ} {s t : σ} {log : List (γ × ρ)}
    {R : σ → τ → Prop} {a : τ} (h : Uses idle perform s log t) (start : R s a)
    (other : ∀ {t u b}, R t b → idle t u → R u b)
    (call : ∀ {t b} c, R t b → (perform t c).2 = (spec b c).2 ∧ R (perform t c).1 (spec b c).1) :
    log.map Prod.snd = answers spec a (log.map Prod.fst) ∧ R t (final spec a (log.map Prod.fst)) := by
  induction h with
  | nil => exact ⟨rfl,start⟩
  | idle _ apart ih => exact ⟨ih.1,other ih.2 apart⟩
  | call run c ih =>
    obtain ⟨same,related⟩ := ih
    obtain ⟨answer,next⟩ := call c related
    refine ⟨?_,?_⟩
    · rw [List.map_append,List.map_append,same,List.map_singleton,List.map_singleton,answers_concat,answer]
    · rw [List.map_append,List.map_singleton,final_concat]
      exact next

end Answer
