import Brtos.Library.Run

/-! Counters of tokens that saturate. Who asks for a token finds one or does not; a token that meets
somebody waiting is handed over and never counted. With one token at most the counter is a latch. -/
namespace Counter

/-- What the users of a counter do, and see. -/
inductive Signal
  | put
  | hand
  | take
  | miss
  deriving DecidableEq, Repr

/-- The counter of at most `n` tokens after a signal. -/
def next (n c : ℕ) : Signal → ℕ
  | .put => if c < n then c+1 else c
  | .take => c-1
  | .hand | .miss => c

/-- A token is taken where there is one; the other two happen where there is none. -/
def Fits (c : ℕ) : Signal → Prop
  | .put => True
  | .take => 0 < c
  | .hand | .miss => c = 0

/-- A counter sees these signals, the first one first. -/
inductive Counts (n c : ℕ) : List Signal → ℕ → Prop
  | nil : Counts n c [] c
  | concat {l : List Signal} {d : ℕ} {g : Signal} (run : Counts n c l d) (fits : Fits d g) :
      Counts n c (l++[g]) (next n d g)

variable {n c d : ℕ} {l : List Signal}

theorem Counts.le (h : Counts n c l d) (start : c ≤ n) : d ≤ n := by
  induction h with
  | nil => exact start
  | @concat l d g run fits ih =>
    cases g with
    | put =>
      simp only [next]
      split_ifs <;> omega
    | take => exact (Nat.sub_le d 1).trans ih
    | hand => exact ih
    | miss => exact ih

/-- Those who ask for a token, and whether they get it at once. -/
def asks : List Signal → List Bool := List.filterMap fun
  | .take => some true
  | .miss => some false
  | .put | .hand => none

theorem asks_concat (l : List Signal) (g : Signal) : asks (l.concat g) = asks l++asks [g] := by
  rw [List.concat_eq_append]
  exact List.filterMap_append

/-- A latch that has been set, however often, has one token: the next who asks gets it, and nobody
behind him until it is set again. -/
theorem Counts.once (h : Counts 1 c l d) (start : c ≤ 1) {before after : List Signal}
    (split : l = before++.put :: after) (quiet : .put ∉ after) :
    asks after = [] ∧ d = 1 ∨ (∃ k, asks after = true :: List.replicate k false) ∧ d = 0 := by
  induction h generalizing after with
  | nil => simp at split
  | @concat l d g run fits ih =>
    rcases List.eq_nil_or_concat after with rfl | ⟨rest,x,rfl⟩
    · obtain ⟨rfl,last⟩ := List.append_inj' split rfl
      obtain rfl : g = .put := by simpa using last
      have := run.le start
      refine Or.inl ⟨rfl,?_⟩
      simp only [next]
      split_ifs <;> omega
    · have split' : l++[g] = (before++.put :: rest)++[x] := by simpa using split
      obtain ⟨rfl,last⟩ := List.append_inj' split' rfl
      obtain rfl : g = x := by simpa using last
      have far : Signal.put ∉ rest ∧ g ≠ .put := by
        simpa [eq_comm] using quiet
      rcases ih rfl far.1 with ⟨none_,one⟩ | ⟨⟨k,some_⟩,zero⟩
      · cases g with
        | put => exact absurd rfl far.2
        | hand => simp [Fits,one] at fits
        | take => exact Or.inr ⟨⟨0,by rw [asks_concat,none_]; rfl⟩,by simp [next,one]⟩
        | miss => simp [Fits,one] at fits
      · cases g with
        | put => exact absurd rfl far.2
        | hand => exact Or.inr ⟨⟨k,by rw [asks_concat,some_]; exact List.append_nil _⟩,by simp [next,zero]⟩
        | take => simp [Fits,zero] at fits
        | miss =>
          refine Or.inr ⟨⟨k+1,?_⟩,by simp [next,zero]⟩
          rw [asks_concat,some_,List.replicate_succ']
          rfl

end Counter

namespace Run
open Counter (Signal Counts Fits)

variable {σ α : Type*} {step : σ → α → Option σ} {ok : σ → α → Prop} {label : σ → α → Option Signal}

/-- Runs with the signals that their steps give. -/
inductive Signals (step : σ → α → Option σ) (ok : σ → α → Prop) (label : σ → α → Option Signal) (s : σ) :
    List Signal → σ → Prop
  | refl : Signals step ok label s [] s
  | tail {t u : σ} {a : α} {l : List Signal} (run : Signals step ok label s l t) (met : ok t a)
      (next : step t a = some u) : Signals step ok label s (l++(label t a).toList) u

theorem Signals.reach {s t : σ} {l : List Signal} (h : Signals step ok label s l t) : Reach step ok s t := by
  induction h with
  | refl => exact .refl
  | tail _ met next ih => exact .tail ih met next

/-- A relation to a counter that every step keeps holds along the run. -/
theorem Signals.counts {n c : ℕ} {s t : σ} {l : List Signal} {R : σ → ℕ → Prop}
    (h : Signals step ok label s l t) (start : R s c)
    (silent : ∀ {t u a d}, R t d → ok t a → step t a = some u → label t a = none → R u d)
    (signal : ∀ {t u a d g}, R t d → ok t a → step t a = some u → label t a = some g →
      Fits d g ∧ R u (Counter.next n d g)) : ∃ d, Counts n c l d ∧ R t d := by
  induction h with
  | refl => exact ⟨c,.nil,start⟩
  | @tail t u a l run met next ih =>
    obtain ⟨d,counted,related⟩ := ih
    cases hg : label t a with
    | none => exact ⟨d,by simpa using counted,silent related met next hg⟩
    | some g =>
      obtain ⟨fits,kept⟩ := signal related met next hg
      exact ⟨_,.concat counted fits,kept⟩

end Run
