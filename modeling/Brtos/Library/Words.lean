import Mathlib.Tactic
import Mathlib.Data.List.TakeWhile

/-! The maximal runs of a list between separators. -/
namespace Words

variable {α : Type*} {sep : α → Bool} {l r w : List α} {a : α}

/-- The maximal runs of elements that are no separators, in order. -/
def words (sep : α → Bool) (l : List α) : List (List α) :=
  (l.splitOnP sep).filter fun w => !w.isEmpty

@[simp] theorem words_nil (sep : α → Bool) : words sep [] = [] := rfl

theorem words_append_cons (l r : List α) (h : sep a = true) :
    words sep (l++a :: r) = words sep l++words sep r := by
  simp only [words,List.splitOnP_append_cons l r h,List.filter_append]

theorem words_cons (r : List α) (h : sep a = true) : words sep (a :: r) = words sep r :=
  words_append_cons [] r h

theorem words_run (h : ∀ x ∈ w, sep x = false) (ne : w ≠ []) : words sep w = [w] := by
  have nonempty : w.isEmpty = false := by simpa using ne
  simp [words,List.splitOnP_eq_singleton h,nonempty]

theorem words_separators (h : ∀ x ∈ l, sep x = true) (r : List α) : words sep (l++r) = words sep r := by
  induction l with
  | nil => rfl
  | cons a l ih =>
    have tail := ih fun x hx => h x (List.mem_cons_of_mem _ hx)
    rw [List.cons_append,words_cons _ (h a List.mem_cons_self),tail]

theorem words_eq_nil (h : ∀ x ∈ l, sep x = true) : words sep l = [] := by
  simpa using words_separators h []

theorem words_run_append (h : ∀ x ∈ w, sep x = false) (ne : w ≠ []) (r : List α) (ha : sep a = true) :
    words sep (w++a :: r) = w :: words sep r := by
  rw [words_append_cons w r ha,words_run h ne,List.singleton_append]

/-- Which separator stands at a place does not matter. -/
theorem words_congr (h : List.Forall₂ (fun a b => a = b ∨ sep a = true ∧ sep b = true) l r) :
    words sep l = words sep r := by
  have split : l.splitOnP sep = r.splitOnP sep := by
    induction h with
    | nil => rfl
    | cons first _ ih =>
      rcases first with rfl | ⟨ha,hb⟩
      · simp only [List.splitOnP_cons_eq_if_modifyHead,ih]
      · simp only [List.splitOnP_cons_eq_if_modifyHead,ha,hb,if_true,ih]
  rw [words,split,words]

/-- A list has no word, or it begins with separators and its first word. -/
theorem first_word (sep : α → Bool) (l : List α) :
    (∀ x ∈ l, sep x = true) ∨ ∃ d w, (∀ x ∈ d, sep x = true) ∧ (∀ x ∈ w, sep x = false) ∧ w ≠ [] ∧
      (l = d++w ∨ ∃ a r, sep a = true ∧ l = d++(w++a :: r)) := by
  have split := List.takeWhile_append_dropWhile (p := sep) (l := l)
  have before : ∀ x ∈ l.takeWhile sep, sep x = true := fun x hx => List.mem_takeWhile_imp hx
  cases rest : l.dropWhile sep with
  | nil =>
    rw [rest,List.append_nil] at split
    exact .inl (split ▸ before)
  | cons b t =>
    have hb : sep b = false := by
      have := List.head_dropWhile_not sep (l := l) (by simp [rest])
      simpa [rest] using this
    have word := List.takeWhile_append_dropWhile (p := fun x => !sep x) (l := b :: t)
    have inside : ∀ x ∈ (b :: t).takeWhile fun x => !sep x, sep x = false := fun x hx => by
      simpa using List.mem_takeWhile_imp hx
    refine .inr ⟨_,_,before,inside,by simp [hb],?_⟩
    cases after : (b :: t).dropWhile fun x => !sep x with
    | nil =>
      rw [after,List.append_nil] at word
      exact .inl (by rw [word,← rest,split])
    | cons a r =>
      have ha : sep a = true := by
        have := List.head_dropWhile_not (fun x => !sep x) (l := b :: t) (by simp [after])
        simpa [after] using this
      rw [after] at word
      exact .inr ⟨a,r,ha,by rw [word,← rest,split]⟩

theorem words_eq_nil_iff : words sep l = [] ↔ ∀ x ∈ l, sep x = true := by
  refine ⟨fun h => ?_,words_eq_nil⟩
  rcases first_word sep l with none | ⟨d,w,hd,hw,ne,rfl | ⟨a,r,ha,rfl⟩⟩
  · exact none
  · simp [words_separators hd,words_run hw ne] at h
  · simp [words_separators hd,words_run_append hw ne r ha] at h

theorem length_words_le (sep : α → Bool) (l : List α) : (words sep l).length ≤ l.length := by
  induction h : l.length using Nat.strong_induction_on generalizing l with
  | _ n ih =>
    rcases first_word sep l with none | ⟨d,w,hd,hw,ne,rfl | ⟨a,r,ha,rfl⟩⟩
    · simp [words_eq_nil none]
    · have := List.length_pos_iff.mpr ne
      simp only [words_separators hd,words_run hw ne,List.length_append,List.length_singleton] at h ⊢
      omega
    · have := List.length_pos_iff.mpr ne
      simp only [List.length_append,List.length_cons] at h
      have rest := ih r.length (by omega) r rfl
      simp only [words_separators hd,words_run_append hw ne r ha,List.length_cons]
      omega

end Words
