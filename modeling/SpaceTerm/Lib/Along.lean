import Mathlib.Data.List.Basic

/-! # Obligations along a list of steps

`Along step good s as`: each of the steps `as`, taken one after the other from `s`, is good in the state
in which it is taken. -/

namespace Lib

variable {σ α : Type*}

def Along (step : σ → α → σ) (good : σ → α → Prop) : σ → List α → Prop
  | _, [] => True
  | s, a :: as => good s a ∧ Along step good (step s a) as

namespace Along
variable {step : σ → α → σ} {good : σ → α → Prop} {s : σ} {as bs : List α}

theorem append (h : Along step good s as) (h' : Along step good (as.foldl step s) bs) :
    Along step good s (as ++ bs) := by
  induction as generalizing s with
  | nil => exact h'
  | cons a as ih => exact ⟨h.1, ih h.2 h'⟩

theorem left (h : Along step good s (as ++ bs)) : Along step good s as := by
  induction as generalizing s with
  | nil => trivial
  | cons a as ih => exact ⟨h.1, ih h.2⟩

theorem take (h : Along step good s as) (n : Nat) : Along step good s (as.take n) := by
  rw [← List.take_append_drop n as] at h
  exact h.left

theorem at_ {pre post : List α} {a : α} (h : Along step good s (pre ++ a :: post)) :
    good (pre.foldl step s) a := by
  induction pre generalizing s with
  | nil => exact h.1
  | cons b pre ih => exact ih h.2

/-- Good steps that keep `P` lead to a state with `P`. -/
theorem invariant {P : σ → Prop} (h : Along step good s as) (hs : P s)
    (hst : ∀ {s a}, P s → good s a → P (step s a)) : P (as.foldl step s) := by
  induction as generalizing s with
  | nil => exact hs
  | cons a as ih => exact ih h.2 (hst hs h.1)

theorem of_kept {P : σ → Prop} (hs : P s) (h : ∀ a ∈ as, ∀ s, P s → good s a ∧ P (step s a)) :
    Along step good s as ∧ P (as.foldl step s) := by
  induction as generalizing s with
  | nil => exact ⟨trivial, hs⟩
  | cons a as ih =>
    obtain ⟨hg, hke⟩ := h a (List.mem_cons_self ..) s hs
    obtain ⟨hal, hend⟩ := ih hke fun a ha => h a (List.mem_cons_of_mem _ ha)
    exact ⟨⟨hg, hal⟩, hend⟩

end Along

end Lib
