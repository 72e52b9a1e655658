import Mathlib.Data.List.Count
import Mathlib.Logic.Function.Basic

/-! # A table of hold counts

A table keeps, for each value that is held, how often: `hold` adds one hold of each value of a list,
`release` ends one, and a value that nobody holds has no entry. `Counts t l` says that `t` counts the
holds listed in `l`. -/

namespace Lib

section Table
variable {α : Type*} [DecidableEq α]

def hold (t : α → Option Nat) (xs : List α) : α → Option Nat :=
  xs.foldl (fun t x => Function.update t x (some ((t x).getD 0 + 1))) t

/-- One hold of `x` ends. A value without an entry is left alone. -/
def releaseOne (t : α → Option Nat) (x : α) : α → Option Nat :=
  match t x with
  | some n => Function.update t x (if n - 1 = 0 then none else some (n - 1))
  | none => t

def release (t : α → Option Nat) (xs : List α) : α → Option Nat :=
  xs.foldl releaseOne t

end Table

section Counts
variable {α : Type*} [BEq α]

def Counts (t : α → Option Nat) (l : List α) : Prop :=
  ∀ x, t x = if l.count x = 0 then none else some (l.count x)

namespace Counts
variable {t : α → Option Nat} {l l' xs : List α} {x : α}

theorem nil : Counts (fun _ : α => none) [] := fun x => by simp

theorem perm (h : Counts t l) (hp : l.Perm l') : Counts t l' := fun x => by
  rw [h x, hp.count_eq x]

theorem getD (h : Counts t l) (x : α) : (t x).getD 0 = l.count x := by
  rw [h x]
  split
  · rename_i hz
    exact hz.symm
  · rfl

variable [LawfulBEq α]

theorem none_iff (h : Counts t l) : t x = none ↔ x ∉ l := by
  rw [h x, ← List.count_eq_zero]
  split <;> simp_all

variable [DecidableEq α]

theorem holdOne (h : Counts t l) (x : α) : Counts (Function.update t x (some ((t x).getD 0 + 1))) (x :: l) := by
  intro y
  by_cases hy : y = x
  · subst hy
    rw [Function.update_self, h.getD]
    simp
  · rw [Function.update_of_ne hy, h y, List.count_cons_of_ne (Ne.symm hy)]

theorem hold (h : Counts t l) (xs : List α) : Counts (hold t xs) (xs ++ l) := by
  induction xs generalizing t l with
  | nil => exact h
  | cons x xs ih => exact (ih (h.holdOne x)).perm List.perm_middle

theorem releaseOne (h : Counts t (x :: l)) : Counts (releaseOne t x) l := by
  have hx : t x = some (l.count x + 1) := by
    rw [h x]
    simp
  intro y
  unfold Lib.releaseOne
  rw [hx]
  by_cases hy : y = x
  · subst hy
    simp
  · simp only [Function.update_of_ne hy]
    rw [h y, List.count_cons_of_ne (Ne.symm hy)]

theorem release (h : Counts t (xs ++ l)) : Counts (release t xs) l := by
  induction xs generalizing t with
  | nil => exact h
  | cons x xs ih => exact ih h.releaseOne

end Counts

end Counts

end Lib
