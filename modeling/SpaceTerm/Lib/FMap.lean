import Mathlib.Data.Finset.Basic
import Mathlib.Data.List.Sort
import Mathlib.Logic.Function.Basic

/-! # Finite maps

A lookup function with the finite set of its keys. Two maps with the same lookups are equal. -/

namespace Lib

structure FMap (κ ν : Type) where
  get : κ → Option ν
  keys : Finset κ
  mem_keys : ∀ k, k ∈ keys ↔ (get k).isSome = true

namespace FMap
variable {κ ν ν' : Type}

theorem ext {m m' : FMap κ ν} (h : ∀ k, m.get k = m'.get k) : m = m' := by
  obtain ⟨get, keys, hke⟩ := m
  obtain ⟨get', keys', hke'⟩ := m'
  have hget : get = get' := funext h
  subst hget
  have hs : keys = keys' := Finset.ext fun k => (hke k).trans (hke' k).symm
  subst hs
  rfl

def empty : FMap κ ν := ⟨fun _ => none, ∅, fun _ => by simp⟩

variable [DecidableEq κ]

def insert (m : FMap κ ν) (k : κ) (v : ν) : FMap κ ν where
  get := Function.update m.get k (some v)
  keys := Insert.insert k m.keys
  mem_keys j := by
    by_cases hj : j = k
    · simp [hj]
    · simp [hj, m.mem_keys]

def erase (m : FMap κ ν) (k : κ) : FMap κ ν where
  get := Function.update m.get k none
  keys := m.keys.erase k
  mem_keys j := by
    by_cases hj : j = k
    · simp [hj]
    · simp [hj, m.mem_keys]

@[simp] theorem get_insert (m : FMap κ ν) (k j : κ) (v : ν) :
    (m.insert k v).get j = if j = k then some v else m.get j := by
  by_cases hj : j = k
  · simp [insert, hj]
  · simp [insert, hj]

@[simp] theorem get_erase (m : FMap κ ν) (k j : κ) : (m.erase k).get j = if j = k then none else m.get j := by
  by_cases hj : j = k
  · simp [erase, hj]
  · simp [erase, hj]

/-- The entries with a key in `p`. -/
def restrict (m : FMap κ ν) (p : κ → Bool) : FMap κ ν where
  get k := if p k then m.get k else none
  keys := m.keys.filter fun k => p k = true
  mem_keys k := by
    by_cases hk : p k = true
    · simp [hk, m.mem_keys]
    · simp [hk]

/-- `f` applied to every entry; `none` where `f` gives nothing for one of them. -/
def traverse (m : FMap κ ν) (f : κ → ν → Option ν') : Option (FMap κ ν') :=
  if h : ∀ k ∈ m.keys, ((m.get k).bind (f k)).isSome = true then
    some
      { get := fun k => (m.get k).bind (f k)
        keys := m.keys
        mem_keys := fun k => by
          refine ⟨h k, fun hk => ?_⟩
          rw [m.mem_keys]
          cases hget : m.get k with
          | none => rw [hget] at hk; cases hk
          | some v => rfl }
  else none

end FMap

namespace FMap
variable {κ ν : Type} [LinearOrder κ]

def sorted (m : FMap κ ν) : List κ :=
  Quotient.liftOn m.keys.val (List.insertionSort (· ≤ ·)) fun _ _ h =>
    ((List.perm_insertionSort _ _).trans (h.trans (List.perm_insertionSort _ _).symm)).eq_of_sortedLE
      List.sortedLE_insertionSort List.sortedLE_insertionSort

@[simp] theorem mem_sorted (m : FMap κ ν) (k : κ) : k ∈ m.sorted ↔ (m.get k).isSome = true := by
  rw [← m.mem_keys, ← Finset.mem_val]
  unfold sorted
  induction m.keys.val using Quotient.inductionOn with
  | _ l => exact List.mem_insertionSort _

end FMap

end Lib
