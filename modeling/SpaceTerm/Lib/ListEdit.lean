import Mathlib.Data.List.Basic
import Mathlib.Data.List.Nodup
import Mathlib.Data.List.Perm.Subperm
import Mathlib.Tactic.Common
import Mathlib.Algebra.GroupWithZero.Nat

/-! # Editing a list in place

A vector is searched for the first element that satisfies a test, and that element is changed or
removed in place. `exists_split` says all of it at once: the list is `l ++ a :: r` around the match,
and each edit replaces `a` there. Proofs about an edit start from the split. The last sections are about
edits of every element that then drop some, and about splits of a list that grows. -/

namespace Lib

variable {α : Type*}

/-- Applies `f` to the first element that satisfies `p`. -/
def modifyFirst (p : α → Bool) (f : α → α) : List α → List α
  | [] => []
  | x :: xs => if p x then f x :: xs else x :: modifyFirst p f xs

variable {p : α → Bool} {f : α → α} {a : α}

theorem modifyFirst_append {l r : List α}
    (hl : ∀ x ∈ l, p x = false) (ha : p a) : modifyFirst p f (l ++ a :: r) = l ++ f a :: r := by
  induction l with
  | nil => simp [modifyFirst, ha]
  | cons x l ih =>
    have hx : p x = false := hl x (by simp)
    simp [modifyFirst, hx, ih fun y hy => hl y (by simp [hy])]

variable {xs : List α}

theorem exists_split (h : xs.find? p = some a) :
    ∃ l r, xs = l ++ a :: r ∧ p a ∧ (∀ x ∈ l, p x = false) ∧
      (∀ f, modifyFirst p f xs = l ++ f a :: r) ∧ xs.eraseP p = l ++ r := by
  obtain ⟨ha, l, r, rfl, hl⟩ := List.find?_eq_some_iff_append.mp h
  have hl' : ∀ x ∈ l, p x = false := fun x hx => by simpa using hl x hx
  refine ⟨l, r, rfl, ha, hl', fun f => modifyFirst_append hl' ha, ?_⟩
  rw [List.eraseP_append_right _ (by simpa using hl')]
  simp [ha]

theorem modifyFirst_eq_self (h : xs.find? p = none) : modifyFirst p f xs = xs := by
  induction xs with
  | nil => rfl
  | cons x xs ih =>
    rw [List.find?_cons] at h
    cases hx : p x
    · rw [hx] at h
      simp [modifyFirst, hx, ih h]
    · simp [hx] at h

@[simp] theorem length_modifyFirst (p : α → Bool) (f : α → α) (xs : List α) :
    (modifyFirst p f xs).length = xs.length := by
  induction xs with
  | nil => rfl
  | cons x xs ih => unfold modifyFirst; split <;> simp [ih]

theorem forall_modifyFirst {P : α → Prop}
    (h : ∀ x ∈ xs, P x) (hf : ∀ x ∈ xs, p x → P (f x)) : ∀ x ∈ modifyFirst p f xs, P x := by
  induction xs with
  | nil => simp [modifyFirst]
  | cons x xs ih =>
    unfold modifyFirst
    split
    · rename_i hx
      simpa using ⟨hf x (by simp) hx, fun y hy => h y (by simp [hy])⟩
    · simpa using ⟨h x (by simp), ih (fun y hy => h y (by simp [hy])) (fun y hy => hf y (by simp [hy]))⟩

/-- An edit that keeps `g` leaves the list of `g`s as it was. -/
theorem map_modifyFirst {β : Type*} {g : α → β}
    (hg : ∀ x ∈ xs, g (f x) = g x) : (modifyFirst p f xs).map g = xs.map g := by
  induction xs with
  | nil => rfl
  | cons x xs ih =>
    unfold modifyFirst
    split
    · simp [hg x (by simp)]
    · simp [ih fun y hy => hg y (by simp [hy])]

theorem getElem?_modifyFirst {i : Nat}
    (h : xs[i]? = some a) (ha : p a = false) : (modifyFirst p f xs)[i]? = some a := by
  induction xs generalizing i with
  | nil => simp at h
  | cons x xs ih =>
    unfold modifyFirst
    cases i with
    | zero =>
      obtain rfl : x = a := by simpa using h
      simp [ha]
    | succ i =>
      split
      · simpa using h
      · simpa using ih (by simpa using h)

theorem exists_split_modify {i : Nat} (h : xs[i]? = some a) :
    ∃ l r, xs = l ++ a :: r ∧ ∀ f, xs.modify i f = l ++ f a :: r := by
  obtain ⟨hi, rfl⟩ := List.getElem?_eq_some_iff.mp h
  refine ⟨xs.take i, xs.drop (i + 1), ?_, fun f => List.modify_eq_take_cons_drop hi⟩
  rw [← List.drop_eq_getElem_cons hi, List.take_append_drop]

theorem find?_eq_some_of_nodup {κ : Type*} [BEq κ] [LawfulBEq κ] {key : α → κ}
    (h : (xs.map key).Nodup) (ha : a ∈ xs) : xs.find? (fun x => key x == key a) = some a := by
  obtain ⟨l, r, rfl⟩ := List.append_of_mem ha
  refine List.find?_eq_some_iff_append.mpr ⟨by simp, l, r, rfl, fun x hx => ?_⟩
  simp only [List.map_append, List.map_cons] at h
  have hne : key x ≠ key a :=
    fun he => (List.nodup_append.mp h).2.2 _ (List.mem_map_of_mem hx) _ (by simp) he
  simpa using hne

theorem eraseP_eq_filter {κ : Type*} [BEq κ] [LawfulBEq κ] {key : α → κ} (h : (xs.map key).Nodup) (k : κ) :
    xs.eraseP (fun x => key x == k) = xs.filter (fun x => key x != k) := by
  induction xs with
  | nil => rfl
  | cons x xs ih =>
    obtain ⟨hx, hxs⟩ := List.nodup_cons.mp h
    by_cases hk : key x = k
    · have hrest : xs.filter (fun y => key y != k) = xs := by
        refine List.filter_eq_self.mpr fun y hy => ?_
        simp only [bne_iff_ne, ne_eq, ← hk]
        exact fun he => hx (he ▸ List.mem_map_of_mem hy)
      simp [hk, hrest]
    · simp [hk, ih hxs]

theorem takeWhile_eq_filter {key : α → Nat} (h : xs.Pairwise (key · < key ·)) (n : Nat) :
    xs.takeWhile (key · ≤ n) = xs.filter (key · ≤ n) ∧
      xs.drop (xs.takeWhile (key · ≤ n)).length = xs.filter (n < key ·) := by
  induction h with
  | nil => exact ⟨rfl, rfl⟩
  | @cons x xs hlt _ ih =>
    by_cases hx : key x ≤ n
    · have hno : ¬n < key x := Nat.not_lt.mpr hx
      simpa [hx, hno] using ih
    have hn : n < key x := Nat.lt_of_not_le hx
    have hl (y : α) (hy : y ∈ xs) : n < key y := Nat.lt_trans hn (hlt y hy)
    have hnone : xs.filter (key · ≤ n) = [] :=
      List.filter_eq_nil_iff.mpr fun y hy => by simpa using hl y hy
    have ha : xs.filter (n < key ·) = xs :=
      List.filter_eq_self.mpr fun y hy => by simpa using hl y hy
    simp [hx, hn, hnone, ha]

/-! ### Changing every element and dropping some -/

theorem sublist_flatMap_filter_map {β : Type*} {q : α → Bool} {g : α → List β} (h : ∀ x ∈ xs, (g (f x)).Sublist (g x)) :
    (((xs.map f).filter q).flatMap g).Sublist (xs.flatMap g) := by
  induction xs with
  | nil => exact .slnil
  | cons x xs ih =>
    have hrest := ih fun y hy => h y (by simp [hy])
    rw [List.map_cons, List.flatMap_cons]
    cases hq : q (f x) with
    | true =>
      rw [List.filter_cons_of_pos hq, List.flatMap_cons]
      exact (h x (by simp)).append hrest
    | false =>
      rw [List.filter_cons_of_neg (by simp [hq])]
      exact hrest.trans (List.sublist_append_right _ _)

theorem sum_filter_map_le {q : α → Bool} (size : α → Nat) (xs : List α) (h : ∀ x ∈ xs, size (f x) ≤ size x) :
    (((xs.map f).filter q).map size).sum ≤ (xs.map size).sum := by
  induction xs with
  | nil => exact Nat.le_refl _
  | cons x xs ih =>
    have hx := h x (by simp)
    have hrest := ih fun y hy => h y (by simp [hy])
    rw [List.map_cons]
    cases hq : q (f x) with
    | true =>
      rw [List.filter_cons_of_pos hq]
      simp only [List.map_cons, List.sum_cons]
      omega
    | false =>
      rw [List.filter_cons_of_neg (by simp [hq])]
      simp only [List.map_cons, List.sum_cons]
      omega

theorem filter_mem_of_sublist [DecidableEq α] {xs ys : List α} (h : ys.Sublist xs) (hxs : xs.Nodup) :
    xs.filter (fun x => decide (x ∈ ys)) = ys := by
  have hs : ys.Sublist (xs.filter fun x => decide (x ∈ ys)) := by
    have := h.filter fun x => decide (x ∈ ys)
    rwa [List.filter_eq_self.mpr (by simp)] at this
  refine (hs.eq_of_length_le ?_).symm
  have hno : (xs.filter fun x => decide (x ∈ ys)).Nodup := hxs.filter _
  exact (List.subperm_of_subset hno fun x hx => by simpa using (List.mem_filter.mp hx).2).length_le

/-! ### A list that grows -/

theorem split_append {l h a b : List α} {y : α} (he : l ++ h = a ++ y :: b) :
    (∃ b', l = a ++ y :: b' ∧ b = b' ++ h) ∨ ∃ a', a = l ++ a' ∧ h = a' ++ y :: b := by
  rcases List.append_eq_append_iff.mp he with ⟨a', ha, hh⟩ | ⟨c, hl, hc⟩
  · exact .inr ⟨a', ha, hh⟩
  cases c with
  | nil => exact .inr ⟨[], by simpa using hl.symm, by simpa using hc.symm⟩
  | cons z c =>
    obtain ⟨rfl, rfl⟩ := List.cons.inj hc
    exact .inl ⟨c, hl, rfl⟩

theorem split_of_append {l h a b : List α} {y : α} (he : l ++ h = a ++ y :: b) (hy : y ∉ h) :
    ∃ b', l = a ++ y :: b' ∧ b = b' ++ h := by
  rcases split_append he with h | ⟨a', -, rfl⟩
  · exact h
  · exact absurd (by simp) hy

theorem split_snoc {l a b : List α} {x y : α} (he : l ++ [x] = a ++ y :: b) :
    (∃ b', l = a ++ y :: b' ∧ b = b' ++ [x]) ∨ a = l ∧ y = x ∧ b = [] := by
  rcases split_append he with h | ⟨a', rfl, hx⟩
  · exact .inl h
  cases a' with
  | nil =>
    obtain ⟨rfl, rfl⟩ := List.cons.inj hx
    exact .inr ⟨List.append_nil l, rfl, rfl⟩
  | cons z a' => simp at hx

end Lib
