import Mathlib.Data.List.Perm.Basic
import Mathlib.Data.List.Nodup

/-! # Binary trees with values in their leaves

Restricting a tree to some of its leaves removes the others and puts the remaining child of a node in
the node's place. Placing a leaf beside another one is undone by restricting to the old leaves. -/

namespace Lib

inductive LeafTree (ν α : Type*)
  | leaf (a : α)
  | node (label : ν) (first second : LeafTree ν α)
  deriving DecidableEq

namespace LeafTree
variable {ν α : Type*} {t : LeafTree ν α} {keep : α → Bool}

def leaves : LeafTree ν α → List α
  | leaf a => [a]
  | node _ first second => first.leaves ++ second.leaves

def labels : LeafTree ν α → List ν
  | leaf _ => []
  | node label first second => label :: (first.labels ++ second.labels)

/-- The number of leaves and inner nodes. -/
def size : LeafTree ν α → Nat
  | leaf _ => 1
  | node _ first second => 1 + first.size + second.size

/-- A node over what is left of its children. -/
def join (label : ν) : Option (LeafTree ν α) → Option (LeafTree ν α) → Option (LeafTree ν α)
  | some first, some second => some (node label first second)
  | some tree, none | none, some tree => some tree
  | none, none => none

/-- The tree without the leaves that are not kept. -/
def restrict (keep : α → Bool) : LeafTree ν α → Option (LeafTree ν α)
  | leaf a => if keep a then some (leaf a) else none
  | node label first second => join label (first.restrict keep) (second.restrict keep)

theorem size_pos (t : LeafTree ν α) : 0 < t.size := by
  cases t with
  | leaf a => exact Nat.one_pos
  | node label first second => simp only [size]; omega

theorem size_eq (t : LeafTree ν α) : t.size + 1 = 2 * t.leaves.length := by
  induction t with
  | leaf a => rfl
  | node label first second ihfirst ihsecond =>
    simp only [size, leaves, List.length_append]
    omega

theorem leaves_join (label : ν) (first second : Option (LeafTree ν α)) :
    (join label first second).elim [] leaves = first.elim [] leaves ++ second.elim [] leaves := by
  cases first with
  | none =>
    cases second with
    | none | some second => rfl
  | some first =>
    cases second with
    | none => exact (List.append_nil _).symm
    | some second => rfl

theorem leaves_restrict (t : LeafTree ν α) : (t.restrict keep).elim [] leaves = t.leaves.filter keep := by
  induction t with
  | leaf a =>
    rw [restrict, leaves, List.filter_singleton]
    cases keep a with
    | false | true => rfl
  | node label first second ihfirst ihsecond =>
    rw [restrict, leaves_join, ihfirst, ihsecond, leaves, List.filter_append]

theorem leaves_of_restrict {u : LeafTree ν α} (h : t.restrict keep = some u) :
    u.leaves = t.leaves.filter keep := by
  rw [← leaves_restrict, h]
  rfl

theorem labels_of_restrict {u : LeafTree ν α} (h : t.restrict keep = some u) : u.labels.Sublist t.labels := by
  induction t generalizing u with
  | leaf a =>
    rw [restrict] at h
    split at h
    · cases h
      exact List.Sublist.refl _
    · cases h
  | node label first second ihfirst ihsecond =>
    rw [restrict] at h
    cases hf : first.restrict keep with
    | none =>
      cases hs : second.restrict keep with
      | none =>
        rw [hf, hs] at h
        cases h
      | some second' =>
        rw [hf, hs] at h
        cases h
        exact ((ihsecond hs).trans (List.sublist_append_right _ _)).cons _
    | some first' =>
      cases hs : second.restrict keep with
      | none =>
        rw [hf, hs] at h
        cases h
        exact ((ihfirst hf).trans (List.sublist_append_left _ _)).cons _
      | some second' =>
        rw [hf, hs] at h
        cases h
        exact ((ihfirst hf).append (ihsecond hs)).cons_cons _

theorem restrict_all (h : ∀ a ∈ t.leaves, keep a = true) : t.restrict keep = some t := by
  induction t with
  | leaf a => exact if_pos (h a (List.mem_singleton_self a))
  | node label first second ihfirst ihsecond =>
    rw [restrict, ihfirst fun a ha => h a (List.mem_append_left _ ha),
      ihsecond fun a ha => h a (List.mem_append_right _ ha)]
    rfl

variable [DecidableEq α]

/-- Every leaf `source` gets the leaf `a` beside it, before it if `leads`. -/
def beside (label : ν) (source a : α) (leads : Bool) : LeafTree ν α → LeafTree ν α
  | leaf b =>
    if b = source then
      if leads then node label (leaf a) (leaf source) else node label (leaf source) (leaf a)
    else leaf b
  | node own first second =>
    node own (first.beside label source a leads) (second.beside label source a leads)

variable {label : ν} {source a : α} {leads : Bool}

theorem restrict_beside (h : keep a = false) (t : LeafTree ν α) :
    (t.beside label source a leads).restrict keep = t.restrict keep := by
  induction t with
  | leaf b =>
    rw [beside]
    split
    case isTrue he =>
      subst he
      cases leads with
      | true =>
        cases hb : keep b with
        | true | false => simp [restrict, join, h, hb]
      | false =>
        cases hb : keep b with
        | true | false => simp [restrict, join, h, hb]
    · rfl
  | node own first second ihfirst ihsecond => rw [beside, restrict, restrict, ihfirst, ihsecond]

theorem leaves_beside (t : LeafTree ν α) :
    (t.beside label source a leads).leaves.Perm (List.replicate (t.leaves.count source) a ++ t.leaves) := by
  induction t with
  | leaf b =>
    rw [beside, leaves]
    split
    case isTrue he =>
      subst he
      rw [List.count_singleton_self]
      cases leads with
      | true => exact .refl _
      | false => exact .swap _ _ _
    case isFalse hne =>
      rw [List.count_singleton, if_neg (by simpa using hne)]
      exact .refl _
  | node own first second ihfirst ihsecond =>
    rw [beside, leaves, leaves, List.count_append, List.replicate_add]
    refine (ihfirst.append ihsecond).trans ?_
    rw [List.append_assoc, List.append_assoc, List.perm_append_left_iff, ← List.append_assoc,
      ← List.append_assoc, List.perm_append_right_iff]
    exact List.perm_append_comm

/-- The new leaf comes once where its source is once. -/
theorem leaves_beside_once (hno : t.leaves.Nodup) (hs : source ∈ t.leaves) :
    (t.beside label source a leads).leaves.Perm (a :: t.leaves) := by
  have hp := @leaves_beside ν α _ label source a leads t
  rw [List.count_eq_one_of_mem hno hs] at hp
  exact hp

theorem labels_beside {b : ν} (h : b ∈ (t.beside label source a leads).labels) : b = label ∨ b ∈ t.labels := by
  induction t with
  | leaf c =>
    rw [beside] at h
    split at h
    · cases leads with
      | true | false => exact .inl (List.mem_singleton.mp h)
    · cases h
  | node own first second ihfirst ihsecond =>
    rcases List.mem_cons.mp h with rfl | h
    · exact .inr (List.mem_cons_self ..)
    rcases List.mem_append.mp h with h | h
    · exact (ihfirst h).imp_right fun h => List.mem_cons_of_mem _ (List.mem_append_left _ h)
    · exact (ihsecond h).imp_right fun h => List.mem_cons_of_mem _ (List.mem_append_right _ h)

end LeafTree

end Lib
