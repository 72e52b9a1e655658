import Mathlib.Data.List.Basic
import Mathlib.Data.List.Nodup

/-! # The agent names of a pairing

`storage.rs` and `host.rs`: a pairing lists the names of the agents it admitted, from least to most
recently admitted, at most `MAX_AGENTS` of them. A new name past the limit evicts the first listed
name that may go. -/

namespace SpaceTerm.Direct

abbrev Name := Nat

def MAX_AGENTS : Nat := 64

/-- The most paired connections one server holds at once. -/
def MAX_PAIRED_CONNECTIONS : Nat := 64

/-- How a save of the record ends. One that fails may have taken effect. -/
inductive Saved
  | done | failedNew | failedOld
  deriving DecidableEq

/-- `evicts`: admitting `agent` now evicts another name. -/
def evicts (agents : List Name) (agent : Name) : Bool :=
  !agents.contains agent && decide (MAX_AGENTS ≤ agents.length)

/-- The list part of `admit_agent`: the new names and the name they evict. `none` is `Capacity`. -/
def admitName (agents : List Name) (agent : Name) (evictable : Name → Bool) : Option (List Name × Option Name) :=
  if agents.getLast? = some agent then some (agents, none)
  else
    let rest := agents.filter (· != agent)
    if MAX_AGENTS ≤ rest.length then
      match rest.find? evictable with
      | some evicted => some (rest.eraseP evictable ++ [agent], some evicted)
      | none => none
    else some (rest ++ [agent], none)

/-- What an admission of `agent` does to the names. -/
structure Admits (agents : List Name) (agent : Name) (evictable : Name → Bool)
    (agents' : List Name) (evicted : Option Name) : Prop where
  nodup : agents'.Nodup
  bounded : agents'.length ≤ MAX_AGENTS
  admitted : agent ∈ agents'
  kept : ∀ x ∈ agents, evicted ≠ some x → x ∈ agents'
  mem : ∀ x ∈ agents', x = agent ∨ x ∈ agents
  gone : ∀ x, evicted = some x → evictable x = true ∧ x ∈ agents ∧ x ≠ agent ∧ x ∉ agents'

variable {agents agents' : List Name} {agent : Name} {evictable : Name → Bool}
  {evicted : Option Name}

/-- The names that stay, and then `agent` as the latest. -/
theorem Admits.of_rest {rest : List Name} (hno : rest.Nodup) (hr : rest.length < MAX_AGENTS)
    (ha : agent ∉ rest) (hke : ∀ x ∈ agents, evicted ≠ some x → x = agent ∨ x ∈ rest)
    (hmem : ∀ x ∈ rest, x ∈ agents)
    (hg : ∀ x, evicted = some x → evictable x = true ∧ x ∈ agents ∧ x ≠ agent ∧ x ∉ rest) :
    Admits agents agent evictable (rest ++ [agent]) evicted := by
  refine ⟨?_, ?_, by simp, fun x hx hne => ?_, fun x hx => ?_, fun x hx => ?_⟩
  · rw [List.nodup_append]
    refine ⟨hno, List.nodup_singleton _, fun y hy z hz => ?_⟩
    rintro rfl
    exact ha (List.mem_singleton.mp hz ▸ hy)
  · simp only [List.length_append, List.length_singleton]
    omega
  · rcases hke x hx hne with rfl | hrest
    · simp
    · exact List.mem_append_left _ hrest
  · rcases List.mem_append.mp hx with hrest | hl
    · exact .inr (hmem x hrest)
    · exact .inl (List.mem_singleton.mp hl)
  · obtain ⟨he, hi, hne, hout⟩ := hg x hx
    refine ⟨he, hi, hne, fun hc => ?_⟩
    rcases List.mem_append.mp hc with hrest | hl
    · exact hout hrest
    · exact hne (List.mem_singleton.mp hl)

theorem eraseP_of_find? {rest : List Name} {x : Name} (hno : rest.Nodup) (hf : rest.find? evictable = some x) :
    x ∉ rest.eraseP evictable ∧ ∀ y ∈ rest, y ≠ x → y ∈ rest.eraseP evictable := by
  obtain ⟨hx, l₁, l₂, rfl, hb⟩ := List.find?_eq_some_iff_append.mp hf
  have hnone : ∀ y ∈ l₁, ¬evictable y = true := fun y hy => by simpa using hb y hy
  rw [List.eraseP_append_right _ hnone, List.eraseP_cons_of_pos hx]
  refine ⟨(List.nodup_cons.mp (List.nodup_middle.mp hno)).1, fun y hy hne => ?_⟩
  simp only [List.mem_append, List.mem_cons] at hy ⊢
  tauto

theorem admitName_admits (hno : agents.Nodup) (hb : agents.length ≤ MAX_AGENTS)
    (h : admitName agents agent evictable = some (agents', evicted)) :
    Admits agents agent evictable agents' evicted := by
  have hrest : (agents.filter (· != agent)).Nodup := hno.filter _
  have hle : (agents.filter (· != agent)).length ≤ agents.length := List.length_filter_le ..
  have hmem : ∀ x, x ∈ agents.filter (· != agent) ↔ x ∈ agents ∧ x ≠ agent := by simp
  unfold admitName at h
  generalize agents.filter (· != agent) = rest at h hrest hmem hle
  have ha : agent ∉ rest := fun hi => ((hmem agent).mp hi).2 rfl
  split at h
  · rename_i hl
    cases h
    exact ⟨hno, hb, List.mem_of_getLast? hl, fun x hx _ => hx, fun x hx => .inr hx, nofun⟩
  simp only at h
  split at h
  · split at h
    · rename_i x hx
      cases h
      have hi := List.mem_of_find?_eq_some hx
      obtain ⟨hout, ho⟩ := eraseP_of_find? hrest hx
      have hs : ∀ y ∈ rest.eraseP evictable, y ∈ rest := fun y hy => List.mem_of_mem_eraseP hy
      refine .of_rest (hrest.sublist List.eraseP_sublist) ?_ (fun hc => ha (hs _ hc))
        (fun y hy hne => ?_) (fun y hy => ((hmem y).mp (hs y hy)).1) fun y hy => ?_
      · have hp := List.length_pos_of_mem hi
        rw [List.length_eraseP_of_mem hi (List.find?_some hx)]
        omega
      · by_cases hya : y = agent
        · exact .inl hya
        · exact .inr (ho y ((hmem y).mpr ⟨hy, hya⟩) fun hc => hne (hc ▸ rfl))
      · cases hy
        exact ⟨List.find?_some hx, ((hmem x).mp hi).1, ((hmem x).mp hi).2, hout⟩
    · cases h
  · cases h
    refine .of_rest hrest (by omega) ha (fun y hy _ => ?_) (fun y hy => ((hmem y).mp hy).1)
      nofun
    by_cases hya : y = agent
    · exact .inl hya
    · exact .inr ((hmem y).mpr ⟨hy, hya⟩)

end SpaceTerm.Direct
