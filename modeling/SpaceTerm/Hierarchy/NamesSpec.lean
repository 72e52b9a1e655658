import Mathlib.Data.List.Perm.Subperm
import Mathlib.Data.List.Nodup
import SpaceTerm.Hierarchy.State

/-! # What naming leaves behind

An automatic base leaves room for a two-digit collision suffix, and the search for a free name ends
within one try more than there are occupied names. Naming changes nothing of a Workspace but its name
(`anonymous`), and gives every Workspace a name the protocol allows. -/

namespace SpaceTerm.Hierarchy
open Lib

structure BaseOk (base : Text) : Prop where
  nonblank : Text.trim base ≠ []
  room : Text.utf8Len base ≤ 251
  plain : ∀ c ∈ base, Text.isControl c = false

theorem validName_iff {name : Text} : validName name ↔
    Text.trim name ≠ [] ∧ Text.utf8Len name ≤ 256 ∧ ∀ c ∈ name, Text.isControl c = false := by
  simp [validName, and_assoc]

theorem validName_trim {name : Text} (h : validName name) : validName (Text.trim name) := by
  obtain ⟨hb, hl, hp⟩ := validName_iff.mp h
  have hs := Text.trim_sublist name
  exact validName_iff.mpr ⟨Text.trim_trim_ne_nil hb,
    (Text.utf8Len_le_of_sublist hs).trans hl, fun c hc => hp c (hs.subset hc)⟩

theorem Workspace.automaticBase_ok (w : Workspace) (home : Option PathBuf) : BaseOk (w.automaticBase home) := by
  unfold automaticBase
  extract_lets base cut
  split
  · have hs : Text.isControl '/' = false := by decide
    exact ⟨by decide, by decide, by simpa using hs⟩
  rename_i hb
  refine ⟨by simpa using hb, Text.utf8Len_popTo_le _ _, fun c hc => ?_⟩
  have hmem := (Text.popTo_sublist _ _).subset hc
  simpa using (List.mem_filter.mp hmem).2

variable {base : Text}

theorem BaseOk.validName (h : BaseOk base) : validName base :=
  validName_iff.mpr ⟨h.nonblank, le_trans h.room (by decide : 251 ≤ 256), h.plain⟩

/-! ### The collision suffix -/

theorem utf8Size_digit {c : Char} (h : c.isDigit) : c.utf8Size = 1 := by
  simp only [Char.isDigit, Bool.and_eq_true, decide_eq_true_eq] at h
  have hl : c.val ≤ 0x7F := UInt32.le_trans h.2 (by decide)
  simp [Char.utf8Size, hl]

theorem isControl_digit {c : Char} (h : c.isDigit) : Text.isControl c = false := by
  simp only [Char.isDigit, Bool.and_eq_true, decide_eq_true_eq] at h
  have hl : 48 ≤ c.toNat := h.1
  have hh : c.toNat ≤ 57 := h.2
  simp only [Text.isControl, Bool.or_eq_false_iff, Bool.and_eq_false_iff, decide_eq_false_iff_not]
  omega

theorem utf8Len_digits (n : Nat) : Text.utf8Len (Nat.toDigits 10 n) = (Nat.toDigits 10 n).length := by
  have ho : (Nat.toDigits 10 n).map Char.utf8Size = (Nat.toDigits 10 n).map fun _ => 1 :=
    List.map_congr_left fun c hc =>
      utf8Size_digit (Nat.isDigit_of_mem_toDigits (by decide) (by decide) hc)
  simp [Text.utf8Len, ho]

theorem BaseOk.suffixed (h : BaseOk base) {ordinal : Nat} (hor : ordinal < 100) :
    Hierarchy.validName (suffixed base ordinal) := by
  refine validName_iff.mpr ⟨?_, ?_, ?_⟩
  · have hb := h.nonblank
    simp only [ne_eq, Text.trim_eq_nil_iff] at hb ⊢
    exact fun ha => hb fun c hc => ha c (by simp [Hierarchy.suffixed, hc])
  · have hd := (Nat.length_toDigits_le_iff (b := 10) (n := ordinal) (k := 2)
      (by decide) (by decide)).mpr hor
    have hr := h.room
    simp only [Hierarchy.suffixed, Text.utf8Len_append, utf8Len_digits, Text.utf8Len_cons, Text.utf8Len_nil]
    have hs : Char.utf8Size ' ' = 1 := by decide
    have ho : Char.utf8Size '(' = 1 := by decide
    have hcl : Char.utf8Size ')' = 1 := by decide
    omega
  · intro c hc
    simp only [Hierarchy.suffixed, List.mem_append, List.mem_cons, List.not_mem_nil, or_false] at hc
    rcases hc with ((hc | rfl | rfl) | hc) | rfl
    · exact h.plain c hc
    · decide
    · decide
    · exact isControl_digit (Nat.isDigit_of_mem_toDigits (by decide) (by decide) hc)
    · decide

/-- The names the search tries, in order. -/
def candidate (base : Text) : Nat → Text
  | 0 => base
  | i + 1 => suffixed base (i + 2)

theorem candidate_injective (base : Text) : Function.Injective (candidate base) := by
  have hl : ∀ i, (suffixed base i).length ≠ base.length := fun i => by simp [suffixed]
  rintro (_ | i) (_ | j) h
  · rfl
  · exact absurd (congrArg List.length h).symm (hl _)
  · exact absurd (congrArg List.length h) (hl _)
  have hd : Nat.toDigits 10 (i + 2) = Nat.toDigits 10 (j + 2) := by
    simpa [candidate, suffixed] using h
  have := congrArg (fun l => Nat.ofDigitChars 10 l 0) hd
  simp only [Nat.ofDigitChars_toDigits (by decide : 1 < 10) (by decide : 10 ≤ 10)] at this
  omega

theorem freeName_eq (base : Text) (occupied : List Text) (fuel i : Nat) :
    ∃ j, i ≤ j ∧ j ≤ i + fuel ∧ freeName base occupied fuel (i + 2) (candidate base i) = candidate base j ∧
      (∀ k, i ≤ k → k < j → candidate base k ∈ occupied) ∧
      (candidate base j ∉ occupied ∨ j = i + fuel) := by
  induction fuel generalizing i with
  | zero => exact ⟨i, le_rfl, le_rfl, rfl, fun k h₁ h₂ => by omega, .inr rfl⟩
  | succ fuel ih =>
    by_cases ho : candidate base i ∈ occupied
    · obtain ⟨j, hi, hjf, he, ha, hend⟩ := ih (i + 1)
      refine ⟨j, by omega, by omega, ?_, fun k h₁ h₂ => ?_, hend.imp_right (by omega)⟩
      · rw [freeName, if_pos (by simpa using ho)]
        exact he
      · rcases Nat.eq_or_lt_of_le h₁ with rfl | h₁
        · exact ho
        · exact ha k h₁ h₂
    · exact ⟨i, le_rfl, by omega, by simp [freeName, ho], fun k h₁ h₂ => by omega, .inl ho⟩

theorem freeName_not_mem (base : Text) (occupied : List Text) :
    freeName base occupied occupied.length 2 base ∉ occupied := by
  obtain ⟨j, -, hj, he, ha, hend⟩ := freeName_eq base occupied occupied.length 0
  rw [show freeName base occupied occupied.length 2 base = candidate base j from he]
  rcases hend with hf | hl
  · exact hf
  intro ho
  have hs : (List.range (j + 1)).map (candidate base) ⊆ occupied := by
    intro name hna
    obtain ⟨k, hk, rfl⟩ := List.mem_map.mp hna
    rcases Nat.lt_succ_iff_lt_or_eq.mp (List.mem_range.mp hk) with hk | rfl
    · exact ha k (Nat.zero_le k) hk
    · exact ho
  have hno := (List.nodup_range (n := j + 1)).map (candidate_injective base)
  have := (hno.subperm hs).length_le
  simp only [List.length_map, List.length_range] at this
  omega

variable {occupied : List Text}

theorem BaseOk.freeName (h : BaseOk base) (ho : occupied.length ≤ 98) :
    Hierarchy.validName (freeName base occupied occupied.length 2 base) := by
  obtain ⟨j, -, hj, he, -, -⟩ := freeName_eq base occupied occupied.length 0
  rw [show Hierarchy.freeName base occupied occupied.length 2 base = candidate base j from he]
  cases j with
  | zero => exact h.validName
  | succ j => exact h.suffixed (by omega)

/-! ### The two passes -/

namespace Workspace

/-- The Workspace without what naming may change. -/
def anonymous (w : Workspace) : Workspace := { w with name := [], nameVersion := 0 }

end Workspace

def namingOf (names : List WorkspaceName) (w : Workspace) : Option WorkspaceName :=
  names.find? (·.workspace == w.id)

def Ready (names : List WorkspaceName) (w : Workspace) : Prop :=
  ∃ n, namingOf names w = some n ∧ (∀ custom ∈ n.custom, validName custom) ∧
    (n.custom = none → n.automaticBase ≠ [] → validName w.name)

def automatic (names : List WorkspaceName) (w : Workspace) : Bool :=
  (namingOf names w).any (·.custom.isNone)

/-- A Workspace between the passes: it has its name, or a base to allocate one from. -/
def NamingOk (named : Naming) : Prop :=
  match named.2 with
  | none => validName named.1.name
  | some base => BaseOk base

variable {names : List WorkspaceName}

theorem reserveName_spec (home : Option PathBuf) (occupied : List Text) {w : Workspace} (h : Ready names w) :
    NamingOk (reserveName home names occupied w).1 ∧
      (reserveName home names occupied w).1.1.anonymous = w.anonymous ∧
      (reserveName home names occupied w).2.length + ((reserveName home names occupied w).1.2.isSome).toNat ≤
        occupied.length + (automatic names w).toNat := by
  obtain ⟨n, hn, hcu, hkep⟩ := h
  have hb := w.automaticBase_ok home
  have ha : automatic names w = n.custom.isNone := by simp [automatic, hn]
  unfold namingOf at hn
  simp only [reserveName, hn, ha]
  cases hc : n.custom with
  | some custom => exact ⟨hcu custom (by simp [hc]), rfl, by simp⟩
  | none =>
    dsimp only
    split
    · rename_i hke
      simp only [Bool.and_eq_true, beq_iff_eq] at hke
      refine ⟨hkep hc ?_, rfl, by simp⟩
      rw [hke.1]
      rintro hni
      exact hb.nonblank (by rw [hni]; rfl)
    · exact ⟨hb, rfl, by simp⟩

theorem reserveNames_spec (home : Option PathBuf) (occupied : List Text)
    {ws : List Workspace} (h : ∀ w ∈ ws, Ready names w) :
    (∀ named ∈ (reserveNames home names occupied ws).1, NamingOk named) ∧
      (reserveNames home names occupied ws).1.map (·.1.anonymous) = ws.map (·.anonymous) ∧
      (reserveNames home names occupied ws).2.length +
          (reserveNames home names occupied ws).1.countP (·.2.isSome) ≤
        occupied.length + ws.countP (automatic names) := by
  induction ws generalizing occupied with
  | nil => simp [reserveNames]
  | cons w ws ih =>
    obtain ⟨ho, ha, hl⟩ := reserveName_spec home occupied (h w (by simp))
    obtain ⟨hok, han, hle⟩ :=
      ih (reserveName home names occupied w).2 fun v hv => h v (by simp [hv])
    simp only [reserveNames]
    refine ⟨List.forall_mem_cons.mpr ⟨ho, hok⟩, by simp [ha, han], ?_⟩
    simp only [List.countP_cons]
    cases hs : (reserveName home names occupied w).1.2.isSome <;>
      cases hau : automatic names w <;> simp [hs, hau] at hl ⊢ <;> omega

theorem allocateName_spec {named : Naming} (h : NamingOk named) (hnam : (namingOf names named.1).isSome)
    (ho : occupied.length + named.2.isSome.toNat ≤ 99) :
    validName (allocateName occupied names named).1.name ∧
      (allocateName occupied names named).1.anonymous = named.1.anonymous ∧
      (allocateName occupied names named).2.1.length = occupied.length + named.2.isSome.toNat ∧
      (allocateName occupied names named).2.2.map (fun n => (n.workspace, n.custom)) =
        names.map fun n => (n.workspace, n.custom) := by
  obtain ⟨w, _ | base⟩ := named
  · exact ⟨h, rfl, rfl, rfl⟩
  obtain ⟨n, hn⟩ := Option.isSome_iff_exists.mp hnam
  unfold namingOf at hn
  have hna := BaseOk.freeName h (Nat.le_of_lt_succ ho)
  simp only [allocateName, hn]
  refine ⟨?_, ?_, rfl, map_modifyFirst fun _ _ => rfl⟩
  · split
    · rename_i hs
      rwa [beq_iff_eq.mp hs]
    · exact hna
  · split <;> rfl

theorem namingOf_isSome_congr {names names' : List WorkspaceName}
    (h : names'.map (fun n => (n.workspace, n.custom)) = names.map fun n => (n.workspace, n.custom))
    (w : Workspace) : (namingOf names' w).isSome = (namingOf names w).isSome := by
  have hi : names'.map (·.workspace) = names.map (·.workspace) := by
    simpa [Function.comp_def] using congrArg (List.map Prod.fst) h
  have ha : ∀ ns : List WorkspaceName, (namingOf ns w).isSome = (ns.map (·.workspace)).any (· == w.id) := by
    intro ns
    rw [Bool.eq_iff_iff, namingOf, List.find?_isSome]
    simp
  rw [ha, ha, hi]

theorem allocateNames_spec {named : List Naming}
    (h : ∀ x ∈ named, NamingOk x) (hnam : ∀ x ∈ named, (namingOf names x.1).isSome)
    (ho : occupied.length + named.countP (·.2.isSome) ≤ 99) :
    (∀ w ∈ (allocateNames occupied names named).1, validName w.name) ∧
      (allocateNames occupied names named).1.map (·.anonymous) = named.map (·.1.anonymous) ∧
      (allocateNames occupied names named).2.map (fun n => (n.workspace, n.custom)) =
        names.map fun n => (n.workspace, n.custom) := by
  induction named generalizing occupied names with
  | nil => simp [allocateNames]
  | cons x rest ih =>
    simp only [List.countP_cons] at ho
    have hno : occupied.length + x.2.isSome.toNat ≤ 99 := by
      cases hx : x.2.isSome <;> simp [hx] at ho ⊢ <;> omega
    obtain ⟨hna, ha, hl, hnames⟩ :=
      allocateName_spec (h x (by simp)) (hnam x (by simp)) hno
    have hnam' : ∀ y ∈ rest, (namingOf (allocateName occupied names x).2.2 y.1).isSome :=
      fun y hy => by rw [namingOf_isSome_congr hnames]; exact hnam y (by simp [hy])
    have ho' : (allocateName occupied names x).2.1.length + rest.countP (·.2.isSome) ≤ 99 := by
      cases hx : x.2.isSome <;> simp [hx] at ho hl ⊢ <;> omega
    obtain ⟨hnames', han, hrest⟩ := ih (fun y hy => h y (by simp [hy])) hnam' ho'
    simp only [allocateNames]
    exact ⟨List.forall_mem_cons.mpr ⟨hna, hnames'⟩, by simp [ha, han], hrest.trans hnames⟩

/-- Naming gives every Workspace a valid name and changes nothing else of it, nor the names its
clients chose. -/
theorem State.recalculateNames_spec {s : State} (h : ∀ w ∈ s.inventory.workspaces, Ready s.names w)
    (hc : (s.names.filterMap (·.custom)).length + s.inventory.workspaces.countP (automatic s.names) ≤ 99) :
    (∀ w ∈ s.recalculateNames.inventory.workspaces, validName w.name) ∧
      s.recalculateNames.inventory.workspaces.map (·.anonymous) = s.inventory.workspaces.map (·.anonymous) ∧
      s.recalculateNames.names.map (fun n => (n.workspace, n.custom)) =
        s.names.map fun n => (n.workspace, n.custom) := by
  obtain ⟨ho, ha, hl⟩ :=
    reserveNames_spec s.homeDirectory (s.names.filterMap (·.custom)) h
  set reserved := reserveNames s.homeDirectory s.names (s.names.filterMap (·.custom))
    s.inventory.workspaces with hr
  have hna : ∀ x ∈ reserved.1, (namingOf s.names x.1).isSome := by
    intro x hx
    have hmem : x.1.anonymous ∈ s.inventory.workspaces.map (·.anonymous) :=
      ha ▸ List.mem_map_of_mem (f := fun y : Naming => y.1.anonymous) hx
    obtain ⟨w, hw, hs⟩ := List.mem_map.mp hmem
    obtain ⟨n, hn, -⟩ := h w hw
    have hi : x.1.id = w.id := (congrArg Workspace.id hs).symm
    rw [show namingOf s.names x.1 = namingOf s.names w by simp only [namingOf, hi], hn]
    rfl
  obtain ⟨hnames, ha', hcu⟩ := allocateNames_spec ho hna (hl.trans hc)
  exact ⟨hnames, ha'.trans ha, hcu⟩

end SpaceTerm.Hierarchy
