import Mathlib.Data.List.Basic
import Mathlib.Tactic.Common
import Mathlib.Algebra.GroupWithZero.Nat
import Mathlib.Algebra.Order.BigOperators.Group.List
import Mathlib.Algebra.Order.Group.Nat
import Mathlib.Data.List.TakeWhile

/-! # Texts as lists of Unicode scalar values

A `Text` is a string by its characters, with the byte length its UTF-8 form has. The operations are
those of a systems language's string type: trimming, popping the last character, the lossy reading of
bytes. Trimming and popping only remove characters, so both keep every bound on length and contents
(`utf8Len_le_of_sublist`). -/

namespace Lib

abbrev Text := List Char

namespace Text

/-- The general category `Cc`. -/
def isControl (c : Char) : Bool :=
  c.toNat ≤ 0x1F || (0x7F ≤ c.toNat && c.toNat ≤ 0x9F)

/-- The property `White_Space`. -/
def isWhitespace (c : Char) : Bool :=
  (0x09 ≤ c.toNat && c.toNat ≤ 0x0D) || c.toNat == 0x20 || c.toNat == 0x85 || c.toNat == 0xA0 ||
    c.toNat == 0x1680 || (0x2000 ≤ c.toNat && c.toNat ≤ 0x200A) || c.toNat == 0x2028 ||
    c.toNat == 0x2029 || c.toNat == 0x202F || c.toNat == 0x205F || c.toNat == 0x3000

/-- The number of bytes of the UTF-8 form. -/
def utf8Len (t : Text) : Nat := (t.map Char.utf8Size).sum

def trim (t : Text) : Text :=
  ((t.dropWhile isWhitespace).reverse.dropWhile isWhitespace).reverse

/-- Drops characters off the front of a reversed text while it is longer than `n` bytes. -/
def popReversed (n : Nat) : List Char → List Char
  | [] => []
  | c :: cs => if utf8Len (c :: cs) > n then popReversed n cs else c :: cs

/-- Pops last characters while the text is longer than `n` bytes. -/
def popTo (n : Nat) (t : Text) : Text := (popReversed n t.reverse).reverse

@[simp] theorem utf8Len_nil : utf8Len [] = 0 := rfl

@[simp] theorem utf8Len_cons (c : Char) (t : Text) : utf8Len (c :: t) = c.utf8Size + utf8Len t := by
  simp [utf8Len]

@[simp] theorem utf8Len_append (a b : Text) : utf8Len (a ++ b) = utf8Len a + utf8Len b := by
  simp [utf8Len]

@[simp] theorem utf8Len_reverse (t : Text) : utf8Len t.reverse = utf8Len t := by
  simp [utf8Len, List.sum_reverse]

theorem utf8Len_le_of_sublist {a b : Text} (h : a.Sublist b) : utf8Len a ≤ utf8Len b :=
  (h.map Char.utf8Size).sum_le_sum (fun _ _ => Nat.zero_le _)

theorem trim_sublist (t : Text) : (trim t).Sublist t := by
  have h₁ := (List.dropWhile_sublist isWhitespace (l := (t.dropWhile isWhitespace).reverse)).reverse
  rw [List.reverse_reverse] at h₁
  exact h₁.trans (List.dropWhile_sublist _)

theorem trim_eq_nil_iff (t : Text) : trim t = [] ↔ ∀ c ∈ t, isWhitespace c := by
  simp only [trim, List.reverse_eq_nil_iff, List.dropWhile_eq_nil_iff, List.mem_reverse]
  refine ⟨fun h c hc => ?_, fun h c hc => h c ((List.dropWhile_sublist _).subset hc)⟩
  rw [← List.takeWhile_append_dropWhile (p := isWhitespace) (l := t), List.mem_append] at hc
  rcases hc with hc | hc
  · exact List.mem_takeWhile_imp hc
  · exact h c hc

theorem trim_trim_ne_nil {t : Text} (h : trim t ≠ []) : trim (trim t) ≠ [] := by
  intro hb
  rw [trim_eq_nil_iff] at hb
  have hh := List.dropWhile_get_zero_not isWhitespace (t.dropWhile isWhitespace).reverse
  have hne : (t.dropWhile isWhitespace).reverse.dropWhile isWhitespace ≠ [] := by
    simpa [trim] using h
  exact hh (List.length_pos_iff.mpr hne)
    (hb _ (by rw [trim, List.mem_reverse]; exact List.get_mem _ _))

theorem popReversed_suffix (n : Nat) (t : List Char) : popReversed n t <:+ t := by
  induction t with
  | nil => exact List.suffix_rfl
  | cons c cs ih =>
    unfold popReversed
    split
    · exact ih.trans (List.suffix_cons c cs)
    · exact List.suffix_rfl

theorem utf8Len_popReversed_le (n : Nat) (t : List Char) : utf8Len (popReversed n t) ≤ n := by
  induction t with
  | nil => exact Nat.zero_le n
  | cons c cs ih =>
    unfold popReversed
    split
    · exact ih
    · omega

theorem popTo_sublist (n : Nat) (t : Text) : (popTo n t).Sublist t := by
  simpa [popTo] using (popReversed_suffix n t.reverse).sublist.reverse

theorem utf8Len_popTo_le (n : Nat) (t : Text) : utf8Len (popTo n t) ≤ n := by
  rw [popTo, utf8Len_reverse]
  exact utf8Len_popReversed_le n _

/-! ### Reading bytes -/

private def continuation (b : UInt8) : Bool := 0x80 ≤ b && b ≤ 0xBF

/-- Whether `b₂` may follow `b₁` in a form of three or four bytes. -/
private def secondOk (b₁ b₂ : UInt8) : Bool :=
  if b₁ == 0xE0 then 0xA0 ≤ b₂ && b₂ ≤ 0xBF
  else if b₁ == 0xED then 0x80 ≤ b₂ && b₂ ≤ 0x9F
  else if b₁ == 0xF0 then 0x90 ≤ b₂ && b₂ ≤ 0xBF
  else if b₁ == 0xF4 then 0x80 ≤ b₂ && b₂ ≤ 0x8F
  else continuation b₂

private def bits (b : UInt8) (width : Nat) : Nat := b.toNat % 2 ^ width

/-- The first character of the bytes and the bytes it takes: a well formed character, or U+FFFD for
the longest start of one. -/
def lossyChar (b₁ : UInt8) (rest : List UInt8) : Char × Nat :=
  let bad : Char := Char.ofNat 0xFFFD
  if b₁ < 0x80 then (Char.ofNat b₁.toNat, 1)
  else if 0xC2 ≤ b₁ && b₁ ≤ 0xDF then
    match rest with
    | b₂ :: _ =>
      if continuation b₂ then (Char.ofNat (bits b₁ 5 * 64 + bits b₂ 6), 2) else (bad, 1)
    | [] => (bad, 1)
  else if 0xE0 ≤ b₁ && b₁ ≤ 0xEF then
    match rest with
    | b₂ :: rest₂ =>
      if !secondOk b₁ b₂ then (bad, 1)
      else match rest₂ with
        | b₃ :: _ =>
          if continuation b₃ then
            (Char.ofNat (bits b₁ 4 * 4096 + bits b₂ 6 * 64 + bits b₃ 6), 3)
          else (bad, 2)
        | [] => (bad, 2)
    | [] => (bad, 1)
  else if 0xF0 ≤ b₁ && b₁ ≤ 0xF4 then
    match rest with
    | b₂ :: rest₂ =>
      if !secondOk b₁ b₂ then (bad, 1)
      else match rest₂ with
        | b₃ :: rest₃ =>
          if !continuation b₃ then (bad, 2)
          else match rest₃ with
            | b₄ :: _ =>
              if continuation b₄ then
                (Char.ofNat (bits b₁ 3 * 262144 + bits b₂ 6 * 4096 + bits b₃ 6 * 64 + bits b₄ 6), 4)
              else (bad, 3)
            | [] => (bad, 3)
        | [] => (bad, 2)
    | [] => (bad, 1)
  else (bad, 1)

/-- The characters of `bytes`, with `fuel` at least their number. -/
private def lossyFuel : Nat → List UInt8 → Text
  | 0, _ => []
  | _, [] => []
  | fuel + 1, b :: rest =>
    let (c, taken) := lossyChar b rest
    c :: lossyFuel fuel (rest.drop (taken - 1))

/-- The bytes read as UTF-8, each ill-formed part as U+FFFD. -/
def lossy (bytes : List UInt8) : Text := lossyFuel bytes.length bytes

end Text

end Lib
