import Mathlib.Logic.Basic

/-! # Procedures on a state that may fail

A failure keeps the state it was reached in. `Post m s Q E` says where `m` ends from `s`: with a value
and a state in `Q`, or with an error and a state in `E`. -/

namespace Lib

def Proc (σ ε α : Type) : Type := σ → Except ε α × σ

namespace Proc
variable {σ ε α β : Type}

instance : Monad (Proc σ ε) where
  pure a := fun s => (.ok a, s)
  bind m f := fun s =>
    match m s with
    | (.ok a, t) => f a t
    | (.error e, t) => (.error e, t)

def fail (e : ε) : Proc σ ε α := fun s => (.error e, s)

def read : Proc σ ε σ := fun s => (.ok s, s)

def modify (f : σ → σ) : Proc σ ε Unit := fun s => (.ok (), f s)

/-- Fails with `e` unless `b`. -/
def require (b : Bool) (e : ε) : Proc σ ε Unit := fun s => (if b then .ok () else .error e, s)

def ofOption (x : Option α) (e : ε) : Proc σ ε α := fun s =>
  (match x with | some a => .ok a | none => .error e, s)

/-! Where a procedure succeeds, so do its parts. -/

section Ok
variable {m : Proc σ ε α} {f : α → Proc σ ε β} {s t : σ} {a : α} {b : β} {e : ε}

theorem bind_ok (h : (m >>= f) s = (.ok b, t)) : ∃ a u, m s = (.ok a, u) ∧ f a u = (.ok b, t) := by
  change (match m s with
    | (.ok a, t) => f a t
    | (.error e, t) => (.error e, t)) = _ at h
  split at h
  · rename_i a u he
    exact ⟨a, u, he, h⟩
  · cases h

theorem read_bind_ok {f : σ → Proc σ ε β} (h : (read >>= f) s = (.ok b, t)) : f s s = (.ok b, t) := h

theorem require_bind_ok {c : Bool} {m : Proc σ ε β}
    (h : (require c e >>= fun _ => m) s = (.ok b, t)) : c = true ∧ m s = (.ok b, t) := by
  cases c with
  | false => cases h
  | true => exact ⟨rfl, h⟩

theorem ofOption_bind_ok {x : Option α} (h : (ofOption x e >>= f) s = (.ok b, t)) :
    ∃ a, x = some a ∧ f a s = (.ok b, t) := by
  cases x with
  | none => cases h
  | some a => exact ⟨a, rfl, h⟩

end Ok

def Post (m : Proc σ ε α) (s : σ) (Q : α → σ → Prop) (E : σ → Prop) : Prop :=
  match m s with
  | (.ok a, t) => Q a t
  | (.error _, t) => E t

namespace Post
variable {m : Proc σ ε α} {f : α → Proc σ ε β} {s t : σ} {Q Q' : α → σ → Prop} {R : β → σ → Prop}
  {E E' : σ → Prop}

theorem bind (h : Post m s (fun a t => Post (f a) t R E) E) : Post (m >>= f) s R E := by
  unfold Post at h ⊢
  change match (match m s with
    | (.ok a, t) => f a t
    | (.error e, t) => (.error e, t)) with | (.ok a, t) => R a t | (.error _, t) => E t
  split at h
  · exact h
  · exact h

theorem pure {a : α} (h : Q a s) : Post (Pure.pure a : Proc σ ε α) s Q E := h

theorem fail {e : ε} (h : E s) : Post (Proc.fail e : Proc σ ε α) s Q E := h

theorem read {Q : σ → σ → Prop} (h : Q s s) : Post (Proc.read : Proc σ ε σ) s Q E := h

theorem modify {g : σ → σ} {Q : Unit → σ → Prop} (h : Q () (g s)) : Post (Proc.modify g : Proc σ ε Unit) s Q E := h

theorem require {b : Bool} {e : ε} {Q : Unit → σ → Prop} (h : b = true → Q () s) (hE : E s) :
    Post (Proc.require b e : Proc σ ε Unit) s Q E := by
  unfold Post Proc.require
  cases b with
  | false => exact hE
  | true => exact h rfl

theorem ofOption {x : Option α} {e : ε} (h : ∀ a, x = some a → Q a s) (hE : E s) :
    Post (Proc.ofOption x e : Proc σ ε α) s Q E := by
  unfold Post Proc.ofOption
  cases x with
  | none => exact hE
  | some a => exact h a rfl

theorem mono (h : Post m s Q E) (hQ : ∀ a t, Q a t → Q' a t) (hE : ∀ t, E t → E' t) : Post m s Q' E' := by
  unfold Post at h ⊢
  split at h
  · exact hQ _ _ h
  · exact hE _ h

theorem ok {a : α} (h : Post m s Q E) (hm : m s = (.ok a, t)) : Q a t := by
  unfold Post at h
  rwa [hm] at h

theorem state {P : σ → Prop} (h : Post m s (fun _ t => P t) P) : P (m s).2 := by
  unfold Post at h
  split at h
  · rename_i he
    rwa [he]
  · rename_i he
    rwa [he]

end Post

end Proc

end Lib
