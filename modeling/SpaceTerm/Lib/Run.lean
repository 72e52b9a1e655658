import Mathlib.Data.List.Basic
import Mathlib.Order.Basic

/-! # Runs of a labelled transition system

A system is a relation `step : σ → ε → σ → Prop`; a run lists the events it took, oldest first. The
rules below package the induction over a run: an invariant is carried forward by what one step
preserves, and a quantity that no step lowers is not lowered by a run. -/

namespace Lib

variable {σ ε : Type*}

/-- `Run step s es t`: from `s` the system takes the events `es`, in order, and ends in `t`. -/
inductive Run (step : σ → ε → σ → Prop) : σ → List ε → σ → Prop
  | refl (s : σ) : Run step s [] s
  | snoc {s t u : σ} {es : List ε} {e : ε} : Run step s es t → step t e u → Run step s (es ++ [e]) u

namespace Run

variable {step : σ → ε → σ → Prop} {s t u : σ} {es fs : List ε} {e : ε}

theorem single (h : step s e t) : Run step s [e] t :=
  (Run.refl s).snoc h

theorem trans (h₁ : Run step s es t) (h₂ : Run step t fs u) : Run step s (es ++ fs) u := by
  induction h₂ with
  | refl => simpa using h₁
  | snoc _ hl ih => simpa using ih.snoc hl

theorem cons (h : step s e t) (hr : Run step t es u) : Run step s (e :: es) u :=
  (single h).trans hr

theorem mono {step' : σ → ε → σ → Prop} (hr : Run step s es t)
    (h : ∀ {s e t}, step s e t → step' s e t) : Run step' s es t := by
  induction hr with
  | refl => exact .refl _
  | snoc _ hl ih => exact ih.snoc (h hl)

theorem of_foldlM {f : σ → ε → Option σ} {es : List ε} {s t : σ} (h : es.foldlM f s = some t) :
    Run (fun s e t => f s e = some t) s es t := by
  induction es generalizing s with
  | nil =>
    obtain rfl := Option.some.inj h
    exact .refl s
  | cons e es ih =>
    obtain ⟨u, hu, hrest⟩ := Option.bind_eq_some_iff.mp h
    exact cons hu (ih hrest)

theorem invariant {P : σ → Prop} (hr : Run step s es t) (h0 : P s)
    (hs : ∀ {s e t}, P s → step s e t → P t) : P t := by
  induction hr with
  | refl => exact h0
  | snoc _ hl ih => exact hs ih hl

/-- Under an invariant `P`, a relation that every step respects relates the ends of a run. -/
theorem preserves {P : σ → Prop} {R : σ → σ → Prop} (hru : Run step s es t) (h0 : P s)
    (hP : ∀ {s e t}, P s → step s e t → P t) (hr : ∀ s, R s s)
    (hR : ∀ {s t e u}, P t → R s t → step t e u → R s u) : R s t := by
  induction hru with
  | refl => exact hr _
  | snoc hru hl ih => exact hR (hru.invariant h0 hP) ih hl

end Run

end Lib
