import Mathlib.Data.List.Basic
import Mathlib.Logic.Function.Basic

/-! Digests folded over a string, symbol by symbol. A step that loses neither the state nor
the symbol keeps two strings apart that differ in one place. -/
namespace Morton.Rolling
variable {σ α : Type*}

/-- The step can be undone for a known symbol, and tells symbols apart in a known state. -/
structure Lossless (step : σ → α → σ) : Prop where
  state : ∀ a, Function.Injective fun s => step s a
  symbol : ∀ s, Function.Injective (step s)

namespace Lossless
variable {step : σ → α → σ}

/-- What is read after a difference never hides it. -/
theorem foldl_injective (h : Lossless step) (data : List α) :
    Function.Injective fun s => data.foldl step s := by
  induction data with
  | nil => exact fun s t hst => hst
  | cons a data ih =>
    intro s t hst
    apply h.state a
    exact ih hst

theorem foldl_set_ne (h : Lossless step) {data : List α} {i : Nat} (hi : i < data.length) {a : α}
    (ha : a ≠ data[i]) (s : σ) : (data.set i a).foldl step s ≠ data.foldl step s := by
  induction data generalizing s i with
  | nil => simp at hi
  | cons b data ih =>
    cases i with
    | zero =>
      intro heq
      have hstep : step s a = step s b := h.foldl_injective data heq
      exact ha (h.symbol s hstep)
    | succ i =>
      simp only [List.length_cons, Nat.add_lt_add_iff_right] at hi
      simp only [List.getElem_cons_succ] at ha
      exact ih hi ha (step s b)

end Lossless
end Morton.Rolling
