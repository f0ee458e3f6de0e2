import Mathlib.Algebra.Ring.Nat
import Mathlib.Data.List.Basic

/-!
# Fixed layouts

Several kinds of values are written as a concatenation of slices without length prefixes. When a
kind fixes the widths of its slices and no two kinds have the same total width, the concatenation
gives back the kind and every slice.
-/

namespace FixedLayouts

/-- A family of encoders into slices whose widths are fixed by the kind of the value. -/
structure Layout (Kind Value α : Type*) where
  kind : Value → Kind
  slices : Value → List (List α)
  widths : Kind → List ℕ
  map_length : ∀ v, (slices v).map List.length = widths (kind v)
  total_injective : Function.Injective fun k => (widths k).sum

namespace Layout

variable {Kind Value α : Type*} (L : Layout Kind Value α) {v w : Value}

def flat (v : Value) : List α := (L.slices v).flatten

theorem length_flat (v : Value) : (L.flat v).length = (L.widths (L.kind v)).sum := by
  rw [flat, List.length_flatten, L.map_length]

theorem kind_eq (h : L.flat v = L.flat w) : L.kind v = L.kind w := by
  have hlength := congrArg List.length h
  rw [L.length_flat, L.length_flat] at hlength
  exact L.total_injective hlength

theorem slices_eq (h : L.flat v = L.flat w) : L.slices v = L.slices w := by
  rw [List.eq_iff_flatten_eq]
  refine ⟨h, ?_⟩
  rw [L.map_length, L.map_length, L.kind_eq h]

/-- Encoders that keep their value apart within a kind keep it apart in the concatenation. -/
theorem flat_injective (hinj : ∀ v w, L.kind v = L.kind w → L.slices v = L.slices w → v = w) :
    Function.Injective L.flat := by
  intro v w h
  exact hinj v w (L.kind_eq h) (L.slices_eq h)

end Layout

end FixedLayouts
