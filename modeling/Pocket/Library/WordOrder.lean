import Mathlib.Data.List.Infix
import Mathlib.Data.List.Lex
import Mathlib.Order.Lattice

/-!
# Words in lexicographic order

The words with a given beginning have no gaps (`isPrefix_of_le_of_le`), and words with a common beginning are
in the order of what follows it.
-/

set_option autoImplicit false

namespace WordOrder

section Words

variable {α : Type} [LinearOrder α] {w v v' : List α}

theorem cons_le_cons_iff {a : α} {u : List α} : a :: u ≤ a :: v ↔ u ≤ v := by
  simp [← not_lt]

theorem append_le_append_iff (u : List α) : u ++ v ≤ u ++ v' ↔ v ≤ v' := by
  induction u with
  | nil => rfl
  | cons a u ih => rw [List.cons_append, List.cons_append, cons_le_cons_iff, ih]

theorem append_lt_append_iff (u : List α) : u ++ v < u ++ v' ↔ v < v' := by
  rw [← not_le, append_le_append_iff, not_le]

theorem le_of_isPrefix (h : w <+: v) : w ≤ v := by
  obtain ⟨rest, rfl⟩ := h
  have hle : w ++ [] ≤ w ++ rest := (append_le_append_iff w).2 (not_lt.1 (List.not_lt_nil rest))
  rwa [List.append_nil] at hle

/-- The words that begin with `w` have no gaps, from `w` on. -/
theorem isPrefix_of_le_of_le (hv : w ≤ v) (hle : v ≤ v') (h : w <+: v') : w <+: v := by
  induction w generalizing v v' with
  | nil => exact List.nil_prefix
  | cons a w ih =>
    obtain ⟨rest, rfl⟩ := h
    cases v with
    | nil => exact absurd hv (not_le.2 (List.nil_lt_cons a w))
    | cons b v =>
      have hab : b = a := by
        have hlow : ¬ b < a := fun hlt => absurd hv (not_le.2 (List.cons_lt_cons_iff.2 (.inl hlt)))
        have hhigh : ¬ a < b := fun hlt => absurd hle (not_le.2 (List.cons_lt_cons_iff.2 (.inl hlt)))
        exact le_antisymm (not_lt.1 hhigh) (not_lt.1 hlow)
      subst hab
      rw [List.cons_append, cons_le_cons_iff] at hle
      rw [List.cons_prefix_cons]
      exact ⟨rfl, ih (cons_le_cons_iff.1 hv) hle (List.prefix_append w rest)⟩

end Words

/-! ## Bytes -/

/-- The order of bytes as unsigned numbers. -/
scoped instance byteOrder : LinearOrder UInt8 where
  le_refl := UInt8.le_refl
  le_trans := fun _ _ _ => UInt8.le_trans
  lt_iff_le_not_ge := fun a b => by
    rw [UInt8.lt_iff_toNat_lt, UInt8.le_iff_toNat_le, UInt8.le_iff_toNat_le]
    exact lt_iff_le_not_ge
  le_antisymm := fun _ _ => UInt8.le_antisymm
  le_total := UInt8.le_total
  toDecidableLE := inferInstance
  toDecidableEq := inferInstance
  toDecidableLT := inferInstance

end WordOrder
