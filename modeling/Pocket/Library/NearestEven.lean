import Mathlib.Algebra.Order.Ring.Nat
import Mathlib.Data.Nat.Log
import Mathlib.Tactic.Linarith
import Mathlib.Tactic.Ring

/-!
# Nearest integers of a fraction, and of two the even one

`Nearest n d m` says that `m` is what `n / d` rounds to.  What matters of it is where it lies to other
integers: `m ≤ M` and `M ≤ m` come down to comparing `n / d` with the midpoints `M + 1/2` and `M - 1/2`,
and at a midpoint to the parity of `M` (`Nearest.le_iff`, `Nearest.ge_iff`).  Everything is over the natural
numbers and multiplied out.
-/

set_option autoImplicit false

namespace NearestEven

structure Nearest (n d m : ℕ) : Prop where
  below : 2 * n ≤ (2 * m + 1) * d
  above : 2 * m * d ≤ 2 * n + d
  evenBelow : 2 * n = (2 * m + 1) * d → m % 2 = 0
  evenAbove : 2 * m * d = 2 * n + d → m % 2 = 0

variable {n d m : ℕ}

namespace Nearest

section

variable (h : Nearest n d m) (hd : 0 < d)
include h hd

theorem le_iff (M : ℕ) : m ≤ M ↔ 2 * n < (2 * M + 1) * d ∨ 2 * n = (2 * M + 1) * d ∧ M % 2 = 0 := by
  constructor
  · intro hle
    rcases hle.lt_or_eq with hlt | rfl
    · left
      calc 2 * n ≤ (2 * m + 1) * d := h.below
        _ < (2 * M + 1) * d := Nat.mul_lt_mul_of_pos_right (by omega) hd
    · rcases h.below.lt_or_eq with hlt | heq
      · exact .inl hlt
      · exact .inr ⟨heq, h.evenBelow heq⟩
  · intro hside
    by_contra hnot
    have hstep : (2 * M + 1) * d + d ≤ 2 * m * d := by
      calc (2 * M + 1) * d + d = 2 * (M + 1) * d := by ring
        _ ≤ 2 * m * d := Nat.mul_le_mul_right d (by omega)
    have habove := h.above
    rcases hside with hlt | ⟨heq, heven⟩
    · omega
    · -- a tie between `M` and `M + 1`
      have htie : 2 * m * d = 2 * n + d := by omega
      have hnext : 2 * m = 2 * (M + 1) := by
        apply Nat.eq_of_mul_eq_mul_right hd
        rw [htie, heq]
        ring
      have hparity := h.evenAbove htie
      omega

theorem ge_iff (M : ℕ) : M ≤ m ↔ 2 * M * d < 2 * n + d ∨ 2 * M * d = 2 * n + d ∧ M % 2 = 0 := by
  cases M with
  | zero => exact iff_of_true (Nat.zero_le m) (.inl (by omega))
  | succ M =>
    -- `M + 1 ≤ m` denies `m ≤ M`
    have hnext : 2 * (M + 1) * d = (2 * M + 1) * d + d := by ring
    rw [← not_lt, Nat.lt_succ_iff, h.le_iff hd, hnext]
    omega

/-- An integer that is not above the fraction is not above what it rounds to. -/
theorem ge_of_le {M : ℕ} (hM : M * d ≤ n) : M ≤ m := by
  rw [h.ge_iff hd]
  left
  nlinarith

theorem floor_le : n / d ≤ m :=
  h.ge_of_le hd (Nat.div_mul_le_self n d)

end

/-- The distance to what a fraction rounds to is half a unit at most. -/
theorem dist_le (h : Nearest n d m) : 2 * n ≤ 2 * (m * d) + d ∧ 2 * (m * d) ≤ 2 * n + d := by
  have hbelow := h.below
  have habove := h.above
  constructor
  · calc 2 * n ≤ (2 * m + 1) * d := hbelow
      _ = 2 * (m * d) + d := by ring
  · calc 2 * (m * d) = 2 * m * d := by ring
      _ ≤ 2 * n + d := habove

end Nearest

/-- An integer is what it rounds to. -/
theorem nearest_one {n m : ℕ} (h : Nearest n 1 m) : m = n := by
  have hbelow := h.below
  have habove := h.above
  omega

/-- The binary logarithm of a quotient that is not zero. -/
theorem log2_div {n d : ℕ} (hd : d ≠ 0) (hle : d ≤ n) :
    (n / d).log2 = if d * 2 ^ n.log2 ≤ n * 2 ^ d.log2 then n.log2 - d.log2
      else n.log2 - d.log2 - 1 := by
  have hn : n ≠ 0 := by omega
  have hpos := Nat.pos_of_ne_zero hd
  have hquot : n / d ≠ 0 := (Nat.div_pos hle hpos).ne'
  obtain ⟨e, he⟩ : ∃ e, n.log2 = d.log2 + e := by
    refine Nat.exists_eq_add_of_le ?_
    rw [Nat.le_log2 hn]
    exact (Nat.log2_self_le hd).trans hle
  have hbelow := Nat.log2_self_le hn
  have habove := @Nat.lt_log2_self n
  rw [he] at hbelow habove ⊢
  have hcancel : d * 2 ^ (d.log2 + e) ≤ n * 2 ^ d.log2 ↔ d * 2 ^ e ≤ n := by
    rw [pow_add, Nat.mul_left_comm, Nat.mul_comm n]
    exact Nat.mul_le_mul_left_iff (Nat.two_pow_pos _)
  rw [Nat.add_sub_cancel_left]
  by_cases hside : d * 2 ^ e ≤ n
  · rw [if_pos (hcancel.mpr hside), Nat.log2_eq_iff hquot, Nat.le_div_iff_mul_le hpos,
      Nat.div_lt_iff_lt_mul hpos]
    refine ⟨by rwa [Nat.mul_comm], ?_⟩
    calc n < 2 ^ (d.log2 + e + 1) := habove
      _ = 2 ^ (e + 1) * 2 ^ d.log2 := by ring
      _ ≤ 2 ^ (e + 1) * d := Nat.mul_le_mul_left _ (Nat.log2_self_le hd)
  · rw [if_neg (mt hcancel.mp hside)]
    cases e with
    | zero => omega
    | succ e =>
      rw [Nat.add_sub_cancel, Nat.log2_eq_iff hquot, Nat.le_div_iff_mul_le hpos,
        Nat.div_lt_iff_lt_mul hpos]
      refine ⟨?_, by rw [Nat.mul_comm]; omega⟩
      calc 2 ^ e * d ≤ 2 ^ e * 2 ^ (d.log2 + 1) := Nat.mul_le_mul_left _ Nat.lt_log2_self.le
        _ = 2 ^ (d.log2 + (e + 1)) := by ring
        _ ≤ n := hbelow

end NearestEven
