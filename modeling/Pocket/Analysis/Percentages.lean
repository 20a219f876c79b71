import Mathlib.Tactic.LinearCombination
import Pocket.Library.NearestEven
import Pocket.Utility.BlockLifecycle

/-!
# Percentages computed with floats

A percentage of an amount is computed with floats whose precision is the length of the amount, and 64 bits
at least: the product is rounded, and then the quotient by 100.  Both steps are exact or harmless as long
as the product has no more than 64 bits.  For larger amounts the product is moved to a multiple of a power of
two, by `displacement`, and the quotient may be rounded over the next integer, or short of it.
`ShareExact` says for which amounts and percentages the result is the integer formula.
-/

set_option autoImplicit false

namespace Pocket.Utility

open NearestEven

/-! ## Rounding -/

theorem nearest_roundHalfEven (n : ℕ) {d : ℕ} (hd : 0 < d) : Nearest n d (roundHalfEven n d) := by
  have hdiv := Nat.div_add_mod n d
  have hmod := Nat.mod_lt n hd
  unfold roundHalfEven
  simp only
  generalize n / d = q at *
  generalize n % d = r at *
  have hlow : 2 * q * d = 2 * (d * q) := by ring
  have hmiddle : (2 * q + 1) * d = 2 * (d * q) + d := by ring
  have hhigh : 2 * (q + 1) * d = 2 * (d * q) + 2 * d := by ring
  have hhigher : (2 * (q + 1) + 1) * d = 2 * (d * q) + 3 * d := by ring
  split_ifs with hside
  · constructor <;> omega
  · constructor <;> omega

theorem bitLen_le_iff {n k : ℕ} : bitLen n ≤ k ↔ n < 2 ^ k := by
  unfold bitLen
  split_ifs with hn
  · simp [hn]
  · exact Nat.log2_lt hn

/-- Up to `2 ^ 53` a `float64` is exact. -/
theorem float64_eq_self {n : ℕ} (hn : n ≤ 2 ^ 53) : float64 n = n := by
  rcases hn.lt_or_eq with hlt | rfl
  · have hlen : bitLen n - 53 = 0 := Nat.sub_eq_zero_of_le (bitLen_le_iff.2 hlt)
    rw [float64, hlen, roundHalfEven]
    simp [Nat.mod_one]
  · decide

theorem bitLen_mono {n n' : ℕ} (h : n ≤ n') : bitLen n ≤ bitLen n' :=
  bitLen_le_iff.mpr (h.trans_lt (bitLen_le_iff.mp le_rfl))

variable {p f prec : ℕ}

theorem bitLen_mul_le (f : ℕ) (hp : p ≤ 100) : bitLen (f * p) ≤ bitLen f + 7 := by
  rw [bitLen_le_iff, pow_add]
  have hf : f < 2 ^ bitLen f := bitLen_le_iff.mp le_rfl
  nlinarith

theorem roundToPrec_one {n : ℕ} (hn : n ≠ 0) :
    ∃ c, 0 < c ∧ roundToPrec prec n 1
      = (roundHalfEven n (2 ^ (bitLen n - prec)) * 2 ^ (bitLen n - prec) * c, c) := by
  have hlog : (1 : ℕ).log2 = 0 := rfl
  have hlen : bitLen n = n.log2 + 1 := if_neg hn
  have hself : 1 * 2 ^ n.log2 ≤ n * 2 ^ 0 := by simpa using Nat.log2_self_le hn
  unfold roundToPrec
  simp only [if_neg hn, hlog, if_pos hself, hlen]
  by_cases hfits : n.log2 + 1 ≤ prec
  · have hshift : (0 : ℤ) ≤ prec - 1 - ((n.log2 : ℤ) - (0 : ℕ)) := by omega
    have hexcess : n.log2 + 1 - prec = 0 := by omega
    rw [if_pos hshift, hexcess]
    refine ⟨2 ^ ((prec : ℤ) - 1 - ((n.log2 : ℤ) - (0 : ℕ))).toNat, Nat.two_pow_pos _, ?_⟩
    rw [nearest_one (nearest_roundHalfEven _ Nat.one_pos), pow_zero,
      nearest_one (nearest_roundHalfEven _ Nat.one_pos), mul_one]
  · have hshift : ¬ (0 : ℤ) ≤ prec - 1 - ((n.log2 : ℤ) - (0 : ℕ)) := by omega
    have hexcess : (-((prec : ℤ) - 1 - ((n.log2 : ℤ) - (0 : ℕ)))).toNat = n.log2 + 1 - prec := by omega
    rw [if_neg hshift, hexcess]
    exact ⟨1, Nat.one_pos, by rw [one_mul, mul_one]⟩

theorem msb_of_le {n d : ℕ} (hd : 0 < d) (hle : d ≤ n) :
    (if d * 2 ^ n.log2 ≤ n * 2 ^ d.log2 then (n.log2 : ℤ) - d.log2
      else (n.log2 : ℤ) - d.log2 - 1) = (n / d).log2 := by
  have hn : n ≠ 0 := by omega
  have hlog : d.log2 ≤ n.log2 := by
    rw [Nat.le_log2 hn]
    exact (Nat.log2_self_le hd.ne').trans hle
  rw [log2_div hd.ne' hle]
  split_ifs with hside
  · omega
  · have hlt : d.log2 < n.log2 := by
      refine hlog.lt_of_ne fun heq => hside ?_
      rw [← heq]
      exact Nat.mul_le_mul_right _ hle
    omega

theorem roundToPrec_of_le {n d : ℕ} (hd : 0 < d) (hle : d ≤ n) (hfits : bitLen (n / d) ≤ prec) :
    roundToPrec prec n d = (roundHalfEven (n * 2 ^ (prec - bitLen (n / d))) d,
      2 ^ (prec - bitLen (n / d))) := by
  have hn : n ≠ 0 := by omega
  have hlen : bitLen (n / d) = (n / d).log2 + 1 := if_neg (Nat.div_pos hle hd).ne'
  have hshift : (0 : ℤ) ≤ prec - 1 - (n / d).log2 := by omega
  have htoNat : ((prec : ℤ) - 1 - (n / d).log2).toNat = prec - bitLen (n / d) := by omega
  unfold roundToPrec
  simp only [if_neg hn, msb_of_le hd hle, if_pos hshift, htoNat]

theorem roundToPrec_of_pow {n d : ℕ} (hd : 0 < d) (hpow : n / d = 2 ^ prec) :
    roundToPrec prec n d = (roundHalfEven n (d * 2) * 2, 1) := by
  have hle : d ≤ n := by
    by_contra hlt
    rw [Nat.div_eq_of_lt (by omega)] at hpow
    exact absurd hpow (Nat.two_pow_pos prec).ne
  have hn : n ≠ 0 := by omega
  have hshift : ¬ (0 : ℤ) ≤ prec - 1 - (n / d).log2 := by
    rw [hpow, Nat.log2_two_pow]
    omega
  have htoNat : (-((prec : ℤ) - 1 - (n / d).log2)).toNat = 1 := by
    rw [hpow, Nat.log2_two_pow]
    omega
  unfold roundToPrec
  simp only [if_neg hn, msb_of_le hd hle, if_neg hshift, htoNat, pow_one]

theorem roundToPrec_of_lt {n d : ℕ} (hn : n ≠ 0) (hlt : n < d) :
    ∃ s, prec ≤ s ∧ roundToPrec prec n d = (roundHalfEven (n * 2 ^ s) d, 2 ^ s) := by
  have hd : d ≠ 0 := by omega
  have hle : n.log2 ≤ d.log2 := by
    rw [Nat.le_log2 hd]
    exact (Nat.log2_self_le hn).trans hlt.le
  obtain ⟨msb, hmsb, hneg⟩ : ∃ msb : ℤ, (if d * 2 ^ n.log2 ≤ n * 2 ^ d.log2
      then (n.log2 : ℤ) - d.log2 else (n.log2 : ℤ) - d.log2 - 1) = msb ∧ msb < 0 := by
    refine ⟨_, rfl, ?_⟩
    split_ifs with hside
    · have hne : n.log2 ≠ d.log2 := by
        intro heq
        rw [heq] at hside
        exact absurd (Nat.le_of_mul_le_mul_right hside (Nat.two_pow_pos _)) (by omega)
      omega
    · omega
  have hshift : (0 : ℤ) ≤ prec - 1 - msb := by omega
  refine ⟨((prec : ℤ) - 1 - msb).toNat, by omega, ?_⟩
  unfold roundToPrec
  simp only [if_neg hn, hmsb, if_pos hshift]

theorem roundHalfEven_mul_mul {n d c : ℕ} (hc : 0 < c) :
    roundHalfEven (n * c) (d * c) = roundHalfEven n d := by
  unfold roundHalfEven
  simp only [Nat.mul_div_mul_right _ _ hc, Nat.mul_mod_mul_right, ← Nat.mul_assoc,
    Nat.mul_lt_mul_right hc, Nat.mul_left_inj hc.ne']

/-! ## Shares -/

/-- The precision that `SetInt` gives. -/
def precision (f : ℕ) : ℕ := max 64 (bitLen f)

/-- The bits that a product has more than the precision. -/
def excess (f p : ℕ) : ℕ := bitLen (f * p) - precision f

/-- The product as it is rounded. -/
def roundedProduct (f p : ℕ) : ℕ := roundHalfEven (f * p) (2 ^ excess f p) * 2 ^ excess f p

/-- The quotient as it is rounded, without its fraction. -/
def floatShare (f p : ℕ) : ℕ :=
  let product := roundToPrec (precision f) (f * p) 1
  let quotient := roundToPrec (precision f) product.1 (product.2 * 100)
  quotient.1 / quotient.2

theorem percentageOf_natCast (f : ℕ) (hp : p ≤ 100) : percentageOf f p = floatShare f p := by
  unfold percentageOf floatShare precision
  rw [Int.natAbs_natCast p, float64_eq_self (by omega)]
  rcases Nat.eq_zero_or_pos f with rfl | hf
  · simp [roundToPrec]
  · rcases Nat.eq_zero_or_pos p with rfl | hp
    · simp [roundToPrec]
    · rw [Int.sign_natCast_of_ne_zero hf.ne', Int.sign_natCast_of_ne_zero hp.ne']
      simp

theorem exists_floatShare (h : f * p ≠ 0) : ∃ c, 0 < c ∧
    roundedProduct f p * c / (c * 100) = roundedProduct f p / 100 ∧
    floatShare f p = (roundToPrec (precision f) (roundedProduct f p * c) (c * 100)).1
      / (roundToPrec (precision f) (roundedProduct f p * c) (c * 100)).2 := by
  obtain ⟨c, hc, hround⟩ := @roundToPrec_one (precision f) (f * p) h
  refine ⟨c, hc, ?_, ?_⟩
  · rw [Nat.mul_comm c 100, Nat.mul_div_mul_right _ _ hc]
  · have hround' : roundToPrec (precision f) (f * p) 1 = (roundedProduct f p * c, c) := hround
    simp only [floatShare, hround']

theorem floatShare_of_le (hle : 100 ≤ roundedProduct f p)
    (hfits : bitLen (roundedProduct f p / 100) ≤ precision f) :
    let k := precision f - bitLen (roundedProduct f p / 100)
    floatShare f p = roundHalfEven (roundedProduct f p * 2 ^ k) 100 / 2 ^ k := by
  intro k
  have hproduct : f * p ≠ 0 := by
    intro hzero
    simp [roundedProduct, hzero, roundHalfEven] at hle
  obtain ⟨c, hc, hquot, hshare⟩ := exists_floatShare hproduct
  have hone : c * 100 ≤ roundedProduct f p * c := by
    rw [Nat.mul_comm]
    exact Nat.mul_le_mul_right c hle
  have hscaled : roundHalfEven (roundedProduct f p * c * 2 ^ k) (c * 100)
      = roundHalfEven (roundedProduct f p * 2 ^ k) 100 := by
    rw [Nat.mul_right_comm, Nat.mul_comm c 100, roundHalfEven_mul_mul hc]
  rw [hshare, roundToPrec_of_le (Nat.mul_pos hc (by decide)) hone (by rw [hquot]; exact hfits), hquot]
  exact congrArg (· / 2 ^ k) hscaled

/-- What must be added to the product to reach the nearest multiple of `2 ^ excess f p`, and the even
multiple of two that are as near. -/
def displacement (f p : ℕ) : ℤ :=
  let unit := 2 ^ excess f p
  let rest := f * p % unit
  if 2 * rest < unit ∨ 2 * rest = unit ∧ f * p / unit % 2 = 0 then -rest else unit - rest

/-- With `q` and `r` the quotient and the remainder of the product by 100, and `k` the bits that the
precision leaves for a fraction of `q`: `r` with the displacement is not so low that the quotient is rounded
short of `q`, and not so high that it is rounded to `q + 1`. -/
def ShareExact (f p : ℕ) : Prop :=
  let q := f * p / 100
  let scale : ℕ := 2 ^ (precision f - bitLen q)
  let rest : ℤ := f * p % 100 + displacement f p
  (-50 < scale * rest ∨ scale * rest = -50 ∧ scale * q % 2 = 0) ∧
    (scale * rest < 100 * scale - 50 ∨
      scale * rest = 100 * scale - 50 ∧ scale * (q + 1) % 2 = 1)

instance (f p : ℕ) : Decidable (ShareExact f p) :=
  inferInstanceAs (Decidable ((_ ∨ _) ∧ (_ ∨ _)))

theorem roundedProduct_eq (f p : ℕ) :
    (roundedProduct f p : ℤ) = f * p + displacement f p := by
  have hdiv := congrArg (Nat.cast : ℕ → ℤ) (Nat.div_add_mod (f * p) (2 ^ excess f p))
  unfold roundedProduct displacement roundHalfEven
  simp only
  push_cast at hdiv ⊢
  split_ifs
  · linarith
  · linarith

theorem nearest_product (f p : ℕ) :
    Nearest (f * p) (2 ^ excess f p) (roundHalfEven (f * p) (2 ^ excess f p)) :=
  nearest_roundHalfEven _ (Nat.two_pow_pos _)

theorem excess_le (hp : p ≤ 100) : excess f p ≤ 7 := by
  have hlen := bitLen_mul_le f hp
  unfold excess precision
  omega

theorem roundedProduct_near (hp : p ≤ 100) :
    f * p ≤ roundedProduct f p + 64 ∧ roundedProduct f p ≤ f * p + 64 := by
  obtain ⟨hbelow, habove⟩ := (nearest_product f p).dist_le
  have hunit : 2 ^ excess f p ≤ 2 ^ 7 := Nat.pow_le_pow_right (by decide) (excess_le hp)
  unfold roundedProduct
  omega

theorem roundedProduct_of_excess (h : excess f p = 0) : roundedProduct f p = f * p := by
  have hnearest := nearest_product f p
  rw [h, pow_zero] at hnearest
  rw [roundedProduct, h, pow_zero, Nat.mul_one, nearest_one hnearest]

theorem two_pow_le_of_excess (h : excess f p ≠ 0) : 2 ^ 64 ≤ f * p := by
  by_contra hlt
  have hlen : bitLen (f * p) ≤ 64 := bitLen_le_iff.mpr (by omega)
  unfold excess precision at h
  omega

theorem roundedProduct_of_pow {j : ℕ} (hquot : f * p / 100 = 2 ^ j) :
    100 * 2 ^ j ≤ roundedProduct f p := by
  have hle : 100 * 2 ^ j ≤ f * p := by
    rw [← hquot]
    exact Nat.mul_div_le _ _
  have hexcess : excess f p ≤ j := by
    have hlt : f * p < 2 ^ (j + 8) := by
      have hone : 1 ≤ 2 ^ j := Nat.one_le_two_pow
      rw [pow_add]
      omega
    have hlen := bitLen_le_iff.mpr hlt
    unfold excess precision
    omega
  have hmultiple : 100 * 2 ^ (j - excess f p) * 2 ^ excess f p = 100 * 2 ^ j := by
    rw [Nat.mul_assoc, ← pow_add, Nat.sub_add_cancel hexcess]
  rw [roundedProduct, ← hmultiple]
  refine Nat.mul_le_mul_right _ ((nearest_product f p).ge_of_le (Nat.two_pow_pos _) ?_)
  rw [hmultiple]
  exact hle

theorem shareExact_iff {q scale : ℕ} (hq : f * p / 100 = q)
    (hscale : 2 ^ (precision f - bitLen q) = scale) :
    ShareExact f p ↔ roundHalfEven (roundedProduct f p * scale) 100 / scale = q := by
  have hpos : 0 < scale := hscale ▸ Nat.two_pow_pos _
  have hnearest := nearest_roundHalfEven (roundedProduct f p * scale) (d := 100) (by decide)
  obtain ⟨rest, hrest⟩ : ∃ rest : ℤ, rest = scale * ((f : ℤ) * p % 100 + displacement f p) := ⟨_, rfl⟩
  have hproduct : ((roundedProduct f p * scale : ℕ) : ℤ) = 100 * (q * scale : ℕ) + rest := by
    have hdiv := Int.mul_ediv_add_emod ((f : ℤ) * p) 100
    push_cast
    rw [roundedProduct_eq, hrest, ← hq]
    push_cast
    linear_combination (-(scale : ℤ)) * hdiv
  have hcond : ShareExact f p ↔ (-50 < rest ∨ rest = -50 ∧ q * scale % 2 = 0) ∧
      (rest < 100 * scale - 50 ∨ rest = 100 * scale - 50 ∧ (q * scale + scale) % 2 = 1) := by
    rw [hrest, Nat.mul_comm q, ← Nat.mul_succ, ← hscale, ← hq]
    exact Iff.rfl
  rw [hcond, Nat.div_eq_iff hpos, hnearest.ge_iff (by decide), hnearest.le_iff (by decide)]
  omega

/-- INTERNAL: the length of the quotient does not change when the product is moved below a multiple
of 100. -/
theorem bitLen_quotient (hp : p ≤ 100) (hlow : roundedProduct f p < 100 * (f * p / 100)) :
    roundedProduct f p / 100 = f * p / 100 - 1 ∧ bitLen (f * p / 100 - 1) = bitLen (f * p / 100) := by
  obtain ⟨hbelow, -⟩ := roundedProduct_near hp (f := f)
  refine ⟨by omega, ?_⟩
  by_contra hne
  have hlt : bitLen (f * p / 100 - 1) < bitLen (f * p / 100) :=
    lt_of_le_of_ne (bitLen_mono (Nat.sub_le _ _)) hne
  -- only a power of two is longer than the number before it
  obtain ⟨j, hj⟩ : ∃ j, bitLen (f * p / 100) = j + 1 := Nat.exists_eq_succ_of_ne_zero (by omega)
  have habove : f * p / 100 - 1 < 2 ^ j := bitLen_le_iff.mp (by omega)
  have hpow : 2 ^ j ≤ f * p / 100 := by
    by_contra hnot
    have hshort := bitLen_le_iff.mpr (not_le.mp hnot)
    omega
  have hone : 1 ≤ 2 ^ j := Nat.one_le_two_pow
  have hquot : f * p / 100 = 2 ^ j := by omega
  have hstays := roundedProduct_of_pow hquot
  omega

theorem rounds_to_zero {n scale : ℕ} (hn : n < 100) (hscale : 50 < scale) :
    roundHalfEven (n * scale) 100 / scale = 0 := by
  have hnearest := nearest_roundHalfEven (n * scale) (d := 100) (by decide)
  have hle : roundHalfEven (n * scale) 100 ≤ scale - 1 := by
    rw [hnearest.le_iff (by decide)]
    have hprod : n * scale ≤ 99 * scale := Nat.mul_le_mul_right _ (by omega)
    omega
  exact Nat.div_eq_of_lt (by omega)

theorem le_rounds {n v scale : ℕ} (h : 100 * v ≤ n) (hscale : 0 < scale) :
    v ≤ roundHalfEven (n * scale) 100 / scale := by
  rw [Nat.le_div_iff_mul_le hscale]
  refine (nearest_roundHalfEven (n * scale) (d := 100) (by decide)).ge_of_le (by decide) ?_
  calc v * scale * 100 = 100 * v * scale := by ring
    _ ≤ n * scale := Nat.mul_le_mul_right _ h

theorem fifty_lt_two_pow {s : ℕ} (hs : 64 ≤ s) : 50 < 2 ^ s := by
  calc 50 < 2 ^ 64 := by decide
    _ ≤ 2 ^ s := Nat.pow_le_pow_right (by decide) hs

theorem roundedProduct_of_small (h : f * p < 100) : roundedProduct f p = f * p := by
  refine roundedProduct_of_excess ?_
  have hlen : bitLen (f * p) ≤ 7 := bitLen_le_iff.mpr (by omega)
  unfold excess precision
  omega

theorem floatShare_of_small (h : f * p < 100) : floatShare f p = 0 := by
  rcases Nat.eq_zero_or_pos (f * p) with hzero | hpos
  · simp [floatShare, hzero, roundToPrec]
  · obtain ⟨c, hc, -, hshare⟩ := exists_floatShare hpos.ne'
    rw [roundedProduct_of_small h] at hshare
    obtain ⟨s, hs, hquot⟩ := @roundToPrec_of_lt (precision f) (f * p * c) (c * 100)
      (Nat.mul_pos hpos hc).ne' (by rw [Nat.mul_comm c]; exact Nat.mul_lt_mul_of_pos_right h hc)
    rw [hshare, hquot, Nat.mul_right_comm, Nat.mul_comm c 100, roundHalfEven_mul_mul hc]
    exact rounds_to_zero h (fifty_lt_two_pow ((le_max_left _ _).trans hs))

theorem lt_floatShare (hp : p ≤ 100) (hhigh : 100 * (f * p / 100 + 1) ≤ roundedProduct f p) :
    f * p / 100 < floatShare f p := by
  have hquot : f * p / 100 + 1 ≤ roundedProduct f p / 100 := by omega
  by_cases hfits : bitLen (roundedProduct f p / 100) ≤ precision f
  · rw [floatShare_of_le (by omega) hfits]
    exact le_rounds (by omega) (Nat.two_pow_pos _)
  · -- the quotient is the power of two above the precision
    have hlarge : 2 ^ precision f ≤ roundedProduct f p / 100 := by
      rw [bitLen_le_iff] at hfits
      omega
    have hamount : f * p / 100 < 2 ^ precision f := by
      have hle : f * p / 100 ≤ f := Nat.div_le_of_le_mul (by nlinarith)
      exact hle.trans_lt (bitLen_le_iff.mp (le_max_right _ _))
    have habove := (roundedProduct_near hp (f := f)).2
    have hpow : roundedProduct f p / 100 = 2 ^ precision f := by omega
    have hproduct : f * p ≠ 0 := by
      intro hzero
      simp [roundedProduct, hzero, roundHalfEven] at hhigh
    obtain ⟨c, hc, hquot', hshare⟩ := exists_floatShare hproduct
    rw [hpow] at hquot'
    rw [hshare, roundToPrec_of_pow (Nat.mul_pos hc (by decide)) hquot', Nat.div_one,
      Nat.mul_assoc, Nat.mul_comm c, roundHalfEven_mul_mul hc]
    have hhalf := (nearest_roundHalfEven (roundedProduct f p) (d := 100 * 2) (by decide)).floor_le
      (by decide)
    have heven : 2 ^ precision f = 2 ^ (precision f - 1) * 2 := by
      rw [← pow_succ, Nat.sub_add_cancel (by unfold precision; omega)]
    omega

/-- **When a percentage is exact.** -/
theorem floatShare_eq_iff (hp : p ≤ 100) : floatShare f p = f * p / 100 ↔ ShareExact f p := by
  obtain ⟨hbelow, -⟩ := roundedProduct_near hp (f := f)
  have hfits : bitLen (f * p / 100) ≤ precision f := by
    have hle : f * p / 100 ≤ f := Nat.div_le_of_le_mul (by nlinarith)
    exact (bitLen_mono hle).trans (le_max_right _ _)
  rw [shareExact_iff rfl rfl]
  rcases lt_or_ge (f * p) 100 with hsmall | hlarge
  · have hzero : f * p / 100 = 0 := Nat.div_eq_of_lt hsmall
    rw [hzero, roundedProduct_of_small hsmall]
    exact iff_of_true (floatShare_of_small hsmall)
      (rounds_to_zero hsmall (fifty_lt_two_pow (le_max_left _ _)))
  · have hhundred : 100 ≤ roundedProduct f p := by
      by_cases hexcess : excess f p = 0
      · rwa [roundedProduct_of_excess hexcess]
      · have hbig := two_pow_le_of_excess hexcess
        omega
    rcases lt_or_ge (roundedProduct f p) (100 * (f * p / 100)) with hlow | hnotlow
    · obtain ⟨hquot, hlen⟩ := bitLen_quotient hp hlow
      rw [floatShare_of_le hhundred (by rw [hquot, hlen]; exact hfits), hquot, hlen]
    · rcases lt_or_ge (roundedProduct f p) (100 * (f * p / 100 + 1)) with hmiddle | hhigh
      · have hquot : roundedProduct f p / 100 = f * p / 100 := by omega
        rw [floatShare_of_le hhundred (by rw [hquot]; exact hfits), hquot]
      · have hbeyond := @le_rounds _ _ (2 ^ (precision f - bitLen (f * p / 100))) hhigh
          (Nat.two_pow_pos _)
        exact iff_of_false (lt_floatShare hp hhigh).ne' (by omega)

theorem percentageOf_eq_iff {x percentage : ℤ} (hx : 0 ≤ x) (hpos : 0 ≤ percentage)
    (hle : percentage ≤ 100) :
    percentageOf x percentage = x * percentage / 100 ↔ ShareExact x.toNat percentage.toNat := by
  obtain ⟨f, rfl⟩ := Int.eq_ofNat_of_zero_le hx
  obtain ⟨p, rfl⟩ := Int.eq_ofNat_of_zero_le hpos
  rw [Int.toNat_natCast, Int.toNat_natCast, ← floatShare_eq_iff (by omega),
    percentageOf_natCast f (by omega)]
  norm_cast

/-- Products of 64 bits are small enough. -/
theorem shareExact_of_lt (h : f * p < 2 ^ 64) : ShareExact f p := by
  have hexcess : excess f p = 0 := by
    have hlen : bitLen (f * p) ≤ 64 := bitLen_le_iff.mpr h
    unfold excess precision
    omega
  have hdisplacement : displacement f p = 0 := by
    simp [displacement, hexcess, Nat.mod_one]
  have hscale : 2 ^ 6 ≤ 2 ^ (precision f - bitLen (f * p / 100)) := by
    have hlen : bitLen (f * p / 100) ≤ 58 := bitLen_le_iff.mpr (by omega)
    refine Nat.pow_le_pow_right (by decide) ?_
    unfold precision
    omega
  unfold ShareExact
  simp only [hdisplacement, add_zero]
  generalize 2 ^ (precision f - bitLen (f * p / 100)) = scale at *
  have hrest : (0 : ℤ) ≤ (f : ℤ) * p % 100 := Int.emod_nonneg _ (by decide)
  have hrest' : (f : ℤ) * p % 100 < 100 := Int.emod_lt_of_pos _ (by decide)
  constructor
  · left
    nlinarith
  · left
    nlinarith

theorem percentageOf_eq {x percentage : ℤ} (hx : 0 ≤ x) (hpos : 0 ≤ percentage)
    (hle : percentage ≤ 100) (hlt : x * percentage < 2 ^ 64) :
    percentageOf x percentage = x * percentage / 100 := by
  rw [percentageOf_eq_iff hx hpos hle]
  refine shareExact_of_lt ?_
  zify
  rwa [Int.toNat_of_nonneg hx, Int.toNat_of_nonneg hpos]

end Pocket.Utility
