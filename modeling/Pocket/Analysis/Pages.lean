import Mathlib.Tactic.Linarith
import Pocket.Rpc.Pages

/-!
# Which pages there are

For a positive number of items on a page, the pages from 1 on are windows of that size, up to the last item,
and each item is in one of them.  The guards of `getPageIndexes` are for zero only: a negative page or a
negative size is refused only where the window would start behind the last item, and a handler then slices
with its indexes.  So it does where the start wraps around (`queryPage_eq_none_iff`).
-/

set_option autoImplicit false

namespace Pocket.Rpc

variable {totalItems page perPage : ℤ} {indexes : PageIndexes}

/-! ## The indexes of a page -/

/-- A page that is not refused starts before the last item, and ends there at the latest. -/
theorem pageIndexesWith_eq_ok_iff {int : ℤ → ℤ} :
    pageIndexesWith int totalItems page perPage = .ok indexes ↔
      totalItems ≠ 0 ∧ perPage ≤ maxPerPage ∧ (page ≠ 0 ∧ perPage ≠ 0) ∧
        int ((page - 1) * perPage) < totalItems ∧
        indexes = ⟨int ((page - 1) * perPage), min (int (page * perPage - 1)) (totalItems - 1),
          ⌈(totalItems : ℚ) / perPage⌉⟩ := by
  unfold pageIndexesWith
  by_cases hnone : totalItems = 0
  · simp [hnone]
  by_cases hmany : perPage > maxPerPage
  · simp [hnone, hmany, hmany.not_ge]
  by_cases hzero : page = 0 ∨ perPage = 0
  · have hnot : ¬ (page ≠ 0 ∧ perPage ≠ 0) := fun h => hzero.elim h.1 h.2
    simp [hnone, hmany, hzero, hnot]
  by_cases hstart : int ((page - 1) * perPage) > totalItems - 1
  · have hnot : ¬ int ((page - 1) * perPage) < totalItems := by omega
    simp [hnone, hmany, hzero, hstart, hnot]
  · have hlast : (if int (page * perPage - 1) ≥ totalItems then totalItems - 1
        else int (page * perPage - 1)) = min (int (page * perPage - 1)) (totalItems - 1) := by
      split <;> omega
    have hbelow : int ((page - 1) * perPage) < totalItems := by omega
    rw [if_neg hnone, if_neg hmany, if_neg hzero]
    simp only [if_neg hstart, hlast, Except.ok.injEq]
    rw [not_or] at hzero
    exact ⟨fun h => ⟨hnone, not_lt.1 hmany, hzero, hbelow, h.symm⟩, fun h => h.2.2.2.2.symm⟩

/-- Without an overflow. -/
theorem getPageIndexes_eq_ok_iff :
    getPageIndexes totalItems page perPage = .ok indexes ↔
      totalItems ≠ 0 ∧ perPage ≤ maxPerPage ∧ (page ≠ 0 ∧ perPage ≠ 0) ∧
        (page - 1) * perPage < totalItems ∧
        indexes = ⟨(page - 1) * perPage, min (page * perPage - 1) (totalItems - 1),
          ⌈(totalItems : ℚ) / perPage⌉⟩ :=
  pageIndexesWith_eq_ok_iff

theorem le_totalPages_iff (hper : 0 < perPage) :
    page ≤ ⌈(totalItems : ℚ) / perPage⌉ ↔ (page - 1) * perPage < totalItems := by
  rw [Int.le_ceil_iff, lt_div_iff₀ (Int.cast_pos.2 hper)]
  exact_mod_cast Iff.rfl

/-- The page is one of the pages, and a window of the items. -/
structure InRange (totalItems page : ℤ) (indexes : PageIndexes) : Prop where
  first : 0 ≤ indexes.startIdx
  ordered : indexes.startIdx ≤ indexes.endIdx
  last : indexes.endIdx < totalItems
  page_pos : 1 ≤ page
  page_le : page ≤ indexes.totalPages

/-- A page that is not refused is in range exactly when it and its size are positive. -/
theorem inRange_iff (htotal : 0 ≤ totalItems)
    (h : getPageIndexes totalItems page perPage = .ok indexes) :
    InRange totalItems page indexes ↔ 0 < page ∧ 0 < perPage := by
  obtain ⟨hnone, -, ⟨-, hzero⟩, hstart, rfl⟩ := getPageIndexes_eq_ok_iff.1 h
  constructor
  · rintro ⟨-, -, -, hpage, hle⟩
    refine ⟨hpage, lt_of_le_of_ne (not_lt.1 fun hneg => ?_) hzero.symm⟩
    -- a negative size leaves no pages
    have hquotient : (totalItems : ℚ) / perPage ≤ 0 :=
      div_nonpos_of_nonneg_of_nonpos (Int.cast_nonneg htotal) (Int.cast_nonpos.2 hneg.le)
    have hceil : ⌈(totalItems : ℚ) / perPage⌉ ≤ 0 :=
      Int.ceil_le.2 (hquotient.trans_eq Int.cast_zero.symm)
    exact absurd (hpage.trans hle) (not_le.2 (hceil.trans_lt Int.one_pos))
  · rintro ⟨hpage, hper⟩
    have hwindow : page * perPage - 1 = (page - 1) * perPage + (perPage - 1) := by ring
    refine ⟨mul_nonneg (by omega) hper.le, ?_, ?_, hpage, (le_totalPages_iff hper).2 hstart⟩
    · show (page - 1) * perPage ≤ min (page * perPage - 1) (totalItems - 1)
      omega
    · show min (page * perPage - 1) (totalItems - 1) < totalItems
      omega

/-! ## The pages of one size -/

section Size

variable (htotal : 0 < totalItems) (hper : 1 ≤ perPage) (hmax : perPage ≤ maxPerPage)
include htotal hper hmax

theorem getPageIndexes_eq_ok (hpage : page ≠ 0) (hstart : (page - 1) * perPage < totalItems) :
    getPageIndexes totalItems page perPage = .ok ⟨(page - 1) * perPage,
      min (page * perPage - 1) (totalItems - 1), ⌈(totalItems : ℚ) / perPage⌉⟩ :=
  getPageIndexes_eq_ok_iff.2 ⟨htotal.ne', hmax, ⟨hpage, by omega⟩, hstart, rfl⟩

/-- An item is on the page of its quotient, and on no other. -/
theorem existsUnique_page {i : ℤ} (hi : 0 ≤ i) (hlt : i < totalItems) :
    ∃! page, 1 ≤ page ∧ ∃ indexes, getPageIndexes totalItems page perPage = .ok indexes ∧
      indexes.startIdx ≤ i ∧ i ≤ indexes.endIdx := by
  have hdiv : ∀ page, page = i / perPage + 1 ↔ (page - 1) * perPage ≤ i ∧ i < page * perPage := by
    intro page
    rw [← Int.le_ediv_iff_mul_le (by omega), ← Int.ediv_lt_iff_lt_mul (by omega)]
    omega
  have hquotient : 0 ≤ i / perPage := Int.ediv_nonneg hi (by omega)
  refine ⟨i / perPage + 1, ⟨by omega, ?_⟩, ?_⟩
  · obtain ⟨hlow, hhigh⟩ := (hdiv _).1 rfl
    refine ⟨_, getPageIndexes_eq_ok htotal hper hmax (by omega) (hlow.trans_lt hlt), hlow, ?_⟩
    exact le_min (Int.le_sub_one_of_lt hhigh) (Int.le_sub_one_of_lt hlt)
  · rintro page ⟨-, indexes, h, hlow, hhigh⟩
    obtain ⟨-, -, -, -, rfl⟩ := getPageIndexes_eq_ok_iff.1 h
    exact (hdiv page).2 ⟨hlow, Int.lt_of_le_sub_one (hhigh.trans (min_le_left _ _))⟩

/-- Behind the last page only the number of the page decides. -/
theorem refused_iff (hpage : page < 1 ∨ ⌈(totalItems : ℚ) / perPage⌉ < page) :
    (∃ err, getPageIndexes totalItems page perPage = .error err) ↔ 0 ≤ page := by
  constructor
  · rintro ⟨err, h⟩
    by_contra hneg
    have hbelow : (page - 1) * perPage ≤ 0 := mul_nonpos_of_nonpos_of_nonneg (by omega) (by omega)
    rw [getPageIndexes_eq_ok htotal hper hmax (by omega) (hbelow.trans_lt htotal)] at h
    cases h
  · intro hpos
    cases hget : getPageIndexes totalItems page perPage with
    | error err => exact ⟨err, rfl⟩
    | ok indexes =>
      obtain ⟨-, -, ⟨hzero, -⟩, hstart, -⟩ := getPageIndexes_eq_ok_iff.1 hget
      have hle := (le_totalPages_iff (by omega)).2 hstart
      omega

end Size

/-- **The pages partition the items, and a page that is not refused is one of them exactly when it and its
size are positive.**  Of the pages that there are not, the negative ones are not refused. -/
theorem pages_partition_iff (totalItems : ℤ) (htotal : 0 ≤ totalItems) :
    (∀ page perPage indexes, getPageIndexes totalItems page perPage = .ok indexes →
      (InRange totalItems page indexes ↔ 0 < page ∧ 0 < perPage)) ∧
    (0 < totalItems → ∀ perPage, 1 ≤ perPage → perPage ≤ maxPerPage → ∃ totalPages,
      (∀ page, 1 ≤ page → page ≤ totalPages → ∃ indexes,
        getPageIndexes totalItems page perPage = .ok indexes ∧ indexes.totalPages = totalPages ∧
        (page < totalPages → ∃ next, getPageIndexes totalItems (page + 1) perPage = .ok next ∧
          next.startIdx = indexes.endIdx + 1)) ∧
      (∀ i, 0 ≤ i → i < totalItems → ∃! page, 1 ≤ page ∧ ∃ indexes,
        getPageIndexes totalItems page perPage = .ok indexes ∧
        indexes.startIdx ≤ i ∧ i ≤ indexes.endIdx) ∧
      ∀ page, page < 1 ∨ totalPages < page →
        ((∃ err, getPageIndexes totalItems page perPage = .error err) ↔ 0 ≤ page)) := by
  refine ⟨fun page perPage indexes h => inRange_iff htotal h, fun hpos perPage hper hmax =>
    ⟨⌈(totalItems : ℚ) / perPage⌉, fun page hpage hle => ?_, fun i hi hlt =>
      existsUnique_page hpos hper hmax hi hlt, fun page hpage => refused_iff hpos hper hmax hpage⟩⟩
  have hstart := (le_totalPages_iff (by omega)).1 hle
  refine ⟨_, getPageIndexes_eq_ok hpos hper hmax (by omega) hstart, rfl, fun hlt => ?_⟩
  have hnext := (le_totalPages_iff (by omega)).1 (Int.add_one_le_of_lt hlt)
  refine ⟨_, getPageIndexes_eq_ok hpos hper hmax (by omega) hnext, ?_⟩
  rw [add_sub_cancel_right] at hnext ⊢
  show page * perPage = min (page * perPage - 1) (totalItems - 1) + 1
  omega

/-- Five items, two on a page. -/
theorem pages_partition_five :
    InRange 5 3 ⟨4, 4, 3⟩ ∧ ∃! page, 1 ≤ page ∧ ∃ indexes,
      getPageIndexes 5 page 2 = .ok indexes ∧ indexes.startIdx ≤ 3 ∧ 3 ≤ indexes.endIdx := by
  obtain ⟨hrange, hpages⟩ := pages_partition_iff 5 (by decide)
  obtain ⟨totalPages, -, hcover, -⟩ := hpages (by decide) 2 (by decide) (by decide)
  exact ⟨(hrange 3 2 _ (by decide +kernel)).2 ⟨by decide, by decide⟩,
    hcover 3 (by decide) (by decide)⟩

/-- A size below minus the number of the items gives no pages. -/
theorem totalPages_eq_zero (hpos : 0 < totalItems) (hneg : perPage < -totalItems) :
    ⌈(totalItems : ℚ) / perPage⌉ = 0 := by
  have hper : (perPage : ℚ) < 0 := by exact_mod_cast (by omega : perPage < 0)
  rw [Int.ceil_eq_zero_iff, Set.mem_Ioc, lt_div_iff_of_neg hper]
  refine ⟨?_, div_nonpos_of_nonneg_of_nonpos (Int.cast_nonneg hpos.le) hper.le⟩
  have hlt : (totalItems : ℚ) < -perPage := by exact_mod_cast (by omega : totalItems < -perPage)
  linarith

/-- A small step from an index does not wrap around. -/
theorem int64_add {n d : ℤ} (hlow : -2 ^ 63 ≤ int64 n + d) (hhigh : int64 n + d < 2 ^ 63) :
    int64 (n + d) = int64 n + d := by
  rw [int64, ← Int.bmod_add_bmod]
  exact Int.bmod_eq_of_le hlow hhigh

/-- **When a handler panics.**  It slices with the indexes it gets, and these are out of range
exactly when the start is negative, be it that it wrapped around, or the size is: for all values of the
page and its size, and up to the number of items for which the quotient of two `float64` rounds up
exactly. -/
theorem queryPage_eq_none_iff {α : Type} (items : List α) (hlength : items.length < 2 ^ 53) :
    queryPage items page perPage = none ↔
      (int64 ((page - 1) * perPage) < 0 ∨ perPage < 0) ∧ ∃ indexes,
        pageIndexesWith int64 items.length page perPage = .ok indexes ∧ indexes.totalPages ≠ 0 := by
  rw [queryPage]
  cases hget : pageIndexesWith int64 items.length page perPage with
  | error err => cases err <;> simp
  | ok indexes =>
    obtain ⟨hnone, hmax, ⟨-, hzero⟩, hstart, hindexes⟩ := pageIndexesWith_eq_ok_iff.1 hget
    rw [maxPerPage] at hmax
    simp only
    by_cases hpages : indexes.totalPages = 0
    · simp [hpages]
    have hsize : -(items.length : ℤ) ≤ perPage := by
      by_contra hneg
      rw [hindexes] at hpages
      exact hpages (totalPages_eq_zero (by omega) (by omega))
    have hwindow : page * perPage - 1 = (page - 1) * perPage + (perPage - 1) := by ring
    have hsliced : (0 ≤ indexes.startIdx ∧ indexes.startIdx ≤ indexes.endIdx + 1 ∧
        indexes.endIdx + 1 ≤ items.length) ↔
          ¬ (int64 ((page - 1) * perPage) < 0 ∨ perPage < 0) := by
      rw [hindexes, hwindow]
      by_cases hneg : int64 ((page - 1) * perPage) < 0
      · simp [hneg, hneg.not_ge]
      · have hend := int64_add (n := (page - 1) * perPage) (d := perPage - 1) (by omega) (by omega)
        simp only [hend]
        omega
    rw [if_neg hpages, Option.map_eq_none_iff, sliced, ite_eq_right_iff, hsliced]
    constructor
    · intro h
      exact ⟨not_not.1 fun hin => absurd (h hin) (Option.some_ne_none _), indexes, rfl, hpages⟩
    · exact fun h hin => absurd h.1 hin

/-- Both are positive, and the start of the page is `-2 ^ 63`. -/
theorem wrapped_page_sliced : queryPage [10, 20, 30, 40, 50] (2 ^ 62 + 1) 2 = none :=
  (queryPage_eq_none_iff _ (by decide)).2
    ⟨.inl (by decide), ⟨-2 ^ 63, -2 ^ 63 + 1, 3⟩, by decide +kernel, by decide⟩

/-- The page before the first. -/
theorem negative_page_sliced :
    getPageIndexes 5 (-1) 2 = .ok ⟨-4, -3, 3⟩ ∧ queryPage [10, 20, 30, 40, 50] (-1) 2 = none := by
  decide +kernel

end Pocket.Rpc
