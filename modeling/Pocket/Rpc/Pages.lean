import Mathlib.Data.Rat.Floor

/-!
# Pages of a query

The query handlers read all items and answer with one page of them.  `getPageIndexes` computes the indexes
of the page, and the handler slices the items with them.
-/

set_option autoImplicit false

namespace Pocket.Rpc

/-- SOURCE: rpc/utils.go:20 -/
def maxPerPage : ℤ := 1000

inductive PageError where
  | noItems
  | perPageTooHigh
  | notPositive
  | pageTooHigh (page totalPages : ℤ)
  deriving DecidableEq

/-- SOURCE: rpc/utils.go:25, 75, 79, 86 -/
def PageError.text : PageError → String
  | noItems => "no items found"
  | perPageTooHigh => "per_page has a max value of " ++ toString maxPerPage
  | notPositive => "page and per_page must both be greater than 0"
  | pageTooHigh page totalPages =>
    "starting page too high: got " ++ toString page ++ ", total pages: " ++ toString totalPages

/-- The first and the last index of a page, and the number of pages. -/
structure PageIndexes where
  startIdx : ℤ
  endIdx : ℤ
  totalPages : ℤ
  deriving DecidableEq

/-- An `int` of 64 bits wraps around. -/
def int64 (n : ℤ) : ℤ := n.bmod (2 ^ 64)

/-- The quotient is rounded up exactly, and `int` is what an `int` makes of a result: to wrap a sum
of products around once is the same as after every operation.
SOURCE: rpc/utils.go:69-95 -/
def pageIndexesWith (int : ℤ → ℤ) (totalItems page perPage : ℤ) : Except PageError PageIndexes :=
  if totalItems = 0 then .error .noItems
  else if perPage > maxPerPage then .error .perPageTooHigh
  else if page = 0 ∨ perPage = 0 then .error .notPositive
  else
    let totalPages := ⌈(totalItems : ℚ) / perPage⌉
    let startIdx := int ((page - 1) * perPage)
    if startIdx > totalItems - 1 then .error (.pageTooHigh page totalPages)
    else
      let endIdx := int (page * perPage - 1)
      .ok ⟨startIdx, if endIdx ≥ totalItems then totalItems - 1 else endIdx, totalPages⟩

/-- The indexes where nothing overflows. -/
def getPageIndexes (totalItems page perPage : ℤ) : Except PageError PageIndexes :=
  pageIndexesWith id totalItems page perPage

/-! ## The handlers -/

inductive PageResponse (α : Type) where
  | badRequest (text : String)
  | empty
  | page (items : List α) (totalPages : ℤ)
  deriving DecidableEq

variable {α : Type}

/-- `items[low:high]`.  `none` is the panic of a slice out of range. -/
def sliced (items : List α) (low high : ℤ) : Option (List α) :=
  if 0 ≤ low ∧ low ≤ high ∧ high ≤ items.length then
    some ((items.take high.toNat).drop low.toNat)
  else none

/-- What `PostV1QueryAccounts` does with the items that it has read, as do the other paginated queries.
SOURCE: rpc/handlers_query.go:69-89, and 105-127, 196-211, 290-303, 350-365, 442-457, 580-594, 668-683 -/
def queryPage (items : List α) (page perPage : ℤ) : Option (PageResponse α) :=
  match pageIndexesWith int64 items.length page perPage with
  | .error .noItems => some .empty
  | .error err => some (.badRequest err.text)
  | .ok indexes =>
    if indexes.totalPages = 0 then some .empty
    else (sliced items indexes.startIdx (indexes.endIdx + 1)).map (.page · indexes.totalPages)

end Pocket.Rpc
