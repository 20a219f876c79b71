import Pocket.Persistence.KVStore

/-!
# The end of a prefix bounds its keys

The end is made by a loop over the bytes from the last one, in an array of its own.
-/

set_option autoImplicit false

namespace Pocket.Persistence.BadgerKVStore

open Model (Bytes)
open WordOrder

theorem prefixEndBytes_eq_none_iff (keyPrefix : Bytes) :
    prefixEndBytes keyPrefix = none ↔ ∀ b ∈ keyPrefix, b = 255 := by
  induction keyPrefix using List.reverseRecOn with
  | nil => simp [prefixEndBytes]
  | append_singleton front b ih =>
    by_cases hb : b = 255
    · simp [hb, prefixEndBytes_concat_max, ih, or_imp]
    · simp [prefixEndBytes_concat front hb, hb]

theorem modify_concat {α : Type} (l : List α) (a : α) (f : α → α) :
    (l ++ [a]).modify l.length f = l ++ [f a] := by
  rw [List.modify_eq_take_cons_drop (by simp)]
  simp

/-- The end is made in an array of its own. -/
theorem prefixEndBytesIn_eq (front : List Bytes) (left keyPrefix right : Bytes) (back : List Bytes) :
    let arrays := front ++ (left ++ keyPrefix ++ right) :: back
    prefixEndBytesIn arrays front.length left.length keyPrefix.length
      = (arrays ++ (prefixEndBytes keyPrefix).toList,
        (prefixEndBytes keyPrefix).map fun last => ⟨arrays.length, 0, last.length⟩) := by
  intro arrays
  induction keyPrefix using List.reverseRecOn generalizing right with
  | nil => simp [prefixEndBytes, prefixEndBytesIn]
  | append_singleton init b ih =>
    have hlast : (arrays.getD front.length []).getD (left.length + init.length) 0 = b := by
      simp [arrays]
    rw [List.length_append, List.length_singleton, prefixEndBytesIn, hlast]
    by_cases hb : b = 255
    · subst hb
      rw [if_pos rfl, prefixEndBytes_concat_max]
      simpa [arrays] using ih (255 :: right)
    · have hcopied : Slice.bytes (arrays ++ [List.replicate (init.length + 1) 0])
          ⟨front.length, left.length, init.length + 1⟩ = init ++ [b] := by
        simp [Slice.bytes, arrays, List.take_append]
      rw [if_neg hb, prefixEndBytes_concat init hb]
      simp [hcopied, modify_concat]

/-- **The end of a prefix is the tight bound of its keys**, and no array in memory changes. -/
theorem prefixEndBytes_tight (front : List Bytes) (left keyPrefix right : Bytes) (back : List Bytes) :
    let arrays := front ++ (left ++ keyPrefix ++ right) :: back
    let after := prefixEndBytesIn arrays front.length left.length keyPrefix.length
    (after.2 = none ↔ keyPrefix = [] ∨ ∀ b ∈ keyPrefix, b = 255) ∧
    (∀ last, after.2 = some last → ∀ key,
      keyPrefix <+: key ↔ keyPrefix ≤ key ∧ key < last.bytes after.1) ∧
    arrays <+: after.1 := by
  intro arrays after
  have hafter : after = _ := prefixEndBytesIn_eq front left keyPrefix right back
  rw [hafter]
  refine ⟨?_, fun last hlast key => ?_, List.prefix_append _ _⟩
  · rw [Option.map_eq_none_iff, prefixEndBytes_eq_none_iff]
    exact ⟨.inr, fun h => h.elim (fun hempty => by simp [hempty]) id⟩
  · obtain ⟨bytes, hend, rfl⟩ := Option.map_eq_some_iff.1 hlast
    rw [isPrefix_iff_of_prefixEndBytes hend, hend]
    simp [Slice.bytes]

end Pocket.Persistence.BadgerKVStore
