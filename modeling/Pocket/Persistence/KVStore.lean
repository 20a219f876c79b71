import Pocket.Library.WordOrder
import Pocket.Model.Types

/-!
# The end of a prefix in the key-value store

A scan downwards of a `badgerKVStore` starts at `prefixEndBytes`, the first key after all those with the prefix.
There is none for a prefix of `0xFF` only.
-/

set_option autoImplicit false

namespace Pocket.Persistence

open Model (Bytes)
open WordOrder

/-- `nil` is `none`.
SOURCE: persistence/kvstore/kvstore.go:144-159 -/
def prefixEndBytes (keyPrefix : Bytes) : Option Bytes :=
  if h : keyPrefix = [] then none
  else if keyPrefix.getLast h = 255 then prefixEndBytes keyPrefix.dropLast
  else some (keyPrefix.dropLast ++ [keyPrefix.getLast h + 1])
termination_by keyPrefix.length
decreasing_by
  rw [List.length_dropLast]
  exact Nat.sub_one_lt (List.length_eq_zero_iff.not.2 h)

/-- A slice of one of the arrays in memory. -/
structure Slice where
  array : ℕ
  start : ℕ
  len : ℕ

def Slice.bytes (arrays : List Bytes) (s : Slice) : Bytes :=
  ((arrays.getD s.array []).drop s.start).take s.len

/-- The same on the arrays in memory, for the prefix of the given length.
SOURCE: persistence/kvstore/kvstore.go:144-159 -/
def prefixEndBytesIn (arrays : List Bytes) (array start : ℕ) : ℕ → List Bytes × Option Slice
  | 0 => (arrays, none)
  | n + 1 =>
    if (arrays.getD array []).getD (start + n) 0 = 255 then prefixEndBytesIn arrays array start n
    else
      let last : Slice := ⟨arrays.length, 0, n + 1⟩
      let made := arrays ++ [List.replicate (n + 1) 0]
      let copied := made.set last.array (Slice.bytes made ⟨array, start, n + 1⟩)
      (copied.modify last.array fun bytes => bytes.modify n (· + 1), some last)

/-! ## The keys with a prefix -/

theorem prefixEndBytes_concat_max (keyPrefix : Bytes) :
    prefixEndBytes (keyPrefix ++ [255]) = prefixEndBytes keyPrefix := by
  rw [prefixEndBytes]
  simp

theorem prefixEndBytes_concat {b : UInt8} (keyPrefix : Bytes) (hb : b ≠ 255) :
    prefixEndBytes (keyPrefix ++ [b]) = some (keyPrefix ++ [b + 1]) := by
  rw [prefixEndBytes]
  simp [hb]

theorem singleton_isPrefix_iff {b : UInt8} (hb : b ≠ 255) (key : Bytes) :
    [b] <+: key ↔ [b] ≤ key ∧ key < [b + 1] := by
  have hnext : (b + 1).toNat = b.toNat + 1 := by
    have hlt : b.toNat < 255 := lt_of_le_of_ne (Nat.le_of_lt_succ b.toNat_lt) fun h => hb (UInt8.toNat.inj h)
    rw [UInt8.toNat_add, Nat.mod_eq_of_lt]
    · rfl
    · exact Nat.succ_lt_succ hlt
  cases key with
  | nil => simp [← not_lt]
  | cons c key =>
    rw [List.cons_prefix_cons, ← not_lt, List.cons_lt_cons_iff, List.cons_lt_cons_iff]
    simp only [List.not_lt_nil, and_false, or_false, List.nil_prefix, and_true,
      UInt8.lt_iff_toNat_lt, hnext, ← UInt8.toNat_inj]
    omega

theorem max_isPrefix_of_le {key : Bytes} (h : [255] ≤ key) : [255] <+: key := by
  cases key with
  | nil => simp [← not_lt] at h
  | cons c key =>
    rw [← not_lt, List.cons_lt_cons_iff, not_or] at h
    have hc : c = 255 := by
      have hle := Nat.le_of_lt_succ c.toNat_lt
      rw [UInt8.lt_iff_toNat_lt] at h
      exact UInt8.toNat_inj.1 (le_antisymm hle (not_lt.1 h.1))
    exact List.cons_prefix_cons.2 ⟨hc.symm, List.nil_prefix⟩

/-- The keys with a prefix are those from the prefix up to its end. -/
theorem isPrefix_iff_of_prefixEndBytes {keyPrefix last : Bytes} (h : prefixEndBytes keyPrefix = some last)
    (key : Bytes) : keyPrefix <+: key ↔ keyPrefix ≤ key ∧ key < last := by
  induction keyPrefix using List.reverseRecOn with
  | nil =>
    rw [prefixEndBytes] at h
    cases h
  | append_singleton front b ih =>
    have hfront : front ≤ front ++ [b] := le_of_isPrefix (List.prefix_append front [b])
    -- from `front` on, only what follows it in the key is compared
    by_cases hb : b = 255
    · rw [hb, prefixEndBytes_concat_max] at h
      subst hb
      constructor
      · intro hkey
        have hbelow := (ih h).1 ((List.prefix_append front [255]).trans hkey)
        exact ⟨le_of_isPrefix hkey, hbelow.2⟩
      · rintro ⟨hlow, hlast⟩
        obtain ⟨rest, rfl⟩ := (ih h).2 ⟨hfront.trans hlow, hlast⟩
        rw [List.prefix_append_right_inj]
        exact max_isPrefix_of_le ((append_le_append_iff front).1 hlow)
    · rw [prefixEndBytes_concat front hb, Option.some.injEq] at h
      subst h
      constructor
      · rintro ⟨rest, rfl⟩
        rw [List.append_assoc, append_le_append_iff, append_lt_append_iff]
        exact (singleton_isPrefix_iff hb _).1 (List.prefix_append [b] rest)
      · rintro ⟨hlow, hlast⟩
        obtain ⟨rest, rfl⟩ := isPrefix_of_le_of_le (hfront.trans hlow) hlast.le
          (List.prefix_append front [b + 1])
        rw [append_le_append_iff] at hlow
        rw [append_lt_append_iff] at hlast
        rw [List.prefix_append_right_inj]
        exact (singleton_isPrefix_iff hb rest).2 ⟨hlow, hlast⟩

end Pocket.Persistence
