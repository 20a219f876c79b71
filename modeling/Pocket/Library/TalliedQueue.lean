import Mathlib.Algebra.Group.Nat.Defs
import Mathlib.Data.List.Basic
import Mathlib.Data.Nat.Basic
import Mathlib.Logic.Function.Basic

/-!
# Queues with counters

Machine integers that count the items of a queue and their bytes: what brings them up or down, as long as
they do not wrap.

A queue whose items have keys, beside a table that counts for each key how often it is there.  The counters
are bytes, and a key whose counter comes down from one is taken out of the table, so the table tells which
keys are there as long as no key is taken out while the true count is `257`, `513`, and so on.
-/

set_option autoImplicit false

namespace TalliedQueue

variable {κ α : Type} {n k : ℕ} {c : UInt32}

/-! ## Numbers and bytes -/

theorem toNat_add_one (h : c.toNat = n) (hlt : n + 1 < 2 ^ 32) : (c + 1).toNat = n + 1 := by
  rw [UInt32.toNat_add, UInt32.toNat_one]
  omega

theorem toNat_sub_one (h : c.toNat = n + 1) : (c - 1).toNat = n := by
  have hlt := c.toNat_lt
  rw [UInt32.toNat_sub, UInt32.toNat_one]
  omega

theorem toNat_add_ofNat {c : UInt64} (h : c.toNat = n) (hlt : n + k < 2 ^ 64) :
    (c + UInt64.ofNat k).toNat = n + k := by
  rw [UInt64.toNat_add, UInt64.toNat_ofNat']
  omega

theorem toNat_sub_ofNat {c : UInt64} (h : c.toNat = n + k) : (c - UInt64.ofNat k).toNat = n := by
  have hlt := c.toNat_lt
  rw [UInt64.toNat_sub, UInt64.toNat_ofNat']
  omega

/-! ## A counter for each key -/

/-- The counter of a key that is there `n` times. -/
def tally : ℕ → Option UInt8
  | 0 => none
  | n + 1 => some (UInt8.ofNat (n + 1))

/-- One more; a missing counter is zero. -/
def raise (c : Option UInt8) : Option UInt8 := some (c.getD 0 + 1)

/-- One less; a counter at one is taken out, and a missing one stays missing. -/
def lower : Option UInt8 → Option UInt8
  | none => none
  | some c => if c = 1 then none else some (c - 1)

theorem isSome_tally : (tally n).isSome = true ↔ 0 < n := by
  cases n <;> simp [tally]

theorem raise_tally (n : ℕ) : raise (tally n) = tally (n + 1) := by
  cases n with
  | zero => rfl
  | succ n =>
    simp only [raise, tally, Option.getD_some, Option.some.injEq]
    apply UInt8.toNat_inj.mp
    simp only [UInt8.toNat_add, UInt8.toNat_ofNat', UInt8.toNat_one]
    omega

/-- A count that can be brought down: the counter is at one only if the count is. -/
def Lowerable (n : ℕ) : Prop := n % 256 = 1 → n = 1

instance (n : ℕ) : Decidable (Lowerable n) := inferInstanceAs (Decidable (_ → _))

theorem lower_tally (h : Lowerable (n + 1)) : lower (tally (n + 1)) = tally n := by
  have hone : UInt8.ofNat (n + 1) = 1 ↔ (n + 1) % 256 = 1 := by
    rw [← UInt8.toNat_inj, UInt8.toNat_ofNat', UInt8.toNat_one]
  simp only [lower, tally, hone]
  by_cases hmod : (n + 1) % 256 = 1
  · rw [if_pos hmod]
    obtain rfl : n = 0 := Nat.succ.inj (h hmod)
    rfl
  · rw [if_neg hmod]
    cases n with
    | zero => exact absurd rfl hmod
    | succ n =>
      rw [Option.some.injEq]
      apply UInt8.toNat_inj.mp
      simp only [UInt8.toNat_sub, UInt8.toNat_ofNat', UInt8.toNat_one]
      omega

/-! ## The table -/

variable [DecidableEq κ]

/-- Every key has the counter of its count in the queue. -/
def Tallies (key : α → κ) (counters : κ → Option UInt8) (queue : List α) : Prop :=
  ∀ k, counters k = tally ((queue.map key).count k)

namespace Tallies

variable {key : α → κ} {counters : κ → Option UInt8} {queue : List α}

theorem empty : Tallies key (fun _ => none) [] := fun _ => rfl

theorem isSome_iff (h : Tallies key counters queue) {k : κ} :
    (counters k).isSome = true ↔ k ∈ queue.map key := by
  rw [h k, isSome_tally, List.count_pos_iff]

theorem append (h : Tallies key counters queue) (x : α) :
    Tallies key (Function.update counters (key x) (raise (counters (key x)))) (queue ++ [x]) := by
  intro k
  rw [List.map_append, List.count_append, List.map_singleton]
  by_cases hk : k = key x
  · subst hk
    rw [Function.update_self, h, raise_tally, List.count_singleton_self]
  · rw [Function.update_of_ne hk, h k, List.count_singleton, if_neg (by simpa using Ne.symm hk),
      Nat.add_zero]

/-- Taking out one item. -/
theorem erase {l r : List α} {x : α} (h : Tallies key counters (l ++ x :: r))
    (hlower : Lowerable (((l ++ x :: r).map key).count (key x))) :
    Tallies key (Function.update counters (key x) (lower (counters (key x)))) (l ++ r) := by
  have hcount : ∀ k, ((l ++ x :: r).map key).count k
      = ((l ++ r).map key).count k + if key x = k then 1 else 0 := by
    intro k
    simp only [List.map_append, List.map_cons, List.count_append, List.count_cons, beq_iff_eq]
    omega
  intro k
  by_cases hk : k = key x
  · subst hk
    rw [hcount, if_pos rfl] at hlower
    rw [Function.update_self, h, hcount, if_pos rfl, lower_tally hlower]
  · rw [Function.update_of_ne hk, h k, hcount, if_neg (Ne.symm hk), Nat.add_zero]

end Tallies

end TalliedQueue
