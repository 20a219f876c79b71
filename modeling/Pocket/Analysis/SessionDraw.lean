import Mathlib.Data.List.GetD
import Pocket.Analysis.SessionWindow

/-!
# The draw of a session

`uniqueRandomIndices` takes numbers from a stream until it has enough different indices.  If every index
comes up at some time, it has them after finitely many numbers, and then exactly as many as were asked for:
the loop adds one at a time and stops when there are enough.  `pseudoRandomSelection` asks for no more than
there are candidates, and for none when it is to select a negative number.
-/

set_option autoImplicit false

namespace Pocket.Utility

open Model (Bytes int64)
open Persistence (ActorMessage)

/-! ## The loop -/

/-- What the loop has at every round: different indices of candidates, all that were drawn so far, and not
more than were asked for. -/
structure Drawn (int63 : ℕ → ℕ) (maxIndex : ℕ) (numIndices : ℤ) (drawn : ℕ) (indices : List ℕ) :
    Prop where
  nodup : indices.Nodup
  below : ∀ i ∈ indices, i < maxIndex
  all : ∀ k < drawn, int63 k % maxIndex ∈ indices
  few : (indices.length : ℤ) ≤ max numIndices 0

variable {int63 : ℕ → ℕ} {maxIndex drawn bound : ℕ} {numIndices : ℤ} {indices : List ℕ}

theorem drawn_nil : Drawn int63 maxIndex numIndices 0 [] where
  nodup := List.nodup_nil
  below := by simp
  all := by simp
  few := by simp

/-- One more number. -/
theorem Drawn.insert (h : Drawn int63 maxIndex numIndices drawn indices) (hmax : 0 < maxIndex)
    (hmore : (indices.length : ℤ) < numIndices) :
    Drawn int63 maxIndex numIndices (drawn + 1) (indices.insert (int63 drawn % maxIndex)) where
  nodup := h.nodup.insert
  below := by
    intro i hi
    rcases List.mem_insert_iff.mp hi with rfl | hi
    · exact Nat.mod_lt _ hmax
    · exact h.below i hi
  all := by
    intro k hk
    rcases Nat.lt_succ_iff_lt_or_eq.mp hk with hk | rfl
    · exact List.mem_insert_of_mem (h.all k hk)
    · exact List.mem_insert_self
  few := by
    have hle : (indices.insert (int63 drawn % maxIndex)).length ≤ indices.length + 1 := by
      rw [List.length_insert]
      split <;> omega
    omega

/-- Once all indices have come up there are enough. -/
theorem Drawn.enough (h : Drawn int63 maxIndex numIndices drawn indices)
    (hoccurs : ∀ r < maxIndex, ∃ k < bound, int63 k % maxIndex = r) (hbound : bound ≤ drawn) :
    maxIndex ≤ indices.length := by
  have hsubset : List.range maxIndex ⊆ indices := by
    intro r hr
    obtain ⟨k, hk, rfl⟩ := hoccurs r (List.mem_range.mp hr)
    exact h.all k (hk.trans_le hbound)
  have hlength := (List.nodup_range.subperm hsubset).length_le
  rwa [List.length_range] at hlength

/-- The loop ends, with as many indices as were asked for. -/
theorem drawIndices_ends (hnum : numIndices ≤ maxIndex)
    (hoccurs : ∀ r < maxIndex, ∃ k < bound, int63 k % maxIndex = r) (rounds : ℕ) :
    ∀ {drawn : ℕ} {indices : List ℕ}, Drawn int63 maxIndex numIndices drawn indices →
      bound ≤ drawn + rounds →
      ∃ result, drawIndices int63 maxIndex numIndices rounds drawn indices = some result
        ∧ result.Nodup ∧ (∀ i ∈ result, i < maxIndex) ∧ (result.length : ℤ) = max numIndices 0 := by
  induction rounds with
  | zero =>
    intro drawn indices h hbound
    have henough := h.enough hoccurs hbound
    have hfew := h.few
    refine ⟨indices, ?_, h.nodup, h.below, by omega⟩
    rw [drawIndices, if_neg (by omega)]
  | succ rounds ih =>
    intro drawn indices h hbound
    rw [drawIndices]
    by_cases hmore : (indices.length : ℤ) < numIndices
    · rw [if_pos hmore]
      exact ih (h.insert (by omega) hmore) (by omega)
    · have hfew := h.few
      refine ⟨indices, ?_, h.nodup, h.below, by omega⟩
      rw [if_neg hmore]

/-- A stream in which every index comes up has all of them among its first numbers. -/
theorem exists_bound (hoccurs : ∀ r < maxIndex, ∃ k, int63 k % maxIndex = r) :
    ∃ bound, ∀ r < maxIndex, ∃ k < bound, int63 k % maxIndex = r := by
  have hupto : ∀ n ≤ maxIndex, ∃ bound, ∀ r < n, ∃ k < bound, int63 k % maxIndex = r := by
    intro n
    induction n with
    | zero => exact fun _ => ⟨0, by simp⟩
    | succ n ih =>
      intro hn
      obtain ⟨bound, hbound⟩ := ih (by omega)
      obtain ⟨k, hk⟩ := hoccurs n (by omega)
      refine ⟨max bound (k + 1), fun r hr => ?_⟩
      rcases Nat.lt_succ_iff_lt_or_eq.mp hr with hr | rfl
      · obtain ⟨k', hk', hr'⟩ := hbound r hr
        exact ⟨k', by omega, hr'⟩
      · exact ⟨k, by omega, hk⟩
  exact hupto maxIndex le_rfl

/-! ## The selection -/

theorem exists_selected {candidates : List ActorMessage} (hdistinct : candidates.Nodup)
    (hnodup : indices.Nodup) (hbelow : ∀ i ∈ indices, i < candidates.length) :
    ∃ selected, indices.mapM (fun idx => candidates[idx]?) = some selected
      ∧ selected.Nodup ∧ selected ⊆ candidates ∧ selected.length = indices.length := by
  cases candidates with
  | nil =>
    obtain rfl : indices = [] := List.eq_nil_iff_forall_not_mem.mpr fun i hi => by
      simpa using hbelow i hi
    exact ⟨[], rfl, List.nodup_nil, by simp, rfl⟩
  | cons c cs =>
    refine ⟨indices.map fun i => (c :: cs).getD i c, ?_, ?_, ?_, List.length_map _⟩
    · refine StoreProgram.mapM_eq_some_map fun i hi => ?_
      rw [List.getD_eq_getElem?_getD, List.getElem?_eq_getElem (hbelow i hi), Option.getD_some]
    · refine List.Nodup.map_on (fun i hi j hj heq => ?_) hnodup
      rw [List.getD_eq_getElem _ _ (hbelow i hi), List.getD_eq_getElem _ _ (hbelow j hj)] at heq
      exact (hdistinct.getElem_inj_iff).mp heq
    · intro actor hactor
      obtain ⟨i, hi, rfl⟩ := List.mem_map.mp hactor
      rw [List.getD_eq_getElem _ _ (hbelow i hi)]
      exact List.getElem_mem _

/-- **The selection of a session.**  For different candidates, every target, every session id and every
stream of numbers in which every index comes up, however the map of indices is gone through: after
finitely many numbers the selection is made, and it consists of different candidates, as many as the
target says, but none for a negative target and not more than there are. -/
theorem selection_draws_enough (H : SessionHost) (order : MapOrder) {candidates : List ActorMessage}
    (hdistinct : candidates.Nodup) (numTarget : ℤ) (sessionId : Bytes)
    (hoccurs : ∀ r < candidates.length, ∃ k,
      H.int63 (seedOf H sessionId) k % candidates.length = r) :
    ∃ bound, ∀ rounds ≥ bound, ∃ selected,
      pseudoRandomSelection H order rounds candidates numTarget sessionId = some selected
        ∧ selected.Nodup ∧ selected ⊆ candidates
        ∧ (selected.length : ℤ) = min (max numTarget 0) candidates.length := by
  obtain ⟨bound, hbound⟩ := exists_bound hoccurs
  refine ⟨bound, fun rounds hrounds => ?_⟩
  rw [pseudoRandomSelection]
  by_cases hfew : candidates.length < numTarget
  · rw [if_pos hfew]
    exact ⟨candidates, rfl, hdistinct, fun _ h => h, by omega⟩
  rw [if_neg hfew]
  have hnum : numTarget ≤ candidates.length := by omega
  obtain ⟨indices, hdraw, hnodup, hbelow, hlength⟩ :=
    drawIndices_ends hnum hbound rounds drawn_nil (by omega)
  have hperm := order.perm indices
  obtain ⟨selected, hselected, hnodup', hsubset, hlength'⟩ :=
    exists_selected hdistinct (hperm.nodup_iff.mpr hnodup)
      fun i hi => hbelow i (hperm.mem_iff.mp hi)
  refine ⟨selected, ?_, hnodup', hsubset, ?_⟩
  · have hunique : uniqueRandomIndices H rounds (seedOf H sessionId) candidates.length numTarget
        = some indices := by
      rw [uniqueRandomIndices, if_neg hfew, hdraw]
    simp only [hunique]
    exact hselected
  · rw [hlength', hperm.length_eq, hlength]
    omega

/-- A servicer for the chain `0001`. -/
def servicerAt (address : String) : ActorMessage where
  actorType := .servicer
  address := address
  publicKey := "01"
  chains := ["0001"]
  serviceUrl := ""
  stakedAmount := "10"
  pausedHeight := -1
  unstakingHeight := -1
  output := "02"

/-- A stream of all numbers, in which the indices come up one after the other. -/
def countingHost : SessionHost := { sessionHost with int63 := fun _ k => k }

/-- Two servicers of three. -/
theorem selection_draws_two_of_three :
    ∃ bound, ∀ rounds ≥ bound, ∃ selected,
      pseudoRandomSelection countingHost reversedOrder rounds
          [servicerAt "11", servicerAt "12", servicerAt "13"] 2 [109] = some selected
        ∧ selected.Nodup ∧ selected ⊆ [servicerAt "11", servicerAt "12", servicerAt "13"]
        ∧ (selected.length : ℤ) = 2 :=
  selection_draws_enough countingHost reversedOrder (by decide) 2 [109]
    fun r hr => ⟨r, Nat.mod_eq_of_lt hr⟩

end Pocket.Utility
