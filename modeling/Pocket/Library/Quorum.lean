import Mathlib.Data.Finset.Card
import Mathlib.Data.Finset.Dedup

/-!
# Quorums and counting distinct members

* `exists_correct_of_two_quorums`: two sets of more than two thirds of the members share a
  member that is not faulty, when fewer than a third are.
* `keys` are the keys of the entries of a list that satisfy a predicate.  They are at most as many
  as these entries (`card_keys_le`), and as many if no key repeats (`card_keys_of_nodup`).
-/

set_option autoImplicit false

namespace Quorum

section Intersection

variable {α : Type} [DecidableEq α] {V S T : Finset α} {faulty : α → Prop}
  [DecidablePred faulty]

/-- **Quorum intersection.** -/
theorem exists_correct_of_two_quorums (hfaulty : 3 * (V.filter faulty).card < V.card)
    (hSV : S ⊆ V) (hTV : T ⊆ V) (hS : 2 * V.card < 3 * S.card) (hT : 2 * V.card < 3 * T.card) :
    ∃ x ∈ S, x ∈ T ∧ ¬ faulty x := by
  by_contra hnone
  push Not at hnone
  have hsub : S ∩ T ⊆ V.filter faulty := by
    intro x hx
    obtain ⟨hxS, hxT⟩ := Finset.mem_inter.mp hx
    exact Finset.mem_filter.mpr ⟨hSV hxS, hnone x hxS hxT⟩
  have hinter := Finset.card_le_card hsub
  have hunion : (S ∪ T).card ≤ V.card := Finset.card_le_card (Finset.union_subset hSV hTV)
  have hsum := Finset.card_union_add_card_inter S T
  omega

end Intersection

section Distinct

variable {α κ : Type} [DecidableEq κ] (p : α → Bool) (key : α → κ)

/-- The keys of the entries that satisfy `p`. -/
def keys (l : List α) : Finset κ := ((l.filter p).map key).toFinset

variable {p key}

/-- A key is that of an entry that satisfies the predicate. -/
theorem mem_keys {l : List α} {k : κ} : k ∈ keys p key l ↔ ∃ a ∈ l, p a = true ∧ key a = k := by
  simp [keys, and_assoc]

/-- The entries are at least as many as their keys. -/
theorem card_keys_le (l : List α) : (keys p key l).card ≤ l.countP p := by
  rw [List.countP_eq_length_filter, ← List.length_map key]
  exact List.toFinset_card_le _

/-- Entries with pairwise distinct keys are as many as their keys. -/
theorem card_keys_of_nodup {l : List α} (h : ((l.filter p).map key).Nodup) :
    (keys p key l).card = l.countP p := by
  rw [keys, List.toFinset_card_of_nodup h, List.length_map, List.countP_eq_length_filter]

end Distinct

end Quorum
