import Mathlib.Data.Finset.Basic
import Mathlib.Data.List.Dedup

/-!
# A queue with a set of its indexes

A first-in first-out queue whose items have an index, beside a set that tells which indexes are there.
`Mirrors` is the invariant that joins the two: no index comes twice in the queue, and the set has those
of the queue.  Putting an item with a new index at the end, taking the first one and taking the one with
a given index all keep it.

The order of a queue is that of insertion: what it holds is among what was put in, each item at the place
where it was put in last (`List.dedup` keeps last occurrences).
-/

set_option autoImplicit false

namespace IndexedQueue

variable {ι α : Type} [DecidableEq ι] {x : α}

/-! ## The set of indexes -/

structure Mirrors (index : α → ι) (set : Finset ι) (queue : List α) : Prop where
  nodup : (queue.map index).Nodup
  mem_iff : ∀ i, i ∈ set ↔ i ∈ queue.map index

namespace Mirrors

variable {index : α → ι} {set : Finset ι} {queue : List α}

omit [DecidableEq ι] in
theorem empty : Mirrors index ∅ [] := ⟨List.nodup_nil, fun i => by simp⟩

theorem append (h : Mirrors index set queue) (hx : index x ∉ set) :
    Mirrors index (insert (index x) set) (queue ++ [x]) := by
  have hnew : index x ∉ queue.map index := mt (h.mem_iff _).mpr hx
  constructor
  · rw [List.map_append, List.map_singleton, List.nodup_append]
    refine ⟨h.nodup, List.nodup_singleton _, ?_⟩
    intro i hi j hj heq
    rw [List.mem_singleton.mp hj] at heq
    exact hnew (heq ▸ hi)
  · intro i
    rw [Finset.mem_insert, h.mem_iff i, List.map_append, List.mem_append, List.map_singleton,
      List.mem_singleton, or_comm]

/-- Taking out one item and its index. -/
theorem erase {l r : List α} (h : Mirrors index set (l ++ x :: r)) :
    Mirrors index (set.erase (index x)) (l ++ r) := by
  have hnodup := h.nodup
  rw [List.map_append, List.map_cons] at hnodup
  obtain ⟨hnot, hrest⟩ := List.nodup_cons.mp (List.nodup_middle.mp hnodup)
  rw [← List.map_append] at hnot hrest
  refine ⟨hrest, fun i => ?_⟩
  rw [Finset.mem_erase, h.mem_iff i]
  simp only [List.map_append, List.map_cons, List.mem_append, List.mem_cons] at hnot ⊢
  constructor
  · rintro ⟨hne, hi | rfl | hi⟩
    · exact .inl hi
    · exact absurd rfl hne
    · exact .inr hi
  · intro hi
    refine ⟨?_, by tauto⟩
    rintro rfl
    exact hnot hi

/-- The first item. -/
theorem tail (h : Mirrors index set (x :: queue)) : Mirrors index (set.erase (index x)) queue :=
  erase (l := []) h

/-- An index of the set belongs to an item of the queue. -/
theorem exists_split (h : Mirrors index set queue) {i : ι} (hi : i ∈ set) :
    ∃ l x r, queue = l ++ x :: r ∧ index x = i ∧
      queue.eraseP (fun y => index y = i) = l ++ r := by
  obtain ⟨y, hy, hindex⟩ := List.mem_map.mp ((h.mem_iff i).mp hi)
  obtain ⟨x, l, r, -, hx, hqueue, herase⟩ :=
    List.exists_of_eraseP (p := fun y => decide (index y = i)) hy (by simpa using hindex)
  exact ⟨l, x, r, hqueue, by simpa using hx, herase⟩

end Mirrors

/-! ## The order of insertion -/

variable [DecidableEq α]

/-- What is put in last stands at the end. -/
theorem append_sublist_dedup {queue log : List α} (h : queue.Sublist log.dedup) (hx : x ∉ queue) :
    (queue ++ [x]).Sublist (log ++ [x]).dedup := by
  induction log generalizing queue with
  | nil =>
    rw [List.dedup_nil, List.sublist_nil] at h
    subst h
    simp
  | cons a log ih =>
    by_cases ha : a ∈ log
    · rw [List.dedup_cons_of_mem ha] at h
      rw [List.cons_append, List.dedup_cons_of_mem (List.mem_append_left _ ha)]
      exact ih h hx
    · rw [List.dedup_cons_of_notMem ha] at h
      by_cases hax : a = x
      · -- an earlier insertion of `x` does not count any more
        subst hax
        rw [List.cons_append, List.dedup_cons_of_mem (by simp)]
        rcases List.sublist_cons_iff.mp h with h | ⟨rest, rfl, -⟩
        · exact ih h hx
        · exact absurd (List.mem_cons_self ..) hx
      · rw [List.cons_append, List.dedup_cons_of_notMem (by simp [ha, hax])]
        rcases List.sublist_cons_iff.mp h with hrest | ⟨rest, rfl, hrest⟩
        · exact (ih hrest hx).cons a
        · exact (ih hrest fun hmem => hx (List.mem_cons_of_mem a hmem)).cons_cons a

end IndexedQueue
