import Mathlib.Data.Int.Notation
import Mathlib.Data.List.Nodup

/-!
# Batches that are logged once

Items run in batches, one batch a round.  A batch is logged when its round ends, or dropped,
and then the round may run another.  An index holds for each key the last round in which an
item with that key was run; dropping a batch does not take its keys out again.

If a batch is only run when there is none yet, with pairwise different keys, and with no key
that the index has from an earlier round, then no item is ever logged twice
(`Invariant.nodup_log`).
-/

set_option autoImplicit false

namespace BatchLog

structure State (α κ : Type) where
  round : ℤ
  index : κ → Option ℤ
  batch : List α
  log : List (List α)

variable {α κ : Type} (key : α → κ)

/-- What one step can do. -/
inductive Step (s : State α κ) : State α κ → Prop
  | run (done : List α) (index : κ → Option ℤ)
      (hempty : s.batch = [])
      (hkeys : (done.map key).Nodup)
      (hfresh : ∀ a ∈ done, ∀ r, s.index (key a) = some r → s.round ≤ r)
      (hindexed : ∀ a ∈ done, index (key a) = some s.round)
      (hkept : ∀ k, k ∉ done.map key → index k = s.index k) :
      Step s { s with batch := done, index }
  | drop : Step s { s with batch := [] }
  | commit : Step s { s with log := s.log ++ [s.batch], batch := [], round := s.round + 1 }

structure Invariant (s : State α κ) : Prop where
  logged : ∀ a ∈ s.log.flatten, ∃ r < s.round, s.index (key a) = some r
  running : ∀ a ∈ s.batch, s.index (key a) = some s.round
  nodup : (s.log.flatten ++ s.batch).Nodup

variable {key} {s s' : State α κ}

theorem Invariant.nodup_log (h : Invariant key s) : s.log.flatten.Nodup :=
  (List.nodup_append.1 h.nodup).1

theorem Invariant.start (hlog : s.log = []) (hbatch : s.batch = []) : Invariant key s where
  logged := by
    rw [hlog]
    exact fun a ha => by cases ha
  running := by
    rw [hbatch]
    exact fun a ha => by cases ha
  nodup := by
    rw [hlog, hbatch]
    exact List.nodup_nil

theorem Invariant.step (h : Invariant key s) (hstep : Step key s s') : Invariant key s' := by
  cases hstep with
  | run done index hempty hkeys hfresh hindexed hkept =>
    -- a key of the log was indexed in an earlier round, so it is not a key of the batch
    have hapart : ∀ a ∈ s.log.flatten, key a ∉ done.map key := by
      intro a ha hmem
      obtain ⟨b, hb, hkey⟩ := List.mem_map.1 hmem
      obtain ⟨r, hr, hindex⟩ := h.logged a ha
      rw [← hkey] at hindex
      exact absurd (hfresh b hb r hindex) (Int.not_le.2 hr)
    refine ⟨fun a ha => ?_, hindexed, ?_⟩
    · obtain ⟨r, hr, hindex⟩ := h.logged a ha
      exact ⟨r, hr, (hkept _ (hapart a ha)).trans hindex⟩
    · refine List.nodup_append.2 ⟨h.nodup_log, hkeys.of_map, fun a ha b hb hab => ?_⟩
      exact hapart a ha (hab ▸ List.mem_map_of_mem hb)
  | drop =>
    refine ⟨h.logged, (fun a ha => by cases ha), ?_⟩
    rw [List.append_nil]
    exact h.nodup_log
  | commit =>
    have hlog : (s.log ++ [s.batch]).flatten = s.log.flatten ++ s.batch := by simp
    refine ⟨fun a ha => ?_, (fun a ha => by cases ha), ?_⟩
    · rw [hlog] at ha
      rcases List.mem_append.1 ha with ha | ha
      · obtain ⟨r, hr, hindex⟩ := h.logged a ha
        exact ⟨r, Int.lt_add_one_of_le (Int.le_of_lt hr), hindex⟩
      · exact ⟨s.round, Int.lt_succ s.round, h.running a ha⟩
    · rw [hlog, List.append_nil]
      exact h.nodup

end BatchLog
