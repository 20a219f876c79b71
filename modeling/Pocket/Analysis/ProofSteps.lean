import Mathlib.Data.List.Forall2
import Pocket.Ibc.Proofs

/-!
# ICS-23 steps recompute the root of the tree

Going up with the steps of a proof, or with the tree's own verification, gives the same root: the side
node of each level stands on the side of the path on which the tree has it.
-/

set_option autoImplicit false

namespace Pocket.Analysis

open Pocket.Ibc
open Model (Bytes)

/-- The step begins with byte one and has the side node either behind it or in the suffix. -/
def Carries (sideNode : Bytes) (step : InnerOp) : Prop :=
  (step.prefixBytes = 1 :: sideNode ∧ step.suffix = [])
    ∨ (step.prefixBytes = [1] ∧ step.suffix = sideNode)

variable {path : Bytes}

theorem stepFor_carries (sideNode : Bytes) (pathIsLeft : Bool) :
    Carries sideNode (stepFor sideNode pathIsLeft) := by
  cases pathIsLeft with
  | false => exact .inl ⟨rfl, rfl⟩
  | true => exact .inr ⟨rfl, rfl⟩

theorem apply_stepFor (sha256 : Bytes → Bytes) (hash sideNode : Bytes) (bit : ℕ) :
    (stepFor sideNode (bit == left)).apply sha256 hash = digestBeside sha256 sideNode hash bit := by
  rw [digestBeside, digestNode, digestNode]
  split
  next hbit => simp [hbit, stepFor, left, InnerOp.apply, HashOp.doHash, innerPrefix]
  next hbit => simp [hbit, stepFor, left, InnerOp.apply, HashOp.doHash, innerPrefix]

/-- A path of 32 bytes has 256 bits. -/
theorem exists_getPathBit (hpath : path.length = 32) {position : ℕ} (h : position < 256) :
    ∃ bit, getPathBit path position = some bit := by
  have hindex : position / 8 < path.length := by omega
  rw [getPathBit, List.getElem?_eq_getElem hindex]
  exact ⟨_, rfl⟩

/-- Both ways up, from any level on: `n` is the position of the bit for the lowest side node. -/
theorem steps_of_levels (sha256 : Bytes → Bytes) {n : ℕ} {levels : List (Bytes × ℕ)}
    (hbits : ∀ level ∈ levels, ∃ bit, getPathBit path (n - level.2) = some bit) (hash : Bytes) :
    ∃ steps,
      levels.mapM (fun level => (isLeft path (n - level.2)).map (stepFor level.1)) = some steps
      ∧ levels.foldlM (fun hash level =>
          (getPathBit path (n - level.2)).map (digestBeside sha256 level.1 hash)) hash
        = some (steps.foldl (InnerOp.apply sha256) hash)
      ∧ List.Forall₂ Carries (levels.map Prod.fst) steps := by
  induction levels generalizing hash with
  | nil => exact ⟨[], rfl, rfl, .nil⟩
  | cons level levels ih =>
    obtain ⟨bit, hbit⟩ := hbits level (List.mem_cons_self ..)
    obtain ⟨steps, hsteps, hroot, hcarry⟩ :=
      ih (fun level hlevel => hbits level (List.mem_cons_of_mem _ hlevel))
        ((stepFor level.1 (bit == left)).apply sha256 hash)
    refine ⟨stepFor level.1 (bit == left) :: steps, ?_, ?_, .cons (stepFor_carries ..) hcarry⟩
    · rw [List.mapM_cons, hsteps, isLeft, hbit]
      rfl
    · rw [List.foldl_cons, ← hroot, List.foldlM_cons, hbit, Option.map_some, apply_stepFor]
      rfl

/-- **The steps recompute the root**, and each of them carries its side node once. -/
theorem convertSideNodesToSteps_root (sha256 : Bytes → Bytes) (hpath : path.length = 32)
    (leafHash : Bytes) {sideNodes : List Bytes} (hdepth : sideNodes.length ≤ 256) :
    ∃ steps, convertSideNodesToSteps sideNodes path = some steps
      ∧ smtRoot sha256 path leafHash sideNodes
        = some (steps.foldl (InnerOp.apply sha256) leafHash)
      ∧ List.Forall₂ Carries sideNodes steps := by
  have hbits : ∀ level ∈ sideNodes.zipIdx,
      ∃ bit, getPathBit path (sideNodes.length - 1 - level.2) = some bit := by
    intro level hlevel
    have hindex := (List.mem_zipIdx hlevel).2.1
    exact exists_getPathBit hpath (by omega)
  obtain ⟨steps, hsteps, hroot, hcarry⟩ := steps_of_levels sha256 hbits leafHash
  rw [List.zipIdx_map_fst] at hcarry
  exact ⟨steps, hsteps, hroot, hcarry⟩

theorem convertSideNodesToSteps_root_two :
    ∃ steps, convertSideNodesToSteps [[7], [8]] (64 :: List.replicate 31 0) = some steps
      ∧ smtRoot id (64 :: List.replicate 31 0) [0] [[7], [8]]
        = some (steps.foldl (InnerOp.apply id) [0]) := by
  obtain ⟨steps, hsteps, hroot, -⟩ :=
    @convertSideNodesToSteps_root (64 :: List.replicate 31 0) id (by decide) [0] [[7], [8]]
      (by decide)
  exact ⟨steps, hsteps, hroot⟩

end Pocket.Analysis
