import Mathlib.Data.Finset.Basic
import Mathlib.Data.Nat.Notation
import Mathlib.Order.Defs.LinearOrder

/-!
# Three-phase voting with locks

The voting rules behind HotStuff, without messages, signatures or time: voters vote, round
by round, for a block in the phases prepare, pre-commit and commit.  A block is *certified*
in a phase when a quorum has voted for it there, as far as its correct members go.

* `Allowed` is what a correct voter checks before it casts a vote, given all votes cast so
  far; `Fair` logs are those in which every vote was allowed when it was cast.
* `agreement`: in a fair log, two blocks certified for commit at one height are equal.

The induction behind `agreement` is over the log, not over rounds: the certificate that
lets a locked voter vote for another block is made of votes cast before.
-/

set_option autoImplicit false

namespace LockedVoting

inductive Phase where
  | prepare
  | preCommit
  | commit
deriving DecidableEq, Repr

/-- The position of a phase within its round. -/
def Phase.index : Phase → ℕ
  | prepare => 0
  | preCommit => 1
  | commit => 2

structure Vote (N B : Type) where
  voter : N
  height : ℕ
  round : ℕ
  phase : Phase
  block : B

section Rules

variable {N B : Type} (correct : N → Prop) (quorum : ℕ → Finset N → Prop)

/-- The correct members of some quorum have voted for the block. -/
def Certified (log : List (Vote N B)) (height round : ℕ) (phase : Phase) (block : B) : Prop :=
  ∃ Q, quorum height Q ∧ ∀ i ∈ Q, correct i → ⟨i, height, round, phase, block⟩ ∈ log

/-- The order in which a voter goes through the rounds and phases of one height. -/
def Vote.Before (v w : Vote N B) : Prop :=
  v.round < w.round ∨ (v.round = w.round ∧ v.phase.index < w.phase.index)

/-- What a correct voter makes sure of when it votes.  The lock is its last commit vote: it
prepares a block again only with a pre-commit certificate that is not older. -/
structure Allowed (log : List (Vote N B)) (v : Vote N B) : Prop where
  order : ∀ w ∈ log, w.voter = v.voter → w.height = v.height → w.Before v
  prepare : v.phase = .prepare → ∀ w ∈ log, w.voter = v.voter → w.height = v.height →
    w.phase = .commit → ∃ r, w.round ≤ r ∧ Certified correct quorum log v.height r .preCommit v.block
  preCommit : v.phase = .preCommit →
    Certified correct quorum log v.height v.round .prepare v.block
  commit : v.phase = .commit →
    Certified correct quorum log v.height v.round .preCommit v.block

/-- Every vote was allowed when it was cast; the newest vote stands first. -/
inductive Fair : List (Vote N B) → Prop
  | nil : Fair []
  | cons {v : Vote N B} {log : List (Vote N B)} (h : Fair log)
      (hv : Allowed correct quorum log v) : Fair (v :: log)

variable {correct quorum} {log log' : List (Vote N B)} {v w : Vote N B} {height r r' : ℕ}
  {phase : Phase} {b b' : B}

theorem Certified.mono (hsub : log ⊆ log') (h : Certified correct quorum log height r phase b) :
    Certified correct quorum log' height r phase b := by
  obtain ⟨Q, hQ, hvotes⟩ := h
  exact ⟨Q, hQ, fun i hi hc => hsub (hvotes i hi hc)⟩

section

variable (h : Fair correct quorum log)
include h

theorem Fair.of_suffix (hs : log' <:+ log) : Fair correct quorum log' := by
  induction h with
  | nil => exact List.suffix_nil.mp hs ▸ .nil
  | cons h hv ih =>
    rcases List.suffix_cons_iff.mp hs with rfl | hs
    · exact .cons h hv
    · exact ih hs

/-- A vote of a fair log was allowed by the votes before it. -/
theorem Fair.allowed (hv : v ∈ log) :
    ∃ log', v :: log' <:+ log ∧ Allowed correct quorum log' v := by
  obtain ⟨newer, older, rfl⟩ := List.append_of_mem hv
  have hs : v :: older <:+ newer ++ v :: older := List.suffix_append _ _
  cases h.of_suffix hs with
  | cons _ hallowed => exact ⟨older, hs, hallowed⟩

/-- A vote that does not come after another one of the same voter and height was cast
before it, or is the same vote. -/
theorem Fair.mem_of_not_before (hlog' : v :: log' <:+ log) (hw : w ∈ log)
    (hvoter : v.voter = w.voter) (hheight : v.height = w.height) (hnot : ¬ v.Before w) :
    v = w ∨ w ∈ log' := by
  obtain ⟨logw, hlogw, hallowed⟩ := h.allowed hw
  rcases List.suffix_or_suffix_of_suffix hlog' hlogw with hs | hs
  · rcases List.suffix_cons_iff.mp hs with heq | hs
    · exact .inl (List.cons.inj heq).1
    · exact absurd (hallowed.order v (hs.subset (List.mem_cons_self ..)) hvoter hheight) hnot
  · rcases List.suffix_cons_iff.mp hs with heq | hs
    · exact .inl (List.cons.inj heq).1.symm
    · exact .inr (hs.subset (List.mem_cons_self ..))

/-- A voter votes once in a phase of a round. -/
theorem Fair.unique {i : N} (hv : ⟨i, height, r, phase, b⟩ ∈ log)
    (hw : ⟨i, height, r, phase, b'⟩ ∈ log) : b = b' := by
  have hsame : ∀ x y : B, ¬ Vote.Before (⟨i, height, r, phase, x⟩ : Vote N B)
      ⟨i, height, r, phase, y⟩ := by
    intro x y
    simp [Vote.Before]
  obtain ⟨log', hlog', hallowed⟩ := h.allowed hv
  rcases h.mem_of_not_before hlog' hw rfl rfl (hsame b b') with heq | hmem
  · exact (Vote.mk.injEq .. ▸ heq).2.2.2.2
  · exact absurd (hallowed.order _ hmem rfl rfl) (hsame b' b)

end

end Rules

section Agreement

variable {N B : Type} {correct : N → Prop} {quorum : ℕ → Finset N → Prop}
  (hquorum : ∀ height Q Q', quorum height Q → quorum height Q' → ∃ i ∈ Q, i ∈ Q' ∧ correct i)
  {log : List (Vote N B)} (hfair : Fair correct quorum log) {height r r' : ℕ} {phase : Phase}
  {b b' : B}

include hquorum hfair

/-- Two certificates of one round and phase are for the same block. -/
theorem certified_unique (h : Certified correct quorum log height r phase b)
    (h' : Certified correct quorum log height r phase b') : b = b' := by
  obtain ⟨Q, hQ, hvotes⟩ := h
  obtain ⟨Q', hQ', hvotes'⟩ := h'
  obtain ⟨i, hi, hi', hcorrect⟩ := hquorum height Q Q' hQ hQ'
  exact hfair.unique (hvotes i hi hcorrect) (hvotes' i hi' hcorrect)

omit hfair in
/-- A certificate is made of votes; one of them was cast by a correct voter. -/
theorem exists_vote (h : Certified correct quorum log height r phase b) :
    ∃ i, ⟨i, height, r, phase, b⟩ ∈ log := by
  obtain ⟨Q, hQ, hvotes⟩ := h
  obtain ⟨i, hi, -, hcorrect⟩ := hquorum height Q Q hQ hQ
  exact ⟨i, hvotes i hi hcorrect⟩

theorem prepare_of_preCommit (h : Certified correct quorum log height r .preCommit b) :
    Certified correct quorum log height r .prepare b := by
  obtain ⟨i, hvote⟩ := exists_vote hquorum h
  obtain ⟨log', hlog', hallowed⟩ := hfair.allowed hvote
  exact (hallowed.preCommit rfl).mono ((List.suffix_cons _ _).trans hlog').subset

section

variable (h : Certified correct quorum log height r .commit b)
include h

theorem preCommit_of_commit : Certified correct quorum log height r .preCommit b := by
  obtain ⟨i, hvote⟩ := exists_vote hquorum h
  obtain ⟨log', hlog', hallowed⟩ := hfair.allowed hvote
  exact (hallowed.commit rfl).mono ((List.suffix_cons _ _).trans hlog').subset

/-- **The lock holds.**  Once a block is certified for commit, at every moment of the log a
block prepared in a later round is that block. -/
theorem prepare_after_commit {log' : List (Vote N B)} (hlog' : log' <:+ log) (hr : r < r')
    (h' : Certified correct quorum log' height r' .prepare b') : b' = b := by
  -- strong induction on the length of the part of the log in which `b'` was prepared
  induction hn : log'.length using Nat.strong_induction_on generalizing log' r' with
  | _ n ih =>
    obtain ⟨Q, hQ, hcommits⟩ := h
    obtain ⟨Q', hQ', hprepares⟩ := h'
    obtain ⟨i, hi, hi', hcorrect⟩ := hquorum height Q Q' hQ hQ'
    have hcommit := hcommits i hi hcorrect
    have hprepare := hprepares i hi' hcorrect
    -- the member in both quorums cast its commit vote before the prepare vote
    have hfair' := hfair.of_suffix hlog'
    have hnot : ¬ Vote.Before (⟨i, height, r', .prepare, b'⟩ : Vote N B)
        ⟨i, height, r, .commit, b⟩ := by
      simp only [Vote.Before]
      omega
    obtain ⟨older, holder, hallowed⟩ := hfair'.allowed hprepare
    have hmem : ⟨i, height, r, .commit, b⟩ ∈ older := by
      rcases hfair.mem_of_not_before (holder.trans hlog') hcommit rfl rfl hnot with heq | hmem
      · simp at heq
      · exact hmem
    obtain ⟨rl, hrl, hcert⟩ := hallowed.prepare rfl _ hmem rfl rfl rfl
    have holder' : older <:+ log := ((List.suffix_cons _ _).trans holder).trans hlog'
    rcases Nat.lt_or_eq_of_le hrl with hlt | heq
    · have hlen : older.length < n := by
        have := holder.length_le
        simp only [List.length_cons] at this
        omega
      exact ih older.length hlen holder' hlt
        (prepare_of_preCommit hquorum (hfair.of_suffix holder') hcert) rfl
    · have hlocked := preCommit_of_commit hquorum hfair ⟨Q, hQ, hcommits⟩
      have hcert' := hcert.mono holder'.subset
      rw [← heq] at hcert'
      exact certified_unique hquorum hfair hcert' hlocked

/-- **Agreement.** -/
theorem agreement (h' : Certified correct quorum log height r' .commit b') : b = b' := by
  have hprepared {s : ℕ} {c : B} (hc : Certified correct quorum log height s .commit c) :
      Certified correct quorum log height s .prepare c :=
    prepare_of_preCommit hquorum hfair (preCommit_of_commit hquorum hfair hc)
  rcases Nat.lt_trichotomy r r' with hlt | heq | hgt
  · exact (prepare_after_commit hquorum hfair h (List.suffix_refl _) hlt (hprepared h')).symm
  · subst heq
    exact certified_unique hquorum hfair h h'
  · exact prepare_after_commit hquorum hfair h' (List.suffix_refl _) hgt (hprepared h)

end

end Agreement

end LockedVoting
