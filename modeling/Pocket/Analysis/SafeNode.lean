import Mathlib.Data.Prod.Lex
import Pocket.Model.Node

/-!
# Which proposals a replica accepts

HotStuff's rule `safeNode`: a node that is not locked accepts; a locked node accepts a proposal whose
justification is for its locked block, or later than its lock.  `validateProposal` decides this with
errors: its helper `isNodeLockedOnPastQC` recognises the later justification, and comes with an error
that is then returned.  Here the function is written with its helpers and its errors,
`validateProposal_eq` says that it is the one the handlers call, and `safe_node_iff` when it follows
the rule.
-/

set_option autoImplicit false

namespace Pocket.Model

/-! ## The check with its helpers -/

/-- The errors of `validateProposal`; `invalidCertificate` is that of `validateQuorumCertificate`.
SOURCE: consensus/types/messages.go:93-101 -/
inductive ProposalError where
  | proposalNotValidInPrepare
  | invalidCertificate
  | nodeLockedPastHeight
  | unhandledProposalCase
deriving DecidableEq, Repr

/-- SOURCE: consensus/hotstuff_replica.go:322-324 -/
def isLockedOnPastHeight (justifyQC lockedQC : QuorumCertificate) : Bool :=
  decide (lockedQC.height < justifyQC.height)

/-- SOURCE: consensus/hotstuff_replica.go:326-328 -/
def isLockedOnCurrHeightAndPastRound (justifyQC lockedQC : QuorumCertificate) : Bool :=
  decide (justifyQC.height = lockedQC.height) && decide (lockedQC.round < justifyQC.round)

/-- SOURCE: consensus/hotstuff_replica.go:313-320 -/
def isNodeLockedOnPastQC (justifyQC lockedQC : QuorumCertificate) : Bool × Option ProposalError :=
  if isLockedOnPastHeight justifyQC lockedQC then (true, some .nodeLockedPastHeight)
  else if isLockedOnCurrHeightAndPastRound justifyQC lockedQC then (true, some .nodeLockedPastHeight)
  else (false, none)

variable (P : Platform) (env : Env)

/-- What `validateProposal` returns: `none` is a nil error.
SOURCE: consensus/hotstuff_replica.go:196-234 -/
def validateProposalError (m : NodeState) (msg : HotstuffMessage) : Call (Option ProposalError) :=
  if ¬ (msg.type = Propose ∧ msg.step = Prepare) then .ok (some .proposalNotValidInPrepare)
  else if msg.getQuorumCertificate.isSome
      ∧ validateQuorumCertificate P env m msg.getQuorumCertificate = false then
    .ok (some .invalidCertificate)
  else
    match m.lockedQC with
    | none => .ok none
    | some lockedQC =>
      -- the block of the justification is read before anything else, also when there is none
      match msg.getQuorumCertificate with
      | none => .halt
      | some justifyQC =>
        if protoHash lockedQC.block = protoHash justifyQC.block then .ok none
        else
          match isNodeLockedOnPastQC justifyQC lockedQC with
          | (true, err) => .ok err
          | (false, _) => .ok (some .unhandledProposalCase)

/-- A call that returns an error only. -/
def ofError {ε : Type} : Call (Option ε) → Call Unit
  | .ok none => .ok ()
  | .ok (some _) => .err
  | .err => .err
  | .halt => .halt

theorem isNodeLockedOnPastQC_err {justifyQC lockedQC : QuorumCertificate} {err : Option ProposalError}
    (h : isNodeLockedOnPastQC justifyQC lockedQC = (true, err)) :
    err = some .nodeLockedPastHeight := by
  rw [isNodeLockedOnPastQC] at h
  split at h
  · exact (Prod.mk.inj h).2.symm
  split at h
  · exact (Prod.mk.inj h).2.symm
  · cases h

/-- The handlers call this check. -/
theorem validateProposal_eq (m : NodeState) (msg : HotstuffMessage) :
    validateProposal P env m msg = ofError (validateProposalError P env m msg) := by
  rw [validateProposal, validateProposalError]
  by_cases hproposal : msg.type = Propose ∧ msg.step = Prepare
  swap
  · rw [if_neg hproposal, if_pos hproposal, ofError]
  rw [if_pos hproposal, if_neg (not_not_intro hproposal)]
  split
  · rfl
  cases m.lockedQC with
  | none => rfl
  | some lockedQC =>
    cases msg.getQuorumCertificate with
    | none => rfl
    | some justifyQC =>
      dsimp only
      split
      · rfl
      split
      · rename_i err herr
        rw [isNodeLockedOnPastQC_err herr, ofError]
      · rfl

end Pocket.Model

namespace Pocket.Analysis

open Pocket.Model

/-! ## The rule -/

/-- Height and round of a certificate, in the order of views. -/
def certificateView (qc : QuorumCertificate) : ℕ ×ₗ ℕ := toLex (qc.height, qc.round)

/-- The rule: the node is not locked, or the proposal has a justification, and that is for the locked
block or later than the lock. -/
def SafeNode (lockedQC justifyQC : Option QuorumCertificate) : Prop :=
  ∀ locked, lockedQC = some locked → ∃ justify, justifyQC = some justify
    ∧ (justify.block = locked.block ∨ certificateView locked < certificateView justify)

/-- The check returns, and returns nil for the proposals of the rule and no others. -/
def FollowsRule (P : Platform) (env : Env) (m : NodeState) (msg : HotstuffMessage) : Prop :=
  ∃ err, validateProposalError P env m msg = .ok err
    ∧ (err = none ↔ SafeNode m.lockedQC msg.getQuorumCertificate)

variable {P : Platform} {env : Env} {m : NodeState} {msg : HotstuffMessage}

theorem isNodeLockedOnPastQC_iff {justify locked : QuorumCertificate} :
    (isNodeLockedOnPastQC justify locked).1 = true
      ↔ certificateView locked < certificateView justify := by
  rw [certificateView, certificateView, Prod.Lex.toLex_lt_toLex]
  simp only [isNodeLockedOnPastQC, isLockedOnPastHeight, isLockedOnCurrHeightAndPastRound,
    Bool.and_eq_true, decide_eq_true_eq]
  split
  · simp [*]
  split
  · rename_i heq
    simp [heq.1, heq.2]
  · rename_i hheight hround
    simp only [Bool.false_eq_true, false_iff, not_or]
    exact ⟨hheight, fun h => hround ⟨h.1.symm, h.2⟩⟩

theorem validateProposalError_of_locked {locked : QuorumCertificate}
    (hproposal : msg.type = Propose ∧ msg.step = Prepare)
    (haccepted : ∀ qc, msg.getQuorumCertificate = some qc →
      validateQuorumCertificate P env m (some qc) = true) (hlocked : m.lockedQC = some locked) :
    (msg.getQuorumCertificate = none ∧ validateProposalError P env m msg = .halt)
      ∨ ∃ justify err, msg.getQuorumCertificate = some justify
        ∧ validateProposalError P env m msg = .ok err
        ∧ (err = none ↔ protoHash locked.block = protoHash justify.block) := by
  rw [validateProposalError, if_neg (not_not_intro hproposal)]
  cases hqc : msg.getQuorumCertificate with
  | none =>
    rw [if_neg (by simp)]
    simp [hlocked]
  | some justify =>
    rw [if_neg (by simp [haccepted justify hqc]), hlocked]
    refine .inr ⟨justify, ?_⟩
    dsimp only
    split
    · exact ⟨none, rfl, rfl, iff_of_true rfl ‹_›⟩
    split
    · rename_i herr
      exact ⟨_, rfl, rfl, iff_of_false (by simp [isNodeLockedOnPastQC_err herr]) ‹_›⟩
    · exact ⟨_, rfl, rfl, iff_of_false (by simp) ‹_›⟩

/-- A justification that is later than the lock, and for another block, is refused. -/
theorem validateProposalError_of_later {locked justify : QuorumCertificate}
    (hproposal : msg.type = Propose ∧ msg.step = Prepare) (hlocked : m.lockedQC = some locked)
    (hqc : msg.getQuorumCertificate = some justify)
    (haccepted : validateQuorumCertificate P env m (some justify) = true)
    (hother : protoHash locked.block ≠ protoHash justify.block)
    (hlater : certificateView locked < certificateView justify) :
    validateProposalError P env m msg = .ok (some .nodeLockedPastHeight) := by
  have hpast := isNodeLockedOnPastQC_iff.mpr hlater
  rw [validateProposalError, if_neg (not_not_intro hproposal), hqc, if_neg (by simp [haccepted]),
    hlocked]
  dsimp only
  rw [if_neg hother]
  cases hresult : isNodeLockedOnPastQC justify locked with
  | mk isLocked err =>
    rw [hresult] at hpast
    cases hpast
    rw [isNodeLockedOnPastQC_err hresult]

/-- **When `validateProposal` is the rule.**  For every lock and every `Prepare` proposal whose
certificate is nil or accepted, the check returns and follows the rule exactly when the node is not
locked, or the proposal has a certificate, and this certificate is for the locked block, or is later
than the lock exactly if its block has the encoding of the locked one (which for another block is so
only if the lock has no block and the certificate an empty one). -/
theorem safe_node_iff (hproposal : msg.type = Propose ∧ msg.step = Prepare)
    (haccepted : ∀ qc, msg.getQuorumCertificate = some qc →
      validateQuorumCertificate P env m (some qc) = true) :
    FollowsRule P env m msg ↔ ∀ locked, m.lockedQC = some locked →
      ∃ justify, msg.getQuorumCertificate = some justify
        ∧ (justify.block = locked.block
          ∨ (certificateView locked < certificateView justify
            ↔ protoHash locked.block = protoHash justify.block)) := by
  cases hlocked : m.lockedQC with
  | none =>
    have haccept : ¬ (msg.getQuorumCertificate.isSome
        ∧ validateQuorumCertificate P env m msg.getQuorumCertificate = false) := by
      rintro ⟨hsome, hinvalid⟩
      obtain ⟨qc, hqc⟩ := Option.isSome_iff_exists.mp hsome
      rw [hqc, haccepted qc hqc] at hinvalid
      cases hinvalid
    refine iff_of_true ⟨none, ?_, iff_of_true rfl ?_⟩ nofun
    · rw [validateProposalError, if_neg (not_not_intro hproposal), if_neg haccept, hlocked]
    · intro locked h
      rw [hlocked] at h
      cases h
  | some locked =>
    rcases validateProposalError_of_locked hproposal haccepted hlocked with
      ⟨hnone, hhalt⟩ | ⟨justify, err, hqc, hreturns, herr⟩
    · refine iff_of_false ?_ ?_
      · rintro ⟨err, hreturns, -⟩
        rw [hhalt] at hreturns
        cases hreturns
      · intro h
        obtain ⟨justify, hjustify, -⟩ := h locked rfl
        rw [hnone] at hjustify
        cases hjustify
    · have hrule : SafeNode m.lockedQC msg.getQuorumCertificate ↔
          (justify.block = locked.block ∨ certificateView locked < certificateView justify) := by
        simp [SafeNode, hlocked, hqc]
      have hfollows : FollowsRule P env m msg ↔
          (protoHash locked.block = protoHash justify.block ↔
            (justify.block = locked.block
              ∨ certificateView locked < certificateView justify)) := by
        simp only [FollowsRule, hreturns, hrule, Call.ok.injEq, exists_eq_left', herr]
      have hencoding : justify.block = locked.block →
          protoHash locked.block = protoHash justify.block := fun h => by rw [h]
      rw [hfollows]
      simp only [hqc, Option.some.injEq, exists_eq_left', forall_eq']
      tauto

/-! ## A node that is locked on the first round -/

/-- A certificate for a block, signed by three of the four validators. -/
def threeSigned (round : ℕ) (block : Block) : QuorumCertificate where
  height := 1
  round := round
  step := Prepare
  block := some block
  thresholdSignature := some { signatures := [⟨[1], "a1"⟩, ⟨[2], "a2"⟩, ⟨[3], "a3"⟩] }

/-- Three validators have signed a block in the first round and another one in the second. -/
def twoRoundsSigned : Platform :=
  listedSignatures <| [threeSigned 0 (plainBlock 1 "s" ""), threeSigned 1 (plainBlock 1 "t" "")].flatMap
    fun qc => [("k1", getSignableBytes (qcToHotstuffMessage qc), [1]),
      ("k2", getSignableBytes (qcToHotstuffMessage qc), [2]),
      ("k3", getSignableBytes (qcToHotstuffMessage qc), [3])]

/-- A replica in the second round that is locked on the block of the first. -/
def lockedOnFirst : NodeState :=
  { initialState 1 with round := 1, step := Prepare, lockedQC := some (threeSigned 0 (plainBlock 1 "s" "")) }

/-- The proposal of a block in the second round, justified by its certificate. -/
def justifiedProposal (justification : Justification) : HotstuffMessage :=
  { prepareMsg 1 1 (plainBlock 1 "t" "") with justification := justification }

/-- The proposal of the second round's block with its certificate is refused, and without a
certificate it ends the process. -/
theorem later_justification_refused :
    validateQuorumCertificate twoRoundsSigned (fourEnv "t") lockedOnFirst
        (some (threeSigned 1 (plainBlock 1 "t" ""))) = true
      ∧ SafeNode lockedOnFirst.lockedQC
        (justifiedProposal (.quorumCertificate (threeSigned 1 (plainBlock 1 "t" "")))).getQuorumCertificate
      ∧ validateProposalError twoRoundsSigned (fourEnv "t") lockedOnFirst
          (justifiedProposal (.quorumCertificate (threeSigned 1 (plainBlock 1 "t" ""))))
        = .ok (some .nodeLockedPastHeight)
      ∧ validateProposalError twoRoundsSigned (fourEnv "t") lockedOnFirst (justifiedProposal .none)
        = .halt := by
  have haccepted : validateQuorumCertificate twoRoundsSigned (fourEnv "t") lockedOnFirst
      (some (threeSigned 1 (plainBlock 1 "t" ""))) = true := by decide +kernel
  have hlater : certificateView (threeSigned 0 (plainBlock 1 "s" ""))
      < certificateView (threeSigned 1 (plainBlock 1 "t" "")) := by
    rw [certificateView, certificateView, Prod.Lex.toLex_lt_toLex]
    exact .inr ⟨rfl, by decide⟩
  refine ⟨haccepted, ?_, ?_, by decide +kernel⟩
  · rintro locked ⟨⟩
    exact ⟨_, rfl, .inr hlater⟩
  · exact validateProposalError_of_later ⟨rfl, rfl⟩ rfl rfl haccepted (by decide) hlater

/-- A proposal with the certificate of the locked block is accepted, as it should be. -/
theorem same_block_accepted :
    FollowsRule twoRoundsSigned (fourEnv "s") lockedOnFirst
      (justifiedProposal (.quorumCertificate (threeSigned 0 (plainBlock 1 "s" "")))) := by
  refine (safe_node_iff ⟨rfl, rfl⟩ ?_).mpr ?_
  · rintro qc ⟨⟩
    decide +kernel
  · rintro locked ⟨⟩
    exact ⟨_, rfl, .inl rfl⟩

end Pocket.Analysis
