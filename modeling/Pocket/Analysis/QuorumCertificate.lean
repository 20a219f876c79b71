import Pocket.Library.Quorum
import Pocket.Model.Node

/-!
# What a valid quorum certificate proves

`validateQuorumCertificate` counts the entries of the certificate's signature list.  The
law it should establish is about the *set* of validators behind these entries.  The two
agree on the certificates whose valid entries are of pairwise distinct validators.
-/

set_option autoImplicit false

namespace Pocket.Analysis

open Pocket.Model

variable (P : Platform) (env : Env)

/-- The entry is a signature over the content, under the key of the validator of its address. -/
def signs (validators : List Actor) (content : HotstuffMessage) (ps : PartialSignature) : Bool :=
  match (newActorMapper validators).validatorMap ps.address with
  | none => false
  | some validator => P.verify validator.publicKey content ps.signature

/-- What a validator signs for a step, in the node's view and on its block. -/
def ownContent (m : NodeState) (step : ℤ) : HotstuffMessage :=
  { type := 0, height := m.height, step := step, round := m.round, block := m.block,
    justification := .none }

/-- Whether the loop of `validateQuorumCertificate` counts an entry.
SOURCE: consensus/hotstuff_replica.go:290-304 -/
def countsAsValid (validators : List Actor) (qc : QuorumCertificate) (ps : PartialSignature) :
    Bool :=
  signs P validators (getSignableBytes (qcToHotstuffMessage qc)) ps

/-- The signature list of a certificate. -/
def signatureList (qc : QuorumCertificate) : List PartialSignature :=
  qc.thresholdSignature.elim [] (·.signatures)

/-- The validators that have, in the certificate, a signature valid under their public key
over the certificate's height, step, round and block; each is named by its address. -/
def validSigners (validators : List Actor) (qc : QuorumCertificate) : Finset String :=
  Quorum.keys (countsAsValid P validators qc) PartialSignature.address (signatureList qc)

/-- The validators are those at the node's height; a failed read gives none. -/
def validatorsOf (m : NodeState) : List Actor := (env.getValidatorsAtHeight m.height).getD []

/-- **Soundness of a certificate**: if it passes, more than two thirds of the validators of
the node's height, as a set, have signed it. -/
def CertificateSound (m : NodeState) (qc : QuorumCertificate) : Prop :=
  validateQuorumCertificate P env m (some qc) = true →
    2 * (validatorsOf env m).length < 3 * (validSigners P (validatorsOf env m) qc).card

variable {P env} {qc : QuorumCertificate}

/-- An entry signs a content if its address is a validator's and the signature verifies. -/
theorem signs_iff {validators : List Actor} {content : HotstuffMessage} {ps : PartialSignature} :
    signs P validators content ps = true ↔
      ∃ validator, (newActorMapper validators).validatorMap ps.address = some validator
        ∧ P.verify validator.publicKey content ps.signature = true := by
  unfold signs
  cases (newActorMapper validators).validatorMap ps.address <;> simp

/-- The signers are the validators with a valid signature in the list. -/
theorem mem_validSigners {validators : List Actor} {addr : String} :
    addr ∈ validSigners P validators qc ↔
      ∃ validator, (newActorMapper validators).validatorMap addr = some validator
        ∧ ∃ ps ∈ signatureList qc, ps.address = addr
          ∧ isSignatureValid P (qcToHotstuffMessage qc) validator.publicKey ps.signature = true := by
  simp only [validSigners, Quorum.mem_keys, countsAsValid, signs_iff]
  constructor
  · rintro ⟨ps, hps, ⟨validator, hv, hvalid⟩, rfl⟩
    exact ⟨validator, hv, ps, hps, rfl, hvalid⟩
  · rintro ⟨validator, hv, ps, hps, rfl, hvalid⟩
    exact ⟨ps, hps, ⟨validator, hv, hvalid⟩, rfl⟩

/-- The counting loop counts the valid entries. -/
theorem countValidSignatures_eq (validators : List Actor) (qc : QuorumCertificate)
    (sigs : List PartialSignature) (numValid : ℕ) :
    countValidSignatures P (newActorMapper validators).validatorMap (qcToHotstuffMessage qc)
        numValid sigs
      = numValid + sigs.countP (countsAsValid P validators qc) := by
  induction sigs generalizing numValid with
  | nil => rfl
  | cons ps sigs ih =>
    rw [countValidSignatures, List.countP_cons, countsAsValid, signs]
    cases (newActorMapper validators).validatorMap ps.address with
    | none => simp [ih]
    | some validator =>
      simp only [ih, isSignatureValid]
      split
      · omega
      · omega

/-- What `validateQuorumCertificate` accepts. -/
theorem validateQuorumCertificate_iff {m : NodeState} :
    validateQuorumCertificate P env m (some qc) = true ↔
      qc.block.isSome ∧ signatureList qc ≠ [] ∧
        ∃ validators, env.getValidatorsAtHeight m.height = some validators
          ∧ 2 * validators.length
              < 3 * (signatureList qc).countP (countsAsValid P validators qc) := by
  unfold validateQuorumCertificate
  cases hb : qc.block with
  | none => simp [hb]
  | some b =>
    cases hts : qc.thresholdSignature with
    | none => simp [hb, signatureList, hts]
    | some ts =>
      cases hvals : env.getValidatorsAtHeight m.height with
      | none => simp [hb, hts]
      | some validators =>
        by_cases hempty : ts.signatures = []
        · simp [hb, signatureList, hts, hempty]
        · simp [hb, signatureList, hts, hempty, validateOptimisticThresholdMet,
            countValidSignatures_eq]

/-- The valid entries of the certificate are of pairwise distinct validators. -/
def SignersDistinct (P : Platform) (validators : List Actor) (qc : QuorumCertificate) : Prop :=
  (((signatureList qc).filter (countsAsValid P validators qc)).map PartialSignature.address).Nodup

variable (P env)

/-- A certificate by three distinct validators. -/
def threeSigners (round : ℕ) (step : ℤ) (block : Block) : QuorumCertificate where
  height := 1
  round := round
  step := step
  block := some block
  thresholdSignature := some { signatures := [⟨[2], "a2"⟩, ⟨[3], "a3"⟩, ⟨[4], "a4"⟩] }

/-- The platform on which exactly the three signatures of a certificate are valid. -/
def signedBy (qc : QuorumCertificate) : Platform :=
  let content := getSignableBytes (qcToHotstuffMessage qc)
  listedSignatures [("k2", content, [2]), ("k3", content, [3]), ("k4", content, [4])]

/-- A certificate in which one validator's signature stands three times. -/
def repeatedSignature : QuorumCertificate where
  height := 1
  round := 0
  step := Prepare
  block := some (plainBlock 1 "s" "p")
  thresholdSignature := some { signatures := List.replicate 3 ⟨[4], "a4"⟩ }

end Pocket.Analysis
