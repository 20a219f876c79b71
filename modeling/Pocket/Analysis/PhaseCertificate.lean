import Pocket.Analysis.QuorumCertificate

/-!
# Which certificate a replica acts on

`HandlePrecommitMessage`, `HandleCommitMessage` and `HandleDecideMessage` act on the
certificate of the message: they move on, keep it as `prepareQC` or `lockedQC`, or commit.
All three check it with `validateQuorumCertificate` alone, which does not look at the
node's phase, view or block.  What keeps a stray certificate away are the signatures: where all
but two thirds of the entries are signatures for the node's own phase, view and block, one of them
is among those that the validation counts, and it is over one content only.
-/

set_option autoImplicit false

namespace Pocket.Analysis

open Pocket.Model

variable (P : Platform) (cfg : NodeConfig) (env : Env)

/-- The phase whose votes the certificate of a message of the given step certifies. -/
def certifiedPhase (step : ℤ) : ℤ :=
  if step = PreCommit then Prepare else if step = Commit then PreCommit else Commit

/-- The certificate belongs to the node's phase, height, round and current block. -/
def BoundToPhase (m : NodeState) (step : ℤ) (qc : QuorumCertificate) : Prop :=
  qc.step = certifiedPhase step ∧ qc.height = m.height ∧ qc.round = m.round
    ∧ qc.block.map Block.withoutCertificate = m.block.map Block.withoutCertificate

/-- The handler moved the step forward, set one of the two certificates, or committed. -/
def Acted (m : NodeState) (r : Result) : Prop :=
  (∃ m', r.state = some m' ∧ m'.height = m.height ∧ m'.round = m.round
    ∧ (m.step < m'.step ∨ m'.prepareQC ≠ m.prepareQC ∨ m'.lockedQC ≠ m.lockedQC))
  ∨ ∃ height block uow, Output.committed height block uow ∈ r.out

/-- The message carries a certificate for the node's phase, view and block. -/
def CarriesOwnCertificate (m : NodeState) (msg : HotstuffMessage) : Prop :=
  ∃ qc, msg.getQuorumCertificate = some qc ∧ BoundToPhase m msg.step qc

/-- No entry is a validator's signature over two contents. -/
def SignaturesBind (validators : List Actor) (sigs : List PartialSignature) : Prop :=
  ∀ ps ∈ sigs, ∀ content content', signs P validators content ps = true →
    signs P validators content' ps = true → content = content'

/-- The entries of the message's certificate that are no signatures for the node's own phase, view
and block are at most two thirds of the validators in number. -/
def SignedForPhase (m : NodeState) (msg : HotstuffMessage) : Prop :=
  ∀ qc, msg.getQuorumCertificate = some qc →
    3 * (signatureList qc).countP (fun ps => !signs P (validatorsOf env m)
        (ownContent m (certifiedPhase msg.step)) ps)
      ≤ 2 * (validatorsOf env m).length

variable {P cfg env} {m m' : NodeState} {msg : HotstuffMessage} {r : Result}

theorem not_acted_interruptRound (hr : m'.round = m.round) :
    ¬ Acted m (interruptRound cfg m') := by
  rw [interruptRound_eq]
  rintro (⟨m₁, ⟨rfl⟩, -, hround, -⟩ | ⟨h, b, u, hmem⟩)
  · have : incrRound m'.round = m.round := hround
    rw [hr] at this
    unfold incrRound at this
    omega
  · exact not_committed_viewMessages hmem

/-- A handler that acts has validated the certificate of the message. -/
theorem validated_of_acted (hcert : msg.step = PreCommit ∨ msg.step = Commit ∨ msg.step = Decide)
    (h : ReplicaStep P cfg env m msg r) (hacted : Acted m r) :
    ∃ qc, msg.getQuorumCertificate = some qc
      ∧ validateQuorumCertificate P env m (some qc) = true := by
  have hnew : msg.step ≠ NewRound := by
    rcases hcert with h | h | h <;> rw [h] <;> decide
  have hprep : msg.step ≠ Prepare := by
    rcases hcert with h | h | h <;> rw [h] <;> decide
  cases h with
  | crashed | rejected => simp [Acted] at hacted
  | refreshFailed hs | refreshed hs => exact absurd hs hnew
  | interrupted uow => exact absurd hacted (not_acted_interruptRound rfl)
  | votedPrepare _ _ hs => exact absurd hs hprep
  | votedPreCommit qc hs hante hqc hvalid | votedCommit qc hs hante hqc hvalid =>
    exact ⟨qc, hqc, hvalid⟩
  | decided qc _ hs hante hqc hvalid hr => exact ⟨qc, hqc, hvalid⟩

/-- Of the entries that an accepted certificate counts, one is over a content for which all but two
thirds of the entries are signatures. -/
theorem exists_signs_both {qc : QuorumCertificate} {content : HotstuffMessage}
    (hvalid : validateQuorumCertificate P env m (some qc) = true)
    (hfew : 3 * (signatureList qc).countP (fun ps => !signs P (validatorsOf env m) content ps)
      ≤ 2 * (validatorsOf env m).length) :
    ∃ ps ∈ signatureList qc, countsAsValid P (validatorsOf env m) qc ps = true
      ∧ signs P (validatorsOf env m) content ps = true := by
  obtain ⟨-, -, validators, hvals, hcount⟩ := validateQuorumCertificate_iff.mp hvalid
  have hof : validatorsOf env m = validators := by simp [validatorsOf, hvals]
  rw [hof] at hfew ⊢
  by_contra hnone
  push Not at hnone
  have hle : (signatureList qc).countP (countsAsValid P validators qc)
      ≤ (signatureList qc).countP (fun ps => !signs P validators content ps) := by
    refine List.countP_mono_left fun ps hps hcounts => ?_
    rw [Bool.not_eq_true']
    exact Bool.eq_false_iff.mpr (hnone ps hps hcounts)
  omega

variable (P cfg env)

/-- SOURCE: consensus/hotstuff_replica.go:81-169 — **when a certificate is used for its own
phase.**  In every state, a handler of `PreCommit`, `Commit` or `Decide` messages acts only on a
certificate of the node's phase, height, round and block, if all but two thirds of the certificate's
entries are signatures for them and no entry is a signature over two contents. -/
theorem acts_on_own_certificate (m : NodeState) (msg : HotstuffMessage)
    (hcert : msg.step = PreCommit ∨ msg.step = Commit ∨ msg.step = Decide)
    (hbind : ∀ qc, msg.getQuorumCertificate = some qc →
      SignaturesBind P (validatorsOf env m) (signatureList qc))
    (hsigned : SignedForPhase P env m msg)
    (hacted : Acted m (replicaHandlers P cfg env msg.step m msg)) :
    CarriesOwnCertificate m msg := by
  obtain ⟨qc, hqc, hvalid⟩ :=
    validated_of_acted hcert (replicaHandlers_step P cfg env m msg) hacted
  obtain ⟨ps, hps, hcounts, hown⟩ := exists_signs_both hvalid (hsigned qc hqc)
  have hsame := hbind qc hqc ps hps _ _ hcounts hown
  obtain ⟨hheight, hstep, hround, hblock⟩ : qc.height = m.height
      ∧ qc.step = certifiedPhase msg.step ∧ qc.round = m.round ∧ qc.block = m.block := by
    simpa [getSignableBytes, qcToHotstuffMessage, ownContent] using hsame
  exact ⟨qc, hqc, hstep, hheight, hround, by rw [hblock]⟩

/-! ## A certificate of another phase, round and block -/

/-- A replica that accepts the proposal of a block in the first round of height 1. -/
def acceptedProposal (P : Platform) : NodeRun :=
  Runs.run (NodeRun.step P (fourConfig 1 "a1")) (NodeRun.start 1)
    [(fourEnv "s", .message (newRoundMsg 1 0)),
     (fourEnv "s", .message (prepareMsg 1 0 (plainBlock 1 "s" "p")))]

/-- The state it is in afterwards. -/
def afterProposal (P : Platform) : NodeState :=
  (acceptedProposal P).state.getD (initialState 1)

/-- A message of the first round that carries a certificate. -/
def phaseMsg (step : ℤ) (block : Block) (qc : QuorumCertificate) : HotstuffMessage :=
  { type := Propose, height := 1, step := step, round := 0, block := some block,
    justification := .quorumCertificate qc }

/-- A `Commit` certificate of round 3 for another block. -/
def strayCertificate : QuorumCertificate := threeSigners 3 Commit (plainBlock 1 "s" "other")

/-- The replica takes it for the `Prepare` certificate of its own round and block. -/
theorem stray_certificate_used :
    let P := signedBy strayCertificate
    let msg := phaseMsg PreCommit (plainBlock 1 "s" "p") strayCertificate
    (acceptedProposal P).state.isSome = true ∧ isLeader (fourConfig 1 "a1") (afterProposal P) = false
      ∧ (afterProposal P).step = msg.step
      ∧ Acted (afterProposal P)
          (replicaHandlers P (fourConfig 1 "a1") (fourEnv "s") msg.step (afterProposal P) msg)
      ∧ ¬ CarriesOwnCertificate (afterProposal P) msg := by
  refine ⟨by decide, by decide, by decide,
    .inl ⟨_, rfl, by decide, by decide, .inl (by decide)⟩, ?_⟩
  rintro ⟨qc, ⟨rfl⟩, hstep, -⟩
  exact absurd hstep (by decide)

/-- The certificate the message should carry. -/
def ownCertificate : QuorumCertificate := threeSigners 0 Prepare (plainBlock 1 "s" "p")

/-- On the certificate of its own phase, view and block the replica acts, and it carries them. -/
theorem own_certificate_used :
    let P := signedBy ownCertificate
    let msg := phaseMsg PreCommit (plainBlock 1 "s" "p") ownCertificate
    Acted (afterProposal P)
        (replicaHandlers P (fourConfig 1 "a1") (fourEnv "s") msg.step (afterProposal P) msg)
      ∧ CarriesOwnCertificate (afterProposal P) msg := by
  intro P msg
  have hacted : Acted (afterProposal P)
      (replicaHandlers P (fourConfig 1 "a1") (fourEnv "s") msg.step (afterProposal P) msg) :=
    .inl ⟨_, rfl, by decide, by decide, .inl (by decide)⟩
  refine ⟨hacted, acts_on_own_certificate P (fourConfig 1 "a1") (fourEnv "s") _ msg (.inl rfl)
    ?_ ?_ hacted⟩
  · -- the platform accepts signatures over one content only
    have hone : ∀ ps content, signs P fourValidators content ps = true →
        content = getSignableBytes (qcToHotstuffMessage ownCertificate) := by
      intro ps content hsigns
      unfold signs at hsigns
      split at hsigns
      · cases hsigns
      · have hlisted := List.contains_iff_mem.mp hsigns
        simp only [List.mem_cons, Prod.mk.injEq, List.not_mem_nil, or_false] at hlisted
        rcases hlisted with ⟨-, h, -⟩ | ⟨-, h, -⟩ | ⟨-, h, -⟩ <;> exact h
    intro qc hqc ps hps content content' h h'
    exact (hone ps content h).trans (hone ps content' h').symm
  · rintro qc ⟨rfl⟩
    decide

end Pocket.Analysis
