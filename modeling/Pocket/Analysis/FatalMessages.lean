import Pocket.Analysis.InterruptedRound
import Pocket.Analysis.LeaderPools
import Pocket.Analysis.ViewLeader

/-!
# Messages that end the process

A message from the network is handled without a check of who sent it, and some messages end the
process: the handlers call what a map has no entry for, dereference what the message leaves out, and
`ApplyBlock` calls `Fatal` when the state hash of a proposal is not the one it computes.

* `ReplicaCrash` and `LeaderCrash` list the messages that end the process of a replica and of a
  leader, in terms of the state before the message.
* `FatalMessage` adds an election without validators and asks for the role in which the message is
  handled.
* `handleHotstuffMessage_returns_iff`: in every reachable state these are all.
-/

set_option autoImplicit false

namespace Pocket.Analysis

open Pocket.Model

variable (P : Platform) (cfg : NodeConfig) (env : Env)

/-! ## The messages -/

/-- The message is handled, by a leader or by a replica. -/
def HandledAs (leader : Bool) (m : NodeState) (msg : HotstuffMessage) : Prop :=
  ∃ m₁, positionForMessage cfg env m msg = some (true, m₁) ∧ isLeader cfg m₁ = leader

/-- Applying the block in the unit of work ends the process: the block has no header, running its
transactions ends the process, or they give another state hash than the header's. -/
def ExecutionEnds (uow : UnitOfWork) (block : Block) : Prop :=
  match block.blockHeader with
  | none => True
  | some header =>
    let proposal :=
      uow.setProposalBlock header.stateHash header.proposerAddress block.transactions
    proposal.isProposalBlockSet = true
      ∧ (env.executeBlock proposal = .fatal
        ∨ ∃ hash, env.executeBlock proposal = .stateHash hash
          ∧ header.stateHash ≠ IgnoreProposalBlockCheckHash ∧ header.stateHash ≠ hash)

/-- The block of the message has no header, and is compared with the current block. -/
structure NilHeader (m : NodeState) (msg : HotstuffMessage) (block : Block) : Prop where
  known : 1 < msg.step ∧ msg.step ≤ 5
  block_eq : msg.block = some block
  header : block.blockHeader = none
  size : P.sizeofBlock ≤ cfg.maxBlockBytes
  current : m.block.isSome

/-- The messages that end the process of a replica. -/
inductive ReplicaCrash (m : NodeState) (msg : HotstuffMessage) : Prop
  | unknownStep (hstep : ¬ (1 ≤ msg.step ∧ msg.step ≤ 5))
  | nilHeader (block : Block) (h : NilHeader P cfg m msg block)
  -- a locked replica dereferences the certificate of a proposal
  | nilJustification (hstep : msg.step = Prepare) (htype : msg.type = Propose)
      (hvalid : isValidMessageBlock P cfg m msg = some true) (hlocked : m.lockedQC.isSome)
      (hqc : msg.getQuorumCertificate = none)
  | proposal (block : Block) (uow : UnitOfWork) (hstep : msg.step = Prepare)
      (hvalid : isValidMessageBlock P cfg m msg = some true)
      (hproposal : validateProposal P env m msg = .ok ()) (hblock : msg.block = some block)
      (huow : m.utilityUnitOfWork = some uow) (hends : ExecutionEnds env uow block)
  -- a replica that was moved to `Decide` has no block to write the certificate to
  | nilBlock (qc : QuorumCertificate) (hstep : msg.step = Decide)
      (hvalid : isValidMessageBlock P cfg m msg = some true)
      (hqc : msg.getQuorumCertificate = some qc)
      (hcertified : validateQuorumCertificate P env m (some qc) = true) (hblock : m.block = none)

/-- The messages of the pool of `NewRound` messages once the message has been added, if these are
enough for the leader to go on and it can open a unit of work. -/
structure Completes (m : NodeState) (msg : HotstuffMessage) (pool : HotstuffFIFOMempool) :
    Prop where
  step : msg.step = NewRound
  nilBlock : msg.block = none
  pooled : ∃ typePool newRounds, m.hotstuffMempool msg.type = some typePool
    ∧ typePool.totalMsgBytes ≤ cfg.maxMempoolBytes ∧ m.hotstuffMempool NewRound = some newRounds
    ∧ pool = newRounds.push P cfg.maxMempoolBytes msg
  enough : ∃ validators, env.getValidatorsAtHeight m.height = some validators
    ∧ validateOptimisticThresholdMet pool.size validators = true
  opens : env.newUnitOfWork = true

/-- The unit of work that a leader opens. -/
def leaderUnitOfWork (m : NodeState) : UnitOfWork := { height := m.height, isLeaderUOW := true }

/-- Proposing a block ends the process: the block of the highest certificate of the messages if that
is of the height and the round or later, and a new one if not. -/
def ProposalEnds (m : NodeState) (round : ℕ) (msgs : List HotstuffMessage) : Prop :=
  (∃ qc block, findHighQC msgs = some qc ∧ (m.height ≤ qc.height ∧ round ≤ qc.round)
      ∧ qc.block = some block ∧ ExecutionEnds env (leaderUnitOfWork m) block)
    ∨ ((∀ qc block, findHighQC msgs = some qc → qc.block = some block →
        ¬ (m.height ≤ qc.height ∧ round ≤ qc.round))
      ∧ (env.createProposalBlock (leaderUnitOfWork m)).1 = .fatal)

/-- The messages that end the process of a leader. -/
inductive LeaderCrash (m : NodeState) (msg : HotstuffMessage) : Prop
  | unknownStep (hstep : ¬ (1 ≤ msg.step ∧ msg.step ≤ 5))
  | nilHeader (block : Block) (h : NilHeader P cfg m msg block)
  -- the capacity check looks for a pool with the number of the type
  | unknownType (hvalid : isValidMessageBlock P cfg m msg = some true)
      (hsigned : validateMessageSignature P env m msg = true)
      (htype : ¬ (1 ≤ msg.type ∧ msg.type ≤ 5))
  | proposal (pool : HotstuffFIFOMempool) (hpool : Completes P cfg env m msg pool)
      (hends : ProposalEnds env m msg.round pool.messages)

/-- The messages that end the process of a node. -/
inductive FatalMessage (m : NodeState) (msg : HotstuffMessage) : Prop
  -- the round robin divides by the number of validators
  | noValidators (helects : Elects cfg m msg)
      (hnone : env.getValidatorsAtHeight msg.height = some [])
  | replica (hrole : HandledAs cfg env false m msg) (h : ReplicaCrash P cfg env m msg)
  | leader (hrole : HandledAs cfg env true m msg) (h : LeaderCrash P cfg env m msg)

variable {P cfg env} {m : NodeState}

/-! ## Elections -/

section Election

variable {msg : HotstuffMessage}

theorem positionForMessage_none_iff :
    positionForMessage cfg env m msg = none
      ↔ Elects cfg m msg ∧ env.getValidatorsAtHeight msg.height = some [] := by
  by_cases hconsidered : Considered cfg m msg
  swap
  · rw [positionForMessage_of_not_considered hconsidered]
    exact iff_of_false (Option.some_ne_none _) fun h => hconsidered h.1.1
  by_cases helects : Elects cfg m msg
  swap
  · rw [positionForMessage_of_not_elects hconsidered helects]
    exact iff_of_false (Option.some_ne_none _) fun h => helects h.1
  rw [positionForMessage_of_elects helects, and_iff_right helects]
  rcases electNextLeader_cases env msg (movedTo m msg) with
    ⟨c, hc, hhalt⟩ | ⟨id, vals, _, _, hid, hvals, hrobin, -⟩
  · rw [hc, ← hhalt]
    cases c <;> simp [afterElection]
  · rw [hid, hvals]
    refine iff_of_false (Option.some_ne_none _) fun hnil => ?_
    obtain rfl := Option.some.inj hnil
    cases hrobin

end Election

/-! ## Blocks -/

section Blocks

variable {msg : HotstuffMessage} {block : Block}

theorem isValidMessageBlock_none_iff (hm : HeaderKnown m) :
    isValidMessageBlock P cfg m msg = none
      ↔ msg.step ≠ NewRound ∧ P.sizeofBlock ≤ cfg.maxBlockBytes ∧ m.block.isSome
        ∧ ∃ block, msg.block = some block ∧ block.blockHeader = none := by
  unfold isValidMessageBlock
  cases hblock : msg.block with
  | none => simp
  | some block =>
    by_cases hstep : msg.step = NewRound
    · simp [hstep]
    by_cases hsize : cfg.maxBlockBytes < P.sizeofBlock
    · simp [hstep, hsize]
    cases hcurrent : m.block with
    | none => simp [hstep, hsize]
    | some current =>
      obtain ⟨currentHeader, hheader⟩ := Option.ne_none_iff_exists'.mp (hm current hcurrent)
      cases hmsg : block.blockHeader with
      | none => simp [hstep, hsize, hheader, hmsg, Nat.le_of_not_lt hsize]
      | some header => simp [hstep, hsize, hheader, hmsg]

theorem NilHeader.invalid (hm : HeaderKnown m) (h : NilHeader P cfg m msg block) :
    isValidMessageBlock P cfg m msg = none := by
  have hknown := h.known
  refine (isValidMessageBlock_none_iff hm).mpr ⟨?_, h.size, h.current, block, h.block_eq, h.header⟩
  unfold NewRound
  omega

theorem exists_nilHeader (hm : HeaderKnown m) (hknown : 1 ≤ msg.step ∧ msg.step ≤ 5)
    (h : isValidMessageBlock P cfg m msg = none) : ∃ block, NilHeader P cfg m msg block := by
  obtain ⟨hstep, hsize, hcurrent, block, hblock, hheader⟩ := (isValidMessageBlock_none_iff hm).mp h
  unfold NewRound at hstep
  exact ⟨block, by omega, hblock, hheader, hsize, hcurrent⟩

theorem applyBlock_halt_iff :
    (∃ m', applyBlock env block m = (.halt, m'))
      ↔ ∃ uow, m.utilityUnitOfWork = some uow ∧ ExecutionEnds env uow block := by
  unfold applyBlock ExecutionEnds
  cases huow : m.utilityUnitOfWork with
  | none => simp
  | some uow =>
    cases hheader : block.blockHeader with
    | none => simp
    | some header =>
      simp only [Option.some.injEq, exists_eq_left', UnitOfWork.applyBlock]
      -- the state hash of the proposal is the header's
      have hhash : (uow.setProposalBlock header.stateHash header.proposerAddress
          block.transactions).proposalStateHash = header.stateHash := rfl
      generalize uow.setProposalBlock header.stateHash header.proposerAddress block.transactions
        = proposal at hhash ⊢
      rw [hhash]
      by_cases hset : proposal.isProposalBlockSet = true
      · rw [if_pos hset]
        cases hrun : env.executeBlock proposal with
        | error => simp
        | fatal => simp [hset]
        | stateHash hash =>
          by_cases hother : header.stateHash ≠ IgnoreProposalBlockCheckHash
              ∧ header.stateHash ≠ hash
          · simp only [if_pos hother]
            simpa [hset] using hother
          · simp only [if_neg hother]
            constructor
            · rintro ⟨m', hm'⟩
              split at hm'
              · cases hm'
              · cases hm'
            · rintro ⟨-, hfatal | ⟨hash', heq, hne⟩⟩
              · cases hfatal
              · obtain rfl := ExecutionAnswer.stateHash.inj heq
                exact absurd hne hother
      · simp [hset]

end Blocks

/-! ## Replicas -/

section Replica

open HotstuffReplicaMessageHandler

variable {msg : HotstuffMessage}

theorem interruptRound_ne_none : (interruptRound cfg m).state ≠ none := by
  rw [interruptRound_state]
  intro h
  cases h

theorem withQuorumCertificate_none {body : QuorumCertificate → Result}
    (hvalid : isValidMessageBlock P cfg m msg = some true)
    (h : (withQuorumCertificate P cfg env m msg body).state = none) :
    ∃ qc, msg.getQuorumCertificate = some qc
      ∧ validateQuorumCertificate P env m (some qc) = true ∧ (body qc).state = none := by
  unfold withQuorumCertificate anteHandle at h
  rw [hvalid] at h
  simp only at h
  split at h
  · exact absurd h interruptRound_ne_none
  · rename_i qc hqc
    split at h
    · exact ⟨qc, hqc, ‹_›, h⟩
    · exact absurd h interruptRound_ne_none

theorem commitAndAdvance_none_iff (hm : HeaderKnown m) {qc : QuorumCertificate} :
    (commitAndAdvance P cfg env qc m).state = none ↔ m.block = none := by
  unfold commitAndAdvance NodeState.setBlockCertificate
  cases hblock : m.block with
  | none => simp
  | some block =>
    obtain ⟨header, hheader⟩ := Option.ne_none_iff_exists'.mp (hm block hblock)
    simp only [Block.setQuorumCertificate, hheader, Option.map_some, reduceCtorEq, iff_false]
    split
    · rw [newHeight_eq]
      intro h
      cases h
    · exact interruptRound_ne_none

theorem validateProposal_halt_iff :
    validateProposal P env m msg = .halt ↔ msg.type = Propose ∧ msg.step = Prepare
      ∧ m.lockedQC.isSome ∧ msg.getQuorumCertificate = none := by
  unfold validateProposal
  by_cases hkind : msg.type = Propose ∧ msg.step = Prepare
  · rw [if_pos hkind]
    cases hqc : msg.getQuorumCertificate with
    | none => cases m.lockedQC <;> simp [hkind]
    | some qc =>
      cases m.lockedQC with
      | none =>
        simp only [reduceCtorEq, and_false, iff_false]
        split <;> simp
      | some lockedQC =>
        simp only [reduceCtorEq, and_false, iff_false]
        repeat' split
        all_goals simp
  · rw [if_neg hkind]
    simp only [reduceCtorEq, false_iff]
    exact fun h => hkind ⟨h.1, h.2.1⟩

theorem handlePrepareMessage_none (hvalid : isValidMessageBlock P cfg m msg = some true)
    (hstep : msg.step = Prepare)
    (h : (HotstuffReplicaMessageHandler.handlePrepareMessage P cfg env m msg).state = none) :
    ReplicaCrash P cfg env m msg := by
  unfold HotstuffReplicaMessageHandler.handlePrepareMessage anteHandle at h
  rw [hvalid] at h
  simp only at h
  split at h
  · rename_i hhalt
    obtain ⟨htype, -, hlocked, hqc⟩ := validateProposal_halt_iff.mp hhalt
    exact .nilJustification hstep htype hvalid hlocked hqc
  · exact absurd h interruptRound_ne_none
  · rename_i hproposal hnil
    unfold isValidMessageBlock at hvalid
    rw [hnil] at hvalid
    simp [hstep, Prepare, NewRound] at hvalid
  · rename_i block hproposal hblock
    split at h
    · rename_i m' hhalt
      obtain ⟨uow, huow, hends⟩ := applyBlock_halt_iff.mp ⟨m', hhalt⟩
      exact .proposal block uow hstep hvalid hproposal hblock huow hends
    · exact absurd h interruptRound_ne_none
    · cases h

theorem replicaCrash_of_none (hm : HeaderKnown m)
    (h : (replicaHandlers P cfg env msg.step m msg).state = none) : ReplicaCrash P cfg env m msg := by
  by_cases hknown : 1 ≤ msg.step ∧ msg.step ≤ 5
  swap
  · exact .unknownStep hknown
  cases hvalid : isValidMessageBlock P cfg m msg with
  | none =>
    obtain ⟨block, hblock⟩ := exists_nilHeader hm hknown hvalid
    exact .nilHeader block hblock
  | some valid =>
    obtain ⟨-, body, hbody⟩ := @handlers_of_known P cfg env m msg hknown
    cases valid with
    | false =>
      rw [hbody, anteHandle, hvalid] at h
      cases h
    | true =>
      unfold replicaHandlers at h
      split at h
      · unfold HotstuffReplicaMessageHandler.handleNewRoundMessage anteHandle at h
        rw [hvalid] at h
        simp only at h
        split at h
        · cases h
        · cases h
      split at h
      · exact handlePrepareMessage_none hvalid ‹_› h
      split at h
      · obtain ⟨qc, -, -, hnone⟩ := withQuorumCertificate_none hvalid h
        cases hnone
      split at h
      · obtain ⟨qc, -, -, hnone⟩ := withQuorumCertificate_none hvalid h
        cases hnone
      split at h
      · obtain ⟨qc, hqc, hcertified, hnone⟩ := withQuorumCertificate_none hvalid h
        have hblock := (commitAndAdvance_none_iff hm).mp hnone
        exact .nilBlock qc ‹_› hvalid hqc hcertified hblock
      · unfold NewRound Prepare PreCommit Commit Decide at *
        omega

theorem replicaHandlers_prepare (hstep : msg.step = Prepare) :
    replicaHandlers P cfg env msg.step m msg
      = HotstuffReplicaMessageHandler.handlePrepareMessage P cfg env m msg := by
  rw [hstep]
  rfl

theorem replicaHandlers_decide (hstep : msg.step = Decide) :
    replicaHandlers P cfg env msg.step m msg
      = HotstuffReplicaMessageHandler.handleDecideMessage P cfg env m msg := by
  rw [hstep]
  rfl

/-- **The messages that end the process of a replica.** -/
theorem replicaHandlers_none_iff (hm : HeaderKnown m) :
    (replicaHandlers P cfg env msg.step m msg).state = none ↔ ReplicaCrash P cfg env m msg := by
  refine ⟨replicaCrash_of_none hm, fun h => ?_⟩
  cases h with
  | unknownStep hunknown => rw [(handlers_of_unknown P cfg env hunknown).2]
  | nilHeader block h =>
    have hknown := h.known
    obtain ⟨-, body, hbody⟩ := @handlers_of_known P cfg env m msg (by omega)
    rw [hbody, anteHandle, h.invalid hm]
  | nilJustification hstep htype hvalid hlocked hqc =>
    have hhalt := (@validateProposal_halt_iff P env m msg).mpr ⟨htype, hstep, hlocked, hqc⟩
    rw [replicaHandlers_prepare hstep, HotstuffReplicaMessageHandler.handlePrepareMessage, anteHandle,
      hvalid]
    simp only [hhalt]
  | proposal block uow hstep hvalid hproposal hblock huow hends =>
    obtain ⟨m', hhalt⟩ := (@applyBlock_halt_iff env m block).mpr ⟨uow, huow, hends⟩
    rw [replicaHandlers_prepare hstep, HotstuffReplicaMessageHandler.handlePrepareMessage, anteHandle,
      hvalid]
    simp only [hproposal, hblock, hhalt]
  | nilBlock qc hstep hvalid hqc hcertified hblock =>
    have hnone := (@commitAndAdvance_none_iff P cfg env m hm qc).mpr hblock
    rw [replicaHandlers_decide hstep, HotstuffReplicaMessageHandler.handleDecideMessage,
      withQuorumCertificate, anteHandle, hvalid]
    simp only [hqc, hcertified, if_true]
    exact hnone

end Replica

/-! ## The leader -/

section Leader

open HotstuffLeaderMessageHandler

variable {m₀ : NodeState} {msg : HotstuffMessage} {msgs : List HotstuffMessage} {round : ℕ}
  {qc : Option QuorumCertificate}

theorem indexHotstuffMessage_none_iff (hm : PoolsKept m.hotstuffMempool)
    (hknown : 1 ≤ msg.step ∧ msg.step ≤ 5) :
    indexHotstuffMessage P cfg m msg = none ↔ ¬ (1 ≤ msg.type ∧ msg.type ≤ 5) := by
  obtain ⟨pool, hpool⟩ := Option.isSome_iff_exists.mp ((hm.known msg.step).mpr hknown)
  rw [← hm.known msg.type]
  unfold indexHotstuffMessage
  cases htype : m.hotstuffMempool msg.type with
  | none => simp
  | some typePool =>
    simp only [hpool]
    split <;> simp

theorem anteHandle_none {body : NodeState → Result} (hm : HeaderKnown m)
    (hpools : PoolsKept m.hotstuffMempool) (hknown : 1 ≤ msg.step ∧ msg.step ≤ 5)
    (h : (anteHandle P cfg env m msg body).state = none) :
    LeaderCrash P cfg env m msg
      ∨ ∃ m₀, Admits P cfg env m msg m₀ ∧ (body m₀).state = none := by
  unfold anteHandle at h
  split at h
  · rename_i hnone
    obtain ⟨block, hblock⟩ := exists_nilHeader hm hknown hnone
    exact .inl (.nilHeader block hblock)
  · cases h
  rename_i hvalid
  split at h
  swap
  · cases h
  rename_i hsigned
  split at h
  · rename_i hnone
    exact .inl (.unknownType hvalid hsigned ((indexHotstuffMessage_none_iff hpools hknown).mp hnone))
  · cases h
  · rename_i m₀ hindex
    exact .inr ⟨m₀, ⟨hvalid, hsigned, hindex⟩, h⟩

theorem assembled_ne_none (hm : PoolsKept m.hotstuffMempool) {step : ℤ}
    (hstep : 1 ≤ step ∧ step ≤ 5) {next : QuorumCertificate → NodeState → Result}
    (hnext : ∀ qc pools, (next qc { m with hotstuffMempool := pools }).state ≠ none) :
    (assembled P env step next m).state ≠ none := by
  obtain ⟨pools, hpools⟩ := getQuorumCertificate_snd P env step m
  unfold assembled
  split
  · rename_i m₁ hhalt
    obtain ⟨pool, hpool⟩ := Option.isSome_iff_exists.mp ((hm.known step).mpr hstep)
    unfold getQuorumCertificate at hhalt
    simp only [hpool] at hhalt
    repeat' split at hhalt
    all_goals cases hhalt
  · intro h
    cases h
  · rename_i qc m₁ hok
    rw [hok] at hpools
    obtain rfl := hpools
    exact hnext qc pools

theorem propose_ne_none {step : ℤ} {body : Result} (hbody : m.block ≠ none → body.state ≠ none) :
    (propose cfg step qc m body).state ≠ none := by
  unfold propose
  split
  · exact interruptRound_ne_none
  · rename_i msg hmsg
    apply hbody
    intro hnone
    rw [hnone] at hmsg
    cases hmsg

theorem prepareBlock_halt_iff (hleader : isLeader cfg m = true) :
    (∃ m', prepareBlock P cfg env qc { m with utilityUnitOfWork := some (leaderUnitOfWork m) }
        = (.halt, m'))
      ↔ (env.createProposalBlock (leaderUnitOfWork m)).1 = .fatal := by
  have hleader' : isLeader cfg { m with utilityUnitOfWork := some (leaderUnitOfWork m) } = true :=
    hleader
  have huow : (leaderUnitOfWork m).isLeaderUOW = true := rfl
  unfold prepareBlock UnitOfWork.createProposalBlock
  simp only [if_pos hleader', if_pos huow]
  rcases henv : env.createProposalBlock (leaderUnitOfWork m) with ⟨answer, txs⟩
  cases answer with
  | error | fatal => simp
  | stateHash hash =>
    simp only [reduceCtorEq, iff_false, not_exists]
    intro m'
    split <;> simp

theorem reuses_iff {block : Block} :
    (qc.bind (·.block) = some block ∧ shouldPrepareNewBlock m qc = false)
      ↔ ∃ q, qc = some q ∧ q.block = some block ∧ m.height ≤ q.height ∧ m.round ≤ q.round := by
  cases qc with
  | none => simp
  | some q =>
    simp only [Option.bind_some, shouldPrepareNewBlock, isPrepareQCFromPast, Bool.or_eq_false_iff,
      decide_eq_false_iff_not, not_lt, Option.some.injEq, exists_eq_left']
    constructor
    · rintro ⟨hblock, hrecent, -⟩
      exact ⟨hblock, hrecent⟩
    · rintro ⟨hblock, hrecent⟩
      exact ⟨hblock, hrecent, by simp [hblock]⟩

theorem proposePrepare_ne_none {block : Block} :
    (proposePrepare P cfg qc block m).state ≠ none := by
  obtain ⟨proposal, hproposal⟩ := @proposePrepare_eq P cfg qc block m
  rw [hproposal]
  exact Option.some_ne_none _

theorem proposalEnds_iff_execution {qc : QuorumCertificate} {block : Block}
    (hqc : findHighQC msgs = some qc) (hrecent : m.height ≤ qc.height ∧ round ≤ qc.round)
    (hblock : qc.block = some block) :
    ProposalEnds env m round msgs
      ↔ ∃ m', applyBlock env block { m with utilityUnitOfWork := some (leaderUnitOfWork m) }
        = (.halt, m') := by
  have happly := @applyBlock_halt_iff env
    { m with utilityUnitOfWork := some (leaderUnitOfWork m) } block
  simp only [Option.some.injEq, exists_eq_left'] at happly
  rw [happly]
  constructor
  · rintro (⟨q, b, hq, -, hb, hends⟩ | ⟨hnot, -⟩)
    · obtain rfl := Option.some.inj (hqc.symm.trans hq)
      obtain rfl := Option.some.inj (hblock.symm.trans hb)
      exact hends
    · exact absurd hrecent (hnot qc block hqc hblock)
  · intro hends
    exact .inl ⟨qc, block, hqc, hrecent, hblock, hends⟩

theorem proposalEnds_iff_creation (hleader : isLeader cfg m = true)
    (hnew : ∀ qc block, findHighQC msgs = some qc → qc.block = some block →
      ¬ (m.height ≤ qc.height ∧ round ≤ qc.round)) :
    ProposalEnds env m round msgs
      ↔ ∃ m', prepareBlock P cfg env qc { m with utilityUnitOfWork := some (leaderUnitOfWork m) }
        = (.halt, m') := by
  rw [prepareBlock_halt_iff hleader]
  constructor
  · rintro (⟨q, b, hq, hrecent, hb, -⟩ | ⟨-, hfatal⟩)
    · exact absurd hrecent (hnew q b hq hb)
    · exact hfatal
  · intro hfatal
    exact .inr ⟨hnew, hfatal⟩

theorem newRoundBody_none_iff (hleader : isLeader cfg m = true) {pool : HotstuffFIFOMempool}
    (hpool : m.hotstuffMempool NewRound = some pool) :
    (newRoundBody P cfg env m).state = none
      ↔ env.newUnitOfWork = true ∧ ProposalEnds env m m.round pool.messages := by
  by_cases hopens : env.newUnitOfWork = true
  swap
  · simp [newRoundBody, refreshUtilityUnitOfWork, hopens]
  have hrefresh : refreshUtilityUnitOfWork cfg env m
      = (.ok (), { m with utilityUnitOfWork := some (leaderUnitOfWork m) }) := by
    rw [refreshUtilityUnitOfWork, if_pos hopens, newUnitOfWork, hleader]
    rfl
  unfold newRoundBody
  simp only [hrefresh, hpool, Option.elim_some, hopens, true_and]
  split
  · rename_i block hblock hshould
    obtain ⟨qc, hqc, hqcBlock, hrecent⟩ := reuses_iff.mp ⟨hblock, hshould⟩
    have hexecution := @proposalEnds_iff_execution env m pool.messages m.round qc block hqc hrecent
      hqcBlock
    rw [hexecution]
    split
    · rename_i m' hhalt
      exact ⟨fun _ => ⟨m', hhalt⟩, fun _ => rfl⟩
    · rename_i m' herr
      simp only [herr, Prod.mk.injEq, reduceCtorEq, false_and, exists_false, iff_false]
      exact interruptRound_ne_none
    · rename_i m' hok
      simp only [hok, Prod.mk.injEq, reduceCtorEq, false_and, exists_false, iff_false]
      exact proposePrepare_ne_none
  · rename_i hnot
    have hnew : ∀ qc block, findHighQC pool.messages = some qc → qc.block = some block →
        ¬ (m.height ≤ qc.height ∧ m.round ≤ qc.round) := by
      intro qc block hqc hblock hrecent
      have hreuses := (@reuses_iff { m with utilityUnitOfWork := some (leaderUnitOfWork m) }
        (findHighQC pool.messages) block).mpr ⟨qc, hqc, hblock, hrecent⟩
      exact hnot block hreuses.1 hreuses.2
    have hcreation := @proposalEnds_iff_creation P cfg env m pool.messages m.round
      (findHighQC pool.messages) hleader hnew
    rw [hcreation]
    split
    · rename_i m' hhalt
      exact ⟨fun _ => ⟨m', hhalt⟩, fun _ => rfl⟩
    · rename_i m' herr
      simp only [herr, Prod.mk.injEq, reduceCtorEq, false_and, exists_false, iff_false]
      exact interruptRound_ne_none
    · rename_i block m' hok
      simp only [hok, Prod.mk.injEq, reduceCtorEq, false_and, exists_false, iff_false]
      exact proposePrepare_ne_none

theorem newRoundBody_pooled (hleader : isLeader cfg m = true)
    {pools : ℤ → Option HotstuffFIFOMempool} {pool : HotstuffFIFOMempool}
    (hpool : pools NewRound = some pool) :
    (newRoundBody P cfg env { m with hotstuffMempool := pools }).state = none
      ↔ env.newUnitOfWork = true ∧ ProposalEnds env m m.round pool.messages :=
  @newRoundBody_none_iff P cfg env { m with hotstuffMempool := pools } hleader pool hpool

theorem indexHotstuffMessage_true_iff :
    indexHotstuffMessage P cfg m msg = some (true, m₀)
      ↔ ∃ typePool pool, m.hotstuffMempool msg.type = some typePool
        ∧ typePool.totalMsgBytes ≤ cfg.maxMempoolBytes ∧ m.hotstuffMempool msg.step = some pool
        ∧ m₀ = { m with
          hotstuffMempool := Function.update m.hotstuffMempool msg.step
            (some (pool.push P cfg.maxMempoolBytes msg)) } := by
  unfold indexHotstuffMessage
  cases htype : m.hotstuffMempool msg.type with
  | none => simp
  | some typePool =>
    by_cases hfull : cfg.maxMempoolBytes < typePool.totalMsgBytes
    · simp [hfull]
    · cases hpool : m.hotstuffMempool msg.step with
      | none => simp [hfull]
      | some pool => simp [hfull, Nat.le_of_not_lt hfull, eq_comm]

theorem checks_newRound (hstep : msg.step = NewRound) (hblock : msg.block = none) :
    isValidMessageBlock P cfg m msg = some true ∧ validateMessageSignature P env m msg = true := by
  refine ⟨?_, ?_⟩
  · rw [isValidMessageBlock, hblock, hstep]
    rfl
  · rw [validateMessageSignature, if_pos hstep]

theorem block_of_newRound (hstep : msg.step = NewRound)
    (hvalid : isValidMessageBlock P cfg m msg = some true) : msg.block = none := by
  unfold isValidMessageBlock at hvalid
  cases hblock : msg.block with
  | none => rfl
  | some block =>
    rw [hblock] at hvalid
    simp [hstep] at hvalid

theorem didReceiveEnough_pooled {step : ℤ} {pools : ℤ → Option HotstuffFIFOMempool}
    {pool : HotstuffFIFOMempool} (hpool : pools step = some pool) :
    didReceiveEnoughMessageForStep env { m with hotstuffMempool := pools } step = true
      ↔ ∃ validators, env.getValidatorsAtHeight m.height = some validators
        ∧ validateOptimisticThresholdMet pool.size validators = true := by
  unfold didReceiveEnoughMessageForStep
  simp only [hpool]
  cases env.getValidatorsAtHeight m.height with
  | none | some validators => simp

theorem update_newRound (pools : ℤ → Option HotstuffFIFOMempool) (pool : Option HotstuffFIFOMempool)
    (hstep : msg.step = NewRound) : Function.update pools msg.step pool NewRound = pool := by
  rw [hstep, Function.update_self]

theorem leaderCrash_of_newRound (hleader : isLeader cfg m = true) (hround : m.round = msg.round)
    (hstep : msg.step = NewRound) (hadmits : Admits P cfg env m msg m₀)
    (h : (if didReceiveEnoughMessageForStep env m₀ NewRound then newRoundBody P cfg env m₀
      else ⟨some m₀, []⟩).state = none) : LeaderCrash P cfg env m msg := by
  obtain ⟨typePool, newRounds, htype, hroom, hpool, rfl⟩ :=
    indexHotstuffMessage_true_iff.mp hadmits.indexed
  rw [hstep] at hpool
  split at h
  swap
  · cases h
  rename_i henough
  obtain ⟨hopens, hends⟩ := (newRoundBody_pooled hleader (update_newRound _ _ hstep)).mp h
  have hvalidators := (didReceiveEnough_pooled (update_newRound _ _ hstep)).mp henough
  have hends' : ProposalEnds env m msg.round
      (newRounds.push P cfg.maxMempoolBytes msg).messages := hround ▸ hends
  exact .proposal _ ⟨hstep, block_of_newRound hstep hadmits.valid,
    ⟨typePool, newRounds, htype, hroom, hpool, rfl⟩, hvalidators, hopens⟩ hends'

theorem leaderCrash_of_none (hm : HeaderKnown m) (hpools : PoolsKept m.hotstuffMempool)
    (hleader : isLeader cfg m = true) (hround : m.round = msg.round)
    (h : (leaderHandlers P cfg env msg.step m msg).state = none) : LeaderCrash P cfg env m msg := by
  by_cases hknown : 1 ≤ msg.step ∧ msg.step ≤ 5
  swap
  · exact .unknownStep hknown
  -- the handlers of votes end the process in the ante handler only
  have hvotes : ∀ {step : ℤ} {next : QuorumCertificate → NodeState → Result}, 1 ≤ step ∧ step ≤ 5 →
      (∀ m₀, Admits P cfg env m msg m₀ → ∀ qc pools,
        (next qc { m₀ with hotstuffMempool := pools }).state ≠ none) →
      (whenEnough P cfg env step m msg (assembled P env step next)).state = none →
      LeaderCrash P cfg env m msg := by
    intro step next hstep hnext h
    rcases anteHandle_none hm hpools hknown h with hcrash | ⟨m₀, hadmits, hnone⟩
    · exact hcrash
    · split at hnone
      · exact absurd hnone (assembled_ne_none (hpools.admits hadmits) hstep (hnext m₀ hadmits))
      · cases hnone
  unfold leaderHandlers at h
  split at h
  · rcases anteHandle_none hm hpools hknown h with hcrash | ⟨m₀, hadmits, hnone⟩
    · exact hcrash
    · exact leaderCrash_of_newRound hleader hround ‹_› hadmits hnone
  split at h
  · exact hvotes (by decide) (fun _ _ _ _ => propose_ne_none fun _ => Option.some_ne_none _) h
  split at h
  · exact hvotes (by decide) (fun _ _ _ _ => propose_ne_none fun _ => Option.some_ne_none _) h
  split at h
  · refine hvotes (by decide) (fun m₀ hadmits qc pools => propose_ne_none fun hblock hnone => ?_) h
    refine hblock ((commitAndAdvance_none_iff ?_).mp hnone)
    obtain ⟨pool, -, rfl⟩ := hadmits.pushed
    exact hm
  split at h
  · rcases anteHandle_none hm hpools hknown h with hcrash | ⟨m₀, -, hnone⟩
    · exact hcrash
    · cases hnone
  · unfold NewRound Prepare PreCommit Commit Decide at *
    omega

/-- **The messages that end the process of a leader.** -/
theorem leaderHandlers_none_iff (hm : HeaderKnown m) (hpools : PoolsKept m.hotstuffMempool)
    (hleader : isLeader cfg m = true) (hround : m.round = msg.round) :
    (leaderHandlers P cfg env msg.step m msg).state = none ↔ LeaderCrash P cfg env m msg := by
  refine ⟨leaderCrash_of_none hm hpools hleader hround, fun h => ?_⟩
  cases h with
  | unknownStep hunknown => rw [(handlers_of_unknown P cfg env hunknown).1]
  | nilHeader block h =>
    have hknown := h.known
    obtain ⟨⟨body, hbody⟩, -⟩ := @handlers_of_known P cfg env m msg (by omega)
    rw [hbody, anteHandle, h.invalid hm]
  | unknownType hvalid hsigned htype =>
    by_cases hknown : 1 ≤ msg.step ∧ msg.step ≤ 5
    · obtain ⟨⟨body, hbody⟩, -⟩ := @handlers_of_known P cfg env m msg hknown
      have hnone := (@indexHotstuffMessage_none_iff P cfg m msg hpools hknown).mpr htype
      rw [hbody, anteHandle, hvalid]
      simp only [hsigned, if_true, hnone]
    · rw [(handlers_of_unknown P cfg env hknown).1]
  | proposal pool hpool hends =>
    obtain ⟨hstep, hblock, ⟨typePool, newRounds, htype, hroom, hnewRounds, rfl⟩, henough, hopens⟩ :=
      hpool
    obtain ⟨hvalid, hsigned⟩ := @checks_newRound P cfg env m msg hstep hblock
    have hindex := (@indexHotstuffMessage_true_iff P cfg m _ msg).mpr
      ⟨typePool, newRounds, htype, hroom, hstep ▸ hnewRounds, rfl⟩
    have hpushed := update_newRound m.hotstuffMempool
      (some (newRounds.push P cfg.maxMempoolBytes msg)) hstep
    have hbody := (@newRoundBody_pooled P cfg env m hleader _ _ hpushed).mpr
      ⟨hopens, hround ▸ hends⟩
    have henough' := (didReceiveEnough_pooled hpushed).mpr henough
    rw [leaderHandlers, if_pos hstep, handleNewRoundMessage, whenEnough, anteHandle, hvalid]
    simp only [hsigned, if_true, hindex, henough']
    exact hbody

end Leader

/-! ## Every reachable state -/

section Returns

variable {msg : HotstuffMessage}

theorem ReplicaCrash.moved (h : ReplicaCrash P cfg env m msg) (step : ℤ) (round : ℕ)
    (leader : Option ℕ) :
    ReplicaCrash P cfg env { m with step := step, round := round, leaderId := leader } msg := by
  cases h with
  | unknownStep hstep => exact .unknownStep hstep
  | nilHeader block h =>
    exact .nilHeader block ⟨h.known, h.block_eq, h.header, h.size, h.current⟩
  | nilJustification hstep htype hvalid hlocked hqc =>
    exact .nilJustification hstep htype hvalid hlocked hqc
  | proposal block uow hstep hvalid hproposal hblock huow hends =>
    exact .proposal block uow hstep hvalid hproposal hblock huow hends
  | nilBlock qc hstep hvalid hqc hcertified hblock =>
    exact .nilBlock qc hstep hvalid hqc hcertified hblock

theorem LeaderCrash.moved (h : LeaderCrash P cfg env m msg) (step : ℤ) (round : ℕ)
    (leader : Option ℕ) :
    LeaderCrash P cfg env { m with step := step, round := round, leaderId := leader } msg := by
  cases h with
  | unknownStep hstep => exact .unknownStep hstep
  | nilHeader block h =>
    exact .nilHeader block ⟨h.known, h.block_eq, h.header, h.size, h.current⟩
  | unknownType hvalid hsigned htype => exact .unknownType hvalid hsigned htype
  | proposal pool hpool hends =>
    exact .proposal pool ⟨hpool.step, hpool.nilBlock, hpool.pooled, hpool.enough, hpool.opens⟩ hends

/-- Of a message that does not end the process in an election, only the handlers are left. -/
theorem fatalMessage_iff {handled : Bool} {m₁ : NodeState}
    (hpos : positionForMessage cfg env m msg = some (handled, m₁)) :
    FatalMessage P cfg env m msg ↔ handled = true ∧
      if isLeader cfg m₁ then LeaderCrash P cfg env m msg else ReplicaCrash P cfg env m msg := by
  have hrole : ∀ leader, HandledAs cfg env leader m msg
      ↔ handled = true ∧ isLeader cfg m₁ = leader := by
    intro leader
    unfold HandledAs
    rw [hpos]
    constructor
    · rintro ⟨m₂, heq, hleader⟩
      obtain ⟨rfl, rfl⟩ := Prod.mk.inj (Option.some.inj heq)
      exact ⟨rfl, hleader⟩
    · rintro ⟨rfl, hleader⟩
      exact ⟨m₁, rfl, hleader⟩
  constructor
  · intro h
    cases h with
    | noValidators helects hnone =>
      rw [positionForMessage_none_iff.mpr ⟨helects, hnone⟩] at hpos
      cases hpos
    | replica hhandled h =>
      obtain ⟨hhandled, hleader⟩ := (hrole false).mp hhandled
      rw [hleader]
      exact ⟨hhandled, h⟩
    | leader hhandled h =>
      obtain ⟨hhandled, hleader⟩ := (hrole true).mp hhandled
      rw [hleader]
      exact ⟨hhandled, h⟩
  · rintro ⟨hhandled, h⟩
    split at h
    · next hleader => exact .leader ((hrole true).mpr ⟨hhandled, hleader⟩) h
    · next hleader => exact .replica ((hrole false).mpr ⟨hhandled, Bool.eq_false_iff.mpr hleader⟩) h

theorem handleHotstuffMessage_none_iff (hm : HeaderKnown m) (hpools : PoolsKept m.hotstuffMempool) :
    (handleHotstuffMessage P cfg env m msg).state = none ↔ FatalMessage P cfg env m msg := by
  unfold handleHotstuffMessage
  cases hpos : positionForMessage cfg env m msg with
  | none =>
    obtain ⟨helects, hnone⟩ := positionForMessage_none_iff.mp hpos
    exact ⟨fun _ => .noValidators helects hnone, fun _ => rfl⟩
  | some position =>
    obtain ⟨handled, m₁⟩ := position
    rw [fatalMessage_iff hpos]
    cases handled with
    | false => exact iff_of_false (Option.some_ne_none _) fun h => by cases h.1
    | true =>
      obtain ⟨step, leader, rfl, -⟩ := (positionForMessage_true cfg env hpos).state
      have hheader : HeaderKnown { m with step := step, round := msg.round, leaderId := leader } := hm
      simp only [true_and]
      split
      · next hleader =>
        refine (leaderHandlers_none_iff hheader hpools hleader rfl).trans ?_
        exact ⟨fun h => h.moved m.step m.round m.leaderId, fun h => h.moved step msg.round leader⟩
      · refine (replicaHandlers_none_iff hheader).trans ?_
        exact ⟨fun h => h.moved m.step m.round m.leaderId, fun h => h.moved step msg.round leader⟩

/-- **Which messages a validator survives.**  In every reachable state, and whatever persistence and
utility answer, `handleHotstuffMessage` returns exactly for the messages that are not fatal. -/
theorem handleHotstuffMessage_returns_iff {height : ℕ} {events : List (Env × Event)}
    (hm : (Runs.run (NodeRun.step P cfg) (NodeRun.start height) events).state = some m) (env : Env)
    (msg : HotstuffMessage) :
    (handleHotstuffMessage P cfg env m msg).state ≠ none ↔ ¬ FatalMessage P cfg env m msg :=
  not_congr (handleHotstuffMessage_none_iff ((keepsBlock_run height events).header m hm)
    (PoolsKept.run height events hm))

end Returns

/-! ## Some of the messages -/

/-- A replica that has seen the round open. -/
def openedRun (hash : String) : NodeRun :=
  Runs.run (NodeRun.step (listedSignatures []) (fourConfig 1 "a1")) (NodeRun.start 1)
    [(fourEnv hash, .message (newRoundMsg 1 0))]

/-- A message of a step that does not exist, a `NewRound` message of a type that does not exist at
the leader, and a proposal with another state hash than the one that is computed: each of them ends
the process. -/
theorem messages_end_process :
    (∃ m, (openedRun "s").state = some m
      ∧ (handleHotstuffMessage (listedSignatures []) (fourConfig 1 "a1") (fourEnv "s") m
        { prepareMsg 1 0 (plainBlock 1 "s" "p") with step := 7 }).state = none
      ∧ (handleHotstuffMessage (listedSignatures []) (fourConfig 1 "a1") (fourEnv "s") m
        (prepareMsg 1 0 (plainBlock 1 "t" "p"))).state = none)
    ∧ (handleHotstuffMessage (listedSignatures []) (fourConfig 2 "a2") (fourEnv "s")
      (initialState 1) { newRoundMsg 1 0 with type := 7 }).state = none := by
  refine ⟨⟨_, rfl, ?_, ?_⟩, ?_⟩
  · decide
  · decide
  · decide

/-- A proposal with the state hash that is computed is survived. -/
theorem proposal_survived :
    ∃ m, (openedRun "s").state = some m
      ∧ ¬ FatalMessage (listedSignatures []) (fourConfig 1 "a1") (fourEnv "s") m
        (prepareMsg 1 0 (plainBlock 1 "s" "p")) := by
  refine ⟨_, rfl, ?_⟩
  have hiff := @handleHotstuffMessage_returns_iff (listedSignatures []) (fourConfig 1 "a1") _ 1
    [(fourEnv "s", .message (newRoundMsg 1 0))] rfl (fourEnv "s")
    (prepareMsg 1 0 (plainBlock 1 "s" "p"))
  exact hiff.mp (by decide)

end Pocket.Analysis
