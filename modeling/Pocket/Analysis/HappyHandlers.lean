import Pocket.Analysis.QuorumCertificate
import Pocket.Model.Committee

/-!
# The handlers when nothing goes wrong

What the nodes of a healthy committee do with the messages of round 0, one lemma for each message
and role:

* a replica takes every step it is led to, and votes (`replica_newRound` to `replica_decide`);
* a leader collects the messages of a step and, when it has enough of them, proposes the next one
  (`leader_newRound` to `leader_commit`);
* whoever is ahead of a message drops it (`drop_earlier`, `drop_own`, `drop_past`).

`Working` describes a node in the round, `Leading` a leader with its pools.
-/

set_option autoImplicit false

namespace Pocket.Analysis

open Pocket.Model

/-- A node in round 0 of the height, at a step and with a block. -/
structure Working (C : Committee) (step : ℤ) (block : Option Block) (m : NodeState) : Prop where
  height_eq : m.height = C.height
  round_eq : m.round = 0
  step_eq : m.step = step
  leader_eq : m.leaderId = some C.leaderId
  block_eq : m.block = block

/-! ## Which messages are handled -/

variable {C : Committee} {signers : List String}

section Position

variable {addr : String} {m : NodeState} {step : ℤ} {block : Option Block} {msg : HotstuffMessage}

theorem isLeader_eq (h : C.Healthy) (haddr : addr ∈ C.addresses)
    (hm : m.leaderId = some C.leaderId) : isLeader (C.config addr) m = decide (addr = C.leader) := by
  rw [isLeader, hm]
  by_cases hleader : addr = C.leader
  · rw [(h.nodeId_eq_leaderId_iff haddr).mpr hleader, decide_eq_true hleader, beq_self_eq_true]
  · rw [decide_eq_false hleader]
    apply beq_false_of_ne
    intro heq
    exact hleader ((h.nodeId_eq_leaderId_iff haddr).mp (Option.some.inj heq).symm)

theorem isLeader_leader (h : C.Healthy) (hm : Working C step block m) :
    isLeader (C.config C.leader) m = true := by
  rw [isLeader_eq h h.leader_mem hm.leader_eq]
  exact decide_eq_true rfl

theorem handle_working (hm : Working C step block m) (hstep : msg.step = step)
    (hheight : msg.height = C.height) (hround : msg.round = 0)
    (hown : ¬ (isLeader (C.config addr) m ∧ msg.type = Propose ∧ msg.step ≠ NewRound)) :
    C.react addr m msg =
      if isLeader (C.config addr) m then
        leaderHandlers C.platform (C.config addr) (C.env addr) step m msg
      else replicaHandlers C.platform (C.config addr) (C.env addr) step m msg := by
  have hmheight := hm.height_eq
  have hmround := hm.round_eq
  have hmstep := hm.step_eq
  have hset : m.leaderId ≠ none := by simp [hm.leader_eq]
  rw [Committee.react, handleHotstuffMessage_at ⟨by omega, hown, by omega⟩ ⟨by omega, by omega⟩
    fun _ => hset, hstep]

/-- A message of a step that the node has left. -/
theorem drop_earlier (hm : Working C step block m) (hstep : msg.step < step)
    (hround : msg.round = 0) : C.react addr m msg = ⟨some m, []⟩ := by
  apply handleHotstuffMessage_of_not_considered
  rintro ⟨-, -, hpast⟩
  rw [hm.round_eq, hm.step_eq] at hpast
  exact hpast (.inr ⟨hround, hstep⟩)

/-- A proposal that comes back to the leader. -/
theorem drop_own (h : C.Healthy) (hm : Working C step block m) (htype : msg.type = Propose)
    (hstep : msg.step ≠ NewRound) : C.react C.leader m msg = ⟨some m, []⟩ := by
  apply handleHotstuffMessage_of_not_considered
  exact fun hconsidered => hconsidered.2.1 ⟨isLeader_leader h hm, htype, hstep⟩

/-- A message of a height that the node has left. -/
theorem drop_past (hheight : msg.height < m.height) : C.react addr m msg = ⟨some m, []⟩ := by
  apply handleHotstuffMessage_of_not_considered
  exact fun hconsidered => absurd hconsidered.1 (by omega)

/-- A node that waits for the round to open: it has no leader yet, or knows it already. -/
structure Opening (C : Committee) (m : NodeState) : Prop where
  height_eq : m.height = C.height
  round_eq : m.round = 0
  step_eq : m.step = NewRound
  leader_eq : m.leaderId = none ∨ m.leaderId = some C.leaderId
  block_eq : m.block = none

/-- The node once it knows its leader. -/
def withLeader (C : Committee) (m : NodeState) : NodeState := { m with leaderId := some C.leaderId }

theorem Opening.working (hm : Opening C m) : Working C NewRound none (withLeader C m) :=
  ⟨hm.height_eq, hm.round_eq, hm.step_eq, rfl, hm.block_eq⟩

theorem electNextLeader_newRound (h : C.Healthy) (haddr : addr ∈ C.addresses)
    (hm : m.height = C.height) :
    electNextLeader (C.env addr) C.newRound m = (.ok (), withLeader C m) := by
  have hreads := h.reads addr haddr
  have hmsg : C.newRound.height = C.height := rfl
  have hne : C.leaderId ≠ 0 := Nat.succ_ne_zero _
  simp only [electNextLeader, hmsg, hm, hreads, h.elect_newRound, if_neg hne,
    h.idToValAddrMap_leaderId, withLeader]

theorem handle_opening (h : C.Healthy) (haddr : addr ∈ C.addresses) (hm : Opening C m) :
    C.react addr m C.newRound =
      if addr = C.leader then
        leaderHandlers C.platform (C.config addr) (C.env addr) NewRound (withLeader C m) C.newRound
      else
        replicaHandlers C.platform (C.config addr) (C.env addr) NewRound (withLeader C m)
          C.newRound := by
  have hmheight := hm.height_eq
  have hmround := hm.round_eq
  have hmstep := hm.step_eq
  have hstep : C.newRound.step = NewRound := rfl
  have hround : C.newRound.round = 0 := rfl
  have hat : C.newRound.step = m.step ∧ C.newRound.round = m.round :=
    ⟨hmstep.symm, hmround.symm⟩
  have hconsidered : Considered (C.config addr) m C.newRound :=
    ⟨hmheight.symm, fun hown => hown.2.2 hstep, by omega⟩
  have hpos : positionForMessage (C.config addr) (C.env addr) m C.newRound
      = some (true, withLeader C m) := by
    rcases hm.leader_eq with hnone | hsome
    · rw [positionForMessage_of_elects ⟨hconsidered, .inr hnone, fun _ => hmstep⟩, movedTo,
        if_pos hat, electNextLeader_newRound h haddr hmheight]
      rfl
    · have hnot : ¬ Elects (C.config addr) m C.newRound := by
        rintro ⟨-, hne | hnone, -⟩
        · exact hne hmround
        · rw [hsome] at hnone
          cases hnone
      rw [positionForMessage_of_not_elects hconsidered hnot, movedTo, if_pos hat, withLeader, ← hsome]
  have hlead := isLeader_eq (m := withLeader C m) h haddr rfl
  simp only [Committee.react, handleHotstuffMessage, hpos, hlead, hstep, decide_eq_true_eq]

end Position

/-! ## Votes and certificates -/

section Certificates

variable {addr : String} {m : NodeState} {step : ℤ} {block : Option Block}

theorem sendVote_eq (hm : Working C step (some C.block) m) (voted : ℤ) :
    sendVote C.platform (C.config addr) m voted
      = [.sendToLeader C.leaderId (C.vote addr voted)] := by
  simp only [sendVote, createVoteMessage, hm.block_eq, hm.height_eq, hm.round_eq, sendToLeader,
    hm.leader_eq]
  rfl

section

variable (h : C.Healthy) (haddr : addr ∈ C.addresses)
include h haddr

theorem countsAsValid_signature (signers : List String) :
    countsAsValid C.platform C.validators (C.certificate step signers) (C.signature addr step)
      = true := by
  obtain ⟨v, hv, hverify⟩ := h.exists_validator haddr
  have hown : (C.signature addr step).address = addr := (h.address addr haddr).1
  rw [countsAsValid, signs, hown, hv]
  exact hverify _

/-- The signers are validators, and more than two thirds of them. -/
structure Enough (C : Committee) (signers : List String) : Prop where
  subset : ∀ addr ∈ signers, addr ∈ C.addresses
  many : 2 * C.validators.length < 3 * signers.length

/-- A certificate with enough signatures is valid at every node. -/
theorem validateQuorumCertificate_certificate (hsigners : Enough C signers)
    (hm : m.height = C.height) :
    validateQuorumCertificate C.platform (C.env addr) m (some (C.certificate step signers))
      = true := by
  have hmany := hsigners.many
  have hlist : signatureList (C.certificate step signers) = signers.map (C.signature · step) := rfl
  have hall : (signers.map (C.signature · step)).countP
      (countsAsValid C.platform C.validators (C.certificate step signers)) = signers.length := by
    rw [← List.length_map (f := (C.signature · step)), List.countP_eq_length]
    intro ps hps
    obtain ⟨a, ha, rfl⟩ := List.mem_map.mp hps
    exact countsAsValid_signature h (hsigners.subset a ha) signers
  rw [validateQuorumCertificate_iff]
  refine ⟨rfl, ?_, C.validators, ?_, ?_⟩
  · rw [hlist]
    intro hnil
    rw [List.map_eq_nil_iff] at hnil
    simp [hnil] at hmany
  · rw [hm]
    exact h.reads addr haddr
  · rw [hlist, hall]
    exact hmany

theorem isValidMessageBlock_block {msg : HotstuffMessage} (hmsg : msg.block = some C.block)
    (hstep : msg.step ≠ NewRound) (hm : m.block = none ∨ m.block = some C.block) :
    isValidMessageBlock C.platform (C.config addr) m msg = some true := by
  have hsize := h.blockSize addr haddr
  have hheader : ∃ header, C.block.blockHeader = some header := ⟨_, rfl⟩
  obtain ⟨header, hheader⟩ := hheader
  simp only [isValidMessageBlock, hmsg, if_neg hstep]
  rw [if_neg (by omega)]
  rcases hm with hnone | hsome
  · rw [hnone]
  · simp only [hsome, hheader, beq_self_eq_true]

end

end Certificates

/-! ## Replicas -/

section Replica

variable {addr : String} {m : NodeState} (h : C.Healthy) (haddr : addr ∈ C.addresses)
  (hreplica : addr ≠ C.leader)

open HotstuffReplicaMessageHandler

/-- A replica that waits for a proposal, with a fresh unit of work. -/
structure Waiting (C : Committee) (m : NodeState) : Prop where
  working : Working C Prepare none m
  unlocked : m.lockedQC = none
  fresh : ∃ uow, m.utilityUnitOfWork = some uow ∧ uow.height = C.height ∧ uow.history = []

/-- A replica that has accepted the block. -/
structure Accepted (C : Committee) (step : ℤ) (m : NodeState) : Prop where
  working : Working C step (some C.block) m
  opened : m.utilityUnitOfWork.isSome = true

/-- The node votes on the proposal of a step, in a state with the property. -/
def VotesOn (C : Committee) (addr : String) (m : NodeState) (step : ℤ) (just : Justification)
    (after : NodeState → Prop) : Prop :=
  ∃ m', C.react addr m (C.proposal step just)
    = ⟨some m', [.sendToLeader C.leaderId (C.vote addr step)]⟩ ∧ after m'

/-- A node that has committed the block and moved on. -/
structure Finished (C : Committee) (m : NodeState) : Prop where
  height_eq : m.height = C.height + 1
  round_eq : m.round = 0

include h haddr hreplica

theorem handle_replica {step : ℤ} {block : Option Block} (hm : Working C step block m)
    {msg : HotstuffMessage} (hstep : msg.step = step) (hheight : msg.height = C.height) (hround : msg.round = 0) :
    C.react addr m msg
      = replicaHandlers C.platform (C.config addr) (C.env addr) step m msg := by
  have hlead : isLeader (C.config addr) m = false := by
    rw [isLeader_eq h haddr hm.leader_eq]
    exact decide_eq_false hreplica
  rw [handle_working hm hstep hheight hround (by simp [hlead]), hlead]
  rfl

theorem replica_newRound (hm : Opening C m) (hunlocked : m.lockedQC = none) :
    ∃ m', C.react addr m C.newRound = ⟨some m', []⟩ ∧ Waiting C m' := by
  have hopens := h.opens addr haddr
  have hworking := hm.working
  rw [handle_opening h haddr hm, if_neg hreplica]
  refine ⟨{ withLeader C m with
    utilityUnitOfWork := some (newUnitOfWork (C.config addr) (withLeader C m)), step := Prepare },
    ?_, ?_, hunlocked, _, rfl, hm.height_eq, rfl⟩
  · show handleNewRoundMessage C.platform (C.config addr) (C.env addr) (withLeader C m) C.newRound
      = _
    have hvalid : isValidMessageBlock C.platform (C.config addr) (withLeader C m) C.newRound
        = some true := rfl
    simp only [handleNewRoundMessage, anteHandle, hvalid, refreshUtilityUnitOfWork, hopens, if_true]
  · exact ⟨hm.height_eq, hm.round_eq, rfl, rfl, hm.block_eq⟩

omit hreplica in
theorem applyBlock_block {uow : UnitOfWork}
    (hm : m.utilityUnitOfWork = some uow) (hheight : uow.height = C.height)
    (hhistory : uow.history = []) :
    ∃ uow', applyBlock (C.env addr) C.block m
      = (.ok (), { m with utilityUnitOfWork := some uow' }) := by
  set proposer := (C.config C.leader).addressBytes
  set txs := C.transactions C.leader
  set proposed := uow.setProposalBlock (C.execute proposer txs) proposer txs with hproposed
  have hne := h.hash_ne proposer txs
  have hbytes : proposer ≠ [] := h.addressBytes C.leader h.leader_mem
  have hset : proposed.isProposalBlockSet = true := by
    simp [UnitOfWork.isProposalBlockSet, hproposed, UnitOfWork.setProposalBlock, hne, hbytes]
  have hrun : (C.env addr).executeBlock proposed = .stateHash (C.execute proposer txs) :=
    h.applies addr haddr proposed hheight hhistory
  have hhash : proposed.proposalStateHash = C.execute proposer txs := rfl
  have hheader : C.block.blockHeader = some
      { height := C.height, networkId := "", stateHash := C.execute proposer txs,
        prevStateHash := C.previous, proposerAddress := proposer,
        quorumCertificate := C.platform.marshalQC none, timestamp := none } := rfl
  have htransactions : C.block.transactions = txs := rfl
  refine ⟨{ proposed with
    stateHash := C.execute proposer txs
    history := proposed.history
      ++ [.applied proposed.proposalProposerAddr proposed.proposalBlockTxs
        (C.execute proposer txs)] }, ?_⟩
  simp only [applyBlock, hm, hheader, htransactions, ← hproposed, UnitOfWork.applyBlock, hset,
    if_true, hrun, hhash]
  simp

theorem replica_prepare (hm : Waiting C m) :
    VotesOn C addr m Prepare .none (Accepted C PreCommit) := by
  obtain ⟨hworking, hunlocked, uow, huow, hheight, hhistory⟩ := hm
  obtain ⟨uow', happly⟩ := applyBlock_block h haddr huow hheight hhistory
  have haccepted : Accepted C PreCommit
      ({ m with utilityUnitOfWork := some uow' }.accepting C.block) :=
    ⟨⟨hworking.height_eq, hworking.round_eq, rfl, hworking.leader_eq, rfl⟩, rfl⟩
  refine ⟨_, ?_, haccepted⟩
  rw [handle_replica h haddr hreplica hworking rfl rfl rfl]
  show handlePrepareMessage C.platform (C.config addr) (C.env addr) m (C.proposal Prepare .none) = _
  have hvalid : isValidMessageBlock C.platform (C.config addr) m (C.proposal Prepare .none)
      = some true :=
    isValidMessageBlock_block h haddr rfl (by simp [Committee.proposal, Prepare, NewRound])
      (.inl hworking.block_eq)
  have hproposal : validateProposal C.platform (C.env addr) m (C.proposal Prepare .none)
      = .ok () := by
    simp [validateProposal, Committee.proposal, HotstuffMessage.getQuorumCertificate, hunlocked]
  have hblock : (C.proposal Prepare .none).block = some C.block := rfl
  simp only [handlePrepareMessage, anteHandle, hvalid, hproposal, hblock, happly]
  rw [sendVote_eq haccepted.working]

omit hreplica in
theorem withQuorumCertificate_certificate {step signed : ℤ} (hm : Working C step (some C.block) m)
    (hstep : step ≠ NewRound) (hsigners : Enough C signers) (body : QuorumCertificate → Result) :
    withQuorumCertificate C.platform (C.config addr) (C.env addr) m
        (C.proposal step (C.certified signed signers)) body
      = body (C.certificate signed signers) := by
  have hvalid : isValidMessageBlock C.platform (C.config addr) m
      (C.proposal step (C.certified signed signers)) = some true :=
    isValidMessageBlock_block h haddr rfl hstep (.inr hm.block_eq)
  have hqc : (C.proposal step (C.certified signed signers)).getQuorumCertificate
      = some (C.certificate signed signers) := rfl
  have hcertificate : validateQuorumCertificate C.platform (C.env addr) m
      (some (C.certificate signed signers)) = true :=
    validateQuorumCertificate_certificate h haddr hsigners hm.height_eq
  simp only [withQuorumCertificate, anteHandle, hvalid, hqc, hcertificate, if_true]

/-- A replica that goes on with a valid certificate votes. -/
theorem replica_certified {step next signed : ℤ} (after : QuorumCertificate → NodeState)
    (hm : Accepted C step m) (hstep : step ≠ NewRound) (hsigners : Enough C signers)
    (hhandler : ∀ msg, replicaHandlers C.platform (C.config addr) (C.env addr) step m msg
      = withQuorumCertificate C.platform (C.config addr) (C.env addr) m msg fun qc =>
          ⟨some (after qc), sendVote C.platform (C.config addr) (after qc) step⟩)
    (hafter : ∀ qc, Accepted C next (after qc)) :
    VotesOn C addr m step (C.certified signed signers) (Accepted C next) := by
  refine ⟨_, ?_, hafter (C.certificate signed signers)⟩
  rw [handle_replica h haddr hreplica hm.working rfl rfl rfl, hhandler,
    withQuorumCertificate_certificate h haddr hm.working hstep hsigners,
    sendVote_eq (hafter _).working]

theorem replica_preCommit (hm : Accepted C PreCommit m) (hsigners : Enough C signers) :
    VotesOn C addr m PreCommit (C.certified Prepare signers) (Accepted C Commit) := by
  have hw := hm.working
  exact replica_certified h haddr hreplica
    (fun qc => { m with step := Commit, prepareQC := some qc, prepareQCSharesBlock := false })
    hm (by decide) hsigners (fun _ => rfl)
    fun _ => ⟨⟨hw.height_eq, hw.round_eq, rfl, hw.leader_eq, hw.block_eq⟩, hm.opened⟩

theorem replica_commit (hm : Accepted C Commit m) (hsigners : Enough C signers) :
    VotesOn C addr m Commit (C.certified PreCommit signers) (Accepted C Decide) := by
  have hw := hm.working
  exact replica_certified h haddr hreplica
    (fun qc => { m with step := Decide, lockedQC := some qc, lockedQCSharesBlock := false })
    hm (by decide) hsigners (fun _ => rfl)
    fun _ => ⟨⟨hw.height_eq, hw.round_eq, rfl, hw.leader_eq, hw.block_eq⟩, hm.opened⟩

omit hreplica in
theorem commitAndAdvance_block (hheight : m.height = C.height) (hblock : m.block = some C.block)
    (hopened : m.utilityUnitOfWork.isSome = true) (qc : QuorumCertificate) :
    ∃ m' uow view, commitAndAdvance C.platform (C.config addr) (C.env addr) qc m
        = ⟨some m', .committed C.height (C.committedBlock qc) uow
            :: viewMessages (C.config addr) view none⟩
      ∧ Finished C m' ∧ view.height = C.height + 1 := by
  obtain ⟨uow, huow⟩ := Option.isSome_iff_exists.mp hopened
  have hwrite : C.block.setQuorumCertificate (C.platform.marshalQC (some qc))
      = some (C.committedBlock qc) := rfl
  have hset : ∃ m₁, m.setBlockCertificate (C.platform.marshalQC (some qc)) = some m₁
      ∧ m₁.block = some (C.committedBlock qc) ∧ m₁.height = C.height
      ∧ m₁.utilityUnitOfWork = some uow := by
    simp only [NodeState.setBlockCertificate, hblock, hwrite, Option.map_some, Option.some.injEq,
      exists_eq_left', true_and]
    exact ⟨hheight, huow⟩
  obtain ⟨m₁, hm₁, hb₁, hh₁, hu₁⟩ := hset
  have hcommit := h.commits addr haddr uow
  simp only [commitAndAdvance, hm₁, hb₁, commitBlock, hu₁, hcommit, if_true, newHeight_eq, hh₁]
  exact ⟨_, uow, _, rfl, ⟨rfl, rfl⟩, rfl⟩

theorem replica_decide (hm : Accepted C Decide m) (hsigners : Enough C signers) :
    ∃ m' uow view, C.react addr m (C.proposal Decide (C.certified Commit signers))
        = ⟨some m', .committed C.height (C.committedBlock (C.certificate Commit signers)) uow
            :: viewMessages (C.config addr) view none⟩
      ∧ Finished C m' ∧ view.height = C.height + 1 := by
  have hworking := hm.working
  rw [handle_replica h haddr hreplica hworking rfl rfl rfl]
  show ∃ m' uow view, handleDecideMessage C.platform (C.config addr) (C.env addr) m _ = _ ∧ _
  rw [handleDecideMessage, withQuorumCertificate_certificate h haddr hworking (by decide) hsigners]
  exact commitAndAdvance_block h haddr hworking.height_eq hworking.block_eq hm.opened _

end Replica

/-! ## The leader's pools -/

section Pools

variable {m : NodeState} {step : ℤ} {block : Option Block} {msgs : List HotstuffMessage}
  {msg : HotstuffMessage}

/-- A pool that holds the messages, with its counters. -/
def poolOf (P : Platform) (msgs : List HotstuffMessage) : HotstuffFIFOMempool where
  messages := msgs
  size := msgs.length
  totalMsgBytes := (msgs.map P.msgSize).sum

/-- A leader that has collected messages of its step; its other pools are empty. -/
structure Leading (C : Committee) (step : ℤ) (block : Option Block) (msgs : List HotstuffMessage)
    (m : NodeState) : Prop where
  working : Working C step block m
  pools : ∀ s, 1 ≤ s → s ≤ 5 →
    m.hotstuffMempool s = some (if s = step then poolOf C.platform msgs else {})

/-- The messages fit into a pool of the leader. -/
structure Fits (C : Committee) (msgs : List HotstuffMessage) : Prop where
  count : msgs.length < 2 ^ 32
  bytes : (msgs.map C.platform.msgSize).sum < (C.config C.leader).maxMempoolBytes

theorem push_poolOf (h : C.Healthy) (hfits : Fits C (msgs ++ [msg])) :
    (poolOf C.platform msgs).push C.platform (C.config C.leader).maxMempoolBytes msg
      = poolOf C.platform (msgs ++ [msg]) := by
  have hmax := (h.roomy C.leader h.leader_mem).bytes
  have hcount := hfits.count
  have hbytes := hfits.bytes
  simp only [List.length_append, List.length_singleton] at hcount
  simp only [List.map_append, List.map_cons, List.map_nil, List.sum_append, List.sum_cons,
    List.sum_nil, Nat.add_zero] at hbytes
  have hsize : (msgs.length + 1) % 2 ^ 32 = msgs.length + 1 := Nat.mod_eq_of_lt hcount
  have htotal : ((msgs.map C.platform.msgSize).sum + C.platform.msgSize msg) % 2 ^ 64
      = (msgs.map C.platform.msgSize).sum + C.platform.msgSize msg :=
    Nat.mod_eq_of_lt (by omega)
  simp only [HotstuffFIFOMempool.push, HotstuffFIFOMempool.incrementCounters, poolOf, hsize, htotal]
  rw [if_neg (by omega)]
  simp

theorem totalMsgBytes_le (hm : Leading C step block msgs m)
    (htype : msg.type = Propose ∨ msg.type = Vote) :
    ∃ pool, m.hotstuffMempool msg.type = some pool
      ∧ pool.totalMsgBytes ≤ (msgs.map C.platform.msgSize).sum := by
  have hrange : 1 ≤ msg.type ∧ msg.type ≤ 5 := by
    unfold Propose Vote at htype
    omega
  refine ⟨_, hm.pools msg.type hrange.1 hrange.2, ?_⟩
  split
  · exact Nat.le_refl _
  · exact Nat.zero_le _

theorem Leading.pool_eq (hm : Leading C step block msgs m) (hlow : 1 ≤ step) (hhigh : step ≤ 5) :
    m.hotstuffMempool step = some (poolOf C.platform msgs) := by
  rw [hm.pools step hlow hhigh, if_pos rfl]

/-- All pools of a leader that begins to collect are empty. -/
theorem leading_of_empty (hm : Working C step block m)
    (hpools : ∀ s, 1 ≤ s → s ≤ 5 → m.hotstuffMempool s = some {}) : Leading C step block [] m := by
  refine ⟨hm, fun s hs hs' => ?_⟩
  rw [hpools s hs hs']
  split <;> rfl

section

variable (h : C.Healthy) (hm : Leading C step block msgs m) (hlow : 1 ≤ step) (hhigh : step ≤ 5)
  (hmsg : msg.step = step) (htype : msg.type = Propose ∨ msg.type = Vote)
include h hm hlow hhigh hmsg htype

theorem index_leading (hfits : Fits C (msgs ++ [msg])) :
    ∃ m₀, indexHotstuffMessage C.platform (C.config C.leader) m msg = some (true, m₀)
      ∧ Leading C step block (msgs ++ [msg]) m₀ ∧ m₀.utilityUnitOfWork = m.utilityUnitOfWork := by
  have hbytes := hfits.bytes
  simp only [List.map_append, List.sum_append] at hbytes
  obtain ⟨typePool, htypePool, htotal⟩ := totalMsgBytes_le hm htype
  have hpool := hm.pool_eq hlow hhigh
  refine ⟨{ m with
    hotstuffMempool :=
      Function.update m.hotstuffMempool step (some (poolOf C.platform (msgs ++ [msg]))) },
    ?_, ?_, rfl⟩
  · unfold indexHotstuffMessage
    simp only [htypePool, hmsg, hpool, push_poolOf h hfits]
    rw [if_neg (by omega)]
  · obtain ⟨hheight, hround, hstep, hleader, hblock⟩ := hm.working
    refine ⟨⟨hheight, hround, hstep, hleader, hblock⟩, fun s hs hs' => ?_⟩
    by_cases hss : s = step
    · subst hss
      simp
    · simp only [Function.update_of_ne hss, if_neg hss]
      rw [hm.pools s hs hs', if_neg hss]

/-- INTERNAL: a message that passes the checks is collected, and when it is enough the leader
goes on. -/
theorem whenEnough_leading
    (hvalid : isValidMessageBlock C.platform (C.config C.leader) m msg = some true)
    (hsigned : validateMessageSignature C.platform (C.env C.leader) m msg = true)
    (hfits : Fits C (msgs ++ [msg])) :
    ∃ m₀, Leading C step block (msgs ++ [msg]) m₀ ∧ m₀.utilityUnitOfWork = m.utilityUnitOfWork
      ∧ ∀ body, HotstuffLeaderMessageHandler.whenEnough C.platform (C.config C.leader)
          (C.env C.leader) step m msg body
        = if 2 * C.validators.length < 3 * (msgs.length + 1) then body m₀ else ⟨some m₀, []⟩ := by
  obtain ⟨m₀, hindex, hm₀, huow⟩ := index_leading h hm hlow hhigh hmsg htype hfits
  refine ⟨m₀, hm₀, huow, fun body => ?_⟩
  have henough : didReceiveEnoughMessageForStep (C.env C.leader) m₀ step
      = decide (2 * C.validators.length < 3 * (msgs.length + 1)) := by
    have hpool := hm₀.pool_eq hlow hhigh
    simp only [didReceiveEnoughMessageForStep, hm₀.working.height_eq,
      h.reads C.leader h.leader_mem, hpool, validateOptimisticThresholdMet, poolOf,
      List.length_append, List.length_singleton]
  simp only [HotstuffLeaderMessageHandler.whenEnough, HotstuffLeaderMessageHandler.anteHandle,
    hvalid, hsigned, hindex, henough, if_true, decide_eq_true_eq]

end

end Pools

/-! ## The leader -/

section Leader

variable {m : NodeState} {step : ℤ} {addr : String} {msgs : List HotstuffMessage}
  {certified : NodeState → QuorumCertificate → NodeState}

open HotstuffLeaderMessageHandler

theorem createProposalBlock_leader (h : C.Healthy) {uow : UnitOfWork}
    (hheight : uow.height = C.height) (hhistory : uow.history = []) :
    ∃ uow', uow.createProposalBlock (C.env C.leader) (C.config C.leader).addressBytes
      = (.ok (C.execute (C.config C.leader).addressBytes (C.transactions C.leader),
          C.transactions C.leader), uow') := by
  have hcreates := h.creates C.leader h.leader_mem uow hheight hhistory
  simp only [UnitOfWork.createProposalBlock, hcreates]
  exact ⟨_, rfl⟩

theorem prepareBlock_block (h : C.Healthy) (hm : Working C step none m)
    (huow : m.utilityUnitOfWork = some (newUnitOfWork (C.config C.leader) m)) :
    ∃ uow, prepareBlock C.platform (C.config C.leader) (C.env C.leader) none m
      = (.ok C.block, { m with utilityUnitOfWork := some uow }) := by
  have hlead := isLeader_leader h hm
  have hfresh : (newUnitOfWork (C.config C.leader) m).isLeaderUOW = true := hlead
  obtain ⟨uow', hcreated⟩ := @createProposalBlock_leader C h
    (newUnitOfWork (C.config C.leader) m) hm.height_eq rfl
  have hlt := h.height_lt
  have hheight : int64 (C.height : ℤ) = C.height := int64_eq_self (by omega) (by omega)
  have hhash : (C.env C.leader).getBlockHash (int64 (m.height : ℤ) - 1) = some C.previous := by
    rw [hm.height_eq, hheight]
    exact h.readsHash C.leader h.leader_mem
  have hblock : proposalBlock C.platform (C.config C.leader) m none
      (C.execute (C.config C.leader).addressBytes (C.transactions C.leader)) C.previous
      (C.transactions C.leader) = C.block := by
    simp only [proposalBlock, Committee.block, hm.height_eq, initialState]
  simp only [prepareBlock, hlead, huow, hfresh, hcreated, hhash, hblock, if_true]
  exact ⟨_, rfl⟩

/-- A leader that collects `NewRound` messages. -/
structure Collecting (C : Committee) (msgs : List HotstuffMessage) (m : NodeState) : Prop where
  opening : Opening C m
  leading : Leading C NewRound none msgs (withLeader C m)
  opens : ∀ msg ∈ msgs, msg = C.newRound

/-- A leader that collects the votes on the block for a step. -/
structure Voting (C : Committee) (step : ℤ) (signers : List String) (m : NodeState) : Prop where
  leading : Leading C step (some C.block) (signers.map (C.vote · step)) m
  opened : m.utilityUnitOfWork.isSome = true

theorem findHighQC_newRounds (h : ∀ msg ∈ msgs, msg = C.newRound) : findHighQC msgs = none := by
  have hnone : C.newRound.getQuorumCertificate = none := rfl
  unfold findHighQC
  induction msgs with
  | nil => rfl
  | cons msg msgs ih =>
    obtain rfl := h msg List.mem_cons_self
    rw [List.foldl_cons, hnone]
    exact ih fun msg hmsg => h msg (List.mem_cons_of_mem _ hmsg)

theorem leading_proposing {uow : UnitOfWork} (hm : Leading C NewRound none msgs m) :
    Leading C Prepare (some C.block) []
      ({ m with utilityUnitOfWork := some uow }.proposing C.block) := by
  obtain ⟨hheight, hround, -, hleader, -⟩ := hm.working
  refine leading_of_empty ⟨hheight, hround, rfl, hleader, rfl⟩ fun s hs hs' => ?_
  by_cases hss : s = NewRound
  · subst hss
    simp [NodeState.proposing, NodeState.clearPool, hm.pools NewRound hs hs']
  · have hpool := hm.pools s hs hs'
    rw [if_neg hss] at hpool
    simp [NodeState.proposing, NodeState.clearPool, Function.update_of_ne hss, hpool]

theorem proposePrepare_block {uow : UnitOfWork} (hm : Leading C NewRound none msgs m) :
    proposePrepare C.platform (C.config C.leader) none C.block
        { m with utilityUnitOfWork := some uow }
      = ⟨some ({ m with utilityUnitOfWork := some uow }.proposing C.block),
        [.broadcast (C.proposal Prepare .none),
          .sendToLeader C.leaderId (C.vote C.leader Prepare)]⟩ := by
  have hafter : Working C Prepare (some C.block)
      ({ m with utilityUnitOfWork := some uow }.proposing C.block) :=
    (leading_proposing hm).working
  simp only [proposePrepare, propose, createProposeMessage, hafter.block_eq, hafter.height_eq,
    hafter.round_eq, sendVote_eq hafter]
  rfl

/-- **A `NewRound` message at the leader.**  While there are too few, it is kept; the one that is
enough makes the leader propose. -/
theorem leader_newRound (h : C.Healthy) (hm : Collecting C msgs m)
    (hfits : Fits C (msgs ++ [C.newRound])) :
    (¬ 2 * C.validators.length < 3 * (msgs.length + 1) →
      ∃ m', C.react C.leader m C.newRound
          = ⟨some m', []⟩ ∧ Collecting C (msgs ++ [C.newRound]) m')
    ∧ (2 * C.validators.length < 3 * (msgs.length + 1) →
      ∃ m', C.react C.leader m C.newRound
          = ⟨some m', [.broadcast (C.proposal Prepare .none),
              .sendToLeader C.leaderId (C.vote C.leader Prepare)]⟩ ∧ Voting C Prepare [] m') := by
  have hopens := h.opens C.leader h.leader_mem
  obtain ⟨m₀, hm₀, -, henough⟩ := @whenEnough_leading C (withLeader C m) NewRound none msgs
    C.newRound h hm.leading (by decide) (by decide) rfl (.inl rfl) rfl rfl hfits
  have hall : ∀ msg ∈ msgs ++ [C.newRound], msg = C.newRound := by
    intro msg hmsg
    rcases List.mem_append.mp hmsg with hmsg | hmsg
    · exact hm.opens msg hmsg
    · exact List.mem_singleton.mp hmsg
  rw [handle_opening h h.leader_mem hm.opening, if_pos rfl]
  show (_ → ∃ m', handleNewRoundMessage C.platform (C.config C.leader) (C.env C.leader)
      (withLeader C m) C.newRound = _ ∧ _)
    ∧ (_ → ∃ m', handleNewRoundMessage C.platform (C.config C.leader) (C.env C.leader)
      (withLeader C m) C.newRound = _ ∧ _)
  rw [handleNewRoundMessage, henough]
  constructor
  · intro hfew
    rw [if_neg hfew]
    obtain ⟨hheight, hround, hstep, hleader, hblock⟩ := hm₀.working
    have hsame : withLeader C m₀ = m₀ := by
      rw [withLeader, ← hleader]
    exact ⟨m₀, rfl, ⟨hheight, hround, hstep, .inr hleader, hblock⟩, hsame.symm ▸ hm₀, hall⟩
  · intro hmany
    rw [if_pos hmany]
    have hpool := hm₀.pool_eq (by decide) (by decide)
    have hhigh : findHighQC ((m₀.hotstuffMempool NewRound).elim [] (·.messages)) = none := by
      rw [hpool]
      exact findHighQC_newRounds hall
    have hrefreshed : Leading C NewRound none (msgs ++ [C.newRound])
        { m₀ with utilityUnitOfWork := some (newUnitOfWork (C.config C.leader) m₀) } := by
      obtain ⟨hheight, hround, hstep, hleader, hblock⟩ := hm₀.working
      exact ⟨⟨hheight, hround, hstep, hleader, hblock⟩, hm₀.pools⟩
    obtain ⟨uow, hprepare⟩ := prepareBlock_block h hrefreshed.working rfl
    simp only [newRoundBody, refreshUtilityUnitOfWork, hopens, if_true, hhigh, Option.bind_none,
      hprepare]
    rw [proposePrepare_block hrefreshed]
    exact ⟨_, rfl, leading_proposing hrefreshed, rfl⟩

theorem handle_vote (h : C.Healthy) (hm : Voting C step signers m) :
    C.react C.leader m (C.vote addr step)
      = leaderHandlers C.platform (C.config C.leader) (C.env C.leader) step m
          (C.vote addr step) := by
  have hworking := hm.leading.working
  have hvote : (C.vote addr step).type ≠ Propose := by
    show Vote ≠ Propose
    decide
  rw [handle_working hworking rfl rfl rfl fun hown => hvote hown.2.1,
    isLeader_leader h hworking]
  rfl

theorem signature_set (step : ℤ) (h : C.Healthy) (haddr : addr ∈ C.addresses) :
    ¬ ((C.signature addr step).signature = [] ∨ (C.signature addr step).address = "") := by
  obtain ⟨hown, hne⟩ := h.address addr haddr
  rw [show (C.signature addr step).address = addr from hown, not_or]
  exact ⟨h.signature_ne addr haddr (getSignableBytes (C.ballot step)), hne⟩

theorem validateMessageSignature_vote (h : C.Healthy) (haddr : addr ∈ C.addresses)
    (hm : m.height = C.height) (hstep : step ≠ NewRound) :
    validateMessageSignature C.platform (C.env C.leader) m (C.vote addr step) = true := by
  obtain ⟨v, hv, hverify⟩ := h.exists_validator haddr
  have hset := signature_set step h haddr
  have hps : (C.vote addr step).getPartialSignature = some (C.signature addr step) := rfl
  have htype : (C.vote addr step).type ≠ Propose := by
    show Vote ≠ Propose
    decide
  have haddress : (C.signature addr step).address = addr := (h.address addr haddr).1
  rw [haddress] at hset
  have hvstep : (C.vote addr step).step ≠ NewRound := hstep
  simp only [validateMessageSignature, if_neg hvstep, if_neg htype, hps, if_neg hset, haddress, hm,
    h.reads C.leader h.leader_mem, hv]
  exact hverify _

/-- The steps that are voted on. -/
theorem voted_range (hlow : Prepare ≤ step) (hhigh : step ≤ Commit) :
    1 ≤ step ∧ step ≤ 5 ∧ step ≠ NewRound := by
  unfold Prepare at hlow
  unfold Commit at hhigh
  unfold NewRound
  omega

theorem collect_vote (h : C.Healthy) (hm : Voting C step signers m) (haddr : addr ∈ C.addresses)
    (hlow : Prepare ≤ step) (hhigh : step ≤ Commit)
    (hfits : Fits C ((signers ++ [addr]).map (C.vote · step))) :
    ∃ m₀, Voting C step (signers ++ [addr]) m₀ ∧ ∀ body,
      whenEnough C.platform (C.config C.leader) (C.env C.leader) step m (C.vote addr step) body
        = if 2 * C.validators.length < 3 * (signers.length + 1) then body m₀
          else ⟨some m₀, []⟩ := by
  have hworking := hm.leading.working
  obtain ⟨hfirst, hlast, hstep⟩ := voted_range hlow hhigh
  have hvalid : isValidMessageBlock C.platform (C.config C.leader) m (C.vote addr step)
      = some true :=
    isValidMessageBlock_block h h.leader_mem rfl hstep (.inr hworking.block_eq)
  have hsigned := @validateMessageSignature_vote C m step addr h haddr hworking.height_eq hstep
  have hmap : (signers ++ [addr]).map (C.vote · step)
      = signers.map (C.vote · step) ++ [C.vote addr step] := by simp
  rw [hmap] at hfits
  obtain ⟨m₀, hm₀, huow, henough⟩ := whenEnough_leading h hm.leading hfirst hlast rfl
    (.inr rfl) hvalid hsigned hfits
  refine ⟨m₀, ⟨hmap ▸ hm₀, huow ▸ hm.opened⟩, fun body => ?_⟩
  rw [henough body, List.length_map]

theorem usablePartialSignature_votes (h : C.Healthy) (hsigners : ∀ a ∈ signers, a ∈ C.addresses) :
    (signers.map (C.vote · step)).filterMap (usablePartialSignature C.height step 0)
      = signers.map (C.signature · step) := by
  induction signers with
  | nil => rfl
  | cons a signers ih =>
    have ha : a ∈ C.addresses := hsigners a List.mem_cons_self
    have husable : usablePartialSignature C.height step 0 (C.vote a step)
        = some (C.signature a step) := by
      have hps : (C.vote a step).getPartialSignature = some (C.signature a step) := rfl
      have hplace : ¬ ((C.vote a step).height ≠ C.height ∨ (C.vote a step).step ≠ step
          ∨ (C.vote a step).round ≠ 0) := by
        rintro (hne | hne | hne) <;> exact hne rfl
      simp only [usablePartialSignature, hps, if_neg hplace, if_neg (signature_set _ h ha)]
    rw [List.map_cons, List.filterMap_cons, husable, List.map_cons]
    exact congrArg _ (ih fun b hb => hsigners b (List.mem_cons_of_mem _ hb))

theorem getQuorumCertificate_votes (h : C.Healthy) (hm : Voting C step signers m)
    (hlow : Prepare ≤ step) (hhigh : step ≤ Commit) (hsigners : Enough C signers) :
    ∃ pool, getQuorumCertificate C.platform (C.env C.leader) step m
      = (.ok (C.certificate step signers),
        { m with hotstuffMempool := Function.update m.hotstuffMempool step (some pool) }) := by
  obtain ⟨hheight, hround, -, -, hblock⟩ := hm.leading.working
  have hmany := hsigners.many
  obtain ⟨hfirst, hlast, -⟩ := voted_range hlow hhigh
  have hpool := hm.leading.pool_eq hfirst hlast
  have hpopped := popPartialSignatures_eq C.platform C.height step 0
    (poolOf C.platform (signers.map (C.vote · step))).messages.length
    (poolOf C.platform (signers.map (C.vote · step))) [] (Nat.le_refl _)
  rw [List.nil_append, show (poolOf C.platform (signers.map (C.vote · step))).messages
    = signers.map (C.vote · step) from rfl, usablePartialSignature_votes h hsigners.subset]
    at hpopped
  have hmet : validateOptimisticThresholdMet (signers.map (C.signature · step)).length
      C.validators = true := by
    simpa [validateOptimisticThresholdMet] using hmany
  simp only [getQuorumCertificate, hpool, hheight, hround, hblock, h.reads C.leader h.leader_mem]
  rw [show (poolOf C.platform (signers.map (C.vote · step))).messages
    = signers.map (C.vote · step) from rfl, hpopped, hmet]
  exact ⟨_, rfl⟩

/-- Enough votes for a step make the leader propose the next one. -/
def ProposesNext (C : Committee) (step next : ℤ) : Prop :=
  ∀ m signers addr, Voting C step signers m → addr ∈ C.addresses →
    Fits C ((signers ++ [addr]).map (C.vote · step)) → Enough C (signers ++ [addr]) →
    ∃ m', C.react C.leader m (C.vote addr step)
      = ⟨some m', [.broadcast (C.proposal next (C.certified step (signers ++ [addr]))),
          .sendToLeader C.leaderId (C.vote C.leader next)]⟩ ∧ Voting C next [] m'

/-- What a leader does to its state when it has certified the votes for a step: it takes the next
step and empties the pool of the votes. -/
structure Certifies (certified : NodeState → QuorumCertificate → NodeState) (step next : ℤ) :
    Prop where
  height_eq : ∀ m qc, (certified m qc).height = m.height
  round_eq : ∀ m qc, (certified m qc).round = m.round
  step_eq : ∀ m qc, (certified m qc).step = next
  leader_eq : ∀ m qc, (certified m qc).leaderId = m.leaderId
  block_eq : ∀ m qc, (certified m qc).block = m.block
  uow_eq : ∀ m qc, (certified m qc).utilityUnitOfWork = m.utilityUnitOfWork
  pools_eq : ∀ m qc, (certified m qc).hotstuffMempool
    = Function.update m.hotstuffMempool step ((m.hotstuffMempool step).map fun _ => {})

theorem certifies_prepare : Certifies NodeState.certifiedPrepare Prepare PreCommit := by
  constructor <;> exact fun _ _ => rfl

theorem certifies_preCommit : Certifies NodeState.certifiedPreCommit PreCommit Commit := by
  constructor <;> exact fun _ _ => rfl

theorem voting_next (hm : Voting C step signers m) {next : ℤ} (pool : HotstuffFIFOMempool)
    (hcertified : Certifies certified step next) (qc : QuorumCertificate) :
    Voting C next [] (certified
      { m with hotstuffMempool := Function.update m.hotstuffMempool step (some pool) } qc) := by
  obtain ⟨hheight, hround, -, hleader, hblock⟩ := hm.leading.working
  refine ⟨leading_of_empty ⟨?_, ?_, hcertified.step_eq _ _, ?_, ?_⟩ fun s hs hs' => ?_, ?_⟩
  · rw [hcertified.height_eq, hheight]
  · rw [hcertified.round_eq, hround]
  · rw [hcertified.leader_eq, hleader]
  · rw [hcertified.block_eq, hblock]
  · rw [hcertified.pools_eq]
    by_cases hss : s = step
    · simp only [hss, Function.update_self, Option.map_some]
    · have hpool := hm.leading.pools s hs hs'
      rw [if_neg hss] at hpool
      simp only [Function.update_of_ne hss, hpool]
  · rw [hcertified.uow_eq]
    exact hm.opened

section

variable (h : C.Healthy)
include h

/-- **Too few votes** are kept. -/
theorem leader_waits (hm : Voting C step signers m) (haddr : addr ∈ C.addresses)
    (hstep : step = Prepare ∨ step = PreCommit ∨ step = Commit)
    (hfits : Fits C ((signers ++ [addr]).map (C.vote · step)))
    (hfew : ¬ 2 * C.validators.length < 3 * (signers.length + 1)) :
    ∃ m', C.react C.leader m (C.vote addr step) = ⟨some m', []⟩
      ∧ Voting C step (signers ++ [addr]) m' := by
  have hrange : Prepare ≤ step ∧ step ≤ Commit := by
    unfold Prepare PreCommit Commit at *
    omega
  obtain ⟨m₀, hm₀, henough⟩ := collect_vote h hm haddr hrange.1 hrange.2 hfits
  refine ⟨m₀, ?_, hm₀⟩
  rw [handle_vote h hm]
  rcases hstep with rfl | rfl | rfl
  · show handlePrepareMessage C.platform (C.config C.leader) (C.env C.leader) m _ = _
    rw [handlePrepareMessage, henough, if_neg hfew]
  · show handlePrecommitMessage C.platform (C.config C.leader) (C.env C.leader) m _ = _
    rw [handlePrecommitMessage, henough, if_neg hfew]
  · show handleCommitMessage C.platform (C.config C.leader) (C.env C.leader) m _ = _
    rw [handleCommitMessage, henough, if_neg hfew]

theorem certify_votes (hm : Voting C step signers m) (haddr : addr ∈ C.addresses)
    (hlow : Prepare ≤ step) (hhigh : step ≤ Commit)
    (hfits : Fits C ((signers ++ [addr]).map (C.vote · step)))
    (hsigners : Enough C (signers ++ [addr])) {next : ℤ}
    (hcertified : Certifies certified step next) :
    ∃ m', whenEnough C.platform (C.config C.leader) (C.env C.leader) step m (C.vote addr step)
        (assembled C.platform (C.env C.leader) step fun qc m =>
          propose (C.config C.leader) next (some qc) (certified m qc) ⟨some (certified m qc),
            sendVote C.platform (C.config C.leader) (certified m qc) next⟩)
      = ⟨some m', [.broadcast (C.proposal next (C.certified step (signers ++ [addr]))),
          .sendToLeader C.leaderId (C.vote C.leader next)]⟩ ∧ Voting C next [] m' := by
  obtain ⟨m₀, hm₀, henough⟩ := collect_vote h hm haddr hlow hhigh hfits
  obtain ⟨pool, hqc⟩ := getQuorumCertificate_votes h hm₀ hlow hhigh hsigners
  have hmany := hsigners.many
  rw [List.length_append, List.length_singleton] at hmany
  have hnext := voting_next hm₀ pool hcertified (C.certificate step (signers ++ [addr]))
  have hworking := hnext.leading.working
  refine ⟨_, ?_, hnext⟩
  rw [henough, if_pos hmany, assembled, hqc]
  simp only [propose, createProposeMessage, hworking.block_eq, hworking.height_eq,
    hworking.round_eq, sendVote_eq hworking]
  rfl

/-- **Enough `Prepare` votes** make the leader propose to pre-commit. -/
theorem leader_prepare : ProposesNext C Prepare PreCommit := by
  intro m signers addr hm haddr hfits hsigners
  rw [handle_vote h hm]
  exact certify_votes h hm haddr (by decide) (by decide) hfits hsigners certifies_prepare

/-- **Enough `PreCommit` votes** make the leader lock and propose to commit. -/
theorem leader_preCommit : ProposesNext C PreCommit Commit := by
  intro m signers addr hm haddr hfits hsigners
  rw [handle_vote h hm]
  exact certify_votes h hm haddr (by decide) (by decide) hfits hsigners certifies_preCommit

/-- **Enough `Commit` votes** make the leader decide, commit and move on. -/
theorem leader_commit (hm : Voting C Commit signers m) (haddr : addr ∈ C.addresses)
    (hfits : Fits C ((signers ++ [addr]).map (C.vote · Commit)))
    (hsigners : Enough C (signers ++ [addr])) :
    ∃ m' uow view, C.react C.leader m (C.vote addr Commit)
      = ⟨some m', .broadcast (C.proposal Decide (C.certified Commit (signers ++ [addr])))
          :: .committed C.height (C.committedBlock (C.certificate Commit (signers ++ [addr]))) uow
          :: viewMessages (C.config C.leader) view none⟩
      ∧ Finished C m' ∧ view.height = C.height + 1 := by
  obtain ⟨m₀, hm₀, henough⟩ := collect_vote h hm haddr (by decide) (by decide) hfits
  obtain ⟨pool, hqc⟩ := getQuorumCertificate_votes h hm₀ (by decide) (by decide) hsigners
  have hmany := hsigners.many
  rw [List.length_append, List.length_singleton] at hmany
  obtain ⟨hheight, hround, -, hleader, hblock⟩ := hm₀.leading.working
  set certified := { m₀ with
    hotstuffMempool := Function.update m₀.hotstuffMempool Commit (some pool) }.certifiedCommit
      with hcertified
  have hcheight : certified.height = C.height := hheight
  have hcround : certified.round = 0 := hround
  have hcblock : certified.block = some C.block := hblock
  obtain ⟨m', uow, view, hcommit, hfinished, hview⟩ := commitAndAdvance_block h h.leader_mem hcheight
    hcblock hm₀.opened (C.certificate Commit (signers ++ [addr]))
  refine ⟨m', uow, view, ?_, hfinished, hview⟩
  rw [handle_vote h hm]
  show handleCommitMessage C.platform (C.config C.leader) (C.env C.leader) m _ = _
  rw [handleCommitMessage, henough, if_pos hmany, assembled, hqc]
  simp only [proposeDecide, ← hcertified, propose, createProposeMessage, hcblock, hcheight, hcround,
    hcommit]
  rfl

end

end Leader

end Pocket.Analysis
