import Pocket.Model.Certificates

/-!
# Blocks on a node: checking, applying, preparing and committing

The part of the consensus module that talks to the unit of work.  The outcome of running
transactions is an answer of the environment; what is modelled is which block the unit of
work was told to run, what the node compares afterwards, and which errors end the process.
-/

set_option autoImplicit false

namespace Pocket.Model

variable (P : Platform) (cfg : NodeConfig) (env : Env)

/-! ## The unit of work -/

/-- SOURCE: utility/unit_of_work/block.go:16 -/
def IgnoreProposalBlockCheckHash : String :=
  "0100000000000000000000000000000000000000000000000000000000000010"

/-- SOURCE: utility/unit_of_work/module.go:44-49 -/
def UnitOfWork.setProposalBlock (u : UnitOfWork) (stateHash : String) (proposer : Bytes)
    (txs : List Bytes) : UnitOfWork :=
  { u with proposalStateHash := stateHash, proposalProposerAddr := proposer,
           proposalBlockTxs := txs }

/-- SOURCE: utility/unit_of_work/module.go:134-136 -/
def UnitOfWork.isProposalBlockSet (u : UnitOfWork) : Bool :=
  u.proposalStateHash != "" && u.proposalProposerAddr != []

/-- SOURCE: utility/unit_of_work/module.go:51-103 -/
def UnitOfWork.applyBlock (u : UnitOfWork) : Call Unit × UnitOfWork :=
  if u.isProposalBlockSet then
    match env.executeBlock u with
    | .error => (.err, { u with history := u.history ++ [.failed] })
    | .fatal => (.halt, u)
    | .stateHash hash =>
      -- a mismatch with the proposal is `log.Fatal`
      if u.proposalStateHash ≠ IgnoreProposalBlockCheckHash ∧ u.proposalStateHash ≠ hash then
        (.halt, u)
      else
        (.ok (), { u with
          stateHash := hash
          history := u.history ++ [.applied u.proposalProposerAddr u.proposalBlockTxs hash] })
  else (.err, u)

/-- SOURCE: utility/unit_of_work/uow_leader.go:32-66 -/
def UnitOfWork.createProposalBlock (u : UnitOfWork) (proposer : Bytes) :
    Call (String × List Bytes) × UnitOfWork :=
  match env.createProposalBlock u with
  | (.error, _) => (.err, { u with history := u.history ++ [.failed] })
  | (.fatal, _) => (.halt, u)
  | (.stateHash hash, txs) =>
    (.ok (hash, txs), { u with history := u.history ++ [.created proposer txs hash] })

/-! ## The consensus module -/

/-- The basic block check; `none` is the dereference of a nil header.  Of the block being
processed only the state hash is compared.  SOURCE: consensus/block.go:39-74 -/
def isValidMessageBlock (m : NodeState) (msg : HotstuffMessage) : Option Bool :=
  match msg.block with
  | none => some (msg.step == NewRound)
  | some block =>
    if msg.step = NewRound then some false
    else if cfg.maxBlockBytes < P.sizeofBlock then some false
    else
      match m.block with
      | none => some true
      | some current =>
        match current.blockHeader, block.blockHeader with
        | some currentHeader, some header => some (currentHeader.stateHash == header.stateHash)
        | _, _ => none

/-- A unit of work as `NewUnitOfWork` hands it out.  SOURCE: utility/uow.go:8-27 -/
def newUnitOfWork (m : NodeState) : UnitOfWork :=
  { height := m.height, isLeaderUOW := isLeader cfg m }

/-- SOURCE: consensus/block.go:77-102 -/
def refreshUtilityUnitOfWork (m : NodeState) : Call Unit × NodeState :=
  if env.newUnitOfWork then
    (.ok (), { m with utilityUnitOfWork := some (newUnitOfWork cfg m) })
  else (.err, { m with utilityUnitOfWork := none })

/-- SOURCE: consensus/hotstuff_replica.go:237-261 -/
def applyBlock (block : Block) (m : NodeState) : Call Unit × NodeState :=
  match m.utilityUnitOfWork with
  | none => (.err, m)
  | some uow =>
    match block.blockHeader with
    | none => (.halt, m)
    | some header =>
      let proposal :=
        uow.setProposalBlock header.stateHash header.proposerAddress block.transactions
      match proposal.applyBlock env with
      | (.halt, _) => (.halt, m)
      | (.err, uow') => (.err, { m with utilityUnitOfWork := some uow' })
      | (.ok (), uow') =>
        if header.stateHash ≠ uow'.stateHash then
          (.err, { m with utilityUnitOfWork := some uow' })
        else (.ok (), { m with utilityUnitOfWork := some uow' })

/-- The block a leader builds around the transactions it has run.
SOURCE: consensus/hotstuff_leader.go:425-436 -/
def proposalBlock (m : NodeState) (qc : Option QuorumCertificate) (stateHash : String)
    (prevBlockHash : String) (txs : List Bytes) : Block :=
  let header : BlockHeader :=
    { height := m.height
      networkId := ""
      stateHash := stateHash
      prevStateHash := prevBlockHash
      proposerAddress := cfg.addressBytes
      quorumCertificate := P.marshalQC qc
      timestamp := none }
  { blockHeader := some header, transactions := txs }

/-- SOURCE: consensus/hotstuff_leader.go:384-444 -/
def prepareBlock (qc : Option QuorumCertificate) (m : NodeState) : Call Block × NodeState :=
  if isLeader cfg m then
    match m.utilityUnitOfWork with
    | none => (.err, m)
    | some uow =>
      if uow.isLeaderUOW then
        match uow.createProposalBlock env cfg.addressBytes with
        | (.halt, _) => (.halt, m)
        | (.err, uow') => (.err, { m with utilityUnitOfWork := some uow' })
        | (.ok (stateHash, txs), uow') =>
          match env.getBlockHash (int64 m.height - 1) with
          | none => (.err, { m with utilityUnitOfWork := some uow' })
          | some prevBlockHash =>
            let proposed := uow'.setProposalBlock stateHash cfg.addressBytes txs
            (.ok (proposalBlock P cfg m qc stateHash prevBlockHash txs),
              { m with utilityUnitOfWork := some proposed })
      else (.err, m)
  else (.err, m)

/-- SOURCE: consensus/block.go:11-35 -/
def commitBlock (block : Block) (m : NodeState) : Call Unit × NodeState × List Output :=
  match m.utilityUnitOfWork with
  | none => (.err, m, [])
  | some uow =>
    if env.commit uow then
      (.ok (), { m with utilityUnitOfWork := none }, [.committed m.height block uow])
    else (.err, m, [])

/-- Writing the certificate into the block, committing it and moving to the next height:
the end of a replica's `HandleDecideMessage` and of the leader's `HandleCommitMessage`.
SOURCE: consensus/hotstuff_replica.go:155-168, consensus/hotstuff_leader.go:248-263 -/
def commitAndAdvance (qc : QuorumCertificate) (m : NodeState) : Result :=
  match m.setBlockCertificate (P.marshalQC (some qc)) with
  | none => ⟨none, []⟩
  | some m =>
    match m.block with
    | none => ⟨none, []⟩
    | some block =>
      match commitBlock env block m with
      | (.ok (), m, out) => ⟨(newHeight cfg m).state, out ++ (newHeight cfg m).out⟩
      | (_, m, _) => interruptRound cfg m

/-! ## Messages -/

/-- SOURCE: consensus/messages.go:11-45 -/
def createProposeMessage (height round : ℕ) (step : ℤ) (block : Option Block)
    (qc : Option QuorumCertificate) : Option HotstuffMessage :=
  match block, qc with
  | none, _ => none
  | some b, none =>
    if step ≠ Prepare then none
    else some { type := Propose, height, step, round, block := some b, justification := .none }
  | some b, some qc =>
    some { type := Propose, height, step, round, block := some b,
           justification := .quorumCertificate qc }

/-- SOURCE: consensus/messages.go:47-75 -/
def createVoteMessage (height round : ℕ) (step : ℤ) (block : Option Block) :
    Option HotstuffMessage :=
  match block with
  | none => none
  | some b =>
    let msg : HotstuffMessage :=
      { type := Vote, height, step, round, block := some b, justification := .none }
    let signature := P.sign cfg.privateKey (getSignableBytes msg)
    some { msg with justification := .partialSignature ⟨signature, cfg.address⟩ }

/-- SOURCE: consensus/helpers.go:146-177 -/
def sendToLeader (m : NodeState) (msg : HotstuffMessage) : List Output :=
  match m.leaderId with
  | none => []
  | some leader => [.sendToLeader leader msg]

/-- Creating a vote for a step on the current block and sending it: nothing is sent when
there is no block or no leader. -/
def sendVote (m : NodeState) (step : ℤ) : List Output :=
  match createVoteMessage P cfg m.height m.round step m.block with
  | none => []
  | some msg => sendToLeader m msg

/-! ## What these operations can do -/

variable {m' m : NodeState} {block : Block} {c : Call Unit}

/-- A vote commits nothing. -/
theorem not_committed_sendVote {P : Platform} {cfg : NodeConfig} {step : ℤ} {height : ℕ} {uow : UnitOfWork} :
    .committed height block uow ∉ sendVote P cfg m step := by
  unfold sendVote sendToLeader
  repeat' split
  all_goals simp

theorem snd_eq_of_eq {α : Type} {r : Call α × NodeState} {c : Call α}
    {f : Option UnitOfWork → NodeState} (h : r = (c, m')) (hsnd : ∃ uow, r.2 = f uow) :
    ∃ uow, m' = f uow := by
  subst h
  exact hsnd

theorem refreshUtilityUnitOfWork_ok (h : refreshUtilityUnitOfWork cfg env m = (.ok (), m')) :
    m' = { m with utilityUnitOfWork := some (newUnitOfWork cfg m) } := by
  unfold refreshUtilityUnitOfWork at h
  split at h
  · exact (Prod.mk.inj h).2.symm
  · simp at h

theorem refreshUtilityUnitOfWork_not_ok (h : refreshUtilityUnitOfWork cfg env m = (c, m'))
    (hc : c ≠ .ok ()) : m' = { m with utilityUnitOfWork := none } := by
  unfold refreshUtilityUnitOfWork at h
  split at h
  · exact absurd (Prod.mk.inj h).1.symm hc
  · exact (Prod.mk.inj h).2.symm

theorem applyBlock_snd (block : Block) (m : NodeState) :
    ∃ uow, (applyBlock env block m).2 = { m with utilityUnitOfWork := uow } := by
  unfold applyBlock
  split
  · exact ⟨_, rfl⟩
  split
  · exact ⟨_, rfl⟩
  simp only
  repeat' split
  all_goals exact ⟨_, rfl⟩

theorem UnitOfWork.applyBlock_ok {u u' : UnitOfWork} (h : u.applyBlock env = (.ok (), u')) :
    u'.height = u.height ∧ u'.history = u.history ++
      [.applied u.proposalProposerAddr u.proposalBlockTxs u'.stateHash] := by
  unfold UnitOfWork.applyBlock at h
  split at h
  · split at h
    · simp at h
    · simp at h
    · split at h
      · simp at h
      · simp only [Prod.mk.injEq, true_and] at h
        subst h
        exact ⟨rfl, rfl⟩
  · simp at h

/-- INTERNAL: a block that was applied is, in the unit of work's history, the last run, with
its own proposer, transactions and state hash. -/
theorem applyBlock_ok (h : applyBlock env block m = (.ok (), m')) :
    ∃ uow uow' header, m.utilityUnitOfWork = some uow ∧ block.blockHeader = some header
      ∧ m' = { m with utilityUnitOfWork := some uow' }
      ∧ uow'.height = uow.height
      ∧ uow'.history = uow.history ++
          [.applied header.proposerAddress block.transactions header.stateHash] := by
  unfold applyBlock at h
  split at h
  · simp at h
  rename_i uow huow
  split at h
  · simp at h
  rename_i header hheader
  simp only at h
  split at h
  · simp at h
  · simp at h
  · rename_i uow' hrun
    split at h
    · simp at h
    · rename_i hhash
      obtain ⟨hheight, hhistory⟩ := UnitOfWork.applyBlock_ok env hrun
      refine ⟨uow, uow', header, huow, hheader, (Prod.mk.inj h).2.symm, hheight, ?_⟩
      rw [not_not] at hhash
      rw [hhistory, hhash]
      rfl

theorem prepareBlock_snd (qc : Option QuorumCertificate) (m : NodeState) :
    ∃ uow, (prepareBlock P cfg env qc m).2 = { m with utilityUnitOfWork := uow } := by
  unfold prepareBlock
  repeat' split
  all_goals exact ⟨_, rfl⟩

theorem prepareBlock_ok {qc : Option QuorumCertificate}
    (h : prepareBlock P cfg env qc m = (.ok block, m')) :
    ∃ uow uow' header, m.utilityUnitOfWork = some uow ∧ block.blockHeader = some header
      ∧ m' = { m with utilityUnitOfWork := some uow' }
      ∧ uow'.height = uow.height
      ∧ uow'.history = uow.history ++
          [.created header.proposerAddress block.transactions header.stateHash] := by
  unfold prepareBlock at h
  split at h
  swap
  · simp at h
  split at h
  · simp at h
  rename_i uow huow
  split at h
  swap
  · simp at h
  split at h
  · simp at h
  · simp at h
  rename_i stateHash txs uow' hrun
  split at h
  · simp at h
  simp only [Prod.mk.injEq, Call.ok.injEq] at h
  obtain ⟨hblock, hm'⟩ := h
  subst hblock
  refine ⟨uow, _, _, huow, rfl, hm'.symm, ?_⟩
  unfold UnitOfWork.createProposalBlock at hrun
  split at hrun
  · simp at hrun
  · simp at hrun
  · simp only [Prod.mk.injEq, Call.ok.injEq] at hrun
    obtain ⟨⟨hhash, htxs⟩, huow'⟩ := hrun
    subst huow' hhash htxs
    exact ⟨rfl, rfl⟩

theorem commitBlock_ok {out : List Output} (h : commitBlock env block m = (.ok (), m', out)) :
    ∃ uow, m.utilityUnitOfWork = some uow ∧ env.commit uow = true
      ∧ m' = { m with utilityUnitOfWork := none } ∧ out = [.committed m.height block uow] := by
  unfold commitBlock at h
  split at h
  · simp at h
  rename_i uow huow
  split at h
  · rename_i hcommit
    simp only [Prod.mk.injEq] at h
    exact ⟨uow, huow, hcommit, h.2.1.symm, h.2.2.symm⟩
  · simp at h

theorem commitBlock_not_ok {out : List Output} (h : commitBlock env block m = (c, m', out))
    (hc : c ≠ .ok ()) : c = .err ∧ m' = m ∧ out = [] := by
  unfold commitBlock at h
  split at h
  · simp only [Prod.mk.injEq] at h
    exact ⟨h.1.symm, h.2.1.symm, h.2.2.symm⟩
  split at h
  · exact absurd (Prod.mk.inj h).1.symm hc
  · simp only [Prod.mk.injEq] at h
    exact ⟨h.1.symm, h.2.1.symm, h.2.2.symm⟩

/-- The ways `commitAndAdvance` can end: with a nil dereference, with a round change because
the commit failed (the certificate is then already in the block), or at the next height. -/
inductive CommitOutcome (qc : QuorumCertificate) (m : NodeState) : Result → Prop
  | crashed : CommitOutcome qc m ⟨none, []⟩
  | failed (m₁ : NodeState) (hm₁ : m.setBlockCertificate (P.marshalQC (some qc)) = some m₁) :
      CommitOutcome qc m (interruptRound cfg m₁)
  | committed (m₁ : NodeState) (block : Block) (uow : UnitOfWork)
      (hm₁ : m.setBlockCertificate (P.marshalQC (some qc)) = some m₁)
      (hblock : m₁.block = some block) (huow : m₁.utilityUnitOfWork = some uow)
      (hcommit : env.commit uow = true) :
      CommitOutcome qc m
        ⟨some m₁.atNewHeight,
          .committed m₁.height block uow :: viewMessages cfg m₁.atNewHeight none⟩

theorem commitAndAdvance_outcome (qc : QuorumCertificate) (m : NodeState) :
    CommitOutcome P cfg env qc m (commitAndAdvance P cfg env qc m) := by
  unfold commitAndAdvance
  split
  · exact .crashed
  rename_i m₁ hm₁
  split
  · exact .crashed
  rename_i block hblock
  split
  · rename_i m₂ out hrun
    obtain ⟨uow, huow, hcommit, rfl, rfl⟩ := commitBlock_ok env hrun
    rw [newHeight_eq]
    exact .committed m₁ block uow hm₁ hblock huow hcommit
  · rename_i c m₂ out hne hrun
    obtain ⟨_, rfl, _⟩ := commitBlock_not_ok env hrun fun hok => hne hok
    exact .failed _ hm₁

end Pocket.Model
