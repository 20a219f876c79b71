import Pocket.Model.Replica

/-!
# The leader's message handlers

One definition for each handler of `HotstuffLeaderMessageHandler`, and `LeaderStep`, which
lists everything these handlers can do.  The leader casts its own vote for a step while it
handles the messages of the step before.
-/

set_option autoImplicit false

namespace Pocket.Model

variable (P : Platform) (cfg : NodeConfig) (env : Env)

/-- Whether `validateMessageSignature` returns nil: only votes are checked, each over its
own content.  SOURCE: consensus/hotstuff_leader.go:318-365 -/
def validateMessageSignature (m : NodeState) (msg : HotstuffMessage) : Bool :=
  if msg.step = NewRound then true
  else if msg.type = Propose then true
  else
    match msg.getPartialSignature with
    | none => false
    | some ps =>
      if ps.signature = [] ∨ ps.address = "" then false
      else
        match env.getValidatorsAtHeight m.height with
        | none => false
        | some validators =>
          match (newActorMapper validators).validatorMap ps.address with
          | none => false
          | some validator => isSignatureValid P msg validator.publicKey ps.signature

/-- Indexing a message; `none` is the panic on a missing pool.  The capacity check looks at
the pool whose number is the message's *type*.  SOURCE: consensus/hotstuff_leader.go:367-380 -/
def indexHotstuffMessage (m : NodeState) (msg : HotstuffMessage) : Option (Bool × NodeState) :=
  match m.hotstuffMempool msg.type with
  | none => none
  | some typePool =>
    if cfg.maxMempoolBytes < typePool.totalMsgBytes then some (false, m)
    else
      match m.hotstuffMempool msg.step with
      | none => none
      | some pool =>
        let pushed := some (pool.push P cfg.maxMempoolBytes msg)
        some (true,
          { m with hotstuffMempool := Function.update m.hotstuffMempool msg.step pushed })

/-! ## The states in which the leader proposes -/

/-- With the block to propose set.  SOURCE: consensus/hotstuff_leader.go:73, 82, 85-86 -/
def NodeState.proposing (m : NodeState) (block : Block) : NodeState :=
  ({ m with block := some block, prepareQCSharesBlock := false, lockedQCSharesBlock := false,
            step := Prepare }).clearPool NewRound

/-- With the `Prepare` votes certified.  SOURCE: consensus/hotstuff_leader.go:135-137 -/
def NodeState.certifiedPrepare (m : NodeState) (qc : QuorumCertificate) : NodeState :=
  ({ m with step := PreCommit, prepareQC := some qc, prepareQCSharesBlock := true }).clearPool
    Prepare

/-- With the `PreCommit` votes certified: the leader is locked.
SOURCE: consensus/hotstuff_leader.go:186-188 -/
def NodeState.certifiedPreCommit (m : NodeState) (qc : QuorumCertificate) : NodeState :=
  ({ m with step := Commit, lockedQC := some qc, lockedQCSharesBlock := true }).clearPool
    PreCommit

/-- With the `Commit` votes certified.  SOURCE: consensus/hotstuff_leader.go:237-238 -/
def NodeState.certifiedCommit (m : NodeState) : NodeState :=
  ({ m with step := Decide }).clearPool Commit

namespace HotstuffLeaderMessageHandler

/-- SOURCE: consensus/hotstuff_leader.go:283-301 -/
def anteHandle (m : NodeState) (msg : HotstuffMessage) (body : NodeState → Result) : Result :=
  match isValidMessageBlock P cfg m msg with
  | none => ⟨none, []⟩
  | some false => ⟨some m, []⟩
  | some true =>
    if validateMessageSignature P env m msg then
      match indexHotstuffMessage P cfg m msg with
      | none => ⟨none, []⟩
      | some (false, m) => ⟨some m, []⟩
      | some (true, m) => body m
    else ⟨some m, []⟩

/-- The ante handler followed by the wait for enough messages of the step. -/
def whenEnough (step : ℤ) (m : NodeState) (msg : HotstuffMessage) (body : NodeState → Result) :
    Result :=
  anteHandle P cfg env m msg fun m =>
    if didReceiveEnoughMessageForStep env m step then body m else ⟨some m, []⟩

/-- Broadcasting the proposal for a step, and what follows it.
SOURCE: consensus/hotstuff_leader.go:88-94, 139-145, 190-196, 240-246 -/
def propose (step : ℤ) (qc : Option QuorumCertificate) (m : NodeState)
    (body : Result) : Result :=
  match createProposeMessage m.height m.round step m.block qc with
  | none => interruptRound cfg m
  | some msg => ⟨body.state, .broadcast msg :: body.out⟩

/-- The end of `HandleNewRoundMessage`, once the block to propose is set.
SOURCE: consensus/hotstuff_leader.go:85-102 -/
def proposePrepare (qc : Option QuorumCertificate) (block : Block) (m : NodeState) : Result :=
  propose cfg Prepare qc (m.proposing block)
    ⟨some (m.proposing block), sendVote P cfg (m.proposing block) Prepare⟩

/-- What follows enough `NewRound` messages.  SOURCE: consensus/hotstuff_leader.go:53-102 -/
def newRoundBody (m : NodeState) : Result :=
  match refreshUtilityUnitOfWork cfg env m with
  | (.ok (), m) =>
    let highPrepareQC := findHighQC ((m.hotstuffMempool NewRound).elim [] (·.messages))
    match highPrepareQC.bind (·.block), shouldPrepareNewBlock m highPrepareQC with
    | some block, false =>
      match applyBlock env block m with
      | (.halt, _) => ⟨none, []⟩
      | (.err, m) => interruptRound cfg m
      | (.ok (), m) => proposePrepare P cfg highPrepareQC block m
    | _, _ =>
      match prepareBlock P cfg env highPrepareQC m with
      | (.halt, _) => ⟨none, []⟩
      | (.err, m) => interruptRound cfg m
      | (.ok block, m) => proposePrepare P cfg highPrepareQC block m
  | (_, m) => ⟨some m, []⟩

/-- SOURCE: consensus/hotstuff_leader.go:29-103 -/
def handleNewRoundMessage (m : NodeState) (msg : HotstuffMessage) : Result :=
  whenEnough P cfg env NewRound m msg (newRoundBody P cfg env)

/-- What follows enough votes for a step: the leader makes their certificate and goes on with it.
SOURCE: consensus/hotstuff_leader.go:129-133, 180-184, 231-235 -/
def assembled (step : ℤ) (next : QuorumCertificate → NodeState → Result) (m : NodeState) : Result :=
  match getQuorumCertificate P env step m with
  | (.halt, _) => ⟨none, []⟩
  | (.err, m) => ⟨some m, []⟩
  | (.ok qc, m) => next qc m

/-- The end of `HandlePrepareMessage`.  SOURCE: consensus/hotstuff_leader.go:135-153 -/
def proposePreCommit (qc : QuorumCertificate) (m : NodeState) : Result :=
  propose cfg PreCommit (some qc) (m.certifiedPrepare qc)
    ⟨some (m.certifiedPrepare qc), sendVote P cfg (m.certifiedPrepare qc) PreCommit⟩

/-- SOURCE: consensus/hotstuff_leader.go:107-154 -/
def handlePrepareMessage (m : NodeState) (msg : HotstuffMessage) : Result :=
  whenEnough P cfg env Prepare m msg (assembled P env Prepare (proposePreCommit P cfg))

/-- The end of `HandlePrecommitMessage`.  SOURCE: consensus/hotstuff_leader.go:186-204 -/
def proposeCommit (qc : QuorumCertificate) (m : NodeState) : Result :=
  propose cfg Commit (some qc) (m.certifiedPreCommit qc)
    ⟨some (m.certifiedPreCommit qc), sendVote P cfg (m.certifiedPreCommit qc) Commit⟩

/-- SOURCE: consensus/hotstuff_leader.go:158-205 -/
def handlePrecommitMessage (m : NodeState) (msg : HotstuffMessage) : Result :=
  whenEnough P cfg env PreCommit m msg (assembled P env PreCommit (proposeCommit P cfg))

/-- The end of `HandleCommitMessage`.  SOURCE: consensus/hotstuff_leader.go:237-263 -/
def proposeDecide (qc : QuorumCertificate) (m : NodeState) : Result :=
  propose cfg Decide (some qc) m.certifiedCommit
    (commitAndAdvance P cfg env qc m.certifiedCommit)

/-- SOURCE: consensus/hotstuff_leader.go:209-270 -/
def handleCommitMessage (m : NodeState) (msg : HotstuffMessage) : Result :=
  whenEnough P cfg env Commit m msg (assembled P env Commit (proposeDecide P cfg env))

/-- SOURCE: consensus/hotstuff_leader.go:272-280 -/
def handleDecideMessage (m : NodeState) (msg : HotstuffMessage) : Result :=
  anteHandle P cfg env m msg fun m => ⟨some m, []⟩

end HotstuffLeaderMessageHandler

open HotstuffLeaderMessageHandler in
/-- SOURCE: consensus/hotstuff_leader.go:15-25 -/
def leaderHandlers (step : ℤ) (m : NodeState) (msg : HotstuffMessage) : Result :=
  if step = NewRound then handleNewRoundMessage P cfg env m msg
  else if step = Prepare then handlePrepareMessage P cfg env m msg
  else if step = PreCommit then handlePrecommitMessage P cfg env m msg
  else if step = Commit then handleCommitMessage P cfg env m msg
  else if step = Decide then handleDecideMessage P cfg env m msg
  else ⟨none, []⟩


/-! ## Proposals -/

namespace HotstuffLeaderMessageHandler

variable {P cfg env}

/-- INTERNAL: without a block there is nothing to propose, and the round is interrupted;
otherwise the proposal is broadcast. -/
theorem propose_cases (step : ℤ) (qc : QuorumCertificate) (m : NodeState) (body : Result) :
    (m.block = none ∧ propose cfg step (some qc) m body = interruptRound cfg m)
      ∨ ∃ msg, propose cfg step (some qc) m body = ⟨body.state, .broadcast msg :: body.out⟩ := by
  cases h : m.block with
  | none => exact .inl ⟨rfl, by simp [propose, createProposeMessage, h]⟩
  | some b => exact .inr ⟨_, by simp [propose, createProposeMessage, h]; rfl⟩

/-- The first proposal is always made, with or without a certificate. -/
theorem proposePrepare_eq (qc : Option QuorumCertificate) (block : Block) (m : NodeState) :
    ∃ msg, proposePrepare P cfg qc block m =
      ⟨some (m.proposing block),
        .broadcast msg :: sendVote P cfg (m.proposing block) Prepare⟩ := by
  cases qc <;> exact ⟨_, rfl⟩

section

variable (qc : QuorumCertificate) (m : NodeState)
include qc m

/-- The last proposal comes with the commit. -/
theorem proposeDecide_cases :
    (m.block = none ∧ proposeDecide P cfg env qc m = interruptRound cfg m.certifiedCommit)
      ∨ ∃ proposal r₁, CommitOutcome P cfg env qc m.certifiedCommit r₁
          ∧ proposeDecide P cfg env qc m = ⟨r₁.state, .broadcast proposal :: r₁.out⟩ := by
  rcases propose_cases Decide qc m.certifiedCommit
    (commitAndAdvance P cfg env qc m.certifiedCommit) with h | ⟨proposal, h⟩
  · exact .inl h
  · exact .inr ⟨proposal, _, commitAndAdvance_outcome P cfg env qc _, h⟩

end

end HotstuffLeaderMessageHandler

/-! ## Everything a leader can do -/

/-- The results of a leader's handlers.  `m₀` is the state once the message is indexed; the
pools are the only part of it that differs from `m`. -/
inductive LeaderStep (m : NodeState) (msg : HotstuffMessage) : Result → Prop
  | crashed : LeaderStep m msg ⟨none, []⟩
  | waiting (pools : ℤ → Option HotstuffFIFOMempool)
      (hpools : PoolsFrom msg m.hotstuffMempool pools) :
      LeaderStep m msg ⟨some { m with hotstuffMempool := pools }, []⟩
  | refreshFailed (pools : ℤ → Option HotstuffFIFOMempool)
      (hpools : PoolsFrom msg m.hotstuffMempool pools) (hstep : msg.step = NewRound) :
      LeaderStep m msg ⟨some { m with hotstuffMempool := pools, utilityUnitOfWork := none }, []⟩
  | abandoned (pools : ℤ → Option HotstuffFIFOMempool) (uow : Option UnitOfWork)
      (hpools : PoolsFrom msg m.hotstuffMempool pools) (hstep : msg.step = NewRound) :
      LeaderStep m msg
        (interruptRound cfg { m with hotstuffMempool := pools, utilityUnitOfWork := uow })
  | proposed (m₀ m₁ : NodeState) (block : Block) (qc : Option QuorumCertificate)
      (proposal : HotstuffMessage) (hstep : msg.step = NewRound)
      (hindex : indexHotstuffMessage P cfg m msg = some (true, m₀))
      (hqc : qc = findHighQC ((m₀.hotstuffMempool NewRound).elim [] (·.messages)))
      (hrun : (shouldPrepareNewBlock m₀ qc = true
          ∧ prepareBlock P cfg env qc
              { m₀ with utilityUnitOfWork := some (newUnitOfWork cfg m) } = (.ok block, m₁))
        ∨ (shouldPrepareNewBlock m₀ qc = false ∧ qc.bind (·.block) = some block
          ∧ applyBlock env block
              { m₀ with utilityUnitOfWork := some (newUnitOfWork cfg m) } = (.ok (), m₁))) :
      LeaderStep m msg ⟨some (m₁.proposing block),
        .broadcast proposal :: sendVote P cfg (m₁.proposing block) Prepare⟩
  | certifiedPrepare (m₀ m₁ : NodeState) (qc : QuorumCertificate) (r : Result)
      (hstep : msg.step = Prepare) (hindex : indexHotstuffMessage P cfg m msg = some (true, m₀))
      (hqc : getQuorumCertificate P env Prepare m₀ = (.ok qc, m₁))
      (hr : (m.block = none ∧ r = interruptRound cfg (m₁.certifiedPrepare qc))
        ∨ ∃ proposal, r = ⟨some (m₁.certifiedPrepare qc),
            .broadcast proposal :: sendVote P cfg (m₁.certifiedPrepare qc) PreCommit⟩) :
      LeaderStep m msg r
  | certifiedPreCommit (m₀ m₁ : NodeState) (qc : QuorumCertificate) (r : Result)
      (hstep : msg.step = PreCommit)
      (hindex : indexHotstuffMessage P cfg m msg = some (true, m₀))
      (hqc : getQuorumCertificate P env PreCommit m₀ = (.ok qc, m₁))
      (hr : (m.block = none ∧ r = interruptRound cfg (m₁.certifiedPreCommit qc))
        ∨ ∃ proposal, r = ⟨some (m₁.certifiedPreCommit qc),
            .broadcast proposal :: sendVote P cfg (m₁.certifiedPreCommit qc) Commit⟩) :
      LeaderStep m msg r
  | certifiedCommit (m₀ m₁ : NodeState) (qc : QuorumCertificate) (r : Result)
      (hstep : msg.step = Commit) (hindex : indexHotstuffMessage P cfg m msg = some (true, m₀))
      (hqc : getQuorumCertificate P env Commit m₀ = (.ok qc, m₁))
      (hr : (m.block = none ∧ r = interruptRound cfg m₁.certifiedCommit)
        ∨ ∃ proposal r₁, CommitOutcome P cfg env qc m₁.certifiedCommit r₁
            ∧ r = ⟨r₁.state, .broadcast proposal :: r₁.out⟩) :
      LeaderStep m msg r

namespace HotstuffLeaderMessageHandler

variable {P cfg env} {m : NodeState} {msg : HotstuffMessage}

variable {m₀ m₁ : NodeState} {step : ℤ} {c : Call QuorumCertificate} {qc : Option QuorumCertificate}
  {body : NodeState → Result} {ok : Bool}

/-- Indexing a message changes the pools only, and adds at most the message to them. -/
theorem indexHotstuffMessage_snd (h : indexHotstuffMessage P cfg m msg = some (ok, m₀)) :
    ∃ pools, m₀ = { m with hotstuffMempool := pools } ∧ PoolsFrom msg m.hotstuffMempool pools := by
  unfold indexHotstuffMessage at h
  split at h
  · simp at h
  split at h
  · simp only [Option.some.injEq, Prod.mk.injEq] at h
    exact ⟨m.hotstuffMempool, h.2.symm, .refl⟩
  split at h
  · simp at h
  · rename_i pool hpool
    simp only [Option.some.injEq, Prod.mk.injEq] at h
    refine ⟨_, h.2.symm, PoolsFrom.refl.update fun p hp x hx => ?_⟩
    obtain rfl := Option.some.inj hp
    rcases HotstuffFIFOMempool.mem_push hx with rfl | hx
    · exact .inl rfl
    · exact .inr ⟨pool, hpool, hx⟩

section

variable (hindex : indexHotstuffMessage P cfg m msg = some (true, m₀))
  (hqc : getQuorumCertificate P env step m₀ = (c, m₁))
include hindex hqc

/-- INTERNAL: assembling a certificate after indexing a message adds at most the message to
the pools. -/
theorem assembled_pools : PoolsFrom msg m.hotstuffMempool m₁.hotstuffMempool := by
  obtain ⟨pools, rfl, hpools⟩ := indexHotstuffMessage_snd hindex
  have h := @getQuorumCertificate_pools P env step msg _ { m with hotstuffMempool := pools } hpools
  rwa [hqc] at h

/-- Only the pools have changed by then. -/
theorem assembled_state : ∃ pools, m₁ = { m with hotstuffMempool := pools } := by
  obtain ⟨pools, rfl, -⟩ := indexHotstuffMessage_snd hindex
  obtain ⟨pools', h⟩ := getQuorumCertificate_snd P env step { m with hotstuffMempool := pools }
  rw [hqc] at h
  exact ⟨pools', h⟩

/-- The block is the same. -/
theorem assembled_block : m₁.block = m.block := by
  obtain ⟨pools, rfl⟩ := assembled_state hindex hqc
  rfl

end

/-- INTERNAL: running a block after indexing a message changes the pools, by at most the
message, and the unit of work. -/
theorem proposed_state {block : Block} {uow₀ : UnitOfWork} {new old found : Prop}
    (hindex : indexHotstuffMessage P cfg m msg = some (true, m₀))
    (hrun : (new ∧ prepareBlock P cfg env qc { m₀ with utilityUnitOfWork := some uow₀ }
        = (.ok block, m₁))
      ∨ (old ∧ found ∧ applyBlock env block { m₀ with utilityUnitOfWork := some uow₀ }
        = (.ok (), m₁))) :
    ∃ pools uow, m₁ = { m with hotstuffMempool := pools, utilityUnitOfWork := uow }
      ∧ PoolsFrom msg m.hotstuffMempool pools := by
  obtain ⟨pools, rfl, hpools⟩ := indexHotstuffMessage_snd hindex
  rcases hrun with ⟨-, h⟩ | ⟨-, -, h⟩
  · obtain ⟨uow, rfl⟩ := snd_eq_of_eq h (prepareBlock_snd P cfg env qc _)
    exact ⟨pools, uow, rfl, hpools⟩
  · obtain ⟨uow, rfl⟩ := snd_eq_of_eq h (applyBlock_snd env block _)
    exact ⟨pools, uow, rfl, hpools⟩

section

variable
  (h : ∀ m₀, indexHotstuffMessage P cfg m msg = some (true, m₀) → LeaderStep P cfg env m msg (body m₀))
include h

/-- A message that the ante handler does not pass on changes the pools at most. -/
theorem anteHandle_step : LeaderStep P cfg env m msg (anteHandle P cfg env m msg body) := by
  unfold anteHandle
  split
  · exact .crashed
  · exact .waiting m.hotstuffMempool .refl
  split
  · split
    · exact .crashed
    · rename_i m₀ hm₀
      obtain ⟨pools, rfl, hpools⟩ := indexHotstuffMessage_snd hm₀
      exact .waiting pools hpools
    · exact h _ ‹_›
  · exact .waiting m.hotstuffMempool .refl

/-- The same while there are too few messages. -/
theorem whenEnough_step : LeaderStep P cfg env m msg (whenEnough P cfg env step m msg body) := by
  refine anteHandle_step fun m₀ hm₀ => ?_
  split
  · exact h m₀ hm₀
  · obtain ⟨pools, rfl, hpools⟩ := indexHotstuffMessage_snd hm₀
    exact .waiting pools hpools

end

/-- The same where no certificate can be made. -/
theorem assembled_step {next : QuorumCertificate → NodeState → Result}
    (hindex : indexHotstuffMessage P cfg m msg = some (true, m₀))
    (h : ∀ qc m₁, getQuorumCertificate P env step m₀ = (.ok qc, m₁) →
      LeaderStep P cfg env m msg (next qc m₁)) :
    LeaderStep P cfg env m msg (assembled P env step next m₀) := by
  unfold assembled
  split
  · exact .crashed
  · rename_i m₁ hm₁
    obtain ⟨pools, rfl⟩ := assembled_state hindex hm₁
    exact .waiting pools (assembled_pools hindex hm₁)
  · exact h _ _ ‹_›

/-- A certificate without a block does not bring one to reuse. -/
theorem shouldPrepareNewBlock_of_not
    (h : ∀ block, qc.bind (·.block) = some block → shouldPrepareNewBlock m qc = false → False) :
    shouldPrepareNewBlock m qc = true := by
  cases qc with
  | none => rfl
  | some qc =>
    cases hb : qc.block with
    | none => simp [shouldPrepareNewBlock, hb]
    | some b => simpa using h b hb

/-- The handler of `NewRound` messages is one of these steps. -/
theorem handleNewRoundMessage_step (hstep : msg.step = NewRound) :
    LeaderStep P cfg env m msg (handleNewRoundMessage P cfg env m msg) := by
  refine whenEnough_step fun m₀ hindex => ?_
  obtain ⟨pools, rfl, hpools⟩ := indexHotstuffMessage_snd hindex
  unfold newRoundBody
  split
  · rename_i m₁ hrefresh
    obtain rfl := refreshUtilityUnitOfWork_ok cfg env hrefresh
    simp only
    split
    · rename_i block hblock hshould
      split
      · exact .crashed
      · rename_i m₂ happly
        obtain ⟨uow, rfl⟩ := snd_eq_of_eq happly (applyBlock_snd env block _)
        exact .abandoned pools uow hpools hstep
      · rename_i m₂ happly
        obtain ⟨proposal, hprop⟩ := @proposePrepare_eq P cfg _ block m₂
        rw [hprop]
        exact .proposed _ m₂ block _ proposal hstep hindex rfl
          (.inr ⟨hshould, hblock, happly⟩)
    · rename_i hnot
      split
      · exact .crashed
      · rename_i m₂ hprepare
        obtain ⟨uow, rfl⟩ := snd_eq_of_eq hprepare (prepareBlock_snd P cfg env _ _)
        exact .abandoned pools uow hpools hstep
      · rename_i block m₂ hprepare
        obtain ⟨proposal, hprop⟩ := @proposePrepare_eq P cfg _ block m₂
        rw [hprop]
        exact .proposed _ m₂ block _ proposal hstep hindex rfl
          (.inl ⟨shouldPrepareNewBlock_of_not hnot, hprepare⟩)
  · rename_i c m₁ hne hrefresh
    rw [refreshUtilityUnitOfWork_not_ok cfg env hrefresh fun hok => hne hok]
    exact .refreshFailed pools hpools hstep

end HotstuffLeaderMessageHandler

open HotstuffLeaderMessageHandler in
/-- **Every handler of a leader is one of these steps.** -/
theorem leaderHandlers_step (m : NodeState) (msg : HotstuffMessage) :
    LeaderStep P cfg env m msg (leaderHandlers P cfg env msg.step m msg) := by
  unfold leaderHandlers
  split
  · exact handleNewRoundMessage_step ‹_›
  split
  · refine whenEnough_step fun m₀ hindex => assembled_step hindex fun qc m₁ hqc => ?_
    have hblock := assembled_block hindex hqc
    exact .certifiedPrepare m₀ m₁ qc _ ‹_› hindex hqc
      (hblock ▸ propose_cases PreCommit qc (m₁.certifiedPrepare qc) _)
  split
  · refine whenEnough_step fun m₀ hindex => assembled_step hindex fun qc m₁ hqc => ?_
    have hblock := assembled_block hindex hqc
    exact .certifiedPreCommit m₀ m₁ qc _ ‹_› hindex hqc
      (hblock ▸ propose_cases Commit qc (m₁.certifiedPreCommit qc) _)
  split
  · refine whenEnough_step fun m₀ hindex => assembled_step hindex fun qc m₁ hqc => ?_
    have hblock := assembled_block hindex hqc
    exact .certifiedCommit m₀ m₁ qc _ ‹_› hindex hqc (hblock ▸ proposeDecide_cases qc m₁)
  split
  · refine anteHandle_step fun m₀ hindex => ?_
    obtain ⟨pools, rfl, hpools⟩ := indexHotstuffMessage_snd hindex
    exact .waiting pools hpools
  · exact .crashed

end Pocket.Model
