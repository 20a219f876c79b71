import Pocket.Model.Blocks

/-!
# The replica's message handlers

One definition for each handler of `HotstuffReplicaMessageHandler`, and `ReplicaStep`,
which lists everything these handlers can do.  `replicaHandlers_step` is the one place
where the handlers are unfolded.
-/

set_option autoImplicit false

namespace Pocket.Model

variable (P : Platform) (cfg : NodeConfig) (env : Env)

/-- The bytes `protoHash` encodes.  A nil block encodes like a block without any field.
SOURCE: consensus/helpers.go:136-142 -/
def protoHash (block : Option Block) : Block :=
  block.getD { blockHeader := none, transactions := [] }

/-- Whether a proposal is acceptable.  A locked replica compares its lock with the block of
the justification, and dereferences the justification to do so.
SOURCE: consensus/hotstuff_replica.go:196-234, 313-328 -/
def validateProposal (m : NodeState) (msg : HotstuffMessage) : Call Unit :=
  if msg.type = Propose ∧ msg.step = Prepare then
    if msg.getQuorumCertificate.isSome
        ∧ validateQuorumCertificate P env m msg.getQuorumCertificate = false then .err
    else
      match m.lockedQC with
      | none => .ok ()
      | some lockedQC =>
        match msg.getQuorumCertificate with
        | none => .halt
        | some justifyQC =>
          if protoHash lockedQC.block = protoHash justifyQC.block then .ok ()
          -- a lock on a past height or round, and every other case, is an error
          else .err
  else .err

/-- The state once a proposal was applied.  SOURCE: consensus/hotstuff_replica.go:68-69 -/
def NodeState.accepting (m : NodeState) (block : Block) : NodeState :=
  { m with block := some block, prepareQCSharesBlock := false, lockedQCSharesBlock := false,
           step := PreCommit }

namespace HotstuffReplicaMessageHandler

/-- The ante handler in front of a handler's body.
SOURCE: consensus/hotstuff_replica.go:172-179 -/
def anteHandle (m : NodeState) (msg : HotstuffMessage) (body : Result) : Result :=
  match isValidMessageBlock P cfg m msg with
  | none => ⟨none, []⟩
  | some false => ⟨some m, []⟩
  | some true => body

/-- SOURCE: consensus/hotstuff_replica.go:27-43 -/
def handleNewRoundMessage (m : NodeState) (msg : HotstuffMessage) : Result :=
  anteHandle P cfg m msg <|
    match refreshUtilityUnitOfWork cfg env m with
    | (.ok (), m) => ⟨some { m with step := Prepare }, []⟩
    | (_, m) => ⟨some m, []⟩

/-- SOURCE: consensus/hotstuff_replica.go:47-77 -/
def handlePrepareMessage (m : NodeState) (msg : HotstuffMessage) : Result :=
  anteHandle P cfg m msg <|
    match validateProposal P env m msg, msg.block with
    | .halt, _ => ⟨none, []⟩
    | .err, _ => interruptRound cfg m
    | .ok (), none => ⟨none, []⟩
    | .ok (), some block =>
      match applyBlock env block m with
      | (.halt, _) => ⟨none, []⟩
      | (.err, m) => interruptRound cfg m
      | (.ok (), m) =>
        ⟨some (m.accepting block), sendVote P cfg (m.accepting block) Prepare⟩

/-- The common part of the handlers that act on a certificate.
SOURCE: consensus/hotstuff_replica.go:85-95, 114-124, 143-153 -/
def withQuorumCertificate (m : NodeState) (msg : HotstuffMessage)
    (body : QuorumCertificate → Result) : Result :=
  anteHandle P cfg m msg <|
    match msg.getQuorumCertificate with
    | none => interruptRound cfg m
    | some qc =>
      if validateQuorumCertificate P env m (some qc) then body qc else interruptRound cfg m

/-- SOURCE: consensus/hotstuff_replica.go:81-106 -/
def handlePrecommitMessage (m : NodeState) (msg : HotstuffMessage) : Result :=
  withQuorumCertificate P cfg env m msg fun qc =>
    let m := { m with step := Commit, prepareQC := some qc, prepareQCSharesBlock := false }
    ⟨some m, sendVote P cfg m PreCommit⟩

/-- SOURCE: consensus/hotstuff_replica.go:110-135 -/
def handleCommitMessage (m : NodeState) (msg : HotstuffMessage) : Result :=
  withQuorumCertificate P cfg env m msg fun qc =>
    let m := { m with step := Decide, lockedQC := some qc, lockedQCSharesBlock := false }
    ⟨some m, sendVote P cfg m Commit⟩

/-- SOURCE: consensus/hotstuff_replica.go:139-169 -/
def handleDecideMessage (m : NodeState) (msg : HotstuffMessage) : Result :=
  withQuorumCertificate P cfg env m msg fun qc => commitAndAdvance P cfg env qc m

end HotstuffReplicaMessageHandler

open HotstuffReplicaMessageHandler in
/-- The map of handlers; a step without an entry is the call of a nil function.
SOURCE: consensus/hotstuff_replica.go:15-22 -/
def replicaHandlers (step : ℤ) (m : NodeState) (msg : HotstuffMessage) : Result :=
  if step = NewRound then handleNewRoundMessage P cfg env m msg
  else if step = Prepare then handlePrepareMessage P cfg env m msg
  else if step = PreCommit then handlePrecommitMessage P cfg env m msg
  else if step = Commit then handleCommitMessage P cfg env m msg
  else if step = Decide then handleDecideMessage P cfg env m msg
  else ⟨none, []⟩

/-! ## Everything a replica can do -/

/-- The results of a replica's handlers.  `interrupted` is a round change before a vote or a
commit; where a block could not be applied the unit of work has changed. -/
inductive ReplicaStep (m : NodeState) (msg : HotstuffMessage) : Result → Prop
  | crashed : ReplicaStep m msg ⟨none, []⟩
  | rejected : ReplicaStep m msg ⟨some m, []⟩
  | refreshFailed (hstep : msg.step = NewRound) :
      ReplicaStep m msg ⟨some { m with utilityUnitOfWork := none }, []⟩
  | refreshed (hstep : msg.step = NewRound) :
      ReplicaStep m msg
        ⟨some { m with utilityUnitOfWork := some (newUnitOfWork cfg m), step := Prepare }, []⟩
  | interrupted (uow : Option UnitOfWork) :
      ReplicaStep m msg (interruptRound cfg { m with utilityUnitOfWork := uow })
  | votedPrepare (block : Block) (m₁ : NodeState) (hstep : msg.step = Prepare)
      (hblock : msg.block = some block) (hvalid : isValidMessageBlock P cfg m msg = some true)
      (hproposal : validateProposal P env m msg = .ok ())
      (happly : applyBlock env block m = (.ok (), m₁)) :
      ReplicaStep m msg
        ⟨some (m₁.accepting block), sendVote P cfg (m₁.accepting block) Prepare⟩
  | votedPreCommit (qc : QuorumCertificate) (hstep : msg.step = PreCommit)
      (hante : isValidMessageBlock P cfg m msg = some true)
      (hqc : msg.getQuorumCertificate = some qc)
      (hvalid : validateQuorumCertificate P env m (some qc) = true) :
      ReplicaStep m msg
        ⟨some { m with step := Commit, prepareQC := some qc, prepareQCSharesBlock := false },
          sendVote P cfg m PreCommit⟩
  | votedCommit (qc : QuorumCertificate) (hstep : msg.step = Commit)
      (hante : isValidMessageBlock P cfg m msg = some true)
      (hqc : msg.getQuorumCertificate = some qc)
      (hvalid : validateQuorumCertificate P env m (some qc) = true) :
      ReplicaStep m msg
        ⟨some { m with step := Decide, lockedQC := some qc, lockedQCSharesBlock := false },
          sendVote P cfg m Commit⟩
  | decided (qc : QuorumCertificate) (r : Result) (hstep : msg.step = Decide)
      (hante : isValidMessageBlock P cfg m msg = some true)
      (hqc : msg.getQuorumCertificate = some qc)
      (hvalid : validateQuorumCertificate P env m (some qc) = true)
      (hr : CommitOutcome P cfg env qc m r) :
      ReplicaStep m msg r

namespace HotstuffReplicaMessageHandler

variable {P cfg env} {m : NodeState} {msg : HotstuffMessage}

theorem interruptRound_step : ReplicaStep P cfg env m msg (interruptRound cfg m) :=
  .interrupted m.utilityUnitOfWork

theorem anteHandle_step {body : Result}
    (h : isValidMessageBlock P cfg m msg = some true → ReplicaStep P cfg env m msg body) :
    ReplicaStep P cfg env m msg (anteHandle P cfg m msg body) := by
  unfold anteHandle
  split
  · exact .crashed
  · exact .rejected
  · exact h ‹_›

theorem withQuorumCertificate_step {body : QuorumCertificate → Result}
    (h : ∀ qc, isValidMessageBlock P cfg m msg = some true →
      msg.getQuorumCertificate = some qc →
      validateQuorumCertificate P env m (some qc) = true → ReplicaStep P cfg env m msg (body qc)) :
    ReplicaStep P cfg env m msg (withQuorumCertificate P cfg env m msg body) := by
  refine anteHandle_step fun hante => ?_
  split
  · exact interruptRound_step
  · rename_i qc hqc
    split
    · exact h qc hante hqc ‹_›
    · exact interruptRound_step

theorem handleNewRoundMessage_step (hstep : msg.step = NewRound) :
    ReplicaStep P cfg env m msg (handleNewRoundMessage P cfg env m msg) := by
  refine anteHandle_step fun _ => ?_
  split
  · rename_i m₁ hrefresh
    rw [refreshUtilityUnitOfWork_ok cfg env hrefresh]
    exact .refreshed hstep
  · rename_i c m₁ hne hrefresh
    rw [refreshUtilityUnitOfWork_not_ok cfg env hrefresh fun hok => hne hok]
    exact .refreshFailed hstep

theorem handlePrepareMessage_step (hstep : msg.step = Prepare) :
    ReplicaStep P cfg env m msg (handlePrepareMessage P cfg env m msg) := by
  refine anteHandle_step fun hvalid => ?_
  split
  · exact .crashed
  · exact interruptRound_step
  · exact .crashed
  · rename_i block hproposal hblock
    split
    · exact .crashed
    · rename_i m₁ happly
      obtain ⟨uow, rfl⟩ := snd_eq_of_eq happly (applyBlock_snd env block m)
      exact .interrupted uow
    · rename_i m₁ happly
      exact .votedPrepare block m₁ hstep hblock hvalid hproposal happly

end HotstuffReplicaMessageHandler

open HotstuffReplicaMessageHandler in
theorem replicaHandlers_step (m : NodeState) (msg : HotstuffMessage) :
    ReplicaStep P cfg env m msg (replicaHandlers P cfg env msg.step m msg) := by
  unfold replicaHandlers
  split
  · exact handleNewRoundMessage_step ‹_›
  split
  · exact handlePrepareMessage_step ‹_›
  split
  · exact withQuorumCertificate_step fun qc hante hqc hvalid =>
      .votedPreCommit qc ‹_› hante hqc hvalid
  split
  · exact withQuorumCertificate_step fun qc hante hqc hvalid =>
      .votedCommit qc ‹_› hante hqc hvalid
  split
  · exact withQuorumCertificate_step fun qc hante hqc hvalid =>
      .decided qc _ ‹_› hante hqc hvalid (commitAndAdvance_outcome P cfg env qc m)
  · exact .crashed

end Pocket.Model
