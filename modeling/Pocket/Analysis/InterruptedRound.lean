import Pocket.Analysis.VoteOnce

/-!
# The round after an interrupted one

`ResetRound(false)` keeps the block of the interrupted round, and a message is only handled if its
block has the state hash of the block that is kept.  So a node that has voted at a height holds on
to the state hash of a block until the height ends, whoever leads the later rounds.

* `KeepsBlock` is what every event keeps: a node that has voted at its height has a block, with a
  header.
* A proposal that could be applied is then voted on exactly when it has the same state hash as the
  kept block, up to what is checked of every proposal.
-/

set_option autoImplicit false

namespace Pocket.Analysis

open Pocket.Model

variable (P : Platform) (cfg : NodeConfig)

/-! ## The block that is kept -/

/-- The block that a node works on has a header. -/
def HeaderKnown (m : NodeState) : Prop := ∀ b, m.block = some b → b.blockHeader ≠ none

/-- What one event does to the current block: it keeps a block with a header, and every vote is
for one, unless the height ends. -/
structure BlockStep (m : NodeState) (r : Result) : Prop where
  header : ∀ m', r.state = some m' → HeaderKnown m → HeaderKnown m'
  kept : ∀ m', r.state = some m' →
    (m.height < m'.height ∧ votesSent r.out = []) ∨
    (m'.height = m.height ∧ (m.block.isSome → m'.block.isSome) ∧
      ∀ w ∈ votesSent r.out, w.height = m.height ∧ m'.block.isSome)

section Step

variable {P cfg} {env : Env} {m m₁ m' : NodeState} {msg : HotstuffMessage} {r : Result}
  {out : List Output}

theorem blockStep_of_same (hout : votesSent out = []) (hheight : m'.height = m.height)
    (hblock : m'.block = m.block) : BlockStep m ⟨some m', out⟩ := by
  refine ⟨?_, ?_⟩
  · rintro _ ⟨rfl⟩ hheader b hb
    exact hheader b (hblock ▸ hb)
  · rintro _ ⟨rfl⟩
    refine .inr ⟨hheight, fun h => by rwa [hblock], fun w hw => ?_⟩
    rw [show votesSent (Result.mk (some m') out).out = [] from hout] at hw
    exact absurd hw List.not_mem_nil

theorem blockStep_of_crash : BlockStep m ⟨none, out⟩ :=
  ⟨fun _ h => (nomatch h), fun _ h => by cases h⟩

theorem blockStep_interruptRound (hheight : m₁.height = m.height) (hblock : m₁.block = m.block) :
    BlockStep m (interruptRound cfg m₁) := by
  rw [interruptRound_eq]
  exact blockStep_of_same (votesSent_viewMessages cfg _ _) hheight hblock

theorem blockStep_of_vote {mv : NodeState} {step : ℤ}
    (hout : votesSent out = votesSent (sendVote P cfg mv step)) (hmv : mv.height = m.height)
    (hblock : mv.block = m'.block) (hheight : m'.height = m.height)
    (hheader : HeaderKnown m → HeaderKnown m') (hkept : m.block.isSome → m'.block.isSome) :
    BlockStep m ⟨some m', out⟩ := by
  refine ⟨?_, ?_⟩
  · rintro _ ⟨rfl⟩
    exact hheader
  · rintro _ ⟨rfl⟩
    refine .inr ⟨hheight, hkept, fun w hw => ?_⟩
    obtain ⟨-, hw, -, -, -, hsome⟩ := mem_votesSent_sendVote P cfg (hout ▸ hw)
    exact ⟨hw.trans hmv, hblock ▸ hsome⟩

theorem blockStep_of_commitOutcome {qc : QuorumCertificate} (h : CommitOutcome P cfg env qc m r) :
    BlockStep m r := by
  cases h with
  | crashed => exact blockStep_of_crash
  | failed m₁ hm₁ =>
    obtain ⟨b, b', hb, hsame, rfl⟩ := NodeState.setBlockCertificate_eq hm₁
    rw [interruptRound_eq]
    refine ⟨?_, ?_⟩
    · rintro _ ⟨rfl⟩ hheader b₁ hb₁ hnone
      cases hb₁
      have hwithout : b'.withoutCertificate.blockHeader = b.withoutCertificate.blockHeader := by
        rw [hsame]
      simp only [Block.withoutCertificate, hnone, Option.map_none] at hwithout
      exact hheader b hb (Option.map_eq_none_iff.1 hwithout.symm)
    · rintro _ ⟨rfl⟩
      refine .inr ⟨rfl, fun _ => rfl, fun w hw => ?_⟩
      rw [votesSent_viewMessages] at hw
      exact absurd hw List.not_mem_nil
  | committed m₁ block uow hm₁ hblock huow =>
    obtain ⟨b, b', -, -, rfl⟩ := NodeState.setBlockCertificate_eq hm₁
    refine ⟨?_, ?_⟩
    · rintro _ ⟨rfl⟩ _ b₁ hb₁
      cases hb₁
    · rintro _ ⟨rfl⟩
      refine .inl ⟨Nat.lt_succ_self _, ?_⟩
      rw [votesSent_committed, votesSent_viewMessages]

theorem blockStep_of_replicaStep (h : ReplicaStep P cfg env m msg r) : BlockStep m r := by
  cases h with
  | crashed => exact blockStep_of_crash
  | rejected | refreshFailed | refreshed => exact blockStep_of_same rfl rfl rfl
  | interrupted uow => exact blockStep_interruptRound rfl rfl
  | votedPrepare block m₁ hs hblock hvalid hproposal happly =>
    obtain ⟨uow, uow', header, -, hheader, rfl, -, -⟩ := applyBlock_ok env happly
    refine blockStep_of_vote rfl rfl rfl rfl (fun _ b hb => ?_) fun _ => rfl
    cases hb
    rw [hheader]
    exact Option.some_ne_none _
  | votedPreCommit qc | votedCommit qc =>
    exact blockStep_of_vote rfl rfl rfl rfl (fun h => h) fun h => h
  | decided qc _ _ _ _ _ hr => exact blockStep_of_commitOutcome hr

open HotstuffLeaderMessageHandler in
theorem blockStep_of_leaderStep (h : LeaderStep P cfg env m msg r) : BlockStep m r := by
  cases h with
  | crashed => exact blockStep_of_crash
  | waiting pools | refreshFailed pools => exact blockStep_of_same rfl rfl rfl
  | abandoned pools uow => exact blockStep_interruptRound rfl rfl
  | proposed m₀ m₁ block qc proposal hs hindex hqc hrun =>
    have hheader : block.blockHeader ≠ none := by
      rcases hrun with ⟨-, hprepare⟩ | ⟨-, -, happly⟩
      · obtain ⟨_, _, header, -, hheader, -⟩ := prepareBlock_ok P cfg env hprepare
        rw [hheader]
        exact Option.some_ne_none _
      · obtain ⟨_, _, header, -, hheader, -⟩ := applyBlock_ok env happly
        rw [hheader]
        exact Option.some_ne_none _
    obtain ⟨pools, uow, rfl, -⟩ := proposed_state hindex hrun
    refine blockStep_of_vote rfl rfl rfl rfl (fun _ b hb => ?_) fun _ => rfl
    cases hb
    exact hheader
  | certifiedPrepare m₀ m₁ qc _ hs hindex hqc hr
  | certifiedPreCommit m₀ m₁ qc _ hs hindex hqc hr =>
    obtain ⟨pools, rfl⟩ := assembled_state hindex hqc
    rcases hr with ⟨-, rfl⟩ | ⟨proposal, rfl⟩
    · exact blockStep_interruptRound rfl rfl
    · exact blockStep_of_vote rfl rfl rfl rfl (fun h => h) fun h => h
  | certifiedCommit m₀ m₁ qc _ hs hindex hqc hr =>
    obtain ⟨pools, rfl⟩ := assembled_state hindex hqc
    rcases hr with ⟨-, rfl⟩ | ⟨proposal, r₁, hr₁, rfl⟩
    · exact blockStep_interruptRound rfl rfl
    · have hcommit := blockStep_of_commitOutcome hr₁
      exact ⟨hcommit.header, hcommit.kept⟩

theorem BlockStep.of_same (h : BlockStep m₁ r) (hheight : m₁.height = m.height)
    (hblock : m₁.block = m.block) : BlockStep m r := by
  refine ⟨fun m' hm' hheader => ?_, fun m' hm' => ?_⟩
  · exact h.header m' hm' fun b hb => hheader b (hblock ▸ hb)
  · rw [← hheight, ← hblock]
    exact h.kept m' hm'

theorem blockStep_handleEvent (ev : Event) : BlockStep m (handleEvent P cfg env m ev) := by
  cases ev with
  | timeout => exact blockStep_interruptRound rfl rfl
  | message msg =>
    have hmsg := handleHotstuffMessage_step P cfg env m msg
    show BlockStep m (handleHotstuffMessage P cfg env m msg)
    generalize handleHotstuffMessage P cfg env m msg = r at hmsg
    cases hmsg with
    | crashed => exact blockStep_of_crash
    | dropped m₁ hd =>
      rcases hd with rfl | ⟨step, round, rfl, -⟩
      · exact blockStep_of_same rfl rfl rfl
      · exact blockStep_of_same rfl rfl rfl
    | asLeader m₁ _ hpos hreach hstep hlead h =>
      obtain ⟨step, leader, rfl, -⟩ := hreach.state
      exact (blockStep_of_leaderStep h).of_same rfl rfl
    | asReplica m₁ _ hpos hreach hstep hlead h =>
      obtain ⟨step, leader, rfl, -⟩ := hreach.state
      exact (blockStep_of_replicaStep h).of_same rfl rfl

end Step

/-- A process that has voted at its height has a block, with a header. -/
structure KeepsBlock (c : NodeRun) : Prop where
  header : ∀ m, c.state = some m → HeaderKnown m
  voted : ∀ m, c.state = some m → ∀ v ∈ votesSent c.out,
    v.height < m.height ∨ (v.height = m.height ∧ m.block.isSome)

variable {P cfg}

theorem keepsBlock_step {c : NodeRun} (hc : KeepsBlock c) (e : Env × Event) :
    KeepsBlock (c.step P cfg e) := by
  cases hstate : c.state with
  | none => exact (NodeRun.step_ended P cfg hstate e).symm ▸ hc
  | some m =>
    rw [NodeRun.step_running P cfg hstate e]
    have hstep : BlockStep m (handleEvent P cfg e.1 m e.2) := blockStep_handleEvent e.2
    refine ⟨fun m' hm' => hstep.header m' hm' (hc.header m hstate), fun m' hm' v hv => ?_⟩
    rw [votesSent_append, List.mem_append] at hv
    rcases hstep.kept m' hm' with ⟨hheight, hnone⟩ | ⟨hheight, hkept, hvotes⟩
    · rcases hv with hv | hv
      · rcases hc.voted m hstate v hv with hlt | ⟨heq, -⟩
        · exact .inl (by omega)
        · exact .inl (by omega)
      · rw [hnone] at hv
        exact absurd hv List.not_mem_nil
    · rcases hv with hv | hv
      · rcases hc.voted m hstate v hv with hlt | ⟨heq, hblock⟩
        · exact .inl (by omega)
        · exact .inr ⟨by omega, hkept hblock⟩
      · obtain ⟨heq, hblock⟩ := hvotes v hv
        exact .inr ⟨by omega, hblock⟩

theorem keepsBlock_run (height : ℕ) (events : List (Env × Event)) :
    KeepsBlock (Runs.run (NodeRun.step P cfg) (NodeRun.start height) events) := by
  have hstart : KeepsBlock (NodeRun.start height) := by
    refine ⟨?_, fun m _ v hv => absurd hv List.not_mem_nil⟩
    rintro m ⟨rfl⟩ b hb
    cases hb
  have hstep : ∀ c e, KeepsBlock c → KeepsBlock (c.step P cfg e) := fun c e hc => keepsBlock_step hc e
  exact Runs.invariant_run_of_step hstep hstart events

/-! ## A proposal after the interruption -/

section Proposal

variable {env : Env} {m m₁ : NodeState} {msg : HotstuffMessage} {block : Block}

/-- A proposal of the current height and round, at a replica that waits for one. -/
structure ProposedTo (cfg : NodeConfig) (m : NodeState) (leader : ℕ) (msg : HotstuffMessage)
    (block : Block) : Prop where
  waiting : m.step = Prepare
  elected : m.leaderId = some leader
  replica : leader ≠ cfg.nodeId
  proposal : msg.type = Propose
  prepares : msg.step = Prepare
  height_eq : msg.height = m.height
  round_eq : msg.round = m.round
  block_eq : msg.block = some block

/-- The replica has taken the block over and sent its vote for it. -/
def VotesFor (r : Result) (m₁ : NodeState) (leader : ℕ) (block : Block) : Prop :=
  r.state = some (m₁.accepting block) ∧
    ∃ vote, r.out = [.sendToLeader leader vote] ∧ vote.step = Prepare ∧ vote.block = some block

section

variable {leader : ℕ} (h : ProposedTo cfg m leader msg block)
include h

theorem handleHotstuffMessage_of_proposed :
    handleHotstuffMessage P cfg env m msg
      = HotstuffReplicaMessageHandler.handlePrepareMessage P cfg env m msg := by
  have hnot : isLeader cfg m = false := by
    rw [isLeader, h.elected]
    exact beq_false_of_ne fun heq => h.replica (Option.some.inj heq)
  have hheight := h.height_eq
  have hround := h.round_eq
  have hstep : msg.step = m.step := h.prepares.trans h.waiting.symm
  have hnotNew : m.step ≠ NewRound := by
    rw [h.waiting]
    decide
  rw [handleHotstuffMessage_at ⟨hheight, by simp [hnot], by omega⟩ ⟨hstep, hround⟩
    fun heq => absurd heq hnotNew, hnot, h.prepares]
  rfl

omit h in
theorem sendVote_accepting {leader : ℕ} (hleader : m₁.leaderId = some leader) :
    ∃ vote, sendVote P cfg (m₁.accepting block) Prepare = [.sendToLeader leader vote] ∧
      vote.step = Prepare ∧ vote.block = some block := by
  have haccepting : (m₁.accepting block).leaderId = some leader := hleader
  simp only [sendVote, createVoteMessage, NodeState.accepting, sendToLeader, hleader]
  exact ⟨_, rfl, rfl, rfl⟩

theorem validateProposal_of_unlocked (hunlocked : m.lockedQC = none) :
    validateProposal P env m msg = if ∀ qc, msg.getQuorumCertificate = some qc →
      validateQuorumCertificate P env m (some qc) = true then .ok () else .err := by
  have hrunning : msg.type = Propose ∧ msg.step = Prepare := ⟨h.proposal, h.prepares⟩
  simp only [validateProposal, if_pos hrunning, hunlocked]
  cases hqc : msg.getQuorumCertificate with
  | none => simp
  | some qc =>
    cases hvalid : validateQuorumCertificate P env m (some qc) with
    | true | false => simp [hvalid]

theorem isValidMessageBlock_of_kept {kept : Block} {keptHeader header : BlockHeader}
    (hkept : m.block = some kept) (hkeptHeader : kept.blockHeader = some keptHeader)
    (hheader : block.blockHeader = some header) :
    isValidMessageBlock P cfg m msg = some (decide (P.sizeofBlock ≤ cfg.maxBlockBytes) &&
      keptHeader.stateHash == header.stateHash) := by
  have hstep : msg.step ≠ NewRound := by
    rw [h.prepares]
    decide
  simp only [isValidMessageBlock, h.block_eq, hkept, hkeptHeader, hheader, if_neg hstep]
  by_cases hsize : cfg.maxBlockBytes < P.sizeofBlock
  · rw [if_pos hsize, decide_eq_false (Nat.not_le_of_lt hsize), Bool.false_and]
  · rw [if_neg hsize, decide_eq_true (Nat.le_of_not_lt hsize), Bool.true_and]

end

/-- SOURCE: consensus/module_consensus_pacemaker.go:15-25, consensus/block.go:59-71 —
**an interrupted round binds the next ones.**  A replica that has voted at its height in another
round, and is not locked, votes for a proposal that its unit of work can apply exactly when the
proposal has the state hash of the block it kept, the block type fits the size limit, and a
certificate in the proposal is valid. -/
theorem votes_after_interruption_iff {height : ℕ} {events : List (Env × Event)} {leader : ℕ}
    (hrun : (Runs.run (NodeRun.step P cfg) (NodeRun.start height) events).state = some m)
    (hvoted : ∃ vote ∈ votesSent (Runs.run (NodeRun.step P cfg) (NodeRun.start height) events).out,
      vote.step = Prepare ∧ vote.height = m.height ∧ vote.round ≠ m.round)
    (hunlocked : m.lockedQC = none) (hproposed : ProposedTo cfg m leader msg block)
    (happly : applyBlock env block m = (.ok (), m₁)) :
    ∃ kept keptHeader header, m.block = some kept ∧ kept.blockHeader = some keptHeader ∧
      block.blockHeader = some header ∧
      (VotesFor (handleHotstuffMessage P cfg env m msg) m₁ leader block ↔
        keptHeader.stateHash = header.stateHash ∧ P.sizeofBlock ≤ cfg.maxBlockBytes ∧
        ∀ qc, msg.getQuorumCertificate = some qc →
          validateQuorumCertificate P env m (some qc) = true) := by
  obtain ⟨vote, hvote, -, hheight, -⟩ := hvoted
  have hkeeps : KeepsBlock (Runs.run (NodeRun.step P cfg) (NodeRun.start height) events) :=
    keepsBlock_run height events
  have hsome : m.block.isSome := by
    rcases hkeeps.voted m hrun vote hvote with hlt | ⟨-, hblock⟩
    · exact absurd hheight (Nat.ne_of_lt hlt)
    · exact hblock
  obtain ⟨kept, hkept⟩ := Option.isSome_iff_exists.1 hsome
  obtain ⟨keptHeader, hkeptHeader⟩ := Option.ne_none_iff_exists'.1 (hkeeps.header m hrun kept hkept)
  obtain ⟨uow, uow', header, -, hheader, hm₁, -, -⟩ := applyBlock_ok env happly
  refine ⟨kept, keptHeader, header, hkept, hkeptHeader, hheader, ?_⟩
  rw [handleHotstuffMessage_of_proposed hproposed]
  simp only [HotstuffReplicaMessageHandler.handlePrepareMessage,
    HotstuffReplicaMessageHandler.anteHandle,
    isValidMessageBlock_of_kept (P := P) hproposed hkept hkeptHeader hheader,
    validateProposal_of_unlocked hproposed hunlocked, hproposed.block_eq]
  cases hvalid : decide (P.sizeofBlock ≤ cfg.maxBlockBytes) &&
      keptHeader.stateHash == header.stateHash with
  | false =>
    -- the message is not handled, and nothing is sent
    refine iff_of_false (fun ⟨_, _, hout, _⟩ => by cases hout) ?_
    rintro ⟨hhash, hsize, -⟩
    rw [decide_eq_true hsize, Bool.true_and, beq_eq_false_iff_ne] at hvalid
    exact hvalid hhash
  | true =>
    rw [Bool.and_eq_true, decide_eq_true_iff, beq_iff_eq] at hvalid
    by_cases hqc : ∀ qc, msg.getQuorumCertificate = some qc →
        validateQuorumCertificate P env m (some qc) = true
    · refine iff_of_true ?_ ⟨hvalid.2, hvalid.1, hqc⟩
      have hleader : m₁.leaderId = some leader := by
        rw [hm₁]
        exact hproposed.elected
      rw [if_pos hqc]
      simp only [happly]
      exact ⟨rfl, sendVote_accepting hleader⟩
    · refine iff_of_false ?_ fun h => hqc h.2.2
      rw [if_neg hqc]
      simp only [interruptRound_eq]
      rintro ⟨-, vote, hout, -⟩
      unfold viewMessages at hout
      split at hout
      · cases hout
      · cases hout

end Proposal

/-! ## A second proposal at the height -/

/-- A replica votes for a block with the state hash `s`, times out and sees the next round open. -/
def interruptedAfterVote : List (Env × Event) :=
  [(fourEnv "s", .message (newRoundMsg 1 0)),
   (fourEnv "s", .message (prepareMsg 1 0 (plainBlock 1 "s" "p"))),
   (fourEnv "s", .timeout),
   (fourEnv "t", .message (newRoundMsg 1 1))]

def interruptedRun : NodeRun :=
  Runs.run (NodeRun.step (listedSignatures []) (fourConfig 1 "a1")) (NodeRun.start 1)
    interruptedAfterVote

/-- The block with the state hash `t` of the next leader can be applied, but the replica does
nothing with it. -/
theorem other_block_not_voted :
    ∃ m m₁ leader, interruptedRun.state = some m ∧
      (∃ vote ∈ votesSent interruptedRun.out, vote.step = Prepare ∧ vote.height = m.height ∧
        vote.round ≠ m.round) ∧
      m.lockedQC = none ∧
      ProposedTo (fourConfig 1 "a1") m leader (prepareMsg 1 1 (plainBlock 1 "t" "p"))
        (plainBlock 1 "t" "p") ∧
      applyBlock (fourEnv "t") (plainBlock 1 "t" "p") m = (.ok (), m₁) ∧
      (handleHotstuffMessage (listedSignatures []) (fourConfig 1 "a1") (fourEnv "t") m
        (prepareMsg 1 1 (plainBlock 1 "t" "p"))).out = [] := by
  refine ⟨_, _, 3, rfl, ?_, rfl, ⟨rfl, rfl, by decide, rfl, rfl, rfl, rfl, rfl⟩, rfl, ?_⟩
  · decide
  · decide

/-- Another block with the state hash `s` is voted on. -/
theorem same_hash_voted :
    ∃ m m₁, interruptedRun.state = some m ∧
      VotesFor (handleHotstuffMessage (listedSignatures []) (fourConfig 1 "a1") (fourEnv "s") m
        (prepareMsg 1 1 (plainBlock 1 "s" "q"))) m₁ 3 (plainBlock 1 "s" "q") := by
  obtain ⟨kept, keptHeader, header, hkept, hkeptHeader, hheader, hiff⟩ :=
    @votes_after_interruption_iff (listedSignatures []) (fourConfig 1 "a1") (fourEnv "s") _ _
      (prepareMsg 1 1 (plainBlock 1 "s" "q")) (plainBlock 1 "s" "q") 1 interruptedAfterVote 3 rfl
      (by decide) rfl ⟨rfl, rfl, by decide, rfl, rfl, rfl, rfl, rfl⟩ rfl
  cases hkept
  cases hkeptHeader
  cases hheader
  exact ⟨_, _, rfl, hiff.2 ⟨rfl, by decide, fun qc hqc => by cases hqc⟩⟩

end Pocket.Analysis
