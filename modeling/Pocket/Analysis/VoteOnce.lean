import Pocket.Model.Node

/-!
# A node votes at most once for a height, round and step

The votes of one process are strictly increasing in (height, round, step), whatever
messages it is sent, in whichever role it handles them and whenever its timer fires.

* A replica at step `s` has voted, in its current round, only for steps below `s`; a leader
  at step `s` also for `s`, because it votes for a step while handling the one before.
  `nextVoteStep` is the first step the node has not voted for.
* A node that has no leader has not voted in its current round: `sendToLeader` sends
  nothing then, and a leader that is set stays until the round or the height changes.

The only assumption is that the round counter does not wrap around.
-/

set_option autoImplicit false

namespace Pocket.Analysis

open Pocket.Model

variable (P : Platform) (cfg : NodeConfig)

/-- The round in which an event is handled: for a message, the one it moves the node to. -/
def roundDuring (env : Env) (m : NodeState) : Event → ℕ
  | .timeout => m.round
  | .message msg =>
    match positionForMessage cfg env m msg with
    | none => m.round
    | some (_, m₁) => m₁.round

/-- Within a height the round after an event is not below the round in which the event was
handled: the `uint64` round counter has not wrapped around. -/
def roundDoesNotWrap (c : NodeRun) (e : Env × Event) : Bool :=
  match c.state with
  | none => true
  | some m =>
    match (handleEvent P cfg e.1 m e.2).state with
    | none => true
    | some m' => decide (m'.height = m.height → roundDuring cfg e.1 m e.2 ≤ m'.round)

/-- The order of votes: by height, then round, then step. -/
def VoteLt (v w : HotstuffMessage) : Prop :=
  v.height < w.height ∨ (v.height = w.height ∧
    (v.round < w.round ∨ (v.round = w.round ∧ v.step < w.step)))

/-- The first step of the current round for which the node has not voted yet. -/
def nextVoteStep (m : NodeState) : ℤ := if isLeader cfg m then m.step + 1 else m.step

/-- The votes a node in this state can have sent. -/
def VotedBefore (m : NodeState) (v : HotstuffMessage) : Prop :=
  v.height < m.height ∨ (v.height = m.height ∧
    (v.round < m.round
      ∨ (v.round = m.round ∧ m.leaderId.isSome ∧ v.step < nextVoteStep cfg m)))

/-- Every vote that fits the state `m` fits the state `m'`. -/
def Later (m m' : NodeState) : Prop := ∀ v, VotedBefore cfg m v → VotedBefore cfg m' v

/-- What handling one event does to votes: it casts at most one, above all votes that fit
the state before, and the state after leaves room for the new vote and the old ones. -/
structure VoteStep (m : NodeState) (r : Result) : Prop where
  atMostOne : (votesSent r.out).length ≤ 1
  above : ∀ w ∈ votesSent r.out, ∀ v, VotedBefore cfg m v → VoteLt v w
  later : ∀ m', r.state = some m' → Later cfg m m'
  recorded : ∀ m', r.state = some m' → ∀ w ∈ votesSent r.out, VotedBefore cfg m' w

/-! ## Outputs -/

@[simp] theorem votesSent_nil : votesSent [] = [] := rfl

@[simp] theorem votesSent_broadcast (msg : HotstuffMessage) (out : List Output) :
    votesSent (.broadcast msg :: out) = votesSent out := rfl

@[simp] theorem votesSent_committed (h : ℕ) (b : Block) (u : UnitOfWork) (out : List Output) :
    votesSent (.committed h b u :: out) = votesSent out := rfl

@[simp] theorem votesSent_append (out out' : List Output) :
    votesSent (out ++ out') = votesSent out ++ votesSent out' := List.filterMap_append

@[simp] theorem votesSent_viewMessages (m : NodeState) (qc : Option QuorumCertificate) :
    votesSent (viewMessages cfg m qc) = [] := by
  unfold viewMessages
  split <;> rfl

/-- INTERNAL: a vote is sent for the node's height, round and current block, and only when
there is a leader to send it to. -/
theorem mem_votesSent_sendVote {m : NodeState} {step : ℤ} {w : HotstuffMessage}
    (h : w ∈ votesSent (sendVote P cfg m step)) :
    m.leaderId.isSome ∧ w.height = m.height ∧ w.round = m.round ∧ w.step = step
      ∧ w.block = m.block ∧ m.block.isSome := by
  unfold sendVote createVoteMessage at h
  cases hb : m.block with
  | none => simp [hb] at h
  | some b =>
    cases hl : m.leaderId with
    | none => simp [hb, hl, sendToLeader] at h
    | some leader =>
      simp only [hb, hl, sendToLeader, votesSent, List.filterMap_cons, List.filterMap_nil,
        List.mem_singleton] at h
      subst h
      exact ⟨rfl, rfl, rfl, rfl, rfl, rfl⟩

theorem length_votesSent_sendVote (m : NodeState) (step : ℤ) :
    (votesSent (sendVote P cfg m step)).length ≤ 1 := by
  unfold sendVote sendToLeader votesSent
  repeat' split
  all_goals simp

/-! ## States that come later -/

section Later

variable {cfg} {m m' : NodeState}

theorem later_of_height (h : m.height < m'.height) : Later cfg m m' := by
  rintro v (hv | ⟨hv, -⟩)
  · exact .inl (by omega)
  · exact .inl (by omega)

theorem later_of_round (hh : m'.height = m.height) (hr : m.round < m'.round) :
    Later cfg m m' := by
  rintro v (hv | ⟨hv, hv' | ⟨hv', -⟩⟩)
  · exact .inl (by omega)
  · exact .inr ⟨by omega, .inl (by omega)⟩
  · exact .inr ⟨by omega, .inl (by omega)⟩

theorem later_of_step (hh : m'.height = m.height) (hr : m'.round = m.round)
    (hl : m'.leaderId = m.leaderId) (hs : m.step ≤ m'.step) : Later cfg m m' := by
  have hnext : nextVoteStep cfg m ≤ nextVoteStep cfg m' := by
    unfold nextVoteStep isLeader
    rw [hl]
    split <;> omega
  rintro v (hv | ⟨hv, hv' | ⟨hv', hsome, hlt⟩⟩)
  · exact .inl (by omega)
  · exact .inr ⟨by omega, .inl (by omega)⟩
  · exact .inr ⟨by omega, .inr ⟨by omega, hl ▸ hsome, by omega⟩⟩

theorem later_of_no_leader (hh : m'.height = m.height) (hr : m'.round = m.round)
    (hl : m.leaderId = none) : Later cfg m m' := by
  rintro v (hv | ⟨hv, hv' | ⟨-, hsome, -⟩⟩)
  · exact .inl (by omega)
  · exact .inr ⟨by omega, .inl (by omega)⟩
  · simp [hl] at hsome

end Later

/-! ## One event -/

section Step

variable {P cfg} {env : Env} {m m' : NodeState} {msg : HotstuffMessage} {r : Result}

theorem voteStep_of_no_vote (hout : votesSent r.out = [])
    (hlater : ∀ m', r.state = some m' → Later cfg m m') : VoteStep cfg m r :=
  ⟨by simp [hout], by simp [hout], hlater, by simp [hout]⟩

theorem voteStep_interruptRound (hh : m'.height = m.height) (hr : m'.round = m.round)
    (hwrap : ∀ m₁, (interruptRound cfg m').state = some m₁ → m₁.height = m.height →
      m.round ≤ m₁.round) : VoteStep cfg m (interruptRound cfg m') := by
  have hwrap : m.round ≤ incrRound m'.round := hwrap _ (interruptRound_state cfg m') hh
  rw [interruptRound_eq]
  refine voteStep_of_no_vote (by simp) ?_
  rintro _ ⟨rfl⟩
  refine later_of_round hh ?_
  show m.round < incrRound m'.round
  unfold incrRound at hwrap ⊢
  omega

/-- INTERNAL: an event that casts the vote for `step` and moves on to the step after the
one it was in.  A replica votes for the step it leaves, a leader for the one it enters. -/
theorem voteStep_of_vote {mv : NodeState} {out : List Output} {step : ℤ}
    (hout : votesSent out = votesSent (sendVote P cfg mv step))
    (hv : mv.height = m.height ∧ mv.round = m.round ∧ mv.leaderId = m.leaderId)
    (hm' : m'.height = m.height ∧ m'.round = m.round ∧ m'.leaderId = m.leaderId)
    (hrole : (isLeader cfg m = false ∧ m.step = step ∧ m'.step = step + 1)
      ∨ (isLeader cfg m = true ∧ m.step + 1 = step ∧ m'.step = step)) :
    VoteStep cfg m ⟨some m', out⟩ := by
  obtain ⟨hh, hr, hl⟩ := hm'
  have hsame : isLeader cfg m' = isLeader cfg m := by rw [isLeader, isLeader, hl]
  have hlow : nextVoteStep cfg m = step := by
    rcases hrole with ⟨hrole, hs, -⟩ | ⟨hrole, hs, -⟩ <;> simp [nextVoteStep, hrole, hs]
  have hhigh : nextVoteStep cfg m' = step + 1 := by
    rcases hrole with ⟨hrole, -, hs⟩ | ⟨hrole, -, hs⟩ <;> simp [nextVoteStep, hsame, hrole, hs]
  have hmem : ∀ w ∈ votesSent out, m.leaderId.isSome ∧ w.height = m.height ∧ w.round = m.round
      ∧ w.step = step := by
    intro w hw
    obtain ⟨hsome, hwh, hwr, hws, -⟩ := mem_votesSent_sendVote P cfg (hout ▸ hw)
    exact ⟨hv.2.2 ▸ hsome, hwh.trans hv.1, hwr.trans hv.2.1, hws⟩
  refine ⟨hout ▸ length_votesSent_sendVote P cfg mv step, ?_, ?_, ?_⟩
  · intro w hw v hv
    obtain ⟨-, hwh, hwr, hws⟩ := hmem w hw
    rcases hv with hv | ⟨hv, hv' | ⟨hv', -, hlt⟩⟩
    · exact .inl (by omega)
    · exact .inr ⟨by omega, .inl (by omega)⟩
    · exact .inr ⟨by omega, .inr ⟨by omega, by omega⟩⟩
  · rintro _ ⟨rfl⟩
    exact later_of_step hh hr hl (by omega)
  · rintro _ ⟨rfl⟩ w hw
    obtain ⟨hsome, hwh, hwr, hws⟩ := hmem w hw
    exact .inr ⟨by omega, .inr ⟨by omega, hl ▸ hsome, by omega⟩⟩

theorem VoteStep.of_later (h : VoteStep cfg m' r) (hlater : Later cfg m m') : VoteStep cfg m r :=
  ⟨h.atMostOne, fun w hw v hv => h.above w hw v (hlater v hv),
    fun m₁ hm₁ v hv => h.later m₁ hm₁ v (hlater v hv), h.recorded⟩

theorem VoteStep.sorted (h : VoteStep cfg m r) : (votesSent r.out).Pairwise VoteLt := by
  have hone := h.atMostOne
  generalize votesSent r.out = votes at hone ⊢
  cases votes with
  | nil => exact .nil
  | cons w ws =>
    obtain rfl : ws = [] := by simpa using hone
    exact List.pairwise_singleton _ _

theorem voteStep_of_commitOutcome {qc : QuorumCertificate} (h : CommitOutcome P cfg env qc m r)
    (hwrap : ∀ m', r.state = some m' → m'.height = m.height → m.round ≤ m'.round) :
    VoteStep cfg m r := by
  cases h with
  | crashed => exact voteStep_of_no_vote rfl (by simp)
  | failed m₁ hm₁ =>
    obtain ⟨b, b', -, -, rfl⟩ := NodeState.setBlockCertificate_eq hm₁
    exact voteStep_interruptRound rfl rfl hwrap
  | committed m₁ block uow hm₁ hblock huow =>
    obtain ⟨b, b', -, -, rfl⟩ := NodeState.setBlockCertificate_eq hm₁
    refine voteStep_of_no_vote (by simp) ?_
    rintro _ ⟨rfl⟩
    exact later_of_height (Nat.lt_succ_self _)

theorem voteStep_of_replicaStep (h : ReplicaStep P cfg env m msg r) (hstep : m.step = msg.step)
    (hlead : isLeader cfg m = false)
    (hwrap : ∀ m', r.state = some m' → m'.height = m.height → m.round ≤ m'.round) :
    VoteStep cfg m r := by
  cases h with
  | crashed => exact voteStep_of_no_vote rfl (by simp)
  | rejected | refreshFailed =>
    refine voteStep_of_no_vote rfl ?_
    rintro _ ⟨rfl⟩
    exact later_of_step rfl rfl rfl le_rfl
  | refreshed hs =>
    refine voteStep_of_no_vote rfl ?_
    rintro _ ⟨rfl⟩
    exact later_of_step rfl rfl rfl ((hstep.trans hs).trans_le (by decide : NewRound ≤ Prepare))
  | interrupted uow => exact voteStep_interruptRound rfl rfl hwrap
  | votedPrepare block m₁ hs _ _ _ happly =>
    obtain ⟨uow, rfl⟩ := snd_eq_of_eq happly (applyBlock_snd env block m)
    exact voteStep_of_vote rfl ⟨rfl, rfl, rfl⟩ ⟨rfl, rfl, rfl⟩ (.inl ⟨hlead, hstep.trans hs, rfl⟩)
  | votedPreCommit qc hs | votedCommit qc hs =>
    exact voteStep_of_vote rfl ⟨rfl, rfl, rfl⟩ ⟨rfl, rfl, rfl⟩ (.inl ⟨hlead, hstep.trans hs, rfl⟩)
  | decided qc _ _ _ _ _ hr => exact voteStep_of_commitOutcome hr hwrap

open HotstuffLeaderMessageHandler in
theorem voteStep_of_leaderStep (h : LeaderStep P cfg env m msg r) (hstep : m.step = msg.step)
    (hlead : isLeader cfg m = true)
    (hwrap : ∀ m', r.state = some m' → m'.height = m.height → m.round ≤ m'.round) :
    VoteStep cfg m r := by
  cases h with
  | crashed => exact voteStep_of_no_vote rfl (by simp)
  | waiting pools | refreshFailed pools =>
    refine voteStep_of_no_vote rfl ?_
    rintro _ ⟨rfl⟩
    exact later_of_step rfl rfl rfl le_rfl
  | abandoned pools uow => exact voteStep_interruptRound rfl rfl hwrap
  | proposed m₀ m₁ block qc proposal hs hindex hqc hrun =>
    obtain ⟨pools, uow, rfl, -⟩ := proposed_state hindex hrun
    exact voteStep_of_vote rfl ⟨rfl, rfl, rfl⟩ ⟨rfl, rfl, rfl⟩
      (.inr ⟨hlead, by rw [hstep, hs]; rfl, rfl⟩)
  | certifiedPrepare m₀ m₁ qc _ hs hindex hqc hr
  | certifiedPreCommit m₀ m₁ qc _ hs hindex hqc hr =>
    obtain ⟨pools, rfl⟩ := assembled_state hindex hqc
    rcases hr with ⟨-, rfl⟩ | ⟨proposal, rfl⟩
    · exact voteStep_interruptRound rfl rfl hwrap
    · exact voteStep_of_vote rfl ⟨rfl, rfl, rfl⟩ ⟨rfl, rfl, rfl⟩
        (.inr ⟨hlead, by rw [hstep, hs]; rfl, rfl⟩)
  | certifiedCommit m₀ m₁ qc _ hs hindex hqc hr =>
    obtain ⟨pools, rfl⟩ := assembled_state hindex hqc
    rcases hr with ⟨-, rfl⟩ | ⟨proposal, r₁, hr₁, rfl⟩
    · exact voteStep_interruptRound rfl rfl hwrap
    · -- only the step differs between the state here and the one that is committed from
      have hlater : Later cfg m ({ m with hotstuffMempool := pools }).certifiedCommit :=
        later_of_step rfl rfl rfl ((hstep.trans hs).trans_le (by decide : Commit ≤ Decide))
      have hvote := (voteStep_of_commitOutcome hr₁ hwrap).of_later hlater
      exact ⟨hvote.atMostOne, hvote.above, hvote.later, hvote.recorded⟩

theorem later_of_dropped (h : Dropped m m') : Later cfg m m' := by
  rcases h with rfl | ⟨step, round, rfl, hround | ⟨rfl, hnone⟩⟩
  · exact later_of_step rfl rfl rfl le_rfl
  · exact later_of_round rfl hround
  · exact later_of_no_leader rfl rfl hnone

theorem later_of_reached (h : Reached msg m m') (hstep : m'.step = msg.step) : Later cfg m m' := by
  obtain ⟨step, leader, rfl, -, hleader⟩ := h.state
  rcases h.forward with hround | ⟨hround, hle⟩
  · exact later_of_round rfl hround
  · cases hl : m.leaderId with
    | none => exact later_of_no_leader rfl hround hl
    | some l =>
      exact later_of_step rfl hround (hleader hround (by simp [hl])) (hstep ▸ hle)

theorem voteStep_handleEvent {ev : Event}
    (hwrap : ∀ m', (handleEvent P cfg env m ev).state = some m' → m'.height = m.height →
      roundDuring cfg env m ev ≤ m'.round) :
    VoteStep cfg m (handleEvent P cfg env m ev) := by
  cases ev with
  | timeout => exact voteStep_interruptRound rfl rfl hwrap
  | message msg =>
    have hmsg := handleHotstuffMessage_step P cfg env m msg
    generalize hr : handleHotstuffMessage P cfg env m msg = r at hmsg
    simp only [handleEvent, hr] at hwrap ⊢
    -- the handler runs in a state of the same height, in the round the event is handled in
    have hwrap₁ : ∀ m₁, positionForMessage cfg env m msg = some (true, m₁) → Reached msg m m₁ →
        ∀ m', r.state = some m' → m'.height = m₁.height → m₁.round ≤ m'.round := by
      intro m₁ hpos hreach m' hm' hh
      have hround : roundDuring cfg env m (.message msg) = m₁.round := by simp [roundDuring, hpos]
      obtain ⟨step, leader, rfl, -⟩ := hreach.state
      exact hround ▸ hwrap m' hm' hh
    cases hmsg with
    | crashed => exact voteStep_of_no_vote rfl (by simp)
    | dropped m₁ hd =>
      refine voteStep_of_no_vote rfl ?_
      rintro _ ⟨rfl⟩
      exact later_of_dropped hd
    | asLeader m₁ _ hpos hreach hstep hlead h =>
      exact (voteStep_of_leaderStep h hstep hlead (hwrap₁ m₁ hpos hreach)).of_later
        (later_of_reached hreach hstep)
    | asReplica m₁ _ hpos hreach hstep hlead h =>
      exact (voteStep_of_replicaStep h hstep hlead (hwrap₁ m₁ hpos hreach)).of_later
        (later_of_reached hreach hstep)

end Step

/-! ## Every run -/

/-- The votes of a process increase, and its state leaves room for all of them. -/
structure VotesIncrease (c : NodeRun) : Prop where
  sorted : (votesSent c.out).Pairwise VoteLt
  before : ∀ m, c.state = some m → ∀ v ∈ votesSent c.out, VotedBefore cfg m v

theorem votesIncrease_step {c : NodeRun} {e : Env × Event} (hc : VotesIncrease cfg c)
    (hwrap : roundDoesNotWrap P cfg c e = true) : VotesIncrease cfg (c.step P cfg e) := by
  cases hstate : c.state with
  | none => exact (NodeRun.step_ended P cfg hstate e).symm ▸ hc
  | some m =>
    rw [NodeRun.step_running P cfg hstate e]
    have hvote : VoteStep cfg m (handleEvent P cfg e.1 m e.2) := by
      refine voteStep_handleEvent fun m' hm' hh => ?_
      simp only [roundDoesNotWrap, hstate, hm', decide_eq_true_eq] at hwrap
      exact hwrap hh
    refine ⟨?_, ?_⟩
    · rw [votesSent_append, List.pairwise_append]
      exact ⟨hc.sorted, hvote.sorted,
        fun v hv w hw => hvote.above w hw v (hc.before m hstate v hv)⟩
    · intro m' hm' v hv
      rw [votesSent_append, List.mem_append] at hv
      rcases hv with hv | hv
      · exact hvote.later m' hm' v (hc.before m hstate v hv)
      · exact hvote.recorded m' hm' v hv

/-- SOURCE: consensus/hotstuff_replica.go, consensus/hotstuff_leader.go, consensus/pacemaker —
**a node votes once.**  Over any sequence of messages and timeouts, and whatever persistence
and utility answer, a process that starts at any height sends at most one vote for each
height, round and step, as long as its round counter does not wrap around. -/
theorem votes_distinct (height : ℕ) (events : List (Env × Event))
    (hwrap : Runs.Guarded (NodeRun.step P cfg) (fun c e => roundDoesNotWrap P cfg c e = true)
      (NodeRun.start height) events) :
    ((votesSent (Runs.run (NodeRun.step P cfg) (NodeRun.start height) events).out).map
      fun v => (v.height, v.round, v.step)).Nodup := by
  have hinv : VotesIncrease cfg (Runs.run (NodeRun.step P cfg) (NodeRun.start height) events) :=
    Runs.invariant_run (fun c e hc hg => votesIncrease_step P cfg hc hg)
      ⟨.nil, by simp [NodeRun.start]⟩ hwrap
  refine List.Pairwise.map _ (fun v w hlt heq => ?_) hinv.sorted
  simp only [Prod.mk.injEq] at heq
  rcases hlt with hlt | ⟨-, hlt | ⟨-, hlt⟩⟩ <;> omega

/-- A replica is sent a round opening, a proposal, the same proposal again, and times out. -/
def repeatedProposal : List (Env × Event) :=
  [(fourEnv "s", .message (newRoundMsg 1 0)),
   (fourEnv "s", .message (prepareMsg 1 0 (plainBlock 1 "s" "p"))),
   (fourEnv "s", .message (prepareMsg 1 0 (plainBlock 1 "s" "p"))),
   (fourEnv "s", .timeout)]

/-- On that run the replica votes, and once. -/
theorem votes_distinct_repeatedProposal :
    (votesSent (Runs.run (NodeRun.step (listedSignatures []) (fourConfig 1 "a1"))
      (NodeRun.start 1) repeatedProposal).out).length = 1
    ∧ ((votesSent (Runs.run (NodeRun.step (listedSignatures []) (fourConfig 1 "a1"))
      (NodeRun.start 1) repeatedProposal).out).map fun v => (v.height, v.round, v.step)).Nodup :=
  ⟨by decide, votes_distinct _ _ 1 repeatedProposal (by decide)⟩

end Pocket.Analysis
