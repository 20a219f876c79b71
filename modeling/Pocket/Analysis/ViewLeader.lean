import Pocket.Analysis.PhaseCertificate

/-!
# The leader of a view

A node elects the leader of a round with the first message that brings it into the round, and the
round robin counts the step of that message.  `elected_of_handleEvent` says, for one event, where a
leader comes from; by it every leader in office was elected in its view.

* Nodes that enter a round with a `NewRound` message agree on its leader, and nodes that are moved
  into it by a message of another step have another one.
* Whether a node acts as the leader is decided by the id it got at its start, and whether that is
  the id of the elected validator depends on the validators of the height.
-/

set_option autoImplicit false

namespace Pocket.Analysis

open Pocket.Model NodeRun

variable (P : Platform) (cfg : NodeConfig) (env : Env)

/-! ## Elections -/

/-- The message elects the leader `id` among the validators that are read. -/
structure ElectedBy (height : ℕ) (msg : HotstuffMessage) (id : ℕ) : Prop where
  height_eq : msg.height = height
  elected : ∃ vals addr, env.getValidatorsAtHeight height = some vals
    ∧ electNextLeaderDeterministicRoundRobin vals msg = some id
    ∧ (newActorMapper vals).idToValAddrMap id = some addr

variable {P cfg env} {es : List (Env × Event)} {e : Env × Event} {c : NodeRun}

section Position

variable {m m₁ : NodeState} {msg : HotstuffMessage} {id : ℕ}

theorem electNextLeader_elects {c : Call Unit} {m' : NodeState}
    (h : electNextLeader env msg m = (c, m')) (hheight : msg.height = m.height)
    (hid : m'.leaderId = some id) : ElectedBy env m.height msg id := by
  rcases electNextLeader_cases env msg m with
    ⟨c', hnone, -⟩ | ⟨id', vals, validators, addr, hsome, hvals, helected, hvalidators, haddr⟩
  · rw [h] at hnone
    cases hnone
    cases hid
  · rw [h] at hsome
    cases hsome
    cases hid
    rw [hheight] at hvals
    obtain rfl := Option.some.inj (hvals.symm.trans hvalidators)
    exact ⟨hheight, vals, addr, hvals, helected, haddr⟩

theorem elected_of_position (h : positionForMessage cfg env m msg = some (true, m₁))
    (hid : m₁.leaderId = some id) :
    (m₁.round = m.round ∧ m.leaderId = some id)
      ∨ (Elects cfg m msg ∧ ElectedBy env m.height msg id) := by
  obtain ⟨step, hmoved, -⟩ := movedTo_eq m msg
  rcases positionForMessage_cases h with
    ⟨-, hfalse, -⟩ | ⟨hconsidered, hnot, -, rfl⟩ | ⟨helects, c, helect, -⟩
  · cases hfalse
  · rw [hmoved] at hid ⊢
    refine .inl ⟨?_, hid⟩
    by_contra hround
    have helects : Elects cfg m msg :=
      ⟨hconsidered, .inl fun heq => hround heq.symm, fun hat => absurd hat.2 hround⟩
    exact hnot helects
  · rw [hmoved] at helect
    have helected := electNextLeader_elects helect helects.1.1 hid
    exact .inr ⟨helects, helected⟩

end Position

/-! ## Where a leader comes from -/

section Handlers

variable {m m' m₁ : NodeState} {msg : HotstuffMessage} {r : Result} {id : ℕ}

/-- A state that has a leader has the one from before, in the same view. -/
def KeepsLeader (m m' : NodeState) : Prop :=
  m'.leaderId = none ∨ (m'.leaderId = m.leaderId ∧ m'.height = m.height ∧ m'.round = m.round)

/-- The leader, the height and the round are those from before. -/
def SameRound (m m' : NodeState) : Prop :=
  m'.leaderId = m.leaderId ∧ m'.height = m.height ∧ m'.round = m.round

/-- What the handler of a step leaves of the view and of the leader. -/
inductive ViewStep (m : NodeState) (step : ℤ) : NodeState → Prop
  | stayed {m' : NodeState} (hsame : SameRound m m') (hstep : m'.step = m.step) :
      ViewStep m step m'
  | moved {m' : NodeState} (hsame : SameRound m m') (hfrom : NewRound ≤ step ∧ step < Decide)
      (hto : m'.step = step + 1) : ViewStep m step m'
  | interrupted (m₁ : NodeState) (hheight : m₁.height = m.height) (hround : m₁.round = m.round) :
      ViewStep m step m₁.interrupted
  | committed (m₁ : NodeState) (hheight : m₁.height = m.height) : ViewStep m step m₁.atNewHeight

theorem viewStep_interruptRound {step : ℤ} (hm' : (interruptRound cfg m₁).state = some m')
    (hheight : m₁.height = m.height) (hround : m₁.round = m.round) : ViewStep m step m' := by
  rw [interruptRound_state] at hm'
  obtain rfl := Option.some.inj hm'
  exact .interrupted m₁ hheight hround

theorem viewStep_commitOutcome {step : ℤ} {qc : QuorumCertificate}
    (h : CommitOutcome P cfg env qc m₁ r) (hm' : r.state = some m') (hheight : m₁.height = m.height)
    (hround : m₁.round = m.round) : ViewStep m step m' := by
  cases h with
  | crashed => cases hm'
  | failed m₂ hm₂ =>
    obtain ⟨b, b', -, -, rfl⟩ := NodeState.setBlockCertificate_eq hm₂
    exact viewStep_interruptRound hm' hheight hround
  | committed m₂ block uow hm₂ =>
    obtain ⟨b, b', -, -, rfl⟩ := NodeState.setBlockCertificate_eq hm₂
    obtain rfl := Option.some.inj hm'
    exact .committed _ hheight

theorem viewStep_replicaStep (h : ReplicaStep P cfg env m msg r) (hm' : r.state = some m') :
    ViewStep m msg.step m' := by
  cases h with
  | crashed => cases hm'
  | rejected | refreshFailed =>
    obtain rfl := Option.some.inj hm'
    exact .stayed ⟨rfl, rfl, rfl⟩ rfl
  | refreshed hmsg | votedPreCommit _ hmsg | votedCommit _ hmsg =>
    obtain rfl := Option.some.inj hm'
    rw [hmsg]
    exact .moved ⟨rfl, rfl, rfl⟩ (by decide) rfl
  | interrupted uow => exact viewStep_interruptRound hm' rfl rfl
  | votedPrepare block m₁ hmsg hblock hvalid hproposal happly =>
    obtain ⟨uow, rfl⟩ := snd_eq_of_eq happly (applyBlock_snd env block m)
    obtain rfl := Option.some.inj hm'
    rw [hmsg]
    exact .moved ⟨rfl, rfl, rfl⟩ (by decide) rfl
  | decided qc _ hmsg hante hqc hvalid hr => exact viewStep_commitOutcome hr hm' rfl rfl

open HotstuffLeaderMessageHandler in
theorem viewStep_leaderStep (h : LeaderStep P cfg env m msg r) (hm' : r.state = some m') :
    ViewStep m msg.step m' := by
  cases h with
  | crashed => cases hm'
  | waiting | refreshFailed =>
    obtain rfl := Option.some.inj hm'
    exact .stayed ⟨rfl, rfl, rfl⟩ rfl
  | abandoned => exact viewStep_interruptRound hm' rfl rfl
  | proposed m₀ m₁ block qc proposal hmsg hindex hqc hrun =>
    obtain ⟨pools, uow, rfl, -⟩ := proposed_state hindex hrun
    obtain rfl := Option.some.inj hm'
    rw [hmsg]
    exact .moved ⟨rfl, rfl, rfl⟩ (by decide) rfl
  | certifiedPrepare m₀ m₁ qc _ hmsg hindex hqc hr
  | certifiedPreCommit m₀ m₁ qc _ hmsg hindex hqc hr =>
    obtain ⟨pools, rfl⟩ := assembled_state hindex hqc
    rcases hr with ⟨-, rfl⟩ | ⟨proposal, rfl⟩
    · exact viewStep_interruptRound hm' rfl rfl
    · obtain rfl := Option.some.inj hm'
      rw [hmsg]
      exact .moved ⟨rfl, rfl, rfl⟩ (by decide) rfl
  | certifiedCommit m₀ m₁ qc _ hmsg hindex hqc hr =>
    obtain ⟨pools, rfl⟩ := assembled_state hindex hqc
    rcases hr with ⟨-, rfl⟩ | ⟨proposal, r₁, hr₁, rfl⟩
    · exact viewStep_interruptRound hm' rfl rfl
    · exact viewStep_commitOutcome hr₁ hm' rfl rfl

theorem ViewStep.keepsLeader {step : ℤ} (h : ViewStep m step m') : KeepsLeader m m' := by
  cases h with
  | stayed hsame | moved hsame => exact .inr hsame
  | interrupted | committed => exact .inl rfl

/-- **Where a leader comes from**: the node had it before, in the same view, or the message has
elected it, for the view of the message. -/
theorem elected_of_handleEvent {e : Event} (hm' : (handleEvent P cfg env m e).state = some m')
    (hid : m'.leaderId = some id) :
    m'.height = m.height ∧ ((m'.round = m.round ∧ m.leaderId = some id)
      ∨ ∃ msg, e = .message msg ∧ Elects cfg m msg ∧ ElectedBy env m.height msg id
        ∧ m'.round = msg.round) := by
  cases e with
  | timeout =>
    have hview : ViewStep m m.step m' := viewStep_interruptRound hm' rfl rfl
    rcases hview.keepsLeader with hnone | ⟨hleader, hheight, hround⟩
    · rw [hnone] at hid
      cases hid
    · exact ⟨hheight, .inl ⟨hround, hleader ▸ hid⟩⟩
  | message msg =>
    have hstep := handleHotstuffMessage_step P cfg env m msg
    have hresult : (handleHotstuffMessage P cfg env m msg).state = some m' := hm'
    -- what the handlers leave of the leader of the state in which the message is handled
    have hhandled : ∀ m₁, positionForMessage cfg env m msg = some (true, m₁) →
        KeepsLeader m₁ m' → m'.height = m.height ∧ ((m'.round = m.round ∧ m.leaderId = some id)
          ∨ ∃ msg', Event.message msg = .message msg' ∧ Elects cfg m msg'
            ∧ ElectedBy env m.height msg' id ∧ m'.round = msg'.round) := by
      intro m₁ hpos hkeeps
      rcases hkeeps with hnone | ⟨hleader, hheight, hround⟩
      · rw [hnone] at hid
        cases hid
      · obtain ⟨step, leader, hm₁, -⟩ := (positionForMessage_true cfg env hpos).state
        have hheight₁ : m₁.height = m.height := by rw [hm₁]
        have hround₁ : m₁.round = msg.round := by rw [hm₁]
        refine ⟨hheight.trans hheight₁, ?_⟩
        rcases elected_of_position hpos (hleader ▸ hid) with ⟨hsame, hold⟩ | ⟨helects, helected⟩
        · exact .inl ⟨hround.trans hsame, hold⟩
        · exact .inr ⟨msg, rfl, helects, helected, hround.trans hround₁⟩
    generalize handleHotstuffMessage P cfg env m msg = r at hstep hresult
    cases hstep with
    | crashed => cases hresult
    | dropped m₁ hdropped =>
      obtain rfl := Option.some.inj hresult
      rcases hdropped with rfl | ⟨step, round, rfl, -⟩
      · exact ⟨rfl, .inl ⟨rfl, hid⟩⟩
      · cases hid
    | asLeader m₁ _ hpos hreach hmsg hlead h =>
      exact hhandled m₁ hpos (viewStep_leaderStep h hresult).keepsLeader
    | asReplica m₁ _ hpos hreach hmsg hlead h =>
      exact hhandled m₁ hpos (viewStep_replicaStep h hresult).keepsLeader

end Handlers

/-! ## Two nodes of one view -/

section Agreement

/-- The leader of a round is elected with a `NewRound` message: a message of another step reaches a
node only when it has a leader for the round, or is past it. -/
def OpensWithNewRound (cfg : NodeConfig) (c : NodeRun) (e : Env × Event) : Prop :=
  ∀ m msg, c.state = some m → e.2 = .message msg → Elects cfg m msg → msg.step = NewRound

/-- What the node reads as the validators of the height. -/
def ReadsAt (height : ℕ) (vals : List Actor) (env : Env) : Prop :=
  ∀ vals', env.getValidatorsAtHeight height = some vals' → vals' = vals

/-- The leader, at the height, is the one that a `NewRound` message elects among the validators. -/
def RoundRobinLeader (height : ℕ) (vals : List Actor) (c : NodeRun) : Prop :=
  ∀ m id, c.state = some m → m.height = height → m.leaderId = some id →
    electNextLeaderDeterministicRoundRobin vals (newRoundMsg height m.round) = some id

variable {height : ℕ} {vals : List Actor}

theorem roundRobinLeader_step (hc : RoundRobinLeader height vals c)
    (hreads : ReadsAt height vals e.1) (hopens : OpensWithNewRound cfg c e) :
    RoundRobinLeader height vals (c.step P cfg e) := by
  intro m' id hm' hheight hid
  obtain ⟨m, hstate, hm'⟩ := exists_of_step P cfg hm'
  obtain ⟨hsame, hfrom⟩ := elected_of_handleEvent hm' hid
  have hm : m.height = height := hsame.symm.trans hheight
  rcases hfrom with ⟨hround, hold⟩ | ⟨msg, hmsg, helects, helected, hround⟩
  · rw [hround]
    exact hc m id hstate hm hold
  · have hstep := hopens m msg hstate hmsg helects
    obtain ⟨hmsgHeight, vals', addr, hvals, hrobin, -⟩ := helected
    rw [hm] at hvals hmsgHeight
    rw [hreads vals' hvals] at hrobin
    unfold electNextLeaderDeterministicRoundRobin at hrobin ⊢
    rw [hmsgHeight, hstep] at hrobin
    rw [hround]
    exact hrobin

theorem roundRobinLeader_run {start : ℕ} (hreads : ∀ e ∈ es, ReadsAt height vals e.1)
    (hopens : Runs.Guarded (step P cfg) (OpensWithNewRound cfg) (NodeRun.start start) es) :
    RoundRobinLeader height vals (Runs.run (step P cfg) (NodeRun.start start) es) := by
  have hstart : RoundRobinLeader height vals (NodeRun.start start) := by
    rintro m id ⟨rfl⟩ - hid
    cases hid
  have hguard := (Runs.guarded_of_forall_mem hreads).and hopens
  exact Runs.invariant_run (fun c e hc h => roundRobinLeader_step hc h.1 h.2) hstart hguard

/-- **Two nodes of one view have the same leader**, if they read the same validators of the height
and have elected their leaders with `NewRound` messages. -/
theorem leaders_of_view_agree {P' : Platform} {cfg' : NodeConfig} {start start' : ℕ}
    {es es' : List (Env × Event)}
    (hreads : ∀ e ∈ es, ReadsAt height vals e.1) (hreads' : ∀ e ∈ es', ReadsAt height vals e.1)
    (hopens : Runs.Guarded (NodeRun.step P cfg) (OpensWithNewRound cfg) (NodeRun.start start) es)
    (hopens' : Runs.Guarded (NodeRun.step P' cfg') (OpensWithNewRound cfg') (NodeRun.start start')
      es') {m m' : NodeState}
    (hm : (Runs.run (NodeRun.step P cfg) (NodeRun.start start) es).state = some m)
    (hm' : (Runs.run (NodeRun.step P' cfg') (NodeRun.start start') es').state = some m')
    (hheight : m.height = height) (hheight' : m'.height = height) (hround : m.round = m'.round)
    {id id' : ℕ} (hid : m.leaderId = some id) (hid' : m'.leaderId = some id') : id = id' := by
  have hleader := roundRobinLeader_run hreads hopens m id hm hheight hid
  have hleader' := roundRobinLeader_run hreads' hopens' m' id' hm' hheight' hid'
  rw [hround, hleader'] at hleader
  exact (Option.some.inj hleader).symm

/-- The leader's certificate of the `Prepare` votes of round 1. -/
def secondRoundCertificate : QuorumCertificate := threeSigners 1 Prepare (plainBlock 1 "s" "p")

/-- A node that enters round 1 with a `NewRound` message has validator 3 for its leader, one that is
moved there by the leader's next proposal has validator 1. -/
theorem late_node_has_other_leader :
    ∃ m m', (Runs.run (NodeRun.step (signedBy secondRoundCertificate) (fourConfig 1 "a1"))
        (NodeRun.start 1) [(fourEnv "s", .message (newRoundMsg 1 1))]).state = some m
      ∧ (Runs.run (NodeRun.step (signedBy secondRoundCertificate) (fourConfig 2 "a2"))
        (NodeRun.start 1) [(fourEnv "s", .message { phaseMsg PreCommit (plainBlock 1 "s" "p")
          secondRoundCertificate with round := 1 })]).state = some m'
      ∧ m.height = 1 ∧ m'.height = 1 ∧ m.round = 1 ∧ m'.round = 1
      ∧ m.leaderId = some 3 ∧ m'.leaderId = some 1 := by
  refine ⟨_, _, rfl, rfl, ?_⟩
  decide

/-- Two nodes that enter the round with `NewRound` messages agree. -/
theorem opened_nodes_agree :
    ∃ m m', (Runs.run (NodeRun.step (listedSignatures []) (fourConfig 1 "a1"))
        (NodeRun.start 1) [(fourEnv "s", .message (newRoundMsg 1 1))]).state = some m
      ∧ (Runs.run (NodeRun.step (listedSignatures []) (fourConfig 2 "a2"))
        (NodeRun.start 1) [(fourEnv "s", .message (newRoundMsg 1 1))]).state = some m'
      ∧ ∃ id id', m.leaderId = some id ∧ m'.leaderId = some id' ∧ id = id' := by
  have hreads : ∀ e ∈ [(fourEnv "s", Event.message (newRoundMsg 1 1))],
      ReadsAt 1 fourValidators e.1 := by
    intro e he vals hvals
    obtain rfl := List.mem_singleton.mp he
    exact (Option.some.inj hvals).symm
  have hopens : ∀ cfg, Runs.Guarded (NodeRun.step (listedSignatures []) cfg)
      (OpensWithNewRound cfg) (NodeRun.start 1)
      [(fourEnv "s", .message (newRoundMsg 1 1))] := by
    intro cfg
    refine ⟨?_, trivial⟩
    intro m msg _ hmsg _
    obtain rfl := Event.message.inj hmsg
    rfl
  refine ⟨_, _, rfl, rfl, 3, 3, rfl, rfl, ?_⟩
  exact leaders_of_view_agree hreads hreads (hopens (fourConfig 1 "a1"))
    (hopens (fourConfig 2 "a2")) rfl rfl rfl rfl rfl rfl rfl

end Agreement

/-! ## The node's own id -/

section OwnId

/-- The id a node takes once, from the validators at its start; an absent address gives 0.
SOURCE: consensus/module.go:152-163 -/
def createNodeId (validators : List Actor) (address : String) : ℕ :=
  ((newActorMapper validators).valAddrToIdMap address).getD 0

/-- The node's id is still its own: no other validator has it, and the node has no other id. -/
def IdCurrent (cfg : NodeConfig) (vals : List Actor) : Prop :=
  (∀ addr, (newActorMapper vals).idToValAddrMap cfg.nodeId = some addr → addr = cfg.address)
    ∧ ∀ id, (newActorMapper vals).idToValAddrMap id = some cfg.address → id = cfg.nodeId

/-- The leader is one of the validators of the height. -/
def LeaderListed (validators : ℕ → List Actor) (c : NodeRun) : Prop :=
  ∀ m id, c.state = some m → m.leaderId = some id →
    ∃ addr, (newActorMapper (validators m.height)).idToValAddrMap id = some addr

variable {validators : ℕ → List Actor} {vals : List Actor}

theorem leaderListed_step (hc : LeaderListed validators c)
    (hreads : ∀ height, ReadsAt height (validators height) e.1) :
    LeaderListed validators (c.step P cfg e) := by
  intro m' id hm' hid
  obtain ⟨m, hstate, hm'⟩ := exists_of_step P cfg hm'
  obtain ⟨hsame, hfrom⟩ := elected_of_handleEvent hm' hid
  rw [hsame]
  rcases hfrom with ⟨-, hold⟩ | ⟨msg, -, -, helected, -⟩
  · exact hc m id hstate hold
  · obtain ⟨-, vals, addr, hvals, -, haddr⟩ := helected
    rw [hreads m.height vals hvals] at haddr
    exact ⟨addr, haddr⟩

theorem leaderListed_run {start : ℕ}
    (hreads : ∀ e ∈ es, ∀ height, ReadsAt height (validators height) e.1) :
    LeaderListed validators (Runs.run (step P cfg) (NodeRun.start start) es) := by
  have hstart : LeaderListed validators (NodeRun.start start) := by
    rintro m id ⟨rfl⟩ hid
    cases hid
  exact Runs.invariant_run (fun c e => leaderListed_step) hstart (Runs.guarded_of_forall_mem hreads)

/-- A vote that no node can make anything of: it has no block. -/
def blankVote (height round : ℕ) : HotstuffMessage :=
  { type := Vote, height := height, step := Prepare, round := round, block := none,
    justification := .none }

theorem idToValAddrMap_range {id : ℕ} {addr : String}
    (h : (newActorMapper vals).idToValAddrMap id = some addr) : 1 ≤ id ∧ id ≤ vals.length := by
  simp only [newActorMapper] at h
  split at h
  · cases h
  obtain ⟨hlt, -⟩ := List.getElem?_eq_some_iff.mp h
  have hlen : (sortedAddresses vals).length = vals.length := by simp [sortedAddresses]
  omega

/-- Every validator is elected in some round. -/
theorem exists_round_electing (hlen : vals.length < 2 ^ 63) (height : ℕ) {id : ℕ} (hlow : 1 ≤ id)
    (hhigh : id ≤ vals.length) :
    ∃ round, electNextLeaderDeterministicRoundRobin vals (blankVote height round) = some id := by
  refine ⟨(((id : ℤ) - 2 - height) % 2 ^ 64).toNat, ?_⟩
  have hvalue : int64 ((height : ℤ) + (((id : ℤ) - 2 - height) % 2 ^ 64).toNat + 2 - 1) = id - 1 := by
    unfold int64 Int.bmod
    dsimp only
    omega
  have hmod : Int.tmod ((id : ℤ) - 1) vals.length = id - 1 :=
    Int.tmod_eq_of_lt (by omega) (by omega)
  have hwrap : ((id : ℤ) - 1 + 1) % 2 ^ 64 = id := by omega
  unfold electNextLeaderDeterministicRoundRobin
  simp only [blankVote, Prepare]
  rw [if_neg (by omega), hvalue, hmod, hwrap, Int.toNat_natCast]

theorem blankVote_elects {height round id : ℕ} {addr : String}
    (hvals : env.getValidatorsAtHeight height = some (validators height))
    (hrobin : electNextLeaderDeterministicRoundRobin (validators height) (blankVote height round)
      = some id)
    (haddr : (newActorMapper (validators height)).idToValAddrMap id = some addr) :
    (handleHotstuffMessage P cfg env (initialState height) (blankVote height round)).state
      = some { initialState height with step := Prepare, round := round, leaderId := some id } := by
  have hid := (idToValAddrMap_range haddr).1
  have helect : ∀ m : NodeState, m.height = height →
      electNextLeader env (blankVote height round) m = (.ok (), { m with leaderId := some id }) := by
    intro m hm
    unfold electNextLeader
    simp only [blankVote] at hrobin ⊢
    simp only [hvals, hrobin, hm, haddr]
    rw [if_neg (by omega)]
  have hposition : positionForMessage cfg env (initialState height) (blankVote height round)
      = some (true,
        { initialState height with step := Prepare, round := round, leaderId := some id }) := by
    have hshould : shouldHandleMessage cfg env (blankVote height round) (initialState height)
        = some (true,
          { initialState height with step := Prepare, round := round, leaderId := some id }) := by
      unfold shouldHandleMessage
      rw [if_neg (by simp [blankVote, initialState]), if_neg (by simp [blankVote, initialState]),
        if_neg (by simp [isLeader, initialState]),
        if_neg (by simp [blankVote, initialState, Prepare, NewRound]),
        if_neg (by simp [blankVote, initialState, Prepare, NewRound])]
      simp only
      rw [if_pos (.inr (by simp [isLeaderSet, initialState])), helect _ rfl]
      rfl
    unfold positionForMessage
    rw [hshould]
    rfl
  unfold handleHotstuffMessage
  rw [hposition]
  simp only
  split
  · rfl
  · rfl

/-- **The elected validator, and only it, acts as leader** at a height, in every run, exactly if the
id that the node took at its start is its own at the height. -/
theorem acts_as_leader_iff (P : Platform) (cfg : NodeConfig) (validators : ℕ → List Actor)
    (height : ℕ) (hlen : (validators height).length < 2 ^ 63) :
    (∀ start es, (∀ e ∈ es, ∀ h, ReadsAt h (validators h) e.1) →
      ∀ m id, (Runs.run (NodeRun.step P cfg) (NodeRun.start start) es).state = some m →
        m.height = height → m.leaderId = some id →
        (isLeader cfg m = true
          ↔ (newActorMapper (validators height)).idToValAddrMap id = some cfg.address))
      ↔ IdCurrent cfg (validators height) := by
  constructor
  · intro hacts
    -- any id that is assigned is elected in some round, in which the blank vote leaves it
    have hown : ∀ id addr, (newActorMapper (validators height)).idToValAddrMap id = some addr →
        (id = cfg.nodeId ↔ addr = cfg.address) := by
      intro id addr haddr
      obtain ⟨hlow, hhigh⟩ := idToValAddrMap_range haddr
      obtain ⟨round, hrobin⟩ := exists_round_electing hlen height hlow hhigh
      let env : Env := { fourEnv "s" with getValidatorsAtHeight := fun h => some (validators h) }
      have hleads := @blankVote_elects P cfg env _ _ _ _ _ rfl hrobin haddr
      have hreads : ∀ e ∈ [(env, Event.message (blankVote height round))],
          ∀ h, ReadsAt h (validators h) e.1 := by
        intro e he h vals hvals
        obtain rfl := List.mem_singleton.mp he
        exact (Option.some.inj hvals).symm
      have hiff := hacts height _ hreads _ id hleads rfl rfl
      rw [haddr] at hiff
      simpa [isLeader] using hiff
    exact ⟨fun addr haddr => (hown _ addr haddr).mp rfl, fun id hid => (hown id _ hid).mpr rfl⟩
  · rintro ⟨hnobody, hnone⟩ start es hreads m id hm hheight hid
    obtain ⟨addr, haddr⟩ := leaderListed_run hreads m id hm hid
    rw [hheight] at haddr
    have hleader : isLeader cfg m = true ↔ id = cfg.nodeId := by simp [isLeader, hid]
    rw [hleader]
    constructor
    · rintro rfl
      rw [haddr, hnobody addr haddr]
    · exact hnone id

/-- Four validators, and from height 2 on a fifth one whose address comes before theirs. -/
def joinedValidators (height : ℕ) : List Actor :=
  if height < 2 then fourValidators
  else { address := "a0", publicKey := "k0" } :: fourValidators

/-- A node takes the validator that has joined for itself: at height 2 the leader 1 is `a0`, and the
node that was the first validator when it started acts as the leader. -/
theorem joined_validator_impersonated :
    (fourConfig 1 "a1").nodeId = createNodeId (joinedValidators 0) "a1"
      ∧ ∃ m, (Runs.run (NodeRun.step (listedSignatures []) (fourConfig 1 "a1")) (NodeRun.start 2)
          [({ fourEnv "s" with getValidatorsAtHeight := fun h => some (joinedValidators h) },
            .message (newRoundMsg 2 3))]).state = some m
        ∧ m.height = 2 ∧ m.leaderId = some 1 ∧ isLeader (fourConfig 1 "a1") m = true
        ∧ (newActorMapper (joinedValidators 2)).idToValAddrMap 1 = some "a0" := by
  refine ⟨by decide, _, rfl, ?_⟩
  decide

/-- Below height 2 the first validator's id is its own, so it acts as leader whenever it is elected,
and only then. -/
theorem first_validator_acts :
    (joinedValidators 1).length < 2 ^ 63 ∧
    ∀ start es, (∀ e ∈ es, ∀ h, ReadsAt h (joinedValidators h) e.1) →
      ∀ m id, (Runs.run (NodeRun.step (listedSignatures []) (fourConfig 1 "a1"))
          (NodeRun.start start) es).state = some m → m.height = 1 → m.leaderId = some id →
        (isLeader (fourConfig 1 "a1") m = true
          ↔ (newActorMapper (joinedValidators 1)).idToValAddrMap id = some "a1") := by
  have hlen : (joinedValidators 1).length < 2 ^ 63 := by decide
  have hself : (newActorMapper (joinedValidators 1)).idToValAddrMap 1 = some "a1" := by decide
  have hdistinct : ((joinedValidators 1).map Actor.address).Nodup := by decide
  refine ⟨hlen, (acts_as_leader_iff _ (fourConfig 1 "a1") joinedValidators 1 hlen).mpr ⟨?_, ?_⟩⟩
  · intro addr haddr
    exact Option.some.inj (haddr.symm.trans hself)
  · intro id hid
    exact id_eq_of_idToValAddrMap hdistinct hid hself

end OwnId

end Pocket.Analysis
