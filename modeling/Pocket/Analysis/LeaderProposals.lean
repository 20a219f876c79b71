import Pocket.Analysis.Agreement
import Pocket.Analysis.LeaderPools
import Pocket.Analysis.ViewLeader

/-!
# Whose block a replica votes for

A replica takes the height, the previous hash and the proposer of a proposed block as they come:
`isValidMessageBlock` and `validateProposal` look at the state hash, at the step and at
certificates only, and a proposal is not signed.  `forged_proposal_voted` is a proposal that nobody
has sent, for another height and another chain, and gets a vote.

What the leader puts into a block is right, though.  In a run in which proposals come from honest
nodes (`OrderlyStep`) a replica votes for blocks of its leader only:

* every leader in office was elected with the `NewRound` messages of its height and round, so all
  nodes of a round have the same one, and no certificate in a leader's pool makes it propose an old
  block again (`InView`);
* every `Prepare` proposal in the log is therefore a new block of the leader of its round, with the
  header that `prepareBlock` writes (`Issued`).
-/

set_option autoImplicit false

namespace Pocket.Analysis

open Pocket.Model

/-! ## Leaders and certificates of a round -/

/-- The leader that a `NewRound` message elects. -/
def ElectedAt (net : Network) (height round leader : ℕ) : Prop :=
  electNextLeaderDeterministicRoundRobin (net.validators height) (newRoundMsg height round)
      = some leader
    ∧ ∃ addr, (newActorMapper (net.validators height)).idToValAddrMap leader = some addr

/-- No certificate among the pooled `NewRound` messages is of the node's height and round. -/
def PastCertificates (m : NodeState) : Prop :=
  ∀ pool, m.hotstuffMempool NewRound = some pool → ∀ x ∈ pool.messages,
    ∀ qc, x.getQuorumCertificate = some qc → shouldPrepareNewBlock m (some qc) = true

/-- What holds of every node of an orderly run. -/
structure InView (net : Network) (m : NodeState) : Prop where
  leader : ∀ leader, m.leaderId = some leader → ElectedAt net m.height m.round leader
  past : PastCertificates m

/-- A message that brings a certificate to a node that is about to lead. -/
def BringsPast (m : NodeState) (msg : HotstuffMessage) : Prop :=
  msg.step = NewRound → ∀ qc, msg.getQuorumCertificate = some qc →
    shouldPrepareNewBlock m (some qc) = true

variable {m m' : NodeState} {net : Network}

section InView

theorem shouldPrepareNewBlock_mono {qc : QuorumCertificate} (hheight : m'.height = m.height)
    (hround : m.round ≤ m'.round) (h : shouldPrepareNewBlock m (some qc) = true) :
    shouldPrepareNewBlock m' (some qc) = true := by
  simp only [shouldPrepareNewBlock, isPrepareQCFromPast, Bool.or_eq_true, decide_eq_true_eq,
    hheight] at h ⊢
  rcases h with (h | h) | h
  · exact .inl (.inl h)
  · exact .inl (.inr (by omega))
  · exact .inr h

theorem PastCertificates.mono (h : PastCertificates m)
    (hpool : m'.hotstuffMempool NewRound = m.hotstuffMempool NewRound)
    (hheight : m'.height = m.height) (hround : m.round ≤ m'.round) : PastCertificates m' := by
  intro pool hp x hx qc hqc
  have hold := h pool (hpool ▸ hp) x hx qc hqc
  exact shouldPrepareNewBlock_mono hheight hround hold

theorem InView.congr (h : InView net m)
    (hpool : m'.hotstuffMempool NewRound = m.hotstuffMempool NewRound)
    (hheight : m'.height = m.height) (hround : m'.round = m.round)
    (hleader : m'.leaderId = m.leaderId) : InView net m' := by
  refine ⟨fun leader hl => ?_, h.past.mono hpool hheight hround.ge⟩
  rw [hheight, hround]
  exact h.leader leader (hleader ▸ hl)

theorem pastCertificates_of_cleared (old : Option HotstuffFIFOMempool)
    (h : m.hotstuffMempool NewRound = old.map fun _ => {}) : PastCertificates m := by
  intro pool hpool x hx
  rw [h] at hpool
  obtain ⟨_, -, rfl⟩ := Option.map_eq_some_iff.mp hpool
  exact absurd hx List.not_mem_nil

theorem inView_atNewView (m : NodeState) : InView net m.atNewView := by
  refine ⟨fun leader hl => ?_, ?_⟩
  · exact absurd hl (by simp [NodeState.atNewView])
  · exact pastCertificates_of_cleared (m.hotstuffMempool NewRound) rfl

end InView

/-! ## The state after a message -/

/-- The state that is left, if there is one, is in view. -/
def LeavesInView (net : Network) (r : Result) : Prop := ∀ m, r.state = some m → InView net m

variable {r : Result} {vote p : HotstuffMessage} {cfg : NodeConfig} {P : Platform}
  {ledger : ℤ → String} {w : World} {e : NetworkEvent}

section Handlers

variable {env : Env} {msg : HotstuffMessage}

variable {out : List Output} {step : ℤ} {m₀ : NodeState}

theorem leavesInView_crashed : LeavesInView net ⟨none, out⟩ :=
  fun _ h => by cases h

theorem InView.leaves (h : InView net m) : LeavesInView net ⟨some m, out⟩ := by
  rintro _ ⟨rfl⟩
  exact h

theorem InView.leaves_congr (h : InView net m)
    (hpool : m'.hotstuffMempool NewRound = m.hotstuffMempool NewRound)
    (hheight : m'.height = m.height) (hround : m'.round = m.round)
    (hleader : m'.leaderId = m.leaderId) : LeavesInView net ⟨some m', out⟩ :=
  (h.congr hpool hheight hround hleader).leaves

theorem leavesInView_interruptRound (m : NodeState) : LeavesInView net (interruptRound cfg m) := by
  rw [interruptRound_eq]
  exact (inView_atNewView _).leaves

theorem leavesInView_of_commitOutcome {qc : QuorumCertificate} (h : CommitOutcome P cfg env qc m r) :
    LeavesInView net r := by
  cases h with
  | crashed => exact leavesInView_crashed
  | failed m₁ => exact leavesInView_interruptRound m₁
  | committed m₁ => exact (inView_atNewView _).leaves

theorem leavesInView_of_replicaStep (hm : InView net m) (h : ReplicaStep P cfg env m msg r) :
    LeavesInView net r := by
  cases h with
  | crashed => exact leavesInView_crashed
  | rejected => exact hm.leaves
  | refreshFailed | refreshed => exact hm.leaves_congr rfl rfl rfl rfl
  | interrupted uow => exact leavesInView_interruptRound _
  | votedPrepare block m₁ hs hblock hvalid hproposal happly =>
    obtain ⟨uow, rfl⟩ := snd_eq_of_eq happly (applyBlock_snd env block m)
    exact hm.leaves_congr rfl rfl rfl rfl
  | votedPreCommit qc | votedCommit qc => exact hm.leaves_congr rfl rfl rfl rfl
  | decided qc _ _ _ _ _ hr => exact leavesInView_of_commitOutcome hr

theorem PastCertificates.admits (hm : PastCertificates m) (hmsg : BringsPast m msg)
    (h : Admits P cfg env m msg m₀) : PastCertificates m₀ := by
  obtain ⟨pool, hpool, rfl⟩ := h.pushed
  by_cases hstep : msg.step = NewRound
  · intro p hp x hx qc hqc
    rw [hstep] at hpool
    simp only [hstep, Function.update_self, Option.some.injEq] at hp
    subst hp
    rcases HotstuffFIFOMempool.mem_push hx with rfl | hold
    · exact hmsg hstep qc hqc
    · exact hm pool hpool x hold qc hqc
  · have hne : NewRound ≠ msg.step := fun heq => hstep heq.symm
    exact hm.mono (Function.update_of_ne hne _ _) rfl le_rfl

theorem PastCertificates.settles (hm : PastCertificates m₀) (h : Settles msg m₀ m') :
    PastCertificates m' := by
  intro pool hpool x hx qc hqc
  rcases h.rest with hempty | ⟨hheight, hround, -⟩
  · rw [hempty NewRound pool hpool] at hx
    exact absurd hx List.not_mem_nil
  · have hold := hm pool (h.pools.mem hpool hx) x hx qc hqc
    exact shouldPrepareNewBlock_mono hheight hround.ge hold

theorem leavesInView_leaderHandlers (hm : InView net m) (hmsg : BringsPast m msg)
    (hstep : m.step = msg.step) : LeavesInView net (leaderHandlers P cfg env msg.step m msg) := by
  intro m' hm'
  obtain ⟨m₀, hm₀, hsettles⟩ := leaderHandlers_settles hstep hm'
  have hpast : PastCertificates m₀ := by
    rcases hm₀ with rfl | hadmits
    · exact hm.past
    · exact hm.past.admits hmsg hadmits
  refine ⟨fun leader hl => ?_, hpast.settles hsettles⟩
  have hview := viewStep_leaderStep (leaderHandlers_step P cfg env m msg) hm'
  rcases hview.keepsLeader with hnone | ⟨hleader, hheight, hround⟩
  · rw [hnone] at hl
    cases hl
  · rw [hheight, hround]
    exact hm.leader leader (hleader ▸ hl)

end Handlers

/-! ## Orderly runs -/

/-- The condition on an event.  All nodes read the same validators and the same hashes of committed
blocks, and nobody uses the id of another validator.  A `Prepare` proposal that is delivered was
broadcast by an honest node; messages of the later steps reach a node that has entered their round;
and a `NewRound` message brings no certificate of its own round or a later one. -/
structure OrderlyStep (net : Network) (ledger : ℤ → String) (w : World) (e : NetworkEvent) :
    Prop where
  validators : ∀ height vals, e.env.getValidatorsAtHeight height = some vals →
    vals = net.validators height
  blockHash : ∀ height hash, e.env.getBlockHash height = some hash → hash = ledger height
  identity : ∀ cfg m addr, net.config e.addr = some cfg → w.node e.addr = some m →
    (newActorMapper (net.validators m.height)).idToValAddrMap cfg.nodeId = some addr →
    addr = e.addr
  sent : ∀ msg, e.event = .message msg → msg.type = Propose → msg.step = Prepare →
    ∃ addr, (addr, Output.broadcast msg) ∈ w.log
  entered : ∀ msg m, e.event = .message msg → w.node e.addr = some m → msg.height = m.height →
    msg.step ≠ NewRound →
    msg.round < m.round ∨ (msg.round = m.round ∧ m.leaderId.isSome = true)
  past : ∀ msg qc, e.event = .message msg → msg.step = NewRound →
    msg.getQuorumCertificate = some qc →
    qc.height < msg.height ∨ qc.round < msg.round ∨ qc.block = none

section Position

variable {m₁ : NodeState} {msg : HotstuffMessage} {ok : Bool}

section

variable (he : OrderlyStep net ledger w e)
include he

theorem inView_electNextLeader (hm : PastCertificates m) (hstep : msg.step = NewRound)
    (hheight : msg.height = m.height) (hround : msg.round = m.round) :
    InView net (electNextLeader e.env msg m).2 := by
  rcases electNextLeader_cases e.env msg m with
    ⟨c, hnone, -⟩ | ⟨leader, vals, validators, addr, hsome, hvals, helected, hvalidators, haddr⟩
  · rw [hnone]
    exact ⟨fun leader hl => (by cases hl), hm.mono rfl rfl le_rfl⟩
  rw [hsome]
  refine ⟨fun leader' hl => ?_, hm.mono rfl rfl le_rfl⟩
  obtain rfl : leader = leader' := Option.some.inj hl
  obtain rfl := he.validators _ _ hvals
  obtain rfl := he.validators _ _ hvalidators
  -- the election reads nothing else of the message
  have hsame : electNextLeaderDeterministicRoundRobin (net.validators msg.height) msg
      = electNextLeaderDeterministicRoundRobin (net.validators m.height)
          (newRoundMsg m.height m.round) := by
    simp only [electNextLeaderDeterministicRoundRobin, newRoundMsg, hstep, hheight, hround]
  exact ⟨hsame ▸ helected, addr, haddr⟩

theorem newRound_of_elects (hmsg : e.event = .message msg) (hnode : w.node e.addr = some m)
    (helects : Elects cfg m msg) : msg.step = NewRound := by
  obtain ⟨⟨hheight, -, hpast⟩, hunset, -⟩ := helects
  by_contra hne
  rcases he.entered msg m hmsg hnode hheight hne with hlt | ⟨hsame, hset⟩
  · exact hpast (.inl hlt)
  · rw [hunset.resolve_left fun hround => hround hsame.symm] at hset
    cases hset

theorem inView_positionForMessage (hmsg : e.event = .message msg) (hnode : w.node e.addr = some m)
    (hm : InView net m) (h : positionForMessage cfg e.env m msg = some (ok, m₁)) :
    InView net m₁ := by
  obtain ⟨step, hmoved, -⟩ := movedTo_eq m msg
  rcases positionForMessage_cases h with
    ⟨-, -, rfl⟩ | ⟨hconsidered, hnot, -, rfl⟩ | ⟨helects, c, helect, -⟩
  · exact hm
  · have hround : msg.round = m.round := by
      by_contra hne
      exact hnot ⟨hconsidered, .inl fun heq => hne heq.symm, fun hat => absurd hat.2 hne⟩
    rw [hmoved]
    exact hm.congr rfl rfl hround rfl
  · have hround : m.round ≤ msg.round := by
      have hpast := helects.1.2.2
      omega
    have hcaught : PastCertificates (movedTo m msg) := by
      rw [hmoved]
      exact hm.past.mono rfl rfl hround
    have helected := inView_electNextLeader he hcaught (newRound_of_elects he hmsg hnode helects)
      (by rw [hmoved]; exact helects.1.1) (by rw [hmoved])
    rwa [helect] at helected

theorem bringsPast_of_reached (hmsg : e.event = .message msg) (hreached : Reached msg m m₁) :
    BringsPast m₁ msg := by
  intro hstep qc hqc
  obtain ⟨step, leader, rfl, -, -⟩ := hreached.state
  have hpast := he.past msg qc hmsg hstep hqc
  rw [hreached.height] at hpast
  simpa [shouldPrepareNewBlock, isPrepareQCFromPast, or_assoc] using hpast

/-- **An event leaves a node in view.** -/
theorem leavesInView_handleEvent (hnode : w.node e.addr = some m) (hm : InView net m) :
    LeavesInView net (handleEvent net.platform cfg e.env m e.event) := by
  cases hevent : e.event with
  | timeout => exact leavesInView_interruptRound m
  | message msg =>
    show LeavesInView net (handleHotstuffMessage net.platform cfg e.env m msg)
    rcases handleHotstuffMessage_cases net.platform cfg e.env m msg with
      hend | ⟨m₁, hpos, -, hr⟩ | ⟨m₁, hr⟩
    · rw [hend]
      exact leavesInView_crashed
    · rw [hr]
      exact (inView_positionForMessage he hevent hnode hm hpos).leaves
    · have hm₁ := inView_positionForMessage he hevent hnode hm hr.position
      rw [hr.result]
      split
      · exact leavesInView_leaderHandlers hm₁ (bringsPast_of_reached he hevent hr.reached) hr.step_eq
      · exact leavesInView_of_replicaStep hm₁ (replicaHandlers_step _ cfg e.env m₁ msg)

end

end Position

/-! ## What is proposed -/

/-- The message is broadcast as a `Prepare` proposal. -/
def ProposesPrepare (out : List Output) (p : HotstuffMessage) : Prop :=
  Output.broadcast p ∈ out ∧ p.step = Prepare

section Proposals

variable {env : Env} {msg : HotstuffMessage}

theorem not_proposesPrepare_nil : ¬ ProposesPrepare [] p := fun h => List.not_mem_nil h.1

variable {qc : Option QuorumCertificate} {step : ℤ} {body : NodeState → Result}

theorem not_proposesPrepare_viewMessages :
    ¬ ProposesPrepare (viewMessages cfg m qc) p := by
  rintro ⟨hmem, hstep⟩
  unfold viewMessages at hmem
  split at hmem
  · exact List.not_mem_nil hmem
  · obtain rfl := Output.broadcast.inj (List.mem_singleton.mp hmem)
    have hview : (newRoundMessage m qc).step ≠ Prepare := by
      show NewRound ≠ Prepare
      decide
    exact hview hstep

theorem not_proposesPrepare_sendVote : ¬ ProposesPrepare (sendVote P cfg m step) p := by
  rintro ⟨hmem, -⟩
  unfold sendVote sendToLeader at hmem
  repeat' split at hmem
  all_goals simp at hmem

theorem not_proposesPrepare_interruptRound : ¬ ProposesPrepare (interruptRound cfg m).out p := by
  rw [interruptRound_eq]
  exact not_proposesPrepare_viewMessages

theorem not_proposesPrepare_of_commitOutcome {qc : QuorumCertificate}
    (h : CommitOutcome P cfg env qc m r) : ¬ ProposesPrepare r.out p := by
  cases h with
  | crashed => exact not_proposesPrepare_nil
  | failed m₁ => exact not_proposesPrepare_interruptRound
  | committed m₁ block uow =>
    rintro ⟨hmem, hstep⟩
    rcases List.mem_cons.mp hmem with heq | hmem
    · cases heq
    · exact not_proposesPrepare_viewMessages ⟨hmem, hstep⟩

theorem not_proposesPrepare_of_replicaStep (h : ReplicaStep P cfg env m msg r) :
    ¬ ProposesPrepare r.out p := by
  cases h with
  | crashed | rejected | refreshFailed | refreshed => exact not_proposesPrepare_nil
  | interrupted uow => exact not_proposesPrepare_interruptRound
  | votedPrepare block m₁ =>
    show ¬ ProposesPrepare (sendVote P cfg (m₁.accepting block) Prepare) p
    exact not_proposesPrepare_sendVote
  | votedPreCommit qc | votedCommit qc => exact not_proposesPrepare_sendVote
  | decided qc _ _ _ _ _ hr => exact not_proposesPrepare_of_commitOutcome hr

open HotstuffLeaderMessageHandler

theorem not_proposesPrepare_propose {qc : QuorumCertificate} {body : Result}
    (hstep : step ≠ Prepare) (hbody : ¬ ProposesPrepare body.out p) :
    ¬ ProposesPrepare (propose cfg step (some qc) m body).out p := by
  unfold propose
  cases hblock : m.block with
  | none => exact not_proposesPrepare_interruptRound
  | some block =>
    rintro ⟨hmem, hp⟩
    rcases List.mem_cons.mp hmem with heq | hmem
    · obtain rfl := Output.broadcast.inj heq
      exact hstep hp
    · exact hbody ⟨hmem, hp⟩

theorem proposesPrepare_of_anteHandle (h : ProposesPrepare (anteHandle P cfg env m msg body).out p) :
    ∃ m₀, Admits P cfg env m msg m₀ ∧ ProposesPrepare (body m₀).out p := by
  unfold anteHandle at h
  split at h
  · exact absurd h not_proposesPrepare_nil
  · exact absurd h not_proposesPrepare_nil
  rename_i hvalid
  split at h
  · rename_i hsigned
    split at h
    · exact absurd h not_proposesPrepare_nil
    · exact absurd h not_proposesPrepare_nil
    · rename_i m₀ hindex
      exact ⟨m₀, ⟨hvalid, hsigned, hindex⟩, h⟩
  · exact absurd h not_proposesPrepare_nil

theorem proposesPrepare_of_whenEnough
    (h : ProposesPrepare (whenEnough P cfg env step m msg body).out p) :
    ∃ m₀, Admits P cfg env m msg m₀ ∧ ProposesPrepare (body m₀).out p := by
  obtain ⟨m₀, hadmits, hbody⟩ := proposesPrepare_of_anteHandle h
  split at hbody
  · exact ⟨m₀, hadmits, hbody⟩
  · exact absurd hbody not_proposesPrepare_nil

theorem not_proposesPrepare_assembled {next : QuorumCertificate → NodeState → Result}
    (hnext : ∀ qc m₁, ¬ ProposesPrepare (next qc m₁).out p) :
    ¬ ProposesPrepare (whenEnough P cfg env step m msg (assembled P env step next)).out p := by
  intro h
  obtain ⟨m₀, -, h⟩ := proposesPrepare_of_whenEnough h
  unfold assembled at h
  split at h
  · exact not_proposesPrepare_nil h
  · exact not_proposesPrepare_nil h
  · exact hnext _ _ h

/-- The message proposes the block in the round of the state. -/
structure ProposalOf (m : NodeState) (block : Block) (p : HotstuffMessage) : Prop where
  height : p.height = m.height
  round : p.round = m.round
  block_eq : p.block = some block

theorem proposalOf_proposePrepare {block : Block}
    (h : ProposesPrepare (proposePrepare P cfg qc block m).out p) : ProposalOf m block p := by
  have hvote : ¬ ProposesPrepare (sendVote P cfg (m.proposing block) Prepare) p :=
    not_proposesPrepare_sendVote
  obtain ⟨hmem, hstep⟩ := h
  cases qc with
  | none | some qc =>
    rcases List.mem_cons.mp hmem with heq | hmem
    · obtain rfl := Output.broadcast.inj heq
      exact ⟨rfl, rfl, rfl⟩
    · exact absurd ⟨hmem, hstep⟩ hvote

theorem exists_of_findHighQC {msgs : List HotstuffMessage} {qc : QuorumCertificate}
    (h : findHighQC msgs = some qc) : ∃ x ∈ msgs, x.getQuorumCertificate = some qc := by
  -- along the loop: the candidate is the certificate of one of the messages
  revert h
  refine List.foldlRecOn (motive := fun held => held = some qc →
    ∃ x ∈ msgs, x.getQuorumCertificate = some qc) msgs _ ?_ ?_
  · intro h
    cases h
  · intro held hheld x hx hnext
    cases hqc : x.getQuorumCertificate with
    | none =>
      simp only [hqc] at hnext
      exact hheld hnext
    | some mqc =>
      simp only [hqc] at hnext
      split at hnext
      · exact ⟨x, hx, hqc.trans hnext⟩
      split at hnext
      · exact ⟨x, hx, hqc.trans hnext⟩
      · exact hheld hnext

theorem shouldPrepareNewBlock_of_past (hm : PastCertificates m) :
    shouldPrepareNewBlock m (findHighQC ((m.hotstuffMempool NewRound).elim [] (·.messages)))
      = true := by
  cases hqc : findHighQC ((m.hotstuffMempool NewRound).elim [] (·.messages)) with
  | none => rfl
  | some qc =>
    obtain ⟨x, hx, hxqc⟩ := exists_of_findHighQC hqc
    cases hpool : m.hotstuffMempool NewRound with
    | none =>
      rw [hpool] at hx
      exact absurd hx List.not_mem_nil
    | some pool =>
      rw [hpool] at hx
      exact hm pool hpool x hx qc hxqc

/-- The block has the header that `prepareBlock` writes at the node's height. -/
def PreparedBy (cfg : NodeConfig) (env : Env) (height : ℕ) (block : Block) : Prop :=
  ∃ header, block.blockHeader = some header ∧ header.height = height
    ∧ env.getBlockHash (int64 height - 1) = some header.prevStateHash
    ∧ header.proposerAddress = cfg.addressBytes

theorem preparedBy_of_prepareBlock {block : Block}
    (h : prepareBlock P cfg env qc m = (.ok block, m')) : PreparedBy cfg env m.height block := by
  unfold prepareBlock at h
  split at h
  swap
  · simp at h
  split at h
  · simp at h
  split at h
  swap
  · simp at h
  split at h
  · simp at h
  · simp at h
  split at h
  · simp at h
  rename_i prevBlockHash hprev
  simp only [Prod.mk.injEq, Call.ok.injEq] at h
  rw [← h.1]
  exact ⟨_, rfl, rfl, hprev, rfl⟩

theorem preparedBy_of_handleNewRoundMessage (hm : PastCertificates m) (hmsg : BringsPast m msg)
    (h : ProposesPrepare (handleNewRoundMessage P cfg env m msg).out p) :
    ∃ block, ProposalOf m block p ∧ PreparedBy cfg env m.height block := by
  obtain ⟨m₀, hadmits, h⟩ := proposesPrepare_of_whenEnough h
  have hm₀ := hm.admits hmsg hadmits
  obtain ⟨pools, rfl, -⟩ := indexHotstuffMessage_snd hadmits.indexed
  unfold newRoundBody at h
  split at h
  swap
  · exact absurd h not_proposesPrepare_nil
  rename_i m₁ hrefresh
  obtain rfl := refreshUtilityUnitOfWork_ok cfg env hrefresh
  have hnew := shouldPrepareNewBlock_of_past (hm₀.mono rfl rfl le_rfl :
    PastCertificates { m with
      hotstuffMempool := pools
      utilityUnitOfWork := some (newUnitOfWork cfg { m with hotstuffMempool := pools }) })
  simp only at h hnew
  split at h
  · rename_i hold
    exact absurd (hnew.symm.trans hold) (by decide)
  split at h
  · exact absurd h not_proposesPrepare_nil
  · exact absurd h not_proposesPrepare_interruptRound
  rename_i block m₂ hprepare
  have hprepared := preparedBy_of_prepareBlock hprepare
  obtain ⟨uow, rfl⟩ := snd_eq_of_eq hprepare (prepareBlock_snd P cfg env _ _)
  obtain ⟨hheight, hround, hblock⟩ := proposalOf_proposePrepare h
  exact ⟨block, ⟨hheight, hround, hblock⟩, hprepared⟩

theorem preparedBy_of_leaderHandlers (hm : PastCertificates m) (hmsg : BringsPast m msg)
    (h : ProposesPrepare (leaderHandlers P cfg env msg.step m msg).out p) :
    ∃ block, ProposalOf m block p ∧ PreparedBy cfg env m.height block := by
  unfold leaderHandlers at h
  split at h
  · exact preparedBy_of_handleNewRoundMessage hm hmsg h
  split at h
  · refine absurd h (not_proposesPrepare_assembled fun qc m₁ => ?_)
    exact not_proposesPrepare_propose (by decide) not_proposesPrepare_sendVote
  split at h
  · refine absurd h (not_proposesPrepare_assembled fun qc m₁ => ?_)
    exact not_proposesPrepare_propose (by decide) not_proposesPrepare_sendVote
  split at h
  · refine absurd h (not_proposesPrepare_assembled fun qc m₁ => ?_)
    have hcommit := commitAndAdvance_outcome P cfg env qc m₁.certifiedCommit
    exact not_proposesPrepare_propose (by decide) (not_proposesPrepare_of_commitOutcome hcommit)
  split at h
  · obtain ⟨m₀, -, h⟩ := proposesPrepare_of_anteHandle h
    exact absurd h not_proposesPrepare_nil
  · exact absurd h not_proposesPrepare_nil

end Proposals

/-! ## Every run -/

/-- The proposal is the validator's own, made as the leader of its round. -/
def Issued (net : Network) (ledger : ℤ → String) (addr : String) (p : HotstuffMessage) : Prop :=
  ∃ cfg block header leader, net.config addr = some cfg ∧ p.block = some block
    ∧ block.blockHeader = some header ∧ header.height = p.height
    ∧ header.prevStateHash = ledger (int64 p.height - 1)
    ∧ header.proposerAddress = cfg.addressBytes
    ∧ ElectedAt net p.height p.round leader
    ∧ (newActorMapper (net.validators p.height)).idToValAddrMap leader = some addr

/-- What holds in every state of an orderly run. -/
structure WorldInView (net : Network) (ledger : ℤ → String) (w : World) : Prop where
  nodes : ∀ addr m, w.node addr = some m → InView net m
  issued : ∀ addr p, (addr, Output.broadcast p) ∈ w.log → p.step = Prepare →
    Issued net ledger addr p

section World

theorem issued_of_handleEvent (he : OrderlyStep net ledger w e)
    (hcfg : net.config e.addr = some cfg) (hnode : w.node e.addr = some m) (hm : InView net m)
    (h : ProposesPrepare (handleEvent net.platform cfg e.env m e.event).out p) :
    Issued net ledger e.addr p := by
  cases hevent : e.event with
  | timeout =>
    rw [hevent] at h
    exact absurd h not_proposesPrepare_interruptRound
  | message msg =>
    rw [hevent] at h
    replace h : ProposesPrepare (handleHotstuffMessage net.platform cfg e.env m msg).out p := h
    unfold handleHotstuffMessage at h
    split at h
    · exact absurd h not_proposesPrepare_nil
    · exact absurd h not_proposesPrepare_nil
    rename_i m₁ hpos
    have hm₁ := inView_positionForMessage he hevent hnode hm hpos
    have hreached := positionForMessage_true cfg e.env hpos
    split at h
    swap
    · exact absurd h (not_proposesPrepare_of_replicaStep (replicaHandlers_step _ cfg e.env m₁ msg))
    rename_i hlead
    have hbrings := bringsPast_of_reached he hevent hreached
    obtain ⟨block, hp, header, hheader, hheight, hprev, hproposer⟩ :=
      preparedBy_of_leaderHandlers hm₁.past hbrings h
    have hself : m₁.leaderId = some cfg.nodeId := by simpa [isLeader] using hlead
    obtain ⟨helected, addr, haddr⟩ := hm₁.leader cfg.nodeId hself
    have hm₁height : m₁.height = m.height := by
      obtain ⟨step, leader, rfl, -⟩ := hreached.state
      rfl
    obtain rfl : addr = e.addr := he.identity cfg m addr hcfg hnode (hm₁height ▸ haddr)
    refine ⟨cfg, block, header, cfg.nodeId, hcfg, hp.block_eq, hheader, ?_, ?_, hproposer, ?_, ?_⟩
    · rw [hheight, hp.height]
    · rw [he.blockHash _ _ hprev, hp.height]
    · rw [hp.height, hp.round]
      exact ⟨helected, e.addr, haddr⟩
    · rw [hp.height]
      exact haddr

theorem worldInView_step (hw : WorldInView net ledger w) (he : OrderlyStep net ledger w e) :
    WorldInView net ledger (w.step net e) := by
  cases hcfg : net.config e.addr with
  | none =>
    rw [World.step_idle (.inl hcfg)]
    exact hw
  | some cfg =>
    cases hnode : w.node e.addr with
    | none =>
      rw [World.step_idle (.inr hnode)]
      exact hw
    | some m =>
      have hm := hw.nodes e.addr m hnode
      rw [World.step_running hcfg hnode]
      refine ⟨fun addr m' hm' => ?_, fun addr p hp hstep => ?_⟩
      · by_cases haddr : addr = e.addr
        · subst haddr
          simp only [Function.update_self] at hm'
          exact leavesInView_handleEvent he hnode hm m' hm'
        · simp only [Function.update_of_ne haddr] at hm'
          exact hw.nodes addr m' hm'
      · rcases List.mem_append.mp hp with hold | hnew
        · exact hw.issued addr p hold hstep
        · obtain ⟨o, ho, heq⟩ := List.mem_map.mp hnew
          obtain ⟨rfl, rfl⟩ := Prod.mk.inj heq
          exact issued_of_handleEvent he hcfg hnode hm ⟨ho, hstep⟩

theorem worldInView_start (heights : String → ℕ) :
    WorldInView net ledger (World.start heights) := by
  refine ⟨?_, fun addr p hp => absurd hp List.not_mem_nil⟩
  rintro addr _ ⟨rfl⟩
  refine ⟨fun leader hl => (nomatch hl), fun pool hpool x hx => ?_⟩
  obtain rfl : ({} : HotstuffFIFOMempool) = pool := Option.some.inj hpool
  exact absurd hx List.not_mem_nil

end World

/-- The block is well formed at the node's height, and the proposal that brought it is one that
the validator with the leader's id has broadcast. -/
def IsLeadersBlock (net : Network) (env : Env) (w : World) (m : NodeState) (leader : ℕ)
    (proposal : HotstuffMessage) (block : Block) : Prop :=
  ∃ header addr cfg, block.blockHeader = some header ∧ header.height = m.height
    ∧ (∀ hash, env.getBlockHash (int64 m.height - 1) = some hash → header.prevStateHash = hash)
    ∧ (newActorMapper (net.validators m.height)).idToValAddrMap leader = some addr
    ∧ net.config addr = some cfg ∧ header.proposerAddress = cfg.addressBytes
    ∧ (addr, Output.broadcast proposal) ∈ w.log

theorem leaderId_of_mem_sendVote {step : ℤ} {leader : ℕ}
    (h : Output.sendToLeader leader vote ∈ sendVote P cfg m step) :
    m.leaderId = some leader ∧ vote.step = step ∧ vote.block = m.block := by
  have hvote : vote ∈ votesSent (sendVote P cfg m step) :=
    List.mem_filterMap.mpr ⟨_, h, rfl⟩
  obtain ⟨-, -, -, hstep, hblock, -⟩ := mem_votesSent_sendVote P cfg hvote
  refine ⟨?_, hstep, hblock⟩
  unfold sendVote sendToLeader at h
  split at h
  · exact absurd h List.not_mem_nil
  split at h
  · exact absurd h List.not_mem_nil
  · rename_i leader' hleader
    obtain ⟨rfl, -⟩ := Output.sendToLeader.inj (List.mem_singleton.mp h)
    exact hleader

theorem proposal_of_prepareVote {env : Env} {msg : HotstuffMessage} {leader : ℕ}
    (hstep : msg.step = Prepare)
    (hvote : Output.sendToLeader leader vote ∈ (handleHotstuffMessage P cfg env m msg).out)
    (hprepare : vote.step = Prepare) :
    ∃ m₁ block, positionForMessage cfg env m msg = some (true, m₁) ∧ m₁.leaderId = some leader
      ∧ msg.type = Propose ∧ msg.block = some block ∧ vote.block = some block := by
  have hother : ∀ {m' : NodeState} {step : ℤ}, step ≠ Prepare →
      Output.sendToLeader leader vote ∉ sendVote P cfg m' step := by
    intro m' step hne hmem
    obtain ⟨-, hs, -⟩ := leaderId_of_mem_sendVote hmem
    exact hne (hs.symm.trans hprepare)
  have hview : ∀ {m' : NodeState} {qc : Option QuorumCertificate},
      Output.sendToLeader leader vote ∉ viewMessages cfg m' qc := by
    intro m' qc hmem
    unfold viewMessages at hmem
    split at hmem <;> simp at hmem
  have hmsg := handleHotstuffMessage_step P cfg env m msg
  generalize handleHotstuffMessage P cfg env m msg = r at hmsg hvote
  cases hmsg with
  | crashed | dropped m₁ => exact absurd hvote List.not_mem_nil
  | asLeader m₁ _ hpos hreach hs hlead h =>
    have hround : ∀ {m' : NodeState},
        Output.sendToLeader leader vote ∉ (interruptRound cfg m').out := by
      intro m' hmem
      rw [interruptRound_eq] at hmem
      exact hview hmem
    cases h with
    | crashed | waiting | refreshFailed => exact absurd hvote List.not_mem_nil
    | abandoned => exact absurd hvote hround
    | proposed _ _ _ _ _ hnew => exact absurd (hnew.symm.trans hstep) (by decide)
    | certifiedPrepare m₀ m₂ qc _ _ _ _ hr =>
      rcases hr with ⟨-, rfl⟩ | ⟨proposal, rfl⟩
      · exact absurd hvote hround
      · rcases List.mem_cons.mp hvote with heq | hmem
        · cases heq
        · exact absurd hmem (hother (by decide))
    | certifiedPreCommit _ _ _ _ hs' | certifiedCommit _ _ _ _ hs' =>
      exact absurd (hs'.symm.trans hstep) (by decide)
  | asReplica m₁ _ hpos hreach hs hlead h =>
    cases h with
    | crashed | rejected | refreshFailed | refreshed => exact absurd hvote List.not_mem_nil
    | interrupted uow =>
      rw [interruptRound_eq] at hvote
      exact absurd hvote hview
    | votedPrepare block m₂ hs' hblock hvalid hproposal happly =>
      obtain ⟨uow, rfl⟩ := snd_eq_of_eq happly (applyBlock_snd env block m₁)
      replace hvote : Output.sendToLeader leader vote ∈
          sendVote P cfg ({ m₁ with utilityUnitOfWork := uow }.accepting block) Prepare := hvote
      obtain ⟨hleader, -, hvoted⟩ := leaderId_of_mem_sendVote hvote
      have htype : msg.type = Propose := by
        by_contra hne
        simp [validateProposal, hne] at hproposal
      exact ⟨m₁, block, hpos, hleader, htype, hblock, hvoted⟩
    | votedPreCommit _ hs' | votedCommit _ hs' | decided _ _ hs' =>
      exact absurd (hs'.symm.trans hstep) (by decide)

/-- SOURCE: consensus/hotstuff_replica.go:47-77, 196-261, consensus/block.go:39-74,
consensus/hotstuff_leader.go:384-444 — **replicas vote for the leader's block.**  In every state
that an orderly run reaches, a `Prepare` vote with which a replica answers a proposal is for a well
formed block of its leader. -/
theorem prepare_vote_is_for_leaders_block (net : Network) (ledger : ℤ → String)
    (heights : String → ℕ) (events : List NetworkEvent) (e : NetworkEvent) (cfg : NodeConfig)
    (m : NodeState) (msg vote : HotstuffMessage) (leader : ℕ)
    (hrun : Runs.Guarded (World.step net) (OrderlyStep net ledger) (World.start heights) events)
    (he : OrderlyStep net ledger (Runs.run (World.step net) (World.start heights) events) e)
    (hnode : (Runs.run (World.step net) (World.start heights) events).node e.addr = some m)
    (hmsg : e.event = .message msg) (hstep : msg.step = Prepare)
    (hvote : Output.sendToLeader leader vote ∈ (handleEvent net.platform cfg e.env m (.message
      msg)).out) (hprepare : vote.step = Prepare) :
    ∃ block, msg.block = some block ∧ vote.block = some block
      ∧ IsLeadersBlock net e.env (Runs.run (World.step net) (World.start heights) events) m leader
          msg block := by
  have hinv : WorldInView net ledger (Runs.run (World.step net) (World.start heights) events) :=
    Runs.invariant_run (fun w e hw he => worldInView_step hw he) (worldInView_start heights) hrun
  obtain ⟨m₁, block, hpos, hleader, htype, hblock, hvoted⟩ :=
    proposal_of_prepareVote hstep hvote hprepare
  have hm₁ := inView_positionForMessage he hmsg hnode (hinv.nodes e.addr m hnode) hpos
  have hreached := positionForMessage_true cfg e.env hpos
  obtain ⟨addr, hsent⟩ := he.sent msg hmsg htype hstep
  obtain ⟨cfg', block', header, leader', hcfg', hblock', hheader, hheight, hprev, hproposer,
    helected, haddr⟩ := hinv.issued addr msg hsent hstep
  obtain rfl : block = block' := Option.some.inj (hblock.symm.trans hblock')
  -- replica and proposer have elected the leader of the same round
  have hsame : leader' = leader := by
    have hmine := (hm₁.leader leader hleader).1
    obtain ⟨step, _, rfl, -⟩ := hreached.state
    rw [hreached.height] at helected
    exact Option.some.inj (helected.1.symm.trans hmine)
  subst hsame
  rw [hreached.height] at hheight hprev haddr
  refine ⟨block, hblock, hvoted, header, addr, cfg', hheader, hheight, ?_, haddr, hcfg', hproposer,
    hsent⟩
  intro hash hhash
  rw [hprev]
  exact (he.blockHash _ _ hhash).symm

/-! ## Four validators -/

/-- A block for another height, on another chain, of a proposer that is no validator. -/
def forgedBlock : Block where
  blockHeader := some
    { height := 7, networkId := "", stateHash := "s", prevStateHash := "forged"
      proposerAddress := [9], quorumCertificate := [], timestamp := none }
  transactions := []

/-- A replica that waits for the proposal of validator 2 votes for a block that nobody has
proposed. -/
theorem forged_proposal_voted :
    let w := Runs.run (World.step (fourNetwork [])) (World.start fun _ => 1)
      [delivered ("a1", newRoundMsg 1 0)]
    ∃ m vote, w.node "a1" = some m ∧ vote.step = Prepare ∧ vote.block = some forgedBlock
      ∧ Output.sendToLeader 2 vote ∈ (handleEvent (fourNetwork []).platform (fourConfig 1 "a1")
          (fourEnv "s") m (.message (prepareMsg 1 0 forgedBlock))).out
      ∧ ¬ IsLeadersBlock (fourNetwork []) (fourEnv "s") w m 2 (prepareMsg 1 0 forgedBlock)
          forgedBlock := by
  refine ⟨_, { prepareMsg 1 0 forgedBlock with
    type := Vote, justification := .partialSignature ⟨[], "a1"⟩ }, rfl, rfl, rfl, by decide, ?_⟩
  rintro ⟨header, addr, cfg, hheader, hheight, -⟩
  obtain rfl := Option.some.inj hheader
  exact absurd hheight (by decide)

/-- Whether a delivery is orderly in the network of the four validators. -/
def orderlyDelivery (w : World) (delivery : String × HotstuffMessage) : Bool :=
  let msg := delivery.2
  (msg.step != Prepare || w.log.any fun entry => entry.2 == .broadcast msg)
    && (w.node delivery.1).all (fun m => msg.step == NewRound
      || msg.round == m.round && m.leaderId.isSome)
    && (msg.step != NewRound || msg.getQuorumCertificate.isNone)

theorem orderlyStep_of_delivery {delivery : String × HotstuffMessage}
    (h : orderlyDelivery w delivery = true) :
    OrderlyStep (fourNetwork []) (fun _ => "previous") w (delivered delivery) := by
  simp only [orderlyDelivery, Bool.and_eq_true, Bool.or_eq_true, bne_iff_ne, ne_eq,
    List.any_eq_true, beq_iff_eq, Option.isNone_iff_eq_none] at h
  obtain ⟨⟨hsent, hentered⟩, hpast⟩ := h
  refine ⟨?_, ?_, ?_, ?_, ?_, ?_⟩
  · intro height vals hvals
    exact (Option.some.inj hvals).symm
  · intro height hash hhash
    exact (Option.some.inj hhash).symm
  · intro cfg m addr hcfg _ haddr
    simp only [fourNetwork] at hcfg
    split_ifs at hcfg with heq heq heq
    all_goals
      obtain rfl := Option.some.inj hcfg
      exact (Option.some.inj haddr).symm.trans heq.symm
  · rintro msg ⟨rfl⟩ _ hstep
    rcases hsent with hne | ⟨⟨addr, out⟩, hmem, hout⟩
    · exact absurd hstep hne
    · exact ⟨addr, hout ▸ hmem⟩
  · rintro msg m ⟨rfl⟩ hnode _ hstep
    rw [show w.node delivery.1 = some m from hnode] at hentered
    simp only [Option.all_some, Bool.or_eq_true, beq_iff_eq, Bool.and_eq_true] at hentered
    rcases hentered with hnew | hsame
    · exact absurd hnew hstep
    · exact .inr hsame
  · rintro msg qc ⟨rfl⟩ hstep hqc
    rcases hpast with hne | hnone
    · exact absurd hstep hne
    · rw [hnone] at hqc
      cases hqc

/-- Validator 2 gathers three `NewRound` messages and proposes; replica 1 has entered the round. -/
def proposalDeliveries : List (String × HotstuffMessage) :=
  [("a2", newRoundMsg 1 0), ("a2", newRoundMsg 1 0), ("a2", newRoundMsg 1 0),
    ("a1", newRoundMsg 1 0)]

/-- The replica votes for the block that validator 2 has prepared. -/
theorem honest_proposal_voted :
    let w := Runs.run (World.step (fourNetwork [])) (World.start fun _ => 1)
      (proposalDeliveries.map delivered)
    let proposal := prepareMsg 1 0 (plainBlock 1 "s" "previous")
    ∃ m, w.node "a1" = some m ∧ ∃ block, proposal.block = some block
      ∧ IsLeadersBlock (fourNetwork []) (fourEnv "s") w m 2 proposal block := by
  have hguarded : Runs.Guarded (World.step (fourNetwork []))
      (OrderlyStep (fourNetwork []) fun _ => "previous") (World.start fun _ => 1)
      (proposalDeliveries.map delivered) :=
    ⟨orderlyStep_of_delivery (by decide), orderlyStep_of_delivery (by decide),
      orderlyStep_of_delivery (by decide), orderlyStep_of_delivery (by decide), trivial⟩
  refine ⟨_, rfl, ?_⟩
  obtain ⟨block, hblock, -, hleaders⟩ := prepare_vote_is_for_leaders_block (fourNetwork [])
    (fun _ => "previous") (fun _ => 1) (proposalDeliveries.map delivered)
    (delivered ("a1", prepareMsg 1 0 (plainBlock 1 "s" "previous"))) (fourConfig 1 "a1") _
    (prepareMsg 1 0 (plainBlock 1 "s" "previous"))
    { prepareMsg 1 0 (plainBlock 1 "s" "previous") with
      type := Vote, justification := .partialSignature ⟨[], "a1"⟩ } 2
    hguarded (orderlyStep_of_delivery (by decide)) rfl rfl rfl (by decide) rfl
  exact ⟨block, hblock, hleaders⟩

end Pocket.Analysis
