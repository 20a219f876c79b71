import Pocket.Analysis.CommitApplied
import Pocket.Analysis.LockedNode

/-!
# Agreement

No two honest nodes commit different blocks at one height, in every run of the network in
which each event meets `eventSafe`.  Without that condition the nodes can disagree:
`forged_quorum_forks` is a run in which one byzantine validator out of four makes two
honest nodes commit different blocks.

The network's votes form a log of `LockedVoting`.  `WorldSafe` says that this log is fair,
that every node's state fits the votes it has sent, and that only certified blocks have
been committed; the rest is the abstract agreement theorem.
-/

set_option autoImplicit false

namespace Pocket.Analysis

open Pocket.Model LockedVoting

/-- The condition on an event of the network: that of the node it happens at. -/
def networkEventSafe (net : Network) (w : World) (e : NetworkEvent) : Bool :=
  match net.config e.addr, w.node e.addr with
  | some cfg, some m => eventSafe net.platform cfg e.env m e.event
  | _, _ => true

/-- A node's state fits the votes it has sent. -/
structure NodeSafe (net : Network) (w : World) (addr : String) (cfg : NodeConfig)
    (m : NodeState) : Prop where
  voted : ∀ msg, w.Voted addr msg → VotedBefore cfg m msg
  locked : ∀ msg, w.Voted addr msg → msg.height = m.height → msg.step = Commit →
    ∃ l, m.lockedQC = some l ∧ msg.round ≤ l.round
  invariant : LockInvariant net w m

/-- What holds in every state of the network. -/
structure WorldSafe (net : Network) (w : World) : Prop where
  nodes : ∀ addr cfg m, net.config addr = some cfg → w.node addr = some m →
    NodeSafe net w addr cfg m
  proper : VotesProper w
  fair : Fair net.Honest net.Quorum (votes w)
  commits : ∀ addr height b, w.Committed addr height b →
    ∃ round, CertifiedIn net w height round .commit b

/-! ## The log after an event -/

variable {a : String} {w : World}

section Log

variable {addr : String} {node : String → Option NodeState} {out : List Output}

theorem voted_append {msg : HotstuffMessage} :
    World.Voted ⟨node, w.log ++ out.map (addr, ·)⟩ a msg ↔
      w.Voted a msg ∨ (a = addr ∧ msg ∈ votesSent out) := by
  have hnew : msg ∈ votesSent out ↔ ∃ leader, Output.sendToLeader leader msg ∈ out := by
    simp only [votesSent, List.mem_filterMap]
    constructor
    · rintro ⟨o, ho, hmsg⟩
      cases o with
      | sendToLeader leader msg' =>
        obtain rfl := Option.some.inj hmsg
        exact ⟨leader, ho⟩
      | broadcast _ | committed _ _ _ => simp at hmsg
    · rintro ⟨leader, ho⟩
      exact ⟨_, ho, rfl⟩
  simp only [World.Voted, hnew, List.mem_append, List.mem_map, Prod.mk.injEq, exists_or]
  refine or_congr_right ⟨?_, ?_⟩
  · rintro ⟨leader, o, ho, rfl, rfl⟩
    exact ⟨rfl, leader, ho⟩
  · rintro ⟨rfl, leader, ho⟩
    exact ⟨leader, _, ho, rfl, rfl⟩

theorem committed_append {height : ℕ} {b : Block}
    (h : World.Committed ⟨node, w.log ++ out.map (addr, ·)⟩ a height b) :
    w.Committed a height b ∨ ∃ uow, .committed height b uow ∈ out := by
  obtain ⟨uow, hmem⟩ := h
  rcases List.mem_append.mp hmem with hmem | hmem
  · exact .inl ⟨uow, hmem⟩
  · obtain ⟨o, ho, heq⟩ := List.mem_map.mp hmem
    exact .inr ⟨uow, (Prod.mk.inj heq).2 ▸ ho⟩

theorem votes_append :
    votes ⟨node, w.log ++ out.map (addr, ·)⟩ =
      ((votesSent out).filterMap (abstractVote addr)).reverse ++ votes w := by
  have hnew : (out.map (addr, ·)).filterMap entryVote
      = (votesSent out).filterMap (abstractVote addr) := by
    rw [votesSent, List.filterMap_filterMap, List.filterMap_map]
    refine List.filterMap_congr fun o _ => ?_
    cases o <;> rfl
  rw [votes, votes, List.filterMap_append, List.reverse_append, hnew]

end Log

/-! ## One event -/

section Step

variable {net : Network} {e : NetworkEvent} {addr : String} {cfg : NodeConfig} {m : NodeState}
  {r : Result}

theorem JustifiedVote.proper {v : HotstuffMessage} (h : JustifiedVote net w m v) :
    (abstractVote addr v).isSome := by
  obtain ⟨-, b, hb, hcase⟩ := h
  rcases hcase with ⟨hs, -⟩ | ⟨hs, -⟩ | ⟨hs, -⟩ <;>
    simp [abstractVote, phaseOf, hs, hb, Prepare, PreCommit, Commit]

theorem allowed_of_vote (hnode : NodeSafe net w addr cfg m) (hvote : VoteStep cfg m r)
    (hresult : SafeResult net w m r) {v : HotstuffMessage} (hv : v ∈ votesSent r.out)
    {av : LockedVoting.Vote String Block} (hav : abstractVote addr v = some av) :
    Allowed net.Honest net.Quorum (votes w) av := by
  obtain ⟨hheight, b, hb, hcase⟩ := hresult.votes v hv
  obtain ⟨rfl, hvh, hvr, hphase, b', hb', hblock⟩ := abstractVote_eq_some hav
  obtain rfl : b = b' := Option.some.inj (hb.symm.trans hb')
  have hstep := phaseOf_eq_some hphase
  -- an earlier vote of the same node is a vote message that fits its state
  have hearlier : ∀ x ∈ votes w, x.voter = av.voter → ∃ msg, w.Voted av.voter msg
      ∧ x.height = msg.height ∧ x.round = msg.round ∧ msg.step = x.phase.index + 2 := by
    intro x hx hvoter
    obtain ⟨a, msg, hvoted, hax⟩ := mem_votes.mp hx
    obtain ⟨hxa, hxh, hxr, hxphase, -⟩ := abstractVote_eq_some hax
    rw [hxa] at hvoter
    exact ⟨msg, hvoter ▸ hvoted, hxh, hxr, phaseOf_eq_some hxphase⟩
  refine ⟨?_, ?_, ?_, ?_⟩
  · intro x hx hvoter hxheight
    obtain ⟨msg, hvoted, hxh, hxr, hxs⟩ := hearlier x hx hvoter
    have hlt := hvote.above v hv msg (hnode.voted msg hvoted)
    unfold VoteLt at hlt
    unfold Vote.Before
    omega
  · intro hprepare x hx hvoter hxheight hxphase
    obtain ⟨msg, hvoted, hxh, hxr, hxs⟩ := hearlier x hx hvoter
    have hcommit : msg.step = Commit := by rw [hxs, hxphase]; rfl
    obtain ⟨l, hl, hround⟩ := hnode.locked msg hvoted (by omega) hcommit
    obtain ⟨bl, hbl, hcert⟩ := hnode.invariant.lock l hl
    rcases hcase with ⟨-, hlock⟩ | ⟨hs, -⟩ | ⟨hs, -⟩
    · have hsame := hlock l hl
      rw [hbl, Option.map_some, Option.some.injEq] at hsame
      refine ⟨l.round, hxr ▸ hround, ?_⟩
      rw [hblock, hvh, hheight, ← hsame]
      exact hcert
    · rw [hs, hprepare] at hstep
      exact absurd hstep (by decide)
    · rw [hs, hprepare] at hstep
      exact absurd hstep (by decide)
  · intro hpre
    rw [hblock, hvh, hvr, hheight]
    rcases hcase with ⟨hs, -⟩ | ⟨-, hcert⟩ | ⟨hs, -⟩
    · rw [hs, hpre] at hstep
      exact absurd hstep (by decide)
    · exact hcert
    · rw [hs, hpre] at hstep
      exact absurd hstep (by decide)
  · intro hcom
    rw [hblock, hvh, hvr, hheight]
    rcases hcase with ⟨hs, -⟩ | ⟨hs, -⟩ | ⟨-, hcert⟩
    · rw [hs, hcom] at hstep
      exact absurd hstep (by decide)
    · rw [hs, hcom] at hstep
      exact absurd hstep (by decide)
    · exact hcert

theorem fair_append {node : String → Option NodeState} (hw : WorldSafe net w)
    (hnode : NodeSafe net w addr cfg m) (hvote : VoteStep cfg m r)
    (hresult : SafeResult net w m r) :
    Fair net.Honest net.Quorum (votes ⟨node, w.log ++ r.out.map (addr, ·)⟩) := by
  rw [votes_append]
  have hone := hvote.atMostOne
  have hallowed := fun v hv av hav => @allowed_of_vote _ _ _ _ _ _ hnode hvote hresult v hv av hav
  generalize votesSent r.out = sent at hone hallowed ⊢
  cases sent with
  | nil => exact hw.fair
  | cons v rest =>
    obtain rfl : rest = [] := by simpa using hone
    cases hav : abstractVote addr v with
    | none => simpa [hav] using hw.fair
    | some av =>
      simp only [List.filterMap_cons, hav, List.filterMap_nil, List.reverse_singleton,
        List.singleton_append]
      exact .cons hw.fair (hallowed v (List.mem_singleton_self v) av hav)

theorem nodeSafe_after {node : String → Option NodeState} {m' : NodeState}
    (hnode : NodeSafe net w addr cfg m) (hvote : VoteStep cfg m r)
    (hresult : SafeResult net w m r) (hm' : r.state = some m') :
    NodeSafe net ⟨node, w.log ++ r.out.map (addr, ·)⟩ addr cfg m' := by
  refine ⟨fun msg hmsg => ?_, fun msg hmsg hheight hstep => ?_,
    (hresult.invariant m' hm').mono (List.subset_append_left _ _)⟩
  · rcases voted_append.mp hmsg with hold | ⟨-, hnew⟩
    · exact hvote.later m' hm' msg (hnode.voted msg hold)
    · exact hvote.recorded m' hm' msg hnew
  · rcases voted_append.mp hmsg with hold | ⟨-, hnew⟩
    · -- an old vote is not above the height and round the event started from
      have hbefore := hnode.voted msg hold
      have hmono := hresult.height m' hm'
      have hsame : m'.height = m.height ∧ msg.round ≤ m.round := by
        rcases hbefore with hlt | ⟨heq, hlt | ⟨hround, -⟩⟩ <;> omega
      obtain ⟨l, hl, hround⟩ := hnode.locked msg hold (hheight.trans hsame.1) hstep
      obtain ⟨l', hl', hle⟩ := hresult.kept m' hm' hsame.1 l hl
      exact ⟨l', hl', by omega⟩
    · exact hresult.commitVotes msg hnew hstep m' hm'

theorem nodeSafe_other {c : NodeConfig} {mo : NodeState} {node : String → Option NodeState}
    {out : List Output} (hne : a ≠ addr) (h : NodeSafe net w a c mo) :
    NodeSafe net ⟨node, w.log ++ out.map (addr, ·)⟩ a c mo := by
  have hvoted : ∀ msg, World.Voted ⟨node, w.log ++ out.map (addr, ·)⟩ a msg → w.Voted a msg := by
    intro msg hmsg
    rcases voted_append.mp hmsg with hold | ⟨heq, -⟩
    · exact hold
    · exact absurd heq hne
  exact ⟨fun msg hmsg => h.voted msg (hvoted msg hmsg),
    fun msg hmsg => h.locked msg (hvoted msg hmsg),
    h.invariant.mono (List.subset_append_left _ _)⟩

theorem worldSafe_step (hw : WorldSafe net w) (hlegal : Legal net w e)
    (hsafe : networkEventSafe net w e = true) : WorldSafe net (w.step net e) := by
  cases hcfg : net.config e.addr with
  | none => exact (World.step_idle (.inl hcfg)).symm ▸ hw
  | some cfg =>
    cases hm : w.node e.addr with
    | none => exact (World.step_idle (.inr hm)).symm ▸ hw
    | some m =>
      simp only [networkEventSafe, hcfg, hm] at hsafe
      have hnode := hw.nodes e.addr cfg m hcfg hm
      have hresult := safeResult_handleEvent hw.proper hnode.invariant hlegal.validators
        hlegal.unforged hsafe
      have hvote : VoteStep cfg m (handleEvent net.platform cfg e.env m e.event) := by
        refine voteStep_handleEvent fun m' hm' hheight => ?_
        simp only [eventSafe, roundDoesNotWrap, hm', Bool.and_eq_true, decide_eq_true_eq] at hsafe
        exact hsafe.1 hheight
      rw [World.step_running hcfg hm]
      refine ⟨fun a c mo hc hmo => ?_, fun a msg hmsg => ?_, fair_append hw hnode hvote hresult,
        fun a height b hb => ?_⟩
      · by_cases ha : a = e.addr
        · subst ha
          obtain rfl := Option.some.inj (hcfg.symm.trans hc)
          exact nodeSafe_after hnode hvote hresult (by simpa using hmo)
        · have hmo : w.node a = some mo := by simpa [Function.update_of_ne ha] using hmo
          exact nodeSafe_other ha (hw.nodes a c mo hc hmo)
      · rcases voted_append.mp hmsg with hold | ⟨rfl, hnew⟩
        · exact hw.proper a msg hold
        · exact (hresult.votes msg hnew).proper
      · have hcert : ∃ round, CertifiedIn net w height round .commit b := by
          rcases committed_append hb with hold | ⟨uow, hnew⟩
          · exact hw.commits a height b hold
          · exact hresult.commits height b uow hnew
        obtain ⟨round, hcert⟩ := hcert
        exact ⟨round, hcert.mono (List.subset_append_left _ _)⟩

end Step

/-! ## Every run -/

theorem worldSafe_start (net : Network) (heights : String → ℕ) :
    WorldSafe net (World.start heights) where
  nodes := by
    rintro addr cfg _ - ⟨rfl⟩
    refine ⟨by simp [World.Voted, World.start], by simp [World.Voted, World.start], ?_⟩
    refine ⟨(fun l hl => by cases hl), (fun h => by cases h), fun step pool hpool x hx => ?_⟩
    simp only [initialState, initMessagesPool] at hpool
    split at hpool
    · obtain rfl := Option.some.inj hpool
      simp at hx
    · simp at hpool
  proper := by simp [VotesProper, World.Voted, World.start]
  fair := .nil
  commits := by simp [World.Committed, World.start]

/-- SOURCE: consensus/hotstuff_replica.go, consensus/hotstuff_leader.go, consensus/pacemaker —
**agreement.**  Fewer than a third of the validators are byzantine, messages are delayed,
reordered, repeated, lost and made up, timers fire at any time, and nodes start at any
heights: as long as every event meets the condition, the honest nodes agree. -/
theorem agreement_of_safe_events (net : Network) (heights : String → ℕ)
    (events : List NetworkEvent)
    (hlegal : Runs.Guarded (World.step net) (Legal net) (World.start heights) events)
    (hsafe : Runs.Guarded (World.step net) (fun w e => networkEventSafe net w e = true)
      (World.start heights) events) :
    Agreement (Runs.run (World.step net) (World.start heights) events) := by
  have hw : WorldSafe net (Runs.run (World.step net) (World.start heights) events) :=
    Runs.invariant_run (fun w e hw hg => worldSafe_step hw hg.1 hg.2)
      (worldSafe_start net heights) (hlegal.and hsafe)
  intro addr addr' height block block' hcommit hcommit'
  obtain ⟨r, hcert⟩ := hw.commits addr height block hcommit
  obtain ⟨r', hcert'⟩ := hw.commits addr' height block' hcommit'
  exact LockedVoting.agreement (fun h Q Q' => net.exists_honest h) hw.fair hcert hcert'

/-! ## Four validators, one of them byzantine -/

/-- The honest validators `a1`, `a2`, `a3` and the byzantine `a4`, with a list of all
signatures that exist. -/
def fourNetwork (listed : List (String × HotstuffMessage × Bytes)) : Network where
  platform := listedSignatures listed
  validators _ := fourValidators
  config addr :=
    if addr = "a1" then some (fourConfig 1 "a1")
    else if addr = "a2" then some (fourConfig 2 "a2")
    else if addr = "a3" then some (fourConfig 3 "a3")
    else none
  distinct _ := by decide
  fewByzantine _ := by decide

/-- A message delivered to one of them. -/
def delivered (delivery : String × HotstuffMessage) : NetworkEvent :=
  ⟨delivery.1, fourEnv "s", .message delivery.2⟩

/-- Every listed signature of an honest validator that the message carries is over a vote
that validator has sent. -/
def carriesNoForgery (listed : List (String × HotstuffMessage × Bytes)) (w : World)
    (msg : HotstuffMessage) : Bool :=
  msg.signatures.all fun ps => listed.all fun (key, content, signature) =>
    signature != ps.signature || fourValidators.all fun v =>
      v.publicKey != key || decide (¬ (fourNetwork listed).Honest v.address)
        || w.log.any fun entry => entry.1 == v.address &&
            match entry.2 with
            | .sendToLeader _ vote => getSignableBytes vote == content
            | _ => false

variable {listed : List (String × HotstuffMessage × Bytes)}

theorem unforged_of_carriesNoForgery {msg : HotstuffMessage}
    (h : carriesNoForgery listed w msg = true) :
    ∀ ps ∈ msg.signatures, Unforged (fourNetwork listed) w ps := by
  intro ps hps _ validator hv hhonest content hverify
  have hlisted : (validator.publicKey, content, ps.signature) ∈ listed :=
    List.contains_iff_mem.mp hverify
  have hentry := List.all_eq_true.mp (List.all_eq_true.mp h ps hps) _ hlisted
  simp only [bne_self_eq_false, Bool.false_or] at hentry
  have hvoted := List.all_eq_true.mp hentry validator hv
  simp only [bne_self_eq_false, Bool.false_or, hhonest, not_true_eq_false, decide_false,
    List.any_eq_true, Bool.and_eq_true, beq_iff_eq] at hvoted
  obtain ⟨⟨addr, out⟩, hmem, rfl, hout⟩ := hvoted
  cases out with
  | sendToLeader leader vote => exact ⟨vote, ⟨leader, hmem⟩, by simpa using hout⟩
  | broadcast _ | committed _ _ _ => simp at hout

theorem guarded_legal {deliveries : List (String × HotstuffMessage)}
    (h : Runs.Guarded (World.step (fourNetwork listed))
      (fun w e => (match e.event with
        | .message msg => carriesNoForgery listed w msg
        | .timeout => true) = true) w (deliveries.map delivered)) :
    Runs.Guarded (World.step (fourNetwork listed)) (Legal (fourNetwork listed)) w
      (deliveries.map delivered) := by
  refine h.mono fun w e he hforgery => ?_
  obtain ⟨⟨addr, msg⟩, -, rfl⟩ := List.mem_map.mp he
  refine ⟨fun height vals hvals => (Option.some.inj hvals).symm, ?_⟩
  rintro _ ⟨rfl⟩
  exact unforged_of_carriesNoForgery hforgery

/-- What a replica has done when it commits the block of the first round. -/
def oneBlockApplied : UnitOfWork where
  height := 1
  isLeaderUOW := false
  proposalStateHash := "s"
  proposalProposerAddr := [2]
  stateHash := "s"
  history := [.applied [2] [] "s"]

/-- A decision "certified" by three copies of one signature. -/
def forgedDecision (block : Block) : HotstuffMessage :=
  phaseMsg Decide block
    { threeSigners 0 Commit block with
      thresholdSignature := some { signatures := List.replicate 3 ⟨[4], "a4"⟩ } }

/-- The byzantine validator proposes two blocks with the same state hash to two nodes and
decides both with its own signature. -/
def forkDeliveries : List (String × HotstuffMessage) :=
  [("a1", newRoundMsg 1 0), ("a1", prepareMsg 1 0 (plainBlock 1 "s" "p")),
   ("a1", forgedDecision (plainBlock 1 "s" "p")),
   ("a3", newRoundMsg 1 0), ("a3", prepareMsg 1 0 (plainBlock 1 "s" "q")),
   ("a3", forgedDecision (plainBlock 1 "s" "q"))]

/-- The signatures of the byzantine validator on the two blocks. -/
def forkSignatures : List (String × HotstuffMessage × Bytes) :=
  ["p", "q"].map fun prev =>
    ("k4", getSignableBytes (qcToHotstuffMessage (threeSigners 0 Commit (plainBlock 1 "s" prev))),
      [4])

/-- The two nodes commit different blocks at height 1. -/
theorem forged_quorum_forks :
    Runs.Guarded (World.step (fourNetwork forkSignatures)) (Legal (fourNetwork forkSignatures))
        (World.start fun _ => 1) (forkDeliveries.map delivered)
      ∧ ¬ Agreement (Runs.run (World.step (fourNetwork forkSignatures))
          (World.start fun _ => 1) (forkDeliveries.map delivered)) := by
  refine ⟨guarded_legal (by decide), fun h => ?_⟩
  have hsame := h "a1" "a3" 1 (plainBlock 1 "s" "p") (plainBlock 1 "s" "q")
    ⟨oneBlockApplied, by decide⟩ ⟨oneBlockApplied, by decide⟩
  exact absurd hsame (by decide)

/-- The certificate of a phase with the signatures of `a1`, `a3` and `a4`; a signature is the
validator's number followed by the step. -/
def roundCertificate (step : ℤ) : QuorumCertificate :=
  let sig (i : UInt8) : Bytes := [i, UInt8.ofNat step.toNat]
  { threeSigners 0 step ordinaryBlock with
    thresholdSignature := some { signatures := [⟨sig 1, "a1"⟩, ⟨sig 3, "a3"⟩, ⟨sig 4, "a4"⟩] } }

/-- All signatures of a round in which these three vote. -/
def roundSignatures : List (String × HotstuffMessage × Bytes) :=
  [Prepare, PreCommit, Commit].flatMap fun step =>
    [("k1", (1 : UInt8)), ("k3", 3), ("k4", 4)].map fun (key, i) =>
      (key, getSignableBytes (qcToHotstuffMessage (roundCertificate step)),
        [i, UInt8.ofNat step.toNat])

/-- A round in which two nodes see every message. -/
def roundDeliveries : List (String × HotstuffMessage) :=
  [newRoundMsg 1 0, prepareMsg 1 0 ordinaryBlock,
    phaseMsg PreCommit ordinaryBlock (roundCertificate Prepare),
    phaseMsg Commit ordinaryBlock (roundCertificate PreCommit),
    phaseMsg Decide ordinaryBlock (roundCertificate Commit)].flatMap fun msg =>
      [("a1", msg), ("a3", msg)]

/-- Both nodes commit, and they agree. -/
theorem agreement_of_round :
    let w := Runs.run (World.step (fourNetwork roundSignatures)) (World.start fun _ => 1)
      (roundDeliveries.map delivered)
    (w.Committed "a1" 1 ordinaryBlock ∧ w.Committed "a3" 1 ordinaryBlock) ∧ Agreement w :=
  ⟨⟨⟨oneBlockApplied, by decide⟩, ⟨oneBlockApplied, by decide⟩⟩,
    agreement_of_safe_events (fourNetwork roundSignatures) (fun _ => 1)
      (roundDeliveries.map delivered) (guarded_legal (by decide)) (by decide)⟩

end Pocket.Analysis
