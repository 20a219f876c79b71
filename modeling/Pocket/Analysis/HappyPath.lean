import Mathlib.Algebra.BigOperators.Group.List.Basic
import Pocket.Analysis.HappyHandlers

/-!
# A height without failures

The validators of a healthy committee start a height together.  If the messages of a phase are
delivered before those of the next one, in whichever order within the phase, all of them commit the
block that the validator with id `height mod n + 1` proposes, and go on to the next height.

The phases are the `NewRound` messages, then for the steps `Prepare`, `PreCommit` and `Commit` the
proposal and the votes on it, and last the `Decide` proposal.  `Stage` is what holds between two of
them; there is one lemma for the first phase, one for a proposal, one for the votes that lead to the
next proposal, one for the votes that decide, and one for the last phase.
-/

set_option autoImplicit false

namespace Pocket.Analysis

open Pocket.Model PhasedDelivery

variable {C : Committee} {just : Justification} {d : String × HotstuffMessage}
  {r : NodeRun × List (String × HotstuffMessage)} {s : Flight String NodeRun HotstuffMessage}
  {c : NodeRun} {m : NodeState}

/-! ## Nodes as processes -/

section Processes

variable {addr : String} {msg : HotstuffMessage}

section

variable (hc : c.state = some m)
include hc

theorem handle_running {r : Result} (hr : C.react addr m msg = r) :
    C.handle addr c msg
      = (⟨r.state, c.out ++ r.out⟩, r.out.flatMap (deliveries (C.env addr))) := by
  subst hr
  simp only [Committee.handle, hc]
  rfl

theorem handle_dropped (hr : C.react addr m msg = ⟨some m, []⟩) :
    C.handle addr c msg = (c, []) := by
  rw [handle_running hc hr]
  simp [← hc]

/-- A message of a step that the node has left. -/
theorem handle_earlier {step : ℤ} {block : Option Block} (hm : Working C step block m)
    (hstep : msg.step < step) (hround : msg.round = 0) : C.handle addr c msg = (c, []) :=
  handle_dropped hc (drop_earlier hm hstep hround)

/-- A message of the height that the node has finished. -/
theorem handle_finished (hm : Finished C m) (hheight : msg.height = C.height) :
    C.handle addr c msg = (c, []) := by
  apply handle_dropped hc
  apply drop_past
  rw [hheight, hm.height_eq]
  omega

end

/-- A message to all validators of the height. -/
def toAll (C : Committee) (msg : HotstuffMessage) : List (String × HotstuffMessage) :=
  C.addresses.map (·, msg)

/-- A message to the leader. -/
def toLeader (C : Committee) (msg : HotstuffMessage) : String × HotstuffMessage := (C.leader, msg)

theorem deliveries_broadcast (h : C.Healthy) (haddr : addr ∈ C.addresses)
    (hmsg : msg.height = C.height) : deliveries (C.env addr) (.broadcast msg) = toAll C msg := by
  simp only [deliveries, hmsg, h.reads addr haddr, Option.getD_some, toAll, Committee.addresses,
    List.map_map, Function.comp_def]

theorem deliveries_sendToLeader (h : C.Healthy) (haddr : addr ∈ C.addresses)
    (hmsg : msg.height = C.height) :
    deliveries (C.env addr) (.sendToLeader C.leaderId msg) = [toLeader C msg] := by
  simp only [deliveries, hmsg, h.reads addr haddr, Option.getD_some, h.idToValAddrMap_leaderId,
    toLeader]

theorem deliveries_proposal (h : C.Healthy) {step : ℤ} :
    [Output.broadcast (C.proposal step just), .sendToLeader C.leaderId (C.vote C.leader step)].flatMap
        (deliveries (C.env C.leader))
      = toAll C (C.proposal step just) ++ [toLeader C (C.vote C.leader step)] := by
  rw [List.flatMap_cons, List.flatMap_singleton, deliveries_broadcast h h.leader_mem rfl,
    deliveries_sendToLeader h h.leader_mem rfl]

theorem height_of_viewMessages {view : NodeState} (hview : view.height = C.height + 1) {env : Env}
    {cfg : NodeConfig} (hd : d ∈ (viewMessages cfg view none).flatMap (deliveries env)) :
    d.2.height = C.height + 1 := by
  unfold viewMessages at hd
  split at hd
  · simp at hd
  · rw [List.flatMap_singleton] at hd
    obtain ⟨v, -, rfl⟩ := List.mem_map.mp hd
    exact hview

end Processes

/-! ## The order of the phases -/

section Phases

variable {msg msg' : HotstuffMessage}

theorem deliveryPhase_lt_of_step (hheight : msg.height = msg'.height)
    (hround : msg.round = msg'.round) (h : 2 * msg.step + msg.type < 2 * msg'.step + msg'.type) :
    deliveryPhase msg < deliveryPhase msg' := by
  simp only [deliveryPhase, Prod.Lex.toLex_lt_toLex, hheight, hround]
  exact .inr ⟨trivial, .inr ⟨trivial, h⟩⟩

theorem deliveryPhase_lt_of_height (h : msg.height < msg'.height) :
    deliveryPhase msg < deliveryPhase msg' := by
  simp only [deliveryPhase, Prod.Lex.toLex_lt_toLex]
  exact .inl h

theorem deliveryPhase_proposal_lt_vote (addr : String) (step : ℤ) (just : Justification) :
    deliveryPhase (C.proposal step just) < deliveryPhase (C.vote addr step) := by
  apply deliveryPhase_lt_of_step
  · rfl
  · rfl
  · show 2 * step + Propose < 2 * step + Vote
    unfold Propose Vote
    omega

end Phases

/-! ## Room for all messages -/

section Room

/-- The number of messages that make the leader go on. -/
def threshold (C : Committee) : ℕ := 2 * C.validators.length / 3 + 1

theorem lt_threshold_iff {k : ℕ} : k < threshold C ↔ ¬ 2 * C.validators.length < 3 * k := by
  unfold threshold
  omega

theorem threshold_eq {k : ℕ} (hk : k = threshold C) : 2 * C.validators.length < 3 * k := by
  unfold threshold at hk
  omega

theorem threshold_le (h : C.Healthy) : threshold C ≤ C.validators.length := by
  have hpos := h.length_pos
  unfold threshold
  omega

theorem Fits.initial {msgs l : List HotstuffMessage} (h : Fits C msgs) (hl : l <+: msgs) :
    Fits C l := by
  obtain ⟨rest, rfl⟩ := hl
  have hcount := h.count
  have hbytes := h.bytes
  rw [List.length_append] at hcount
  rw [List.map_append, List.sum_append] at hbytes
  exact ⟨by omega, by omega⟩

theorem fits_newRounds (h : C.Healthy) :
    Fits C (List.replicate C.validators.length C.newRound) := by
  refine ⟨?_, ?_⟩
  · rw [List.length_replicate]
    exact h.validators_lt
  · rw [List.map_replicate, List.sum_replicate_nat]
    exact (h.roomy C.leader h.leader_mem).newRounds

theorem fits_votes (h : C.Healthy) (step : ℤ) {order : List String}
    (horder : order.Perm C.addresses) : Fits C (order.map (C.vote · step)) := by
  refine ⟨?_, ?_⟩
  · rw [List.length_map, horder.length_eq, Committee.addresses, List.length_map]
    exact h.validators_lt
  · rw [List.map_map, (horder.map _).sum_eq]
    exact (h.roomy C.leader h.leader_mem).votes step

end Room

/-! ## Between two phases -/

/-- The proposal that opens the height. -/
def opening (C : Committee) : Output := .broadcast (C.proposal Prepare .none)

/-- The leader has proposed the block and waits for votes for a step, the replicas are in states
described by `replica`, and some messages are on their way. -/
structure Stage (C : Committee) (step : ℤ) (replica : NodeState → Prop)
    (pending : List (String × HotstuffMessage)) (s : Flight String NodeRun HotstuffMessage) :
    Prop where
  leader : ∃ m, (s.node C.leader).state = some m ∧ Voting C step [] m
  proposed : opening C ∈ (s.node C.leader).out
  replicas : ∀ addr ∈ C.addresses, addr ≠ C.leader →
    ∃ m, (s.node addr).state = some m ∧ replica m
  pending : s.pending.Perm pending

/-- The messages of a proposal: the block for all, the proposer's vote for itself. -/
def proposing (C : Committee) (step : ℤ) (just : Justification) :
    List (String × HotstuffMessage) :=
  toAll C (C.proposal step just) ++ [toLeader C (C.vote C.leader step)]

/-- All votes for a step. -/
def voting (C : Committee) (step : ℤ) : List (String × HotstuffMessage) :=
  C.addresses.map fun addr => toLeader C (C.vote addr step)

/-- A leader that has proposed the block for a step in a phase. -/
structure Proposes (C : Committee) (step : ℤ) (just : Justification)
    (r : NodeRun × List (String × HotstuffMessage)) : Prop where
  state : ∃ m, r.1.state = some m ∧ Voting C step [] m
  proposed : opening C ∈ r.1.out
  sent : r.2 = proposing C step just

/-- A node that has sent nothing in a phase. -/
structure Rests (replica : NodeState → Prop) (r : NodeRun × List (String × HotstuffMessage)) :
    Prop where
  state : ∃ m, r.1.state = some m ∧ replica m
  sent : r.2 = []

theorem Proposes.phase_lt {step : ℤ} (hr : Proposes C step just r) {msg : HotstuffMessage}
    (hheight : msg.height = C.height) (hround : msg.round = 0)
    (hphase : 2 * msg.step + msg.type < 2 * step + Propose) (hd : d ∈ r.2) :
    deliveryPhase msg < deliveryPhase d.2 := by
  rw [hr.sent] at hd
  rcases List.mem_append.mp hd with hd | hd
  · obtain ⟨addr, -, rfl⟩ := List.mem_map.mp hd
    exact deliveryPhase_lt_of_step hheight hround hphase
  · obtain rfl := List.mem_singleton.mp hd
    apply deliveryPhase_lt_of_step hheight hround
    show 2 * msg.step + msg.type < 2 * step + Vote
    unfold Propose at hphase
    unfold Vote
    omega

theorem atPhase_toAll {msg : HotstuffMessage} {rest : List (String × HotstuffMessage)}
    (hpending : s.pending.Perm (toAll C msg ++ rest))
    (hrest : ∀ d ∈ rest, deliveryPhase msg < deliveryPhase d.2) :
    AtPhase deliveryPhase C.addresses (deliveryPhase msg) (toAll C msg) rest s :=
  ⟨hpending, List.forall_mem_map.2 fun _ haddr => haddr, List.forall_mem_map.2 fun _ _ => rfl, hrest⟩

theorem Rests.phase_lt {replica : NodeState → Prop} (hr : Rests replica r) {k : ℕ ×ₗ ℕ ×ₗ ℤ}
    (hd : d ∈ r.2) : k < deliveryPhase d.2 := by
  rw [hr.sent] at hd
  exact absurd hd List.not_mem_nil

theorem stage_of_proposes (h : C.Healthy) {step : ℤ} {replica : NodeState → Prop}
    {result : String → NodeRun × List (String × HotstuffMessage)}
    (hleader : Proposes C step just (result C.leader))
    (hreplicas : ∀ addr ∈ C.addresses, addr ≠ C.leader → Rests replica (result addr))
    (hnode : ∀ addr ∈ C.addresses, s.node addr = (result addr).1)
    (hpending : s.pending.Perm (C.addresses.flatMap fun addr => (result addr).2)) :
    Stage C step replica (proposing C step just) s := by
  have hone := flatMap_perm_one h.leader_mem h.distinct
    fun addr haddr hne => (hreplicas addr haddr hne).sent
  rw [hleader.sent] at hone
  refine ⟨?_, ?_, ?_, hpending.trans hone⟩
  · rw [hnode C.leader h.leader_mem]
    exact hleader.state
  · rw [hnode C.leader h.leader_mem]
    exact hleader.proposed
  · intro addr haddr hne
    rw [hnode addr haddr]
    exact (hreplicas addr haddr hne).state

/-! ## The first phase -/

section NewRounds

theorem inbox_start (h : C.Healthy) (uow : String → Option UnitOfWork) {addr : String}
    (haddr : addr ∈ C.addresses) :
    inbox addr (C.start uow).pending = List.replicate C.validators.length C.newRound := by
  have hone : ∀ v ∈ C.validators,
      inbox addr (deliveries (C.env v.address) (.broadcast C.newRound)) = [C.newRound] := by
    intro v hv
    rw [deliveries_broadcast h (List.mem_map_of_mem hv) rfl]
    exact inbox_broadcast h.distinct haddr _
  show inbox addr (C.validators.flatMap _) = _
  rw [inbox_flatMap, List.flatMap_congr hone, ← List.map_eq_flatMap, List.map_const']

theorem opening_start (uow : Option UnitOfWork) : Opening C (C.startState uow) :=
  ⟨rfl, rfl, rfl, .inl rfl, rfl⟩

theorem collecting_start (uow : Option UnitOfWork) : Collecting C [] (C.startState uow) := by
  refine ⟨opening_start uow, ⟨(opening_start uow).working, ?_⟩, ?_⟩
  · intro s hlow hhigh
    show initMessagesPool s = _
    unfold initMessagesPool
    split_ifs <;> first | rfl | omega
  · exact List.forall_mem_nil _

theorem replica_newRounds (h : C.Healthy) {addr : String} (haddr : addr ∈ C.addresses)
    (hreplica : addr ≠ C.leader) (uow : Option UnitOfWork) {n : ℕ} (hn : 0 < n) :
    Rests (Waiting C) (handleAll C.handle addr ⟨some (C.startState uow), []⟩
      (List.replicate n C.newRound)) := by
  obtain ⟨k, rfl⟩ : ∃ k, n = k + 1 := ⟨n - 1, by omega⟩
  obtain ⟨m, hm, hwaits⟩ := replica_newRound h haddr hreplica (opening_start uow) rfl
  have hfirst : C.handle addr ⟨some (C.startState uow), []⟩ C.newRound = (⟨some m, []⟩, []) := by
    rw [handle_running rfl hm]
    rfl
  have hrest : handleAll C.handle addr ⟨some m, []⟩ (List.replicate k C.newRound)
      = (⟨some m, []⟩, []) := by
    apply handleAll_ignored
    intro msg hmsg
    obtain rfl := List.eq_of_mem_replicate hmsg
    exact handle_earlier rfl hwaits.working (by decide : NewRound < Prepare) rfl
  rw [List.replicate_succ, handleAll, hfirst, hrest]
  exact ⟨⟨m, rfl, hwaits⟩, rfl⟩

theorem leader_newRounds (h : C.Healthy) (uow : Option UnitOfWork) :
    Proposes C Prepare .none (handleAll C.handle C.leader ⟨some (C.startState uow), []⟩
      (List.replicate C.validators.length C.newRound)) := by
  have hfits : ∀ {l : List HotstuffMessage} {msg : HotstuffMessage},
      l ++ [msg] <+: List.replicate C.validators.length C.newRound →
      msg = C.newRound ∧ Fits C (l ++ [C.newRound]) := by
    intro l msg hl
    have hmem := hl.subset (List.mem_append_right l (List.mem_singleton_self msg))
    obtain rfl := List.eq_of_mem_replicate hmem
    exact ⟨rfl, (fits_newRounds h).initial hl⟩
  apply handleAll_threshold (t := threshold C) (by unfold threshold; omega)
    (fun l (c : NodeRun) => ∃ m, c.state = some m ∧ Collecting C l m)
  · exact ⟨_, rfl, collecting_start uow⟩
  · rintro l msg c hl ⟨m, hc, hm⟩ hfew
    obtain ⟨rfl, hroom⟩ := hfits hl
    obtain ⟨m', hm', hcollects⟩ := (leader_newRound h hm hroom).1 (lt_threshold_iff.mp hfew)
    rw [handle_running hc hm']
    exact ⟨⟨m', rfl, hcollects⟩, rfl⟩
  · rintro l msg c hl ⟨m, hc, hm⟩ henough
    obtain ⟨rfl, hroom⟩ := hfits hl
    obtain ⟨m', hm', hvotes⟩ := (leader_newRound h hm hroom).2 (threshold_eq henough)
    rw [handle_running hc hm']
    exact ⟨⟨m', rfl, hvotes⟩, by simp [opening], deliveries_proposal h⟩
  · rintro r msg hmsg ⟨⟨m, hc, hm⟩, -, -⟩
    obtain rfl := List.eq_of_mem_replicate hmsg
    exact handle_earlier hc hm.leading.working (by decide : NewRound < Prepare) rfl
  · rw [List.length_replicate]
    exact threshold_le h

/-- **The first phase** ends with the leader's proposal. -/
theorem inevitable_proposal (h : C.Healthy) (uow : String → Option UnitOfWork) :
    Inevitable (Delivery C.handle deliveryPhase)
      (Stage C Prepare (Waiting C) (proposing C Prepare .none)) (C.start uow) := by
  have hmsg : ∀ d ∈ (C.start uow).pending, d.1 ∈ C.addresses ∧ d.2 = C.newRound := by
    intro d hd
    obtain ⟨v, hv, hd⟩ := List.mem_flatMap.mp hd
    rw [deliveries_broadcast h (List.mem_map_of_mem hv) rfl] at hd
    obtain ⟨addr, haddr, rfl⟩ := List.mem_map.mp hd
    exact ⟨haddr, rfl⟩
  have hs : AtPhase deliveryPhase C.addresses (deliveryPhase C.newRound) (C.start uow).pending []
      (C.start uow) := by
    refine ⟨by rw [List.append_nil], fun d hd => (hmsg d hd).1, ?_, List.forall_mem_nil _⟩
    intro d hd
    rw [(hmsg d hd).2]
  apply inevitable_of_phase h.distinct hs (fun addr r =>
    (addr = C.leader → Proposes C Prepare .none r)
    ∧ (addr ≠ C.leader → Rests (Waiting C) r))
  · intro addr haddr seen hseen
    rw [inbox_start h uow haddr] at hseen
    obtain rfl := List.perm_replicate.mp hseen
    by_cases hleader : addr = C.leader
    · subst hleader
      have hproposes := leader_newRounds h (uow C.leader)
      refine ⟨⟨fun _ => hproposes, fun hne => absurd rfl hne⟩,
        fun d hd => hproposes.phase_lt rfl rfl ?_ hd⟩
      show 2 * NewRound + Propose < 2 * Prepare + Propose
      decide
    · have hrests := replica_newRounds h haddr hleader (uow addr) h.length_pos
      exact ⟨⟨fun heq => absurd heq hleader, fun _ => hrests⟩, fun d hd => hrests.phase_lt hd⟩
  · intro s' result hresult hnode hpending
    exact stage_of_proposes h ((hresult C.leader h.leader_mem).1 rfl)
      (fun addr haddr hne => (hresult addr haddr).2 hne) hnode hpending

end NewRounds

/-! ## A proposal -/

section Proposals

theorem inbox_toAll (h : C.Healthy) {addr : String} (haddr : addr ∈ C.addresses)
    (msg : HotstuffMessage) : inbox addr (toAll C msg) = [msg] :=
  inbox_broadcast h.distinct haddr msg

theorem handleAll_singleton (addr : String) (c : NodeRun) (msg : HotstuffMessage) :
    handleAll C.handle addr c [msg] = C.handle addr c msg := by
  simp [handleAll]

/-- **A proposal**: if every replica votes for it, all votes for the step are on their way. -/
theorem inevitable_votes (h : C.Healthy) {step : ℤ} (hstep : step ≠ NewRound)
    {before after : NodeState → Prop}
    (hvotes : ∀ addr ∈ C.addresses, addr ≠ C.leader → ∀ m, before m →
      VotesOn C addr m step just after)
    (hs : Stage C step before (proposing C step just) s) :
    Inevitable (Delivery C.handle deliveryPhase) (Stage C step after (voting C step)) s := by
  have hphase := atPhase_toAll hs.pending
    (List.forall_mem_singleton.2 (deliveryPhase_proposal_lt_vote C.leader step just))
  apply inevitable_of_phase h.distinct hphase (fun addr r =>
    (addr = C.leader → r = (s.node C.leader, []))
    ∧ (addr ≠ C.leader → (∃ m, r.1.state = some m ∧ after m)
      ∧ r.2 = [toLeader C (C.vote addr step)]))
  · intro addr haddr seen hseen
    rw [inbox_toAll h haddr] at hseen
    rw [List.perm_singleton.mp hseen, handleAll_singleton]
    by_cases hleader : addr = C.leader
    · subst hleader
      obtain ⟨m, hc, hm⟩ := hs.leader
      rw [handle_dropped hc (drop_own h hm.leading.working rfl hstep)]
      exact ⟨⟨fun _ => rfl, fun hne => absurd rfl hne⟩, List.forall_mem_nil _⟩
    · obtain ⟨m, hc, hm⟩ := hs.replicas addr haddr hleader
      obtain ⟨m', hm', hafter⟩ := hvotes addr haddr hleader m hm
      have hsent : deliveries (C.env addr) (.sendToLeader C.leaderId (C.vote addr step))
          = [toLeader C (C.vote addr step)] := deliveries_sendToLeader h haddr rfl
      rw [handle_running hc hm', List.flatMap_singleton, hsent]
      exact ⟨⟨fun heq => absurd heq hleader, fun _ => ⟨⟨m', rfl, hafter⟩, rfl⟩⟩,
        List.forall_mem_singleton.2 (deliveryPhase_proposal_lt_vote addr step just)⟩
  · intro s' result hresult hnode hpending
    have hself := (hresult C.leader h.leader_mem).1 rfl
    have hleader : s'.node C.leader = s.node C.leader := by
      rw [hnode C.leader h.leader_mem, hself]
    have hall := flatMap_perm_others (d := fun addr => toLeader C (C.vote addr step))
      h.leader_mem h.distinct (congrArg Prod.snd hself)
      fun addr haddr hne => ((hresult addr haddr).2 hne).2
    refine ⟨?_, ?_, ?_, hpending.trans hall⟩
    · rw [hleader]
      exact hs.leader
    · rw [hleader]
      exact hs.proposed
    · intro addr haddr hne
      rw [hnode addr haddr]
      exact ((hresult addr haddr).2 hne).1

end Proposals

/-! ## The votes on a proposal -/

section Votes

variable {step : ℤ}

theorem inbox_voting (addr : String) :
    inbox addr (voting C step)
      = if C.leader = addr then C.addresses.map (C.vote · step) else [] := by
  have hvoting : voting C step = (C.addresses.map (C.vote · step)).map (C.leader, ·) := by
    rw [List.map_map]
    rfl
  rw [hvoting, inbox_addressed]

theorem exists_order {votes : List HotstuffMessage}
    (h : votes.Perm (C.addresses.map (C.vote · step))) :
    ∃ order : List String, order.Perm C.addresses ∧ votes = order.map (C.vote · step) := by
  have hcomp := congrFun (congrFun (List.eq_map_comp_perm (C.vote · step)) votes) C.addresses
  obtain ⟨order, hvotes, horder⟩ := hcomp.mpr h
  exact ⟨order, horder, hvotes⟩

theorem leader_votes (h : C.Healthy) (hstep : step = Prepare ∨ step = PreCommit ∨ step = Commit)
    (hc : ∃ m, c.state = some m ∧ Voting C step [] m) (hout : opening C ∈ c.out)
    {order : List String} (horder : order.Perm C.addresses)
    (acted : NodeRun × List (String × HotstuffMessage) → Prop)
    (hact : ∀ c m signers addr, c.state = some m → opening C ∈ c.out → Voting C step signers m →
      addr ∈ C.addresses → Fits C ((signers ++ [addr]).map (C.vote · step)) → Enough C (signers ++
      [addr]) → acted (C.handle C.leader c (C.vote addr step)))
    (hignore : ∀ r addr, acted r → C.handle C.leader r.1 (C.vote addr step) = (r.1, [])) :
    acted (handleAll C.handle C.leader c (order.map (C.vote · step))) := by
  -- the message after those of `signers` is a vote, and there is room for it
  have hnext : ∀ {signers : List String} {msg : HotstuffMessage},
      signers.map (C.vote · step) ++ [msg] <+: order.map (C.vote · step) →
      ∃ addr ∈ C.addresses, msg = C.vote addr step
        ∧ Fits C ((signers ++ [addr]).map (C.vote · step)) := by
    intro signers msg hl
    have hmem := hl.subset (List.mem_append_right _ (List.mem_singleton_self msg))
    obtain ⟨addr, haddr, rfl⟩ := List.mem_map.mp hmem
    refine ⟨addr, horder.mem_iff.mp haddr, rfl, ?_⟩
    rw [List.map_append]
    exact (fits_votes h step horder).initial hl
  have hmember : ∀ {signers : List String} {addr : String}, (∀ a ∈ signers, a ∈ C.addresses) →
      addr ∈ C.addresses → ∀ a ∈ signers ++ [addr], a ∈ C.addresses := by
    intro signers addr hsigners haddr
    exact List.forall_mem_append.2 ⟨hsigners, List.forall_mem_singleton.2 haddr⟩
  apply handleAll_threshold (t := threshold C) (by unfold threshold; omega)
    (fun l (c : NodeRun) => opening C ∈ c.out ∧ ∃ m signers, c.state = some m
      ∧ Voting C step signers m ∧ l = signers.map (C.vote · step) ∧ ∀ a ∈ signers, a ∈ C.addresses)
  · obtain ⟨m, hm, hvoting⟩ := hc
    exact ⟨hout, m, [], hm, hvoting, rfl, List.forall_mem_nil _⟩
  · rintro l msg c hl ⟨hopening, m, signers, hm, hvoting, rfl, hsigners⟩ hfew
    obtain ⟨addr, haddr, rfl, hroom⟩ := hnext hl
    rw [List.length_map] at hfew
    obtain ⟨m', hm', hvoting'⟩ := leader_waits h hvoting haddr hstep hroom (lt_threshold_iff.mp hfew)
    rw [handle_running hm hm']
    refine ⟨⟨List.mem_append_left _ hopening, m', signers ++ [addr], rfl, hvoting', ?_,
      hmember hsigners haddr⟩, rfl⟩
    rw [List.map_append]
    rfl
  · rintro l msg c hl ⟨hopening, m, signers, hm, hvoting, rfl, hsigners⟩ henough
    obtain ⟨addr, haddr, rfl, hroom⟩ := hnext hl
    have hmany := threshold_eq henough
    apply hact c m signers addr hm hopening hvoting haddr hroom ⟨hmember hsigners haddr, ?_⟩
    simpa using hmany
  · rintro r msg hmsg hacted
    obtain ⟨addr, -, rfl⟩ := List.mem_map.mp hmsg
    exact hignore r addr hacted
  · rw [List.length_map, horder.length_eq, Committee.addresses, List.length_map]
    exact threshold_le h

variable {replica : NodeState → Prop} {seen : List HotstuffMessage}

theorem atPhase_voting (h : C.Healthy) (hs : Stage C step replica (voting C step) s) :
    AtPhase deliveryPhase C.addresses (deliveryPhase (C.ballot step)) (voting C step) [] s := by
  refine ⟨?_, List.forall_mem_map.2 fun _ _ => h.leader_mem, List.forall_mem_map.2 fun _ _ => rfl,
    List.forall_mem_nil _⟩
  rw [List.append_nil]
  exact hs.pending

theorem rests_voting (hs : Stage C step replica (voting C step) s) {addr : String}
    (haddr : addr ∈ C.addresses) (hne : addr ≠ C.leader)
    (hseen : seen.Perm (inbox addr (voting C step))) :
    Rests replica (handleAll C.handle addr (s.node addr) seen) := by
  rw [inbox_voting, if_neg fun heq => hne heq.symm] at hseen
  rw [hseen.eq_nil]
  exact ⟨hs.replicas addr haddr hne, rfl⟩

theorem order_of_inbox (hseen : seen.Perm (inbox C.leader (voting C step))) :
    ∃ order : List String, order.Perm C.addresses ∧ seen = order.map (C.vote · step) := by
  rw [inbox_voting, if_pos rfl] at hseen
  exact exists_order hseen

/-- **The votes for a step**: if enough votes make the leader propose the next one, that proposal is
on its way in the end. -/
theorem inevitable_certified (h : C.Healthy) (hstep : step = Prepare ∨ step = PreCommit)
    (hproposes : ProposesNext C step (step + 1))
    (hs : Stage C step replica (voting C step) s) :
    Inevitable (Delivery C.handle deliveryPhase) (fun s => ∃ signers, Enough C signers
      ∧ Stage C (step + 1) replica (proposing C (step + 1) (C.certified step signers)) s) s := by
  have hleader : ∀ order : List String, order.Perm C.addresses → ∃ signers, Enough C signers
      ∧ Proposes C (step + 1) (C.certified step signers)
        (handleAll C.handle C.leader (s.node C.leader) (order.map (C.vote · step))) := by
    intro order horder
    apply leader_votes h (by tauto) hs.leader hs.proposed horder
      (fun r => ∃ signers, Enough C signers ∧ Proposes C (step + 1) (C.certified step signers) r)
    · intro c m signers addr hc hopening hm haddr hroom henough
      obtain ⟨m', hm', hvoting⟩ := hproposes m signers addr hm haddr hroom henough
      refine ⟨signers ++ [addr], henough, ?_⟩
      rw [handle_running hc hm']
      exact ⟨⟨m', rfl, hvoting⟩, List.mem_append_left _ hopening, deliveries_proposal h⟩
    · rintro r addr ⟨signers, -, ⟨m, hm, hvoting⟩, -, -⟩
      exact handle_earlier hm hvoting.leading.working (Int.lt_succ step) rfl
  apply inevitable_of_phase h.distinct (atPhase_voting h hs) (fun addr r =>
    (addr = C.leader → ∃ signers, Enough C signers
      ∧ Proposes C (step + 1) (C.certified step signers) r)
    ∧ (addr ≠ C.leader → Rests replica r))
  · intro addr haddr seen hseen
    by_cases heq : addr = C.leader
    · subst heq
      obtain ⟨order, horder, rfl⟩ := order_of_inbox hseen
      obtain ⟨signers, henough, hnext⟩ := hleader order horder
      refine ⟨⟨fun _ => ⟨signers, henough, hnext⟩, fun hne => absurd rfl hne⟩,
        fun d hd => hnext.phase_lt rfl rfl ?_ hd⟩
      show 2 * step + Vote < 2 * (step + 1) + Propose
      unfold Vote Propose
      omega
    · have hrests := rests_voting hs haddr heq hseen
      exact ⟨⟨fun h => absurd h heq, fun _ => hrests⟩, fun d hd => hrests.phase_lt hd⟩
  · intro s' result hresult hnode hpending
    obtain ⟨signers, henough, hnext⟩ := (hresult C.leader h.leader_mem).1 rfl
    exact ⟨signers, henough, stage_of_proposes h hnext
      (fun addr haddr hne => (hresult addr haddr).2 hne) hnode hpending⟩

end Votes

/-! ## The decision -/

section Decision

/-- A node that has committed the block. -/
structure Commits (C : Committee) (block : Block) (c : NodeRun) : Prop where
  state : ∃ m, c.state = some m ∧ Finished C m
  committed : ∃ uow, .committed C.height block uow ∈ c.out

/-- The leader has committed the block and told the replicas; what else is on its way belongs to the
next height. -/
structure Decided (C : Committee) (signers : List String)
    (s : Flight String NodeRun HotstuffMessage) : Prop where
  leader : Commits C (C.committedBlock (C.certificate Commit signers)) (s.node C.leader)
  proposed : opening C ∈ (s.node C.leader).out
  replicas : ∀ addr ∈ C.addresses, addr ≠ C.leader →
    ∃ m, (s.node addr).state = some m ∧ Accepted C Decide m
  pending : ∃ rest, s.pending.Perm (toAll C (C.proposal Decide (C.certified Commit signers)) ++ rest)
    ∧ ∀ d ∈ rest, d.2.height = C.height + 1

/-- A leader that has decided in a phase. -/
structure Decides (C : Committee) (signers : List String)
    (r : NodeRun × List (String × HotstuffMessage)) : Prop where
  commits : Commits C (C.committedBlock (C.certificate Commit signers)) r.1
  proposed : opening C ∈ r.1.out
  sent : ∃ rest, r.2 = toAll C (C.proposal Decide (C.certified Commit signers)) ++ rest
    ∧ ∀ d ∈ rest, d.2.height = C.height + 1

theorem decides_of_votes (h : C.Healthy) (hc : ∃ m, c.state = some m ∧ Voting C Commit [] m)
    (hout : opening C ∈ c.out) {order : List String} (horder : order.Perm C.addresses) :
    ∃ signers, Enough C signers
      ∧ Decides C signers (handleAll C.handle C.leader c (order.map (C.vote · Commit))) := by
  apply leader_votes h (.inr (.inr rfl)) hc hout horder
    (fun r => ∃ signers, Enough C signers ∧ Decides C signers r)
  · intro c m signers addr hc hopening hm haddr hroom henough
    obtain ⟨m', uow, view, hm', hfinished, hview⟩ := leader_commit h hm haddr hroom henough
    refine ⟨signers ++ [addr], henough, ?_⟩
    rw [handle_running hc hm']
    refine ⟨⟨⟨m', rfl, hfinished⟩, uow, ?_⟩, List.mem_append_left _ hopening, ?_⟩
    · apply List.mem_append_right
      exact List.mem_cons_of_mem _ List.mem_cons_self
    · refine ⟨(viewMessages (C.config C.leader) view none).flatMap (deliveries (C.env C.leader)), ?_,
        fun d hd => height_of_viewMessages hview hd⟩
      rw [List.flatMap_cons, List.flatMap_cons, deliveries_broadcast h h.leader_mem rfl]
      rfl
  · rintro r addr ⟨signers, -, ⟨⟨m, hm, hfinished⟩, -⟩, -, -⟩
    exact handle_finished hm hfinished rfl

/-- **The votes to commit** end with the decision. -/
theorem inevitable_decided (h : C.Healthy)
    (hs : Stage C Commit (Accepted C Decide) (voting C Commit) s) :
    Inevitable (Delivery C.handle deliveryPhase)
      (fun s => ∃ signers, Enough C signers ∧ Decided C signers s) s := by
  apply inevitable_of_phase h.distinct (atPhase_voting h hs) (fun addr r =>
    (addr = C.leader → ∃ signers, Enough C signers ∧ Decides C signers r)
    ∧ (addr ≠ C.leader → Rests (Accepted C Decide) r))
  · intro addr haddr seen hseen
    by_cases heq : addr = C.leader
    · subst heq
      obtain ⟨order, horder, rfl⟩ := order_of_inbox hseen
      obtain ⟨signers, henough, hdecides⟩ := decides_of_votes h hs.leader hs.proposed horder
      refine ⟨⟨fun _ => ⟨signers, henough, hdecides⟩, fun hne => absurd rfl hne⟩, ?_⟩
      obtain ⟨rest, hsent, hrest⟩ := hdecides.sent
      rw [hsent, List.forall_mem_append]
      refine ⟨List.forall_mem_map.2 fun addr _ => deliveryPhase_lt_of_step rfl rfl ?_, fun d hd => ?_⟩
      · show 2 * Commit + Vote < 2 * Decide + Propose
        decide
      · apply deliveryPhase_lt_of_height
        rw [hrest d hd]
        exact Nat.lt_succ_self C.height
    · have hrests := rests_voting hs haddr heq hseen
      exact ⟨⟨fun h => absurd h heq, fun _ => hrests⟩, fun d hd => hrests.phase_lt hd⟩
  · intro s' result hresult hnode hpending
    obtain ⟨signers, henough, hdecides⟩ := (hresult C.leader h.leader_mem).1 rfl
    obtain ⟨rest, hsent, hrest⟩ := hdecides.sent
    have hone := flatMap_perm_one h.leader_mem h.distinct
      fun addr haddr hne => ((hresult addr haddr).2 hne).sent
    rw [hsent] at hone
    refine ⟨signers, henough, ?_, ?_, ?_, rest, hpending.trans hone, hrest⟩
    · rw [hnode C.leader h.leader_mem]
      exact hdecides.commits
    · rw [hnode C.leader h.leader_mem]
      exact hdecides.proposed
    · intro addr haddr hne
      rw [hnode addr haddr]
      exact ((hresult addr haddr).2 hne).state

/-- All validators have committed one block, which differs from the one that the validator with id
`height mod n + 1` has proposed in the certificate only, and have gone on to the next height. -/
def CommittedByAll (C : Committee) (s : Flight String NodeRun HotstuffMessage) : Prop :=
  ∃ leader proposal proposed committed,
    (newActorMapper C.validators).idToValAddrMap (C.height % C.validators.length + 1) = some leader
    ∧ Output.broadcast proposal ∈ (s.node leader).out
    ∧ proposal.type = Propose ∧ proposal.step = Prepare ∧ proposal.height = C.height
    ∧ proposal.round = 0 ∧ proposal.block = some proposed
    ∧ committed.withoutCertificate = proposed.withoutCertificate
    ∧ ∀ v ∈ C.validators, ∃ m uow, (s.node v.address).state = some m ∧ m.height = C.height + 1
      ∧ m.round = 0 ∧ .committed C.height committed uow ∈ (s.node v.address).out

theorem withoutCertificate_committedBlock (qc : QuorumCertificate) :
    (C.committedBlock qc).withoutCertificate = C.block.withoutCertificate := by
  simp only [Committee.committedBlock, Block.withoutCertificate, Option.map_map, Function.comp_def]

variable {signers : List String}

theorem commits_of_decide (h : C.Healthy) {addr : String} (haddr : addr ∈ C.addresses)
    (hne : addr ≠ C.leader) (hc : c.state = some m) (hm : Accepted C Decide m)
    (henough : Enough C signers) :
    Commits C (C.committedBlock (C.certificate Commit signers))
        (C.handle addr c (C.proposal Decide (C.certified Commit signers))).1
      ∧ ∀ d ∈ (C.handle addr c (C.proposal Decide (C.certified Commit signers))).2,
        d.2.height = C.height + 1 := by
  obtain ⟨m', uow, view, hm', hfinished, hview⟩ := replica_decide h haddr hne hm henough
  rw [handle_running hc hm']
  refine ⟨⟨⟨m', rfl, hfinished⟩, uow, ?_⟩, fun d hd => height_of_viewMessages hview hd⟩
  apply List.mem_append_right
  exact List.mem_cons_self

/-- **The last phase**: every replica commits the block that the leader has committed. -/
theorem inevitable_committedByAll (h : C.Healthy) (henough : Enough C signers)
    (hs : Decided C signers s) :
    Inevitable (Delivery C.handle deliveryPhase) (CommittedByAll C) s := by
  obtain ⟨rest, hpending, hrest⟩ := hs.pending
  have hlater : ∀ {d : String × HotstuffMessage}, d.2.height = C.height + 1 →
      deliveryPhase (C.proposal Decide (C.certified Commit signers)) < deliveryPhase d.2 := by
    intro d hd
    apply deliveryPhase_lt_of_height
    rw [hd]
    show C.height < C.height + 1
    omega
  have hphase := atPhase_toAll hpending fun d hd => hlater (hrest d hd)
  apply inevitable_of_phase h.distinct hphase (fun addr r =>
    Commits C (C.committedBlock (C.certificate Commit signers)) r.1
    ∧ (addr = C.leader → opening C ∈ r.1.out))
  · intro addr haddr seen hseen
    rw [inbox_toAll h haddr] at hseen
    rw [List.perm_singleton.mp hseen, handleAll_singleton]
    by_cases heq : addr = C.leader
    · subst heq
      obtain ⟨m, hm, hfinished⟩ := hs.leader.state
      have hdrop : C.handle C.leader (s.node C.leader)
          (C.proposal Decide (C.certified Commit signers)) = (s.node C.leader, []) :=
        handle_finished hm hfinished rfl
      rw [hdrop]
      exact ⟨⟨hs.leader, fun _ => hs.proposed⟩, List.forall_mem_nil _⟩
    · obtain ⟨m, hc, hm⟩ := hs.replicas addr haddr heq
      obtain ⟨hcommits, hsent⟩ := commits_of_decide h haddr heq hc hm henough
      exact ⟨⟨hcommits, fun h => absurd h heq⟩, fun d hd => hlater (hsent d hd)⟩
  · intro s' result hresult hnode _
    refine ⟨C.leader, C.proposal Prepare .none, C.block,
      C.committedBlock (C.certificate Commit signers), h.idToValAddrMap_leaderId, ?_,
      rfl, rfl, rfl, rfl, rfl, withoutCertificate_committedBlock _, ?_⟩
    · rw [hnode C.leader h.leader_mem]
      exact (hresult C.leader h.leader_mem).2 rfl
    · intro v hv
      have haddr : v.address ∈ C.addresses := List.mem_map_of_mem hv
      obtain ⟨⟨m, hm, hfinished⟩, uow, hcommitted⟩ := (hresult v.address haddr).1
      rw [hnode v.address haddr]
      exact ⟨m, uow, hm, hfinished.height_eq, hfinished.round_eq, hcommitted⟩

end Decision

/-! ## The height -/

/-- **A height without failures.**  From the beginning of a height, whichever way the messages of
each phase are ordered, all validators commit the block that the validator with id
`height mod n + 1` has proposed, and reach round 0 of the next height. -/
theorem happy_path (C : Committee) (h : C.Healthy) (uow : String → Option UnitOfWork) :
    Inevitable (Delivery C.handle deliveryPhase) (CommittedByAll C) (C.start uow) := by
  apply (inevitable_proposal h uow).trans
  intro s hs
  have hprepare := inevitable_votes h (by decide)
    (fun addr haddr hne m hm => replica_prepare h haddr hne hm) hs
  apply hprepare.trans
  intro s hs
  apply (inevitable_certified h (.inl rfl) (leader_prepare h) hs).trans
  rintro s ⟨signers, henough, hs⟩
  have hpreCommit := inevitable_votes h (by decide)
    (fun addr haddr hne m hm => replica_preCommit h haddr hne hm henough) hs
  apply hpreCommit.trans
  intro s hs
  apply (inevitable_certified h (.inr rfl) (leader_preCommit h) hs).trans
  rintro s ⟨signers, henough, hs⟩
  have hcommit := inevitable_votes h (by decide)
    (fun addr haddr hne m hm => replica_commit h haddr hne hm henough) hs
  apply hcommit.trans
  intro s hs
  apply (inevitable_decided h hs).trans
  rintro s ⟨signers, henough, hs⟩
  exact inevitable_committedByAll h henough hs

/-! ## Four validators -/

/-- The number of a validator among the four, from its address or its public key. -/
def fourNumber (name : String) : UInt8 :=
  if name = "a1" ∨ name = "k1" then 1
  else if name = "a2" ∨ name = "k2" then 2
  else if name = "a3" ∨ name = "k3" then 3
  else 4

/-- Signatures that consist of the private key and the step that is signed. -/
def keySignatures : Platform where
  verify key content signature :=
    signature == [fourNumber key, UInt8.ofNat content.step.toNat]
  sign privateKey content := privateKey ++ [UInt8.ofNat content.step.toNat]
  msgSize _ := 100
  marshalQC _ := []
  sizeofBlock := 64

/-- The four validators at height 1. -/
def fourCommittee : Committee where
  platform := keySignatures
  validators := fourValidators
  height := 1
  config addr := fourConfig (fourNumber addr) addr
  env _ := fourEnv "hash"
  previous := "previous"
  execute _ _ := "hash"
  transactions _ := []

theorem healthy_fourCommittee : fourCommittee.Healthy where
  validators_ne := by decide
  distinct := by decide
  validators_lt := by decide
  height_lt := by decide
  address := by decide
  addressBytes := by decide
  nodeId := by decide
  signs v hv content := by
    have hkey : fourNumber v.publicKey = fourNumber v.address := by
      revert v
      decide
    simp [fourCommittee, keySignatures, fourConfig, hkey]
  signature_ne addr _ content := by simp [fourCommittee, keySignatures, fourConfig]
  reads _ _ := rfl
  readsHash _ _ := rfl
  opens _ _ := rfl
  commits _ _ _ := rfl
  applies _ _ _ _ _ := rfl
  creates _ _ _ _ _ := rfl
  hash_ne _ _ := by simp [fourCommittee]
  blockSize := by decide
  roomy addr _ := by
    refine ⟨?_, ?_, fun step => ?_⟩
    · show 10000 < 2 ^ 64
      decide
    · show 4 * 100 < 10000
      decide
    · simp [fourCommittee, keySignatures, fourConfig, Committee.addresses, fourValidators]

/-- The four validators commit the block that the second of them proposes. -/
theorem happy_path_four :
    fourCommittee.Healthy
      ∧ (newActorMapper fourCommittee.validators).idToValAddrMap 2 = some "a2"
      ∧ Inevitable (Delivery fourCommittee.handle deliveryPhase) (CommittedByAll fourCommittee)
        (fourCommittee.start fun _ => none) :=
  ⟨healthy_fourCommittee, by decide, happy_path fourCommittee healthy_fourCommittee fun _ => none⟩

end Pocket.Analysis
