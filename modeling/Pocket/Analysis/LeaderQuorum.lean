import Pocket.Analysis.FatalMessages

/-!
# The messages on which a leader goes on

A leader goes on to the next step when the pool of the step holds enough messages.  What is in a pool
is decided by the ante handler, message by message: it asks no `NewRound` message and no proposal for
a signature, takes two messages of one validator for two, compares blocks by their state hash, and a
node that is moved to another round by a message keeps the pools of the last one.

`Orderly` excludes these four, one by one.  Along a run that meets it the pools are `Collected`: they
hold messages of the current view, of distinct validators, over the leader's block, and a leader that
goes on has a quorum (`leader_moves_on_quorum`).
-/

set_option autoImplicit false

namespace Pocket.Analysis

open Pocket.Model

variable (P : Platform) (cfg : NodeConfig)

/-! ## Messages received in a round -/

/-- Height and round of a running node. -/
def NodeRun.roundOf (c : NodeRun) : Option (ℕ × ℕ) := c.state.map fun m => (m.height, m.round)

/-- The message of an event. -/
def Event.messages : Event → List HotstuffMessage
  | .message msg => [msg]
  | .timeout => []

/-- A node with the messages it has received since it has entered its round. -/
structure Receiving where
  node : NodeRun
  received : List HotstuffMessage

/-- The round is entered with the message that moves the node there. -/
def Receiving.step (w : Receiving) (e : Env × Event) : Receiving :=
  let node := w.node.step P cfg e
  { node := node
    received := (if NodeRun.roundOf node = NodeRun.roundOf w.node then w.received else [])
      ++ Event.messages e.2 }

def Receiving.start (height : ℕ) : Receiving := ⟨NodeRun.start height, []⟩

/-! ## What a leader counts, and what it should -/

/-- The message carries a signature of the validator over its content. -/
def AttributedTo (vals : List Actor) (x : HotstuffMessage) (addr : String) : Prop :=
  ∃ ps v, x.getPartialSignature = some ps ∧ ps.address = addr
    ∧ (newActorMapper vals).validatorMap addr = some v
    ∧ isSignatureValid P x v.publicKey ps.signature = true

/-- The message counts for a step of a view: it is of that step and view, of a validator, and over
the leader's block, which a `NewRound` message does not have. -/
structure Backs (vals : List Actor) (height round : ℕ) (step : ℤ) (block : Option Block)
    (addr : String) (x : HotstuffMessage) : Prop where
  height_eq : x.height = height
  round_eq : x.round = round
  step_eq : x.step = step
  block_eq : step ≠ NewRound → x.block = block
  attributed : AttributedTo P vals x addr

/-- More than two thirds of the validators have sent, in the round, a message that counts. -/
def QuorumReceived (vals : List Actor) (height round : ℕ) (step : ℤ) (block : Option Block)
    (received : List HotstuffMessage) : Prop :=
  ∃ S : Finset String, 2 * vals.length < 3 * S.card
    ∧ ∀ addr ∈ S, ∃ x ∈ received, Backs P vals height round step block addr x

/-- The messages received in the round of a message, with it: those before it count only if the node
was in the round. -/
def receivedWith (w : Receiving) (m : NodeState) (msg : HotstuffMessage) : List HotstuffMessage :=
  (if m.round = msg.round then w.received else []) ++ [msg]

/-- The leader goes on to the next step: it broadcasts the proposal for it, or, without a block to
propose, gives up the round.  Before `Prepare` it can also give up without having gone on. -/
def MovesOn (msg : HotstuffMessage) (r : Result) : Prop :=
  (∃ proposal, Output.broadcast proposal ∈ r.out ∧ proposal.step = msg.step + 1)
    ∨ (msg.step ≠ NewRound ∧ ∃ m', r.state = some m'
      ∧ ¬ (m'.height = msg.height ∧ m'.round = msg.round ∧ m'.step = msg.step))

/-- The address in the partial signature of a message. -/
def signer (x : HotstuffMessage) : Option String := x.getPartialSignature.map (·.address)

/-- What has to hold of the messages that a leader handles. -/
structure OrderlyMessage (vals : List Actor) (m : NodeState) (msg : HotstuffMessage) : Prop where
  /-- What is not checked is signed. -/
  signed : msg.step = NewRound ∨ msg.type = Propose → ∃ addr, AttributedTo P vals msg addr
  /-- No validator is counted twice. -/
  fresh : ∀ pool, m.hotstuffMempool msg.step = some pool → ∀ x ∈ pool.messages,
    signer x ≠ signer msg
  /-- A vote is over the leader's block. -/
  block_eq : msg.step ≠ NewRound → msg.block = m.block

/-- The condition on one event: a message finds no messages of an earlier round in the pools, and
what the node handles as leader is orderly. -/
def Orderly (validators : ℕ → List Actor) (w : Receiving) (e : Env × Event) : Prop :=
  ∀ m msg, w.node.state = some m → e.2 = .message msg →
    (Considered cfg m msg → m.round < msg.round → AllEmpty m.hotstuffMempool)
      ∧ (HandledAs cfg e.1 true m msg → OrderlyMessage P (validators m.height) m msg)

variable {P cfg} {env : Env} {r : Result}

/-! ## The leader goes on with enough messages only -/

section MovingOn

open HotstuffLeaderMessageHandler

variable {m : NodeState} {msg : HotstuffMessage}

/-- INTERNAL: without enough messages the handler ends the process, or leaves the view and sends
nothing. -/
theorem whenEnough_idle {step : ℤ} {body : NodeState → Result} :
    (∃ m₀, Admits P cfg env m msg m₀ ∧ didReceiveEnoughMessageForStep env m₀ step = true)
      ∨ whenEnough P cfg env step m msg body = ⟨none, []⟩
      ∨ ∃ pools, whenEnough P cfg env step m msg body
          = ⟨some { m with hotstuffMempool := pools }, []⟩ := by
  unfold whenEnough anteHandle
  split
  · exact .inr (.inl rfl)
  · exact .inr (.inr ⟨m.hotstuffMempool, rfl⟩)
  rename_i hvalid
  split
  swap
  · exact .inr (.inr ⟨m.hotstuffMempool, rfl⟩)
  rename_i hsigned
  split
  · exact .inr (.inl rfl)
  · rename_i m₀ hindex
    obtain ⟨pools, rfl, -⟩ := indexHotstuffMessage_snd hindex
    exact .inr (.inr ⟨pools, rfl⟩)
  · rename_i m₀ hindex
    by_cases henough : didReceiveEnoughMessageForStep env m₀ step = true
    · exact .inl ⟨m₀, ⟨hvalid, hsigned, hindex⟩, henough⟩
    · obtain ⟨pools, rfl, -⟩ := indexHotstuffMessage_snd hindex
      simp only [if_neg henough]
      exact .inr (.inr ⟨pools, rfl⟩)

section

variable (hheight : m.height = msg.height) (hround : m.round = msg.round)
  (hstep : m.step = msg.step)
include hheight hround hstep

theorem not_movesOn_idle
    (hr : r = ⟨none, []⟩ ∨ ∃ pools, r = ⟨some { m with hotstuffMempool := pools }, []⟩) :
    ¬ MovesOn msg r := by
  intro hmoves
  rcases hr with rfl | ⟨pools, rfl⟩
  · rcases hmoves with ⟨proposal, hsent, -⟩ | ⟨-, m', hm', -⟩
    · simp at hsent
    · cases hm'
  · rcases hmoves with ⟨proposal, hsent, -⟩ | ⟨-, m', hm', hview⟩
    · simp at hsent
    · obtain rfl := Option.some.inj hm'
      exact hview ⟨hheight, hround, hstep⟩

/-- **A leader goes on with enough messages only.** -/
theorem enough_of_movesOn (hmoves : MovesOn msg (leaderHandlers P cfg env msg.step m msg)) :
    ∃ m₀, Admits P cfg env m msg m₀ ∧ didReceiveEnoughMessageForStep env m₀ msg.step = true := by
  have hidle : ∀ {step : ℤ} {body : NodeState → Result}, msg.step = step →
      MovesOn msg (whenEnough P cfg env step m msg body) →
      ∃ m₀, Admits P cfg env m msg m₀ ∧ didReceiveEnoughMessageForStep env m₀ msg.step = true := by
    intro step body hmsg hmoves
    rcases @whenEnough_idle P cfg env m msg step body with ⟨m₀, hadmits, henough⟩ | hr
    · rw [hmsg]
      exact ⟨m₀, hadmits, henough⟩
    · exact absurd hmoves (not_movesOn_idle hheight hround hstep hr)
  unfold leaderHandlers at hmoves
  split at hmoves
  · exact hidle ‹_› hmoves
  split at hmoves
  · exact hidle ‹_› hmoves
  split at hmoves
  · exact hidle ‹_› hmoves
  split at hmoves
  · exact hidle ‹_› hmoves
  split at hmoves
  · -- `HandleDecideMessage` of a leader only indexes the message
    have hr : handleDecideMessage P cfg env m msg = ⟨none, []⟩
        ∨ ∃ pools, handleDecideMessage P cfg env m msg
          = ⟨some { m with hotstuffMempool := pools }, []⟩ := by
      unfold handleDecideMessage anteHandle
      repeat' split
      all_goals first
        | exact .inl rfl
        | exact .inr ⟨m.hotstuffMempool, rfl⟩
        | obtain ⟨pools, rfl, -⟩ := indexHotstuffMessage_snd ‹_›
          exact .inr ⟨pools, rfl⟩
    exact absurd hmoves (not_movesOn_idle hheight hround hstep hr)
  · exact absurd hmoves (not_movesOn_idle hheight hround hstep (.inl rfl))

end

end MovingOn

/-! ## The pools of a leader -/

/-- The pools of a node hold what they should: messages of the view, received in the round, of
distinct validators, at a leader, and none of a later step than the node's. -/
structure Collected (P : Platform) (cfg : NodeConfig) (validators : ℕ → List Actor)
    (received : List HotstuffMessage) (m : NodeState) : Prop where
  kept : PoolsKept m.hotstuffMempool
  backed : ∀ step pool, m.hotstuffMempool step = some pool → ∀ x ∈ pool.messages, x ∈ received
    ∧ ∃ addr, Backs P (validators m.height) m.height m.round step m.block addr x
  led : ∀ step pool, m.hotstuffMempool step = some pool → pool.messages ≠ [] →
    isLeader cfg m = true ∧ step ≤ m.step
  distinct : ∀ step pool, m.hotstuffMempool step = some pool → (pool.messages.map signer).Nodup

theorem nodup_push {pool : HotstuffFIFOMempool} {msg : HotstuffMessage} {maxTotalMsgBytes : ℕ}
    (hdistinct : (pool.messages.map signer).Nodup)
    (hfresh : ∀ x ∈ pool.messages, signer x ≠ signer msg) :
    ((pool.push P maxTotalMsgBytes msg).messages.map signer).Nodup := by
  have hadded : ((pool.messages ++ [msg]).map signer).Nodup := by
    rw [List.map_append, List.map_singleton, List.nodup_append]
    refine ⟨hdistinct, List.nodup_singleton _, ?_⟩
    intro a ha b hb
    obtain ⟨x, hx, rfl⟩ := List.mem_map.mp ha
    rw [List.mem_singleton.mp hb]
    exact hfresh x hx
  unfold HotstuffFIFOMempool.push
  simp only
  split
  · have htail : ((pool.messages ++ [msg]).tail.map signer).Nodup := by
      rw [List.map_tail]
      exact hadded.tail
    exact htail
  · exact hadded

namespace Collected

variable {validators : ℕ → List Actor} {received : List HotstuffMessage} {m m' m₀ m₁ : NodeState}
  {msg : HotstuffMessage}

theorem of_allEmpty (hkept : PoolsKept m.hotstuffMempool) (hempty : AllEmpty m.hotstuffMempool) :
    Collected P cfg validators received m where
  kept := hkept
  backed step pool hpool x hx := by
    rw [hempty step pool hpool] at hx
    exact absurd hx List.not_mem_nil
  led step pool hpool hne := absurd (hempty step pool hpool) hne
  distinct step pool hpool := by
    rw [hempty step pool hpool]
    exact List.nodup_nil

section

variable (h : Collected P cfg validators received m)
include h

theorem allEmpty (hlead : isLeader cfg m = false) : AllEmpty m.hotstuffMempool := by
  intro step pool hpool
  by_contra hne
  have hleads := (h.led step pool hpool hne).1
  rw [hlead] at hleads
  cases hleads

theorem moved {step : ℤ} {leader : Option ℕ} (hstep : m.step ≤ step)
    (hleader : m.leaderId.isSome → leader = m.leaderId) :
    Collected P cfg validators received { m with step := step, leaderId := leader } where
  kept := h.kept
  backed := h.backed
  led step' pool hpool hne := by
    obtain ⟨hlead, hle⟩ := h.led step' pool hpool hne
    have hset : m.leaderId = some cfg.nodeId := by simpa [isLeader] using hlead
    have hsame : leader = some cfg.nodeId := by
      rw [hleader (by rw [hset]; rfl), hset]
    refine ⟨by simp [isLeader, hsame], ?_⟩
    exact hle.trans hstep
  distinct := h.distinct

theorem admits (horderly : OrderlyMessage P (validators m.height) m msg)
    (hreads : ReadsAt m.height (validators m.height) env) (hlead : isLeader cfg m = true)
    (hheight : msg.height = m.height) (hround : msg.round = m.round) (hstep : m.step = msg.step)
    (hadmits : Admits P cfg env m msg m₀) : Collected P cfg validators (received ++ [msg]) m₀ := by
  have hkept := h.kept.admits hadmits
  have hattributed : ∃ addr, AttributedTo P (validators m.height) msg addr := by
    by_cases hchecked : msg.step = NewRound ∨ msg.type = Propose
    · exact horderly.signed hchecked
    · obtain ⟨hnew, hpropose⟩ := not_or.mp hchecked
      have hsigned := hadmits.signed
      unfold validateMessageSignature at hsigned
      rw [if_neg hnew, if_neg hpropose] at hsigned
      split at hsigned
      · cases hsigned
      rename_i ps hps
      split at hsigned
      · cases hsigned
      split at hsigned
      · cases hsigned
      rename_i vals hvals
      rw [hreads vals hvals] at hsigned
      split at hsigned
      · cases hsigned
      rename_i v hv
      exact ⟨ps.address, ps, v, hps, rfl, hv, hsigned⟩
  obtain ⟨addr, hattributed⟩ := hattributed
  have hbacks : Backs P (validators m.height) m.height m.round msg.step m.block addr msg :=
    ⟨hheight, hround, rfl, horderly.block_eq, hattributed⟩
  obtain ⟨pool, hpool, rfl⟩ := hadmits.pushed
  have hold := h.backed
  refine ⟨hkept, ?_, ?_, ?_⟩
  · intro step pool' hpool' x hx
    by_cases hsame : step = msg.step
    · subst hsame
      simp only [Function.update_self, Option.some.injEq] at hpool'
      subst hpool'
      rcases HotstuffFIFOMempool.mem_push hx with rfl | hx
      · exact ⟨by simp, addr, hbacks⟩
      · obtain ⟨hmem, hbacked⟩ := hold _ pool hpool x hx
        exact ⟨List.mem_append_left _ hmem, hbacked⟩
    · simp only [Function.update_of_ne hsame] at hpool'
      obtain ⟨hmem, hbacked⟩ := hold step pool' hpool' x hx
      exact ⟨List.mem_append_left _ hmem, hbacked⟩
  · intro step pool' hpool' hne
    by_cases hsame : step = msg.step
    · exact ⟨hlead, by rw [hsame, ← hstep]⟩
    · simp only [Function.update_of_ne hsame] at hpool'
      exact h.led step pool' hpool' hne
  · intro step pool' hpool'
    by_cases hsame : step = msg.step
    · subst hsame
      simp only [Function.update_self, Option.some.injEq] at hpool'
      subst hpool'
      exact nodup_push (h.distinct _ pool hpool) (horderly.fresh pool hpool)
    · simp only [Function.update_of_ne hsame] at hpool'
      exact h.distinct step pool' hpool'

theorem mono {received' : List HotstuffMessage} (hsub : received ⊆ received') :
    Collected P cfg validators received' m :=
  ⟨h.kept, fun step pool hpool x hx => ⟨hsub (h.backed step pool hpool x hx).1,
    (h.backed step pool hpool x hx).2⟩, h.led, h.distinct⟩

theorem settles (hstep : m.step = msg.step) (hsettles : Settles msg m m') :
    Collected P cfg validators received m' := by
  have hkept := h.kept.shrinks hsettles.pools
  rcases hsettles.rest with hempty | ⟨hheight, hround, hleader, hle, hblock⟩
  · exact .of_allEmpty hkept hempty
  -- a pool that still holds something is as it was
  have hpools : ∀ step pool, m'.hotstuffMempool step = some pool → pool.messages ≠ [] →
      m.hotstuffMempool step = some pool := by
    intro step pool hpool hne
    obtain ⟨x, hx⟩ := List.exists_mem_of_ne_nil _ hne
    exact hsettles.pools.mem hpool hx
  refine ⟨hkept, ?_, ?_, ?_⟩
  · intro step pool hpool x hx
    have hne := List.ne_nil_of_mem hx
    have hold := hpools step pool hpool hne
    obtain ⟨hmem, addr, hbacks⟩ := h.backed step pool hold x hx
    refine ⟨hmem, addr, ?_⟩
    rw [hheight, hround]
    refine ⟨hbacks.height_eq, hbacks.round_eq, hbacks.step_eq, ?_, hbacks.attributed⟩
    intro hlater
    rcases hblock with hsame | hnew
    · rw [hsame]
      exact hbacks.block_eq hlater
    · -- in `NewRound` no pool of a later step holds anything
      have hfirst := (h.led step pool hold hne).2
      have hknown := (h.kept.known step).mp (by rw [hold]; rfl)
      rw [hstep, hnew] at hfirst
      exact absurd (le_antisymm hfirst hknown.1) hlater
  · intro step pool hpool hne
    obtain ⟨hlead, hfirst⟩ := h.led step pool (hpools step pool hpool hne) hne
    have hlead' : isLeader cfg m' = true := by
      unfold isLeader at hlead ⊢
      rw [hleader]
      exact hlead
    exact ⟨hlead', hfirst.trans hle⟩
  · intro step pool hpool
    by_cases hne : pool.messages = []
    · rw [hne]
      exact List.nodup_nil
    · exact h.distinct step pool (hpools step pool hpool hne)

theorem position (hreached : Reached msg m m₁) (hstep : m₁.step = msg.step)
    (hround : m.round < msg.round → AllEmpty m.hotstuffMempool) :
    Collected P cfg validators (if m.round = msg.round then received else []) m₁ := by
  have hforward := hreached.forward
  obtain ⟨step, leader, rfl, -, hleader⟩ := hreached.state
  by_cases hsame : m.round = msg.round
  · rw [if_pos hsame, ← hsame]
    refine h.moved ?_ (hleader hsame.symm)
    have hstep' : step = msg.step := hstep
    omega
  · exact .of_allEmpty h.kept (hround (by omega))

theorem handled (hr : HandledIn P cfg env m msg m₁ r) (hlead : isLeader cfg m₁ = true)
    (hmoves : m.round < msg.round → AllEmpty m.hotstuffMempool)
    (horderly : OrderlyMessage P (validators m.height) m msg)
    (hreads : ReadsAt m.height (validators m.height) env)
    (hm₀ : m₀ = m₁ ∨ Admits P cfg env m₁ msg m₀) :
    Collected P cfg validators ((if m.round = msg.round then received else []) ++ [msg]) m₀
      ∧ m₀.height = m.height ∧ m₀.round = msg.round ∧ m₀.step = msg.step ∧ m₀.block = m.block := by
  have hcollected := h.position hr.reached hr.step_eq hmoves
  have hheight := hr.reached.height
  have hstep := hr.step_eq
  obtain ⟨step, leader, rfl, -⟩ := hr.reached.state
  rcases hm₀ with rfl | hadmits
  · exact ⟨hcollected.mono (List.subset_append_left _ _), rfl, rfl, hstep, rfl⟩
  · have horderly₁ : OrderlyMessage P (validators m.height)
        { m with step := step, round := msg.round, leaderId := leader } msg :=
      ⟨horderly.signed, horderly.fresh, horderly.block_eq⟩
    have hadded := hcollected.admits horderly₁ hreads hlead hheight rfl hstep hadmits
    obtain ⟨pool, -, rfl⟩ := hadmits.pushed
    exact ⟨hadded, rfl, rfl, hstep, rfl⟩

theorem quorumReceived (hreads : ReadsAt m.height (validators m.height) env) {step : ℤ}
    (henough : didReceiveEnoughMessageForStep env m step = true) :
    QuorumReceived P (validators m.height) m.height m.round step m.block received := by
  unfold didReceiveEnoughMessageForStep at henough
  split at henough
  swap
  · cases henough
  rename_i vals pool hvals hpool
  rw [hreads vals hvals] at henough
  simp only [validateOptimisticThresholdMet, decide_eq_true_eq] at henough
  have hsize := (h.kept.counted step pool hpool).size_le
  have hsigned : ∀ x ∈ pool.messages, ∃ addr, signer x = some addr
      ∧ Backs P (validators m.height) m.height m.round step m.block addr x := by
    intro x hx
    obtain ⟨-, addr, hbacks⟩ := h.backed step pool hpool x hx
    obtain ⟨ps, v, hps, haddr, -⟩ := hbacks.attributed
    exact ⟨addr, by rw [signer, hps, Option.map_some, haddr], hbacks⟩
  -- every message has a signer, so the signers are as many as the messages
  have hsigners : (pool.messages.filterMap signer).map some = pool.messages.map signer := by
    rw [List.map_filterMap_some_eq_filter_map_isSome, List.filter_eq_self]
    intro a ha
    obtain ⟨x, hx, rfl⟩ := List.mem_map.mp ha
    obtain ⟨addr, haddr, -⟩ := hsigned x hx
    rw [haddr]
    rfl
  have hdistinct : (pool.messages.filterMap signer).Nodup := by
    apply List.Nodup.of_map some
    rw [hsigners]
    exact h.distinct step pool hpool
  have hcard : (pool.messages.filterMap signer).toFinset.card = pool.messages.length := by
    rw [List.toFinset_card_of_nodup hdistinct]
    have hlength := congrArg List.length hsigners
    simpa using hlength
  refine ⟨(pool.messages.filterMap signer).toFinset, by omega, ?_⟩
  intro addr haddr
  obtain ⟨x, hx, hsigner⟩ := List.mem_filterMap.mp (List.mem_toFinset.mp haddr)
  obtain ⟨addr', hsigner', hbacks⟩ := hsigned x hx
  obtain rfl := Option.some.inj (hsigner.symm.trans hsigner')
  exact ⟨x, (h.backed step pool hpool x hx).1, hbacks⟩

end

end Collected

section Message

variable {validators : ℕ → List Actor} {received : List HotstuffMessage} {m m' m₁ : NodeState}
  {msg : HotstuffMessage}

/-- The messages received before that still count after an event. -/
def stillReceived (received : List HotstuffMessage) (m m' : NodeState) : List HotstuffMessage :=
  if (m'.height, m'.round) = (m.height, m.round) then received else []

theorem collected_message (h : Collected P cfg validators received m)
    (hmoves : Considered cfg m msg → m.round < msg.round → AllEmpty m.hotstuffMempool)
    (horderly : HandledAs cfg env true m msg → OrderlyMessage P (validators m.height) m msg)
    (hreads : ReadsAt m.height (validators m.height) env)
    (hm' : (handleHotstuffMessage P cfg env m msg).state = some m') :
    Collected P cfg validators (stillReceived received m m' ++ [msg]) m' := by
  have hkept : PoolsKept m'.hotstuffMempool := h.kept.handleEvent (.message msg) hm'
  rcases handleHotstuffMessage_cases P cfg env m msg with hend | ⟨m₁, hpos, -, hr⟩ | ⟨m₁, hr⟩
  · rw [hend] at hm'
    cases hm'
  · rw [hr] at hm'
    obtain rfl := Option.some.inj hm'
    rcases positionForMessage_dropped hpos with rfl | ⟨helects, step, rfl, -⟩
    · unfold stillReceived
      rw [if_pos rfl]
      exact h.mono (List.subset_append_left _ _)
    · -- the node was moved to a later round, or had no leader
      apply Collected.of_allEmpty hkept
      rcases helects.2.1 with hround | hnone
      · have hpast := helects.1.2.2
        exact hmoves helects.1 (by omega)
      · apply h.allEmpty
        simp [isLeader, hnone]
  · have hconsidered := considered_of_position hr.position
    rw [hr.result] at hm'
    split at hm'
    · rename_i hlead
      have hmsg := horderly ⟨m₁, hr.position, hlead⟩
      obtain ⟨m₀, hm₀, hsettles⟩ := leaderHandlers_settles hr.step_eq hm'
      obtain ⟨hadded, hheight₀, hround₀, hstep₀, -⟩ :=
        h.handled hr hlead (hmoves hconsidered) hmsg hreads hm₀
      have hsettled := hadded.settles hstep₀ hsettles
      rcases hsettles.rest with hempty | ⟨hheight, hround, -⟩
      · exact .of_allEmpty hkept hempty
      · -- the view is still that of the message
        have hiff : (m'.height, m'.round) = (m.height, m.round) ↔ m.round = msg.round := by
          rw [hheight, hround, hheight₀, hround₀]
          simp [eq_comm]
        unfold stillReceived
        simp only [hiff]
        exact hsettled
    · rename_i hlead
      have hcollected := h.position hr.reached hr.step_eq (hmoves hconsidered)
      have hempty := hcollected.allEmpty (Bool.eq_false_iff.mpr hlead)
      apply Collected.of_allEmpty hkept
      rcases replicaStep_pools (replicaHandlers_step P cfg env m₁ msg) hm' with hsame | hcleared
      · rw [hsame]
        exact hempty
      · rw [hcleared]
        exact allEmpty_clearMessagesPool _

end Message

/-! ## Runs -/

section Run

variable {validators : ℕ → List Actor}

theorem collected_step {w : Receiving} {e : Env × Event}
    (hw : ∀ m, w.node.state = some m → Collected P cfg validators w.received m)
    (hreads : ∀ height, ReadsAt height (validators height) e.1)
    (horderly : Orderly P cfg validators w e) :
    ∀ m, (w.step P cfg e).node.state = some m →
      Collected P cfg validators (w.step P cfg e).received m := by
  intro m' hm'
  have hnode : (w.node.step P cfg e).state = some m' := hm'
  obtain ⟨m, hstate, hevent⟩ := NodeRun.exists_of_step P cfg hnode
  have hcollected := hw m hstate
  have hround : NodeRun.roundOf (w.node.step P cfg e) = NodeRun.roundOf w.node
      ↔ (m'.height, m'.round) = (m.height, m.round) := by
    simp [NodeRun.roundOf, hnode, hstate]
  obtain ⟨env, ev⟩ := e
  cases ev with
  | timeout =>
    have hkept : PoolsKept m'.hotstuffMempool := hcollected.kept.handleEvent .timeout hevent
    have hinterrupted : (interruptRound cfg m).state = some m' := hevent
    rw [interruptRound_state] at hinterrupted
    obtain rfl := Option.some.inj hinterrupted
    exact .of_allEmpty hkept (allEmpty_clearMessagesPool _)
  | message msg =>
    obtain ⟨hmoves, hmsg⟩ := horderly m msg hstate rfl
    have hnext := collected_message hcollected hmoves hmsg (hreads m.height) hevent
    unfold Receiving.step
    simp only [hround]
    exact hnext

theorem collected_run {start : ℕ} {es : List (Env × Event)}
    (hreads : ∀ e ∈ es, ∀ height, ReadsAt height (validators height) e.1)
    (horderly : Runs.Guarded (Receiving.step P cfg) (Orderly P cfg validators)
      (Receiving.start start) es) :
    ∀ m, (Runs.run (Receiving.step P cfg) (Receiving.start start) es).node.state = some m →
      Collected P cfg validators
        (Runs.run (Receiving.step P cfg) (Receiving.start start) es).received m := by
  have hstart : ∀ m, (Receiving.start start).node.state = some m →
      Collected P cfg validators (Receiving.start start).received m := by
    rintro m ⟨rfl⟩
    refine .of_allEmpty (@PoolsKept.run P cfg _ start [] rfl) ?_
    intro step pool hpool
    have hinit : initMessagesPool step = some pool := hpool
    unfold initMessagesPool at hinit
    split at hinit
    · obtain rfl := Option.some.inj hinit
      rfl
    · cases hinit
  have hguard := (Runs.guarded_of_forall_mem hreads).and horderly
  have hstep : ∀ (w : Receiving) (e : Env × Event),
      (∀ m, w.node.state = some m → Collected P cfg validators w.received m) →
      (∀ height, ReadsAt height (validators height) e.1) ∧ Orderly P cfg validators w e →
      ∀ m, (w.step P cfg e).node.state = some m →
        Collected P cfg validators (w.step P cfg e).received m :=
    fun w e hw h => collected_step hw h.1 h.2
  exact Runs.invariant_run hstep hstart hguard

/-- **A leader goes on with a quorum only**, in a run that meets the condition. -/
theorem leader_moves_on_quorum {start : ℕ} {es : List (Env × Event)} {env : Env}
    {msg : HotstuffMessage}
    (hreads : ∀ e ∈ es ++ [(env, .message msg)], ∀ height, ReadsAt height (validators height) e.1)
    (horderly : Runs.Guarded (Receiving.step P cfg) (Orderly P cfg validators)
      (Receiving.start start) (es ++ [(env, .message msg)]))
    {w : Receiving} (hw : Runs.run (Receiving.step P cfg) (Receiving.start start) es = w)
    {m : NodeState} (hm : w.node.state = some m) (hleads : HandledAs cfg env true m msg)
    (hmoves : MovesOn msg (handleHotstuffMessage P cfg env m msg)) :
    QuorumReceived P (validators m.height) m.height msg.round msg.step m.block
      (receivedWith w m msg) := by
  obtain ⟨hbefore, hlast, -⟩ := Runs.guarded_append_iff.mp horderly
  have hcollected := collected_run (fun e he => hreads e (List.mem_append_left _ he)) hbefore m
  rw [hw] at hlast hcollected
  have hcollected := hcollected hm
  have hreads' : ReadsAt m.height (validators m.height) env :=
    hreads (env, .message msg) (by simp) m.height
  obtain ⟨hmoved, hmsg⟩ := hlast m msg hm rfl
  have horderlyMsg := hmsg hleads
  obtain ⟨m₁, hpos, hlead⟩ := hleads
  rcases handleHotstuffMessage_cases P cfg env m msg with hend | ⟨m₂, hpos₂, -, -⟩ | ⟨m₂, hr⟩
  · rw [hend] at hmoves
    rcases hmoves with ⟨proposal, hsent, -⟩ | ⟨-, m', hm', -⟩
    · simp at hsent
    · cases hm'
  · rw [hpos] at hpos₂
    simp at hpos₂
  have hsame : m₁ = m₂ := by simpa [hpos] using hr.position
  subst hsame
  rw [hr.result, if_pos hlead] at hmoves
  have hround : m₁.round = msg.round ∧ m₁.height = m.height := by
    obtain ⟨step, leader, rfl, -⟩ := hr.reached.state
    exact ⟨rfl, rfl⟩
  have hheight := hr.reached.height
  obtain ⟨m₀, hadmits, henough⟩ :=
    enough_of_movesOn (hround.2.trans hheight.symm) hround.1 hr.step_eq hmoves
  obtain ⟨hadded, hheight₀, hround₀, -, hblock₀⟩ := hcollected.handled hr hlead
    (hmoved (considered_of_position hpos)) horderlyMsg hreads' (.inr hadmits)
  rw [← hheight₀] at hreads'
  have hquorum := hadded.quorumReceived hreads' henough
  rw [hheight₀, hround₀, hblock₀] at hquorum
  exact hquorum

/-- The first validator's vote for the block that the second one proposes. -/
def firstVote : HotstuffMessage := voteFor proposedBlock [1] "a1"

/-- The platform on which that vote is signed, and nothing else. -/
def firstVoteSigned : Platform := listedSignatures [("k1", getSignableBytes firstVote, [1])]

/-- An unsigned `NewRound` message, three times, makes the second of four validators propose; and one
vote of one validator, three times, makes it go on to `PreCommit`. -/
theorem repeated_message_moves_leader :
    (∃ w m, Runs.run (Receiving.step firstVoteSigned (fourConfig 2 "a2")) (Receiving.start 1)
          (List.replicate 2 (fourEnv "s", .message (newRoundMsg 1 0))) = w
        ∧ w.node.state = some m
        ∧ HandledAs (fourConfig 2 "a2") (fourEnv "s") true m (newRoundMsg 1 0)
        ∧ MovesOn (newRoundMsg 1 0) (handleHotstuffMessage firstVoteSigned (fourConfig 2 "a2")
          (fourEnv "s") m (newRoundMsg 1 0))
        ∧ ¬ QuorumReceived firstVoteSigned fourValidators 1 0 NewRound m.block
          (receivedWith w m (newRoundMsg 1 0)))
      ∧ ∃ w m, Runs.run (Receiving.step firstVoteSigned (fourConfig 2 "a2")) (Receiving.start 1)
          (List.replicate 3 (fourEnv "s", .message (newRoundMsg 1 0))
            ++ List.replicate 2 (fourEnv "s", .message firstVote)) = w
        ∧ w.node.state = some m
        ∧ HandledAs (fourConfig 2 "a2") (fourEnv "s") true m firstVote
        ∧ MovesOn firstVote (handleHotstuffMessage firstVoteSigned (fourConfig 2 "a2")
          (fourEnv "s") m firstVote)
        ∧ ¬ QuorumReceived firstVoteSigned fourValidators 1 0 Prepare m.block
          (receivedWith w m firstVote) := by
  -- whoever signed a received message is the first validator
  have hfew : ∀ {received : List HotstuffMessage} {step : ℤ} {block : Option Block},
      (∀ x ∈ received, x = newRoundMsg 1 0 ∨ x = firstVote) →
      ¬ QuorumReceived firstVoteSigned fourValidators 1 0 step block received := by
    rintro received step block hreceived ⟨S, hcard, hbacked⟩
    have hsub : S ⊆ {"a1"} := by
      intro addr haddr
      obtain ⟨x, hx, hbacks⟩ := hbacked addr haddr
      obtain ⟨ps, v, hps, rfl, -⟩ := hbacks.attributed
      rcases hreceived x hx with rfl | rfl
      · cases hps
      · obtain rfl := Option.some.inj hps
        simp
    have hone := Finset.card_le_card hsub
    rw [Finset.card_singleton] at hone
    have hfour : fourValidators.length = 4 := rfl
    omega
  refine ⟨⟨_, _, rfl, rfl, ⟨_, rfl, rfl⟩, .inl ⟨_, List.mem_cons_self .., rfl⟩, hfew ?_⟩,
    _, _, rfl, rfl, ⟨_, rfl, rfl⟩, .inl ⟨_, List.mem_cons_self .., rfl⟩, hfew ?_⟩
  · decide
  · decide

/-- The `NewRound` message of the first round, with a validator's signature. -/
def signedNewRound (signature : Bytes) (addr : String) : HotstuffMessage :=
  { newRoundMsg 1 0 with
    justification := .partialSignature { signature := signature, address := addr } }

/-- The platform on which three validators have signed the `NewRound` message and their vote. -/
def quorumSigned : Platform :=
  let newRound := getSignableBytes (newRoundMsg 1 0)
  let vote := getSignableBytes firstVote
  listedSignatures [("k1", newRound, [1]), ("k3", newRound, [3]), ("k4", newRound, [4]),
    ("k1", vote, [1]), ("k3", vote, [3]), ("k4", vote, [4])]

/-- The messages of three validators up to the third vote. -/
def untilLastVote : List (Env × Event) :=
  [signedNewRound [1] "a1", signedNewRound [3] "a3", signedNewRound [4] "a4",
    voteFor proposedBlock [1] "a1", voteFor proposedBlock [3] "a3"].map
    fun msg => (fourEnv "s", .message msg)

/-- The message is of the node's round, signed by a validator that has none in the pool, and over
the node's block. -/
def orderlyMessage (P : Platform) (vals : List Actor) (m : NodeState) (msg : HotstuffMessage) :
    Bool :=
  decide (msg.round ≤ m.round)
    && msg.getPartialSignature.any (signs P vals (getSignableBytes msg))
    && (m.hotstuffMempool msg.step).all (fun pool =>
      pool.messages.all fun x => signer x != signer msg)
    && (msg.step == NewRound || msg.block == m.block)

theorem orderly_of_orderlyMessage {vals : List Actor} {w : Receiving} {e : Env × Event}
    (h : ∀ m ∈ w.node.state, ∀ msg ∈ Event.messages e.2, orderlyMessage P vals m msg = true) :
    Orderly P cfg (fun _ => vals) w e := by
  intro m msg hm hmsg
  have hcheck := h m hm msg (by simp [hmsg, Event.messages])
  simp only [orderlyMessage, Bool.and_eq_true, Bool.or_eq_true, decide_eq_true_eq, beq_iff_eq,
    Option.any_eq_true, Option.all_eq_true, List.all_eq_true, bne_iff_ne] at hcheck
  obtain ⟨⟨⟨hround, ps, hps, hsigns⟩, hfresh⟩, hblock⟩ := hcheck
  obtain ⟨v, hv, hverify⟩ := signs_iff.mp hsigns
  refine ⟨fun _ hlt => absurd hlt (by omega), fun _ => ⟨fun _ => ?_, hfresh, ?_⟩⟩
  · exact ⟨ps.address, ps, v, hps, rfl, hv, hverify⟩
  · exact hblock.resolve_left

/-- Three of four validators send their signed `NewRound` message and their signed vote for the block
that the leader proposes: with the third vote it goes on to `PreCommit`. -/
theorem three_votes_move_leader :
    ∃ w m, Runs.run (Receiving.step quorumSigned (fourConfig 2 "a2")) (Receiving.start 1)
          untilLastVote = w
        ∧ w.node.state = some m
        ∧ HandledAs (fourConfig 2 "a2") (fourEnv "s") true m (voteFor proposedBlock [4] "a4")
        ∧ MovesOn (voteFor proposedBlock [4] "a4") (handleHotstuffMessage quorumSigned
          (fourConfig 2 "a2") (fourEnv "s") m (voteFor proposedBlock [4] "a4"))
        ∧ QuorumReceived quorumSigned fourValidators m.height 0 Prepare m.block
          (receivedWith w m (voteFor proposedBlock [4] "a4")) := by
  have hreads : ∀ e ∈ untilLastVote ++ [(fourEnv "s", .message (voteFor proposedBlock [4] "a4"))],
      ∀ height, ReadsAt height ((fun _ => fourValidators) height) e.1 := by
    intro e he height vals hvals
    have henv : e.1 = fourEnv "s" := by
      rcases List.mem_append.mp he with he | he
      · obtain ⟨msg, -, rfl⟩ := List.mem_map.mp he
        rfl
      · rw [List.mem_singleton.mp he]
    rw [henv] at hvals
    exact (Option.some.inj hvals).symm
  have horderly : Runs.Guarded (Receiving.step quorumSigned (fourConfig 2 "a2"))
      (Orderly quorumSigned (fourConfig 2 "a2") fun _ => fourValidators) (Receiving.start 1)
      (untilLastVote ++ [(fourEnv "s", .message (voteFor proposedBlock [4] "a4"))]) := by
    have hchecked : Runs.Guarded (Receiving.step quorumSigned (fourConfig 2 "a2"))
        (fun w e => ∀ m ∈ w.node.state, ∀ msg ∈ Event.messages e.2,
          orderlyMessage quorumSigned fourValidators m msg = true) (Receiving.start 1)
        (untilLastVote ++ [(fourEnv "s", .message (voteFor proposedBlock [4] "a4"))]) := by
      decide +kernel
    exact hchecked.mono fun _ _ _ h => orderly_of_orderlyMessage h
  refine ⟨_, _, rfl, rfl, ⟨_, rfl, rfl⟩, .inl ⟨_, List.mem_cons_self .., rfl⟩, ?_⟩
  exact leader_moves_on_quorum hreads horderly rfl rfl ⟨_, rfl, rfl⟩
    (.inl ⟨_, List.mem_cons_self .., rfl⟩)

end Run

end Pocket.Analysis
