import Pocket.Model.Node

/-!
# What a message does to the leader's pools

A message that passes the ante handler is pushed to the pool of its step; everything else a handler
does to the pools empties some of them.  `leaderHandlers_settles` says so for all handlers of a
leader at once, with what becomes of the rest of the state; the invariants of the pools follow from
it.

* `Counted`: the counter of a pool is its length, as far as a `uint32` goes.
* `PoolsKept`: there is a pool for each of the five steps, and no other, and all are counted.
-/

set_option autoImplicit false

namespace Pocket.Analysis

open Pocket.Model HotstuffFIFOMempool

variable {P : Platform} {cfg : NodeConfig} {env : Env} {pool' : HotstuffFIFOMempool}

/-! ## Counters -/

section Counters

variable {pool : HotstuffFIFOMempool} {msg : HotstuffMessage}

/-- The counter of a pool, a `uint32`, is the number of its messages. -/
def Counted (pool : HotstuffFIFOMempool) : Prop := pool.size = pool.messages.length % 2 ^ 32

/-- The counter is never ahead of the messages. -/
theorem Counted.size_le (h : Counted pool) : pool.size ≤ pool.messages.length := by
  rw [h]
  exact Nat.mod_le _ _

/-- An empty pool is counted. -/
theorem counted_empty : Counted {} := rfl

/-- A push counts, also when it drops the oldest message. -/
theorem Counted.push (h : Counted pool) (maxTotalMsgBytes : ℕ) :
    Counted (pool.push P maxTotalMsgBytes msg) := by
  unfold Counted at h ⊢
  unfold HotstuffFIFOMempool.push incrementCounters
    decrementCounters
  simp only
  split
  · simp only [List.length_tail, List.length_append, List.length_singleton, h]
    omega
  · simp only [List.length_append, List.length_singleton, h]
    omega

/-- A pop counts. -/
theorem Counted.pop (h : Counted pool) (hpop : pool.pop P = some (msg, pool')) : Counted pool' := by
  unfold HotstuffFIFOMempool.pop at hpop
  split at hpop
  · cases hpop
  · rename_i rest hmessages
    simp only [Option.some.injEq, Prod.mk.injEq] at hpop
    obtain ⟨rfl, rfl⟩ := hpop
    unfold Counted at h ⊢
    rw [hmessages, List.length_cons] at h
    simp only [decrementCounters, h]
    omega

/-- Popping all messages leaves an empty pool. -/
theorem popPartialSignatures_emptied (height : ℕ) (step : ℤ) (round : ℕ) :
    ∀ (n : ℕ) (pool : HotstuffFIFOMempool) (pss : List PartialSignature),
      pool.messages.length ≤ n →
      (popPartialSignatures P height step round n pool pss).2.messages = []
        ∧ (Counted pool → Counted (popPartialSignatures P height step round n pool pss).2) := by
  intro n
  induction n with
  | zero =>
    intro pool pss hn
    have hnil : pool.messages = [] := List.eq_nil_of_length_eq_zero (by omega)
    exact ⟨hnil, id⟩
  | succ n ih =>
    intro pool pss hn
    rw [popPartialSignatures]
    cases hpop : pool.pop P with
    | none =>
      unfold HotstuffFIFOMempool.pop at hpop
      split at hpop
      · rename_i hnil
        exact ⟨hnil, id⟩
      · cases hpop
    | some popped =>
      obtain ⟨msg, pool'⟩ := popped
      have hmessages := pop_eq_some hpop
      have hlength : pool'.messages.length ≤ n := by
        rw [hmessages, List.length_cons] at hn
        omega
      cases hps : usablePartialSignature height step round msg with
      | none =>
        simp only [hps]
        obtain ⟨hnil, hcounted⟩ := ih pool' pss hlength
        exact ⟨hnil, fun h => hcounted (h.pop hpop)⟩
      | some ps =>
        simp only [hps]
        obtain ⟨hnil, hcounted⟩ := ih pool' (pss ++ [ps]) hlength
        exact ⟨hnil, fun h => hcounted (h.pop hpop)⟩

end Counters

/-! ## Emptying pools -/

/-- Some of the pools were emptied, and nothing else happened to them. -/
def Shrinks (old new : ℤ → Option HotstuffFIFOMempool) : Prop :=
  ∀ step, new step = old step ∨ ∃ pool pool', old step = some pool ∧ new step = some pool'
    ∧ pool'.messages = [] ∧ (Counted pool → Counted pool')

/-- There is nothing in any of the pools. -/
def AllEmpty (pools : ℤ → Option HotstuffFIFOMempool) : Prop :=
  ∀ step pool, pools step = some pool → pool.messages = []

namespace Shrinks

variable {pools pools' pools'' : ℤ → Option HotstuffFIFOMempool}

/-- Nothing is emptied. -/
theorem refl : Shrinks pools pools := fun _ => .inl rfl

/-- One thing is emptied after the other. -/
theorem trans (h : Shrinks pools pools') (h' : Shrinks pools' pools'') :
    Shrinks pools pools'' := by
  intro step
  rcases h' step with heq' | ⟨pool', pool'', hpool', hpool'', hnil, hcounted'⟩
  · rw [heq']
    exact h step
  · rcases h step with heq | ⟨pool, pool₁, hpool, hpool₁, -, hcounted⟩
    · exact .inr ⟨pool', pool'', heq ▸ hpool', hpool'', hnil, hcounted'⟩
    · obtain rfl := Option.some.inj (hpool'.symm.trans hpool₁)
      exact .inr ⟨pool, pool'', hpool, hpool'', hnil, fun hc => hcounted' (hcounted hc)⟩

/-- One pool is replaced by an empty one. -/
theorem update {step : ℤ} {pool : HotstuffFIFOMempool} (hpool : pools step = some pool)
    (hnil : pool'.messages = []) (hcounted : Counted pool → Counted pool') :
    Shrinks pools (Function.update pools step (some pool')) := by
  intro step'
  by_cases hstep : step' = step
  · subst hstep
    rw [Function.update_self]
    exact .inr ⟨pool, pool', hpool, rfl, hnil, hcounted⟩
  · rw [Function.update_of_ne hstep]
    exact .inl rfl

/-- One pool is cleared. -/
theorem clearPool (m : NodeState) (step : ℤ) :
    Shrinks m.hotstuffMempool (m.clearPool step).hotstuffMempool := by
  unfold NodeState.clearPool
  cases hpool : m.hotstuffMempool step with
  | none =>
    have hsame : Function.update m.hotstuffMempool step none = m.hotstuffMempool := by
      rw [← hpool, Function.update_eq_self]
    simp only [Option.map_none, hsame]
    exact refl
  | some pool =>
    simp only [Option.map_some]
    exact update hpool rfl fun _ => counted_empty

/-- All pools are cleared. -/
theorem clearMessagesPool : Shrinks pools (clearMessagesPool pools) := by
  intro step
  unfold Model.clearMessagesPool
  cases hpool : pools step with
  | none => exact .inl rfl
  | some pool => exact .inr ⟨pool, {}, rfl, rfl, rfl, fun _ => counted_empty⟩

/-- No pool comes or goes. -/
theorem isSome_eq (h : Shrinks pools pools') (step : ℤ) :
    (pools' step).isSome = (pools step).isSome := by
  rcases h step with heq | ⟨pool, pool', hpool, hpool', -⟩
  · rw [heq]
  · rw [hpool, hpool']
    rfl

/-- A message that is left was in its pool before. -/
theorem mem (h : Shrinks pools pools') {step : ℤ} {x : HotstuffMessage}
    (hpool' : pools' step = some pool') (hx : x ∈ pool'.messages) : pools step = some pool' := by
  rcases h step with heq | ⟨pool, pool₁, -, hpool₁, hnil, -⟩
  · rw [← heq, hpool']
  · obtain rfl := Option.some.inj (hpool'.symm.trans hpool₁)
    rw [hnil] at hx
    exact absurd hx List.not_mem_nil

/-- Counted pools stay counted. -/
theorem counted (h : Shrinks pools pools')
    (hcounted : ∀ step pool, pools step = some pool → Counted pool) :
    ∀ step pool, pools' step = some pool → Counted pool := by
  intro step pool' hpool'
  rcases h step with heq | ⟨pool, pool₁, hpool, hpool₁, -, hkeeps⟩
  · exact hcounted step pool' (heq ▸ hpool')
  · obtain rfl := Option.some.inj (hpool'.symm.trans hpool₁)
    exact hkeeps (hcounted step pool hpool)

end Shrinks

/-- Cleared pools are empty. -/
theorem allEmpty_clearMessagesPool (pools : ℤ → Option HotstuffFIFOMempool) :
    AllEmpty (clearMessagesPool pools) := by
  intro step pool hpool
  obtain ⟨_, _, rfl⟩ := Option.map_eq_some_iff.mp hpool
  rfl

/-! ## A message at the leader -/

/-- A message passes the ante handler, which leaves the state `m₀`. -/
structure Admits (P : Platform) (cfg : NodeConfig) (env : Env) (m : NodeState)
    (msg : HotstuffMessage) (m₀ : NodeState) : Prop where
  valid : isValidMessageBlock P cfg m msg = some true
  signed : validateMessageSignature P env m msg = true
  indexed : indexHotstuffMessage P cfg m msg = some (true, m₀)

/-- Where a handler leaves a node: with empty pools, or at the same view, not behind the step it
was at, with some pools emptied.  Only a `NewRound` message changes the block. -/
structure Settles (msg : HotstuffMessage) (m m' : NodeState) : Prop where
  pools : Shrinks m.hotstuffMempool m'.hotstuffMempool
  rest : AllEmpty m'.hotstuffMempool ∨ (m'.height = m.height ∧ m'.round = m.round
    ∧ m'.leaderId = m.leaderId ∧ m.step ≤ m'.step ∧ (m'.block = m.block ∨ msg.step = NewRound))

section Settling

open HotstuffLeaderMessageHandler

variable {m m' m₀ : NodeState} {msg : HotstuffMessage} {qc : Option QuorumCertificate}
  {body : NodeState → Result} {r : Result}

/-- An admitted message is in the pool of its step. -/
theorem Admits.pushed (h : Admits P cfg env m msg m₀) :
    ∃ pool, m.hotstuffMempool msg.step = some pool ∧ m₀ = { m with
      hotstuffMempool := Function.update m.hotstuffMempool msg.step
        (some (pool.push P cfg.maxMempoolBytes msg)) } := by
  have hindex := h.indexed
  unfold indexHotstuffMessage at hindex
  split at hindex
  · cases hindex
  split at hindex
  · simp at hindex
  split at hindex
  · cases hindex
  · rename_i pool hpool
    simp only [Option.some.injEq, Prod.mk.injEq, true_and] at hindex
    exact ⟨pool, hpool, hindex.symm⟩

/-- A node that does nothing settles. -/
theorem settles_refl : Settles msg m m :=
  ⟨.refl, .inr ⟨rfl, rfl, rfl, le_rfl, .inl rfl⟩⟩

/-- An interrupted round settles. -/
theorem settles_interruptRound (h : Shrinks m.hotstuffMempool m₀.hotstuffMempool)
    (hm' : (interruptRound cfg m₀).state = some m') : Settles msg m m' := by
  rw [interruptRound_state] at hm'
  obtain rfl := Option.some.inj hm'
  exact ⟨h.trans .clearMessagesPool, .inl (allEmpty_clearMessagesPool _)⟩

/-- A commit settles. -/
theorem settles_commitOutcome (h : Shrinks m.hotstuffMempool m₀.hotstuffMempool)
    {qc : QuorumCertificate} (hr : CommitOutcome P cfg env qc m₀ r) (hm' : r.state = some m') :
    Settles msg m m' := by
  cases hr with
  | crashed => cases hm'
  | failed m₁ hm₁ =>
    obtain ⟨b, b', hb, hb', rfl⟩ := NodeState.setBlockCertificate_eq hm₁
    apply settles_interruptRound _ hm'
    exact h
  | committed m₁ block uow hm₁ hblock huow hcommit =>
    obtain ⟨b, b', hb, hb', rfl⟩ := NodeState.setBlockCertificate_eq hm₁
    obtain rfl := Option.some.inj hm'
    exact ⟨h.trans .clearMessagesPool, .inl (allEmpty_clearMessagesPool _)⟩

/-- A certificate is made by emptying a pool. -/
theorem shrinks_getQuorumCertificate {step : ℤ} :
    Shrinks m.hotstuffMempool (getQuorumCertificate P env step m).2.hotstuffMempool := by
  unfold getQuorumCertificate
  cases hpool : m.hotstuffMempool step with
  | none => exact .refl
  | some pool =>
    obtain ⟨hnil, hcounted⟩ := @popPartialSignatures_emptied P m.height step m.round
      pool.messages.length pool [] le_rfl
    simp only
    repeat' split
    all_goals exact .update hpool hnil hcounted

/-- A proposal interrupts the round or goes on. -/
theorem propose_state {step : ℤ} {body : Result}
    (hm' : (propose cfg step qc m body).state = some m') :
    (interruptRound cfg m).state = some m' ∨ body.state = some m' := by
  unfold propose at hm'
  split at hm'
  · exact .inl hm'
  · exact .inr hm'

/-- What follows a certificate settles if its body does. -/
theorem settles_assembled {step : ℤ} {next : QuorumCertificate → NodeState → Result}
    (hnext : ∀ qc pools m', Shrinks m.hotstuffMempool pools →
      (next qc { m with hotstuffMempool := pools }).state = some m' → Settles msg m m')
    (hm' : (assembled P env step next m).state = some m') : Settles msg m m' := by
  have hshrinks := @shrinks_getQuorumCertificate P env m step
  obtain ⟨pools, hpools⟩ := getQuorumCertificate_snd P env step m
  rw [hpools] at hshrinks
  unfold assembled at hm'
  split at hm'
  · cases hm'
  · rename_i m₁ hqc
    obtain rfl := Option.some.inj hm'
    rw [hqc] at hpools
    obtain rfl := hpools
    exact ⟨hshrinks, .inr ⟨rfl, rfl, rfl, le_rfl, .inl rfl⟩⟩
  · rename_i qc m₁ hqc
    rw [hqc] at hpools
    obtain rfl := hpools
    exact hnext qc pools m' hshrinks hm'

/-- INTERNAL: the leader proposes from the state `m₀`, in which it has taken the next step and
emptied the pool of the last one. -/
theorem settles_propose {next : ℤ} {out : List Output}
    (hm' : (propose cfg next qc m₀ ⟨some m₀, out⟩).state = some m')
    (hshrinks : Shrinks m.hotstuffMempool m₀.hotstuffMempool) (hheight : m₀.height = m.height)
    (hround : m₀.round = m.round) (hleader : m₀.leaderId = m.leaderId) (hlater : m.step ≤ m₀.step)
    (hblock : m₀.block = m.block ∨ msg.step = NewRound) : Settles msg m m' := by
  rcases propose_state hm' with hm' | hm'
  · exact settles_interruptRound hshrinks hm'
  · obtain rfl := Option.some.inj hm'
    exact ⟨hshrinks, .inr ⟨hheight, hround, hleader, hlater, hblock⟩⟩

/-- The last proposal commits. -/
theorem settles_proposeDecide {pools : ℤ → Option HotstuffFIFOMempool} {qc : QuorumCertificate}
    (hshrinks : Shrinks m.hotstuffMempool pools)
    (hm' : (proposeDecide P cfg env qc { m with hotstuffMempool := pools }).state = some m') :
    Settles msg m m' := by
  have hcleared : Shrinks m.hotstuffMempool
      ({ m with hotstuffMempool := pools } : NodeState).certifiedCommit.hotstuffMempool :=
    hshrinks.trans (.clearPool { m with hotstuffMempool := pools, step := Decide } Commit)
  rcases propose_state hm' with hm' | hm'
  · exact settles_interruptRound hcleared hm'
  · exact settles_commitOutcome hcleared (commitAndAdvance_outcome P cfg env qc _) hm'

/-- The first proposal settles. -/
theorem settles_newRoundBody (hstep : m.step = NewRound) (hmsg : msg.step = NewRound)
    (hm' : (newRoundBody P cfg env m).state = some m') : Settles msg m m' := by
  -- only the unit of work has changed when the block is set
  have hproposes : ∀ {uow : Option UnitOfWork} {qc : Option QuorumCertificate} {block : Block},
      (proposePrepare P cfg qc block { m with utilityUnitOfWork := uow }).state = some m' →
      Settles msg m m' := by
    intro uow qc block hm'
    refine settles_propose hm' (.clearPool _ NewRound) rfl rfl rfl ?_ (.inr hmsg)
    exact hstep.trans_le (by decide : NewRound ≤ Prepare)
  have hinterrupts : ∀ {uow : Option UnitOfWork},
      (interruptRound cfg { m with utilityUnitOfWork := uow }).state = some m' →
      Settles msg m m' := by
    intro uow hm'
    apply settles_interruptRound _ hm'
    exact .refl
  unfold newRoundBody at hm'
  split at hm'
  · rename_i m₁ hrefresh
    obtain rfl := refreshUtilityUnitOfWork_ok cfg env hrefresh
    simp only at hm'
    split at hm'
    · rename_i block hblock hshould
      split at hm'
      · cases hm'
      · rename_i m₂ happly
        obtain ⟨uow, rfl⟩ := snd_eq_of_eq happly (applyBlock_snd env block _)
        exact hinterrupts hm'
      · rename_i m₂ happly
        obtain ⟨uow, rfl⟩ := snd_eq_of_eq happly (applyBlock_snd env block _)
        exact hproposes hm'
    · split at hm'
      · cases hm'
      · rename_i m₂ hprepare
        obtain ⟨uow, rfl⟩ := snd_eq_of_eq hprepare (prepareBlock_snd P cfg env _ _)
        exact hinterrupts hm'
      · rename_i block m₂ hprepare
        obtain ⟨uow, rfl⟩ := snd_eq_of_eq hprepare (prepareBlock_snd P cfg env _ _)
        exact hproposes hm'
  · rename_i c m₁ hne hrefresh
    obtain rfl := refreshUtilityUnitOfWork_not_ok cfg env hrefresh fun hok => hne hok
    obtain rfl := Option.some.inj hm'
    exact ⟨.refl, .inr ⟨rfl, rfl, rfl, le_rfl, .inl rfl⟩⟩

section

variable
  (hbody : ∀ m₀ m', Admits P cfg env m msg m₀ → (body m₀).state = some m' → Settles msg m₀ m')
include hbody

/-- A handler settles behind its ante handler. -/
theorem anteHandle_settles (hm' : (anteHandle P cfg env m msg body).state = some m') :
    ∃ m₀, (m₀ = m ∨ Admits P cfg env m msg m₀) ∧ Settles msg m₀ m' := by
  have hsame : ∀ {m₁ : NodeState}, m₁ = m → (⟨some m₁, []⟩ : Result).state = some m' →
      ∃ m₀, (m₀ = m ∨ Admits P cfg env m msg m₀) ∧ Settles msg m₀ m' := by
    rintro m₁ rfl hm'
    obtain rfl := Option.some.inj hm'
    exact ⟨m₁, .inl rfl, settles_refl⟩
  unfold anteHandle at hm'
  split at hm'
  · cases hm'
  · exact hsame rfl hm'
  rename_i hvalid
  split at hm'
  swap
  · exact hsame rfl hm'
  rename_i hsigned
  split at hm'
  · cases hm'
  · rename_i m₁ hindex
    apply hsame _ hm'
    unfold indexHotstuffMessage at hindex
    split at hindex
    · cases hindex
    split at hindex
    · simp only [Option.some.injEq, Prod.mk.injEq, true_and] at hindex
      exact hindex.symm
    split at hindex
    · cases hindex
    · simp at hindex
  · rename_i m₁ hindex
    have hadmits : Admits P cfg env m msg m₁ := ⟨hvalid, hsigned, hindex⟩
    exact ⟨m₁, .inr hadmits, hbody m₁ m' hadmits hm'⟩

/-- It settles behind the count of the messages. -/
theorem whenEnough_settles {step : ℤ} (hm' : (whenEnough P cfg env step m msg body).state = some m') :
    ∃ m₀, (m₀ = m ∨ Admits P cfg env m msg m₀) ∧ Settles msg m₀ m' := by
  apply anteHandle_settles _ hm'
  intro m₀ m₁ hadmits hm₁
  split at hm₁
  · exact hbody m₀ m₁ hadmits hm₁
  · obtain rfl := Option.some.inj hm₁
    exact settles_refl

end

/-- The ante handler does not move the node. -/
theorem Admits.step_eq (h : Admits P cfg env m msg m₀) : m₀.step = m.step := by
  obtain ⟨pool, -, rfl⟩ := h.pushed
  rfl

/-- **A message at the leader** is admitted or not; then the node settles. -/
theorem leaderHandlers_settles (hstep : m.step = msg.step)
    (hm' : (leaderHandlers P cfg env msg.step m msg).state = some m') :
    ∃ m₀, (m₀ = m ∨ Admits P cfg env m msg m₀) ∧ Settles msg m₀ m' := by
  unfold leaderHandlers at hm'
  split at hm'
  · rename_i hmsg
    apply whenEnough_settles _ hm'
    intro m₀ m₁ hadmits hm₁
    exact settles_newRoundBody (hadmits.step_eq.trans (hstep.trans hmsg)) hmsg hm₁
  split at hm'
  · rename_i hmsg
    apply whenEnough_settles _ hm'
    intro m₀ m₁ hadmits hm₁
    apply settles_assembled _ hm₁
    intro qc pools m₂ hshrinks hm₂
    refine settles_propose hm₂ (hshrinks.trans (.clearPool _ Prepare)) rfl rfl rfl ?_ (.inl rfl)
    exact (hadmits.step_eq.trans (hstep.trans hmsg)).trans_le (by decide : Prepare ≤ PreCommit)
  split at hm'
  · rename_i hmsg
    apply whenEnough_settles _ hm'
    intro m₀ m₁ hadmits hm₁
    apply settles_assembled _ hm₁
    intro qc pools m₂ hshrinks hm₂
    refine settles_propose hm₂ (hshrinks.trans (.clearPool _ PreCommit)) rfl rfl rfl ?_ (.inl rfl)
    exact (hadmits.step_eq.trans (hstep.trans hmsg)).trans_le (by decide : PreCommit ≤ Commit)
  split at hm'
  · apply whenEnough_settles _ hm'
    intro m₀ m₁ hadmits hm₁
    apply settles_assembled _ hm₁
    intro qc pools m₂ hshrinks hm₂
    exact settles_proposeDecide hshrinks hm₂
  split at hm'
  · apply anteHandle_settles _ hm'
    intro m₀ m₁ hadmits hm₁
    obtain rfl := Option.some.inj hm₁
    exact settles_refl
  · cases hm'

/-- A replica clears all pools or none. -/
theorem replicaStep_pools (h : ReplicaStep P cfg env m msg r) (hm' : r.state = some m') :
    m'.hotstuffMempool = m.hotstuffMempool
      ∨ m'.hotstuffMempool = clearMessagesPool m.hotstuffMempool := by
  have hinterrupts : ∀ {m₁ : NodeState}, m₁.hotstuffMempool = m.hotstuffMempool →
      (interruptRound cfg m₁).state = some m' →
      m'.hotstuffMempool = clearMessagesPool m.hotstuffMempool := by
    intro m₁ hpools hm'
    rw [interruptRound_state] at hm'
    obtain rfl := Option.some.inj hm'
    show clearMessagesPool m₁.hotstuffMempool = _
    rw [hpools]
  cases h with
  | crashed => cases hm'
  | rejected | refreshFailed | refreshed =>
    obtain rfl := Option.some.inj hm'
    exact .inl rfl
  | interrupted uow => exact .inr (hinterrupts rfl hm')
  | votedPrepare block m₁ hmsg hblock hvalid hproposal happly =>
    obtain ⟨uow, rfl⟩ := snd_eq_of_eq happly (applyBlock_snd env block m)
    obtain rfl := Option.some.inj hm'
    exact .inl rfl
  | votedPreCommit | votedCommit =>
    obtain rfl := Option.some.inj hm'
    exact .inl rfl
  | decided qc _ hmsg hante hqc hvalid hr =>
    cases hr with
    | crashed => cases hm'
    | failed m₁ hm₁ =>
      obtain ⟨b, b', hb, hb', rfl⟩ := NodeState.setBlockCertificate_eq hm₁
      refine .inr (hinterrupts ?_ hm')
      rfl
    | committed m₁ block uow hm₁ hblock huow hcommit =>
      obtain ⟨b, b', hb, hb', rfl⟩ := NodeState.setBlockCertificate_eq hm₁
      obtain rfl := Option.some.inj hm'
      exact .inr rfl

end Settling

/-! ## The pools of a running node -/

/-- There is a counted pool for each of the five steps, and no other pool. -/
structure PoolsKept (pools : ℤ → Option HotstuffFIFOMempool) : Prop where
  known : ∀ step, (pools step).isSome ↔ 1 ≤ step ∧ step ≤ 5
  counted : ∀ step pool, pools step = some pool → Counted pool

namespace PoolsKept

variable {m m' m₀ : NodeState} {msg : HotstuffMessage}
  {pools pools' : ℤ → Option HotstuffFIFOMempool}

/-- Emptied pools are kept. -/
theorem shrinks (h : PoolsKept pools) (hshrinks : Shrinks pools pools') : PoolsKept pools' := by
  refine ⟨?_, hshrinks.counted h.counted⟩
  intro step
  rw [hshrinks.isSome_eq]
  exact h.known step

/-- They are kept when a message is admitted. -/
theorem admits (h : PoolsKept m.hotstuffMempool) (hadmits : Admits P cfg env m msg m₀) :
    PoolsKept m₀.hotstuffMempool := by
  obtain ⟨pool, hpool, rfl⟩ := hadmits.pushed
  refine ⟨?_, ?_⟩
  · intro step
    rw [← h.known step]
    by_cases hstep : step = msg.step
    · subst hstep
      simp [hpool]
    · simp [Function.update_of_ne hstep]
  · intro step pool' hpool'
    by_cases hstep : step = msg.step
    · subst hstep
      simp only [Function.update_self, Option.some.injEq] at hpool'
      subst hpool'
      exact (h.counted _ pool hpool).push _
    · simp only [Function.update_of_ne hstep] at hpool'
      exact h.counted step pool' hpool'

/-- They are kept by every event. -/
theorem handleEvent (h : PoolsKept m.hotstuffMempool) (e : Event)
    (hm' : (Model.handleEvent P cfg env m e).state = some m') : PoolsKept m'.hotstuffMempool := by
  cases e with
  | timeout =>
    have hm'' : (interruptRound cfg m).state = some m' := hm'
    rw [interruptRound_state] at hm''
    obtain rfl := Option.some.inj hm''
    exact h.shrinks .clearMessagesPool
  | message msg =>
    have hm'' : (handleHotstuffMessage P cfg env m msg).state = some m' := hm'
    rcases handleHotstuffMessage_cases P cfg env m msg with hend | ⟨m₁, -, hdropped, hr⟩ | ⟨m₁, hr⟩
    · rw [hend] at hm''
      cases hm''
    · rw [hr] at hm''
      obtain rfl := Option.some.inj hm''
      rcases hdropped with rfl | ⟨step, round, rfl, -⟩
      · exact h
      · exact h
    · have hm₁ : PoolsKept m₁.hotstuffMempool := by
        obtain ⟨step, leader, rfl, -⟩ := hr.reached.state
        exact h
      rw [hr.result] at hm''
      split at hm''
      · obtain ⟨m₀, hm₀ | hadmits, hsettles⟩ := leaderHandlers_settles hr.step_eq hm''
        · subst hm₀
          exact hm₁.shrinks hsettles.pools
        · exact (hm₁.admits hadmits).shrinks hsettles.pools
      · rcases replicaStep_pools (replicaHandlers_step P cfg env m₁ msg) hm'' with hsame | hcleared
        · rw [hsame]
          exact hm₁
        · rw [hcleared]
          exact hm₁.shrinks .clearMessagesPool

/-- **The pools of a node are those of the five steps, and counted, in every run.** -/
theorem run (height : ℕ) (es : List (Env × Event))
    (hm : (Runs.run (NodeRun.step P cfg) (NodeRun.start height) es).state = some m) :
    PoolsKept m.hotstuffMempool := by
  have hstep : ∀ (c : NodeRun) e, (∀ m, c.state = some m → PoolsKept m.hotstuffMempool) →
      ∀ m, (c.step P cfg e).state = some m → PoolsKept m.hotstuffMempool := by
    intro c e hc m' hm'
    obtain ⟨m, hstate, hm'⟩ := NodeRun.exists_of_step P cfg hm'
    exact (hc m hstate).handleEvent e.2 hm'
  refine Runs.invariant_run_of_step hstep ?_ es m hm
  rintro m ⟨rfl⟩
  refine ⟨?_, ?_⟩
  · intro step
    show (initMessagesPool step).isSome ↔ _
    unfold initMessagesPool
    split
    · rename_i hknown
      exact ⟨fun _ => hknown, fun _ => rfl⟩
    · rename_i hunknown
      exact ⟨fun h => absurd h (by simp), fun h => absurd h hunknown⟩
  · intro step pool hpool
    have hinit : initMessagesPool step = some pool := hpool
    unfold initMessagesPool at hinit
    split at hinit
    · obtain rfl := Option.some.inj hinit
      exact counted_empty
    · cases hinit

end PoolsKept

end Pocket.Analysis
