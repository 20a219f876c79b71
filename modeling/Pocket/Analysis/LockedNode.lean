import Pocket.Library.LockedVoting
import Pocket.Model.Network
import Pocket.Analysis.PhaseCertificate
import Pocket.Analysis.VoteOnce

/-!
# How one node keeps the voting rules

The abstract side of the consensus module is `LockedVoting`: honest validators vote in
three phases and a commit vote locks them.  This module reads a node's votes and locks as
such votes and shows, handler by handler, that a node whose events meet `eventSafe` casts
only votes the rules allow and commits only certified blocks.

`eventSafe` asks for what the handlers fail to check:

* a replica acts on a certificate only if it belongs to its phase, view and block and more
  than two thirds of the validators have signed it;
* a locked replica accepts a proposal only if its justification is for the proposed block;
* a leader certifies a phase only if more than two thirds of the validators have voted for
  its block, and proposes its locked block if it is locked;
* the round counter does not wrap around.
-/

set_option autoImplicit false

namespace Pocket.Analysis

open Pocket.Model LockedVoting HotstuffLeaderMessageHandler HotstuffMessage

/-! ## What has to hold when an event is handled -/

section Guards

variable (P : Platform) (cfg : NodeConfig) (env : Env)

/-- More than two thirds of the validators at the node's height have signed. -/
def SignedByQuorum (m : NodeState) (qc : QuorumCertificate) : Prop :=
  2 * (validatorsOf env m).length < 3 * (validSigners P (validatorsOf env m) qc).card

/-- A message that passes the replica's checks carries the right certificate. -/
def ReplicaSafe (m : NodeState) (msg : HotstuffMessage) : Prop :=
  isValidMessageBlock P cfg m msg = some true →
    (msg.step = Prepare → m.lockedQC.isSome → validateProposal P env m msg = .ok () →
      (msg.getQuorumCertificate.bind (·.block)).map Block.withoutCertificate
        = msg.block.map Block.withoutCertificate)
    ∧ ((msg.step = PreCommit ∨ msg.step = Commit ∨ msg.step = Decide) →
      ∀ qc ∈ msg.getQuorumCertificate, validateQuorumCertificate P env m (some qc) = true →
        BoundToPhase m msg.step qc ∧ SignedByQuorum P env m qc)

/-- The pooled votes of a step, read as a certificate for the node's view and block. -/
def pooledVotes (m : NodeState) (step : ℤ) : QuorumCertificate where
  height := m.height
  round := m.round
  step := step
  block := m.block
  thresholdSignature := some
    { signatures := ((m.hotstuffMempool step).elim [] (·.messages)).filterMap
        (usablePartialSignature m.height step m.round) }

/-- The certificate a leader that opens a round proposes with. -/
def pooledHighQC (m : NodeState) : Option QuorumCertificate :=
  findHighQC ((m.hotstuffMempool NewRound).elim [] (·.messages))

/-- With the message in its pool, the leader has the votes of a quorum for its block when it
counts enough of them, and proposes its locked block if it has one. -/
def LeaderSafe (m : NodeState) (msg : HotstuffMessage) : Prop :=
  ∀ indexed ∈ indexHotstuffMessage P cfg m msg,
    (msg.step = NewRound → ∀ locked ∈ m.lockedQC,
      shouldPrepareNewBlock indexed.2 (pooledHighQC indexed.2) = false
        ∧ ((pooledHighQC indexed.2).bind (·.block)).map Block.withoutCertificate
            = locked.block.map Block.withoutCertificate)
    ∧ ((msg.step = Prepare ∨ msg.step = PreCommit ∨ msg.step = Commit) →
      2 * (validatorsOf env m).length
          < 3 * (signatureList (pooledVotes indexed.2 msg.step)).length →
        SignedByQuorum P env m (pooledVotes indexed.2 msg.step))

instance (m : NodeState) (step : ℤ) (qc : QuorumCertificate) :
    Decidable (BoundToPhase m step qc) := inferInstanceAs (Decidable (_ ∧ _ ∧ _ ∧ _))

instance (m : NodeState) (qc : QuorumCertificate) : Decidable (SignedByQuorum P env m qc) :=
  inferInstanceAs (Decidable (_ < _))

instance (m : NodeState) (msg : HotstuffMessage) : Decidable (ReplicaSafe P cfg env m msg) :=
  inferInstanceAs (Decidable (_ → _ ∧ _))

instance (m : NodeState) (msg : HotstuffMessage) : Decidable (LeaderSafe P cfg env m msg) :=
  inferInstanceAs (Decidable (∀ indexed ∈ indexHotstuffMessage P cfg m msg, _ ∧ _))

/-- The condition on one event at one node. -/
def eventSafe (m : NodeState) (ev : Event) : Bool :=
  roundDoesNotWrap P cfg ⟨some m, []⟩ (env, ev) &&
    match ev with
    | .timeout => true
    | .message msg =>
      match positionForMessage cfg env m msg with
      | some (true, m₁) =>
        if isLeader cfg m₁ then decide (LeaderSafe P cfg env m₁ msg)
        else decide (ReplicaSafe P cfg env m₁ msg)
      | _ => true

end Guards

/-! ## Votes and certificates as the rules see them -/

/-- The phase of a step in which nodes vote. -/
def phaseOf (step : ℤ) : Option Phase :=
  if step = Prepare then some .prepare
  else if step = PreCommit then some .preCommit
  else if step = Commit then some .commit
  else none

variable {step : ℤ} {phase : Phase} {height round : ℕ} {qc : QuorumCertificate}

theorem phaseOf_eq_some (h : phaseOf step = some phase) : step = phase.index + 2 := by
  unfold phaseOf at h
  split at h
  · obtain rfl := Option.some.inj h
    assumption
  split at h
  · obtain rfl := Option.some.inj h
    assumption
  split at h
  · obtain rfl := Option.some.inj h
    assumption
  · simp at h

/-- A vote message of a validator as a vote. -/
def abstractVote (addr : String) (msg : HotstuffMessage) : Option (LockedVoting.Vote String Block) :=
  match phaseOf msg.step, msg.block with
  | some phase, some block =>
    some ⟨addr, msg.height, msg.round, phase, block.withoutCertificate⟩
  | _, _ => none

/-- The vote behind an entry of the network's log. -/
def entryVote : String × Output → Option (LockedVoting.Vote String Block)
  | (addr, .sendToLeader _ msg) => abstractVote addr msg
  | _ => none

/-- The votes of the network, newest first. -/
def votes (w : World) : List (LockedVoting.Vote String Block) :=
  (w.log.filterMap entryVote).reverse

/-- The block is certified by the votes cast so far. -/
def CertifiedIn (net : Network) (w : World) (height round : ℕ) (phase : Phase) (block : Block) :
    Prop :=
  Certified net.Honest net.Quorum (votes w) height round phase block.withoutCertificate

/-- Every vote is for a block, in a phase. -/
def VotesProper (w : World) : Prop :=
  ∀ addr msg, w.Voted addr msg → (abstractVote addr msg).isSome

variable {net : Network} {w w' : World} {v : LockedVoting.Vote String Block} {b : Block}

theorem mem_votes :
    v ∈ votes w ↔ ∃ addr msg, w.Voted addr msg ∧ abstractVote addr msg = some v := by
  simp only [votes, List.mem_reverse, List.mem_filterMap, World.Voted]
  constructor
  · rintro ⟨⟨addr, out⟩, hmem, hout⟩
    cases out with
    | sendToLeader leader msg => exact ⟨addr, msg, ⟨leader, hmem⟩, hout⟩
    | broadcast msg | committed h b u => simp [entryVote] at hout
  · rintro ⟨addr, msg, ⟨leader, hmem⟩, hout⟩
    exact ⟨_, hmem, hout⟩

theorem abstractVote_eq_some {addr : String} {msg : HotstuffMessage}
    (h : abstractVote addr msg = some v) :
    v.voter = addr ∧ v.height = msg.height ∧ v.round = msg.round ∧ phaseOf msg.step = some v.phase
      ∧ ∃ b, msg.block = some b ∧ v.block = b.withoutCertificate := by
  unfold abstractVote at h
  split at h
  · rename_i phase b hphase hblock
    obtain rfl := Option.some.inj h
    exact ⟨rfl, rfl, rfl, hphase, b, hblock, rfl⟩
  · simp at h

theorem CertifiedIn.mono (hlog : w.log ⊆ w'.log) (h : CertifiedIn net w height round phase b) :
    CertifiedIn net w' height round phase b := by
  refine Certified.mono (fun v hv => ?_) h
  obtain ⟨addr, msg, ⟨leader, hmem⟩, hvote⟩ := mem_votes.mp hv
  exact mem_votes.mpr ⟨addr, msg, ⟨leader, hlog hmem⟩, hvote⟩

theorem CertifiedIn.congr {b' : Block} (h : CertifiedIn net w height round phase b)
    (heq : b'.withoutCertificate = b.withoutCertificate) :
    CertifiedIn net w height round phase b' := by
  unfold CertifiedIn
  rw [heq]
  exact h

/-- INTERNAL: **a certificate signed by a quorum certifies its block**: the honest signers
have voted for what they signed. -/
theorem certified_of_signers (hproper : VotesProper w) (hphase : phaseOf qc.step = some phase)
    (hunforged : ∀ ps ∈ signatureList qc, Unforged net w ps)
    (hcard : 2 * (net.validators qc.height).length < 3 * (validSigners net.platform (net.validators
      qc.height) qc).card) :
    ∃ b, qc.block = some b ∧ CertifiedIn net w qc.height qc.round phase b := by
  set Q := validSigners net.platform (net.validators qc.height) qc with hQdef
  have hmember : ∀ i ∈ Q, ∃ validator ∈ net.validators qc.height, validator.address = i
      ∧ ∃ ps ∈ signatureList qc, net.platform.verify validator.publicKey
          (getSignableBytes (qcToHotstuffMessage qc)) ps.signature = true := by
    intro i hi
    obtain ⟨validator, hmap, ps, hps, -, hvalid⟩ := mem_validSigners.mp hi
    obtain ⟨hmem, haddr⟩ := validatorMap_mem hmap
    exact ⟨validator, hmem, haddr, ps, hps, hvalid⟩
  have hquorum : net.Quorum qc.height Q := by
    refine ⟨fun i hi => ?_, hcard⟩
    obtain ⟨validator, hmem, rfl, -⟩ := hmember i hi
    exact List.mem_toFinset.mpr (List.mem_map_of_mem hmem)
  have hvoted : ∀ i ∈ Q, net.Honest i → ∃ vote, w.Voted i vote
      ∧ getSignableBytes vote = getSignableBytes (qcToHotstuffMessage qc) := by
    intro i hi hhonest
    obtain ⟨validator, hmem, rfl, ps, hps, hverify⟩ := hmember i hi
    exact hunforged ps hps _ validator hmem hhonest _ hverify
  -- a quorum has an honest member, whose vote is for a block
  have hblock : ∃ b, qc.block = some b := by
    obtain ⟨i, hi, -, hhonest⟩ := net.exists_honest qc.height hquorum hquorum
    obtain ⟨vote, hvote, hbytes⟩ := hvoted i hi hhonest
    obtain ⟨v, hv⟩ := Option.isSome_iff_exists.mp (hproper i vote hvote)
    obtain ⟨-, -, -, -, b, hb, -⟩ := abstractVote_eq_some hv
    have hsame : vote.block = qc.block := congrArg block hbytes
    exact ⟨b, hsame ▸ hb⟩
  obtain ⟨b, hb⟩ := hblock
  refine ⟨b, hb, Q, hquorum, fun i hi hhonest => ?_⟩
  obtain ⟨vote, hvote, hbytes⟩ := hvoted i hi hhonest
  refine mem_votes.mpr ⟨i, vote, hvote, ?_⟩
  have hheight : vote.height = qc.height := congrArg height hbytes
  have hround : vote.round = qc.round := congrArg round hbytes
  have hstep : vote.step = qc.step := congrArg step hbytes
  have hsame : vote.block = qc.block := congrArg block hbytes
  simp [abstractVote, hstep, hphase, hsame, hb, hheight, hround]

/-! ## The lock of a node -/

variable (net w) in
/-- What a node's lock stands for: a pre-commit certificate of the node's height.  The
pools hold no forged signatures, so that certificates made of them count. -/
structure LockInvariant (m : NodeState) : Prop where
  lock : ∀ l, m.lockedQC = some l →
    ∃ b, l.block = some b ∧ CertifiedIn net w m.height l.round .preCommit b
  shares : m.lockedQCSharesBlock = true → ∀ l, m.lockedQC = some l → l.block = m.block
  pools : ∀ step pool, m.hotstuffMempool step = some pool → ∀ x ∈ pool.messages,
    ∀ ps ∈ x.signatures, Unforged net w ps

variable (net w) in
/-- A vote the rules allow, as far as it depends on the node's lock and on certificates. -/
def JustifiedVote (m : NodeState) (v : HotstuffMessage) : Prop :=
  v.height = m.height ∧ ∃ b, v.block = some b ∧
    ((v.step = Prepare ∧ ∀ l, m.lockedQC = some l →
        l.block.map Block.withoutCertificate = some b.withoutCertificate)
      ∨ (v.step = PreCommit ∧ CertifiedIn net w m.height v.round .prepare b)
      ∨ (v.step = Commit ∧ CertifiedIn net w m.height v.round .preCommit b))

/-- A lock of the same height is kept or gives way to one of a round that is not older. -/
def LockKept (m m' : NodeState) : Prop :=
  m'.height = m.height → ∀ l, m.lockedQC = some l →
    ∃ l', m'.lockedQC = some l' ∧ (l.round ≤ l'.round ∨ m.round ≤ l'.round)

variable (net w) in
/-- What handling an event does to votes, commits and the lock. -/
structure SafeResult (m : NodeState) (r : Result) : Prop where
  votes : ∀ v ∈ votesSent r.out, JustifiedVote net w m v
  commitVotes : ∀ v ∈ votesSent r.out, v.step = Commit → ∀ m', r.state = some m' →
    ∃ l, m'.lockedQC = some l ∧ v.round ≤ l.round
  commits : ∀ height b uow, .committed height b uow ∈ r.out →
    ∃ round, CertifiedIn net w height round .commit b
  height : ∀ m', r.state = some m' → m.height ≤ m'.height
  kept : ∀ m', r.state = some m' → LockKept m m'
  invariant : ∀ m', r.state = some m' → LockInvariant net w m'

variable {P : Platform} {cfg : NodeConfig} {env : Env} {m m' m₁ mv : NodeState}
  {msg : HotstuffMessage} {r : Result} {ps : PartialSignature}

theorem LockInvariant.mono (hlog : w.log ⊆ w'.log) (h : LockInvariant net w m) :
    LockInvariant net w' m where
  lock l hl := by
    obtain ⟨b, hb, hcert⟩ := h.lock l hl
    exact ⟨b, hb, hcert.mono hlog⟩
  shares := h.shares
  pools step pool hpool x hx ps hps := (h.pools step pool hpool x hx ps hps).mono hlog

theorem LockInvariant.of_same (h : LockInvariant net w m) (hheight : m'.height = m.height)
    (hlocked : m'.lockedQC = m.lockedQC) (hblock : m'.block = m.block)
    (hshares : m'.lockedQCSharesBlock = m.lockedQCSharesBlock)
    (hpools : ∀ step pool, m'.hotstuffMempool step = some pool → ∀ x ∈ pool.messages,
      ∀ ps ∈ x.signatures, Unforged net w ps) : LockInvariant net w m' where
  lock := by
    rw [hlocked, hheight]
    exact h.lock
  shares := by
    rw [hlocked, hblock, hshares]
    exact h.shares
  pools := hpools

theorem LockInvariant.poolsFrom {pools : ℤ → Option HotstuffFIFOMempool}
    (h : LockInvariant net w m) (hmsg : ∀ ps ∈ msg.signatures, Unforged net w ps)
    (hpools : PoolsFrom msg m.hotstuffMempool pools) :
    ∀ step pool, pools step = some pool → ∀ x ∈ pool.messages,
      ∀ ps ∈ x.signatures, Unforged net w ps := by
  intro step pool hpool x hx ps hps
  rcases hpools step pool hpool x hx with rfl | ⟨pool₀, hpool₀, hx₀⟩
  · exact hmsg ps hps
  · exact h.pools step pool₀ hpool₀ x hx₀ ps hps

theorem unforged_clearMessagesPool {pools : ℤ → Option HotstuffFIFOMempool} :
    ∀ step pool, clearMessagesPool pools step = some pool → ∀ x ∈ pool.messages,
      ∀ ps ∈ x.signatures, Unforged net w ps := by
  intro step pool hpool x hx
  obtain ⟨_, -, rfl⟩ := Option.map_eq_some_iff.mp hpool
  simp at hx

theorem LockKept.of_same (hlocked : m'.lockedQC = m.lockedQC) : LockKept m m' := by
  intro _ l hl
  exact ⟨l, hlocked.trans hl, .inl le_rfl⟩

theorem SafeResult.of_quiet (hvotes : votesSent r.out = [])
    (hcommits : ∀ height b uow, .committed height b uow ∉ r.out)
    (hafter : ∀ m', r.state = some m' →
      m'.height = m.height ∧ LockKept m m' ∧ LockInvariant net w m') : SafeResult net w m r where
  votes := by simp [hvotes]
  commitVotes := by simp [hvotes]
  commits height b uow h := absurd h (hcommits height b uow)
  height m' hm' := (hafter m' hm').1.ge
  kept m' hm' := (hafter m' hm').2.1
  invariant m' hm' := (hafter m' hm').2.2

theorem safeResult_interruptRound (hheight : m'.height = m.height) (hkept : LockKept m m')
    (h : LockInvariant net w m') : SafeResult net w m (interruptRound cfg m') := by
  rw [interruptRound_eq]
  refine .of_quiet (votesSent_viewMessages cfg _ _)
    (fun _ _ _ => not_committed_viewMessages) ?_
  rintro _ ⟨rfl⟩
  exact ⟨hheight, hkept, h.of_same rfl rfl rfl rfl unforged_clearMessagesPool⟩

theorem justifiedVote_of_sendVote {v : HotstuffMessage}
    (hv : v ∈ votesSent (sendVote P cfg mv step)) (hheight : mv.height = m.height)
    (h : ∀ b, mv.block = some b → (step = Prepare ∧ ∀ l, m.lockedQC = some l → l.block.map
      Block.withoutCertificate = some b.withoutCertificate) ∨ (step = PreCommit ∧ CertifiedIn net w
      m.height mv.round .prepare b) ∨ (step = Commit ∧ CertifiedIn net w m.height mv.round
      .preCommit b)) : JustifiedVote net w m v := by
  obtain ⟨-, hvh, hvr, hvs, hvb, hsome⟩ := mem_votesSent_sendVote P cfg hv
  obtain ⟨b, hb⟩ := Option.isSome_iff_exists.mp hsome
  refine ⟨hvh.trans hheight, b, hvb.trans hb, ?_⟩
  rw [hvs, hvr]
  exact h b hb

theorem SafeResult.of_vote {out : List Output}
    (hout : votesSent out = votesSent (sendVote P cfg mv step))
    (hcommits : ∀ height b uow, .committed height b uow ∉ out)
    (hmv : mv.height = m.height ∧ mv.round = m.round) (hm' : m'.height = m.height)
    (hkept : LockKept m m')
    (hvote : ∀ b, mv.block = some b → (step = Prepare ∧ ∀ l, m.lockedQC = some l → l.block.map
      Block.withoutCertificate = some b.withoutCertificate) ∨ (step = PreCommit ∧ CertifiedIn net w
      m.height m.round .prepare b) ∨ (step = Commit ∧ CertifiedIn net w m.height m.round .preCommit
      b)) (hlock : step = Commit → ∃ l, m'.lockedQC = some l ∧ m.round ≤ l.round)
    (hinv : LockInvariant net w m') : SafeResult net w m ⟨some m', out⟩ where
  votes v hv := justifiedVote_of_sendVote (hout ▸ hv) hmv.1 (hmv.2 ▸ hvote)
  commitVotes v hv hstep := by
    obtain ⟨-, -, hvr, hvs, -⟩ := mem_votesSent_sendVote P cfg (hout ▸ hv)
    rintro _ ⟨rfl⟩
    rw [hvr, hmv.2]
    exact hlock (hvs.symm.trans hstep)
  commits height b uow h := absurd h (hcommits height b uow)
  height := by
    rintro _ ⟨rfl⟩
    exact hm'.ge
  kept := by
    rintro _ ⟨rfl⟩
    exact hkept
  invariant := by
    rintro _ ⟨rfl⟩
    exact hinv

theorem safeResult_crashed : SafeResult net w m ⟨none, []⟩ :=
  .of_quiet rfl (by simp) (by simp)

/-- INTERNAL: the certificate written into the block also gets into the lock that shares it,
where it changes nothing the lock stands for. -/
theorem lockInvariant_setBlockCertificate {bytes : Bytes} (h : LockInvariant net w m)
    (hm₁ : m.setBlockCertificate bytes = some m₁) : LockKept m m₁ ∧ LockInvariant net w m₁ := by
  obtain ⟨b, b', hb, hstrip, rfl⟩ := NodeState.setBlockCertificate_eq hm₁
  cases hshares : m.lockedQCSharesBlock with
  | false =>
    simp only [Bool.false_eq_true, if_false]
    exact ⟨.of_same rfl, ⟨h.lock, by simp, h.pools⟩⟩
  | true =>
    simp only [if_true]
    cases hl : m.lockedQC with
    | none => exact ⟨by simp [LockKept, hl], ⟨by simp, by simp, h.pools⟩⟩
    | some l =>
      obtain ⟨b₀, hb₀, hcert⟩ := h.lock l hl
      obtain rfl : b₀ = b := by
        have := h.shares hshares l hl
        rw [hb₀, hb] at this
        exact Option.some.inj this
      refine ⟨?_, ⟨?_, ?_, h.pools⟩⟩
      · rintro - l' hl'
        rw [hl] at hl'
        obtain rfl := Option.some.inj hl'
        exact ⟨_, rfl, .inl le_rfl⟩
      · rintro _ ⟨rfl⟩
        exact ⟨b', rfl, hcert.congr hstrip⟩
      · rintro - _ ⟨rfl⟩
        rfl

theorem safeResult_of_commitOutcome (h : CommitOutcome P cfg env qc m r)
    (hinv : LockInvariant net w m)
    (hcert : ∀ b, m.block = some b → CertifiedIn net w m.height m.round .commit b) :
    SafeResult net w m r := by
  cases h with
  | crashed => exact safeResult_crashed
  | failed m₁ hm₁ =>
    obtain ⟨hkept, hinv₁⟩ := lockInvariant_setBlockCertificate hinv hm₁
    obtain ⟨b, b', -, -, rfl⟩ := NodeState.setBlockCertificate_eq hm₁
    exact safeResult_interruptRound rfl hkept hinv₁
  | committed m₁ block uow hm₁ hblock huow =>
    obtain ⟨b, b', hb, hstrip, rfl⟩ := NodeState.setBlockCertificate_eq hm₁
    obtain rfl := Option.some.inj hblock
    refine ⟨?_, ?_, ?_, ?_, ?_, ?_⟩
    · simp
    · simp
    · intro height b₁ uow₁ hmem
      rcases List.mem_cons.mp hmem with heq | hmem
      · obtain ⟨rfl, rfl, rfl⟩ := Output.committed.inj heq
        exact ⟨m.round, (hcert b hb).congr hstrip⟩
      · exact absurd hmem not_committed_viewMessages
    · rintro _ ⟨rfl⟩
      exact Nat.le_succ _
    · rintro _ ⟨rfl⟩ hheight
      exact absurd hheight (Nat.succ_ne_self _)
    · rintro _ ⟨rfl⟩
      exact ⟨(fun l hl => by cases hl), nofun, unforged_clearMessagesPool⟩

/-! ## Handlers -/

theorem mem_signatures_of_certificate (hqc : msg.getQuorumCertificate = some qc)
    (hps : ps ∈ signatureList qc) : ps ∈ msg.signatures := by
  unfold HotstuffMessage.getQuorumCertificate at hqc
  unfold signatures
  split at hqc
  · obtain rfl := Option.some.inj hqc
    simp only [*]
    exact hps
  · simp at hqc

theorem mem_signatures_of_usable (h : usablePartialSignature height step round msg = some ps) :
    ps ∈ msg.signatures := by
  have hps : msg.getPartialSignature = some ps := by
    unfold usablePartialSignature at h
    split at h
    · simp at h
    · repeat' split at h
      all_goals simp_all
  unfold getPartialSignature at hps
  unfold signatures
  split at hps
  · obtain rfl := Option.some.inj hps
    simp [*]
  · simp at hps

section Handlers

variable (hproper : VotesProper w) (hinv : LockInvariant net w m)
  (hvals : ∀ height vals, env.getValidatorsAtHeight height = some vals → vals = net.validators height)
  (hmsg : ∀ ps ∈ msg.signatures, Unforged net w ps)

include hproper hvals hmsg in
theorem certified_of_message {qc : QuorumCertificate} {phase : Phase}
    (hsafe : ReplicaSafe net.platform cfg env m msg)
    (hstep : msg.step = PreCommit ∨ msg.step = Commit ∨ msg.step = Decide)
    (hante : isValidMessageBlock net.platform cfg m msg = some true)
    (hqc : msg.getQuorumCertificate = some qc)
    (hvalid : validateQuorumCertificate net.platform env m (some qc) = true)
    (hphase : phaseOf (certifiedPhase msg.step) = some phase) :
    qc.round = m.round ∧ (∃ b, qc.block = some b ∧ CertifiedIn net w m.height m.round phase b)
      ∧ ∀ b, m.block = some b → CertifiedIn net w m.height m.round phase b := by
  obtain ⟨⟨hs, hh, hr, hblock⟩, hquorum⟩ := (hsafe hante).2 hstep qc hqc hvalid
  obtain ⟨-, -, vals, hv, -⟩ := validateQuorumCertificate_iff.mp hvalid
  have hof : validatorsOf env m = net.validators qc.height := by
    rw [hh, ← hvals _ _ hv, validatorsOf, hv, Option.getD_some]
  have hsigs : ∀ ps ∈ signatureList qc, Unforged net w ps := fun ps hps =>
    hmsg ps (mem_signatures_of_certificate hqc hps)
  rw [SignedByQuorum, hof] at hquorum
  obtain ⟨b, hb, hcert⟩ := certified_of_signers hproper (hs ▸ hphase) hsigs hquorum
  rw [hh, hr] at hcert
  refine ⟨hr, ⟨b, hb, hcert⟩, fun b' hb' => hcert.congr ?_⟩
  simpa [hb, hb'] using hblock.symm

/-- INTERNAL: a locked replica that finds a proposal acceptable is locked on the block of its
justification. -/
theorem justification_of_locked {l : QuorumCertificate} (h : validateProposal P env m msg = .ok ())
    (hl : m.lockedQC = some l)
    (hb : (msg.getQuorumCertificate.bind (·.block)).map Block.withoutCertificate = some b)
    (hlb : ∃ b₀, l.block = some b₀) : l.block.map Block.withoutCertificate = some b := by
  unfold validateProposal at h
  split at h
  swap
  · simp at h
  split at h
  · simp at h
  simp only [hl] at h
  split at h
  · simp at h
  rename_i justifyQC hjustify
  split at h
  swap
  · simp at h
  rename_i hhash
  obtain ⟨b₀, hb₀⟩ := hlb
  rw [hjustify, Option.bind_some] at hb
  cases hjb : justifyQC.block with
  | none => simp [hjb] at hb
  | some b₁ =>
    rw [hb₀, hjb] at hhash
    obtain rfl : b₀ = b₁ := hhash
    rwa [hb₀, ← hjb]

include hproper hinv hvals hmsg in
theorem safeResult_of_replicaStep (h : ReplicaStep net.platform cfg env m msg r)
    (hsafe : ReplicaSafe net.platform cfg env m msg) : SafeResult net w m r := by
  cases h with
  | crashed => exact safeResult_crashed
  | rejected =>
    refine .of_quiet rfl (by simp) ?_
    rintro _ ⟨rfl⟩
    exact ⟨rfl, .of_same rfl, hinv⟩
  | refreshFailed | refreshed =>
    refine .of_quiet rfl (by simp) ?_
    rintro _ ⟨rfl⟩
    exact ⟨rfl, .of_same rfl, hinv.of_same rfl rfl rfl rfl hinv.pools⟩
  | interrupted uow =>
    exact safeResult_interruptRound rfl (.of_same rfl)
      (hinv.of_same rfl rfl rfl rfl hinv.pools)
  | votedPrepare block m₁ hstep hblock hante hproposal happly =>
    obtain ⟨uow, rfl⟩ := snd_eq_of_eq happly (applyBlock_snd env block m)
    refine .of_vote rfl (fun _ _ _ => not_committed_sendVote) ⟨rfl, rfl⟩ rfl (.of_same rfl) ?_ (fun h => absurd h (by decide)) ?_
    · rintro _ ⟨rfl⟩
      refine .inl ⟨rfl, fun l hl => ?_⟩
      -- the lock is on the justification's block, and that is the proposed one
      have hfit := (hsafe hante).1 hstep (by simp [hl]) hproposal
      rw [hblock, Option.map_some] at hfit
      obtain ⟨b₀, hb₀, -⟩ := hinv.lock l hl
      exact justification_of_locked hproposal hl hfit ⟨b₀, hb₀⟩
    · exact ⟨hinv.lock, nofun, hinv.pools⟩
  | votedPreCommit qc hstep hante hqc hvalid =>
    have hphase : phaseOf (certifiedPhase msg.step) = some .prepare := by rw [hstep]; rfl
    obtain ⟨-, -, hcert⟩ := certified_of_message hproper hvals hmsg hsafe (.inl hstep) hante hqc
      hvalid hphase
    refine .of_vote rfl (fun _ _ _ => not_committed_sendVote) ⟨rfl, rfl⟩ rfl (.of_same rfl) (fun b hb => .inr (.inl ⟨rfl, hcert b hb⟩))
      (fun h => absurd h (by decide)) ?_
    exact hinv.of_same rfl rfl rfl rfl hinv.pools
  | votedCommit qc hstep hante hqc hvalid =>
    have hphase : phaseOf (certifiedPhase msg.step) = some .preCommit := by rw [hstep]; rfl
    obtain ⟨hround, ⟨b, hb, hlock⟩, hcert⟩ := certified_of_message hproper hvals hmsg hsafe
      (.inr (.inl hstep)) hante hqc hvalid hphase
    refine .of_vote rfl (fun _ _ _ => not_committed_sendVote) ⟨rfl, rfl⟩ rfl ?_ (fun b hb => .inr (.inr ⟨rfl, hcert b hb⟩))
      (fun _ => ⟨qc, rfl, hround.ge⟩) ⟨?_, nofun, hinv.pools⟩
    · rintro - l -
      exact ⟨qc, rfl, .inr hround.ge⟩
    · rintro _ ⟨rfl⟩
      exact ⟨b, hb, hround ▸ hlock⟩
  | decided qc _ hstep hante hqc hvalid hr =>
    have hphase : phaseOf (certifiedPhase msg.step) = some .commit := by rw [hstep]; rfl
    obtain ⟨-, -, hcert⟩ := certified_of_message hproper hvals hmsg hsafe (.inr (.inr hstep)) hante
      hqc hvalid hphase
    exact safeResult_of_commitOutcome hr hinv hcert

include hproper hinv hvals hmsg in
theorem certified_of_pool {m₀ : NodeState} {qc : QuorumCertificate} {step : ℤ} {phase : Phase}
    (hsafe : LeaderSafe net.platform cfg env m msg) (hstep : msg.step = step)
    (hphase : phaseOf step = some phase)
    (hindex : indexHotstuffMessage net.platform cfg m msg = some (true, m₀))
    (hqc : getQuorumCertificate net.platform env step m₀ = (.ok qc, m₁)) :
    qc.round = m.round ∧ qc.block = m.block
      ∧ ∃ b, m.block = some b ∧ CertifiedIn net w m.height m.round phase b := by
  obtain ⟨pools, rfl, hfrom⟩ := indexHotstuffMessage_snd hindex
  have hpools := hinv.poolsFrom hmsg hfrom
  obtain ⟨pool, vals, pss, hpool, hv, rfl, hmet, rfl⟩ := getQuorumCertificate_ok _ _ hqc
  have hv : env.getValidatorsAtHeight m.height = some vals := hv
  have hof : validatorsOf env m = vals := by rw [validatorsOf, hv, Option.getD_some]
  have hvotes : signatureList (pooledVotes { m with hotstuffMempool := pools } step)
      = pool.messages.filterMap (usablePartialSignature m.height step m.round) := by
    have hpool : pools step = some pool := hpool
    simp only [pooledVotes, signatureList, hpool, Option.elim_some]
  have hsigs : ∀ ps ∈ signatureList (pooledVotes { m with hotstuffMempool := pools } step),
      Unforged net w ps := by
    intro ps hps
    rw [hvotes] at hps
    obtain ⟨x, hx, husable⟩ := List.mem_filterMap.mp hps
    exact hpools step pool hpool x hx ps (mem_signatures_of_usable husable)
  have hthree : step = Prepare ∨ step = PreCommit ∨ step = Commit := by
    unfold phaseOf at hphase
    split_ifs at hphase <;> simp_all
  have hquorum : SignedByQuorum net.platform env m
      (pooledVotes { m with hotstuffMempool := pools } step) := by
    have henough := (hsafe _ hindex).2
    rw [hstep] at henough
    refine henough hthree ?_
    rw [hvotes, hof]
    exact of_decide_eq_true hmet
  rw [SignedByQuorum, hof, hvals _ _ hv] at hquorum
  obtain ⟨b, hb, hcert⟩ := certified_of_signers hproper hphase hsigs hquorum
  exact ⟨rfl, rfl, b, hb, hcert⟩

include hproper hinv hvals hmsg in
theorem safeResult_of_leaderStep (h : LeaderStep net.platform cfg env m msg r)
    (hsafe : LeaderSafe net.platform cfg env m msg) : SafeResult net w m r := by
  cases h with
  | crashed => exact safeResult_crashed
  | waiting pools hpools | refreshFailed pools hpools =>
    refine .of_quiet rfl (by simp) ?_
    rintro _ ⟨rfl⟩
    exact ⟨rfl, .of_same rfl, hinv.of_same rfl rfl rfl rfl (hinv.poolsFrom hmsg hpools)⟩
  | abandoned pools uow hpools =>
    exact safeResult_interruptRound rfl (.of_same rfl)
      (hinv.of_same rfl rfl rfl rfl (hinv.poolsFrom hmsg hpools))
  | proposed m₀ m₁ block qc proposal hstep hindex hqc hrun =>
    obtain ⟨pools, uow, rfl, hpools⟩ := proposed_state hindex hrun
    refine .of_vote rfl (by simp [not_committed_sendVote]) ⟨rfl, rfl⟩ rfl (.of_same rfl) ?_
      (fun h => absurd h (by decide)) ⟨hinv.lock, nofun, ?_⟩
    · rintro _ ⟨rfl⟩
      refine .inl ⟨rfl, fun l hl => ?_⟩
      -- a locked leader reuses its locked block, so it does not prepare a new one
      obtain ⟨hold, hblock⟩ := (hsafe _ hindex).1 hstep l hl
      subst hqc
      rcases hrun with ⟨hnew, -⟩ | ⟨-, hqcblock, -⟩
      · exact absurd (hnew.symm.trans hold) (by decide)
      · rw [← hblock]
        exact congrArg (Option.map Block.withoutCertificate) hqcblock
    · exact hinv.poolsFrom hmsg (PoolsFrom.clearPool hpools NewRound)
  | certifiedPrepare m₀ m₁ qc _ hstep hindex hqc hr =>
    obtain ⟨-, -, b, hb, hcert⟩ := certified_of_pool hproper hinv hvals hmsg hsafe hstep rfl
      hindex hqc
    have hpools := assembled_pools hindex hqc
    obtain ⟨pools, rfl⟩ := assembled_state hindex hqc
    rcases hr with ⟨hnone, -⟩ | ⟨proposal, rfl⟩
    · simp [hnone] at hb
    · refine .of_vote rfl (by simp [not_committed_sendVote]) ⟨rfl, rfl⟩ rfl (.of_same rfl) ?_
        (fun h => absurd h (by decide)) (hinv.of_same rfl rfl rfl rfl ?_)
      · intro b' hb'
        obtain rfl := Option.some.inj (hb.symm.trans hb')
        exact .inr (.inl ⟨rfl, hcert⟩)
      · exact hinv.poolsFrom hmsg (PoolsFrom.clearPool hpools Prepare)
  | certifiedPreCommit m₀ m₁ qc _ hstep hindex hqc hr =>
    obtain ⟨hround, hblock, b, hb, hcert⟩ := certified_of_pool hproper hinv hvals hmsg hsafe hstep
      rfl hindex hqc
    have hpools := assembled_pools hindex hqc
    obtain ⟨pools, rfl⟩ := assembled_state hindex hqc
    rcases hr with ⟨hnone, -⟩ | ⟨proposal, rfl⟩
    · simp [hnone] at hb
    · refine .of_vote rfl (by simp [not_committed_sendVote]) ⟨rfl, rfl⟩ rfl ?_ ?_
        (fun _ => ⟨qc, rfl, hround.ge⟩) ⟨?_, ?_, ?_⟩
      · rintro - l -
        exact ⟨qc, rfl, .inr hround.ge⟩
      · intro b' hb'
        obtain rfl := Option.some.inj (hb.symm.trans hb')
        exact .inr (.inr ⟨rfl, hcert⟩)
      · rintro _ ⟨rfl⟩
        exact ⟨b, hblock.trans hb, hround ▸ hcert⟩
      · rintro - _ ⟨rfl⟩
        exact hblock
      · exact hinv.poolsFrom hmsg (PoolsFrom.clearPool hpools PreCommit)
  | certifiedCommit m₀ m₁ qc _ hstep hindex hqc hr =>
    obtain ⟨-, -, b, hb, hcert⟩ := certified_of_pool hproper hinv hvals hmsg hsafe hstep rfl
      hindex hqc
    have hpools := assembled_pools hindex hqc
    obtain ⟨pools, rfl⟩ := assembled_state hindex hqc
    rcases hr with ⟨hnone, -⟩ | ⟨proposal, r₁, hr₁, rfl⟩
    · simp [hnone] at hb
    · have hinv₁ : LockInvariant net w
          ({ m with hotstuffMempool := pools } : NodeState).certifiedCommit :=
        hinv.of_same rfl rfl rfl rfl (hinv.poolsFrom hmsg (PoolsFrom.clearPool hpools Commit))
      have hcommit := safeResult_of_commitOutcome hr₁ hinv₁ fun b' hb' => by
        obtain rfl := Option.some.inj (hb.symm.trans hb')
        exact hcert
      -- only the step and the pools differ between `m` and the state committed from
      refine ⟨hcommit.votes, hcommit.commitVotes, fun h b uow hmem => ?_, hcommit.height,
        hcommit.kept, hcommit.invariant⟩
      exact hcommit.commits h b uow (by simpa using hmem)

end Handlers

theorem SafeResult.of_reached (hreach : Reached msg m m₁) (h : SafeResult net w m₁ r) :
    SafeResult net w m r := by
  have hround : m.round ≤ m₁.round := by
    obtain ⟨step, leader, rfl, -⟩ := hreach.state
    rcases hreach.forward with hlt | ⟨heq, -⟩
    · exact hlt.le
    · exact heq.ge
  obtain ⟨step, leader, rfl, -⟩ := hreach.state
  refine ⟨h.votes, h.commitVotes, h.commits, h.height, fun m' hm' hheight l hl => ?_, h.invariant⟩
  obtain ⟨l', hl', hle⟩ := h.kept m' hm' hheight l hl
  exact ⟨l', hl', hle.imp_right hround.trans⟩

/-- **A node keeps the voting rules** on every event that meets the condition. -/
theorem safeResult_handleEvent {ev : Event} (hproper : VotesProper w) (hinv : LockInvariant net w m)
    (hvals : ∀ height vals, env.getValidatorsAtHeight height = some vals → vals = net.validators
      height) (hmsg : ∀ msg, ev = .message msg → ∀ ps ∈ msg.signatures, Unforged net w ps)
    (hsafe : eventSafe net.platform cfg env m ev = true) :
    SafeResult net w m (handleEvent net.platform cfg env m ev) := by
  cases ev with
  | timeout => exact safeResult_interruptRound rfl (.of_same rfl) hinv
  | message msg =>
    have hmsg := hmsg msg rfl
    have hstep := handleHotstuffMessage_step net.platform cfg env m msg
    simp only [handleEvent]
    generalize handleHotstuffMessage net.platform cfg env m msg = r at hstep ⊢
    -- the handler runs in a state that differs from `m` in round, step and leader only
    have hinv₁ : ∀ m₁, Reached msg m m₁ → LockInvariant net w m₁ := by
      intro m₁ hreach
      obtain ⟨step, leader, rfl, -⟩ := hreach.state
      exact hinv.of_same rfl rfl rfl rfl hinv.pools
    cases hstep with
    | crashed => exact safeResult_crashed
    | dropped m₁ hd =>
      refine .of_quiet rfl (by simp) ?_
      rintro _ ⟨rfl⟩
      rcases hd with rfl | ⟨step, round, rfl, -⟩
      · exact ⟨rfl, .of_same rfl, hinv⟩
      · exact ⟨rfl, .of_same rfl, hinv.of_same rfl rfl rfl rfl hinv.pools⟩
    | asLeader m₁ _ hpos hreach _ hlead h =>
      have hsafe₁ : LeaderSafe net.platform cfg env m₁ msg := by
        simp only [eventSafe, hpos, hlead, if_true, Bool.and_eq_true, decide_eq_true_eq] at hsafe
        exact hsafe.2
      exact (safeResult_of_leaderStep hproper (hinv₁ m₁ hreach) hvals hmsg h hsafe₁).of_reached hreach
    | asReplica m₁ _ hpos hreach _ hlead h =>
      have hsafe₁ : ReplicaSafe net.platform cfg env m₁ msg := by
        simp only [eventSafe, hpos, hlead, Bool.false_eq_true, if_false, Bool.and_eq_true,
          decide_eq_true_eq] at hsafe
        exact hsafe.2
      exact (safeResult_of_replicaStep hproper (hinv₁ m₁ hreach) hvals hmsg h hsafe₁).of_reached hreach

end Pocket.Analysis
