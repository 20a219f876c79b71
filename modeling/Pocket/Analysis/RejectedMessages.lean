import Pocket.Analysis.ViewLeader

/-!
# What a rejected message leaves behind

A message is rejected by the pacemaker, by a failed election, or by the ante handler of the role in
which it would be handled: its block is not valid, its signature is not, or the pool is full.  None of
these exits writes anything itself (`handleHotstuffMessage_of_rejected`).  What a rejected message
changes was written before: the pacemaker moves the node to the step and the round of a later message
and elects a leader for it, and the handler elects one for the message that opens a round.

`rejected_changes_nothing_iff` says which rejected messages leave the node as it was: those that the
pacemaker drops at once, and those for the step and the round of the node that elect no leader.
-/

set_option autoImplicit false

namespace Pocket.Analysis

open Pocket.Model

variable (P : Platform) (cfg : NodeConfig) (env : Env)

/-! ## Rejected messages -/

/-- The message is rejected in the state `m₁`: it is not handled, or it has a handler and the ante
handler returns an error. -/
inductive Rejected (m : NodeState) (msg : HotstuffMessage) (m₁ : NodeState) : Prop
  | notHandled (h : positionForMessage cfg env m msg = some (false, m₁))
  | invalidBlock (hknown : 1 ≤ msg.step ∧ msg.step ≤ 5)
      (hpos : positionForMessage cfg env m msg = some (true, m₁))
      (h : isValidMessageBlock P cfg m₁ msg = some false)
  | invalidSignature (hknown : 1 ≤ msg.step ∧ msg.step ≤ 5)
      (hpos : positionForMessage cfg env m msg = some (true, m₁)) (hlead : isLeader cfg m₁ = true)
      (hvalid : isValidMessageBlock P cfg m₁ msg = some true)
      (h : validateMessageSignature P env m₁ msg = false)
  | notIndexed (hknown : 1 ≤ msg.step ∧ msg.step ≤ 5)
      (hpos : positionForMessage cfg env m msg = some (true, m₁)) (hlead : isLeader cfg m₁ = true)
      (hvalid : isValidMessageBlock P cfg m₁ msg = some true)
      (hsigned : validateMessageSignature P env m₁ msg = true)
      (h : indexHotstuffMessage P cfg m₁ msg = some (false, m₁))

/-- The state of consensus is the same: all but the unit of work. -/
structure SameConsensus (m m' : NodeState) : Prop where
  height : m'.height = m.height
  round : m'.round = m.round
  step : m'.step = m.step
  leaderId : m'.leaderId = m.leaderId
  block : m'.block = m.block
  prepareQC : m'.prepareQC = m.prepareQC
  lockedQC : m'.lockedQC = m.lockedQC
  hotstuffMempool : m'.hotstuffMempool = m.hotstuffMempool

/-- The message is for the round and the step of the node, as far as a step fits into a byte. -/
def InPlace (m : NodeState) (msg : HotstuffMessage) : Prop :=
  msg.round = m.round ∧ (msg.step = m.step ∨ msg.step % 256 = m.step)

variable {P cfg env} {m m₁ : NodeState} {msg : HotstuffMessage}

/-! ## The exits -/

/-- None of the exits writes anything. -/
theorem handleHotstuffMessage_of_rejected (h : Rejected P cfg env m msg m₁) :
    handleHotstuffMessage P cfg env m msg = ⟨some m₁, []⟩ := by
  unfold handleHotstuffMessage
  cases h with
  | notHandled h => rw [h]
  | invalidBlock hknown hpos h =>
    rw [hpos]
    obtain ⟨⟨body, hleader⟩, body', hreplica⟩ := @handlers_of_known P cfg env m₁ msg hknown
    dsimp only
    split
    · rw [hleader, HotstuffLeaderMessageHandler.anteHandle, h]
    · rw [hreplica, HotstuffReplicaMessageHandler.anteHandle, h]
  | invalidSignature hknown hpos hlead hvalid h =>
    rw [hpos]
    obtain ⟨⟨body, hleader⟩, -⟩ := @handlers_of_known P cfg env m₁ msg hknown
    dsimp only
    rw [if_pos hlead, hleader, HotstuffLeaderMessageHandler.anteHandle, hvalid]
    simp [h]
  | notIndexed hknown hpos hlead hvalid hsigned h =>
    rw [hpos]
    obtain ⟨⟨body, hleader⟩, -⟩ := @handlers_of_known P cfg env m₁ msg hknown
    dsimp only
    rw [if_pos hlead, hleader, HotstuffLeaderMessageHandler.anteHandle, hvalid]
    simp [hsigned, h]

/-! ## What the pacemaker has written before -/

theorem electNextLeader_of_electedBy {id : ℕ} (h : ElectedBy env m.height msg id) :
    electNextLeader env msg m = (.ok (), { m with leaderId := some id }) := by
  obtain ⟨hheight, vals, addr, hvals, hid, haddr⟩ := h
  have hpos : id ≠ 0 := by
    rintro rfl
    simp [newActorMapper] at haddr
  simp only [electNextLeader, hheight, hvals, hid, haddr, if_neg hpos]

theorem electNextLeader_of_nobody (hheight : msg.height = m.height)
    (hnobody : ¬ ∃ id, ElectedBy env m.height msg id) :
    (electNextLeader env msg m).2 = { m with leaderId := none } := by
  rcases electNextLeader_cases env msg m with ⟨c, hnone, -⟩ | ⟨id, _, _, _, hsome, -⟩
  · rw [hnone]
  · exact absurd ⟨id, electNextLeader_elects hsome hheight rfl⟩ hnobody

/-! ## The messages that change nothing -/

theorem not_known_of_moved (hplace : InPlace m msg) (hat : ¬ (msg.step = m.step ∧ msg.round = m.round)) :
    ¬ (1 ≤ msg.step ∧ msg.step ≤ 5) ∧ msg.step % 256 = m.step := by
  obtain ⟨hround, hstep | hmod⟩ := hplace
  · exact absurd ⟨hstep, hround⟩ hat
  · refine ⟨fun hknown => hat ⟨?_, hround⟩, hmod⟩
    rw [← hmod, Int.emod_eq_of_lt (by omega) (by omega)]

theorem movedTo_of_inPlace (hplace : InPlace m msg) : movedTo m msg = m := by
  rw [movedTo]
  split
  · rfl
  · obtain ⟨-, hmod⟩ := not_known_of_moved hplace ‹_›
    rw [hmod, hplace.1]

theorem inPlace_of_movedTo (hround : (movedTo m msg).round = m.round)
    (hstep : (movedTo m msg).step = m.step) : InPlace m msg := by
  rw [movedTo] at hround hstep
  split at hround
  · rename_i hat
    exact ⟨hat.2, .inl hat.1⟩
  · rename_i hat
    rw [if_neg hat] at hstep
    exact ⟨hround, .inr hstep⟩

/-- INTERNAL: a rejected message has been through the pacemaker, and a handler for its step was called
if it came further. -/
theorem Rejected.position (h : Rejected P cfg env m msg m₁) :
    ∃ handled, positionForMessage cfg env m msg = some (handled, m₁)
      ∧ (handled = true → 1 ≤ msg.step ∧ msg.step ≤ 5) := by
  cases h with
  | notHandled hpos => exact ⟨false, hpos, nofun⟩
  | invalidBlock hknown hpos | invalidSignature hknown hpos | notIndexed hknown hpos =>
    exact ⟨true, hpos, fun _ => hknown⟩

theorem SameConsensus.refl (m : NodeState) : SameConsensus m m :=
  ⟨rfl, rfl, rfl, rfl, rfl, rfl, rfl, rfl⟩

theorem sameConsensus_of_noLeader (h : m.leaderId = none) :
    SameConsensus m { m with leaderId := none } :=
  ⟨rfl, rfl, rfl, h.symm, rfl, rfl, rfl, rfl⟩

/-- **Rejected messages.**  A message that is rejected, at whichever exit, leaves height, round, step,
leader, block, both certificates and the message pools as they were exactly when the pacemaker drops it
at once, or it is for the round and the step of the node and, if the node waits for a leader there,
elects none. -/
theorem rejected_changes_nothing_iff (h : ∃ m₁, Rejected P cfg env m msg m₁) :
    (∃ m', (handleHotstuffMessage P cfg env m msg).state = some m' ∧ SameConsensus m m')
      ↔ ¬ Considered cfg m msg
        ∨ (InPlace m msg ∧ (m.step = NewRound → m.leaderId = none →
          ¬ ∃ id, ElectedBy env m.height msg id)) := by
  obtain ⟨m₁, hrejected⟩ := h
  rw [handleHotstuffMessage_of_rejected hrejected]
  simp only [Option.some.injEq, exists_eq_left']
  obtain ⟨handled, hpos, hknown⟩ := hrejected.position
  rcases positionForMessage_cases hpos with
    ⟨hdropped, -, rfl⟩ | ⟨hconsidered, hnot, -, rfl⟩ | ⟨helects, c, helect, hfailed⟩
  · exact iff_of_true (.refl _) (.inl hdropped)
  · rw [or_iff_right (not_not_intro hconsidered)]
    constructor
    · intro hsame
      refine ⟨inPlace_of_movedTo hsame.round hsame.step, fun hstep hleader => ?_⟩
      exact absurd ⟨hconsidered, .inr hleader, fun _ => hstep⟩ hnot
    · rintro ⟨hplace, -⟩
      rw [movedTo_of_inPlace hplace]
      exact .refl m
  · rw [or_iff_right (not_not_intro helects.1)]
    constructor
    · intro hsame
      have hplace : InPlace m msg := by
        obtain ⟨leader, hleader⟩ := electNextLeader_snd env msg (movedTo m msg)
        rw [helect] at hleader
        obtain rfl : m₁ = { movedTo m msg with leaderId := leader } := hleader
        exact inPlace_of_movedTo hsame.round hsame.step
      refine ⟨hplace, ?_⟩
      rintro - hleader ⟨id, helected⟩
      rw [movedTo_of_inPlace hplace, electNextLeader_of_electedBy helected] at helect
      cases helect
      cases hsame.leaderId.trans hleader
    · rintro ⟨hplace, hnobody⟩
      have hleader : m.leaderId = none := helects.2.1.resolve_left fun hne => hne hplace.1.symm
      rw [movedTo_of_inPlace hplace] at helect
      have hnone : m₁ = { m with leaderId := none } := by
        by_cases hstep : m.step = NewRound
        · have hsnd := electNextLeader_of_nobody helects.1.1 (hnobody hstep hleader)
          rwa [helect] at hsnd
        · have hat : ¬ (msg.step = m.step ∧ msg.round = m.round) := fun h => hstep (helects.2.2 h)
          have hunhandled : handled = false := by
            by_contra htrue
            exact (not_known_of_moved hplace hat).1 (hknown (by simpa using htrue))
          rw [hfailed hunhandled] at helect
          exact electNextLeader_err env helect
      rw [hnone]
      exact sameConsensus_of_noLeader hleader

/-- A proposal without a block, for the fourth round, moves a node that has just started there: the
block is checked after the catch-up. -/
theorem nil_proposal_moves_node :
    ∃ m₁, (NodeRun.start 1).state = some (initialState 1)
      ∧ Rejected (listedSignatures []) (fourConfig 1 "a1") (fourEnv "s") (initialState 1)
        { prepareMsg 1 3 (plainBlock 1 "s" "") with block := none } m₁
      ∧ (handleHotstuffMessage (listedSignatures []) (fourConfig 1 "a1") (fourEnv "s")
          (initialState 1) { prepareMsg 1 3 (plainBlock 1 "s" "") with block := none }).state = some m₁
      ∧ m₁.round = 3 ∧ m₁.step = Prepare ∧ m₁.leaderId = some 2 := by
  have hpos : positionForMessage (fourConfig 1 "a1") (fourEnv "s") (initialState 1)
      { prepareMsg 1 3 (plainBlock 1 "s" "") with block := none }
        = some (true, { initialState 1 with round := 3, step := Prepare, leaderId := some 2 }) := by
    rfl
  have hrejected : Rejected (listedSignatures []) (fourConfig 1 "a1") (fourEnv "s") (initialState 1)
      { prepareMsg 1 3 (plainBlock 1 "s" "") with block := none } _ :=
    .invalidBlock (by decide) hpos rfl
  refine ⟨_, rfl, hrejected, ?_, rfl, rfl, rfl⟩
  rw [handleHotstuffMessage_of_rejected hrejected]

/-- The same proposal for the step and the round of a node with a leader changes nothing. -/
theorem nil_proposal_in_place :
    ∃ m', (handleHotstuffMessage (listedSignatures []) (fourConfig 1 "a1") (fourEnv "s")
        { initialState 1 with step := Prepare, leaderId := some 2 }
        { prepareMsg 1 0 (plainBlock 1 "s" "") with block := none }).state = some m'
      ∧ SameConsensus { initialState 1 with step := Prepare, leaderId := some 2 } m' := by
  refine (rejected_changes_nothing_iff ⟨_, .invalidBlock (by decide) rfl rfl⟩).mpr (.inr ⟨?_, ?_⟩)
  · exact ⟨rfl, .inl rfl⟩
  · intro hstep
    cases hstep

end Pocket.Analysis
