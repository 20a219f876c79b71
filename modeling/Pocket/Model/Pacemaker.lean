import Pocket.Model.NodeState

/-!
# The pacemaker and leader election on a node

Round changes, height changes and the decision whether a message is handled at all.
`shouldHandleMessage` has effects: a message from a later round or step of the current
height moves the node there ("catch up") and may elect a leader, without touching the
unit of work, the current block or the message pools.
-/

set_option autoImplicit false

namespace Pocket.Model

variable (cfg : NodeConfig) (env : Env)

/-- `SetRound(CurrentRound() + 1)` on a `uint64`. -/
def incrRound (round : ℕ) : ℕ := (round + 1) % 2 ^ 64

/-- SOURCE: consensus/helpers.go:204-208 -/
def clearMessagesPool (pool : ℤ → Option HotstuffFIFOMempool) :
    ℤ → Option HotstuffFIFOMempool :=
  fun step => (pool step).map fun _ => {}

/-- SOURCE: consensus/module_consensus_pacemaker.go:15-25 -/
def resetRound (isNewHeight : Bool) (m : NodeState) : NodeState :=
  let m := { m with leaderId := none, hotstuffMempool := clearMessagesPool m.hotstuffMempool,
                    step := 0 }
  if isNewHeight then
    { m with round := 0, block := none, prepareQC := none, lockedQC := none,
             prepareQCSharesBlock := false, lockedQCSharesBlock := false }
  else m

/-- `Release` of a unit of work never fails, so the field always ends up nil.
SOURCE: consensus/module_consensus_pacemaker.go:28-39, utility/unit_of_work/module.go:116-130 -/
def releaseUtilityUnitOfWork (m : NodeState) : NodeState := { m with utilityUnitOfWork := none }

/-- The message that opens a view. -/
def newRoundMessage (m : NodeState) (qc : Option QuorumCertificate) : HotstuffMessage :=
  { type := Propose, height := m.height, step := NewRound, round := m.round, block := none,
    justification := match qc with
      | none => .none
      | some qc => .quorumCertificate qc }

/-- SOURCE: consensus/pacemaker/module.go:246-287 -/
def startNextView (qc : Option QuorumCertificate) (m : NodeState) : Result :=
  let m := { releaseUtilityUnitOfWork (resetRound false m) with step := NewRound }
  if cfg.manualMode then ⟨some m, []⟩
  else ⟨some m, [.broadcast (newRoundMessage m qc)]⟩

/-- SOURCE: consensus/pacemaker/module.go:194-224 -/
def interruptRound (m : NodeState) : Result :=
  let m := { m with round := incrRound m.round }
  startNextView cfg m.prepareQC m

/-- SOURCE: consensus/pacemaker/module.go:226-244 -/
def newHeight (m : NodeState) : Result :=
  let m := resetRound true m
  startNextView cfg none { m with height := m.height + 1 }

/-- SOURCE: consensus/hotstuff_handler.go:50-53 -/
def shouldElectNextLeader (m : NodeState) : Bool := m.step == NewRound && m.leaderId.isNone

/-- Election of a leader.  An elected id of zero is reported as success and leaves no
leader; an id outside the validator map is an error.
SOURCE: consensus/helpers.go:221-253, consensus/leader_election/module.go:40-65 -/
def electNextLeader (msg : HotstuffMessage) (m : NodeState) : Call Unit × NodeState :=
  let m := { m with leaderId := none }
  match env.getValidatorsAtHeight msg.height with
  | none => (.err, m)
  | some vals =>
    match electNextLeaderDeterministicRoundRobin vals msg with
    | none => (.halt, m)
    | some leaderId =>
      if leaderId = 0 then (.ok (), m)
      else
        match env.getValidatorsAtHeight m.height with
        | none => (.err, m)
        | some validators =>
          match (newActorMapper validators).idToValAddrMap leaderId with
          | none => (.err, m)
          | some _ => (.ok (), { m with leaderId := some leaderId })

/-- Whether a message is handled, and the state that decision leaves; `none` is a panic.
SOURCE: consensus/pacemaker/module.go:102-170 -/
def shouldHandleMessage (msg : HotstuffMessage) (m : NodeState) : Option (Bool × NodeState) :=
  if msg.height < m.height then some (false, m)
  -- a message from a later height raises `Consensus_IsUnsynced` and is dropped
  else if m.height < msg.height then some (false, m)
  else if isLeader cfg m ∧ msg.type = Propose ∧ msg.step ≠ NewRound then some (false, m)
  else if msg.round < m.round ∨ (msg.round = m.round ∧ msg.step < m.step) then some (false, m)
  else if msg.step = m.step ∧ msg.round = m.round then some (true, m)
  else
    let caughtUp := { m with step := msg.step % 256, round := msg.round }
    if m.round ≠ msg.round ∨ ¬ isLeaderSet m then
      match electNextLeader env msg caughtUp with
      | (.halt, _) => none
      | (.err, m') => some (false, m')
      | (.ok (), m') => some (true, m')
    else some (true, caughtUp)

/-! ## What these operations can do -/

@[simp] theorem clearMessagesPool_idem (pool : ℤ → Option HotstuffFIFOMempool) :
    clearMessagesPool (clearMessagesPool pool) = clearMessagesPool pool := by
  funext step
  simp [clearMessagesPool, Function.comp_def]

/-- The state every round change leaves: nothing pending, at `NewRound`. -/
def NodeState.atNewView (m : NodeState) : NodeState :=
  { m with leaderId := none, step := NewRound, utilityUnitOfWork := none,
           hotstuffMempool := clearMessagesPool m.hotstuffMempool }

/-- The state an interrupted round leaves: the block and both certificates stay. -/
def NodeState.interrupted (m : NodeState) : NodeState :=
  ({ m with round := incrRound m.round }).atNewView

/-- The state after a committed block: the block and both certificates are forgotten. -/
def NodeState.atNewHeight (m : NodeState) : NodeState :=
  ({ m with height := m.height + 1, round := 0, block := none, prepareQC := none,
            lockedQC := none, prepareQCSharesBlock := false,
            lockedQCSharesBlock := false }).atNewView

/-- The messages that open the next view: none in manual mode. -/
def viewMessages (m : NodeState) (qc : Option QuorumCertificate) : List Output :=
  if cfg.manualMode then [] else [.broadcast (newRoundMessage m qc)]

/-- No block is committed with them. -/
theorem not_committed_viewMessages {cfg : NodeConfig} {m : NodeState} {qc : Option QuorumCertificate}
    {height : ℕ} {block : Block} {uow : UnitOfWork} :
    .committed height block uow ∉ viewMessages cfg m qc := by
  unfold viewMessages
  split <;> simp

theorem interruptRound_eq (m : NodeState) :
    interruptRound cfg m = ⟨some m.interrupted, viewMessages cfg m.interrupted m.prepareQC⟩ := by
  unfold interruptRound startNextView viewMessages
  split <;> rfl

theorem interruptRound_state (m : NodeState) :
    (interruptRound cfg m).state = some m.interrupted := by
  rw [interruptRound_eq]

theorem newHeight_eq (m : NodeState) :
    newHeight cfg m = ⟨some m.atNewHeight, viewMessages cfg m.atNewHeight none⟩ := by
  have hstate : { releaseUtilityUnitOfWork (resetRound false
      { resetRound true m with height := (resetRound true m).height + 1 }) with
      step := NewRound } = m.atNewHeight := by
    simp [resetRound, releaseUtilityUnitOfWork, NodeState.atNewHeight, NodeState.atNewView]
  unfold newHeight startNextView viewMessages
  simp only [hstate]
  split <;> rfl

/-- **What an election can do**: it leaves no leader, or the validator whose turn it is. -/
theorem electNextLeader_cases (msg : HotstuffMessage) (m : NodeState) :
    (∃ c, electNextLeader env msg m = (c, { m with leaderId := none })
        ∧ (c = .halt ↔ env.getValidatorsAtHeight msg.height = some []))
      ∨ ∃ id vals validators addr,
        electNextLeader env msg m = (.ok (), { m with leaderId := some id })
        ∧ env.getValidatorsAtHeight msg.height = some vals
        ∧ electNextLeaderDeterministicRoundRobin vals msg = some id
        ∧ env.getValidatorsAtHeight m.height = some validators
        ∧ (newActorMapper validators).idToValAddrMap id = some addr := by
  unfold electNextLeader
  cases hvals : env.getValidatorsAtHeight msg.height with
  | none => exact .inl ⟨.err, rfl, by simp⟩
  | some vals =>
    cases hid : electNextLeaderDeterministicRoundRobin vals msg with
    | none =>
      have hnil : vals = [] := by
        by_contra hne
        simp [electNextLeaderDeterministicRoundRobin, hne] at hid
      exact .inl ⟨.halt, by simp only [hid], by simp [hnil]⟩
    | some id =>
      have hne : vals ≠ [] := by
        rintro rfl
        cases hid
      simp only [hid]
      split
      · exact .inl ⟨.ok (), rfl, by simp [hne]⟩
      split
      · exact .inl ⟨.err, rfl, by simp [hne]⟩
      · rename_i validators hvalidators
        split
        · exact .inl ⟨.err, rfl, by simp [hne]⟩
        · exact .inr ⟨id, vals, validators, _, rfl, rfl, hid, hvalidators, ‹_›⟩

theorem electNextLeader_snd (msg : HotstuffMessage) (m : NodeState) :
    ∃ leader, (electNextLeader env msg m).2 = { m with leaderId := leader } := by
  rcases electNextLeader_cases env msg m with ⟨c, h, -⟩ | ⟨id, _, _, _, h, -⟩
  · exact ⟨none, by rw [h]⟩
  · exact ⟨some id, by rw [h]⟩

theorem electNextLeader_err {msg : HotstuffMessage} {m m' : NodeState}
    (h : electNextLeader env msg m = (.err, m')) : m' = { m with leaderId := none } := by
  rcases electNextLeader_cases env msg m with ⟨c, hc, -⟩ | ⟨id, _, _, _, hid, -⟩
  · exact (Prod.mk.inj (h.symm.trans hc)).2
  · cases h.symm.trans hid

/-- A message was not handled.  The node is where it was, or it was moved to a step of a
round in which it has no leader, and had none before if the round is the same. -/
def Dropped (m m' : NodeState) : Prop :=
  m' = m ∨ ∃ step round, m' = { m with step := step, round := round, leaderId := none }
    ∧ (m.round < round ∨ (round = m.round ∧ m.leaderId = none))

/-- A message is handled in the state `m'`: at the message's height, round and step (as far
as a step fits into a byte).  The node moved forward to get there, if it moved at all, and
within a round a leader that is set stays the leader. -/
structure Reached (msg : HotstuffMessage) (m m' : NodeState) : Prop where
  height : msg.height = m.height
  state : ∃ step leader, m' = { m with step := step, round := msg.round, leaderId := leader }
    ∧ (step = msg.step ∨ step = msg.step % 256)
    ∧ (msg.round = m.round → m.leaderId.isSome → leader = m.leaderId)
  forward : m.round < msg.round ∨ (msg.round = m.round ∧ m.step ≤ msg.step)

end Pocket.Model
