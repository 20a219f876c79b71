import Pocket.Library.Runs
import Pocket.Model.Leader

/-!
# A node process

A node handles messages and pacemaker timeouts one at a time, each under the module's
mutex.  `handleEvent` is one such event with the environment's answers during it;
`NodeRun.step` adds what it sent and committed to what the process did before.  A process
that has ended handles nothing any more.
-/

set_option autoImplicit false

namespace Pocket.Model

variable (P : Platform) (cfg : NodeConfig) (env : Env)

/-- The state in which a message is handled: after the pacemaker's catch-up and the election
of a leader.  `none` is a panic, `false` a message that is not handled.
SOURCE: consensus/hotstuff_handler.go:22-36 -/
def positionForMessage (m : NodeState) (msg : HotstuffMessage) : Option (Bool × NodeState) :=
  match shouldHandleMessage cfg env msg m with
  | none => none
  | some (false, m) => some (false, m)
  | some (true, m) =>
    if shouldElectNextLeader m then
      match electNextLeader env msg m with
      | (.halt, _) => none
      | (.err, m) => some (false, m)
      | (.ok (), m) => some (true, m)
    else some (true, m)

/-- SOURCE: consensus/hotstuff_handler.go:16-48 -/
def handleHotstuffMessage (m : NodeState) (msg : HotstuffMessage) : Result :=
  match positionForMessage cfg env m msg with
  | none => ⟨none, []⟩
  | some (false, m) => ⟨some m, []⟩
  | some (true, m) =>
    if isLeader cfg m then leaderHandlers P cfg env msg.step m msg
    else replicaHandlers P cfg env msg.step m msg

/-- What can happen to a node. -/
inductive Event where
  | message (msg : HotstuffMessage)
  | timeout
deriving DecidableEq, Repr

/-- SOURCE: consensus/module.go:250-270, consensus/pacemaker/module.go:182-191 -/
def handleEvent (m : NodeState) : Event → Result
  | .message msg => handleHotstuffMessage P cfg env m msg
  | .timeout => interruptRound cfg m

/-- A node process: its state, `none` once it has ended, and everything it has put out. -/
structure NodeRun where
  state : Option NodeState
  out : List Output

/-- One event of a node process. -/
def NodeRun.step (c : NodeRun) (e : Env × Event) : NodeRun :=
  match c.state with
  | none => c
  | some m =>
    let r := handleEvent P cfg e.1 m e.2
    ⟨r.state, c.out ++ r.out⟩

variable {c : NodeRun} {m m₁ : NodeState}

theorem NodeRun.step_ended (h : c.state = none) (e : Env × Event) : c.step P cfg e = c := by
  simp [NodeRun.step, h]

theorem NodeRun.step_running (h : c.state = some m) (e : Env × Event) :
    c.step P cfg e =
      ⟨(handleEvent P cfg e.1 m e.2).state, c.out ++ (handleEvent P cfg e.1 m e.2).out⟩ := by
  simp [NodeRun.step, h]

/-- A process that still runs after an event was running before it. -/
theorem NodeRun.exists_of_step {e : Env × Event} (h : (c.step P cfg e).state = some m₁) :
    ∃ m, c.state = some m ∧ (handleEvent P cfg e.1 m e.2).state = some m₁ := by
  cases hstate : c.state with
  | none =>
    rw [step_ended P cfg hstate e, hstate] at h
    cases h
  | some m =>
    rw [step_running P cfg hstate e] at h
    exact ⟨m, rfl, h⟩

/-- A process that has just been started at a height. -/
def NodeRun.start (height : ℕ) : NodeRun := ⟨some (initialState height), []⟩

/-- The vote messages among a node's outputs, in the order they were sent. -/
def votesSent (out : List Output) : List HotstuffMessage :=
  out.filterMap fun
    | .sendToLeader _ msg => some msg
    | _ => none

/-! ## A small network for concrete runs -/

/-- A platform whose signatures are the bytes of a list: `verify` accepts what is listed. -/
def listedSignatures (listed : List (String × HotstuffMessage × Bytes)) : Platform where
  verify key msg signature := listed.contains (key, msg, signature)
  sign privateKey msg :=
    ((listed.find? fun s => s.2.1 == msg && privateKey.isPrefixOf s.2.2).map (·.2.2)).getD []
  msgSize _ := 100
  marshalQC _ := []
  sizeofBlock := 64

/-- The node with a given id among the four validators; its private key is its id. -/
def fourConfig (id : UInt8) (address : String) : NodeConfig where
  nodeId := id.toNat
  privateKey := [id]
  address := address
  addressBytes := [id]
  maxMempoolBytes := 10000
  maxBlockBytes := 1000

/-- An environment in which everything succeeds and executing a block gives `hash`. -/
def fourEnv (hash : String) : Env where
  getValidatorsAtHeight _ := some fourValidators
  newUnitOfWork := true
  executeBlock _ := .stateHash hash
  createProposalBlock _ := (.stateHash hash, [])
  getBlockHash _ := some "previous"
  commit _ := true

/-- A block with a given state hash and previous hash, proposed by the second validator. -/
def plainBlock (height : ℕ) (stateHash prevStateHash : String) : Block where
  blockHeader := some
    { height := height, networkId := "", stateHash := stateHash, prevStateHash := prevStateHash,
      proposerAddress := [2], quorumCertificate := [], timestamp := none }
  transactions := []

/-- The message that opens a round. -/
def newRoundMsg (height round : ℕ) : HotstuffMessage :=
  { type := Propose, height := height, step := NewRound, round := round, block := none,
    justification := .none }

/-- A proposal without a certificate. -/
def prepareMsg (height round : ℕ) (block : Block) : HotstuffMessage :=
  { type := Propose, height := height, step := Prepare, round := round, block := some block,
    justification := .none }

/-- The block that the second validator proposes. -/
def proposedBlock : Block := plainBlock 1 "s" "previous"

/-- The vote of a validator for a block in the first round. -/
def voteFor (block : Block) (signature : Bytes) (addr : String) : HotstuffMessage :=
  { prepareMsg 1 0 block with
    type := Vote, justification := .partialSignature { signature := signature, address := addr } }

/-! ## What one event can do -/

/-- The message gets past the checks of the pacemaker that drop it without an effect. -/
def Considered (m : NodeState) (msg : HotstuffMessage) : Prop :=
  msg.height = m.height ∧ ¬ (isLeader cfg m ∧ msg.type = Propose ∧ msg.step ≠ NewRound)
    ∧ ¬ (msg.round < m.round ∨ (msg.round = m.round ∧ msg.step < m.step))

/-- The message makes the node elect a leader: it has none for the round of the message, and the
message opens the round or moves the node forward. -/
def Elects (m : NodeState) (msg : HotstuffMessage) : Prop :=
  Considered cfg m msg ∧ (m.round ≠ msg.round ∨ m.leaderId = none)
    ∧ ((msg.step = m.step ∧ msg.round = m.round) → m.step = NewRound)

/-- Where the pacemaker moves the node for a message. -/
def movedTo (m : NodeState) (msg : HotstuffMessage) : NodeState :=
  if msg.step = m.step ∧ msg.round = m.round then m
  else { m with step := msg.step % 256, round := msg.round }

/-- What an election means for the message that asked for it. -/
def afterElection : Call Unit × NodeState → Option (Bool × NodeState)
  | (.halt, _) => none
  | (.err, m) => some (false, m)
  | (.ok (), m) => some (true, m)

section Position

variable {cfg env} {msg : HotstuffMessage} {handled : Bool}

theorem movedTo_eq (m : NodeState) (msg : HotstuffMessage) :
    ∃ step, movedTo m msg = { m with step := step, round := msg.round }
      ∧ (step = msg.step ∨ step = msg.step % 256) := by
  unfold movedTo
  split
  · rename_i hat
    exact ⟨m.step, by rw [hat.2], .inl hat.1.symm⟩
  · exact ⟨_, rfl, .inr rfl⟩

theorem positionForMessage_of_not_considered (h : ¬ Considered cfg m msg) :
    positionForMessage cfg env m msg = some (false, m) := by
  have hshould : shouldHandleMessage cfg env msg m = some (false, m) := by
    unfold shouldHandleMessage
    split
    · rfl
    split
    · rfl
    split
    · rfl
    rename_i hown
    split
    · rfl
    rename_i hpast
    exact absurd ⟨by omega, hown, hpast⟩ h
  rw [positionForMessage, hshould]

/-- INTERNAL: a message that is considered is handled where the node is, or moves the node. -/
theorem shouldHandleMessage_of_considered (h : Considered cfg m msg) :
    shouldHandleMessage cfg env msg m =
      if msg.step = m.step ∧ msg.round = m.round then some (true, m)
      else if m.round ≠ msg.round ∨ m.leaderId = none then
        afterElection (electNextLeader env msg (movedTo m msg))
      else some (true, movedTo m msg) := by
  obtain ⟨hheight, hown, hpast⟩ := h
  unfold shouldHandleMessage
  rw [if_neg (by omega), if_neg (by omega), if_neg hown, if_neg hpast]
  split
  · rfl
  · rename_i hat
    have hunset : (m.round ≠ msg.round ∨ ¬ isLeaderSet m) ↔ m.round ≠ msg.round ∨ m.leaderId = none := by
      simp [isLeaderSet]
    simp only [movedTo, if_neg hat, hunset]
    split
    · split <;> rename_i helect <;> rw [helect] <;> rfl
    · rfl

theorem positionForMessage_of_not_elects (h : Considered cfg m msg) (hnot : ¬ Elects cfg m msg) :
    positionForMessage cfg env m msg = some (true, movedTo m msg) := by
  have hkept : shouldHandleMessage cfg env msg m = some (true, movedTo m msg)
      ∧ shouldElectNextLeader (movedTo m msg) = false := by
    rw [shouldHandleMessage_of_considered h]
    by_cases hat : msg.step = m.step ∧ msg.round = m.round
    · rw [if_pos hat, movedTo, if_pos hat]
      refine ⟨rfl, Bool.eq_false_iff.mpr fun helects => hnot ?_⟩
      simp only [shouldElectNextLeader, Bool.and_eq_true, beq_iff_eq,
        Option.isNone_iff_eq_none] at helects
      exact ⟨h, .inr helects.2, fun _ => helects.1⟩
    · have hset : ¬ (m.round ≠ msg.round ∨ m.leaderId = none) := fun hunset =>
        hnot ⟨h, hunset, fun heq => absurd heq hat⟩
      rw [if_neg hat, if_neg hset]
      refine ⟨rfl, ?_⟩
      obtain ⟨step, hstep, -⟩ := movedTo_eq m msg
      rw [hstep]
      simp [shouldElectNextLeader, Option.isSome_iff_ne_none, (not_or.mp hset).2]
  simp [positionForMessage, hkept]

theorem positionForMessage_of_elects (h : Elects cfg m msg) :
    positionForMessage cfg env m msg
      = afterElection (electNextLeader env msg (movedTo m msg)) := by
  obtain ⟨hconsidered, hunset, hopens⟩ := h
  have hshould := @shouldHandleMessage_of_considered cfg env m msg hconsidered
  unfold positionForMessage
  by_cases hat : msg.step = m.step ∧ msg.round = m.round
  · have hnone : m.leaderId = none := hunset.resolve_left fun hne => hne hat.2.symm
    have helects : shouldElectNextLeader m = true := by
      simp [shouldElectNextLeader, hopens hat, hnone]
    rw [hshould, if_pos hat, movedTo, if_pos hat]
    simp only [helects, if_true]
    split <;> rename_i helect <;> rw [helect] <;> rfl
  · rw [hshould, if_neg hat, if_pos hunset]
    rcases electNextLeader_cases env msg (movedTo m msg) with ⟨c, hc, -⟩ | ⟨id, _, _, _, hid, -⟩
    · -- a second election without a leader is the first once more
      have hagain : electNextLeader env msg { movedTo m msg with leaderId := none }
          = (c, { movedTo m msg with leaderId := none }) := hc
      cases c with
      | halt | err => rw [hc]; rfl
      | ok => simp only [hc, afterElection, hagain, ite_self]
    · simp [hid, afterElection, shouldElectNextLeader]

/-- **Where a message leaves the node before it is handled.** -/
theorem positionForMessage_cases (h : positionForMessage cfg env m msg = some (handled, m₁)) :
    (¬ Considered cfg m msg ∧ handled = false ∧ m₁ = m)
      ∨ (Considered cfg m msg ∧ ¬ Elects cfg m msg ∧ handled = true ∧ m₁ = movedTo m msg)
      ∨ (Elects cfg m msg ∧ ∃ c, electNextLeader env msg (movedTo m msg) = (c, m₁)
        ∧ (handled = false → c = .err)) := by
  by_cases hconsidered : Considered cfg m msg
  swap
  · rw [positionForMessage_of_not_considered hconsidered] at h
    cases h
    exact .inl ⟨hconsidered, rfl, rfl⟩
  by_cases helects : Elects cfg m msg
  swap
  · rw [positionForMessage_of_not_elects hconsidered helects] at h
    cases h
    exact .inr (.inl ⟨hconsidered, helects, rfl, rfl⟩)
  · rw [positionForMessage_of_elects helects] at h
    rcases helect : electNextLeader env msg (movedTo m msg) with ⟨_ | _ | _, m₂⟩ <;>
      rw [helect] at h <;> cases h
    · exact .inr (.inr ⟨helects, _, rfl, nofun⟩)
    · exact .inr (.inr ⟨helects, _, rfl, fun _ => rfl⟩)

theorem considered_of_position (h : positionForMessage cfg env m msg = some (true, m₁)) :
    Considered cfg m msg := by
  rcases positionForMessage_cases h with ⟨-, hfalse, -⟩ | ⟨hconsidered, -⟩ | ⟨helects, -⟩
  · cases hfalse
  · exact hconsidered
  · exact helects.1

theorem positionForMessage_dropped (h : positionForMessage cfg env m msg = some (false, m₁)) :
    m₁ = m ∨ (Elects cfg m msg ∧ ∃ step,
      m₁ = { m with step := step, round := msg.round, leaderId := none }
        ∧ (step = msg.step ∨ step = msg.step % 256)) := by
  rcases positionForMessage_cases h with ⟨-, -, hsame⟩ | ⟨-, -, htrue, -⟩ | ⟨helects, c, helect, herr⟩
  · exact .inl hsame
  · cases htrue
  · rw [herr rfl] at helect
    obtain ⟨step, hmoved, hstep⟩ := movedTo_eq m msg
    refine .inr ⟨helects, step, ?_, hstep⟩
    rw [electNextLeader_err env helect, hmoved]

end Position

theorem positionForMessage_false {msg : HotstuffMessage}
    (h : positionForMessage cfg env m msg = some (false, m₁)) : Dropped m m₁ := by
  rcases positionForMessage_dropped h with hsame | ⟨helects, step, hmoved, -⟩
  · exact .inl hsame
  · refine .inr ⟨step, msg.round, hmoved, ?_⟩
    obtain ⟨⟨-, -, hpast⟩, hunset, -⟩ := helects
    by_cases hround : msg.round = m.round
    · exact .inr ⟨hround, hunset.resolve_left fun hne => hne hround.symm⟩
    · exact .inl (by omega)

theorem positionForMessage_true {msg : HotstuffMessage}
    (h : positionForMessage cfg env m msg = some (true, m₁)) : Reached msg m m₁ := by
  obtain ⟨hheight, -, hpast⟩ := considered_of_position h
  obtain ⟨step, hmoved, hstep⟩ := movedTo_eq m msg
  refine ⟨hheight, ?_, by omega⟩
  rcases positionForMessage_cases h with
    ⟨-, hfalse, -⟩ | ⟨-, -, -, rfl⟩ | ⟨⟨-, hunset, -⟩, c, helect, -⟩
  · cases hfalse
  · exact ⟨step, m.leaderId, hmoved, hstep, fun _ _ => rfl⟩
  · obtain ⟨leader, hleader⟩ := electNextLeader_snd env msg (movedTo m msg)
    rw [helect, hmoved] at hleader
    refine ⟨step, leader, hleader, hstep, fun hround hsome => ?_⟩
    rw [hunset.resolve_left fun hne => hne hround.symm] at hsome
    cases hsome

/-- What one message can do to a node: end the process, be dropped, or be handled in a
state `m₁`, by the leader's or by the replica's handler for its step. -/
inductive MessageStep (m : NodeState) (msg : HotstuffMessage) : Result → Prop
  | crashed : MessageStep m msg ⟨none, []⟩
  | dropped (m₁ : NodeState) (h : Dropped m m₁)
      (hpos : positionForMessage cfg env m msg = some (false, m₁)) : MessageStep m msg ⟨some m₁, []⟩
  | asLeader (m₁ : NodeState) (r : Result)
      (hpos : positionForMessage cfg env m msg = some (true, m₁)) (hreach : Reached msg m m₁)
      (hstep : m₁.step = msg.step) (hlead : isLeader cfg m₁ = true)
      (h : LeaderStep P cfg env m₁ msg r) : MessageStep m msg r
  | asReplica (m₁ : NodeState) (r : Result)
      (hpos : positionForMessage cfg env m msg = some (true, m₁)) (hreach : Reached msg m m₁)
      (hstep : m₁.step = msg.step) (hlead : isLeader cfg m₁ = false)
      (h : ReplicaStep P cfg env m₁ msg r) : MessageStep m msg r

theorem handlers_of_unknown {msg : HotstuffMessage} (h : ¬ (1 ≤ msg.step ∧ msg.step ≤ 5)) :
    leaderHandlers P cfg env msg.step m msg = ⟨none, []⟩
      ∧ replicaHandlers P cfg env msg.step m msg = ⟨none, []⟩ := by
  have h1 : msg.step ≠ NewRound := by unfold NewRound; omega
  have h2 : msg.step ≠ Prepare := by unfold Prepare; omega
  have h3 : msg.step ≠ PreCommit := by unfold PreCommit; omega
  have h4 : msg.step ≠ Commit := by unfold Commit; omega
  have h5 : msg.step ≠ Decide := by unfold Decide; omega
  simp only [leaderHandlers, replicaHandlers, h1, h2, h3, h4, h5, if_false, and_self]

theorem handlers_of_known {msg : HotstuffMessage} (hknown : 1 ≤ msg.step ∧ msg.step ≤ 5) :
    (∃ body, leaderHandlers P cfg env msg.step m msg
        = HotstuffLeaderMessageHandler.anteHandle P cfg env m msg body)
      ∧ ∃ body, replicaHandlers P cfg env msg.step m msg
        = HotstuffReplicaMessageHandler.anteHandle P cfg m msg body := by
  have hsteps : msg.step = NewRound ∨ msg.step = Prepare ∨ msg.step = PreCommit
      ∨ msg.step = Commit ∨ msg.step = Decide := by
    unfold NewRound Prepare PreCommit Commit Decide
    omega
  rcases hsteps with h | h | h | h | h
  all_goals
    rw [h]
    exact ⟨⟨_, rfl⟩, _, rfl⟩

/-- A message is handled in the state `m₁`, with the message's step, by the handler of its step. -/
structure HandledIn (m : NodeState) (msg : HotstuffMessage) (m₁ : NodeState) (r : Result) : Prop where
  position : positionForMessage cfg env m msg = some (true, m₁)
  reached : Reached msg m m₁
  known : 1 ≤ msg.step ∧ msg.step ≤ 5
  step_eq : m₁.step = msg.step
  result : r = if isLeader cfg m₁ then leaderHandlers P cfg env msg.step m₁ msg
    else replicaHandlers P cfg env msg.step m₁ msg

/-- **What a message can do to a node**: end the process, be dropped, or be handled. -/
theorem handleHotstuffMessage_cases (m : NodeState) (msg : HotstuffMessage) :
    handleHotstuffMessage P cfg env m msg = ⟨none, []⟩
      ∨ (∃ m₁, positionForMessage cfg env m msg = some (false, m₁) ∧ Dropped m m₁
        ∧ handleHotstuffMessage P cfg env m msg = ⟨some m₁, []⟩)
      ∨ ∃ m₁, HandledIn P cfg env m msg m₁ (handleHotstuffMessage P cfg env m msg) := by
  unfold handleHotstuffMessage
  split
  · exact .inl rfl
  · rename_i m₁ hpos
    exact .inr (.inl ⟨m₁, hpos, positionForMessage_false cfg env hpos, rfl⟩)
  · rename_i m₁ hpos
    have hreached := positionForMessage_true cfg env hpos
    by_cases hknown : 1 ≤ msg.step ∧ msg.step ≤ 5
    · refine .inr (.inr ⟨m₁, hpos, hreached, hknown, ?_, rfl⟩)
      obtain ⟨step, leader, rfl, hstep | hstep, -⟩ := hreached.state
      · exact hstep
      · exact hstep.trans (Int.emod_eq_of_lt (by omega) (by omega))
    · obtain ⟨hleader, hreplica⟩ := handlers_of_unknown P cfg env hknown
      rw [hleader, hreplica, ite_self]
      exact .inl rfl

theorem handleHotstuffMessage_step (m : NodeState) (msg : HotstuffMessage) :
    MessageStep P cfg env m msg (handleHotstuffMessage P cfg env m msg) := by
  rcases handleHotstuffMessage_cases P cfg env m msg with h | ⟨m₁, hpos, hdropped, h⟩ | ⟨m₁, hr⟩
  · rw [h]
    exact .crashed
  · rw [h]
    exact .dropped m₁ hdropped hpos
  · rw [hr.result]
    split
    · exact .asLeader m₁ _ hr.position hr.reached hr.step_eq ‹_› (leaderHandlers_step P cfg env m₁ msg)
    · exact .asReplica m₁ _ hr.position hr.reached hr.step_eq (Bool.eq_false_iff.mpr ‹_›)
        (replicaHandlers_step P cfg env m₁ msg)

section Forward

variable {P cfg env} {msg : HotstuffMessage}

theorem handleHotstuffMessage_of_not_considered (h : ¬ Considered cfg m msg) :
    handleHotstuffMessage P cfg env m msg = ⟨some m, []⟩ := by
  rw [handleHotstuffMessage, positionForMessage_of_not_considered h]

/-- A message for the step and the round of a node that has a leader there. -/
theorem handleHotstuffMessage_at (h : Considered cfg m msg)
    (hat : msg.step = m.step ∧ msg.round = m.round) (hset : m.step = NewRound → m.leaderId ≠ none) :
    handleHotstuffMessage P cfg env m msg =
      if isLeader cfg m then leaderHandlers P cfg env msg.step m msg
      else replicaHandlers P cfg env msg.step m msg := by
  have hnot : ¬ Elects cfg m msg := by
    rintro ⟨-, hunset, hopens⟩
    exact hset (hopens hat) (hunset.resolve_left fun hne => hne hat.2.symm)
  rw [handleHotstuffMessage, positionForMessage_of_not_elects h hnot, movedTo, if_pos hat]

end Forward

end Pocket.Model
