import Pocket.Library.Interleaving
import Pocket.Model.Node

/-!
# A message, access by access

`handleHotstuffMessage` as a program whose actions are the accesses to one field of the consensus
module, up to the call of a handler; the handlers are a parameter.  Run alone it does what
`handleHotstuffMessage` does (`handleProgram_run`).
-/

set_option autoImplicit false

namespace Pocket.Model

open Interleaving Interleaving.Prog

variable (P : Platform) (cfg : NodeConfig) (env : Env)

/-- A program on the fields of one node. -/
abbrev NodeProgram := Prog NodeState Output

/-- The pointer is read once for the nil check and once to look at the id.
SOURCE: consensus/module_consensus_pacemaker.go:56-58 -/
def isLeaderProgram (next : Bool → NodeProgram) : NodeProgram :=
  read (·.leaderId) fun first =>
  match first with
  | none => next false
  | some _ =>
    read (·.leaderId) fun second =>
    match second with
    | none => crash
    | some id => next (id == cfg.nodeId)

/-- SOURCE: consensus/helpers.go:221-253, consensus/leader_election/module.go:40-65 -/
def electProgram (msg : HotstuffMessage) (next : NodeProgram) : NodeProgram :=
  write (fun m => { m with leaderId := none }) <|
  match env.getValidatorsAtHeight msg.height with
  | none => .done
  | some vals =>
    match electNextLeaderDeterministicRoundRobin vals msg with
    | none => crash
    | some leaderId =>
      if leaderId = 0 then next
      else
        read (·.height) fun height =>
        match env.getValidatorsAtHeight height with
        | none => .done
        | some validators =>
          match (newActorMapper validators).idToValAddrMap leaderId with
          | none => .done
          | some _ => write (fun m => { m with leaderId := some leaderId }) next

/-- What follows once the pacemaker lets a message through.
SOURCE: consensus/hotstuff_handler.go:31-48 -/
def dispatchProgram (handlers : Bool → NodeProgram) (msg : HotstuffMessage) : NodeProgram :=
  read (·.step) fun step =>
  if step = NewRound then
    read (·.leaderId) fun leaderId =>
    match leaderId with
    | none => electProgram env msg (isLeaderProgram cfg handlers)
    | some _ => isLeaderProgram cfg handlers
  else isLeaderProgram cfg handlers

/-- The move to a later step or round.  SOURCE: consensus/pacemaker/module.go:146-167 -/
def catchUpProgram (currentRound : ℕ) (msg : HotstuffMessage) (next : NodeProgram) : NodeProgram :=
  write (fun m => { m with step := msg.step % 256 }) <|
  write (fun m => { m with round := msg.round }) <|
  if currentRound ≠ msg.round then electProgram env msg next
  else
    read (·.leaderId) fun leaderId =>
    match leaderId with
    | none => electProgram env msg next
    | some _ => next

/-- SOURCE: consensus/hotstuff_handler.go:16-48, consensus/pacemaker/module.go:102-170 -/
def handleProgram (handlers : Bool → NodeProgram) (msg : HotstuffMessage) : NodeProgram :=
  read (·.height) fun currentHeight =>
  read (·.round) fun currentRound =>
  read (·.step) fun currentStep =>
  if msg.height < currentHeight then .done
  else if currentHeight < msg.height then .done
  else
    isLeaderProgram cfg fun leads =>
    if leads ∧ msg.type = Propose ∧ msg.step ≠ NewRound then .done
    else if msg.round < currentRound ∨ (msg.round = currentRound ∧ msg.step < currentStep) then .done
    else if msg.step = currentStep ∧ msg.round = currentRound then
      dispatchProgram cfg env handlers msg
    else catchUpProgram env currentRound msg (dispatchProgram cfg env handlers msg)

/-- The handlers of a message as one action each. -/
def atomicHandlers (msg : HotstuffMessage) (leads : Bool) : NodeProgram :=
  .atomic (fun m =>
    let r := if leads then leaderHandlers P cfg env msg.step m msg
      else replicaHandlers P cfg env msg.step m msg
    (r.state, r.out)) fun _ => .done

/-! ## The program run alone -/

/-- What is left to do once the node has decided whether it handles a message, and in which state;
`none` is a panic. -/
def afterDecision (next : NodeState → Option NodeState × List Output) :
    Option (Bool × NodeState) → Option NodeState × List Output
  | none => (none, [])
  | some (false, m) => (some m, [])
  | some (true, m) => next m

/-- An election as such a decision: only one that succeeds lets the message through. -/
def electionDecision : Call Unit × NodeState → Option (Bool × NodeState)
  | (.halt, _) => none
  | (.err, m) => some (false, m)
  | (.ok (), m) => some (true, m)

/-- The two reads of the leader agree. -/
theorem isLeaderProgram_run (next : Bool → NodeProgram) (m : NodeState) :
    (isLeaderProgram cfg next).run m = (next (isLeader cfg m)).run m := by
  unfold isLeaderProgram isLeader
  cases hleader : m.leaderId <;> simp [hleader]

section

variable (msg : HotstuffMessage)

/-- The program of an election is `electNextLeader`. -/
theorem electProgram_run (next : NodeProgram) (m : NodeState) :
    (electProgram env msg next).run m
      = afterDecision next.run (electionDecision (electNextLeader env msg m)) := by
  unfold electProgram electNextLeader
  rw [run_write]
  cases env.getValidatorsAtHeight msg.height with
  | none => rfl
  | some vals =>
    dsimp only
    cases electNextLeaderDeterministicRoundRobin vals msg with
    | none => rfl
    | some id =>
      dsimp only
      split_ifs
      · rfl
      · rw [run_read]
        cases env.getValidatorsAtHeight m.height with
        | none => rfl
        | some validators =>
          dsimp only
          cases (newActorMapper validators).idToValAddrMap id <;> rfl

/-- The catch-up elects a leader in a later round, or where there is none. -/
theorem catchUpProgram_run (next : NodeProgram) (m : NodeState) :
    (catchUpProgram env m.round msg next).run m = afterDecision next.run
      (if m.round ≠ msg.round ∨ ¬ isLeaderSet m then
        electionDecision
          (electNextLeader env msg { m with step := msg.step % 256, round := msg.round })
      else some (true, { m with step := msg.step % 256, round := msg.round })) := by
  unfold catchUpProgram isLeaderSet
  simp only [run_write]
  by_cases hround : m.round ≠ msg.round
  · rw [if_pos hround, if_pos (.inl hround), electProgram_run]
  · rw [if_neg hround, run_read]
    cases hleader : m.leaderId with
    | none =>
      rw [if_pos (.inr (by simp))]
      exact electProgram_run env msg next _
    | some id =>
      rw [if_neg (by simpa using hround)]
      rfl

/-- A new round without a leader elects one before the handler is called. -/
theorem dispatchProgram_run (handlers : Bool → NodeProgram) (m : NodeState) :
    (dispatchProgram cfg env handlers msg).run m
      = afterDecision (fun m' => (handlers (isLeader cfg m')).run m')
        (if shouldElectNextLeader m then electionDecision (electNextLeader env msg m)
        else some (true, m)) := by
  unfold dispatchProgram shouldElectNextLeader
  rw [run_read]
  by_cases hstep : m.step = NewRound
  · rw [if_pos hstep, run_read]
    cases hleader : m.leaderId with
    | none =>
      rw [if_pos (by simp [hstep]), ← funext (isLeaderProgram_run cfg handlers)]
      exact electProgram_run env msg _ m
    | some id =>
      rw [if_neg (by simp)]
      exact isLeaderProgram_run cfg _ m
  · rw [if_neg hstep, if_neg (by simp [hstep])]
    exact isLeaderProgram_run cfg _ m

/-- The program up to the dispatch decides as `shouldHandleMessage` does. -/
theorem handleProgram_decides (handlers : Bool → NodeProgram) (m : NodeState) :
    (handleProgram cfg env handlers msg).run m
      = afterDecision (dispatchProgram cfg env handlers msg).run
        (shouldHandleMessage cfg env msg m) := by
  unfold handleProgram shouldHandleMessage
  simp only [run_read, apply_ite (Prog.run · m), apply_ite (afterDecision _), isLeaderProgram_run,
    catchUpProgram_run]
  rfl

/-- A message that is handled alone, each handler in one action, is handled by
`handleHotstuffMessage`. -/
theorem handleProgram_run (m : NodeState) :
    (handleProgram cfg env (atomicHandlers P cfg env msg) msg).run m
      = ((handleHotstuffMessage P cfg env m msg).state,
        (handleHotstuffMessage P cfg env m msg).out) := by
  rw [handleProgram_decides]
  unfold handleHotstuffMessage positionForMessage
  rcases shouldHandleMessage cfg env msg m with _ | ⟨_ | _, m₁⟩
  · rfl
  · rfl
  · change (dispatchProgram cfg env (atomicHandlers P cfg env msg) msg).run m₁ = _
    rw [dispatchProgram_run]
    dsimp only
    split_ifs
    · rcases electNextLeader env msg m₁ with ⟨_ | _ | _, m₂⟩
      · simp only [electionDecision, afterDecision, atomicHandlers, run_last]
      · rfl
      · rfl
    · simp only [afterDecision, atomicHandlers, run_last]

end

end Pocket.Model
