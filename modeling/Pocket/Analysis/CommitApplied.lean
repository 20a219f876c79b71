import Pocket.Analysis.PhaseCertificate

/-!
# What is in the unit of work that is committed

`m.block` survives an interrupted round while the unit of work is released and opened
again, and the pacemaker can move a replica past `Prepare`.  Two facts survive all of this:

* an open unit of work was created at the node's height, and
* if it has run anything, its last run is the run of `m.block`.

So a commit is a commit of exactly what was applied as soon as the unit of work has made
exactly one run since it was opened.  A unit of work that was opened by `NewRound` and then
committed without a `Prepare` has made none; one that is carried over into a later round
and given a second proposal has made two.  Neither happens as long as no message is ahead of
the node (`commitsOneRun_of_inOrder`).
-/

set_option autoImplicit false

namespace Pocket.Analysis

open Pocket.Model

variable (P : Platform) (cfg : NodeConfig)

/-- The run applied the block or, on the leader, created it: same proposer, transactions and
state hash. -/
def IsRunOf (block : Block) (run : UnitOfWorkRun) : Prop :=
  ∃ header, block.blockHeader = some header ∧
    (run = .applied header.proposerAddress block.transactions header.stateHash
      ∨ run = .created header.proposerAddress block.transactions header.stateHash)

/-- **What a commit should commit**: a unit of work of the current height that has run the
block and nothing else. -/
def CommitsWhatWasApplied (height : ℕ) (block : Block) (uow : UnitOfWork) : Prop :=
  uow.height = height ∧ ∃ run, uow.history = [run] ∧ IsRunOf block run

/-- The open unit of work is of the node's height, and its last run is that of the block. -/
def BlockInUnitOfWork (m : NodeState) : Prop :=
  ∀ uow, m.utilityUnitOfWork = some uow →
    uow.height = m.height ∧
      ∀ run, uow.history.getLast? = some run → ∃ block, m.block = some block ∧ IsRunOf block run

/-- Whether handling the message in state `m` can get as far as `commitBlock`: a replica with
a `Decide` message that passes its checks, or a leader that can assemble the certificate of
the `Commit` votes. -/
def reachesCommit (env : Env) (m : NodeState) (msg : HotstuffMessage) : Bool :=
  if isLeader cfg m then
    msg.step == Commit &&
      match indexHotstuffMessage P cfg m msg with
      | some (true, m₀) =>
        match getQuorumCertificate P env Commit m₀ with
        | (.ok _, _) => true
        | _ => false
      | _ => false
  else
    msg.step == Decide && isValidMessageBlock P cfg m msg == some true
      && validateQuorumCertificate P env m msg.getQuorumCertificate

/-- A node that is about to reach `commitBlock` has an open unit of work, if any, on which
exactly one block has been run since it was opened. -/
def commitsOneRun (c : NodeRun) (e : Env × Event) : Bool :=
  match c.state, e.2 with
  | some m, .message msg =>
    match positionForMessage cfg e.1 m msg with
    | some (true, m₁) =>
      !reachesCommit P cfg e.1 m₁ msg
        || m₁.utilityUnitOfWork.elim true fun uow => uow.history.length == 1
    | _ => true
  | _, _ => true

variable {P cfg} {env : Env} {m m' : NodeState} {msg : HotstuffMessage} {r : Result}

/-! ## Blocks and runs -/

/-- A run does not look at the certificate of the block. -/
theorem isRunOf_congr {b b' : Block} {run : UnitOfWorkRun}
    (h : b'.withoutCertificate = b.withoutCertificate) (hrun : IsRunOf b run) : IsRunOf b' run := by
  obtain ⟨header, hheader, hrun⟩ := hrun
  obtain ⟨hd, txs⟩ := b
  obtain ⟨hd', txs'⟩ := b'
  simp only [Block.withoutCertificate, Block.mk.injEq] at h hheader
  obtain ⟨hhd, rfl⟩ := h
  subst hheader
  cases hd' with
  | none => simp at hhd
  | some header' =>
    simp only [Option.map_some, Option.some.injEq, BlockHeader.mk.injEq] at hhd
    obtain ⟨-, -, hstate, -, hproposer, -⟩ := hhd
    refine ⟨header', rfl, ?_⟩
    rw [hstate, hproposer]
    exact hrun

variable {height : ℕ} {block : Block} {uow : UnitOfWork} {ev : Event}

/-! ## What an event leaves of the unit of work -/

/-- The runs that a unit of work has made once it is open: a replica in `Prepare` still waits for the
proposal. -/
def runsDue (cfg : NodeConfig) (m : NodeState) : ℕ :=
  if isLeader cfg m = false ∧ m.step = Prepare then 0 else 1

/-- A leader has made its proposal, and any node past `Prepare` has run one. -/
theorem runsDue_eq_one (h : isLeader cfg m = true ∨ m.step ≠ Prepare) : runsDue cfg m = 1 := by
  refine if_neg ?_
  rintro ⟨hlead, hstep⟩
  rcases h with h | h
  · rw [hlead] at h
    cases h
  · exact h hstep

/-- The unit of work is released, kept together with the block, opened anew, or has made the run of the
block that the node now holds: as its first one, or where none was due before. -/
inductive UnitOfWorkStep (cfg : NodeConfig) (m m' : NodeState) : Prop
  | released (huow : m'.utilityUnitOfWork = none)
  | kept (huow : m'.utilityUnitOfWork = m.utilityUnitOfWork) (hheight : m'.height = m.height)
      (hblock : m'.block = m.block)
      (hdue : m'.step = NewRound ∨ m.step ≠ NewRound ∧ runsDue cfg m' = runsDue cfg m)
  | opened (uow : UnitOfWork) (huow : m'.utilityUnitOfWork = some uow)
      (hheight : uow.height = m'.height) (hhist : uow.history = []) (hdue : runsDue cfg m' = 0)
  | ran (uow : UnitOfWork) (block : Block) (history : List UnitOfWorkRun) (run : UnitOfWorkRun)
      (huow : m'.utilityUnitOfWork = some uow) (hblock : m'.block = some block)
      (hrun : IsRunOf block run) (hhist : uow.history = history ++ [run])
      (hdue : runsDue cfg m' = 1)
      (hfrom : (uow.height = m'.height ∧ history = [])
        ∨ ∃ uow₀, m.utilityUnitOfWork = some uow₀ ∧ uow.height = uow₀.height ∧ m'.height = m.height
          ∧ history = uow₀.history ∧ m.step ≠ NewRound ∧ runsDue cfg m = 0)

/-- A node that only stores messages keeps its unit of work. -/
theorem unitOfWorkStep_pools (pools : ℤ → Option HotstuffFIFOMempool) :
    UnitOfWorkStep cfg m { m with hotstuffMempool := pools } := by
  refine .kept rfl rfl rfl ?_
  by_cases hnew : m.step = NewRound
  · exact .inl hnew
  · exact .inr ⟨hnew, rfl⟩

/-- An interrupted round releases it. -/
theorem unitOfWorkStep_interruptRound {m₁ : NodeState}
    (h : (interruptRound cfg m₁).state = some m') : UnitOfWorkStep cfg m m' := by
  rw [interruptRound_state] at h
  cases h
  exact .released rfl

/-- A commit releases the unit of work, whether it succeeds or not. -/
theorem unitOfWorkStep_of_commitOutcome {qc : QuorumCertificate} {m₁ : NodeState}
    (h : CommitOutcome P cfg env qc m₁ r) (hr : r.state = some m') : UnitOfWorkStep cfg m m' := by
  cases h with
  | crashed => cases hr
  | failed m₁ => exact unitOfWorkStep_interruptRound hr
  | committed m₁ block uow =>
    cases hr
    exact .released rfl

/-- A replica runs a proposal in `Prepare`. -/
theorem unitOfWorkStep_of_replicaStep (hstep : m.step = msg.step) (hlead : isLeader cfg m = false)
    (h : ReplicaStep P cfg env m msg r) (hr : r.state = some m') : UnitOfWorkStep cfg m m' := by
  cases h with
  | crashed => cases hr
  | rejected =>
    cases hr
    exact unitOfWorkStep_pools _
  | refreshFailed =>
    cases hr
    exact .released rfl
  | refreshed =>
    cases hr
    exact .opened _ rfl rfl rfl (if_pos ⟨hlead, rfl⟩)
  | interrupted uow => exact unitOfWorkStep_interruptRound hr
  | votedPrepare block m₁ hs _ _ _ happly =>
    obtain ⟨uow, uow', header, huow, hheader, rfl, hheight, hhist⟩ := applyBlock_ok env happly
    cases hr
    refine .ran uow' block _ _ rfl rfl ⟨header, hheader, .inl rfl⟩ hhist
      (runsDue_eq_one (.inr (show PreCommit ≠ Prepare by decide)))
      (.inr ⟨uow, huow, hheight, rfl, rfl, ?_, if_pos ⟨hlead, hstep.trans hs⟩⟩)
    rw [hstep, hs]
    decide
  | votedPreCommit qc hs | votedCommit qc hs =>
    have hpast : m.step ≠ NewRound ∧ m.step ≠ Prepare := by
      rw [hstep, hs]
      decide
    cases hr
    refine .kept rfl rfl rfl (.inr ⟨hpast.1, ?_⟩)
    rw [runsDue_eq_one (.inr hpast.2), runsDue_eq_one (.inr (by dsimp only; decide))]
  | decided qc _ _ _ _ _ hr₁ => exact unitOfWorkStep_of_commitOutcome hr₁ hr

open HotstuffLeaderMessageHandler in
/-- A leader that proposes has just opened its unit of work, and the block is its only run. -/
theorem unitOfWorkStep_of_leaderStep (hstep : m.step = msg.step) (hlead : isLeader cfg m = true)
    (h : LeaderStep P cfg env m msg r) (hr : r.state = some m') : UnitOfWorkStep cfg m m' := by
  cases h with
  | crashed => cases hr
  | waiting pools =>
    cases hr
    exact unitOfWorkStep_pools pools
  | refreshFailed pools =>
    cases hr
    exact .released rfl
  | abandoned pools uow => exact unitOfWorkStep_interruptRound hr
  | proposed m₀ m₁ block qc proposal hs hindex hqc hrun =>
    obtain ⟨pools, rfl, -⟩ := indexHotstuffMessage_snd hindex
    cases hr
    rcases hrun with ⟨-, hprepare⟩ | ⟨-, -, happly⟩
    · obtain ⟨_, uow, header, ⟨rfl⟩, hheader, rfl, hheight, hhist⟩ :=
        prepareBlock_ok P cfg env hprepare
      exact .ran uow block _ _ rfl rfl ⟨header, hheader, .inr rfl⟩ hhist
        (runsDue_eq_one (.inl hlead)) (.inl ⟨hheight, rfl⟩)
    · obtain ⟨_, uow, header, ⟨rfl⟩, hheader, rfl, hheight, hhist⟩ := applyBlock_ok env happly
      exact .ran uow block _ _ rfl rfl ⟨header, hheader, .inl rfl⟩ hhist
        (runsDue_eq_one (.inl hlead)) (.inl ⟨hheight, rfl⟩)
  | certifiedPrepare m₀ m₁ qc _ hs hindex hqc hr₁
  | certifiedPreCommit m₀ m₁ qc _ hs hindex hqc hr₁ =>
    obtain ⟨pools, rfl⟩ := assembled_state hindex hqc
    rcases hr₁ with ⟨-, rfl⟩ | ⟨proposal, rfl⟩
    · exact unitOfWorkStep_interruptRound hr
    · cases hr
      refine .kept rfl rfl rfl (.inr ⟨by rw [hstep, hs]; decide, ?_⟩)
      rw [runsDue_eq_one (.inl hlead)]
      exact runsDue_eq_one (.inl hlead)
  | certifiedCommit m₀ m₁ qc _ hs hindex hqc hr₁ =>
    rcases hr₁ with ⟨-, rfl⟩ | ⟨proposal, r₁, hcommit, rfl⟩
    · exact unitOfWorkStep_interruptRound hr
    · exact unitOfWorkStep_of_commitOutcome hcommit hr

/-- Where a message leaves the node before it is handled: the pacemaker and the election touch
neither height nor block nor unit of work. -/
structure MovedFor (cfg : NodeConfig) (env : Env) (m : NodeState) (msg : HotstuffMessage)
    (handled : Bool) (m₁ : NodeState) : Prop where
  position : positionForMessage cfg env m msg = some (handled, m₁)
  height : m₁.height = m.height
  block : m₁.block = m.block
  uow : m₁.utilityUnitOfWork = m.utilityUnitOfWork

/-- A message that is handled has moved the node so. -/
theorem movedFor_of_reached {m₁ : NodeState} (hreach : Reached msg m m₁)
    (hpos : positionForMessage cfg env m msg = some (true, m₁)) : MovedFor cfg env m msg true m₁ := by
  obtain ⟨step, leader, hm₁, -⟩ := hreach.state
  exact ⟨hpos, by rw [hm₁], by rw [hm₁], by rw [hm₁]⟩

/-- **What an event leaves of the unit of work.** -/
theorem unitOfWorkStep_handleEvent (h : (handleEvent P cfg env m ev).state = some m') :
    m'.utilityUnitOfWork = none ∨ ∃ msg handled m₁, ev = .message msg
      ∧ MovedFor cfg env m msg handled m₁ ∧ UnitOfWorkStep cfg m₁ m' := by
  cases ev with
  | timeout =>
    change (interruptRound cfg m).state = some m' at h
    rw [interruptRound_state] at h
    cases h
    exact .inl rfl
  | message msg =>
    have hmsg := handleHotstuffMessage_step P cfg env m msg
    change (handleHotstuffMessage P cfg env m msg).state = some m' at h
    generalize handleHotstuffMessage P cfg env m msg = r at hmsg h
    cases hmsg with
    | crashed => cases h
    | dropped m₁ hd hpos =>
      cases h
      have hmoved : MovedFor cfg env m msg false m' := by
        rcases hd with hm' | ⟨step, round, hm', -⟩ <;> exact ⟨hpos, by rw [hm'], by rw [hm'], by rw [hm']⟩
      exact .inr ⟨msg, false, m', rfl, hmoved, unitOfWorkStep_pools _⟩
    | asLeader m₁ _ hpos hreach hstep hlead hr =>
      exact .inr ⟨msg, true, m₁, rfl, movedFor_of_reached hreach hpos,
        unitOfWorkStep_of_leaderStep hstep hlead hr h⟩
    | asReplica m₁ _ hpos hreach hstep hlead hr =>
      exact .inr ⟨msg, true, m₁, rfl, movedFor_of_reached hreach hpos,
        unitOfWorkStep_of_replicaStep hstep hlead hr h⟩

theorem blockInUnitOfWork_of_none (h : m.utilityUnitOfWork = none) : BlockInUnitOfWork m := by
  intro uow huow
  rw [h] at huow
  cases huow

theorem blockInUnitOfWork_congr (hh : m'.height = m.height) (hb : m'.block = m.block)
    (hu : m'.utilityUnitOfWork = m.utilityUnitOfWork) (h : BlockInUnitOfWork m) :
    BlockInUnitOfWork m' := by
  intro uow huow
  rw [hu] at huow
  rw [hh, hb]
  exact h uow huow

/-- The last run of the open unit of work stays that of the block. -/
theorem blockInUnitOfWork_step (hm : BlockInUnitOfWork m) (h : UnitOfWorkStep cfg m m') :
    BlockInUnitOfWork m' := by
  cases h with
  | released huow => exact blockInUnitOfWork_of_none huow
  | kept huow hheight hblock => exact blockInUnitOfWork_congr hheight hblock huow hm
  | opened uow huow hheight hhist =>
    intro uow' huow'
    obtain rfl := Option.some.inj (huow.symm.trans huow')
    exact ⟨hheight, by simp [hhist]⟩
  | ran uow block history run huow hblock hrun hhist _ hfrom =>
    intro uow' huow'
    obtain rfl := Option.some.inj (huow.symm.trans huow')
    refine ⟨?_, fun run' hrun' => ⟨block, hblock, ?_⟩⟩
    · rcases hfrom with ⟨hheight, -⟩ | ⟨uow₀, huow₀, hheight, hsame, -⟩
      · exact hheight
      · rw [hheight, (hm uow₀ huow₀).1, hsame]
    · rw [hhist, List.getLast?_append] at hrun'
      simp only [List.getLast?_singleton, Option.some_or, Option.some.injEq] at hrun'
      exact hrun' ▸ hrun

/-! ## What an event commits -/

/-- The commit is of the node's unit of work and block, which differ in the certificate only. -/
def CommitsOwn (m : NodeState) (height : ℕ) (block : Block) (uow : UnitOfWork) : Prop :=
  m.utilityUnitOfWork = some uow ∧ height = m.height
    ∧ ∃ b, m.block = some b ∧ block.withoutCertificate = b.withoutCertificate

/-- **The commit itself.**  The last run of the unit of work is the run of the block. -/
theorem applied_of_commitsOwn (hm : BlockInUnitOfWork m) (h : CommitsOwn m height block uow)
    (hone : uow.history.length = 1) : CommitsWhatWasApplied height block uow := by
  obtain ⟨huow, rfl, b, hb, hsame⟩ := h
  obtain ⟨hheight, hlast⟩ := hm uow huow
  obtain ⟨run, hrun⟩ := List.length_eq_one_iff.mp hone
  obtain ⟨b₁, hb₁, hisrun⟩ := hlast run (by rw [hrun]; rfl)
  obtain rfl := Option.some.inj (hb.symm.trans hb₁)
  exact ⟨hheight, run, hrun, isRunOf_congr hsame hisrun⟩

theorem not_committed_interruptRound :
    Output.committed height block uow ∉ (interruptRound cfg m).out := by
  rw [interruptRound_eq]
  exact not_committed_viewMessages

/-- Only a commit that succeeds is sent. -/
theorem commitsOwn_of_commitOutcome {qc : QuorumCertificate} (h : CommitOutcome P cfg env qc m r)
    (hout : .committed height block uow ∈ r.out) : CommitsOwn m height block uow := by
  cases h with
  | crashed => cases hout
  | failed m₁ => exact absurd hout not_committed_interruptRound
  | committed m₁ block uow hm₁ hblock huow =>
    obtain ⟨b, b', hb, hsame, rfl⟩ := NodeState.setBlockCertificate_eq hm₁
    cases hblock
    rcases List.mem_cons.mp hout with heq | hmem
    · cases heq
      exact ⟨huow, rfl, b, hb, hsame⟩
    · exact absurd hmem not_committed_viewMessages

/-- A replica commits on a decision. -/
theorem commits_of_replicaStep (hlead : isLeader cfg m = false)
    (h : ReplicaStep P cfg env m msg r) (hout : .committed height block uow ∈ r.out) :
    reachesCommit P cfg env m msg = true ∧ CommitsOwn m height block uow := by
  cases h with
  | crashed | rejected | refreshFailed | refreshed => simp at hout
  | interrupted => exact absurd hout not_committed_interruptRound
  | votedPrepare b m₁ => exact absurd hout (not_committed_sendVote (m := m₁.accepting b))
  | votedPreCommit | votedCommit => exact absurd hout not_committed_sendVote
  | decided qc _ hs hante hqc hvalid hr =>
    refine ⟨?_, commitsOwn_of_commitOutcome hr hout⟩
    rw [← hqc] at hvalid
    simp [reachesCommit, hlead, hs, hante, hvalid]

open HotstuffLeaderMessageHandler in
/-- A leader commits on the last certificate. -/
theorem commits_of_leaderStep (hlead : isLeader cfg m = true)
    (h : LeaderStep P cfg env m msg r) (hout : .committed height block uow ∈ r.out) :
    reachesCommit P cfg env m msg = true ∧ CommitsOwn m height block uow := by
  have hvote : ∀ (proposal : HotstuffMessage) (mv : NodeState) (step : ℤ),
      Output.committed height block uow ∉ .broadcast proposal :: sendVote P cfg mv step := by
    intro proposal mv step hmem
    rcases List.mem_cons.mp hmem with heq | hmem
    · cases heq
    · exact not_committed_sendVote hmem
  cases h with
  | crashed | waiting | refreshFailed => simp at hout
  | abandoned => exact absurd hout not_committed_interruptRound
  | proposed m₀ m₁ b qc proposal => exact absurd hout (hvote proposal (m₁.proposing b) Prepare)
  | certifiedPrepare m₀ m₁ qc _ _ _ _ hr =>
    rcases hr with ⟨-, rfl⟩ | ⟨proposal, rfl⟩
    · exact absurd hout not_committed_interruptRound
    · exact absurd hout (hvote proposal (m₁.certifiedPrepare qc) PreCommit)
  | certifiedPreCommit m₀ m₁ qc _ _ _ _ hr =>
    rcases hr with ⟨-, rfl⟩ | ⟨proposal, rfl⟩
    · exact absurd hout not_committed_interruptRound
    · exact absurd hout (hvote proposal (m₁.certifiedPreCommit qc) Commit)
  | certifiedCommit m₀ m₁ qc _ hs hindex hqc hr =>
    refine ⟨by simp [reachesCommit, hlead, hs, hindex, hqc], ?_⟩
    obtain ⟨pools, rfl⟩ := assembled_state hindex hqc
    rcases hr with ⟨-, rfl⟩ | ⟨proposal, r₁, hr₁, rfl⟩
    · exact absurd hout not_committed_interruptRound
    · rcases List.mem_cons.mp hout with heq | hmem
      · cases heq
      · have hown := commitsOwn_of_commitOutcome hr₁ hmem
        exact hown

/-- **What an event commits.** -/
theorem commits_handleEvent (hout : .committed height block uow ∈ (handleEvent P cfg env m ev).out) :
    ∃ msg m₁, ev = .message msg ∧ MovedFor cfg env m msg true m₁
      ∧ reachesCommit P cfg env m₁ msg = true ∧ CommitsOwn m₁ height block uow := by
  cases ev with
  | timeout => exact absurd hout not_committed_interruptRound
  | message msg =>
    have hmsg := handleHotstuffMessage_step P cfg env m msg
    change .committed height block uow ∈ (handleHotstuffMessage P cfg env m msg).out at hout
    generalize handleHotstuffMessage P cfg env m msg = r at hmsg hout
    cases hmsg with
    | crashed | dropped => simp at hout
    | asLeader m₁ _ hpos hreach _ hlead h =>
      exact ⟨msg, m₁, rfl, movedFor_of_reached hreach hpos,
        commits_of_leaderStep hlead h hout⟩
    | asReplica m₁ _ hpos hreach _ hlead h =>
      exact ⟨msg, m₁, rfl, movedFor_of_reached hreach hpos,
        commits_of_replicaStep hlead h hout⟩

/-! ## Every run -/

/-- The process relates block and unit of work, and has committed only what was applied. -/
structure CommittedApplied (c : NodeRun) : Prop where
  related : ∀ m, c.state = some m → BlockInUnitOfWork m
  committed : ∀ height block uow, .committed height block uow ∈ c.out →
    CommitsWhatWasApplied height block uow

/-- One event. -/
theorem committedApplied_step {c : NodeRun} {e : Env × Event} (hc : CommittedApplied c)
    (hone : commitsOneRun P cfg c e = true) : CommittedApplied (c.step P cfg e) := by
  cases hstate : c.state with
  | none =>
    rw [NodeRun.step_ended P cfg hstate e]
    exact hc
  | some m =>
    rw [NodeRun.step_running P cfg hstate e]
    have hm := hc.related m hstate
    refine ⟨fun m' hm' => ?_, fun height block uow hout => ?_⟩
    · rcases unitOfWorkStep_handleEvent hm' with hnone | ⟨_, _, m₁, -, hmoved, hstep⟩
      · exact blockInUnitOfWork_of_none hnone
      · exact blockInUnitOfWork_step
          (blockInUnitOfWork_congr hmoved.height hmoved.block hmoved.uow hm) hstep
    · rcases List.mem_append.mp hout with hold | hnew
      · exact hc.committed height block uow hold
      · obtain ⟨msg, m₁, hev, hmoved, hreaches, hown⟩ := commits_handleEvent hnew
        refine applied_of_commitsOwn
          (blockInUnitOfWork_congr hmoved.height hmoved.block hmoved.uow hm) hown ?_
        simpa [commitsOneRun, hstate, hev, hmoved.position, hreaches, hown.1] using hone

/-! ## Messages in order

The condition holds if the node is sent what it waits for: the proposal of a round once its unit of
work is open, and no later message instead.  Then it handles the proposal of every round in which it
commits, and carries no unit of work over into another round. -/

/-- No message of the node's height is ahead of the node, unless it opens a round. -/
def inOrder (c : NodeRun) (e : Env × Event) : Bool :=
  match c.state, e.2 with
  | some m, .message msg => msg.height != m.height || msg.step == NewRound
    || decide (msg.round < m.round) || (msg.round == m.round && decide (msg.step ≤ m.step))
  | _, _ => true

/-- Past `NewRound` the open unit of work has made the runs that are due. -/
def OneRun (cfg : NodeConfig) (m : NodeState) : Prop :=
  ∀ uow, m.utilityUnitOfWork = some uow → m.step ≠ NewRound → uow.history.length = runsDue cfg m

theorem oneRun_of_none (h : m.utilityUnitOfWork = none) : OneRun cfg m := by
  intro uow huow
  rw [h] at huow
  cases huow

/-- One handler. -/
theorem oneRun_of_unitOfWorkStep (hm : OneRun cfg m) (h : UnitOfWorkStep cfg m m') :
    OneRun cfg m' := by
  cases h with
  | released huow => exact oneRun_of_none huow
  | kept huow _ _ hdue =>
    intro uow huow' hne
    obtain ⟨hpast, hsame⟩ := hdue.resolve_left hne
    rw [hsame, hm uow (huow.symm.trans huow') hpast]
  | opened uow huow _ hhist hdue =>
    intro uow' huow' _
    obtain rfl := Option.some.inj (huow.symm.trans huow')
    rw [hhist, hdue]
    rfl
  | ran uow block history run huow _ _ hhist hdue hfrom =>
    intro uow' huow' _
    obtain rfl := Option.some.inj (huow.symm.trans huow')
    have hfirst : history.length = 0 := by
      rcases hfrom with ⟨-, rfl⟩ | ⟨uow₀, huow₀, -, -, rfl, hpast, hnone⟩
      · rfl
      · exact (hm uow₀ huow₀ hpast).trans hnone
    rw [hhist, hdue, List.length_append, hfirst]
    rfl

/-- A message in order leaves the node where it is, or in the step that opens a round. -/
theorem position_of_inOrder {c : NodeRun} {handled : Bool} {m₁ : NodeState} (hc : c.state = some m)
    (horder : inOrder c (env, .message msg) = true)
    (h : positionForMessage cfg env m msg = some (handled, m₁)) : m₁ = m ∨ m₁.step = NewRound := by
  have hnext : Considered cfg m msg →
      msg.step = NewRound ∨ msg.step = m.step ∧ msg.round = m.round := by
    rintro ⟨hheight, -, hpast⟩
    simp only [inOrder, hc, hheight, bne_self_eq_false, Bool.false_or, Bool.or_eq_true, beq_iff_eq,
      decide_eq_true_eq, Bool.and_eq_true] at horder
    omega
  obtain ⟨step, hmoved, hstep⟩ := movedTo_eq m msg
  have hopens : msg.step = NewRound → step = NewRound := by
    intro hnew
    rcases hstep with rfl | rfl
    · exact hnew
    · rw [hnew]
      rfl
  rcases positionForMessage_cases h with
    ⟨-, -, hsame⟩ | ⟨hconsidered, -, -, rfl⟩ | ⟨⟨hconsidered, -, hopen⟩, c, helect, -⟩
  · exact .inl hsame
  · rcases hnext hconsidered with hnew | hat
    · exact .inr (by rw [hmoved]; exact hopens hnew)
    · exact .inl (if_pos hat)
  · obtain ⟨leader, hleader⟩ := electNextLeader_snd env msg (movedTo m msg)
    rw [helect, hmoved] at hleader
    refine .inr ((congrArg NodeState.step hleader).trans (hopens ?_))
    rcases hnext hconsidered with hnew | hat
    · exact hnew
    · exact hat.1.trans (hopen hat)

/-- **In order, a unit of work makes one run a round.** -/
theorem oneRun_step {c : NodeRun} {e : Env × Event} (hc : ∀ m, c.state = some m → OneRun cfg m)
    (horder : inOrder c e = true) (hm' : (c.step P cfg e).state = some m') : OneRun cfg m' := by
  obtain ⟨m, hstate, hm'⟩ := NodeRun.exists_of_step P cfg hm'
  obtain ⟨env, ev⟩ := e
  rcases unitOfWorkStep_handleEvent hm' with hnone | ⟨msg, _, m₁, rfl, hmoved, hstep⟩
  · exact oneRun_of_none hnone
  · refine oneRun_of_unitOfWorkStep ?_ hstep
    rcases position_of_inOrder hstate horder hmoved.position with rfl | hnew
    · exact hc m₁ hstate
    · exact fun _ _ hne => absurd hnew hne

/-- A leader gets as far as `commitBlock` on a `Commit` message, a replica on a `Decide` message. -/
theorem step_of_reachesCommit (h : reachesCommit P cfg env m msg = true) :
    (isLeader cfg m = true ∧ msg.step = Commit) ∨ msg.step = Decide := by
  unfold reachesCommit at h
  split at h
  · next hlead => exact .inl ⟨hlead, by simp_all⟩
  · exact .inr (by simp_all)

/-- Where the runs that are due have been made, a message in order commits one run. -/
theorem commitsOneRun_of_oneRun {c : NodeRun} {e : Env × Event}
    (hc : ∀ m, c.state = some m → OneRun cfg m) (horder : inOrder c e = true) :
    commitsOneRun P cfg c e = true := by
  obtain ⟨env, ev⟩ := e
  unfold commitsOneRun
  split
  · next m msg hstate hev =>
    obtain rfl : ev = .message msg := hev
    split
    · next m₁ hpos =>
      cases hreaches : reachesCommit P cfg env m₁ msg with
      | false => rfl
      | true =>
        obtain ⟨step, leader, hm₁, hstep, -⟩ := (positionForMessage_true cfg env hpos).state
        have hdue : m₁.step ≠ NewRound ∧ runsDue cfg m₁ = 1 := by
          have hs : m₁.step = step := congrArg NodeState.step hm₁
          rcases step_of_reachesCommit hreaches with ⟨hlead, hmsg⟩ | hmsg
          · rw [hmsg] at hstep
            refine ⟨?_, runsDue_eq_one (.inl hlead)⟩
            rcases hstep with rfl | rfl <;> rw [hs] <;> decide
          · rw [hmsg] at hstep
            have hdecide : m₁.step = Decide := by rcases hstep with rfl | rfl <;> exact hs
            exact ⟨by rw [hdecide]; decide, runsDue_eq_one (.inr (by rw [hdecide]; decide))⟩
        obtain rfl : m₁ = m := (position_of_inOrder hstate horder hpos).resolve_right hdue.1
        cases huow : m₁.utilityUnitOfWork with
        | none => rfl
        | some uow => simp [hc m₁ hstate uow huow hdue.1, hdue.2]
    · rfl
  · rfl

/-- **If no message is ahead of the node, every commit follows exactly one run.** -/
theorem commitsOneRun_of_inOrder {height : ℕ} {events : List (Env × Event)}
    (h : Runs.Guarded (NodeRun.step P cfg) (fun c e => inOrder c e = true) (NodeRun.start height)
      events) :
    Runs.Guarded (NodeRun.step P cfg) (fun c e => commitsOneRun P cfg c e = true)
      (NodeRun.start height) events := by
  have hstep : ∀ (c : NodeRun) (e : Env × Event), (∀ m, c.state = some m → OneRun cfg m) →
      inOrder c e = true → ∀ m, (c.step P cfg e).state = some m → OneRun cfg m :=
    fun c e hc horder m => oneRun_step hc horder
  refine h.of_invariant hstep (fun c e => commitsOneRun_of_oneRun) ?_
  rintro m ⟨rfl⟩
  exact oneRun_of_none rfl

variable (P cfg)

/-- SOURCE: consensus/block.go:11-35, consensus/hotstuff_replica.go:139-169,
consensus/pacemaker/module.go:146-167 — **a node commits only what was applied**, in every run
in which, whenever a handler gets as far as `commitBlock`, exactly one block has been run on
the open unit of work since it was opened. -/
theorem commits_only_what_was_applied (height : ℕ) (events : List (Env × Event))
    (hone : Runs.Guarded (NodeRun.step P cfg) (fun c e => commitsOneRun P cfg c e = true)
      (NodeRun.start height) events) :
    ∀ height' block uow,
      .committed height' block uow ∈
        (Runs.run (NodeRun.step P cfg) (NodeRun.start height) events).out →
      CommitsWhatWasApplied height' block uow := by
  have hstart : CommittedApplied (NodeRun.start height) := by
    refine ⟨?_, by simp [NodeRun.start]⟩
    rintro m ⟨rfl⟩
    exact blockInUnitOfWork_of_none rfl
  have hend : CommittedApplied (Runs.run (NodeRun.step P cfg) (NodeRun.start height) events) :=
    Runs.invariant_run (fun c e hc hg => committedApplied_step hc hg) hstart hone
  exact hend.committed

/-! ## A block of an interrupted round, and a regular round -/

/-- The block of the runs below. -/
def ordinaryBlock : Block := plainBlock 1 "s" "p"

/-- A message of a round that carries the certificate of the phase before. -/
def certifiedMsg (round : ℕ) (step : ℤ) : HotstuffMessage :=
  { phaseMsg step ordinaryBlock (threeSigners round (certifiedPhase step) ordinaryBlock) with
    round := round }

/-- The platform on which three validators have signed the block in three phases of a round. -/
def signedRound (round : ℕ) : Platform :=
  let content step := getSignableBytes (qcToHotstuffMessage (threeSigners round step ordinaryBlock))
  listedSignatures ([Prepare, PreCommit, Commit].flatMap fun step =>
    [("k2", content step, [2]), ("k3", content step, [3]), ("k4", content step, [4])])

/-- The replica applies a block, is interrupted, opens the next round and, without having
seen its proposal, is sent the valid decision for the same block. -/
def missedProposal : List (Env × Event) :=
  [(fourEnv "s", .message (newRoundMsg 1 0)),
   (fourEnv "s", .message (prepareMsg 1 0 ordinaryBlock)),
   (fourEnv "s", .timeout),
   (fourEnv "s", .message (newRoundMsg 1 1)),
   (fourEnv "s", .message (certifiedMsg 1 Decide))]

/-- It commits a unit of work on which nothing was run. -/
theorem missedProposal_commits_nothing :
    let uow : UnitOfWork := { height := 1, isLeaderUOW := false }
    Output.committed 1 ordinaryBlock uow ∈
        (Runs.run (NodeRun.step (signedRound 1) (fourConfig 1 "a1")) (NodeRun.start 1)
          missedProposal).out
      ∧ ¬ CommitsWhatWasApplied 1 ordinaryBlock uow := by
  refine ⟨by decide, ?_⟩
  rintro ⟨-, run, hrun, -⟩
  cases hrun

/-- A round in which the replica sees every message. -/
def regularRound : List (Env × Event) :=
  [(fourEnv "s", .message (newRoundMsg 1 0)),
   (fourEnv "s", .message (prepareMsg 1 0 ordinaryBlock)),
   (fourEnv "s", .message (certifiedMsg 0 PreCommit)),
   (fourEnv "s", .message (certifiedMsg 0 Commit)),
   (fourEnv "s", .message (certifiedMsg 0 Decide))]

/-- In it the replica commits, and it commits what it applied. -/
theorem regularRound_commits_what_was_applied :
    ((Runs.run (NodeRun.step (signedRound 0) (fourConfig 1 "a1")) (NodeRun.start 1)
        regularRound).out.filter fun o => o matches .committed ..).length = 1
      ∧ ∀ height block uow, .committed height block uow ∈
          (Runs.run (NodeRun.step (signedRound 0) (fourConfig 1 "a1")) (NodeRun.start 1)
            regularRound).out → CommitsWhatWasApplied height block uow :=
  ⟨by decide, commits_only_what_was_applied _ _ 1 regularRound
    (commitsOneRun_of_inOrder (by decide))⟩

end Pocket.Analysis
