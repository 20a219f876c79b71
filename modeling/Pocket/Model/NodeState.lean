import Mathlib.Logic.Function.Basic
import Pocket.Model.Validators

/-!
# The state of a consensus node

The fields of `consensusModule` that the HotStuff handlers read or write, the message
pools of the leader, the unit of work the utility module hands out, and the answers that
persistence and utility give while one event is handled (`Env`).

* A handler returns a `Result`: the state it leaves, or `none` where the process ends
  (a nil dereference, a call of a missing map entry, a division by zero, `log.Fatal`),
  with the messages sent and the blocks committed on the way.
* `UnitOfWork.history` records which runs a unit of work has made since its creation.  No
  handler reads it.
* In Go the leader's certificates hold the same pointer as `m.block`; the two flags
  `prepareQCSharesBlock` and `lockedQCSharesBlock` say when a write to the header of
  `m.block` is also a write to the block of the certificate.
-/

set_option autoImplicit false

namespace Pocket.Model

/-- One run of a unit of work: a block applied or a proposal created, with the proposer
and transactions it ran and the state hash it computed, or a run that returned an error. -/
inductive UnitOfWorkRun where
  | applied (proposer : Bytes) (txs : List Bytes) (stateHash : String)
  | created (proposer : Bytes) (txs : List Bytes) (stateHash : String)
  | failed
deriving DecidableEq, Repr

/-- SOURCE: utility/unit_of_work/module.go:22-42 -/
structure UnitOfWork where
  height : ℕ
  isLeaderUOW : Bool
  proposalStateHash : String := ""
  proposalProposerAddr : Bytes := []
  proposalBlockTxs : List Bytes := []
  stateHash : String := ""
  history : List UnitOfWorkRun := []
deriving DecidableEq, Repr

/-- SOURCE: consensus/hotstuff_mempool.go:18-25 -/
structure HotstuffFIFOMempool where
  messages : List HotstuffMessage := []
  size : ℕ := 0
  totalMsgBytes : ℕ := 0
deriving DecidableEq, Repr

namespace HotstuffFIFOMempool

/-- SOURCE: consensus/hotstuff_mempool.go:130-138 -/
def incrementCounters (P : Platform) (item : HotstuffMessage) (mp : HotstuffFIFOMempool) :
    HotstuffFIFOMempool :=
  { mp with size := (mp.size + 1) % 2 ^ 32,
            totalMsgBytes := (mp.totalMsgBytes + P.msgSize item) % 2 ^ 64 }

/-- SOURCE: consensus/hotstuff_mempool.go:140-148 -/
def decrementCounters (P : Platform) (item : HotstuffMessage) (mp : HotstuffFIFOMempool) :
    HotstuffFIFOMempool :=
  { mp with size := (mp.size + (2 ^ 32 - 1)) % 2 ^ 32,
            totalMsgBytes :=
              (mp.totalMsgBytes + (2 ^ 64 - P.msgSize item % 2 ^ 64)) % 2 ^ 64 }

/-- An overflowing push drops the oldest message but counts off the size of the new one.
SOURCE: consensus/hotstuff_mempool.go:76-78, shared/mempool/list/generic_fifo_list.go:42-55 -/
def push (P : Platform) (maxTotalMsgBytes : ℕ) (msg : HotstuffMessage)
    (mp : HotstuffFIFOMempool) : HotstuffFIFOMempool :=
  let added := incrementCounters P msg { mp with messages := mp.messages ++ [msg] }
  if maxTotalMsgBytes ≤ added.totalMsgBytes then
    decrementCounters P msg { added with messages := added.messages.tail }
  else added

/-- SOURCE: consensus/hotstuff_mempool.go:97-99, shared/mempool/list/generic_fifo_list.go:57-70 -/
def pop (P : Platform) (mp : HotstuffFIFOMempool) :
    Option (HotstuffMessage × HotstuffFIFOMempool) :=
  match mp.messages with
  | [] => none
  | msg :: rest => some (msg, decrementCounters P msg { mp with messages := rest })

variable {mp : HotstuffFIFOMempool} {P : Platform}

theorem mem_push {maxTotalMsgBytes : ℕ} {msg x : HotstuffMessage}
    (h : x ∈ (mp.push P maxTotalMsgBytes msg).messages) : x = msg ∨ x ∈ mp.messages := by
  have happend : x ∈ mp.messages ++ [msg] := by
    unfold push at h
    simp only at h
    split at h
    · exact List.mem_of_mem_tail h
    · exact h
  rcases List.mem_append.mp happend with h | h
  · exact .inr h
  · exact .inl (List.mem_singleton.mp h)

theorem pop_eq_some {msg : HotstuffMessage} {mp' : HotstuffFIFOMempool}
    (h : mp.pop P = some (msg, mp')) : mp.messages = msg :: mp'.messages := by
  unfold pop at h
  split at h
  · simp at h
  · rename_i msg' rest hmsgs
    simp only [Option.some.injEq, Prod.mk.injEq] at h
    obtain ⟨rfl, rfl⟩ := h
    exact hmsgs

end HotstuffFIFOMempool

/-- The pools `new` hold what the pools `old` held, and the message, at most. -/
def PoolsFrom (msg : HotstuffMessage) (old new : ℤ → Option HotstuffFIFOMempool) : Prop :=
  ∀ step pool, new step = some pool → ∀ x ∈ pool.messages,
    x = msg ∨ ∃ pool₀, old step = some pool₀ ∧ x ∈ pool₀.messages

namespace PoolsFrom

variable {msg : HotstuffMessage} {pools pools' : ℤ → Option HotstuffFIFOMempool}

theorem refl : PoolsFrom msg pools pools := fun _ pool hpool _ hx => .inr ⟨pool, hpool, hx⟩

theorem update {step : ℤ} {pool : Option HotstuffFIFOMempool} (h : PoolsFrom msg pools pools')
    (hpool : ∀ p, pool = some p → ∀ x ∈ p.messages,
      x = msg ∨ ∃ p₀, pools' step = some p₀ ∧ x ∈ p₀.messages) :
    PoolsFrom msg pools (Function.update pools' step pool) := by
  intro step' p hp x hx
  by_cases hstep : step' = step
  · subst hstep
    rw [Function.update_self] at hp
    rcases hpool p hp x hx with rfl | ⟨p₀, hp₀, hx₀⟩
    · exact .inl rfl
    · exact h step' p₀ hp₀ x hx₀
  · rw [Function.update_of_ne hstep] at hp
    exact h step' p hp x hx

end PoolsFrom

/-- The state of one node: SOURCE: consensus/module.go:33-86 -/
structure NodeState where
  height : ℕ
  round : ℕ
  step : ℤ
  block : Option Block
  prepareQC : Option QuorumCertificate
  lockedQC : Option QuorumCertificate
  prepareQCSharesBlock : Bool
  lockedQCSharesBlock : Bool
  leaderId : Option ℕ
  utilityUnitOfWork : Option UnitOfWork
  hotstuffMempool : ℤ → Option HotstuffFIFOMempool

/-- What distinguishes one node from another: its identity and its configuration. -/
structure NodeConfig where
  nodeId : ℕ
  privateKey : Bytes
  address : String
  addressBytes : Bytes
  maxMempoolBytes : ℕ
  maxBlockBytes : ℕ
  manualMode : Bool := false

/-- How `ApplyBlock` or `CreateProposalBlock` ends once it has started. -/
inductive ExecutionAnswer where
  | error
  | fatal
  | stateHash (hash : String)
deriving DecidableEq, Repr

/-- The answers of persistence and utility while one event is handled. -/
structure Env where
  getValidatorsAtHeight : ℕ → Option (List Actor)
  newUnitOfWork : Bool
  executeBlock : UnitOfWork → ExecutionAnswer
  createProposalBlock : UnitOfWork → ExecutionAnswer × List Bytes
  getBlockHash : ℤ → Option String
  commit : UnitOfWork → Bool

/-- What a node does to the outside. -/
inductive Output where
  | broadcast (msg : HotstuffMessage)
  | sendToLeader (leader : ℕ) (msg : HotstuffMessage)
  | committed (height : ℕ) (block : Block) (uow : UnitOfWork)
deriving DecidableEq, Repr

/-- What handling one event leaves behind; `state = none` when the process has ended. -/
structure Result where
  state : Option NodeState
  out : List Output

/-- The way a Go call that returns a value and an `error` ends: with the value, with an
error, or not at all because the process has ended. -/
inductive Call (α : Type) where
  | ok (value : α)
  | err
  | halt
deriving DecidableEq, Repr

/-- SOURCE: consensus/helpers.go:210-214 -/
def initMessagesPool : ℤ → Option HotstuffFIFOMempool :=
  fun step => if 1 ≤ step ∧ step ≤ 5 then some {} else none

/-- The state `Create` and `loadPersistedState` leave at a given height.
SOURCE: consensus/module.go:110-127, 285-303 -/
def initialState (height : ℕ) : NodeState where
  height := height
  round := 0
  step := NewRound
  block := none
  prepareQC := none
  lockedQC := none
  prepareQCSharesBlock := false
  lockedQCSharesBlock := false
  leaderId := none
  utilityUnitOfWork := none
  hotstuffMempool := initMessagesPool

/-- SOURCE: consensus/module_consensus_pacemaker.go:56-58 -/
def isLeader (cfg : NodeConfig) (m : NodeState) : Bool := m.leaderId == some cfg.nodeId

/-- SOURCE: consensus/module_consensus_pacemaker.go:60-62 -/
def isLeaderSet (m : NodeState) : Bool := m.leaderId.isSome

/-- `m.hotstuffMempool[step].Clear()`. -/
def NodeState.clearPool (m : NodeState) (step : ℤ) : NodeState :=
  { m with hotstuffMempool :=
      Function.update m.hotstuffMempool step ((m.hotstuffMempool step).map fun _ => {}) }

variable {m : NodeState}

theorem PoolsFrom.clearPool {msg : HotstuffMessage} {pools : ℤ → Option HotstuffFIFOMempool}
    (h : PoolsFrom msg pools m.hotstuffMempool) (step : ℤ) :
    PoolsFrom msg pools (m.clearPool step).hotstuffMempool := by
  refine h.update fun p hp x hx => ?_
  obtain ⟨p₀, -, rfl⟩ := Option.map_eq_some_iff.mp hp
  simp at hx

/-- `m.block.BlockHeader.QuorumCertificate = qc`, seen through every pointer to the block;
`none` is the nil dereference. -/
def NodeState.setBlockCertificate (m : NodeState) (qc : Bytes) : Option NodeState :=
  match m.block with
  | none => none
  | some b =>
    (b.setQuorumCertificate qc).map fun b' =>
      { m with
        block := some b'
        prepareQC :=
          if m.prepareQCSharesBlock then m.prepareQC.map fun q => { q with block := some b' }
          else m.prepareQC
        lockedQC :=
          if m.lockedQCSharesBlock then m.lockedQC.map fun q => { q with block := some b' }
          else m.lockedQC }

/-- INTERNAL: writing the certificate changes the block in its certificate field, and the
two certificates at most in their block. -/
theorem NodeState.setBlockCertificate_eq {m₁ : NodeState} {qc : Bytes}
    (h : m.setBlockCertificate qc = some m₁) :
    ∃ b b', m.block = some b ∧ b'.withoutCertificate = b.withoutCertificate ∧
      m₁ = { m with
        block := some b'
        prepareQC :=
          if m.prepareQCSharesBlock then m.prepareQC.map fun q => { q with block := some b' }
          else m.prepareQC
        lockedQC :=
          if m.lockedQCSharesBlock then m.lockedQC.map fun q => { q with block := some b' }
          else m.lockedQC } := by
  unfold NodeState.setBlockCertificate at h
  cases hb : m.block with
  | none => simp [hb] at h
  | some b =>
    simp only [hb, Option.map_eq_some_iff] at h
    obtain ⟨b', hb', rfl⟩ := h
    exact ⟨b, b', rfl, Block.withoutCertificate_of_setQuorumCertificate hb', rfl⟩

end Pocket.Model
