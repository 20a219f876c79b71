import Mathlib.Data.Prod.Lex
import Pocket.Library.PhasedDelivery
import Pocket.Model.Node

/-!
# Validators that work together

All validators of a height run the node program, and their messages are delivered in phases: the
messages of a step before those of the next one, the proposals of a step before the votes on them.

A `Committee` is such a set of nodes with what each reads while the height lasts; `Healthy` says that
nothing goes wrong: nodes know who they are, signatures verify, persistence answers, running
transactions is deterministic, and the limits of the configuration are not reached.
-/

set_option autoImplicit false

namespace Pocket.Model

open PhasedDelivery

/-! ## Messages on their way -/

/-- Where an output goes: a broadcast to every validator, the sender among them, a vote to the
validator with the leader's id.  SOURCE: consensus/helpers.go:146-200 -/
def deliveries (env : Env) : Output → List (String × HotstuffMessage)
  | .broadcast msg =>
    ((env.getValidatorsAtHeight msg.height).getD []).map fun v => (v.address, msg)
  | .sendToLeader leader msg =>
    let validators := (env.getValidatorsAtHeight msg.height).getD []
    match (newActorMapper validators).idToValAddrMap leader with
    | some addr => [(addr, msg)]
    | none => []
  | .committed _ _ _ => []

/-- Height, round, step, and proposals before votes. -/
def deliveryPhase (msg : HotstuffMessage) : ℕ ×ₗ ℕ ×ₗ ℤ :=
  toLex (msg.height, toLex (msg.round, 2 * msg.step + msg.type))

/-! ## The nodes -/

/-- The validators of a height, each with its configuration and what it reads.  `execute` is the
state hash that transactions of a proposer give, `transactions` what a node would propose. -/
structure Committee where
  platform : Platform
  validators : List Actor
  height : ℕ
  config : String → NodeConfig
  env : String → Env
  previous : String
  execute : Bytes → List Bytes → String
  transactions : String → List Bytes

namespace Committee

variable (C : Committee)

def addresses : List String := C.validators.map (·.address)

/-- What a node does with a message in a state. -/
def react (addr : String) (m : NodeState) (msg : HotstuffMessage) : Result :=
  handleHotstuffMessage C.platform (C.config addr) (C.env addr) m msg

/-- A node handles a message, and what it puts out is on its way. -/
def handle (addr : String) (c : NodeRun) (msg : HotstuffMessage) :
    NodeRun × List (String × HotstuffMessage) :=
  match c.state with
  | none => (c, [])
  | some m =>
    let r := handleEvent C.platform (C.config addr) (C.env addr) m (.message msg)
    (⟨r.state, c.out ++ r.out⟩, r.out.flatMap (deliveries (C.env addr)))

/-- The state of a node at the beginning of the height.  A unit of work may be left. -/
def startState (uow : Option UnitOfWork) : NodeState :=
  { initialState C.height with utilityUnitOfWork := uow }

/-- The message with which a node opens the height. -/
def newRound : HotstuffMessage := newRoundMessage (initialState C.height) none

/-- All nodes are at the beginning of the height, and have broadcast their `NewRound` messages. -/
def start (uow : String → Option UnitOfWork) : Flight String NodeRun HotstuffMessage where
  node addr := ⟨some (C.startState (uow addr)), []⟩
  pending := C.validators.flatMap fun v => deliveries (C.env v.address) (.broadcast C.newRound)

/-! ## The block of the height and the votes for it -/

/-- The id of the leader in round 0. -/
def leaderId : ℕ := C.height % C.validators.length + 1

def leader : String := ((newActorMapper C.validators).idToValAddrMap C.leaderId).getD ""

/-- The block that the leader prepares. -/
def block : Block :=
  let proposer := (C.config C.leader).addressBytes
  let txs := C.transactions C.leader
  proposalBlock C.platform (C.config C.leader) (initialState C.height) none
    (C.execute proposer txs) C.previous txs

/-- What a vote for the block signs. -/
def ballot (step : ℤ) : HotstuffMessage :=
  { type := Vote, height := C.height, step, round := 0, block := some C.block,
    justification := .none }

/-- The signature of a node on the block. -/
def signature (addr : String) (step : ℤ) : PartialSignature :=
  ⟨C.platform.sign (C.config addr).privateKey (getSignableBytes (C.ballot step)),
    (C.config addr).address⟩

def vote (addr : String) (step : ℤ) : HotstuffMessage :=
  { C.ballot step with justification := .partialSignature (C.signature addr step) }

/-- The proposal of the block for a step. -/
def proposal (step : ℤ) (justification : Justification) : HotstuffMessage :=
  { type := Propose, height := C.height, step, round := 0, block := some C.block, justification }

/-- The certificate of some of the votes for a step. -/
def certificate (step : ℤ) (signers : List String) : QuorumCertificate :=
  { height := C.height, round := 0, step, block := some C.block,
    thresholdSignature := some { signatures := signers.map (C.signature · step) } }

/-- The justification of a proposal: the certificate of the step before. -/
def certified (step : ℤ) (signers : List String) : Justification :=
  .quorumCertificate (C.certificate step signers)

/-- The block as it is committed, with the certificate in its header. -/
def committedBlock (qc : QuorumCertificate) : Block :=
  { C.block with blockHeader := C.block.blockHeader.map fun header =>
      { header with quorumCertificate := C.platform.marshalQC (some qc) } }

/-! ## When nothing goes wrong -/

/-- The pools of a node can hold a message of every validator. -/
structure Roomy (cfg : NodeConfig) : Prop where
  bytes : cfg.maxMempoolBytes < 2 ^ 64
  newRounds : C.validators.length * C.platform.msgSize C.newRound < cfg.maxMempoolBytes
  votes : ∀ step, (C.addresses.map fun addr => C.platform.msgSize (C.vote addr step)).sum
    < cfg.maxMempoolBytes

structure Healthy : Prop where
  validators_ne : C.validators ≠ []
  distinct : C.addresses.Nodup
  -- the pools count with `uint32`, persistence knows a height as an `int64`
  validators_lt : C.validators.length < 2 ^ 32
  height_lt : C.height < 2 ^ 63
  address : ∀ addr ∈ C.addresses, (C.config addr).address = addr ∧ addr ≠ ""
  addressBytes : ∀ addr ∈ C.addresses, (C.config addr).addressBytes ≠ []
  nodeId : ∀ addr ∈ C.addresses,
    (newActorMapper C.validators).valAddrToIdMap addr = some (C.config addr).nodeId
  signs : ∀ v ∈ C.validators, ∀ content,
    C.platform.verify v.publicKey content
      (C.platform.sign (C.config v.address).privateKey content) = true
  signature_ne : ∀ addr ∈ C.addresses, ∀ content,
    C.platform.sign (C.config addr).privateKey content ≠ []
  reads : ∀ addr ∈ C.addresses,
    (C.env addr).getValidatorsAtHeight C.height = some C.validators
  readsHash : ∀ addr ∈ C.addresses,
    (C.env addr).getBlockHash (C.height - 1) = some C.previous
  opens : ∀ addr ∈ C.addresses, (C.env addr).newUnitOfWork = true
  commits : ∀ addr ∈ C.addresses, ∀ uow, (C.env addr).commit uow = true
  applies : ∀ addr ∈ C.addresses, ∀ uow : UnitOfWork, uow.height = C.height → uow.history = [] →
    (C.env addr).executeBlock uow
      = .stateHash (C.execute uow.proposalProposerAddr uow.proposalBlockTxs)
  creates : ∀ addr ∈ C.addresses, ∀ uow : UnitOfWork, uow.height = C.height → uow.history = [] →
    (C.env addr).createProposalBlock uow
      = (.stateHash (C.execute (C.config addr).addressBytes (C.transactions addr)),
        C.transactions addr)
  hash_ne : ∀ proposer txs, C.execute proposer txs ≠ ""
  blockSize : ∀ addr ∈ C.addresses, C.platform.sizeofBlock ≤ (C.config addr).maxBlockBytes
  roomy : ∀ addr ∈ C.addresses, C.Roomy (C.config addr)

/-! ## The leader of the height -/

namespace Healthy

variable {C : Committee} (h : C.Healthy)
include h

theorem length_pos : 0 < C.validators.length := List.length_pos_iff.mpr h.validators_ne

theorem idToValAddrMap_leaderId :
    (newActorMapper C.validators).idToValAddrMap C.leaderId = some C.leader := by
  have hlt : C.height % C.validators.length < (sortedAddresses C.validators).length := by
    rw [sortedAddresses, List.length_insertionSort, List.length_map]
    exact Nat.mod_lt _ h.length_pos
  have hsome : (newActorMapper C.validators).idToValAddrMap C.leaderId
      = some ((sortedAddresses C.validators)[C.height % C.validators.length]) := by
    simp [newActorMapper, leaderId, hlt]
  rw [leader, hsome]
  rfl

theorem leader_mem : C.leader ∈ C.addresses := by
  have hid := h.idToValAddrMap_leaderId
  simp only [newActorMapper] at hid
  split at hid
  · simp at hid
  · have hmem := List.mem_of_getElem? hid
    rwa [sortedAddresses, List.mem_insertionSort] at hmem

theorem nodeId_eq_leaderId_iff {addr : String} (haddr : addr ∈ C.addresses) :
    (C.config addr).nodeId = C.leaderId ↔ addr = C.leader := by
  have hleader := h.idToValAddrMap_leaderId
  have hself := idToValAddrMap_of_valAddrToIdMap (h.nodeId addr haddr)
  constructor
  · intro hid
    rw [hid, hleader] at hself
    exact (Option.some.inj hself).symm
  · rintro rfl
    exact id_eq_of_idToValAddrMap h.distinct hself hleader

theorem elect_newRound :
    electNextLeaderDeterministicRoundRobin C.validators C.newRound = some C.leaderId := by
  have hpos := h.length_pos
  have hlt := h.validators_lt
  have hheight := h.height_lt
  have hvalue : int64 ((C.height : ℤ) + (0 : ℕ) + NewRound - 1) = C.height := by
    have hsum : (C.height : ℤ) + (0 : ℕ) + NewRound - 1 = C.height := by
      unfold NewRound
      omega
    rw [hsum]
    exact int64_eq_self (by omega) (by omega)
  have hmod : Int.tmod (C.height : ℤ) C.validators.length
      = ((C.height % C.validators.length : ℕ) : ℤ) := by
    rw [Int.tmod_eq_emod_of_nonneg (by omega)]
    exact (Int.natCast_emod _ _).symm
  have hmodlt := Nat.mod_lt C.height hpos
  have hwrap : (((C.height % C.validators.length : ℕ) : ℤ) + 1) % 2 ^ 64
      = ((C.height % C.validators.length + 1 : ℕ) : ℤ) := by
    rw [Int.emod_eq_of_lt (by omega) (by omega)]
    rfl
  show (if C.validators.length = 0 then none
    else some ((Int.tmod (int64 ((C.height : ℤ) + (0 : ℕ) + NewRound - 1)) C.validators.length + 1)
      % 2 ^ 64).toNat) = _
  rw [if_neg (by omega), hvalue, hmod, hwrap, Int.toNat_natCast]
  rfl

theorem exists_validator {addr : String} (haddr : addr ∈ C.addresses) :
    ∃ v, (newActorMapper C.validators).validatorMap addr = some v ∧ ∀ content,
      C.platform.verify v.publicKey content
        (C.platform.sign (C.config addr).privateKey content) = true := by
  obtain ⟨v, hv⟩ := exists_validatorMap haddr
  obtain ⟨hmem, rfl⟩ := validatorMap_mem hv
  exact ⟨v, hv, h.signs v hmem⟩

end Healthy

end Committee

end Pocket.Model
