import Mathlib.Algebra.Ring.Int.Defs
import Mathlib.Algebra.Ring.Nat
import Mathlib.Data.List.Sort
import Mathlib.Data.Int.Notation
import Mathlib.Data.Nat.Notation

/-!
# Blocks, certificates and HotStuff messages

The protobuf messages the consensus module exchanges, as the node sees them once they
are decoded.  Optional sub-messages are `Option`s, because the handlers branch on `nil`
and dereference it.  Enumerations are integers: proto3 enumerations are open, so a
received `step` or `type` can be any `int32`, and the handlers compare them with `<`.

`uint64` fields are natural numbers.  The one counter that a message can push to its
maximum, the round, wraps explicitly where it is incremented (`Pocket.Model.incrRound`).
-/

set_option autoImplicit false

namespace Pocket.Model

/-- A Go byte slice.  `nil` and the empty slice are the same value here. -/
abbrev Bytes := List UInt8

/-- SOURCE: shared/core/types/proto/block.proto:9-17 -/
structure BlockHeader where
  height : ℕ
  networkId : String
  stateHash : String
  prevStateHash : String
  proposerAddress : Bytes
  quorumCertificate : Bytes
  timestamp : Option (ℤ × ℤ)
deriving DecidableEq, Repr

/-- SOURCE: shared/core/types/proto/block.proto:19-22 -/
structure Block where
  blockHeader : Option BlockHeader
  transactions : List Bytes
deriving DecidableEq, Repr

/-- The block without the one header field that changes after it was voted on: the
certificate `HandleDecideMessage` and the leader's `HandleCommitMessage` write into it. -/
def Block.withoutCertificate (b : Block) : Block :=
  { b with blockHeader := b.blockHeader.map fun h => { h with quorumCertificate := [] } }

/-- `block.BlockHeader.QuorumCertificate = qc`; `none` is the dereference of a nil header. -/
def Block.setQuorumCertificate (b : Block) (qc : Bytes) : Option Block :=
  b.blockHeader.map fun h => { b with blockHeader := some { h with quorumCertificate := qc } }

/-- Writing the certificate changes nothing else of the block. -/
theorem Block.withoutCertificate_of_setQuorumCertificate {b b' : Block} {qc : Bytes}
    (h : b.setQuorumCertificate qc = some b') : b'.withoutCertificate = b.withoutCertificate := by
  obtain ⟨hd, txs⟩ := b
  cases hd with
  | none => simp [Block.setQuorumCertificate] at h
  | some hd =>
    simp only [Block.setQuorumCertificate, Option.map_some, Option.some.injEq] at h
    subst h
    rfl

/-- SOURCE: shared/core/types/proto/actor.proto:24-36 -/
structure Actor where
  actorType : ℤ := 4
  address : String
  publicKey : String
  chains : List String := []
  serviceUrl : String := ""
  stakedAmount : String := "0"
  pausedHeight : ℤ := -1
  unstakingHeight : ℤ := -1
  output : String := ""
deriving DecidableEq, Repr

/-- SOURCE: consensus/types/proto/hotstuff.proto:28-31 -/
structure PartialSignature where
  signature : Bytes
  address : String
deriving DecidableEq, Repr

/-- SOURCE: consensus/types/proto/hotstuff.proto:33-35 -/
structure ThresholdSignature where
  signatures : List PartialSignature
deriving DecidableEq, Repr

/-- SOURCE: consensus/types/proto/hotstuff.proto:11-18, consensus/helpers.go:20-25 -/
def NewRound : ℤ := 1

@[inherit_doc NewRound] def Prepare : ℤ := 2

@[inherit_doc NewRound] def PreCommit : ℤ := 3

@[inherit_doc NewRound] def Commit : ℤ := 4

@[inherit_doc NewRound] def Decide : ℤ := 5

/-- SOURCE: consensus/types/proto/hotstuff.proto:20-24, consensus/helpers.go:27-28 -/
def Propose : ℤ := 1

@[inherit_doc Propose] def Vote : ℤ := 2

/-- SOURCE: consensus/types/proto/hotstuff.proto:39-45 -/
structure QuorumCertificate where
  height : ℕ
  round : ℕ
  step : ℤ
  block : Option Block
  thresholdSignature : Option ThresholdSignature
deriving DecidableEq, Repr

/-- The `oneof justification` of a HotStuff message. -/
inductive Justification where
  | none
  | quorumCertificate (qc : QuorumCertificate)
  | thresholdSignature (ts : ThresholdSignature)
  | partialSignature (ps : PartialSignature)
deriving DecidableEq, Repr

/-- SOURCE: consensus/types/proto/hotstuff.proto:47-59 -/
structure HotstuffMessage where
  type : ℤ
  height : ℕ
  step : ℤ
  round : ℕ
  block : Option Block
  justification : Justification
deriving DecidableEq, Repr

/-- The generated getter `GetQuorumCertificate`. -/
def HotstuffMessage.getQuorumCertificate (m : HotstuffMessage) : Option QuorumCertificate :=
  match m.justification with
  | .quorumCertificate qc => some qc
  | _ => none

/-- The generated getter `GetPartialSignature`. -/
def HotstuffMessage.getPartialSignature (m : HotstuffMessage) : Option PartialSignature :=
  match m.justification with
  | .partialSignature ps => some ps
  | _ => none

/-- The message whose deterministic encoding is signed: height, step, round and block.
The encoding is injective, so the bytes are represented by the message they encode.
SOURCE: consensus/messages.go:98-106 -/
def getSignableBytes (m : HotstuffMessage) : HotstuffMessage :=
  { type := 0, height := m.height, step := m.step, round := m.round, block := m.block,
    justification := .none }

/-- SOURCE: consensus/hotstuff_replica.go:329-340 -/
def qcToHotstuffMessage (qc : QuorumCertificate) : HotstuffMessage :=
  { type := 0, height := qc.height, step := qc.step, round := qc.round, block := qc.block,
    justification := .quorumCertificate qc }

/-- What the consensus module uses of ed25519, protobuf and the Go runtime.  `verify`
takes the hex text of the public key and answers `false` where that text is no key. -/
structure Platform where
  verify : String → HotstuffMessage → Bytes → Bool
  sign : Bytes → HotstuffMessage → Bytes
  msgSize : HotstuffMessage → ℕ
  marshalQC : Option QuorumCertificate → Bytes
  sizeofBlock : ℕ

/-- SOURCE: consensus/helpers.go:105-117 -/
def isSignatureValid (P : Platform) (msg : HotstuffMessage) (pubKey : String)
    (signature : Bytes) : Bool :=
  P.verify pubKey (getSignableBytes msg) signature

/-- The threshold comparison `num > 2/3 * numValidators`, read exactly.
SOURCE: consensus/helpers.go:128-134 -/
def validateOptimisticThresholdMet (num : ℕ) (validators : List Actor) : Bool :=
  decide (2 * validators.length < 3 * num)

end Pocket.Model
