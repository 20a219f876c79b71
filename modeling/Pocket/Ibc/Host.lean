import Pocket.Model.Types

/-!
# Identifiers and store keys of the IBC host

The entries of the IBC store have paths of segments that are separated by slashes: fixed words,
identifiers, heights and sequences.  Identifiers are checked before they are used.
-/

set_option autoImplicit false

namespace Pocket.Ibc

open Model (Bytes)

/-! ## Identifiers -/

/-- SOURCE: ibc/host/identifiers.go:12-25 -/
def identifierPrefix : String := "#"

def identifierCharset : String :=
  "abcdefghijklmnopqrstuvwxyzABCDEFGHIJKLMNOPQRSTUVWXYZ0123456789._+-#[]<>"

def invalidIdChars : String := "/"

/-- SOURCE: shared/core/types/error.go:320, 862-864 -/
def errIBCInvalidID (identifier msg : String) : String :=
  "invalid ibc identifier: " ++ identifier ++ " (" ++ msg ++ ")"

/-- The characters that `strings.TrimSpace` removes. -/
def isSpace (c : Char) : Bool :=
  c.toNat ∈ [0x09, 0x0a, 0x0b, 0x0c, 0x0d, 0x20, 0x85, 0xa0, 0x1680, 0x2028, 0x2029, 0x202f, 0x205f,
    0x3000] ∨ (0x2000 ≤ c.toNat ∧ c.toNat ≤ 0x200a)

/-- Lengths are counted in bytes.  SOURCE: ibc/host/identifiers.go:106-133 -/
def basicValidation (id : String) (minLength maxLength : ℕ) : Except String Unit :=
  let length := id.utf8ByteSize
  if id.toList.all isSpace then .error (errIBCInvalidID id "cannot be blank")
  else if length < minLength ∨ maxLength < length then
    .error (errIBCInvalidID id ("length (" ++ toString length ++ ") must be between "
      ++ toString minLength ++ " and " ++ toString maxLength))
  else if ¬ identifierPrefix.toList.isPrefixOf id.toList then
    .error (errIBCInvalidID id ("must start with '" ++ identifierPrefix ++ "'"))
  else
    match id.toList.find? (· ∈ invalidIdChars.toList) with
    | some c => .error (errIBCInvalidID id ("cannot contain '" ++ c.toString ++ "'"))
    | none =>
      match id.toList.find? (· ∉ identifierCharset.toList) with
      | some c => .error (errIBCInvalidID id ("contains invalid character '" ++ c.toString ++ "'"))
      | none => .ok ()

/-- SOURCE: ibc/host/identifiers.go:44-61 -/
def validateClientID (id : String) : Except String Unit := basicValidation id 9 64

def validateConnectionID (id : String) : Except String Unit := basicValidation id 10 64

def validateChannelID (id : String) : Except String Unit := basicValidation id 8 64

def validatePortID (id : String) : Except String Unit := basicValidation id 2 128

/-! ## Paths -/

/-- `[]byte` of a string. -/
def bytesOf (s : String) : Bytes := s.toByteArray.data.toList

/-- SOURCE: ibc/host/keys.go:10-26 -/
def keyClientStorePrefix : String := "clients"
def keyClientState : String := "clientState"
def keyConsensusStatePrefix : String := "consensusStates"
def keyConnectionPrefix : String := "connections"
def keyChannelEndPrefix : String := "channelEnds"
def keyChannelPrefix : String := "channels"
def keyPortPrefix : String := "ports"
def keySequencePrefix : String := "sequences"
def keyChannelCapabilityPrefix : String := "capabilities"
def keyNextSeqSendPrefix : String := "nextSequenceSend"
def keyNextSeqRecvPrefix : String := "nextSequenceRecv"
def keyNextSeqAckPrefix : String := "nextSequenceAck"
def keyPacketCommitmentPrefix : String := "commitments"
def keyPacketAckPrefix : String := "acks"
def keyPacketReceiptPrefix : String := "receipts"

/-- SOURCE: ibc/host/keys.go:33-35 -/
def fullClientPath (clientID key : String) : String :=
  keyClientStorePrefix ++ "/" ++ clientID ++ "/" ++ key

/-- SOURCE: ibc/host/keys_ics02.go:13-15, ibc/host/keys.go:45-47 -/
def fullClientStateKey (clientID : String) : Bytes := bytesOf (fullClientPath clientID keyClientState)

/-- SOURCE: ibc/host/keys_ics02.go:25-27 -/
def consensusStatePath (height : ℕ) : String := keyConsensusStatePrefix ++ "/" ++ height.repr

/-- SOURCE: ibc/host/keys_ics02.go:31-38 -/
def fullConsensusStateKey (clientID : String) (height : ℕ) : Bytes :=
  bytesOf (fullClientPath clientID (consensusStatePath height))

/-- SOURCE: ibc/host/keys_ics03.go:12-19 -/
def clientConnectionsKey (clientID : String) : Bytes :=
  bytesOf (fullClientPath clientID keyConnectionPrefix)

/-- SOURCE: ibc/host/keys_ics03.go:27-34 -/
def connectionKey (connectionID : String) : Bytes :=
  bytesOf (keyConnectionPrefix ++ "/" ++ connectionID)

/-- SOURCE: ibc/host/keys_ics04.go:14-16 -/
def channelPath (portID channelID : String) : String :=
  keyPortPrefix ++ "/" ++ portID ++ "/" ++ keyChannelPrefix ++ "/" ++ channelID

/-- The path of a channel below a fixed word. -/
def pathUnder (key portID channelID : String) : String := key ++ "/" ++ channelPath portID channelID

/-- SOURCE: ibc/host/keys_ics04.go:19-26 -/
def channelKey (portID channelID : String) : Bytes :=
  bytesOf (pathUnder keyChannelEndPrefix portID channelID)

/-- SOURCE: ibc/host/keys_ics04.go:35-42 -/
def channelCapabilityKey (portID channelID : String) : Bytes :=
  bytesOf (pathUnder keyChannelCapabilityPrefix portID channelID)

/-- SOURCE: ibc/host/keys_ics04.go:51-59 -/
def nextSequenceSendKey (portID channelID : String) : Bytes :=
  bytesOf (pathUnder keyNextSeqSendPrefix portID channelID)

/-- SOURCE: ibc/host/keys_ics04.go:67-75 -/
def nextSequenceRecvKey (portID channelID : String) : Bytes :=
  bytesOf (pathUnder keyNextSeqRecvPrefix portID channelID)

/-- SOURCE: ibc/host/keys_ics04.go:83-91 -/
def nextSequenceAckKey (portID channelID : String) : Bytes :=
  bytesOf (pathUnder keyNextSeqAckPrefix portID channelID)

/-- SOURCE: ibc/host/keys_ics04.go:99-111 -/
def packetCommitmentKey (portID channelID : String) (sequence : ℕ) : Bytes :=
  bytesOf (pathUnder keyPacketCommitmentPrefix portID channelID ++ "/" ++ keySequencePrefix ++ "/"
    ++ sequence.repr)

/-- SOURCE: ibc/host/keys_ics04.go:119-131 -/
def packetAcknowledgementKey (portID channelID : String) (sequence : ℕ) : Bytes :=
  bytesOf (pathUnder keyPacketAckPrefix portID channelID ++ "/" ++ keySequencePrefix ++ "/"
    ++ sequence.repr)

/-- SOURCE: ibc/host/keys_ics04.go:138-140 -/
def sequencePath (sequence : ℕ) : String := keySequencePrefix ++ "/" ++ sequence.repr

/-- SOURCE: ibc/host/keys_ics04.go:143-150 -/
def packetReceiptKey (portID channelID : String) (sequence : ℕ) : Bytes :=
  bytesOf (pathUnder keyPacketReceiptPrefix portID channelID ++ "/" ++ sequencePath sequence)

/-- SOURCE: ibc/host/keys_ics05.go:12-19 -/
def portKey (portID : String) : Bytes := bytesOf (keyPortPrefix ++ "/" ++ portID)

end Pocket.Ibc
