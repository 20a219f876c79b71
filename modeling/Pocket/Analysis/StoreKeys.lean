import Mathlib.Data.List.Basic
import Pocket.Ibc.Host
import Pocket.Library.Text

/-!
# Store keys never collide

A path is the list of its segments, joined by slashes.  No segment has a slash: identifiers are checked
for it, and the others are words and decimal numbers.  So the segments can be read off a key, and they
tell which function made it, of what.
-/

set_option autoImplicit false

namespace Pocket.Ibc

open Model (Bytes)

/-- The keys of the store, with what they are made of. -/
inductive StoreKey where
  | fullClientState (clientID : String)
  | fullConsensusState (clientID : String) (height : ℕ)
  | clientConnections (clientID : String)
  | connection (connectionID : String)
  | channel (portID channelID : String)
  | channelCapability (portID channelID : String)
  | nextSequenceSend (portID channelID : String)
  | nextSequenceRecv (portID channelID : String)
  | nextSequenceAck (portID channelID : String)
  | packetCommitment (portID channelID : String) (sequence : ℕ)
  | packetAcknowledgement (portID channelID : String) (sequence : ℕ)
  | packetReceipt (portID channelID : String) (sequence : ℕ)
  | port (portID : String)

namespace StoreKey

def key : StoreKey → Bytes
  | fullClientState clientID => fullClientStateKey clientID
  | fullConsensusState clientID height => fullConsensusStateKey clientID height
  | clientConnections clientID => clientConnectionsKey clientID
  | connection connectionID => connectionKey connectionID
  | channel portID channelID => channelKey portID channelID
  | channelCapability portID channelID => channelCapabilityKey portID channelID
  | nextSequenceSend portID channelID => nextSequenceSendKey portID channelID
  | nextSequenceRecv portID channelID => nextSequenceRecvKey portID channelID
  | nextSequenceAck portID channelID => nextSequenceAckKey portID channelID
  | packetCommitment portID channelID sequence => packetCommitmentKey portID channelID sequence
  | packetAcknowledgement portID channelID sequence =>
    packetAcknowledgementKey portID channelID sequence
  | packetReceipt portID channelID sequence => packetReceiptKey portID channelID sequence
  | port portID => portKey portID

/-- The identifiers are accepted. -/
def Valid : StoreKey → Prop
  | fullClientState clientID | fullConsensusState clientID _ | clientConnections clientID =>
    validateClientID clientID = .ok ()
  | connection connectionID => validateConnectionID connectionID = .ok ()
  | channel portID channelID | channelCapability portID channelID
  | nextSequenceSend portID channelID | nextSequenceRecv portID channelID
  | nextSequenceAck portID channelID | packetCommitment portID channelID _
  | packetAcknowledgement portID channelID _ | packetReceipt portID channelID _ =>
    validatePortID portID = .ok () ∧ validateChannelID channelID = .ok ()
  | port portID => validatePortID portID = .ok ()

/-! ## Segments -/

/-- The segments of a channel's path below a fixed word. -/
def segmentsUnder (key portID channelID : String) : List String :=
  [key, keyPortPrefix, portID, keyChannelPrefix, channelID]

def segments : StoreKey → List String
  | fullClientState clientID => [keyClientStorePrefix, clientID, keyClientState]
  | fullConsensusState clientID height =>
    [keyClientStorePrefix, clientID, keyConsensusStatePrefix, height.repr]
  | clientConnections clientID => [keyClientStorePrefix, clientID, keyConnectionPrefix]
  | connection connectionID => [keyConnectionPrefix, connectionID]
  | channel portID channelID => segmentsUnder keyChannelEndPrefix portID channelID
  | channelCapability portID channelID => segmentsUnder keyChannelCapabilityPrefix portID channelID
  | nextSequenceSend portID channelID => segmentsUnder keyNextSeqSendPrefix portID channelID
  | nextSequenceRecv portID channelID => segmentsUnder keyNextSeqRecvPrefix portID channelID
  | nextSequenceAck portID channelID => segmentsUnder keyNextSeqAckPrefix portID channelID
  | packetCommitment portID channelID sequence =>
    segmentsUnder keyPacketCommitmentPrefix portID channelID ++ [keySequencePrefix, sequence.repr]
  | packetAcknowledgement portID channelID sequence =>
    segmentsUnder keyPacketAckPrefix portID channelID ++ [keySequencePrefix, sequence.repr]
  | packetReceipt portID channelID sequence =>
    segmentsUnder keyPacketReceiptPrefix portID channelID ++ [keySequencePrefix, sequence.repr]
  | port portID => [keyPortPrefix, portID]

/-- A key is its segments, joined by slashes. -/
theorem key_eq (k : StoreKey) :
    ∃ path, k.key = bytesOf path ∧ path.toList = ['/'].intercalate (k.segments.map String.toList) := by
  cases k
  all_goals
    refine ⟨_, rfl, ?_⟩
    simp [segments, segmentsUnder, fullClientPath, consensusStatePath, pathUnder, channelPath,
      sequencePath, List.intercalate]

theorem slash_notMem_of_basicValidation {id : String} {minLength maxLength : ℕ}
    (h : basicValidation id minLength maxLength = .ok ()) : '/' ∉ id.toList := by
  intro hmem
  have hfind : ∃ c, id.toList.find? (· ∈ invalidIdChars.toList) = some c :=
    Option.isSome_iff_exists.mp (List.find?_isSome.mpr ⟨'/', hmem, by decide⟩)
  obtain ⟨c, hc⟩ := hfind
  rw [basicValidation, hc] at h
  split_ifs at h

theorem slash_notMem_repr (n : ℕ) : '/' ∉ n.repr.toList := by
  intro hmem
  have hdigit := Text.isDigit_of_digits (Text.digits_repr n) _ hmem
  revert hdigit
  decide

theorem slash_notMem_segments {k : StoreKey} (h : k.Valid) :
    ∀ text ∈ k.segments, '/' ∉ text.toList := by
  have hword : ∀ word ∈ [keyClientStorePrefix, keyClientState, keyConsensusStatePrefix,
      keyConnectionPrefix, keyChannelEndPrefix, keyChannelPrefix, keyPortPrefix, keySequencePrefix,
      keyChannelCapabilityPrefix, keyNextSeqSendPrefix, keyNextSeqRecvPrefix, keyNextSeqAckPrefix,
      keyPacketCommitmentPrefix, keyPacketAckPrefix, keyPacketReceiptPrefix],
      '/' ∉ word.toList := by decide
  have hid : ∀ id, (validateClientID id = .ok () ∨ validateConnectionID id = .ok ()
      ∨ validateChannelID id = .ok () ∨ validatePortID id = .ok ()) → '/' ∉ id.toList := by
    rintro id (h | h | h | h)
    all_goals exact slash_notMem_of_basicValidation h
  simp only [List.forall_mem_cons] at hword
  cases k
  all_goals
    simp only [Valid] at h
    simp [segments, segmentsUnder, hword, slash_notMem_repr, hid, h, -Nat.toList_repr]

/-- The segments tell keys apart. -/
theorem segments_injective {k k' : StoreKey} (h : k.segments = k'.segments) : k = k' := by
  have hrepr : ∀ {m n : ℕ}, m.repr = n.repr ↔ m = n := by
    intro m n
    refine ⟨fun h => ?_, congrArg _⟩
    have hread := Text.digits_repr m
    rw [h, Text.digits_repr n] at hread
    exact (Option.some.inj hread).symm
  cases k
  all_goals
    cases k'
    all_goals
      simp [segments, segmentsUnder, keyClientStorePrefix, keyClientState, keyConsensusStatePrefix,
        keyConnectionPrefix, keyChannelEndPrefix, keyChannelPrefix, keyPortPrefix, keySequencePrefix,
        keyChannelCapabilityPrefix, keyNextSeqSendPrefix, keyNextSeqRecvPrefix, keyNextSeqAckPrefix,
        keyPacketCommitmentPrefix, keyPacketAckPrefix, keyPacketReceiptPrefix, hrepr] at h
  -- The words are different for different functions, which leaves the keys one function makes.
  all_goals simp [h]

/-- **Store keys never collide**: a key tells which of the functions made it, and of what. -/
theorem store_key_injective {k k' : StoreKey} (hk : k.Valid) (hk' : k'.Valid) (h : k.key = k'.key) :
    k = k' := by
  obtain ⟨path, hpath, htext⟩ := k.key_eq
  obtain ⟨path', hpath', htext'⟩ := k'.key_eq
  have hsame : path = path' := by
    rw [hpath, hpath'] at h
    exact String.toByteArray_inj.mp (ByteArray.ext (Array.toList_inj.mp h))
  have hsplit : ∀ {k : StoreKey}, k.Valid →
      (['/'].intercalate (k.segments.map String.toList)).splitOn '/'
        = k.segments.map String.toList := by
    intro k hk
    refine List.splitOn_intercalate _ ?_ ?_
    · intro l hl
      obtain ⟨text, htext, rfl⟩ := List.mem_map.mp hl
      exact slash_notMem_segments hk text htext
    · cases k
      all_goals simp [segments, segmentsUnder]
  have hsegments : k.segments.map String.toList = k'.segments.map String.toList := by
    rw [← hsplit hk, ← hsplit hk', ← htext, ← htext', hsame]
  exact segments_injective (List.map_injective_iff.mpr (fun _ _ => String.toList_injective) hsegments)

theorem store_key_injective_ports :
    (port "#transfer").key ≠ (channel "#transfer" "#channel-0").key := by
  intro h
  have hport : (port "#transfer").Valid := by
    simp only [Valid]
    decide +kernel
  have hchannel : (channel "#transfer" "#channel-0").Valid := by
    simp only [Valid]
    decide +kernel
  have hsame := store_key_injective hport hchannel h
  cases hsame

end StoreKey

end Pocket.Ibc
