import Pocket.Analysis.SessionWindow

/-!
# What the id of a session is the hash of

The id of a session is the hash of five parts put one after the other with nothing between them: the height
in eight bytes, the hash of the block before, the geo zone, the relay chain and the public key of the
application.  Only the geo zone may have any length.  What is before it is cut off from the front and what
is after it from the back, the public key by its characters and the relay chain by its bytes, so the five
parts can be read off (`session_preimage_injective`).
-/

set_option autoImplicit false

namespace Pocket.Utility

open Model (Bytes)
open Persistence (ActorMessage PostgresContext)
open AlikeRuns (bind_eq_ok)
open Text (hexDecode)

/-! ## The height in eight bytes -/

theorem mod_pow_eq_of_digits {base n m : ℕ} (k : ℕ)
    (h : ∀ i < k, n / base ^ i % base = m / base ^ i % base) : n % base ^ k = m % base ^ k := by
  induction k with
  | zero => simp [Nat.mod_one]
  | succ k ih =>
    rw [Nat.mod_pow_succ, Nat.mod_pow_succ, ih fun i hi => h i (by omega), h k (by omega)]

@[simp]
theorem littleEndian64_length (n : ℤ) : (littleEndian64 n).length = 8 := by
  simp [littleEndian64]

/-- Heights that have the same bytes are the same up to multiples of `2 ^ 64`. -/
theorem emod_eq_of_littleEndian64_eq {n m : ℤ} (h : littleEndian64 n = littleEndian64 m) :
    n % 2 ^ 64 = m % 2 ^ 64 := by
  have hdigits : ∀ i < 8, (n % 2 ^ 64).toNat / 256 ^ i % 256 = (m % 2 ^ 64).toNat / 256 ^ i % 256 := by
    intro i hi
    have hbyte := List.map_inj_left.mp h i (List.mem_range.mpr hi)
    have hvalue := congrArg UInt8.toNat hbyte
    rwa [UInt8.toNat_ofNat_of_lt' (Nat.mod_lt _ (by norm_num)),
      UInt8.toNat_ofNat_of_lt' (Nat.mod_lt _ (by norm_num))] at hvalue
  have hmod := mod_pow_eq_of_digits 8 hdigits
  omega

/-! ## The texts -/

theorem utf8_append (a b : String) : utf8 (a ++ b) = utf8 a ++ utf8 b := by
  simp [utf8, String.toUTF8]

theorem utf8_inj {a b : String} : utf8 a = utf8 b ↔ a = b := by
  refine ⟨fun h => ?_, fun h => h ▸ rfl⟩
  exact String.toByteArray_inj.mp (ByteArray.ext (Array.toList_inj.mp h))

/-- Texts that end with equally many characters are cut in the same place. -/
theorem string_append_inj {a b c d : String} (h : a ++ b = c ++ d) (hlength : b.length = d.length) :
    a = c ∧ b = d := by
  have hlist := congrArg String.toList h
  rw [String.toList_append, String.toList_append] at hlist
  obtain ⟨hfront, hback⟩ := List.append_inj' hlist (by simpa only [String.length_toList] using hlength)
  exact ⟨String.toList_inj.mp hfront, String.toList_inj.mp hback⟩

/-! ## The id -/

/-- What is hashed, once nothing has failed. -/
theorem hydrateSessionID_eq_ok {H : SessionHost} {readCtx : PostgresContext} {s hydrated : Session}
    {sessionIdBz prevHash : Bytes} {app : ActorMessage}
    (hid : hydrateSessionID H readCtx s = some (.ok (hydrated, sessionIdBz)))
    (happ : s.application = some app) (hhash : prevHashBytes readCtx s = .ok prevHash) :
    sessionIdBz = sessionIdBytes s.sessionHeight prevHash s.geoZone s.relayChain app.publicKey := by
  obtain ⟨hashBz, hread, hid⟩ := bind_eq_ok.mp hid
  obtain rfl : prevHash = hashBz := Except.ok.inj (hhash.symm.trans (Option.some.inj hread))
  rw [happ] at hid
  exact (congrArg Prod.snd (Except.ok.inj (Option.some.inj hid))).symm

/-- The sizes of the parts: an `int64`, the 32 bytes of a hash, the 4 bytes of a column `CHAR(4)` and the 64
characters of a public key. -/
structure SizedPreimage (sessionHeight : ℤ) (prevHash : Bytes) (relayChain publicKey : String) :
    Prop where
  heightLow : -2 ^ 63 ≤ sessionHeight
  heightHigh : sessionHeight < 2 ^ 63
  hash : prevHash.length = 32
  chain : (utf8 relayChain).length = 4
  key : publicKey.length = 64

theorem sessionIdBytes_inj {height height' : ℤ} {prevHash prevHash' : Bytes}
    {geoZone geoZone' relayChain relayChain' publicKey publicKey' : String}
    (hsized : SizedPreimage height prevHash relayChain publicKey)
    (hsized' : SizedPreimage height' prevHash' relayChain' publicKey')
    (h : sessionIdBytes height prevHash geoZone relayChain publicKey
      = sessionIdBytes height' prevHash' geoZone' relayChain' publicKey') :
    height = height' ∧ prevHash = prevHash' ∧ geoZone = geoZone' ∧ relayChain = relayChain'
      ∧ publicKey = publicKey' := by
  simp only [sessionIdBytes, List.append_assoc, ← utf8_append] at h
  obtain ⟨hheight, h⟩ := List.append_inj h (by simp)
  obtain ⟨hhash, h⟩ := List.append_inj h (hsized.hash.trans hsized'.hash.symm)
  -- the rest is one text, of which the key is the last 64 characters
  rw [utf8_inj] at h
  obtain ⟨h, hkey⟩ := string_append_inj h (hsized.key.trans hsized'.key.symm)
  have hbytes := congrArg utf8 h
  rw [utf8_append, utf8_append] at hbytes
  obtain ⟨hzone, hchain⟩ := List.append_inj' hbytes (hsized.chain.trans hsized'.chain.symm)
  refine ⟨?_, hhash, utf8_inj.mp hzone, utf8_inj.mp hchain, hkey⟩
  have hmod := emod_eq_of_littleEndian64_eq hheight
  have hlow := hsized.heightLow
  have hhigh := hsized.heightHigh
  have hlow' := hsized'.heightLow
  have hhigh' := hsized'.heightHigh
  omega

/-- **The parts of the id can be read off.**  Two sessions for which the same bytes are hashed, in any two
states, are for the same height, the same hash of the block before, the same geo zone, the same relay chain
and an application with the same public key. -/
theorem session_preimage_injective {H H' : SessionHost} {readCtx readCtx' : PostgresContext}
    {s s' hydrated hydrated' : Session} {sessionIdBz prevHash prevHash' : Bytes}
    {app app' : ActorMessage}
    (hid : hydrateSessionID H readCtx s = some (.ok (hydrated, sessionIdBz)))
    (hid' : hydrateSessionID H' readCtx' s' = some (.ok (hydrated', sessionIdBz)))
    (happ : s.application = some app) (happ' : s'.application = some app')
    (hhash : prevHashBytes readCtx s = .ok prevHash)
    (hhash' : prevHashBytes readCtx' s' = .ok prevHash')
    (hsized : SizedPreimage s.sessionHeight prevHash s.relayChain app.publicKey)
    (hsized' : SizedPreimage s'.sessionHeight prevHash' s'.relayChain app'.publicKey) :
    s.sessionHeight = s'.sessionHeight ∧ prevHash = prevHash' ∧ s.geoZone = s'.geoZone
      ∧ s.relayChain = s'.relayChain ∧ app.publicKey = app'.publicKey := by
  have hbytes := hydrateSessionID_eq_ok hid happ hhash
  have hbytes' := hydrateSessionID_eq_ok hid' happ' hhash'
  exact sessionIdBytes_inj hsized hsized' (hbytes.symm.trans hbytes')

/-- A session of an application with a key of 64 characters, at the height 4. -/
def keyedSession : Session where
  sessionHeight := 4
  relayChain := "0001"
  geoZone := "eu"
  application := some
    { actorType := .app, address := "01", publicKey := String.ofList (List.replicate 64 '7')
      chains := ["0001"], serviceUrl := "", stakedAmount := "10", pausedHeight := -1
      unstakingHeight := -1, output := "02" }

/-- A context in which the block 3 has the hash of 32 bytes `0xAB`, written with the digits given. -/
def hashedContext (a b : Char) : PostgresContext :=
  { sessionContext with
    blocks := fun height =>
      if height = 3 then some (String.ofList (List.replicate 32 [a, b]).flatten) else none }

def keyedHost : SessionHost :=
  { sessionHost with
    sha3 := fun _ => [222, 23, 188, 214, 178, 8, 204, 131, 241, 243, 165, 220, 22, 245, 221, 3, 158,
      95, 184, 207, 141, 2, 215, 124, 169, 163, 47, 119, 208, 169, 250, 40] }

/-- The digits of a hash may be small or capital letters: the same bytes are hashed. -/
theorem session_preimage_injective_digits :
    ∃ hydrated hydrated' sessionIdBz prevHash prevHash' app,
      hydrateSessionID keyedHost (hashedContext 'a' 'b') keyedSession
          = some (.ok (hydrated, sessionIdBz))
        ∧ hydrateSessionID keyedHost (hashedContext 'A' 'B') keyedSession
          = some (.ok (hydrated', sessionIdBz))
        ∧ prevHashBytes (hashedContext 'a' 'b') keyedSession = .ok prevHash
        ∧ prevHashBytes (hashedContext 'A' 'B') keyedSession = .ok prevHash'
        ∧ keyedSession.application = some app
        ∧ prevHash = prevHash' := by
  have hsized : SizedPreimage keyedSession.sessionHeight (List.replicate 32 0xab)
      keyedSession.relayChain (String.ofList (List.replicate 64 '7')) :=
    ⟨by decide, by decide, by decide, by decide, by decide⟩
  have hid : hydrateSessionID keyedHost (hashedContext 'a' 'b') keyedSession = some (.ok _) := rfl
  have hid' : hydrateSessionID keyedHost (hashedContext 'A' 'B') keyedSession = some (.ok _) := rfl
  have hhash : prevHashBytes (hashedContext 'a' 'b') keyedSession
    = .ok (List.replicate 32 0xab) := by decide
  have hhash' : prevHashBytes (hashedContext 'A' 'B') keyedSession
    = .ok (List.replicate 32 0xab) := by decide
  exact ⟨_, _, _, _, _, _, hid, hid', hhash, hhash', rfl,
    (session_preimage_injective hid hid' rfl rfl hhash hhash' hsized hsized).2.1⟩

end Pocket.Utility
