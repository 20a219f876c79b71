import Pocket.Library.AlikeRuns
import Pocket.Library.Text
import Pocket.Model.Types

/-!
# Armoured private keys

A key file is a JSON object with a salt in hexadecimal and a ciphertext in base64, whose first bytes are the
nonce.  The JSON decoder and the primitives are parameters; they return for all inputs.  A panic is the
outcome `none`.
-/

set_option autoImplicit false

namespace Pocket.Crypto

open Model (Bytes)
open Text (decodeChars hexDecode)

abbrev Outcome := AlikeRuns.Computation String

def returned {α : Type} (r : Except String α) : Outcome α := ExceptT.mk (some r)

/-! ## Base64 -/

/-- The alphabet of `base64.StdEncoding`. -/
def sextet (c : Char) : Option ℕ :=
  if 'A' ≤ c ∧ c ≤ 'Z' then some (c.toNat - 'A'.toNat)
  else if 'a' ≤ c ∧ c ≤ 'z' then some (c.toNat - 'a'.toNat + 26)
  else if '0' ≤ c ∧ c ≤ '9' then some (c.toNat - '0'.toNat + 52)
  else if c = '+' then some 62
  else if c = '/' then some 63
  else none

/-- Four sextets for three bytes, without padding at the end. -/
def quanta : List ℕ → Option Bytes
  | [] => some []
  | [_] => none
  | [a, b] => some [UInt8.ofNat (4 * a + b / 16)]
  | [a, b, c] => some [UInt8.ofNat (4 * a + b / 16), UInt8.ofNat (b % 16 * 16 + c / 4)]
  | a :: b :: c :: d :: rest => (quanta rest).map fun bytes =>
    UInt8.ofNat (4 * a + b / 16) :: UInt8.ofNat (b % 16 * 16 + c / 4) ::
      UInt8.ofNat (c % 4 * 64 + d) :: bytes

/-- `base64.RawStdEncoding.DecodeString`, which passes over line ends. -/
def base64Decode (s : String) : Except String Bytes :=
  match ((s.toList.filter fun c => c ≠ '\n' ∧ c ≠ '\r').mapM sextet).bind quanta with
  | some bytes => .ok bytes
  | none => .error "illegal base64 data"

example : base64Decode "Zm9vYmE" = .ok [102, 111, 111, 98, 97] := by decide

/-! ## Keys -/

/-- SOURCE: shared/crypto/armour.go:34-39 -/
structure ArmouredKey where
  kdf : String
  salt : String
  hint : String
  cipherText : String

/-- `ed25519.PrivateKeySize` -/
def privateKeySize : ℕ := 64

structure PrivateKey where
  bytes : Bytes
  length_eq : bytes.length = privateKeySize

/-- SOURCE: shared/crypto/ed25519.go:64-70, error.go:32-34 -/
def newPrivateKeyFromBytes (bz : Bytes) : Except String PrivateKey :=
  if h : bz.length = privateKeySize then .ok ⟨bz, h⟩
  else .error ("the private key length is not valid, expected length " ++ toString privateKeySize ++
    ", actual length " ++ toString bz.length)

/-- The JSON decoder for a key file, `scrypt.Key` and `secretbox.Open`. -/
structure Primitives where
  unmarshal : Bytes → Except String ArmouredKey
  scryptKey : Bytes → Bytes → ℕ → ℕ → ℕ → ℕ → Except String Bytes
  secretboxOpen : Bytes → Bytes → Bytes → Option Bytes

/-! ## Unarmouring -/

/-- SOURCE: shared/crypto/armour.go:16-26 -/
def kdf : String := "scrypt"

def secretBoxNonceSize : ℕ := 24

def klen : ℕ := 32

/-- `bs[from:]` -/
def sliceFrom (bs : Bytes) (start : ℕ) : Outcome Bytes :=
  if start ≤ bs.length then returned (.ok (bs.drop start)) else ExceptT.mk none

/-- An array that bytes are copied to. -/
def copied (size : ℕ) (bs : Bytes) : Bytes := bs.take size ++ List.replicate (size - bs.length) 0

variable (P : Primitives)

/-- `encBz[:24]` needs the capacity only, but `encBz[24:]` needs the length.
SOURCE: shared/crypto/armour.go:171-183 -/
def decryptCipher (key encBz : Bytes) : Outcome Bytes := do
  let secretKey := copied klen key
  let decryptNonce := copied secretBoxNonceSize encBz
  let box ← sliceFrom encBz secretBoxNonceSize
  match P.secretboxOpen box decryptNonce secretKey with
  | none => throw "cannot decrypt private key: wrong passphrase"
  | some decrypted => pure decrypted

/-- SOURCE: shared/crypto/armour.go:133-157 -/
def decryptPrivKey (saltBz encBz passphrase : Bytes) : Outcome PrivateKey := do
  let encryptionKey ← returned (P.scryptKey passphrase saltBz 32768 8 1 klen)
  let privKeyRawHexBz ← decryptCipher P encryptionKey encBz
  let bz ← returned (decodeChars (privKeyRawHexBz.map fun b => Char.ofNat b.toNat))
  returned (newPrivateKeyFromBytes bz)

/-- SOURCE: shared/crypto/armour.go:98-130 -/
def unarmourDecryptPrivKey (armourStr passphrase : Bytes) : Outcome PrivateKey := do
  let ak ← returned (P.unmarshal armourStr)
  if ak.kdf ≠ kdf then throw ("unrecognized KDF type: " ++ ak.kdf)
  else if ak.salt = "" then throw "missing salt bytes"
  else
    let saltBz ← returned ((hexDecode ak.salt).mapError ("error decoding salt: " ++ ·))
    let encBz ← returned ((base64Decode ak.cipherText).mapError ("error decoding ciphertext: " ++ ·))
    decryptPrivKey P saltBz encBz passphrase

structure KeyPair where
  publicKey : Bytes
  privKeyArmour : Bytes

/-- SOURCE: shared/crypto/keypair.go:222-232 -/
def importKeyFromJSON (jsonStr passphrase : Bytes) : Outcome KeyPair := do
  let privKey ← unarmourDecryptPrivKey P jsonStr passphrase
  let publicKey ← sliceFrom privKey.bytes 32
  pure ⟨publicKey, jsonStr⟩

end Pocket.Crypto
