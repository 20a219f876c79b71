import Pocket.Crypto.Armour

/-!
# Imports of key files

A key file is imported with a key or an error, unless its ciphertext is shorter than a nonce and nothing
before the decryption refuses it.
-/

set_option autoImplicit false

namespace Pocket.Crypto

open Model (Bytes)
open Text (hexDecode)

/-! ## Calls that panic -/

section Panics

variable {α β : Type} {x : Outcome α} {r : Except String α} {f : α → Outcome β}

theorem bind_panics_iff :
    (x >>= f).run = none ↔ x.run = none ∨ ∃ a, x.run = some (.ok a) ∧ (f a).run = none := by
  rw [ExceptT.run_bind]
  cases hx : x.run with
  | none => simp
  | some r => cases r <;> simp

theorem returned_bind_panics_iff :
    (returned r >>= f).run = none ↔ ∃ a, r = .ok a ∧ (f a).run = none := by
  rw [bind_panics_iff]
  simp [returned]

theorem mapError_eq_ok_iff {g : String → String} {a : α} : r.mapError g = .ok a ↔ r = .ok a := by
  cases r <;> simp [Except.mapError]

theorem sliceFrom_panics_iff {bs : Bytes} {start : ℕ} :
    (sliceFrom bs start).run = none ↔ bs.length < start := by
  unfold sliceFrom
  split
  · simpa [returned] using ‹start ≤ bs.length›
  · simpa using ‹¬ start ≤ bs.length›

end Panics

/-! ## Key files -/

variable (P : Primitives) (armourStr passphrase : Bytes)

theorem decryptCipher_panics_iff (key encBz : Bytes) :
    (decryptCipher P key encBz).run = none ↔ encBz.length < secretBoxNonceSize := by
  rw [decryptCipher, bind_panics_iff, sliceFrom_panics_iff]
  refine or_iff_left ?_
  rintro ⟨box, -, hopen⟩
  split at hopen
  · cases hopen
  · cases hopen

theorem decryptPrivKey_panics_iff (saltBz encBz : Bytes) :
    (decryptPrivKey P saltBz encBz passphrase).run = none ↔
      ∃ key, P.scryptKey passphrase saltBz 32768 8 1 klen = .ok key ∧
        encBz.length < secretBoxNonceSize := by
  rw [decryptPrivKey, returned_bind_panics_iff]
  refine exists_congr fun key => and_congr_right fun _ => ?_
  rw [bind_panics_iff, decryptCipher_panics_iff]
  refine or_iff_left ?_
  rintro ⟨bytes, -, hrest⟩
  rw [returned_bind_panics_iff] at hrest
  obtain ⟨bz, -, hkey⟩ := hrest
  cases hkey

/-- The file is read up to its ciphertext, and that has no room for the nonce. -/
structure ShortCiphertext (ak : ArmouredKey) (saltBz encBz key : Bytes) : Prop where
  unmarshal : P.unmarshal armourStr = .ok ak
  kdf_eq : ak.kdf = kdf
  salt_ne : ak.salt ≠ ""
  salt : hexDecode ak.salt = .ok saltBz
  cipherText : base64Decode ak.cipherText = .ok encBz
  scryptKey : P.scryptKey passphrase saltBz 32768 8 1 klen = .ok key
  short : encBz.length < secretBoxNonceSize

theorem unarmourDecryptPrivKey_panics_iff :
    (unarmourDecryptPrivKey P armourStr passphrase).run = none ↔
      ∃ ak saltBz encBz key, ShortCiphertext P armourStr passphrase ak saltBz encBz key := by
  constructor
  · intro h
    obtain ⟨ak, hak, h⟩ := returned_bind_panics_iff.1 h
    by_cases hkdf : ak.kdf = kdf
    · rw [if_neg (not_not.2 hkdf)] at h
      by_cases hsalt : ak.salt = ""
      · rw [if_pos hsalt] at h
        cases h
      · rw [if_neg hsalt] at h
        obtain ⟨saltBz, hsaltBz, h⟩ := returned_bind_panics_iff.1 h
        obtain ⟨encBz, hencBz, h⟩ := returned_bind_panics_iff.1 h
        obtain ⟨key, hkey, hshort⟩ := (decryptPrivKey_panics_iff P passphrase saltBz encBz).1 h
        exact ⟨ak, saltBz, encBz, key, hak, hkdf, hsalt, mapError_eq_ok_iff.1 hsaltBz,
          mapError_eq_ok_iff.1 hencBz, hkey, hshort⟩
    · rw [if_pos hkdf] at h
      cases h
  · rintro ⟨ak, saltBz, encBz, key, h⟩
    refine returned_bind_panics_iff.2 ⟨ak, h.unmarshal, ?_⟩
    rw [if_neg (not_not.2 h.kdf_eq), if_neg h.salt_ne]
    refine returned_bind_panics_iff.2 ⟨saltBz, mapError_eq_ok_iff.2 h.salt, ?_⟩
    refine returned_bind_panics_iff.2 ⟨encBz, mapError_eq_ok_iff.2 h.cipherText, ?_⟩
    exact (decryptPrivKey_panics_iff P passphrase saltBz encBz).2 ⟨key, h.scryptKey, h.short⟩

/-- The second half of a private key is there to be the public one. -/
theorem importKeyFromJSON_panics_iff :
    (importKeyFromJSON P armourStr passphrase).run = none ↔
      (unarmourDecryptPrivKey P armourStr passphrase).run = none := by
  rw [importKeyFromJSON, bind_panics_iff]
  refine or_iff_left ?_
  rintro ⟨privKey, -, h⟩
  rcases bind_panics_iff.1 h with hslice | ⟨publicKey, -, hpair⟩
  · have hshort := sliceFrom_panics_iff.1 hslice
    rw [privKey.length_eq] at hshort
    exact absurd hshort (by decide)
  · cases hpair

/-- **An import returns a key of the right length or an error exactly when the ciphertext is not too short.** -/
theorem import_returns_iff :
    ((∃ r, (unarmourDecryptPrivKey P armourStr passphrase).run = some r ∧
        ∀ privKey, r = .ok privKey → privKey.bytes.length = privateKeySize) ∧
      ∃ r, (importKeyFromJSON P armourStr passphrase).run = some r) ↔
    ¬ ∃ ak saltBz encBz key, ShortCiphertext P armourStr passphrase ak saltBz encBz key := by
  rw [← unarmourDecryptPrivKey_panics_iff, ← Option.ne_none_iff_exists', ne_eq,
    importKeyFromJSON_panics_iff]
  constructor
  · exact fun h => h.2
  · intro h
    obtain ⟨r, hr⟩ := Option.ne_none_iff_exists'.1 h
    exact ⟨⟨r, hr, fun privKey _ => privKey.length_eq⟩, h⟩

/-- A key file without a ciphertext. -/
def emptyFile : Bytes := "\x7b\"kdf\":\"scrypt\",\"salt\":\"00\"\x7d".toUTF8.data.toList

/-- The primitives read the file as its JSON says. -/
def samplePrimitives : Primitives where
  unmarshal text := if text = emptyFile then .ok ⟨"scrypt", "00", "", ""⟩ else .error "invalid character"
  scryptKey _ _ _ _ _ klen := .ok (List.replicate klen 0)
  secretboxOpen _ _ _ := none

theorem empty_ciphertext_panics : (importKeyFromJSON samplePrimitives emptyFile []).run = none := by
  have hfile : samplePrimitives.unmarshal emptyFile = .ok ⟨"scrypt", "00", "", ""⟩ := by
    simp [samplePrimitives]
  rw [importKeyFromJSON_panics_iff, unarmourDecryptPrivKey_panics_iff]
  exact ⟨_, [0], [], _, hfile, rfl, by decide, by decide, by decide, rfl, by decide⟩

end Pocket.Crypto
