import Mathlib.Data.Int.Notation
import Mathlib.Data.Nat.Notation
import Mathlib.Tactic.IntervalCases

/-!
# Bytes and integers written as text

Lower-case hexadecimal, with a decoder that also takes upper-case digits, and signed decimal
integers.  Encoding loses nothing (`hexDecode_hexEncode`), so a table keyed by the text of an
address is a table keyed by the address (`hexEncode_injective`).
-/

set_option autoImplicit false

namespace Text

/-! ## Hexadecimal -/

def hexChars : List UInt8 → List Char
  | [] => []
  | b :: bs => (b.toNat / 16).digitChar :: (b.toNat % 16).digitChar :: hexChars bs

def hexEncode (bs : List UInt8) : String := String.ofList (hexChars bs)

def hexValue (c : Char) : Option ℕ :=
  if '0' ≤ c ∧ c ≤ '9' then some (c.toNat - '0'.toNat)
  else if 'a' ≤ c ∧ c ≤ 'f' then some (c.toNat - 'a'.toNat + 10)
  else if 'A' ≤ c ∧ c ≤ 'F' then some (c.toNat - 'A'.toNat + 10)
  else none

def decodeChars : List Char → Except String (List UInt8)
  | [] => .ok []
  | [c] =>
    match hexValue c with
    | some _ => .error "encoding/hex: odd length hex string"
    | none => .error "encoding/hex: invalid byte"
  | hi :: lo :: rest =>
    match hexValue hi, hexValue lo with
    | some x, some y => (decodeChars rest).map (UInt8.ofNat (16 * x + y) :: ·)
    | _, _ => .error "encoding/hex: invalid byte"

def hexDecode (s : String) : Except String (List UInt8) := decodeChars s.toList

variable {cs : List Char} {n : ℕ} {bs : List UInt8}

theorem hexValue_digitChar (h : n < 16) : hexValue n.digitChar = some n := by
  interval_cases n <;> rfl

theorem decodeChars_hexChars (bs : List UInt8) : decodeChars (hexChars bs) = .ok bs := by
  induction bs with
  | nil => rfl
  | cons b bs ih =>
    have hhi : b.toNat / 16 < 16 := by
      have := b.toNat_lt
      omega
    have hlo : b.toNat % 16 < 16 := Nat.mod_lt _ (by decide)
    have hbyte : 16 * (b.toNat / 16) + b.toNat % 16 = b.toNat := Nat.div_add_mod _ _
    simp only [hexChars, decodeChars, hexValue_digitChar hhi, hexValue_digitChar hlo, ih, hbyte,
      UInt8.ofNat_toNat]
    rfl

theorem hexDecode_hexEncode (bs : List UInt8) : hexDecode (hexEncode bs) = .ok bs := by
  rw [hexDecode, hexEncode, String.toList_ofList, decodeChars_hexChars]

/-- Two digits for each byte. -/
theorem length_of_decodeChars (h : decodeChars cs = .ok bs) : cs.length = 2 * bs.length := by
  induction cs using decodeChars.induct generalizing bs with
  | case1 =>
    cases h
    rfl
  | case2 c v hv | case3 c hv =>
    simp only [decodeChars, hv] at h
    cases h
  | case4 hi lo rest x y hx hy ih =>
    simp only [decodeChars, hx, hy] at h
    cases hrest : decodeChars rest with
    | error err =>
      rw [hrest] at h
      cases h
    | ok tail =>
      rw [hrest] at h
      cases h
      simp only [List.length_cons, ih hrest]
      omega
  | case5 hi lo rest hnot =>
    rw [decodeChars] at h
    split at h
    · next hx hy => exact (hnot _ _ hx hy).elim
    · cases h

theorem hexEncode_injective : Function.Injective hexEncode := by
  intro bs bs' h
  have hdecoded : hexDecode (hexEncode bs) = hexDecode (hexEncode bs') := congrArg hexDecode h
  rw [hexDecode_hexEncode, hexDecode_hexEncode] at hdecoded
  exact Except.ok.inj hdecoded

theorem exists_digitChar_of_mem_hexEncode {c : Char} (hc : c ∈ (hexEncode bs).toList) :
    ∃ n < 16, c = n.digitChar := by
  rw [hexEncode, String.toList_ofList] at hc
  induction bs with
  | nil => cases hc
  | cons b bs ih =>
    rw [hexChars] at hc
    rcases List.mem_cons.1 hc with rfl | hc
    · have := b.toNat_lt
      exact ⟨_, by omega, rfl⟩
    · rcases List.mem_cons.1 hc with rfl | hc
      · exact ⟨_, Nat.mod_lt _ (by decide), rfl⟩
      · exact ih hc

/-! ## Decimal integers -/

/-- At least one digit and nothing else. -/
def digits (cs : List Char) : Option ℕ :=
  if cs = [] then none
  else cs.foldlM (fun n c => if c.isDigit then some (10 * n + (c.toNat - '0'.toNat)) else none) 0

/-- An optional sign and digits. -/
def integer (s : String) : Option ℤ :=
  match s.toList with
  | '-' :: cs => (digits cs).map fun n : ℕ => -(n : ℤ)
  | '+' :: cs => (digits cs).map fun n : ℕ => (n : ℤ)
  | cs => (digits cs).map fun n : ℕ => (n : ℤ)

theorem isDigit_of_foldlM {m : ℕ}
    (h : cs.foldlM (fun n c => if c.isDigit then some (10 * n + (c.toNat - '0'.toNat)) else none) m
      = some n) : ∀ c ∈ cs, c.isDigit := by
  induction cs generalizing m with
  | nil => exact fun c hc => by cases hc
  | cons d cs ih =>
    rw [List.foldlM_cons] at h
    by_cases hd : d.isDigit
    · rw [if_pos hd] at h
      exact List.forall_mem_cons.2 ⟨hd, ih h⟩
    · rw [if_neg hd] at h
      cases h

theorem isDigit_of_digits (h : digits cs = some n) : ∀ c ∈ cs, c.isDigit := by
  rw [digits] at h
  split at h
  · cases h
  · exact isDigit_of_foldlM h

/-- Only digits and signs are in the text of an integer. -/
theorem isDigit_or_sign_of_integer {s : String} {n : ℤ} (h : integer s = some n) {c : Char}
    (hc : c ∈ s.toList) : c.isDigit ∨ c = '-' ∨ c = '+' := by
  rw [integer] at h
  split at h
  · next cs hs =>
    obtain ⟨m, hm, -⟩ := Option.map_eq_some_iff.1 h
    rw [hs] at hc
    rcases List.mem_cons.1 hc with rfl | hc
    · exact .inr (.inl rfl)
    · exact .inl (isDigit_of_digits hm c hc)
  · next cs hs =>
    obtain ⟨m, hm, -⟩ := Option.map_eq_some_iff.1 h
    rw [hs] at hc
    rcases List.mem_cons.1 hc with rfl | hc
    · exact .inr (.inr rfl)
    · exact .inl (isDigit_of_digits hm c hc)
  · obtain ⟨m, hm, -⟩ := Option.map_eq_some_iff.1 h
    exact .inl (isDigit_of_digits hm c hc)

theorem foldlM_of_isDigit (h : ∀ c ∈ cs, c.isDigit) (m : ℕ) :
    cs.foldlM (fun n c => if c.isDigit then some (10 * n + (c.toNat - '0'.toNat)) else none) m
      = some (Nat.ofDigitChars 10 cs m) := by
  induction cs generalizing m with
  | nil => rfl
  | cons c cs ih =>
    rw [List.foldlM_cons, if_pos (h c List.mem_cons_self), Nat.ofDigitChars_cons]
    exact ih (fun d hd => h d (List.mem_cons_of_mem _ hd)) _

theorem digits_repr (n : ℕ) : digits n.repr.toList = some n := by
  have hdigit : ∀ c ∈ Nat.toDigits 10 n, c.isDigit :=
    fun c hc => Nat.isDigit_of_mem_toDigits (by decide) (by decide) hc
  have hne : Nat.toDigits 10 n ≠ [] := by
    by_cases hn : n < 10
    · rw [Nat.toDigits_of_lt_base hn]
      exact List.cons_ne_nil _ _
    · rw [Nat.toDigits_of_base_le (by decide) (by omega)]
      exact List.append_ne_nil_of_right_ne_nil _ (List.cons_ne_nil _ _)
  rw [Nat.toList_repr, digits, if_neg hne, foldlM_of_isDigit hdigit,
    Nat.ofDigitChars_toDigits (by decide) (by decide)]

/-- What is printed as an integer is read as the same integer. -/
theorem integer_toString (n : ℤ) : integer (toString n) = some n := by
  have hplain : ∀ m : ℕ, integer m.repr = some (m : ℤ) := by
    intro m
    have hdigit : ∀ c ∈ m.repr.toList, c.isDigit := isDigit_of_digits (digits_repr m)
    rw [integer]
    split
    · next cs hs => exact absurd (hdigit '-' (hs ▸ List.mem_cons_self)) (by decide)
    · next cs hs => exact absurd (hdigit '+' (hs ▸ List.mem_cons_self)) (by decide)
    · rw [digits_repr]
      rfl
  rw [Int.toString_eq_repr]
  cases n with
  | ofNat m => exact hplain m
  | negSucc m =>
    have hlist : (Int.negSucc m).repr.toList = '-' :: (m + 1).repr.toList := String.toList_append
    rw [integer, hlist]
    simp only [digits_repr]
    rfl

example : integer "-105" = some (-105) := by decide

example : integer "1'" = none := by decide

end Text
