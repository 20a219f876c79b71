import Pocket.Model.Node

/-!
# The rounds of the round robin

The elected id is computed from `height + round + step - 1`, read as an `int64`.  As long as that
number stays below `2 ^ 63`, the ids are those of a round robin.  Height and round come from a message,
so it can be any 64-bit number: from `2 ^ 63` on it is negative, the remainder of Go's `%` is negative
with it, and the id is in range only when the remainder is zero.

Ids of successive rounds differ as long as the numbers behind them do not pass `2 ^ 63`.  Where they do,
the two remainders at a multiple of `n` on either side are both zero, so an id comes twice if the rounds
reach both of these multiples.
-/

set_option autoImplicit false

namespace Pocket.Analysis

open Pocket.Model

/-- The number behind an election, before it is read as an `int64`. -/
def electionValue (msg : HotstuffMessage) : ℤ := (msg.height + msg.round + msg.step - 1) % 2 ^ 64

theorem int64_round (msg : HotstuffMessage) (i : ℕ) :
    int64 ((msg.height : ℤ) + (msg.round + i : ℕ) + msg.step - 1)
      = int64 (electionValue msg + i) := by
  unfold int64 electionValue Int.bmod
  dsimp only
  omega

section Remainders

variable {a n : ℤ}

theorem tmod_nonneg_iff : 0 ≤ a.tmod n ↔ 0 ≤ a ∨ n ∣ a := by
  constructor
  · intro h
    by_cases ha : 0 ≤ a
    · exact .inl ha
    · have hle : a.tmod n ≤ 0 := by
        have hneg := Int.tmod_nonneg n (show 0 ≤ -a by omega)
        rw [Int.neg_tmod] at hneg
        omega
      exact .inr (Int.dvd_of_tmod_eq_zero (by omega))
  · rintro (ha | ha)
    · exact Int.tmod_nonneg n ha
    · exact (Int.tmod_eq_zero_of_dvd ha).ge

theorem dvd_sub_of_tmod_eq {b : ℤ} (h : a.tmod n = b.tmod n) : n ∣ b - a := by
  have ha := Int.mul_tdiv_add_tmod a n
  have hb := Int.mul_tdiv_add_tmod b n
  refine ⟨b.tdiv n - a.tdiv n, ?_⟩
  rw [Int.mul_sub]
  omega

end Remainders

section Election

variable {vals : List Actor} {msg : HotstuffMessage}

/-- The message, `i` rounds later. -/
def laterRound (msg : HotstuffMessage) (i : ℕ) : HotstuffMessage := { msg with round := msg.round + i }

theorem elect_laterRound (msg : HotstuffMessage) (hpos : 1 ≤ vals.length) (i : ℕ) :
    electNextLeaderDeterministicRoundRobin vals (laterRound msg i)
      = some (((int64 (electionValue msg + i)).tmod vals.length + 1) % 2 ^ 64).toNat := by
  unfold electNextLeaderDeterministicRoundRobin
  rw [if_neg (by omega), ← int64_round]
  rfl

section

variable (hpos : 1 ≤ vals.length) (hlen : vals.length < 2 ^ 63)
include hpos hlen

theorem elected_mem_range_iff :
    (∃ id, electNextLeaderDeterministicRoundRobin vals msg = some id ∧ 1 ≤ id ∧ id ≤ vals.length)
      ↔ 0 ≤ (int64 (electionValue msg)).tmod vals.length := by
  have helect := elect_laterRound msg hpos 0
  simp only [laterRound, Nat.add_zero, Int.natCast_zero, Int.add_zero] at helect
  have hlow := Int.lt_tmod_of_pos (int64 (electionValue msg)) (b := vals.length) (by omega)
  have hhigh := Int.tmod_lt_of_pos (int64 (electionValue msg)) (b := vals.length) (by omega)
  rw [helect]
  constructor
  · rintro ⟨id, hid, hid1, hidn⟩
    have hid := Option.some.inj hid
    omega
  · intro h
    exact ⟨_, rfl, by omega, by omega⟩

theorem elected_eq_iff (i j : ℕ) :
    electNextLeaderDeterministicRoundRobin vals (laterRound msg i)
        = electNextLeaderDeterministicRoundRobin vals (laterRound msg j)
      ↔ (int64 (electionValue msg + i)).tmod vals.length
        = (int64 (electionValue msg + j)).tmod vals.length := by
  have hlow := fun a : ℤ => Int.lt_tmod_of_pos a (b := vals.length) (by omega)
  have hhigh := fun a : ℤ => Int.tmod_lt_of_pos a (b := vals.length) (by omega)
  rw [elect_laterRound msg hpos, elect_laterRound msg hpos, Option.some.injEq]
  have hi := hlow (int64 (electionValue msg + i))
  have hi' := hhigh (int64 (electionValue msg + i))
  have hj := hlow (int64 (electionValue msg + j))
  have hj' := hhigh (int64 (electionValue msg + j))
  constructor
  · intro h
    omega
  · intro h
    rw [h]

/-- INTERNAL: an id comes twice exactly where the two rounds are on either side of `2 ^ 63`, each at a
multiple of the number of validators. -/
theorem elected_twice_iff {i j : ℕ} (hij : i < j) (hj : j < vals.length) :
    electNextLeaderDeterministicRoundRobin vals (laterRound msg i)
        = electNextLeaderDeterministicRoundRobin vals (laterRound msg j)
      ↔ electionValue msg + i < 2 ^ 63 ∧ 2 ^ 63 ≤ electionValue msg + j
        ∧ (vals.length : ℤ) ∣ electionValue msg + i
        ∧ (vals.length : ℤ) ∣ 2 ^ 64 - (electionValue msg + j) := by
  rw [elected_eq_iff hpos hlen]
  have hvalue : 0 ≤ electionValue msg ∧ electionValue msg < 2 ^ 64 := by
    unfold electionValue
    omega
  generalize electionValue msg = v at hvalue
  generalize hn : (vals.length : ℤ) = n
  by_cases hstraddle : v + i < 2 ^ 63 ∧ 2 ^ 63 ≤ v + j
  · have hi : int64 (v + i) = v + i := int64_eq_self (by omega) (by omega)
    have hj' : int64 (v + j) = v + j - 2 ^ 64 := by
      unfold int64 Int.bmod
      dsimp only
      omega
    rw [hi, hj']
    constructor
    · intro h
      -- one of the remainders is not negative and the other one not positive
      have hlow := Int.tmod_nonneg n (show 0 ≤ v + i by omega)
      have hhigh := Int.tmod_nonneg n (show 0 ≤ 2 ^ 64 - (v + j) by omega)
      rw [show v + j - 2 ^ 64 = -(2 ^ 64 - (v + j)) by omega, Int.neg_tmod] at h
      exact ⟨hstraddle.1, hstraddle.2, Int.dvd_of_tmod_eq_zero (by omega),
        Int.dvd_of_tmod_eq_zero (by omega)⟩
    · rintro ⟨-, -, hdvd, hdvd'⟩
      rw [show v + j - 2 ^ 64 = -(2 ^ 64 - (v + j)) by omega, Int.neg_tmod,
        Int.tmod_eq_zero_of_dvd hdvd, Int.tmod_eq_zero_of_dvd hdvd', Int.neg_zero]
  · constructor
    · intro h
      have hdvd := dvd_sub_of_tmod_eq h
      have hdiff : int64 (v + j) - int64 (v + i) = j - i := by
        unfold int64 Int.bmod
        dsimp only
        omega
      rw [hdiff] at hdvd
      have hle := Int.le_of_dvd (by omega) hdvd
      omega
    · rintro ⟨hbefore, hafter, -⟩
      exact absurd ⟨hbefore, hafter⟩ hstraddle

end

/-- The rounds from this one on reach a multiple of the number of validators on either side of
`2 ^ 63`. -/
def Straddles (n : ℕ) (msg : HotstuffMessage) : Prop :=
  0 < (2 ^ 63 : ℤ) % n ∧ electionValue msg + 2 ^ 63 % n ≤ 2 ^ 63
    ∧ 2 ^ 63 + 2 ^ 63 % n < electionValue msg + n

theorem straddles_iff (hpos : 1 ≤ vals.length) :
    Straddles vals.length msg ↔ ∃ i j : ℕ, i < j ∧ j < vals.length
      ∧ electionValue msg + i < 2 ^ 63 ∧ 2 ^ 63 ≤ electionValue msg + j
      ∧ (vals.length : ℤ) ∣ electionValue msg + i
      ∧ (vals.length : ℤ) ∣ 2 ^ 64 - (electionValue msg + j) := by
  have hvalue : 0 ≤ electionValue msg := by
    unfold electionValue
    omega
  unfold Straddles
  generalize electionValue msg = v at hvalue
  generalize vals.length = n at hpos
  have hdvd : (n : ℤ) ∣ 2 ^ 63 - 2 ^ 63 % n := Int.dvd_self_sub_emod
  have hlow : 0 ≤ (2 ^ 63 : ℤ) % n := Int.emod_nonneg _ (by omega)
  have hhigh : (2 ^ 63 : ℤ) % n < n := Int.emod_lt_of_pos _ (by omega)
  generalize (2 ^ 63 : ℤ) % n = c at hdvd hlow hhigh
  constructor
  · rintro ⟨hc, hbefore, hafter⟩
    have hi : v + ((2 ^ 63 - c - v).toNat : ℤ) = 2 ^ 63 - c := by omega
    have hj : 2 ^ 64 - (v + ((2 ^ 63 + c - v).toNat : ℤ)) = 2 ^ 63 - c := by omega
    refine ⟨(2 ^ 63 - c - v).toNat, (2 ^ 63 + c - v).toNat, by omega, by omega, by omega, by omega,
      ?_, ?_⟩
    · rw [hi]
      exact hdvd
    · rw [hj]
      exact hdvd
  · rintro ⟨i, j, hij, hj, hbefore, hafter, hi, hj'⟩
    -- the distances of the two rounds to `2 ^ 63` are both the remainder of `2 ^ 63`
    have hdist : 2 ^ 63 - c - (v + i) = 0 :=
      Int.eq_zero_of_dvd_of_natAbs_lt_natAbs (Int.dvd_sub hdvd hi) (by omega)
    have hdist' : 2 ^ 63 - c - (2 ^ 64 - (v + j)) = 0 :=
      Int.eq_zero_of_dvd_of_natAbs_lt_natAbs (Int.dvd_sub hdvd hj') (by omega)
    omega

end Election

/-! ## Fairness -/

/-- The election of the message gives an id between 1 and the number of validators, and the elections
of as many rounds as there are validators give different ids, if the round does not wrap. -/
def FairFrom (vals : List Actor) (msg : HotstuffMessage) : Prop :=
  (∃ id, electNextLeaderDeterministicRoundRobin vals msg = some id ∧ 1 ≤ id ∧ id ≤ vals.length)
    ∧ (msg.round + vals.length ≤ 2 ^ 64 → ∀ i j, i < j → j < vals.length →
        electNextLeaderDeterministicRoundRobin vals (laterRound msg i)
          ≠ electNextLeaderDeterministicRoundRobin vals (laterRound msg j))

/-- **Which elections are fair**: those whose number is not negative as an `int64`, or is a multiple of
the number of validators, and from which the next rounds do not reach a multiple of it on either side of
`2 ^ 63`. -/
theorem fair_from_iff {vals : List Actor} {msg : HotstuffMessage} (hpos : 1 ≤ vals.length)
    (hlen : vals.length < 2 ^ 63) :
    FairFrom vals msg ↔
      (electionValue msg < 2 ^ 63 ∨ (vals.length : ℤ) ∣ 2 ^ 64 - electionValue msg)
        ∧ (msg.round + vals.length ≤ 2 ^ 64 → ¬ Straddles vals.length msg) := by
  unfold FairFrom
  refine and_congr ?_ (imp_congr_right fun _ => ?_)
  · rw [elected_mem_range_iff hpos hlen, tmod_nonneg_iff]
    have hvalue : 0 ≤ electionValue msg ∧ electionValue msg < 2 ^ 64 := by
      unfold electionValue
      omega
    by_cases hsign : electionValue msg < 2 ^ 63
    · rw [int64_eq_self (by omega) hsign]
      exact ⟨fun _ => .inl hsign, fun _ => .inl hvalue.1⟩
    · have hint : int64 (electionValue msg) = -(2 ^ 64 - electionValue msg) := by
        unfold int64 Int.bmod
        dsimp only
        omega
      rw [hint, Int.dvd_neg]
      simp only [hsign, false_or, or_iff_right_iff_imp]
      omega
  · rw [straddles_iff hpos]
    constructor
    · rintro h ⟨i, j, hij, hj, htwice⟩
      exact h i j hij hj ((elected_twice_iff hpos hlen hij hj).mpr htwice)
    · intro h i j hij hj heq
      exact h ⟨i, j, hij, hj, (elected_twice_iff hpos hlen hij hj).mp heq⟩

/-- Round `2 ^ 63` of height 1 elects a validator that does not exist: the remainder is negative. -/
theorem round_elects_nobody :
    electNextLeaderDeterministicRoundRobin fourValidators (newRoundMsg 1 (2 ^ 63)) = some (2 ^ 64 - 2) ∧
      ¬ FairFrom fourValidators (newRoundMsg 1 (2 ^ 63)) := by
  have helect : electNextLeaderDeterministicRoundRobin fourValidators (newRoundMsg 1 (2 ^ 63))
      = some (2 ^ 64 - 2) := by decide
  refine ⟨helect, ?_⟩
  rintro ⟨⟨id, hid, -, hle⟩, -⟩
  rw [helect] at hid
  have hid := Option.some.inj hid
  simp only [fourValidators, List.length_cons, List.length_nil] at hle
  omega

/-- The first four rounds of height 1 elect the four validators. -/
theorem first_rounds_fair : FairFrom fourValidators (newRoundMsg 1 0) :=
  (fair_from_iff (by decide) (by decide)).mpr
    ⟨.inl (by decide), fun _ => by unfold Straddles; decide⟩

end Pocket.Analysis
