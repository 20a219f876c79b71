import Pocket.Analysis.Percentages
import Pocket.Analysis.StakePools
import Pocket.Library.StorePlans

/-!
# The shares of the proposer and of the DAO

The end of a block takes what the fee pool holds apart: the proposer gets a percentage of it and the DAO
the rest.  The percentage is computed with floats, so the two shares are those of the integer formula
exactly when `ShareExact` holds.  A fee pool that is large enough may give the proposer more than it holds,
and the DAO then loses the difference.
-/

set_option autoImplicit false

namespace Pocket.Utility

open Model (Bytes int64)
open StoreProgram StoreProgram.Prog VersionedTable
open Text (hexEncode)

variable {height : ℤ}

theorem plan_handleProposerRewards {seen : Database} {proposer : Bytes} {f p : ℤ}
    (hfees : seen.pools.amount (hexEncode Pool.feeCollector.address) height = f)
    (hcut : (getIntParam proposerPercentageOfFeesParamName).run.peek (store height) seen
      = some (.ok p))
    (hpos : 0 ≤ p) (hle : p ≤ 100) :
    (handleProposerRewards proposer).run.plan (store height) seen
      = some (.ok (), [.setPool (hexEncode Pool.feeCollector.address) 0,
          .addAccount (hexEncode proposer) (percentageOf f p),
          .addPool (hexEncode Pool.dao.address) (f - percentageOf f p)]) := by
  have hfees' : (getPoolAmount Pool.feeCollector.address).run.plan (store height) seen
      = some (.ok f, []) := hfees ▸ rfl
  have hcut' := plan_of_peek (checks_getIntParam _) hcut
  have hvalid : ¬ (int64 (100 - p) < 0 ∨ 100 < int64 (100 - p)) := by
    rw [Model.int64_eq_self (by omega) (by omega)]
    omega
  refine plan_bind_eq_ok.mpr ⟨f, [], _, hfees', ?_, rfl⟩
  refine plan_bind_eq_ok.mpr ⟨(), [.setPool (hexEncode Pool.feeCollector.address) 0], _, rfl, ?_, rfl⟩
  refine plan_bind_eq_ok.mpr ⟨p, [], _, hcut', ?_, rfl⟩
  refine plan_bind_eq_ok.mpr ⟨(), [], _, by rw [throwIf, if_neg hvalid]; rfl, ?_, rfl⟩
  rfl

/-- The proposer is credited with the percentage of the fees, without its fraction, and the DAO with the
rest, which is not negative. -/
def SharesCredited (height : ℤ) (seen db : Database) (proposer : Bytes) (f p : ℤ) : Prop :=
  ∃ db', (handleProposerRewards proposer).run.exec (store height) (fun _ => seen) (fun _ => none) db
      = some (.ok (), db')
    ∧ db'.accounts.amount (hexEncode proposer) height
      = db.accounts.amount (hexEncode proposer) height + f * p / 100
    ∧ db'.pools.amount (hexEncode Pool.dao.address) height
      = db.pools.amount (hexEncode Pool.dao.address) height + (f - f * p / 100)
    ∧ 0 ≤ f - f * p / 100

/-- **When the shares are right.**  For every fee pool that is not negative and every percentage, read in
`seen` and credited in `db`. -/
theorem shares_credited_iff (seen db : Database) (proposer : Bytes) {f p : ℤ}
    (hfees : seen.pools.amount (hexEncode Pool.feeCollector.address) height = f)
    (hcut : (getIntParam proposerPercentageOfFeesParamName).run.peek (store height) seen
      = some (.ok p))
    (hf : 0 ≤ f) (hpos : 0 ≤ p) (hle : p ≤ 100) :
    SharesCredited height seen db proposer f p ↔ ShareExact f.toNat p.toNat := by
  rw [← percentageOf_eq_iff hf hpos hle]
  have hdao : hexEncode Pool.dao.address ≠ hexEncode Pool.feeCollector.address :=
    fun h => by cases Pool.hexEncode_address_injective h
  let nullified := db.setPool height (hexEncode Pool.feeCollector.address) 0
  let credited := nullified.setAccount height (hexEncode proposer)
    (nullified.accounts.amount (hexEncode proposer) height + percentageOf f p)
  let rewarded := credited.setPool height (hexEncode Pool.dao.address)
    (credited.pools.amount (hexEncode Pool.dao.address) height + (f - percentageOf f p))
  have hexec : (handleProposerRewards proposer).run.exec (store height) (fun _ => seen)
      (fun _ => none) db = some (.ok (), rewarded) := by
    rw [exec_eq_plan, plan_handleProposerRewards hfees hcut hpos hle]
    rfl
  have haccount : rewarded.accounts.amount (hexEncode proposer) height
      = db.accounts.amount (hexEncode proposer) height + percentageOf f p :=
    Table.amount_upsert_self ..
  have hpool : rewarded.pools.amount (hexEncode Pool.dao.address) height
      = db.pools.amount (hexEncode Pool.dao.address) height + (f - percentageOf f p) := by
    refine (Table.amount_upsert_self ..).trans ?_
    exact congrArg (· + (f - percentageOf f p)) (Table.amount_upsert_ne _ _ _ hdao)
  constructor
  · rintro ⟨db', hexec', haccount', -⟩
    cases hexec.symm.trans hexec'
    rw [haccount] at haccount'
    exact add_left_cancel haccount'
  · intro hshare
    rw [hshare] at haccount hpool
    have hnonneg : 0 ≤ f - f * p / 100 := by
      have hprod : f * p ≤ f * 100 := Int.mul_le_mul_of_nonneg_left hle hf
      omega
    exact ⟨rewarded, hexec, haccount, hpool, hnonneg⟩

/-- A state with fees and the percentage of the proposer. -/
def feeDatabase (fees : ℤ) (cut : String) : Database where
  accounts := .empty
  pools := Table.empty.upsert (hexEncode Pool.feeCollector.address) 1 fees
  params := Table.empty.upsert proposerPercentageOfFeesParamName 1 cut
  actors := fun _ => .empty
  chains := fun _ => []

/-- Of fees that have 64 bits, all for the proposer, the proposer gets one more than there are, and the
DAO loses it. -/
theorem proposer_gets_too_much :
    let db := feeDatabase (2 ^ 64 - 7) "100"
    let outcome := (handleProposerRewards [3]).run.exec (store 2) (fun _ => db) (fun _ => none) db
    outcome.map (fun (_, db') => (db'.accounts.amount "03" 2,
        db'.pools.amount (hexEncode Pool.dao.address) 2)) = some (2 ^ 64 - 6, -1)
      ∧ ¬ SharesCredited 2 db db [3] (2 ^ 64 - 7) 100 := by
  intro db outcome
  have hshares : outcome.map (fun (_, db') => (db'.accounts.amount "03" 2,
      db'.pools.amount (hexEncode Pool.dao.address) 2)) = some (2 ^ 64 - 6, -1) := by
    decide
  refine ⟨hshares, ?_⟩
  rintro ⟨db', hexec, haccount, -⟩
  have hgot : db'.accounts.amount "03" 2 = 2 ^ 64 - 6 := by
    rw [show outcome = some (.ok (), db') from hexec] at hshares
    exact (Prod.mk.inj (Option.some.inj hshares)).1
  have hdue : db'.accounts.amount "03" 2 = 0 + (2 ^ 64 - 7) * 100 / 100 := haccount
  omega

/-- Of fees that are one less it gets all and no more. -/
theorem proposer_gets_fees :
    let db := feeDatabase (2 ^ 64 - 8) "100"
    ShareExact (2 ^ 64 - 8) 100 ∧ SharesCredited 2 db db [3] (2 ^ 64 - 8) 100 := by
  intro db
  have hexact : ShareExact (2 ^ 64 - 8) 100 := by decide
  exact ⟨hexact, (shares_credited_iff db db [3] (by decide) (by decide) (by decide) (by decide)
    (by decide)).mpr hexact⟩

end Pocket.Utility
