import Pocket.Analysis.Percentages
import Pocket.Analysis.StakePools
import Pocket.Library.StorePlans

/-!
# What burning a validator does

Burning takes a percentage of a validator's stake, from its row and from the pool of the validators.  For
stakes below `2 ^ 50` the floats give the integer formula, so both lose the same.  What follows is reversed:
a validator that is left with more than the minimal stake begins to unstake, and one that falls below it
stays.  So burning does all it is for exactly when what is left is the minimal stake.
-/

set_option autoImplicit false

namespace Pocket.Utility

open Model (Bytes int64)
open StoreProgram StoreProgram.Prog VersionedTable
open Text (hexEncode)

variable {height : ℤ} {addr : Bytes} {row : ActorRow}

/-- What burning reads: the stake `s`, the percentage `b`, the minimal stake `m` and the number `u` of
blocks that unstaking takes. -/
structure BurnReads (height : ℤ) (seen : Database) (addr : Bytes) (s b m u : ℤ) : Prop where
  stake : (getActorStakeAmount ActorType.val.toInt addr).run.peek (store height) seen = some (.ok s)
  percent : (getIntParam missedBlocksBurnPercentageParamName).run.peek (store height) seen
    = some (.ok b)
  minimum : (getBigIntParam (minimumStakeParamName .val)).run.peek (store height) seen = some (.ok m)
  blocks : (getActorIntParam unstakingBlocksParamName ActorType.val.toInt).run.peek (store height) seen
    = some (.ok u)

/-- What is written when `left` of a stake is above the minimal stake `m`. -/
def unstakingUpdates (height : ℤ) (addr : Bytes) (m u left : ℤ) : List Update :=
  if m < left then [.setUnstakingHeight .val (hexEncode addr) (int64 (height + u))] else []

/-- What burning `x` of the stake `s` writes. -/
def burnUpdates (height : ℤ) (addr : Bytes) (s m u x : ℤ) : List Update :=
  .subPool (hexEncode Pool.validatorStake.address) x ::
    .setStakeAmount .val (hexEncode addr) (toString (s - x)) ::
      unstakingUpdates height addr m u (s - x)

theorem plan_burnValidator {seen : Database} {s b m u : ℤ}
    (hreads : BurnReads height seen addr s b m u) :
    (burnValidator height addr).run.plan (store height) seen
      = some (.ok (), burnUpdates height addr s m u (burnOf s b)) := by
  have hstake := plan_of_peek (checks_getActorStakeAmount _ _) hreads.stake
  have hpercent := plan_of_peek (checks_getIntParam _) hreads.percent
  have hminimum := plan_of_peek (checks_getBigIntParam _) hreads.minimum
  have hblocks := plan_of_peek (checks_getActorIntParam _ _) hreads.blocks
  refine plan_bind_eq_ok.mpr ⟨s, [], _, hstake, ?_, rfl⟩
  refine plan_bind_eq_ok.mpr ⟨b, [], _, hpercent, ?_, rfl⟩
  refine plan_bind_eq_ok.mpr ⟨(), [_], .setStakeAmount _ _ _ :: unstakingUpdates .., rfl, ?_, rfl⟩
  refine plan_bind_eq_ok.mpr ⟨(), [_], unstakingUpdates .., rfl, ?_, rfl⟩
  refine plan_bind_eq_ok.mpr ⟨m, [], unstakingUpdates .., hminimum, ?_, rfl⟩
  unfold unstakingUpdates burnOf
  split
  · have hunbonding : (getUnbondingHeight height ActorType.val.toInt).run.plan (store height) seen
        = some (.ok (int64 (height + u)), []) :=
      plan_bind_eq_ok.mpr ⟨u, [], _, hblocks, rfl, rfl⟩
    exact plan_bind_eq_ok.mpr ⟨_, [], _, hunbonding, rfl, rfl⟩
  · rfl

/-! ## What the updates leave -/

section Updates

variable {db : Database} {t : ActorType} {address : String} {change : ActorRow → ActorRow}

theorem stakeOf_updateRow_self (hrow : (db.actors t).lookup address height = some row) :
    stakeOf height (db.updateRow height t address change) t address = (change row).stake := by
  refine stakeOf_of_lookup ?_
  rw [lookup_updateRow, if_pos ⟨rfl, rfl⟩, hrow]
  rfl

theorem stakeOf_updateRow_of_same (hsame : ∀ row, (change row).stake = row.stake) :
    stakeOf height (db.updateRow height t address change) t address = stakeOf height db t address := by
  cases hrow : (db.actors t).lookup address height with
  | some row => rw [stakeOf_updateRow_self hrow, hsame, stakeOf_of_lookup hrow]
  | none => rw [Database.updateRow, hrow]

theorem stakePoolAmount_updateRow (t' : ActorType) :
    stakePoolAmount height (db.updateRow height t address change) t'
      = stakePoolAmount height db t' := by
  rw [stakePoolAmount, pools_updateRow, stakePoolAmount]

end Updates

theorem foldl_unstakingUpdates (db : Database) (addr : Bytes) (m u left : ℤ) :
    let db' := (unstakingUpdates height addr m u left).foldl (store height).apply db
    stakeOf height db' .val (hexEncode addr) = stakeOf height db .val (hexEncode addr)
      ∧ stakePoolAmount height db' .val = stakePoolAmount height db .val := by
  unfold unstakingUpdates
  split
  · exact ⟨stakeOf_updateRow_of_same fun _ => rfl, stakePoolAmount_updateRow _⟩
  · exact ⟨rfl, rfl⟩

theorem foldl_burnUpdates {db : Database} {s m u x : ℤ}
    (hrow : (db.actors .val).lookup (hexEncode addr) height = some row) :
    let db' := (burnUpdates height addr s m u x).foldl (store height).apply db
    stakeOf height db' .val (hexEncode addr) = s - x
      ∧ stakePoolAmount height db' .val = stakePoolAmount height db .val - x := by
  let moved := db.setPool height (hexEncode Pool.validatorStake.address)
    (db.pools.amount (hexEncode Pool.validatorStake.address) height - x)
  let burnt := moved.updateRow height .val (hexEncode addr)
    fun row => { row with stakedTokens := toString (s - x) }
  have hmoved : (moved.actors .val).lookup (hexEncode addr) height = some row := hrow
  have hstake : stakeOf height burnt .val (hexEncode addr) = s - x :=
    (stakeOf_updateRow_self hmoved).trans (numberIn_toString _)
  have hpool : stakePoolAmount height burnt .val = stakePoolAmount height db .val - x :=
    (stakePoolAmount_updateRow _).trans (stakePoolAmount_setPool _ Pool.validatorStake _ .val)
  obtain ⟨hstake', hpool'⟩ := @foldl_unstakingUpdates height burnt addr m u (s - x)
  exact ⟨hstake'.trans hstake, hpool'.trans hpool⟩

theorem mem_burnUpdates {s m u x v : ℤ} :
    .setUnstakingHeight .val (hexEncode addr) v ∈ burnUpdates height addr s m u x
      ↔ m < s - x ∧ v = int64 (height + u) := by
  unfold burnUpdates unstakingUpdates
  split <;> simp_all

/-! ## What burning is for -/

/-- The stake of the validator and the pool of the validators lose the percentage `b` of the stake `s`,
without its fraction, neither of them falls below zero, and the unstaking height is written, as
the height after the unstaking blocks, exactly when what is left is less than `m`. -/
def BurnsAsMeant (height : ℤ) (seen db : Database) (addr : Bytes) (s b m u : ℤ) : Prop :=
  ∃ ws, (burnValidator height addr).run.plan (store height) seen = some (.ok (), ws)
    ∧ (let db' := ws.foldl (store height).apply db
      stakeOf height db' .val (hexEncode addr)
        = stakeOf height db .val (hexEncode addr) - s * b / 100
      ∧ 0 ≤ stakeOf height db' .val (hexEncode addr)
      ∧ stakePoolAmount height db' .val = stakePoolAmount height db .val - s * b / 100
      ∧ 0 ≤ stakePoolAmount height db' .val)
    ∧ ((∃ v, .setUnstakingHeight .val (hexEncode addr) v ∈ ws) ↔ s - s * b / 100 < m)
    ∧ ∀ v, .setUnstakingHeight .val (hexEncode addr) v ∈ ws → v = height + u

/-- **When burning does what it is for.**  For every stake below `2 ^ 50`, a pool that holds the stake
at least, every percentage and every minimal stake, all read in `seen` and burnt in `db`. -/
theorem burns_as_meant_iff (seen db : Database) (addr : Bytes) {row : ActorRow} {s b m u : ℤ}
    (hreads : BurnReads height seen addr s b m u)
    (hrow : (db.actors .val).lookup (hexEncode addr) height = some row) (hstake : row.stake = s)
    (hs : 0 ≤ s) (hlt : s < 2 ^ 50) (hpool : s ≤ stakePoolAmount height db .val)
    (hpos : 0 ≤ b) (hle : b ≤ 100) :
    BurnsAsMeant height seen db addr s b m u ↔ s - s * b / 100 = m := by
  have hnonneg : 0 ≤ s * b := Int.mul_nonneg hs hpos
  have hprod : s * b ≤ s * 100 := Int.mul_le_mul_of_nonneg_left hle hs
  have hburn : burnOf s b = s * b / 100 := by
    rw [burnOf, percentageOf_eq hs hpos hle (by omega)]
    omega
  have hplan := plan_burnValidator hreads
  rw [hburn] at hplan
  generalize hx : s * b / 100 = x at *
  constructor
  · rintro ⟨ws, hws, -, hunstake, -⟩
    cases hplan.symm.trans hws
    simp only [mem_burnUpdates, exists_and_left, exists_eq, and_true] at hunstake
    omega
  · intro hm
    obtain ⟨hstake', hpool'⟩ := foldl_burnUpdates (s := s) (m := m) (u := u) (x := x) hrow
    refine ⟨_, hplan, ⟨?_, ?_, ?_, ?_⟩, ?_, ?_⟩
    · rw [hx, hstake', stakeOf_of_lookup hrow, hstake]
    · rw [hstake']
      omega
    · rw [hx, hpool']
    · rw [hpool']
      omega
    · simp only [mem_burnUpdates, exists_and_left, exists_eq, and_true]
      omega
    · intro v hv
      have := (mem_burnUpdates.1 hv).1
      omega

/-- A validator with a stake of 100, which is in the pool, a tenth of which is burnt. -/
def burnDatabase (minimum : String) : Database where
  accounts := .empty
  pools := Table.empty.upsert (hexEncode Pool.validatorStake.address) 1 100
  params := [(missedBlocksBurnPercentageParamName, "10"), (minimumStakeParamName .val, minimum),
    (unstakingBlocksParamName .val, "5")].foldl (fun params p => params.upsert p.1 1 p.2) .empty
  actors := fun
    | .val => Table.empty.upsert "01" 1
      { publicKey := "", stakedTokens := "100", serviceUrl := "", outputAddress := "02"
        pausedHeight := -1, unstakingHeight := -1 }
    | _ => .empty
  chains := fun _ => []

/-- What is left, 90, is below the minimal stake of 95, and the validator stays. -/
theorem burnt_below_minimum_stays :
    let db := burnDatabase "95"
    (burnValidator 2 [1]).run.plan (store 2) db
        = some (.ok (), [.subPool (hexEncode Pool.validatorStake.address) 10,
            .setStakeAmount .val "01" "90"])
      ∧ ¬ BurnsAsMeant 2 db db [1] 100 10 95 5 := by
  intro db
  have hplan : (burnValidator 2 [1]).run.plan (store 2) db
      = some (.ok (), [.subPool (hexEncode Pool.validatorStake.address) 10,
          .setStakeAmount .val "01" "90"]) := by
    decide
  refine ⟨hplan, ?_⟩
  rintro ⟨ws, hws, -, hunstake, -⟩
  cases hplan.symm.trans hws
  simp at hunstake

/-- With a minimal stake of 90 it stays too, as it should. -/
theorem burnt_to_minimum_stays :
    let db := burnDatabase "90"
    100 - 100 * 10 / 100 = (90 : ℤ) ∧ BurnsAsMeant 2 db db [1] 100 10 90 5 := by
  intro db
  have hreads : BurnReads 2 db [1] 100 10 90 5 :=
    ⟨by decide, by decide, by decide, by decide⟩
  have hleft : 100 - 100 * 10 / 100 = (90 : ℤ) := by decide
  exact ⟨hleft, (burns_as_meant_iff db db [1] hreads rfl (by decide) (by decide) (by decide)
    (by decide) (by decide) (by decide)).mpr hleft⟩

end Pocket.Utility
