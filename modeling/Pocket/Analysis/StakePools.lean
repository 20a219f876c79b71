import Mathlib.Algebra.BigOperators.Group.Finset.Piecewise
import Pocket.Analysis.ActorTables
import Pocket.Analysis.TransactionOutcome

/-!
# Whether the stake pools back the stakes

The pool of a kind of actor backs its stakes when it holds the sum of the stakes that have not
been paid out.  Which stakes have been paid out is history and not in the database, where a paid
actor keeps its row; it is the set `paid` here, and the end of a block adds to it the actors it
pays.

Four operations move stakes.  For each of them `KeepsBacking` says what decides whether the pools
still back the stakes after it:

* a stake and an edited stake go to the pool of the applications, whatever the kind of the actor,
  and an edited stake may belong to an actor that was paid;
* burning takes from the pool of the validators, also for a validator that was paid;
* the end of a block pays every actor whose unstaking height it is, also one that was paid before.
-/

set_option autoImplicit false

namespace Pocket.Utility

open Model (Bytes int64)
open StoreProgram StoreProgram.Prog VersionedTable ActorType ActorRow Table
open Text (hexEncode hexDecode)

variable {P : Platform} {height : ℤ}

/-! ## Pools and stakes -/

/-- The number in a text, for texts that hold one. -/
def numberIn (text : String) : ℤ := (Text.integer text).getD 0

def ActorRow.stake (row : ActorRow) : ℤ := numberIn row.stakedTokens

theorem numberIn_of_stringToBigInt {text : String} {n : ℤ} (h : stringToBigInt text = .ok n) :
    numberIn text = n := by
  rw [stringToBigInt] at h
  split at h
  · next m hm =>
    rw [numberIn, hm]
    exact Except.ok.inj h
  · cases h

def stakePoolAmount (height : ℤ) (db : Database) (t : ActorType) : ℤ :=
  db.pools.amount (hexEncode t.stakePool.address) height

/-- The stake of an actor, and nothing if there is no such actor. -/
def stakeOf (height : ℤ) (db : Database) (t : ActorType) (address : String) : ℤ :=
  (db.actors t).weight stake address height

def unpaidStake (height : ℤ) (paid : ActorType → Finset String) (db : Database) (t : ActorType) :
    ℤ :=
  (db.actors t).sumOutside stake height (paid t)

/-- The pool of every kind holds the stakes of the kind that have not been paid out. -/
def Backed (height : ℤ) (paid : ActorType → Finset String) (db : Database) : Prop :=
  ∀ t, stakePoolAmount height db t = unpaidStake height paid db t

variable {paid : ActorType → Finset String} {db db' : Database} {t : ActorType} {m : MessageStake}
  {fails : ℕ → Option String} {proposer : Bytes} {s : Database} {row : ActorRow}
  {order : List ActorType}

theorem backed_iff_of_changes {paid' : ActorType → Finset String}
    {moved lost : ActorType → ℤ} (h : Backed height paid db)
    (hpool : ∀ t, stakePoolAmount height db' t = stakePoolAmount height db t + moved t)
    (hstake : ∀ t, unpaidStake height paid' db' t = unpaidStake height paid db t + lost t) :
    Backed height paid' db' ↔ ∀ t, moved t = lost t := by
  refine forall_congr' fun t => ?_
  have hbacked := h t
  rw [hpool, hstake]
  omega

theorem Pool.hexEncode_address_injective : Function.Injective fun p : Pool => hexEncode p.address := by
  intro p p' h
  have haddress : p.address = p'.address := Text.hexEncode_injective h
  cases p <;> cases p' <;> first | rfl | exact absurd haddress (by decide)

theorem stakePoolAmount_setPool (db : Database) (p : Pool) (amount : ℤ) (t : ActorType) :
    stakePoolAmount height (db.setPool height (hexEncode p.address) amount) t
      = if t.stakePool = p then amount else stakePoolAmount height db t := by
  by_cases hp : t.stakePool = p
  · rw [if_pos hp, stakePoolAmount, hp]
    exact amount_upsert_self _ _ _ _
  · rw [if_neg hp]
    exact amount_upsert_ne _ _ _ fun heq => hp (Pool.hexEncode_address_injective heq)

theorem stakeOf_of_lookup {address : String} (h : (db.actors t).lookup address height = some row) :
    stakeOf height db t address = row.stake := by
  rw [stakeOf, weight, h]
  rfl

/-- One actor's row changes, and with it the stakes by what it changes of an unpaid one. -/
theorem unpaidStake_of_change {address : String}
    (h : ∀ t' address', (db'.actors t').lookup address' height = if t' = t ∧ address' = address then
      some row else (db.actors t').lookup address' height) (t' : ActorType) :
    unpaidStake height paid db' t' = unpaidStake height paid db t' +
      if t' = t ∧ address ∉ paid t then row.stake - stakeOf height db t address else 0 := by
  have hother : ∀ address' ≠ address, (db'.actors t').weight stake address' height
      = (db.actors t').weight stake address' height := by
    intro address' hne
    rw [weight, weight, h, if_neg fun hboth => hne hboth.2]
  rw [unpaidStake, unpaidStake, sumOutside_of_change hother]
  by_cases ht : t' = t
  · have hself : (db'.actors t').weight stake address height = row.stake := by
      rw [weight, h, if_pos ⟨ht, rfl⟩]
      rfl
    rw [hself, ht]
    by_cases hpaid : address ∈ paid t
    · rw [if_pos hpaid, if_neg fun hboth => hboth.2 hpaid]
    · rw [if_neg hpaid, if_pos ⟨rfl, hpaid⟩, stakeOf]
  · have hsame : (db'.actors t').weight stake address height
        = (db.actors t').weight stake address height := by
      rw [weight, weight, h, if_neg fun hboth => ht hboth.1]
    rw [hsame, sub_self, ite_self, if_neg fun hboth => ht hboth.1]

theorem ActorType.stakePool_injective : Function.Injective stakePool := by
  intro t t' h
  cases t <;> cases t' <;> first | rfl | cases h

theorem stakePoolAmount_moved (db : Database) (pool : ActorType) (amount : ℤ) (t : ActorType) :
    stakePoolAmount height (db.setPool height (hexEncode pool.stakePool.address)
        (stakePoolAmount height db pool + amount)) t
      = stakePoolAmount height db t + if t = pool then amount else 0 := by
  rw [stakePoolAmount_setPool]
  by_cases ht : t = pool
  · rw [if_pos (congrArg _ ht), if_pos ht, ht]
  · rw [if_neg fun heq => ht (stakePool_injective heq), if_neg ht, add_zero]

/-- One pool gets what one stake gains.  The pools back the stakes then if it is the right pool and the
stake was not paid out, or nothing is moved. -/
theorem backed_moved_iff {address : String} (pool : ActorType) (hbacked : Backed height paid db)
    (hpool : ∀ t', stakePoolAmount height db' t' = stakePoolAmount height db t' +
      if t' = pool then row.stake - stakeOf height db t address else 0)
    (hrows : ∀ t' address', (db'.actors t').lookup address' height
      = if t' = t ∧ address' = address then some row else (db.actors t').lookup address' height) :
    Backed height paid db' ↔
      pool = t ∧ address ∉ paid t ∨ row.stake = stakeOf height db t address := by
  rw [backed_iff_of_changes hbacked hpool (unpaidStake_of_change hrows)]
  constructor
  · intro hall
    have hmoved := hall pool
    rw [if_pos rfl] at hmoved
    by_cases hboth : pool = t ∧ address ∉ paid t
    · exact .inl hboth
    · rw [if_neg hboth] at hmoved
      exact .inr (sub_eq_zero.1 hmoved)
  · rintro (⟨rfl, hunpaid⟩ | hsame) t'
    · simp only [hunpaid, not_false_eq_true, and_true]
    · rw [hsame, sub_self, ite_self, ite_self]

/-! ## Staking -/

/-- A stake that went through: the amount is in the pool of the applications and the actor is
new. -/
theorem stake_of_exec
    (h : (handleStakeMessage P m).run.exec (store height) id fails db = some (.ok (), db')) :
    ∃ t amount row chains, ofInt m.actorType = some t ∧ StakeAccepted P height db m amount ∧
      row.stakedTokens = m.amount ∧
      db' = (db.stake height m.signer amount).insertActor height t
        (hexEncode (P.address m.publicKey)) row chains := by
  have hwp : (handleStakeMessage P m).run.wp (store height) (fun _ => True)
      (fun r s => r = .ok () → ∃ t amount row chains, ofInt m.actorType = some t ∧
        StakeAccepted P height db m amount ∧ row.stakedTokens = m.amount ∧
        s = (db.stake height m.signer amount).insertActor height t
          (hexEncode (P.address m.publicKey)) row chains) db := by
    refine (wp_handleStakeMessage fun _ he => by cases he).2 fun amount haccepted => ?_
    refine ⟨fun _ _ he => (nomatch he), ?_⟩
    obtain ⟨t, ht⟩ := actorType_of_forActor haccepted.new
    rw [insertActor, ht]
    exact wp_perform.2 ⟨fun _ _ he => (nomatch he),
      fun _ => ⟨t, amount, _, _, rfl, haccepted, rfl, rfl⟩⟩
  exact wp_exec hwp (fun _ _ _ => trivial) h rfl

theorem StakeAccepted.lookup_eq_none {amount : ℤ}
    (h : StakeAccepted P height db m amount) (ht : ofInt m.actorType = some t) :
    (db.actors t).lookup (hexEncode (P.address m.publicKey)) height = none := by
  have hnew := h.new
  rw [getActorExists, forActor, ht] at hnew
  have hanswer : some (Except.ok ((db.actors t).lookup (hexEncode (P.address m.publicKey))
      height).isSome : Except Error Bool) = some (.ok false) := hnew
  rw [Option.some.injEq, Except.ok.injEq] at hanswer
  exact Option.not_isSome_iff_eq_none.1 (Bool.eq_false_iff.1 hanswer)

/-- The paid actors are actors. -/
def PaidExist (height : ℤ) (paid : ActorType → Finset String) (db : Database) : Prop :=
  ∀ t, ∀ address ∈ paid t, ((db.actors t).lookup address height).isSome

theorem backed_stake_iff (hbacked : Backed height paid db) (hpaid : PaidExist height paid db)
    (h : (handleStakeMessage P m).run.exec (store height) id fails db = some (.ok (), db')) :
    Backed height paid db' ↔
      ofInt m.actorType = some .app ∨ numberIn m.amount = 0 := by
  obtain ⟨t, amount, row, chains, ht, haccepted, hrow, hdb'⟩ := stake_of_exec h
  have hnew := haccepted.lookup_eq_none ht
  have hamount : numberIn m.amount = amount := numberIn_of_stringToBigInt haccepted.amount_eq
  have hunpaid : hexEncode (P.address m.publicKey) ∉ paid t := by
    intro hmem
    have hexists := hpaid t _ hmem
    rw [hnew] at hexists
    cases hexists
  have hpools : db'.pools = (db.stake height m.signer amount).pools := by
    rw [hdb', Database.insertActor]
    split <;> rfl
  have hrows : ∀ t' address', (db'.actors t').lookup address' height
      = if t' = t ∧ address' = hexEncode (P.address m.publicKey) then some row
        else (db.actors t').lookup address' height := by
    rw [hdb']
    exact fun t' address' => lookup_insertActor_of_new hnew
  have hstake : stakeOf height db t (hexEncode (P.address m.publicKey)) = 0 := by
    rw [stakeOf, weight, hnew]
    rfl
  have hrowStake : row.stake = amount := by rw [stake, hrow, hamount]
  rw [backed_moved_iff .app hbacked _ hrows, hstake, hrowStake, ht, hamount, and_iff_left hunpaid,
    Option.some.injEq, eq_comm]
  intro t'
  rw [stakePoolAmount, hpools, hstake, hrowStake, sub_zero]
  exact stakePoolAmount_moved _ .app _ t'

/-! ## Editing a stake -/

theorem checks_wrap_getActorExists {f : Error → Error} (actorType : ℤ) (address : Bytes) :
    (wrap f (getActorExists actorType address) : Uow Bool).run.Checks :=
  checks_wrap _ (checks_getActorExists _ _)

/-- A stake that can be read belongs to an actor. -/
theorem peek_getActorStakeAmount {actorType stake : ℤ} {address : Bytes}
    (h : (getActorStakeAmount actorType address).run.peek (store height) db = some (.ok stake)) :
    ∃ t row, ofInt actorType = some t ∧
      (db.actors t).lookup (hexEncode address) height = some row ∧ row.stake = stake := by
  obtain ⟨text, htext, hparsed⟩ := peek_bind_eq_ok.1 h
  obtain ⟨t, ht, hread⟩ := peek_callForActor htext
  obtain ⟨row, hrow, rfl⟩ := lookup_of_selectLatest (Option.some.inj hread)
  refine ⟨t, row, ht, hrow, ?_⟩
  exact numberIn_of_stringToBigInt (mapError_eq_ok.1 (Option.some.inj hparsed))

/-- An edited stake that went through: the difference is in the pool of the applications, and
the actor's row, and no other, has the new stake. -/
structure StakeEdited (height : ℤ) (m : MessageEditStake) (db db' : Database) (t : ActorType)
    (row row' : ActorRow) : Prop where
  kind : ofInt m.actorType = some t
  before : (db.actors t).lookup (hexEncode m.address) height = some row
  stake : row'.stake = numberIn m.amount
  pools : ∀ t', stakePoolAmount height db' t' = stakePoolAmount height db t' +
    if t' = .app then numberIn m.amount - row.stake else 0
  rows : ∀ t' address', (db'.actors t').lookup address' height
    = if t' = t ∧ address' = hexEncode m.address then some row'
      else (db.actors t').lookup address' height

theorem pools_updateRow (db : Database) (t : ActorType) (address : String)
    (change : ActorRow → ActorRow) : (db.updateRow height t address change).pools = db.pools := by
  rw [Database.updateRow]
  split <;> rfl

theorem succeeds_handleEditStakeMessage {m : MessageEditStake} :
    Succeeds (store height) id (handleEditStakeMessage m)
      (fun _ db' => ∃ t row row', StakeEdited height m db db' t row row') db := by
  refine succeeds_check (checks_wrap_getActorExists _ _) fun found _ => ?_
  refine succeeds_bind (succeeds_throwIf fun _ => ?_)
  refine succeeds_check (checks_getActorStakeAmount _ _) fun current hcurrent => ?_
  obtain ⟨t, row, ht, hrow, rfl⟩ := peek_getActorStakeAmount hcurrent
  cases hamount : stringToBigInt m.amount with
  | error e => exact succeeds_crash
  | ok newAmount =>
    have hnumber : numberIn m.amount = newAmount := numberIn_of_stringToBigInt hamount
    refine succeeds_bind (succeeds_throwIf fun _ => ?_)
    refine succeeds_check (checks_getAccountAmount _) fun balance _ => ?_
    refine succeeds_bind (succeeds_throwIf fun _ => ?_)
    refine succeeds_check (checks_checkBelowMaxChains _ _) fun _ _ => ?_
    refine succeeds_bind (succeeds_write ?_)
    refine succeeds_bind (succeeds_write ?_)
    let moved := (db.setAccount height (hexEncode m.signer)
      (balance - (newAmount - row.stake))).setPool height (hexEncode Pool.appStake.address)
        (db.pools.amount (hexEncode Pool.appStake.address) height + (newAmount - row.stake))
    let change (row : ActorRow) : ActorRow :=
      { row with stakedTokens := m.amount, serviceUrl := if t = .app then "" else m.serviceUrl }
    -- the statements on chains that may follow touch neither pools nor rows of actors
    have hdone : ∀ db' : Database,
        db'.pools = (moved.updateRow height t (hexEncode m.address) change).pools →
        db'.actors = (moved.updateRow height t (hexEncode m.address) change).actors →
        ∃ t row row', StakeEdited height m db db' t row row' := by
      intro db' hpools hactors
      refine ⟨t, row, change row, ht, hrow, rfl, fun t' => ?_, fun t' address' => ?_⟩
      · rw [stakePoolAmount, hpools, pools_updateRow, hnumber]
        exact stakePoolAmount_moved _ .app _ t'
      · have hmoved : (moved.actors t).lookup (hexEncode m.address) height = some row := hrow
        rw [hactors, lookup_updateRow, hmoved]
        rfl
    rw [updateActor, ht]
    refine succeeds_wrap (succeeds_bind (succeeds_perform ?_))
    split
    · exact succeeds_pure (hdone _ rfl rfl)
    · exact succeeds_bind (succeeds_perform (succeeds_perform (hdone _ rfl rfl)))

theorem backed_editStake_iff {m : MessageEditStake} (hbacked : Backed height paid db)
    (h : (handleEditStakeMessage m).run.exec (store height) id fails db = some (.ok (), db')) :
    Backed height paid db' ↔ ∀ t, ofInt m.actorType = some t →
      t = .app ∧ hexEncode m.address ∉ paid t ∨
        numberIn m.amount = stakeOf height db t (hexEncode m.address) := by
  obtain ⟨t, row, row', hedited⟩ := succeeds_handleEditStakeMessage _ _ _ h () rfl
  have hstake : stakeOf height db t (hexEncode m.address) = row.stake :=
    stakeOf_of_lookup hedited.before
  have hpools := hedited.pools
  rw [← hedited.stake, ← hstake] at hpools
  rw [backed_moved_iff .app hbacked hpools hedited.rows, hedited.kind, hedited.stake, @eq_comm _ _ t]
  simp only [Option.some.injEq, forall_eq']

/-! ## Burning a validator -/

/-- What burning takes of a stake. -/
def burnOf (stake percent : ℤ) : ℤ := max 0 (percentageOf stake percent)

/-- A validator that was burnt: its stake and the pool of the validators lost the same. -/
structure Burnt (height : ℤ) (addr : Bytes) (db db' : Database) (row row' : ActorRow)
    (percent : ℤ) : Prop where
  before : (db.actors .val).lookup (hexEncode addr) height = some row
  percentage : (getIntParam missedBlocksBurnPercentageParamName).run.peek (store height) db
    = some (.ok percent)
  stake : row'.stake = row.stake - burnOf row.stake percent
  pools : ∀ t', stakePoolAmount height db' t' = stakePoolAmount height db t' +
    if t' = .val then -burnOf row.stake percent else 0
  rows : ∀ t' address', (db'.actors t').lookup address' height
    = if t' = .val ∧ address' = hexEncode addr then some row'
      else (db.actors t').lookup address' height

theorem numberIn_toString (n : ℤ) : numberIn (toString n) = n := by
  rw [numberIn, Text.integer_toString]
  rfl

theorem succeeds_burnValidator {addr : Bytes} :
    Succeeds (store height) id (burnValidator height addr)
      (fun _ db' => ∃ row row' percent, Burnt height addr db db' row row' percent) db := by
  refine succeeds_check (checks_getActorStakeAmount _ _) fun stake hstake => ?_
  obtain ⟨t, row, ht, hrow, rfl⟩ := peek_getActorStakeAmount hstake
  obtain rfl : val = t := Option.some.inj ht
  refine succeeds_check (checks_getIntParam _) fun percent hpercent => ?_
  refine succeeds_bind (succeeds_write ?_)
  refine succeeds_bind (succeeds_write ?_)
  let moved := db.setPool height (hexEncode Pool.validatorStake.address)
    (db.pools.amount (hexEncode Pool.validatorStake.address) height - burnOf row.stake percent)
  let left := toString (row.stake - burnOf row.stake percent)
  let burnt := moved.updateRow height .val (hexEncode addr) fun row => { row with stakedTokens := left }
  have hpools : ∀ t', stakePoolAmount height moved t' = stakePoolAmount height db t' +
      if t' = .val then -burnOf row.stake percent else 0 := by
    exact stakePoolAmount_moved db .val (-burnOf row.stake percent)
  have hrows : ∀ t' address', (burnt.actors t').lookup address' height
      = if t' = .val ∧ address' = hexEncode addr then some { row with stakedTokens := left }
        else (db.actors t').lookup address' height := by
    intro t' address'
    have hmoved : (moved.actors .val).lookup (hexEncode addr) height = some row := hrow
    rw [lookup_updateRow, hmoved]
    rfl
  have hunbonding : ∀ u t' address', ((burnt.updateRow height .val (hexEncode addr) fun row =>
      { row with unstakingHeight := u }).actors t').lookup address' height
        = if t' = .val ∧ address' = hexEncode addr then
            some { row with stakedTokens := left, unstakingHeight := u }
          else (db.actors t').lookup address' height := by
    intro u t' address'
    rw [lookup_updateRow]
    by_cases hself : t' = .val ∧ address' = hexEncode addr
    · rw [if_pos hself, if_pos hself, hrows, if_pos ⟨rfl, rfl⟩]
      rfl
    · rw [if_neg hself, if_neg hself, hrows, if_neg hself]
  refine succeeds_check (checks_getBigIntParam _) fun minimum _ => ?_
  split
  · refine succeeds_check (checks_getUnbondingHeight _) fun u _ => ?_
    refine succeeds_write ⟨row, { row with stakedTokens := left, unstakingHeight := u },
      percent, hrow, hpercent, numberIn_toString _, fun t' => ?_, hunbonding u⟩
    refine Eq.trans ?_ (hpools t')
    rw [stakePoolAmount, stakePoolAmount]
    exact congrArg (fun table : Table String ℤ ℤ => table.amount _ height)
      ((pools_updateRow burnt _ _ _).trans (pools_updateRow moved _ _ _))
  · refine succeeds_pure ⟨row, { row with stakedTokens := left }, percent, hrow, hpercent,
      numberIn_toString _, fun t' => ?_, hrows⟩
    refine Eq.trans ?_ (hpools t')
    rw [stakePoolAmount, stakePoolAmount]
    exact congrArg (fun table : Table String ℤ ℤ => table.amount _ height)
      (pools_updateRow moved _ _ _)

theorem backed_burn_iff {addr : Bytes} (hbacked : Backed height paid db)
    (h : (burnValidator height addr).run.exec (store height) id fails db = some (.ok (), db')) :
    Backed height paid db' ↔ hexEncode addr ∉ paid .val ∨
      ∀ percent, (getIntParam missedBlocksBurnPercentageParamName).run.peek (store height) db
        = some (.ok percent) → percentageOf (stakeOf height db .val (hexEncode addr)) percent ≤ 0 := by
  obtain ⟨row, row', percent, hburnt⟩ := succeeds_burnValidator _ _ _ h () rfl
  have hstake : stakeOf height db .val (hexEncode addr) = row.stake :=
    stakeOf_of_lookup hburnt.before
  have hpools := hburnt.pools
  have hlost : -burnOf row.stake percent = row'.stake - row.stake := by
    rw [hburnt.stake]
    omega
  have hkept : row'.stake = row.stake ↔ percentageOf row.stake percent ≤ 0 := by
    rw [hburnt.stake, burnOf]
    omega
  rw [hlost, ← hstake] at hpools
  rw [backed_moved_iff .val hbacked hpools hburnt.rows, hstake, hkept, and_iff_right rfl]
  refine or_congr_right ⟨fun hle percent' hpercent' => ?_, fun h => h percent hburnt.percentage⟩
  obtain rfl : percent' = percent :=
    Except.ok.inj (Option.some.inj (hpercent'.symm.trans hburnt.percentage))
  exact hle

/-! ## The end of a block -/

/-- The addresses of the actors that the end of the block pays. -/
def dueActors (height : ℤ) (db : Database) (t : ActorType) : Finset String :=
  ((selectReadyToUnstake (db.actors t) height).map UnstakingActor.address).toFinset

/-- What it pays them. -/
def dueStake (height : ℤ) (db : Database) (t : ActorType) : ℤ :=
  ((selectReadyToUnstake (db.actors t) height).map fun actor => numberIn actor.stakeAmount).sum

theorem dueStake_eq_sum (hcurrent : db.ActorsUpTo height) (t : ActorType) :
    dueStake height db t = ∑ address ∈ dueActors height db t, stakeOf height db t address := by
  rw [dueActors, List.sum_toFinset _ (nodup_selectReadyToUnstake (hcurrent t) height), List.map_map,
    dueStake]
  refine congrArg List.sum (List.map_congr_left fun actor hactor => ?_)
  obtain ⟨row, hrow, -, hstake, -⟩ := (mem_selectReadyToUnstake (hcurrent t)).1 hactor
  rw [hstake]
  exact (stakeOf_of_lookup hrow).symm

theorem stakePool_ne {p : Pool} (h : p = .dao ∨ p = .feeCollector) : t.stakePool ≠ p := by
  rcases h with rfl | rfl <;> cases t <;> decide

theorem succeeds_handleProposerRewards :
    Succeeds (store height) id (handleProposerRewards proposer)
      (fun _ s => s.actors = db.actors ∧
        ∀ t, stakePoolAmount height s t = stakePoolAmount height db t) db := by
  refine succeeds_check (checks_wrap _ (checks_ask _)) fun fees _ => ?_
  refine succeeds_bind (succeeds_write ?_)
  refine succeeds_check (checks_getIntParam _) fun percent _ => ?_
  refine succeeds_bind (succeeds_throwIf fun _ => ?_)
  refine succeeds_bind (succeeds_write ?_)
  refine succeeds_write ⟨rfl, fun t => ?_⟩
  refine (stakePoolAmount_setPool _ Pool.dao _ t).trans ?_
  rw [if_neg (stakePool_ne (.inl rfl))]
  refine (stakePoolAmount_setPool _ Pool.feeCollector _ t).trans ?_
  rw [if_neg (stakePool_ne (.inr rfl))]

theorem succeeds_unbondActor {actor : UnstakingActor} :
    Succeeds (store height) id (unbondActor t actor)
      (fun _ s' => s'.actors = s.actors ∧ ∀ t', stakePoolAmount height s' t'
        = stakePoolAmount height s t' - if t' = t then numberIn actor.stakeAmount else 0) s := by
  refine succeeds_bind (succeeds_returned fun stake hstake => ?_)
  refine succeeds_bind (succeeds_returned fun output _ => ?_)
  refine succeeds_bind (succeeds_write ?_)
  refine succeeds_write ⟨rfl, fun t' => ?_⟩
  have hnumber : numberIn actor.stakeAmount = stake :=
    numberIn_of_stringToBigInt (mapError_eq_ok.1 hstake)
  refine (stakePoolAmount_moved _ t (-stake) t').trans ?_
  rw [hnumber, sub_eq_add_neg, apply_ite Neg.neg, neg_zero]

/-- The payments of one kind: what is still to be paid and what has been add up. -/
theorem succeeds_forM_unbondActor {actors : List UnstakingActor} :
    Succeeds (store height) id (actors.forM (unbondActor t))
      (fun _ s' => s'.actors = s.actors ∧ ∀ t', stakePoolAmount height s' t'
        = stakePoolAmount height s t' -
          if t' = t then (actors.map fun actor => numberIn actor.stakeAmount).sum else 0) s := by
  let total (l : List UnstakingActor) : ℤ := (l.map fun actor => numberIn actor.stakeAmount).sum
  let inv (rest : List UnstakingActor) (s' : Database) : Prop := s'.actors = s.actors ∧
    ∀ t', (stakePoolAmount height s' t' - if t' = t then total rest else 0)
      = stakePoolAmount height s t' - if t' = t then total actors else 0
  have hbody : ∀ actor rest s₁, inv (actor :: rest) s₁ →
      Succeeds (store height) id (unbondActor t actor) (fun _ => inv rest) s₁ := by
    intro actor rest s₁ hs₁
    refine succeeds_mono succeeds_unbondActor fun _ s₂ hs₂ => ⟨hs₂.1.trans hs₁.1, fun t' => ?_⟩
    have hbefore := hs₁.2 t'
    have hcons : total (actor :: rest) = numberIn actor.stakeAmount + total rest := List.sum_cons
    rw [hs₂.2 t']
    by_cases ht : t' = t
    · rw [if_pos ht, if_pos ht, hcons] at hbefore
      rw [if_pos ht, if_pos ht, if_pos ht]
      omega
    · rw [if_neg ht, if_neg ht] at hbefore
      rw [if_neg ht, if_neg ht, if_neg ht]
      omega
  have hloop : Succeeds (store height) id (actors.forM (unbondActor t)) (fun _ => inv []) s :=
    succeeds_forM hbody ⟨rfl, fun _ => rfl⟩
  refine succeeds_mono hloop fun _ s' hs' => ⟨hs'.1, fun t' => ?_⟩
  have hend := hs'.2 t'
  have hnil : total [] = 0 := rfl
  rw [hnil, ite_self, sub_zero] at hend
  exact hend

theorem succeeds_unbondUnstakingActors (hall : order.Perm allActors) :
    Succeeds (store height) id (unbondUnstakingActors order)
      (fun _ s' => s'.actors = s.actors ∧ ∀ t, stakePoolAmount height s' t
        = stakePoolAmount height s t - dueStake height s t) s := by
  let inv (rest : List ActorType) (s' : Database) : Prop := rest.Nodup ∧ s'.actors = s.actors ∧
    ∀ t, (stakePoolAmount height s' t - if t ∈ rest then dueStake height s t else 0)
      = stakePoolAmount height s t - dueStake height s t
  have hbody : ∀ t rest s₁, inv (t :: rest) s₁ →
      Succeeds (store height) id (do
        let readyToUnbond ← wrap errGetReadyToUnstake (ask (Query.readyToUnstake t))
        readyToUnbond.forM (unbondActor t)) (fun _ => inv rest) s₁ := by
    intro t rest s₁ ⟨hnodup, hactors, hpools⟩
    rw [List.nodup_cons] at hnodup
    refine succeeds_bind (succeeds_wrap (succeeds_ask fun ready hready => ?_))
    have hlist : selectReadyToUnstake (s.actors t) height = ready := by
      rw [← hactors]
      exact Except.ok.inj hready
    refine succeeds_mono succeeds_forM_unbondActor fun _ s₂ hs₂ => ?_
    refine ⟨hnodup.2, hs₂.1.trans hactors, fun t' => ?_⟩
    have hbefore := hpools t'
    have hdue : (ready.map fun actor => numberIn actor.stakeAmount).sum = dueStake height s t := by
      rw [dueStake, hlist]
    rw [hs₂.2 t', hdue]
    by_cases ht : t' = t
    · rw [if_pos (ht ▸ List.mem_cons_self)] at hbefore
      rw [if_pos ht, if_neg (ht ▸ hnodup.1)]
      rw [ht] at hbefore ⊢
      omega
    · have hmem : t' ∈ t :: rest ↔ t' ∈ rest := by simp [ht]
      rw [if_congr hmem rfl rfl] at hbefore
      rw [if_neg ht]
      omega
  have hnodup : order.Nodup := hall.nodup_iff.2 (by decide)
  have hstart : inv order s := by
    refine ⟨hnodup, rfl, fun t => ?_⟩
    have hmem : t ∈ order := hall.mem_iff.2 (by cases t <;> decide)
    rw [if_pos hmem]
  refine succeeds_mono (succeeds_forM hbody hstart) fun _ s' hs' => ⟨hs'.2.1, fun t => ?_⟩
  have hend := hs'.2.2 t
  rw [if_neg List.not_mem_nil, sub_zero] at hend
  exact hend

theorem succeeds_beginUnstakingMaxPausedActors (hcurrent : s.ActorsUpTo height) :
    Succeeds (store height) id (beginUnstakingMaxPausedActors height order)
      (fun _ s' => s'.pools = s.pools ∧
        ∀ t address, stakeOf height s' t address = stakeOf height s t address) s := by
  let inv (_ : List ActorType) (s' : Database) : Prop := s'.ActorsUpTo height ∧
    s'.pools = s.pools ∧ ∀ t address, stakeOf height s' t address = stakeOf height s t address
  have hbody : ∀ t rest s₁, inv (t :: rest) s₁ →
      Succeeds (store height) id (do
        let maxPausedBlocks ← getMaxAllowedPausedBlocks t.toInt
        beginUnstakingActorsPausedBefore height (max 0 (int64 (height - maxPausedBlocks))) t)
        (fun _ => inv rest) s₁ := by
    intro t rest s₁ ⟨hcurrent₁, hpools₁, hstakes₁⟩
    refine succeeds_check (checks_getActorIntParam _ _) fun maxPaused _ => ?_
    refine succeeds_check (checks_getUnbondingHeight _) fun u _ => ?_
    refine succeeds_write ⟨actorsUpTo_unstakePausedBefore hcurrent₁, hpools₁,
      fun t' address => ?_⟩
    rw [← hstakes₁ t' address, stakeOf, stakeOf, weight, weight]
    refine Eq.trans (congrArg (fun row => (Option.map stake row).getD 0)
      (lookup_unstakePausedBefore hcurrent₁)) ?_
    rw [Option.map_map]
    congr 2
    funext row
    simp only [Function.comp_apply]
    split <;> rfl
  refine succeeds_mono (succeeds_forM hbody ⟨hcurrent, rfl, fun _ _ => rfl⟩) fun _ s' hs' => ?_
  exact hs'.2

theorem succeeds_endBlock {orders : MapOrders}
    (hall : orders.unbonding.Perm allActors) (hcurrent : db.ActorsUpTo height) :
    Succeeds (store height) id (endBlock height orders proposer)
      (fun _ db' => (∀ t, stakePoolAmount height db' t
          = stakePoolAmount height db t - dueStake height db t) ∧
        ∀ t address, stakeOf height db' t address = stakeOf height db t address) db := by
  refine succeeds_bind (succeeds_mono succeeds_handleProposerRewards fun _ s₁ hs₁ => ?_)
  refine succeeds_bind (succeeds_mono (succeeds_unbondUnstakingActors hall) fun _ s₂ hs₂ => ?_)
  have hactors : s₂.actors = db.actors := hs₂.1.trans hs₁.1
  have hcurrent₂ : s₂.ActorsUpTo height := fun t => hactors ▸ hcurrent t
  refine succeeds_mono (succeeds_beginUnstakingMaxPausedActors hcurrent₂) fun _ s₃ hs₃ => ⟨?_, ?_⟩
  · intro t
    have hdue : dueStake height s₁ t = dueStake height db t := by rw [dueStake, dueStake, hs₁.1]
    calc stakePoolAmount height s₃ t = stakePoolAmount height s₂ t := by
          rw [stakePoolAmount, stakePoolAmount, hs₃.1]
      _ = stakePoolAmount height s₁ t - dueStake height s₁ t := hs₂.2 t
      _ = stakePoolAmount height db t - dueStake height db t := by rw [hs₁.2 t, hdue]
  · intro t address
    rw [hs₃.2 t address, stakeOf, stakeOf, hactors]

theorem backed_endBlock_iff {orders : MapOrders} (hbacked : Backed height paid db)
    (hall : orders.unbonding.Perm allActors) (hcurrent : db.ActorsUpTo height)
    (h : (endBlock height orders proposer).run.exec (store height) id fails db = some (.ok (), db'))
    :
    Backed height (fun t => paid t ∪ dueActors height db t) db' ↔
      ∀ t, ∑ address ∈ dueActors height db t ∩ paid t, stakeOf height db t address = 0 := by
  obtain ⟨hpools, hstakes⟩ := succeeds_endBlock hall hcurrent _ _ _ h () rfl
  have hpool : ∀ t, stakePoolAmount height db' t
      = stakePoolAmount height db t + -dueStake height db t := by
    intro t
    rw [hpools t]
    omega
  have hunpaid : ∀ t, unpaidStake height (fun t => paid t ∪ dueActors height db t) db' t
      = unpaidStake height paid db t +
        -∑ address ∈ dueActors height db t \ paid t, stakeOf height db t address := by
    intro t
    have hsame : (db'.actors t).sumOutside stake height (paid t ∪ dueActors height db t)
        = (db.actors t).sumOutside stake height (paid t ∪ dueActors height db t) :=
      sumOutside_congr (hstakes t)
    rw [unpaidStake, hsame, sumOutside_union, unpaidStake]
    rfl
  rw [backed_iff_of_changes hbacked hpool hunpaid]
  refine forall_congr' fun t => ?_
  have hsplit := Finset.sum_inter_add_sum_sdiff (dueActors height db t) (paid t)
    (stakeOf height db t)
  rw [dueStake_eq_sum hcurrent]
  omega

/-! ## The operations on stakes -/

inductive StakeOperation
  | stake (message : MessageStake)
  | editStake (message : MessageEditStake)
  | burn (addr : Bytes)
  | endBlock (orders : MapOrders) (proposer : Bytes)

namespace StakeOperation

def program (P : Platform) (height : ℤ) : StakeOperation → Uow Unit
  | stake m => handleStakeMessage P m
  | editStake m => handleEditStakeMessage m
  | burn addr => burnValidator height addr
  | endBlock orders proposer => Utility.endBlock height orders proposer

/-- The loop over the kinds of actors visits each of them once. -/
def WellFormed : StakeOperation → Prop
  | endBlock orders _ => orders.unbonding.Perm allActors
  | _ => True

/-- Who has been paid after the operation. -/
def paidAfter (height : ℤ) (db : Database) (paid : ActorType → Finset String) :
    StakeOperation → ActorType → Finset String
  | endBlock _ _ => fun t => paid t ∪ dueActors height db t
  | _ => paid

/-- What decides whether the pools back the stakes after the operation. -/
def KeepsBacking (height : ℤ) (db : Database) (paid : ActorType → Finset String) :
    StakeOperation → Prop
  | stake m => ofInt m.actorType = some .app ∨ numberIn m.amount = 0
  | editStake m => ∀ t, ofInt m.actorType = some t →
      t = .app ∧ hexEncode m.address ∉ paid t ∨
        numberIn m.amount = stakeOf height db t (hexEncode m.address)
  | burn addr => hexEncode addr ∉ paid .val ∨
      ∀ percent, (getIntParam missedBlocksBurnPercentageParamName).run.peek (store height) db
        = some (.ok percent) → percentageOf (stakeOf height db .val (hexEncode addr)) percent ≤ 0
  | endBlock _ _ =>
      ∀ t, ∑ address ∈ dueActors height db t ∩ paid t, stakeOf height db t address = 0

end StakeOperation

/-- **Stake pools back the stakes.**  From a state in which they do, an operation that succeeds
leads to one in which they do exactly when it is one that keeps them backed. -/
theorem stakes_stay_backed_iff {op : StakeOperation} {fails : ℕ → Option String} {db db' : Database}
    {paid : ActorType → Finset String} (hop : op.WellFormed) (hcurrent : db.ActorsUpTo height)
    (hpaid : PaidExist height paid db) (hbacked : Backed height paid db)
    (hexec : (op.program P height).run.exec (store height) id fails db = some (.ok (), db')) :
    Backed height (op.paidAfter height db paid) db' ↔ op.KeepsBacking height db paid := by
  cases op with
  | stake m => exact backed_stake_iff hbacked hpaid hexec
  | editStake m => exact backed_editStake_iff hbacked hexec
  | burn addr => exact backed_burn_iff hbacked hexec
  | endBlock orders proposer => exact backed_endBlock_iff hbacked hop hcurrent hexec

/-! ## The first stake -/

/-- Two accounts, no actors, and parameters that let everybody stake. -/
def stakingDatabase : Database :=
  let db := ownerDatabase "0"
  { db with params := [(minimumStakeParamName .val, "0"), (minimumStakeParamName .app, "0"),
      (maxChainsParamName .app, "1")].foldl (fun params p => params.upsert p.1 1 p.2) db.params }

/-- The owner of the address `01` stakes 10 for an actor of the kind. -/
def stakeTen (actorType : ℤ) : MessageStake where
  actorType := actorType
  publicKey := List.replicate 32 1
  chains := []
  amount := "10"
  serviceUrl := ""
  outputAddress := [1]
  signer := [1]

def stakeTenPlatform : Platform := ownerPlatform (.stake (stakeTen 4))

theorem backed_stakingDatabase : Backed 1 (fun _ => ∅) stakingDatabase := fun _ => rfl

/-- A validator's stake ends in the pool of the applications. -/
theorem validator_stake_unbacked :
    Backed 1 (fun _ => ∅) stakingDatabase ∧
      ∃ db', ((StakeOperation.stake (stakeTen 4)).program stakeTenPlatform 1).run.exec (store 1) id
          (fun _ => none) stakingDatabase = some (.ok (), db') ∧
        stakePoolAmount 1 db' .app = 10 ∧ unpaidStake 1 (fun _ => ∅) db' .app = 0 ∧
        stakePoolAmount 1 db' .val = 0 ∧ unpaidStake 1 (fun _ => ∅) db' .val = 10 := by
  refine ⟨backed_stakingDatabase, _, rfl, ?_, ?_, ?_, ?_⟩ <;> decide +kernel

/-- An application's stake is backed. -/
theorem app_stake_backed :
    ∃ db', ((StakeOperation.stake (stakeTen 1)).program stakeTenPlatform 1).run.exec (store 1) id
        (fun _ => none) stakingDatabase = some (.ok (), db') ∧ Backed 1 (fun _ => ∅) db' := by
  have hop : (StakeOperation.stake (stakeTen 1)).WellFormed := trivial
  have hcurrent : stakingDatabase.ActorsUpTo 1 := fun _ _ hr => by cases hr
  have hpaid : PaidExist 1 (fun _ => ∅) stakingDatabase := fun _ _ hmem => by cases hmem
  have hexec : ((StakeOperation.stake (stakeTen 1)).program stakeTenPlatform 1).run.exec (store 1) id
      (fun _ => none) stakingDatabase = some (.ok (), _) := rfl
  exact ⟨_, hexec, (stakes_stay_backed_iff hop hcurrent hpaid backed_stakingDatabase hexec).2
    (.inl rfl)⟩

end Pocket.Utility
