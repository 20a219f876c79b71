import Pocket.Analysis.BulkReads

/-!
# Updates that name some columns

`SetActorPauseHeight`, `SetActorUnstakingHeightAndStatus`, `setActorStakeAmount`,
`SetActorStatusAndUnstakingHeightIfPausedBefore`, and `UpdateActor` without chains, copy the newest row of an
actor to the height of the context with some columns changed.  The columns that are not named are
copied.  The chains are not: they are in a table of their own, each at the height it was written at, and are
looked up at the height of the newest row.  So they are kept exactly when the newest row is already at that
height, or when the chains that have been written at it happen to be the same
(`partial_update_keeps_iff`).
-/

set_option autoImplicit false

namespace Pocket.Persistence

open Model (Bytes)
open Utility (ActorRow ActorType ChainRow Database)
open VersionedTable
open Text (hexEncode)

def ActorMessage.withChains (actor : ActorMessage) (chains : List String) : ActorMessage :=
  { actor with chains }

theorem ActorMessage.sameUpToOrder_withChains {actor : ActorMessage} {chains chains' : List String} :
    (actor.withChains chains').SameUpToOrder (actor.withChains chains) ↔
      ∀ chain, chain ∈ chains' ↔ chain ∈ chains :=
  ⟨fun hsame => hsame.chains, fun hchains => ⟨rfl, hchains⟩⟩

namespace Writer

/-- The calls that change some columns of the actor and are given no chains. -/
def PartialFor (t : ActorType) (address : Bytes) : Writer → Prop
  | setActorPauseHeight t' address' _ => t' = t ∧ address' = address
  | setActorUnstakingHeightAndStatus t' address' _ => t' = t ∧ address' = address
  | setActorStakeAmount t' address' _ => t' = t ∧ address' = address
  | setActorStatusAndUnstakingHeightIfPausedBefore t' _ _ => t' = t
  | updateActor t' address' _ _ chains => t' = t ∧ address' = address ∧ chains = []
  | _ => False

/-- Only one of them looks at the actor first. -/
def Touches : Writer → ActorMessage → Prop
  | setActorStatusAndUnstakingHeightIfPausedBefore _ pausedBeforeHeight _, actor =>
    0 ≤ actor.pausedHeight ∧ actor.pausedHeight < pausedBeforeHeight
  | _, _ => True

/-- The actor with the fields that the call names as the call gives them. -/
def withNamed : Writer → ActorMessage → ActorMessage
  | setActorPauseHeight _ _ pauseHeight, actor => { actor with pausedHeight := pauseHeight }
  | setActorUnstakingHeightAndStatus _ _ unstakingHeight, actor => { actor with unstakingHeight }
  | setActorStakeAmount _ _ stakeAmount, actor => { actor with stakedAmount := stakeAmount }
  | setActorStatusAndUnstakingHeightIfPausedBefore _ pausedBeforeHeight unstakingHeight, actor =>
    if 0 ≤ actor.pausedHeight ∧ actor.pausedHeight < pausedBeforeHeight then
      { actor with unstakingHeight }
    else actor
  | updateActor _ _ stakedAmount serviceUrl _, actor => { actor with stakedAmount, serviceUrl }
  | _, actor => actor

end Writer

namespace PostgresContext

/-- The context after the call, which is made at the height. -/
def call (ctx : PostgresContext) (height : ℤ) (w : Writer) : PostgresContext :=
  { ctx with db := w.apply height ctx.db }

/-- After the call the actor is read with the fields that the call names as it gives them, and with
everything else, the chains as a set, as before. -/
def KeepsRest (ctx : PostgresContext) (height : ℤ) (w : Writer) (t : ActorType) (address : Bytes)
    (actor : ActorMessage) : Prop :=
  ∃ actor', (ctx.call height w).getActor t address height = .ok actor'
    ∧ actor'.SameUpToOrder (w.withNamed actor)

/-! ## The rows after a call -/

section Rows

variable {db : Database} {t : ActorType} {address : String} {row : Row String ℤ ActorRow} {height : ℤ}

/-- The copy is at the height of the context. -/
theorem latest_updateRow (hrow : (db.actors t).latest address height = some row)
    (change : ActorRow → ActorRow) :
    ((db.updateRow height t address change).actors t).latest address height
      = some ⟨address, height, change row.value⟩ := by
  have hlookup : (db.actors t).lookup address height = some row.value := by
    rw [Table.lookup, hrow, Option.map_some]
  rw [Database.updateRow, hlookup]
  simp only [Utility.actors_setActors_self, Table.latest_upsert_self]

theorem chains_updateRow (change : ActorRow → ActorRow) :
    (db.updateRow height t address change).chains = db.chains := by
  rw [Database.updateRow]
  split <;> rfl

end Rows

variable {ctx : PostgresContext} {t : ActorType} {address : Bytes} {w : Writer}
  {row : Row String ℤ ActorRow} {h h' : ℤ}

/-- The row that is read after the call: a copy at the height with the fields that the call names, or the row
before if the call passes the actor over. -/
structure CopiedRow (w : Writer) (t : ActorType) (height : ℤ) (row row' : Row String ℤ ActorRow) :
    Prop where
  named : getActorFromRow t row' = w.withNamed (getActorFromRow t row)
  touched : w.Touches (getActorFromRow t row) → row'.height = height
  passed : ¬ w.Touches (getActorFromRow t row) → row' = row

theorem exists_latest_call (hdb : ctx.db.ActorsUpTo h') (hw : w.PartialFor t address)
    (hrow : (ctx.db.actors t).latest (hexEncode address) h' = some row) :
    ∃ row', ((ctx.call h' w).db.actors t).latest (hexEncode address) h' = some row'
      ∧ CopiedRow w t h' row row' := by
  have hkey := Table.key_of_latest hrow
  cases w with
  | accountAmount | poolAmount | setParam | insertActor => exact hw.elim
  | updateActor t' address' stakedAmount serviceUrl chains =>
    obtain ⟨rfl, rfl, rfl⟩ := hw
    have hafter : ((ctx.call h' (.updateActor t' address' stakedAmount serviceUrl [])).db.actors
        t').latest (hexEncode address') h' = some ⟨hexEncode address', h',
          { row.value with stakedTokens := stakedAmount, serviceUrl }⟩ := by
      rw [call, Writer.apply, Writer.updates, if_pos (.inr rfl)]
      exact latest_updateRow hrow _
    exact ⟨_, hafter, by rw [← hkey]; rfl, fun _ => rfl, fun hnot => absurd trivial hnot⟩
  | setActorPauseHeight t' address' pauseHeight
  | setActorUnstakingHeightAndStatus t' address' unstakingHeight
  | setActorStakeAmount t' address' stakeAmount =>
    obtain ⟨rfl, rfl⟩ := hw
    exact ⟨_, latest_updateRow hrow _, by rw [← hkey]; rfl, fun _ => rfl,
      fun hnot => absurd trivial hnot⟩
  | setActorStatusAndUnstakingHeightIfPausedBefore t' pausedBeforeHeight unstakingHeight =>
    obtain rfl := hw
    have hafter := @Utility.latest_unstakePausedBefore h' unstakingHeight ctx.db t' t'
      (hexEncode address) pausedBeforeHeight hdb
    rw [hrow, Option.map_some] at hafter
    refine ⟨_, hafter, ?_⟩
    by_cases hpaused : 0 ≤ row.value.pausedHeight ∧ row.value.pausedHeight < pausedBeforeHeight
    · have hbefore : row.value.pausedBefore pausedBeforeHeight = true := by
        simpa [ActorRow.pausedBefore] using hpaused
      rw [if_pos ⟨rfl, hbefore⟩]
      refine ⟨?_, fun _ => rfl, fun hnot => absurd hpaused hnot⟩
      rw [← hkey]
      exact (if_pos hpaused).symm
    · have hnot : ¬ (t' = t' ∧ row.value.pausedBefore pausedBeforeHeight = true) := by
        simpa [ActorRow.pausedBefore] using hpaused
      rw [if_neg hnot]
      exact ⟨(if_neg hpaused).symm, fun htouches => absurd htouches hpaused, fun _ => rfl⟩

theorem chains_call (hw : w.PartialFor t address) : (ctx.call h' w).db.chains = ctx.db.chains := by
  cases w with
  | accountAmount | poolAmount | setParam | insertActor => exact hw.elim
  | updateActor t' address' stakedAmount serviceUrl chains =>
    obtain ⟨-, -, rfl⟩ := hw
    rw [call, Writer.apply, Writer.updates, if_pos (.inr rfl)]
    exact chains_updateRow _
  | setActorPauseHeight | setActorUnstakingHeightAndStatus | setActorStakeAmount =>
    exact chains_updateRow _
  | setActorStatusAndUnstakingHeightIfPausedBefore => rfl

/-! ## The chains -/

theorem mem_selectChains {address : String}
    (hrow : (ctx.db.actors t).latest address h = some row) {chain : String} :
    chain ∈ ctx.selectChains t address h ↔ ⟨address, chain, row.height⟩ ∈ ctx.db.chains t := by
  rw [selectChains, hrow]
  simp only [List.mem_map, List.mem_filter, decide_eq_true_eq]
  constructor
  · rintro ⟨⟨_, _, _⟩, ⟨hmem, rfl, rfl⟩, rfl⟩
    exact hmem
  · intro hmem
    exact ⟨_, ⟨hmem, rfl, rfl⟩, rfl⟩

/-- No call names the chains. -/
theorem withNamed_withChains (w : Writer) (actor : ActorMessage) (chains : List String) :
    w.withNamed (actor.withChains chains) = (w.withNamed actor).withChains chains := by
  cases w with
  | setActorStatusAndUnstakingHeightIfPausedBefore t pausedBeforeHeight unstakingHeight =>
    by_cases hpaused : 0 ≤ actor.pausedHeight ∧ actor.pausedHeight < pausedBeforeHeight
    · simp [Writer.withNamed, ActorMessage.withChains, hpaused]
    · simp [Writer.withNamed, ActorMessage.withChains, hpaused]
  | _ => rfl

/-- No call looks at the chains. -/
theorem touches_withChains (w : Writer) (actor : ActorMessage) (chains : List String) :
    w.Touches (actor.withChains chains) ↔ w.Touches actor := by
  cases w <;> exact Iff.rfl

/-- **Updates of some columns.**  For every state with no actor rows above `h'`, and every actor of a kind that
has chains, read at `h` with a row that is still its newest at `h'`: a call that names some columns, in a
context at `h'`, keeps the chains and all other columns if and only if it passes the actor over, or
the row is already at `h'`, or the chains written at `h'` are those the actor has. -/
theorem partial_update_keeps_iff {actor : ActorMessage} (hdb : ctx.db.ActorsUpTo h') (ht : t ≠ .val)
    (hw : w.PartialFor t address)
    (hrow : (ctx.db.actors t).latest (hexEncode address) h' = some row) (hread : row.height ≤ h)
    (hle : h ≤ h') (hactor : ctx.getActor t address h = .ok actor) :
    ctx.KeepsRest h' w t address actor ↔
      ¬ w.Touches actor ∨ row.height = h'
        ∨ ∀ chain, ⟨hexEncode address, chain, h'⟩ ∈ ctx.db.chains t ↔ chain ∈ actor.chains := by
  have hrow' : (ctx.db.actors t).latest (hexEncode address) h = some row := by
    obtain ⟨hmem, hkey, -, hmax⟩ := Table.latest_eq_some_iff.1 hrow
    exact Table.latest_eq_some_iff.2
      ⟨hmem, hkey, hread, fun r hr hkey hr' => hmax r hr hkey (hr'.trans hle)⟩
  obtain rfl : (getActorFromRow t row).withChains (ctx.selectChains t (hexEncode address) h) = actor :=
    Except.ok.inj ((getActor_of_latest ht hrow').symm.trans hactor)
  obtain ⟨copied, hcopied, hcopy⟩ := exists_latest_call hdb hw hrow
  have hafter : (ctx.call h' w).getActor t address h' = .ok ((getActorFromRow t copied).withChains
      ((ctx.call h' w).selectChains t (hexEncode address) h')) := getActor_of_latest ht hcopied
  -- the chains are those written at the height of the copy
  have hkeeps : ctx.KeepsRest h' w t address
        ((getActorFromRow t row).withChains (ctx.selectChains t (hexEncode address) h)) ↔
      ∀ chain, (⟨hexEncode address, chain, copied.height⟩ : ChainRow) ∈ ctx.db.chains t ↔
        chain ∈ ctx.selectChains t (hexEncode address) h := by
    have hchains : ∀ chain, chain ∈ (ctx.call h' w).selectChains t (hexEncode address) h' ↔
        ⟨hexEncode address, chain, copied.height⟩ ∈ ctx.db.chains t := by
      intro chain
      rw [mem_selectChains hcopied, chains_call hw]
    rw [KeepsRest, hafter, hcopy.named, withNamed_withChains]
    simp only [Except.ok.injEq, exists_eq_left', ActorMessage.sameUpToOrder_withChains, hchains]
  rw [hkeeps, touches_withChains]
  by_cases htouches : w.Touches (getActorFromRow t row)
  · rw [hcopy.touched htouches]
    constructor
    · exact fun hsame => .inr (.inr hsame)
    · rintro (hnot | hheight | hsame)
      · exact absurd htouches hnot
      · intro chain
        rw [mem_selectChains hrow', hheight]
      · exact hsame
  · rw [hcopy.passed htouches]
    exact iff_of_true (fun chain => (mem_selectChains hrow').symm) (.inl htouches)

/-- A servicer for the chain `0001`, staked at the height 1. -/
def stakedServicer : PostgresContext :=
  afterCalls [(1, .insertActor .servicer [1] [11] [21] "10" "https://one" ["0001"] (-1) (-1))]

/-- A pause at the height at which the servicer staked. -/
theorem partial_update_keeps_same_height :
    ∃ actor, stakedServicer.getActor .servicer [1] 1 = .ok actor
      ∧ stakedServicer.KeepsRest 1 (.setActorPauseHeight .servicer [1] 1) .servicer [1] actor := by
  have hdb : stakedServicer.db.ActorsUpTo 1 := by
    intro t
    unfold Table.UpTo
    cases t <;> decide +kernel
  have hw : (Writer.setActorPauseHeight .servicer [1] 1).PartialFor .servicer [1] := ⟨rfl, rfl⟩
  have hrow : (stakedServicer.db.actors .servicer).latest (hexEncode [1]) 1 = some ⟨"01", 1, _⟩ := rfl
  exact ⟨_, rfl, (partial_update_keeps_iff hdb (by decide) hw hrow le_rfl le_rfl rfl).2
    (.inr (.inl rfl))⟩

/-- The servicer is paused at the height 2 and has no chains then. -/
theorem pause_loses_chains :
    ∃ actor, stakedServicer.getActor .servicer [1] 1 = .ok actor ∧ actor.chains = ["0001"]
      ∧ ((stakedServicer.call 2 (.setActorPauseHeight .servicer [1] 2)).getActor .servicer [1] 2).map
        ActorMessage.chains = .ok []
      ∧ ¬ stakedServicer.KeepsRest 2 (.setActorPauseHeight .servicer [1] 2) .servicer [1] actor := by
  have hafter : ((stakedServicer.call 2 (.setActorPauseHeight .servicer [1] 2)).getActor .servicer [1]
      2).map ActorMessage.chains = .ok [] := by decide +kernel
  refine ⟨_, rfl, rfl, hafter, ?_⟩
  rintro ⟨actor', hactor', hsame⟩
  rw [hactor'] at hafter
  have hmem : "0001" ∈ actor'.chains := (hsame.chains "0001").2 (by decide +kernel)
  rw [Except.ok.inj hafter] at hmem
  exact List.not_mem_nil hmem

end PostgresContext

end Pocket.Persistence
