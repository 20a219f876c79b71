import Pocket.Analysis.HeightWrites
import Pocket.Analysis.Percentages
import Pocket.Utility.Sessions

/-!
# One session for one window

A session is read at the height its window starts at, and the only thing that is read at the height that is
asked about is the number of blocks in a window.  So two heights of one window have the same session: the
same id, application and metadata, and the same servicers and fishermen up to the order in which Go goes
over a map (`session_constant`).  What is read at the start of the window is settled by then, because blocks that
are committed later write at their own heights (`sameAt_commits`).
-/

set_option autoImplicit false

namespace Pocket.Utility

/-! ## The block before -/

/-- Up to `2 ^ 53` the floats are exact. -/
theorem prevHashHeight_eq {start : ℤ} (h : start ≤ 2 ^ 53) : prevHashHeight start = max (start - 1) 0 := by
  have hle : start.toNat ≤ 2 ^ 53 := by omega
  rw [prevHashHeight, float64_eq_self hle, float64_eq_self (by omega), if_pos (by omega)]
  omega

end Pocket.Utility

namespace Pocket.Persistence.PostgresContext

open Utility (ActorType ChainRow Update prevHashHeight selectLatest)
open VersionedTable

variable {ctx ctx' : PostgresContext} {start : ℤ}

/-- The two contexts see the same at the height `start`: the same rows at that height and below, and the same
hash of the block before. -/
structure SameAt (start : ℤ) (ctx ctx' : PostgresContext) : Prop where
  params : ctx.db.params.SameUpTo start ctx'.db.params
  actors : ∀ t, (ctx.db.actors t).SameUpTo start (ctx'.db.actors t)
  chains : ∀ t, (ctx'.db.chains t).filter (fun row => row.height ≤ start)
    = (ctx.db.chains t).filter fun row => row.height ≤ start
  previous : ctx'.blocks (prevHashHeight start) = ctx.blocks (prevHashHeight start)

/-! ## What is read -/

namespace SameAt

section

variable (h : ctx.SameAt start ctx')
include h

theorem getIntParam_eq (paramName : String) :
    ctx'.getIntParam paramName start = ctx.getIntParam paramName start := by
  rw [getIntParam, getIntParam, selectLatest, selectLatest, Table.lookup, Table.lookup,
    h.params.latest_eq le_rfl]

theorem getBlockHash_eq :
    ctx'.getBlockHash (prevHashHeight start) = ctx.getBlockHash (prevHashHeight start) := by
  rw [getBlockHash, getBlockHash, h.previous]

theorem selectChains_eq {height : ℤ} (hle : height ≤ start) (t : ActorType) (address : String) :
    ctx'.selectChains t address height = ctx.selectChains t address height := by
  rw [selectChains, selectChains, (h.actors t).latest_eq hle]
  cases hlatest : (ctx.db.actors t).latest address height with
  | none => rfl
  | some row =>
    have hrow : row.height ≤ start := (Table.latest_eq_some_iff.1 hlatest).2.2.1.trans hle
    have hbelow : ∀ chains : List ChainRow,
        chains.filter (fun chain => chain.address = address ∧ chain.height = row.height)
          = (chains.filter fun chain => chain.height ≤ start).filter
              fun chain => chain.address = address ∧ chain.height = row.height := by
      intro chains
      rw [List.filter_filter]
      refine List.filter_congr fun chain _ => ?_
      by_cases hheight : chain.height = row.height
      · simp [hheight, hrow]
      · simp [hheight]
    simp only
    rw [hbelow (ctx'.db.chains t), h.chains t, ← hbelow]

theorem getChainsForActor_eq {height : ℤ} (hle : height ≤ start) (actor : ActorMessage) :
    ctx'.getChainsForActor actor height = ctx.getChainsForActor actor height := by
  rw [getChainsForActor, getChainsForActor, h.selectChains_eq hle]

theorem getActor_eq (t : ActorType) (address : Model.Bytes) :
    ctx'.getActor t address start = ctx.getActor t address start := by
  rw [getActor, getActor, (h.actors t).latest_eq le_rfl]
  cases hlatest : (ctx.db.actors t).latest (Text.hexEncode address) start with
  | none => rfl
  | some row =>
    have hrow : row.height ≤ start := (Table.latest_eq_some_iff.1 hlatest).2.2.1
    exact congrArg Except.ok (h.getChainsForActor_eq hrow _)

/-- Whichever row comes last, its height is not above the one that was asked for. -/
theorem getAllActors_eq (C : Collation String) (t : ActorType) :
    ctx'.getAllActors C t start = ctx.getAllActors C t start := by
  rw [getAllActors, getAllActors, (h.actors t).distinctOn_eq C]
  have hlast : ((((ctx.db.actors t).distinctOn C start).getLast?.map Row.height).getD start)
      ≤ start := by
    cases hrow : ((ctx.db.actors t).distinctOn C start).getLast? with
    | none => exact le_rfl
    | some row => exact Table.height_le_of_mem_distinctOn (List.mem_of_getLast? hrow)
  exact List.map_congr_left fun row _ => h.getChainsForActor_eq hlast _

end

theorem refl (ctx : PostgresContext) : ctx.SameAt start ctx :=
  ⟨fun _ _ => Iff.rfl, fun _ _ _ => Iff.rfl, fun _ => rfl, rfl⟩

theorem trans {ctx'' : PostgresContext} (h : ctx.SameAt start ctx') (h' : ctx'.SameAt start ctx'') :
    ctx.SameAt start ctx'' where
  params := fun r hr => (h'.params r hr).trans (h.params r hr)
  actors := fun t r hr => (h'.actors t r hr).trans (h.actors t r hr)
  chains := fun t => (h'.chains t).trans (h.chains t)
  previous := h'.previous.trans h.previous

end SameAt

/-! ## What is committed later -/

/-- A block as its commit leaves it in the tables: its updates and its hash, at its height. -/
structure CommittedBlock where
  height : ℤ
  updates : List Update
  hash : String

/-- SOURCE: persistence/context.go:62-93, block.go:109-119 -/
def commit (ctx : PostgresContext) (block : CommittedBlock) : PostgresContext where
  db := block.updates.foldl (Utility.apply block.height) ctx.db
  blocks := Function.update ctx.blocks block.height (some block.hash)

theorem blocks_commit (ctx : PostgresContext) (block : CommittedBlock) :
    (ctx.commit block).blocks = Function.update ctx.blocks block.height (some block.hash) := rfl

theorem sameAt_commit {block : CommittedBlock} (hstart : 0 ≤ start) (hexact : start ≤ 2 ^ 53)
    (hlt : start < block.height) (ctx : PostgresContext) :
    ctx.SameAt start (ctx.commit block) := by
  have hwritten : ctx.db.WrittenAt (fun _ => True) (fun _ => True) block.height
      (ctx.commit block).db :=
    Utility.writtenAt_foldl (fun w _ => by cases w <;> trivial) ctx.db
  refine ⟨hwritten.params.sameUpTo hlt, fun t => (hwritten.actors t).sameUpTo hlt, fun t => ?_, ?_⟩
  · have hbelow : ∀ chains : List ChainRow, chains.filter (fun row => row.height ≤ start)
        = (chains.filter fun row => row.height ≠ block.height).filter
            fun row => row.height ≤ start := by
      intro chains
      rw [List.filter_filter]
      refine List.filter_congr fun row _ => ?_
      by_cases hrow : row.height ≤ start
      · simp [hrow, (hrow.trans_lt hlt).ne]
      · simp [hrow]
    rw [hbelow ((ctx.commit block).db.chains t), hwritten.chains t, ← hbelow]
  · have hne : prevHashHeight start ≠ block.height := by
      rw [Utility.prevHashHeight_eq hexact]
      omega
    rw [blocks_commit, Function.update_of_ne hne]

/-- Blocks above a height leave all that is seen at it. -/
theorem sameAt_commits {blocks : List CommittedBlock} (hstart : 0 ≤ start) (hexact : start ≤ 2 ^ 53)
    (hlt : ∀ block ∈ blocks, start < block.height) (ctx : PostgresContext) :
    ctx.SameAt start (blocks.foldl commit ctx) := by
  induction blocks generalizing ctx with
  | nil => exact .refl ctx
  | cons block blocks ih =>
    rw [List.forall_mem_cons] at hlt
    exact (sameAt_commit hstart hexact hlt.1 ctx).trans (ih hlt.2 _)

end Pocket.Persistence.PostgresContext

namespace Pocket.Utility

open Model (Bytes int64)
open Persistence (ActorMessage PostgresContext)
open AlikeRuns (Alike Computation alike_mapM_of_perm)
open StoreProgram StoreProgram.Prog
open Text (hexEncode)

variable {H : SessionHost} {ctx ctx' : PostgresContext} {start : ℤ} {s s' : Session}

/-! ## The draw -/

/-- The indices are drawn in one order and gone through in another. -/
theorem alike_pseudoRandomSelection (order order' : MapOrder) (rounds : ℕ)
    (candidates : List ActorMessage) (numTarget : ℤ) (sessionId : Bytes) :
    Alike (fun l l' => l'.Perm l)
      (AlikeRuns.total (pseudoRandomSelection H order rounds candidates numTarget sessionId) :
        Computation String (List ActorMessage))
      (AlikeRuns.total (pseudoRandomSelection H order' rounds candidates numTarget sessionId)) := by
  unfold pseudoRandomSelection
  split
  · exact .ok (.refl _)
  · cases uniqueRandomIndices H rounds (seedOf H sessionId) candidates.length numTarget with
    | none => exact .diverge
    | some indices =>
      have hperm : (order.keys indices).Perm (order'.keys indices) :=
        (order.perm indices).trans (order'.perm indices).symm
      exact alike_mapM_of_perm (fun idx => candidates[idx]?) hperm

/-! ## The steps -/

/-- The same session, with its servicers and fishermen in another order. -/
structure Session.SameUpToOrder (s s' : Session) : Prop where
  id : s'.id = s.id
  sessionHeight : s'.sessionHeight = s.sessionHeight
  sessionNumber : s'.sessionNumber = s.sessionNumber
  numSessionBlocks : s'.numSessionBlocks = s.numSessionBlocks
  relayChain : s'.relayChain = s.relayChain
  geoZone : s'.geoZone = s.geoZone
  application : s'.application = s.application
  servicers : s'.servicers.Perm s.servicers
  fishermen : s'.fishermen.Perm s.fishermen

theorem Session.SameUpToOrder.refl (s : Session) : s.SameUpToOrder s :=
  ⟨rfl, rfl, rfl, rfl, rfl, rfl, rfl, .refl _, .refl _⟩

section

variable (hsame : ctx.SameAt start ctx')
include hsame

theorem alike_hydrateSessionApplication (appAddr : String) (hs : s.sessionHeight = start) :
    Alike (fun a b => a = b ∧ a.sessionHeight = start) (hydrateSessionApplication ctx appAddr s)
      (hydrateSessionApplication ctx' appAddr s) := by
  unfold hydrateSessionApplication
  refine Alike.bind_same _ fun addr => ?_
  rw [hs, hsame.getActor_eq]
  exact Alike.bind_same _ fun application => .ok ⟨rfl, rfl⟩

theorem alike_hydrateSessionID (hs : s.sessionHeight = start) :
    Alike (fun a b => a = b ∧ a.1.sessionHeight = start) (hydrateSessionID H ctx s)
      (hydrateSessionID H ctx' s) := by
  unfold hydrateSessionID prevHashBytes
  rw [hs, hsame.getBlockHash_eq]
  refine Alike.bind_same _ fun prevHashBz => ?_
  cases s.application with
  | none => exact .diverge
  | some app => exact .ok ⟨rfl, rfl⟩

theorem alike_selectActors (order order' : MapOrder) (rounds : ℕ) (paramName complaint : String)
    {getAll getAll' : ℤ → List ActorMessage} (hall : getAll' start = getAll start)
    (sessionIdBz : Bytes) (hheight : s.sessionHeight = start) (hs : s.SameUpToOrder s') :
    Alike (fun l l' => l'.Perm l)
      (selectActors H order rounds ctx paramName complaint getAll s sessionIdBz)
      (selectActors H order' rounds ctx' paramName complaint getAll' s' sessionIdBz) := by
  unfold selectActors
  rw [hs.sessionHeight, hs.relayChain, hheight, hall, hsame.getIntParam_eq]
  refine Alike.bind_same _ fun numTarget => Alike.bind_same _ fun candidates => ?_
  exact alike_pseudoRandomSelection order order' rounds candidates numTarget sessionIdBz

theorem alike_hydrateSessionServicers (order order' : MapOrder) (rounds : ℕ) (sessionIdBz : Bytes)
    (hheight : s.sessionHeight = start) (hs : s.SameUpToOrder s') :
    Alike (fun a b => a.SameUpToOrder b ∧ a.sessionHeight = start)
      (hydrateSessionServicers H order rounds ctx sessionIdBz s)
      (hydrateSessionServicers H order' rounds ctx' sessionIdBz s') := by
  have hall := hsame.getAllActors_eq H.collation .servicer
  refine (alike_selectActors hsame order order' rounds _ _ hall sessionIdBz hheight hs).bind ?_
  exact fun servicers servicers' hperm => .ok ⟨{ hs with servicers := hperm }, hheight⟩

theorem alike_hydrateSessionFishermen (order order' : MapOrder) (rounds : ℕ) (sessionIdBz : Bytes)
    (hheight : s.sessionHeight = start) (hs : s.SameUpToOrder s') :
    Alike Session.SameUpToOrder (hydrateSessionFishermen H order rounds ctx sessionIdBz s)
      (hydrateSessionFishermen H order' rounds ctx' sessionIdBz s') := by
  have hall := hsame.getAllActors_eq H.collation .fish
  refine (alike_selectActors hsame order order' rounds _ _ hall sessionIdBz hheight hs).bind ?_
  exact fun fishermen fishermen' hperm => .ok { hs with fishermen := hperm }

end

/-! ## The window -/

/-- The metadata of every height of a window are those of the window. -/
theorem peek_hydrateSessionMetadata {height b : ℤ} (hb : 0 < b)
    (hblocks : ctx.getIntParam blocksPerSessionParamName height = .ok b) :
    (hydrateSessionMetadata height).run.peek (store height) ctx.db
      = some (.ok ⟨b, int64 (height.tdiv b), b * height.tdiv b⟩) := by
  have hstart : height - height.tmod b = b * height.tdiv b := by
    have := Int.mul_tdiv_add_tmod height b
    omega
  obtain ⟨value, hvalue, hnumber⟩ : ∃ value,
      selectLatest ctx.db.params id blocksPerSessionParamName height = .ok value
        ∧ atoi value = .ok b := by
    rw [PostgresContext.getIntParam] at hblocks
    cases hvalue : selectLatest ctx.db.params id blocksPerSessionParamName height with
    | error e =>
      rw [hvalue] at hblocks
      cases hblocks
    | ok value =>
      rw [hvalue] at hblocks
      exact ⟨value, rfl, hblocks⟩
  refine peek_bind_eq_ok.2 ⟨value, congrArg some hvalue, ?_⟩
  refine peek_bind_eq_ok.2 ⟨b, congrArg some hnumber, ?_⟩
  rw [if_neg hb.ne', ← hstart]
  rfl

/-- **A session is constant over its window.**  Two heights of one window, asked about in two contexts that see
the same at the start of the window, have the same session up to the order of its servicers and fishermen, or
the same error, or neither answer comes. -/
theorem session_constant (H : SessionHost) (orders orders' : SessionOrders) (rounds : ℕ)
    (ctx ctx' : PostgresContext) (appAddr relayChain geoZone : String) {height height' b : ℤ}
    (hb : 0 < b) (hblocks : ctx.getIntParam blocksPerSessionParamName height = .ok b)
    (hblocks' : ctx'.getIntParam blocksPerSessionParamName height' = .ok b)
    (hwindow : height.tdiv b = height'.tdiv b) (hsame : ctx.SameAt (b * height.tdiv b) ctx') :
    Alike Session.SameUpToOrder
      (getSession H orders rounds ctx appAddr height relayChain geoZone)
      (getSession H orders' rounds ctx' appAddr height' relayChain geoZone) := by
  unfold getSession
  rw [peek_hydrateSessionMetadata hb hblocks, peek_hydrateSessionMetadata hb hblocks', ← hwindow]
  have hmetadata : ∀ metadata : SessionMetadata,
      Alike (fun a b => a = b ∧ a = metadata)
        (failedTo "hydrate session metadata" (some (.ok metadata)))
        (failedTo "hydrate session metadata" (some (.ok metadata))) :=
    fun metadata => .ok ⟨rfl, rfl⟩
  refine (hmetadata _).bind ?_
  rintro metadata _ ⟨rfl, rfl⟩
  refine ((alike_hydrateSessionApplication hsame appAddr rfl).wrap _).bind ?_
  rintro s _ ⟨rfl, hs⟩
  refine Alike.bind_same _ fun _ => ?_
  refine ((alike_hydrateSessionID hsame hs).wrap _).bind ?_
  rintro ⟨s, sessionIdBz⟩ _ ⟨rfl, hs⟩
  refine ((alike_hydrateSessionServicers hsame orders.servicers orders'.servicers rounds sessionIdBz hs
    (.refl s)).wrap _).bind ?_
  rintro s s' ⟨hsession, hs⟩
  exact (alike_hydrateSessionFishermen hsame orders.fishermen orders'.fishermen rounds sessionIdBz hs
    hsession).wrap _

/-! ## A servicer that is paused -/

/-- An application, a servicer and a fisherman for the chain `0001`, and sessions of four blocks. -/
def sessionContext : PostgresContext where
  db :=
    { accounts := .empty
      pools := .empty
      params := [(blocksPerSessionParamName, "4"), (servicersPerSessionParamName, "2"),
        (fishermanPerSessionParamName, "2")].foldl (fun params p => params.upsert p.1 0 p.2) .empty
      actors := fun t => VersionedTable.Table.empty.upsert (hexEncode [t.toInt.toNat.toUInt8]) 1
        { publicKey := "01", stakedTokens := "10", serviceUrl := "", outputAddress := "02"
          pausedHeight := -1, unstakingHeight := -1 }
      chains := fun t => [⟨hexEncode [t.toInt.toNat.toUInt8], "0001", 1⟩] }
  blocks := fun height => if height = 3 then some "ab" else none

/-- The servicer is paused, and then the fisherman. -/
def pausingBlocks : List PostgresContext.CommittedBlock :=
  [⟨5, [.setPausedHeight .servicer "02" 5], "cd"⟩, ⟨6, [.setPausedHeight .fish "03" 6], "ef"⟩]

/-- The hash of what the id of the session is made of. -/
def sessionDigest : Bytes :=
  [243, 72, 78, 107, 43, 106, 141, 99, 73, 129, 108, 59, 23, 109, 105, 102, 160, 125, 109, 250,
    237, 119, 130, 223, 249, 183, 165, 98, 210, 249, 92, 53]

def sessionHost : SessionHost where
  sha3 := fun _ => sessionDigest
  collation := ⟨fun a b => decide (a ≤ b), fun a b c => by simpa using String.le_trans,
    fun a b => by simpa using String.le_total a b, fun a b => by simpa using String.le_antisymm⟩
  int63 := fun _ _ => 0

def storedOrder : MapOrder := ⟨id, fun l => .refl l⟩

def reversedOrder : MapOrder := ⟨List.reverse, fun l => l.reverse_perm⟩

/-- The session at the height 4 is still the session at the height 6. -/
theorem session_constant_through_pauses :
    let ctx' := pausingBlocks.foldl PostgresContext.commit sessionContext
    (∃ session, getSession sessionHost ⟨storedOrder, storedOrder⟩ 0 sessionContext "01" 4 "0001" "eu"
        = some (.ok session))
      ∧ Alike Session.SameUpToOrder
        (getSession sessionHost ⟨storedOrder, storedOrder⟩ 0 sessionContext "01" 4 "0001" "eu")
        (getSession sessionHost ⟨reversedOrder, reversedOrder⟩ 0 ctx' "01" 6 "0001" "eu") := by
  intro ctx'
  have hsame : sessionContext.SameAt (4 * Int.tdiv 4 4) ctx' :=
    PostgresContext.sameAt_commits (by decide) (by decide) (by decide) sessionContext
  exact ⟨⟨_, rfl⟩, session_constant sessionHost _ _ 0 sessionContext ctx' "01" "0001" "eu" (by decide)
    (by decide) (by decide) (by decide) hsame⟩

end Pocket.Utility
