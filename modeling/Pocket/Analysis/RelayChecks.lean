import Pocket.Analysis.PartialUpdates
import Pocket.Analysis.SessionPreimage
import Pocket.Utility.Servicer

/-!
# What a servicer accepts

The session of a height covers `NumSessionBlocks` blocks from `SessionHeight` on.  `validateRelayBlockHeight`
computes its last block by adding `SessionHeight`, not the number of blocks, so in the first session it
accepts the block 0 only, and in every later one it goes on accepting blocks after the session
(`relay_window_iff`).

The servicer looks itself up under the bytes of the text of its address, which are hex-encoded once more.  It
finds what another servicer stored, or nothing (`recognises_chains_iff`).
-/

set_option autoImplicit false

namespace Pocket.Utility

open Model (Bytes int64 int64_eq_self)
open Persistence (ActorMessage PostgresContext Writer)
open VersionedTable
open Text (hexEncode)

/-! ## The block of a relay -/

variable {readCtx : PostgresContext} {relayMeta : RelayMeta} {relayChain : String} {s : Servicer}

theorem validateRelayBlockHeight_eq_ok {session : Session} :
    validateRelayBlockHeight relayMeta session = .ok () ↔
      int64 (session.sessionNumber * session.numSessionBlocks) ≤ relayMeta.blockHeight
        ∧ relayMeta.blockHeight
          ≤ int64 (int64 (session.sessionNumber * session.numSessionBlocks)
            + session.sessionHeight) := by
  rw [validateRelayBlockHeight]
  split
  · next h => exact iff_of_true rfl h
  · next h => exact iff_of_false (by intro herror; cases herror) h

/-- The relays that are accepted are those of the session. -/
def AcceptsWindow (session : Session) : Prop :=
  ∀ relayMeta : RelayMeta, -2 ^ 63 ≤ relayMeta.blockHeight → relayMeta.blockHeight < 2 ^ 63 →
    (validateRelayBlockHeight relayMeta session = .ok () ↔
      session.sessionHeight ≤ relayMeta.blockHeight
        ∧ relayMeta.blockHeight < session.sessionHeight + session.numSessionBlocks)

theorem int64_of_overflow {x : ℤ} (hlow : 2 ^ 63 ≤ x) (hhigh : x < 2 ^ 63 + 2 ^ 64) :
    int64 x = x - 2 ^ 64 := by
  have hcast : (2 : ℤ) ^ 64 = ((2 ^ 64 : ℕ) : ℤ) := by norm_num
  have hturn : int64 x = int64 (x - 2 ^ 64) := by
    rw [hcast]
    exact (Int.sub_bmod_right x (2 ^ 64)).symm
  rw [hturn, int64_eq_self (by omega) (by omega)]

theorem acceptsWindow_iff {session : Session} {start : ℤ}
    (hproduct : session.sessionNumber * session.numSessionBlocks = start)
    (hstart : session.sessionHeight = start) (hlow : 0 ≤ start) (hhigh : start < 2 ^ 63)
    (hblocks : 0 < session.numSessionBlocks) (hlong : start = 0 ∨ session.numSessionBlocks ≤ start) :
    AcceptsWindow session ↔ start = 0 ∧ session.numSessionBlocks = 1 := by
  have hexact : int64 start = start := int64_eq_self (by omega) (by omega)
  have haccepts : ∀ relayMeta : RelayMeta, validateRelayBlockHeight relayMeta session = .ok () ↔
      start ≤ relayMeta.blockHeight ∧ relayMeta.blockHeight ≤ int64 (start + start) := by
    intro relayMeta
    rw [validateRelayBlockHeight_eq_ok, hproduct, hstart, hexact]
  constructor
  · intro haccept
    have hat : ∀ x : ℤ, -2 ^ 63 ≤ x → x < 2 ^ 63 →
        (start ≤ x ∧ x ≤ int64 (start + start) ↔
          start ≤ x ∧ x < start + session.numSessionBlocks) := by
      intro x hx hx'
      have hiff := haccept ⟨x, none⟩ hx hx'
      rwa [haccepts, hstart] at hiff
    -- the first block is accepted, so the sum does not overflow
    have hfirst := (hat start (by omega) hhigh).2 ⟨le_rfl, by omega⟩
    have hfits : start + start < 2 ^ 63 := by
      by_contra hover
      rw [int64_of_overflow (by omega) (by omega)] at hfirst
      omega
    have hsum : int64 (start + start) = start + start := int64_eq_self (by omega) hfits
    rw [hsum] at hat
    rcases hlong with hzero | hlong
    · refine ⟨hzero, ?_⟩
      have hsecond := hat 1 (by omega) (by omega)
      omega
    · have hafter := hat (start + session.numSessionBlocks) (by omega) (by omega)
      omega
  · rintro ⟨rfl, hone⟩ relayMeta - -
    rw [haccepts, hstart, hone, int64_eq_self (by omega) (by omega)]
    omega

/-- **The window of relays.**  For every height and every number of blocks in a session, with the session that
`hydrateSessionMetadata` computes: the relays that are accepted are exactly those of the session if and only
if the height is 0 and a session has one block. -/
theorem relay_window_iff {readCtx : PostgresContext} {h b : ℤ} {metadata : SessionMetadata}
    (session : Session) (hh : 0 ≤ h) (hh' : h < 2 ^ 63) (hb : 0 < b)
    (hblocks : readCtx.getIntParam blocksPerSessionParamName h = .ok b)
    (hmetadata : (hydrateSessionMetadata h).run.peek (store h) readCtx.db = some (.ok metadata)) :
    AcceptsWindow (session.withMetadata metadata) ↔ h = 0 ∧ b = 1 := by
  rw [peek_hydrateSessionMetadata hb hblocks] at hmetadata
  obtain rfl := Except.ok.inj (Option.some.inj hmetadata)
  have hdiv : h.tdiv b = h / b := Int.tdiv_eq_ediv_of_nonneg hh
  have hle : b * (h / b) ≤ h := Int.mul_ediv_self_le hb.ne'
  have hnumber : 0 ≤ h / b := Int.ediv_nonneg hh hb.le
  have hproduct : 0 ≤ b * (h / b) := mul_nonneg hb.le hnumber
  have hnumber' : h / b ≤ h := Int.ediv_le_self b hh
  rw [hdiv, int64_eq_self (by omega) (by omega),
    @acceptsWindow_iff _ (b * (h / b)) (mul_comm _ _) rfl hproduct (by omega) hb ?_]
  · change b * (h / b) = 0 ∧ b = 1 ↔ _
    constructor
    · rintro ⟨hzero, rfl⟩
      exact ⟨by simpa using hzero, rfl⟩
    · rintro ⟨rfl, rfl⟩
      exact ⟨rfl, rfl⟩
  · rcases hnumber.eq_or_lt with hzero | hpos
    · exact .inl (by rw [← hzero, mul_zero])
    · exact .inr (le_mul_of_one_le_right hb.le hpos)

/-- The parameters of a chain on which a session has `b` blocks. -/
def blocksContext (b : String) : PostgresContext where
  db :=
    { accounts := .empty
      pools := .empty
      params := VersionedTable.Table.empty.upsert blocksPerSessionParamName 0 b
      actors := fun _ => .empty
      chains := fun _ => [] }
  blocks := fun _ => none

/-- Sessions of one block, at the first height. -/
theorem relay_window_first_block :
    AcceptsWindow (Session.withMetadata { relayChain := "0001", geoZone := "eu" } ⟨1, 0, 0⟩) := by
  have hblocks : (blocksContext "1").getIntParam blocksPerSessionParamName 0 = .ok 1 := by
    decide +kernel
  have hmetadata := (peek_hydrateSessionMetadata one_pos hblocks).trans
    (show _ = some (.ok ⟨1, 0, 0⟩) by decide)
  exact (relay_window_iff _ le_rfl (by decide) one_pos hblocks hmetadata).2 ⟨rfl, rfl⟩

/-- A session of four blocks from the height 4 on: the block 8 is accepted. -/
theorem block_after_session_accepted :
    (hydrateSessionMetadata 5).run.peek (store 5) (blocksContext "4").db = some (.ok ⟨4, 1, 4⟩)
      ∧ validateRelayBlockHeight ⟨8, none⟩
        (Session.withMetadata { relayChain := "0001", geoZone := "eu" } ⟨4, 1, 4⟩) = .ok ()
      ∧ ¬ AcceptsWindow (Session.withMetadata { relayChain := "0001", geoZone := "eu" } ⟨4, 1, 4⟩) := by
  have hblocks : (blocksContext "4").getIntParam blocksPerSessionParamName 5 = .ok 4 := by
    decide +kernel
  have haccepted : validateRelayBlockHeight ⟨8, none⟩
      (Session.withMetadata { relayChain := "0001", geoZone := "eu" } ⟨4, 1, 4⟩) = .ok () := by
    decide +kernel
  refine ⟨(peek_hydrateSessionMetadata (by decide) hblocks).trans (by decide), haccepted, fun h => ?_⟩
  have hwindow := (h ⟨8, none⟩ (by decide) (by decide)).1 haccepted
  exact absurd hwindow.2 (by decide)

/-! ## The chain of a relay -/

/-- The key under which the servicer looks itself up. -/
def Servicer.lookupKey (s : Servicer) : String := hexEncode (utf8 s.config.address)

theorem validateRelayChainSupport_eq_ok {height : ℤ} :
    s.validateRelayChainSupport readCtx relayChain height = .ok () ↔
      relayChain ∈ s.config.services
        ∧ relayChain ∈ readCtx.selectChains .servicer s.lookupKey height := by
  rw [Servicer.validateRelayChainSupport]
  by_cases hservice : relayChain ∈ s.config.services
  · rw [if_neg (not_not.2 hservice)]
    cases hlatest : (readCtx.db.actors .servicer).latest s.lookupKey height with
    | none =>
      have herror : readCtx.getActor .servicer (utf8 s.config.address) height = .error noRows := by
        rw [PostgresContext.getActor, ← Servicer.lookupKey, hlatest]
      rw [herror, PostgresContext.selectChains, hlatest]
      simp
    | some row =>
      rw [PostgresContext.getActor_of_latest (by decide) hlatest]
      change (if relayChain ∉ readCtx.selectChains .servicer s.lookupKey height then _ else _) = _ ↔ _
      by_cases hchain : relayChain ∈ readCtx.selectChains .servicer s.lookupKey height
      · simp [hservice, hchain]
      · simp [hchain]
  · simp [hservice]

/-- A relay is accepted when its chain is configured and is one of the chains under that key. -/
theorem validateRelayMeta_eq_ok {height : ℤ} (hchain : relayMeta.relayChain = some relayChain) :
    s.validateRelayMeta readCtx (some relayMeta) height = .ok () ↔
      relayChain ∈ s.config.services
        ∧ relayChain ∈ readCtx.selectChains .servicer s.lookupKey height := by
  rw [← validateRelayChainSupport_eq_ok, Servicer.validateRelayMeta, hchain]
  exact StoreProgram.mapError_eq_ok

/-! ### The key -/

/-- Every character has a byte. -/
theorem length_le_utf8_length (cs : List Char) : cs.length ≤ (utf8 (String.ofList cs)).length := by
  induction cs with
  | nil => simp
  | cons c cs ih =>
    have hcons : String.ofList (c :: cs) = String.ofList [c] ++ String.ofList cs := by
      rw [← String.ofList_append]
      rfl
    have hbyte : 0 < (utf8 (String.ofList [c])).length := by
      refine List.length_pos_iff.2 fun hnil => ?_
      have hempty : String.ofList [c] = String.ofList [] := utf8_inj.1 hnil
      have hlist := congrArg String.toList hempty
      simp at hlist
    rw [hcons, utf8_append, List.length_append, List.length_cons]
    omega

/-- The text of an address, encoded once more, is the text of another address. -/
theorem hexEncode_utf8_ne {address : Bytes} (hne : address ≠ []) :
    hexEncode (utf8 (hexEncode address)) ≠ hexEncode address := by
  intro heq
  have hbytes := Text.hexEncode_injective heq
  have hlong := length_le_utf8_length (Text.hexChars address)
  rw [Text.length_of_decodeChars (Text.decodeChars_hexChars address)] at hlong
  have hlength := congrArg List.length hbytes
  have hpos := List.length_pos_iff.2 hne
  rw [hexEncode] at hlength
  omega

/-! ### A servicer that is staked -/

/-- `InsertServicer` has stored the servicer at the height, with chains that fill the column `CHAR(4)`.
SOURCE: persistence/servicer.go:20-32, persistence/types/actor_shared_sql.go:67-75 -/
structure StoresServicer (before readCtx : PostgresContext) (height : ℤ) (address : Bytes)
    (chains : List String) : Prop where
  inserted : ∃ publicKey output stakedTokens serviceUrl pausedHeight unstakingHeight,
    readCtx = before.call height (.insertActor .servicer address publicKey output stakedTokens
      serviceUrl chains pausedHeight unstakingHeight)
  ids : ∀ chain ∈ chains, chain.length = 4

/-- A relay is accepted exactly when its chain is configured and is one of the chains. -/
def Servicer.RecognisesChains (s : Servicer) (readCtx : PostgresContext) (height : ℤ)
    (chains : List String) : Prop :=
  ∀ relayMeta relayChain, relayMeta.relayChain = some relayChain →
    (s.validateRelayMeta readCtx (some relayMeta) height = .ok () ↔
      relayChain ∈ s.config.services ∧ relayChain ∈ chains)

section Inserted

variable {db : Database} {t : ActorType} {height h : ℤ} {address key : String} {row : ActorRow}
  {chains : List String}

theorem latest_insertActor_ne (hne : key ≠ address) :
    ((db.insertActor height t address row chains).actors t).latest key h
      = (db.actors t).latest key h := by
  rw [Database.insertActor]
  split
  · rw [actors_setActors_self, Table.latest_upsert_ne _ _ _ _ hne]
  · rw [actors_insertChains, actors_setActors_self, Table.latest_upsert_ne _ _ _ _ hne]

theorem filter_chains_insertActor_ne (hne : key ≠ address) :
    ((db.insertActor height t address row chains).chains t).filter
        (fun chain => chain.address = key ∧ chain.height = h)
      = (db.chains t).filter fun chain => chain.address = key ∧ chain.height = h := by
  rw [Database.insertActor]
  split
  · rfl
  · simp only [Database.insertChains, Function.update_self]
    exact filter_foldl_insertChain (fun chain => by simp [hne.symm]) chains _

/-- What is inserted for one address is not seen under another. -/
theorem selectChains_insertActor_ne (hne : key ≠ address) :
    PostgresContext.selectChains
        { readCtx with db := readCtx.db.insertActor height t address row chains } t key h
      = readCtx.selectChains t key h := by
  simp only [PostgresContext.selectChains, latest_insertActor_ne hne, filter_chains_insertActor_ne hne]

end Inserted

/-- **A servicer and its own chains.**  For every servicer that `InsertServicer` stored under an address that is
not empty, and every configuration with that address: relays are accepted exactly for the chains that are
configured and staked for if and only if, for each chain that is configured, the servicer that was
stored before under the address whose bytes are the hex digits of this address stakes for it exactly when
this servicer does. -/
theorem recognises_chains_iff {s : Servicer} {before readCtx : PostgresContext} {height : ℤ}
    {address : Bytes} {chains : List String} (hstored : StoresServicer before readCtx height address chains)
    (haddress : s.config.address = hexEncode address) (hne : address ≠ []) :
    s.RecognisesChains readCtx height chains ↔
      ∀ chain ∈ s.config.services,
        chain ∈ before.selectChains .servicer (hexEncode (utf8 (hexEncode address))) height ↔
          chain ∈ chains := by
  have hkey : s.lookupKey = hexEncode (utf8 (hexEncode address)) := by
    rw [Servicer.lookupKey, haddress]
  have hseen : readCtx.selectChains .servicer s.lookupKey height
      = before.selectChains .servicer (hexEncode (utf8 (hexEncode address))) height := by
    obtain ⟨publicKey, output, stakedTokens, serviceUrl, pausedHeight, unstakingHeight, rfl⟩ :=
      hstored.inserted
    rw [hkey]
    exact selectChains_insertActor_ne (hexEncode_utf8_ne hne)
  constructor
  · intro hrecognises chain hservice
    have hiff := hrecognises ⟨0, some chain⟩ chain rfl
    rw [validateRelayMeta_eq_ok rfl, hseen] at hiff
    simpa [hservice] using hiff
  · intro hsame relayMeta relayChain hchain
    rw [validateRelayMeta_eq_ok hchain, hseen]
    exact and_congr_right fun hservice => hsame relayChain hservice

/-- A servicer for the chain `0001`, configured with the address `01`. -/
def servicer01 : Servicer where
  config := ⟨"01", ["0001"]⟩

/-- The servicer `01` is stored after the calls. -/
def storing01 (calls : List (ℤ × Writer)) : PostgresContext :=
  (PostgresContext.afterCalls calls).call 1
    (.insertActor .servicer [1] [11] [21] "10" "https://one" ["0001"] (-1) (-1))

/-- Another servicer stakes for the same chain, under the address `3031`. -/
def otherCalls : List (ℤ × Writer) :=
  [(1, .insertActor .servicer [48, 49] [12] [22] "10" "https://two" ["0001"] (-1) (-1))]

theorem recognises_chains_of_other :
    servicer01.RecognisesChains (storing01 otherCalls) 1 ["0001"] := by
  have hstored : StoresServicer (PostgresContext.afterCalls otherCalls) (storing01 otherCalls) 1 [1]
      ["0001"] := ⟨⟨_, _, _, _, _, _, rfl⟩, by decide⟩
  have hother : (PostgresContext.afterCalls otherCalls).selectChains .servicer
      (hexEncode (utf8 (hexEncode [1]))) 1 = ["0001"] := by
    decide +kernel
  refine (recognises_chains_iff hstored (by decide +kernel) (by decide)).2 fun chain _ => ?_
  rw [hother]

/-- The servicer does not find itself. -/
theorem servicer_not_found :
    (storing01 []).selectChains .servicer "01" 1 = ["0001"]
      ∧ servicer01.validateRelayMeta (storing01 []) (some ⟨1, some "0001"⟩) 1
        = .error ("validation of support for relay chain 0001 failed: error reading servicer from "
          ++ "persistence: no rows in result set")
      ∧ ¬ servicer01.RecognisesChains (storing01 []) 1 ["0001"] := by
  have herror : servicer01.validateRelayMeta (storing01 [])
      (some ⟨1, some "0001"⟩) 1
        = .error ("validation of support for relay chain 0001 failed: error reading servicer from "
          ++ "persistence: no rows in result set") := by
    decide +kernel
  refine ⟨by decide +kernel, herror, fun h => ?_⟩
  have hok := (h ⟨1, some "0001"⟩ "0001" rfl).2 (by decide +kernel)
  rw [herror] at hok
  cases hok

end Pocket.Utility
