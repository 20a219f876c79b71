import Pocket.Library.AlikeRuns
import Pocket.Persistence.ActorReads
import Pocket.Utility.Governance

/-!
# Sessions

`GetSession` puts a session together for an application, a relay chain and a geo zone: the window of blocks
it is for, the application at the start of the window, an id that is a hash of these and of the block
before the window, and the servicers and fishermen, which are drawn from those staked at the start of the
window with a source of random numbers that the id is the seed of.

The draw goes on until it has drawn enough different numbers, so it may go on for ever; `rounds` is how many
numbers are drawn at most, and a computation that is not done by then does not return.  Neither does one
that panics.  The numbers drawn are the keys of a map, over which Go goes in an order of its own
(`MapOrder`).
-/

set_option autoImplicit false

namespace Pocket.Utility

open Model (Bytes int64)
open Persistence (ActorMessage PostgresContext)
open AlikeRuns (Computation)
open VersionedTable (Collation)
open Text (hexEncode hexDecode)

/-- SOURCE: shared/core/types/proto/session.proto:11-26 -/
structure Session where
  id : String := ""
  sessionNumber : ℤ := 0
  sessionHeight : ℤ := 0
  numSessionBlocks : ℤ := 0
  relayChain : String
  geoZone : String
  application : Option ActorMessage := none
  servicers : List ActorMessage := []
  fishermen : List ActorMessage := []
deriving DecidableEq, Repr

/-- What sessions are computed with: the hash, the order in which the server sorts, and the numbers that
a source with a seed gives one after the other, which are below `2 ^ 63`. -/
structure SessionHost where
  sha3 : Bytes → Bytes
  collation : Collation String
  int63 : ℤ → ℕ → ℕ

/-- An order in which Go may go over the keys of a map. -/
structure MapOrder where
  keys : List ℕ → List ℕ
  perm : ∀ l, (keys l).Perm l

/-- A computation that ends with the process. -/
def panics {α : Type} : Computation String α := (none : Option (Except String α))

/-- The value or the error of a call. -/
def answered {α : Type} (r : Except String α) : Computation String α := some r

/-- An error of a step of `GetSession`. -/
def failedTo {α : Type} (step : String) (x : Computation String α) : Computation String α :=
  AlikeRuns.wrap (fun err => "failed to " ++ step ++ ": " ++ err) x

/-! ## The draw -/

/-- The loop draws until there are enough indices.
SOURCE: utility/session.go:281-283 -/
def drawIndices (int63 : ℕ → ℕ) (maxIndex : ℕ) (numIndices : ℤ) :
    (rounds drawn : ℕ) → List ℕ → Option (List ℕ)
  | rounds, drawn, indices =>
    if (indices.length : ℤ) < numIndices then
      match rounds with
      | 0 => none
      | rounds + 1 =>
        drawIndices int63 maxIndex numIndices rounds (drawn + 1)
          (indices.insert (int63 drawn % maxIndex))
    else some indices

/-- SOURCE: utility/session.go:268-286 -/
def uniqueRandomIndices (H : SessionHost) (rounds : ℕ) (seed : ℤ) (maxIndex : ℕ) (numIndices : ℤ) :
    Option (List ℕ) :=
  -- a panic, which no caller brings about
  if maxIndex < numIndices then none
  else drawIndices (H.int63 seed) maxIndex numIndices rounds 0 []

/-- The bytes as one number, the first byte the most significant. -/
def bigEndian (bz : Bytes) : ℕ := bz.foldl (fun n b => n * 256 + b.toNat) 0

/-- The seed that a session id gives.  SOURCE: utility/session.go:246-248 -/
def seedOf (H : SessionHost) (sessionId : Bytes) : ℤ :=
  int64 (bigEndian ((H.sha3 sessionId).take 8))

/-- SOURCE: utility/session.go:239-258 -/
def pseudoRandomSelection (H : SessionHost) (order : MapOrder) (rounds : ℕ)
    (candidates : List ActorMessage) (numTarget : ℤ) (sessionId : Bytes) :
    Option (List ActorMessage) :=
  if candidates.length < numTarget then some candidates
  else do
    let uniqueIndices ← uniqueRandomIndices H rounds (seedOf H sessionId) candidates.length numTarget
    (order.keys uniqueIndices).mapM fun idx => candidates[idx]?

/-! ## The steps -/

/-- SOURCE: utility/session.go:98-111 -/
def Session.withMetadata (s : Session) (metadata : SessionMetadata) : Session :=
  { s with
    numSessionBlocks := metadata.numSessionBlocks
    sessionNumber := metadata.sessionNumber
    sessionHeight := metadata.sessionHeight }

/-- SOURCE: utility/session.go:114-122 -/
def hydrateSessionApplication (readCtx : PostgresContext) (appAddr : String) (s : Session) :
    Computation String Session := do
  let addr ← answered (hexDecode appAddr)
  let application ← answered (readCtx.getActor .app addr s.sessionHeight)
  return { s with application := some application }

/-- SOURCE: utility/session.go:125-141 -/
def validateApplicationSession (s : Session) : Computation String Unit :=
  match s.application with
  | none => panics
  | some app =>
    if s.relayChain ∉ app.chains then
      throw ("application " ++ app.address ++ " does not stake for relay chain " ++ s.relayChain)
    else if app.pausedHeight ≠ -1 ∨ app.unstakingHeight ≠ -1 then
      throw ("application " ++ app.address ++ " is either unstaked or paused")
    else return ()

/-- `PutUint64`, the first byte the least significant. -/
def littleEndian64 (n : ℤ) : Bytes :=
  (List.range 8).map fun i => UInt8.ofNat ((n % 2 ^ 64).toNat / 256 ^ i % 256)

/-- The height before the session, or 0, computed with floats.  A float that is too large for an `int64`
becomes the smallest `int64`.
SOURCE: utility/session.go:148 -/
def prevHashHeight (sessionHeight : ℤ) : ℤ :=
  let previous := float64 (float64 sessionHeight.toNat - 1)
  if previous < 2 ^ 63 then previous else -2 ^ 63

def utf8 (s : String) : Bytes := s.toUTF8.data.toList

/-- SOURCE: utility/session.go:144-166, 288-293 -/
def sessionIdBytes (sessionHeight : ℤ) (prevHashBz : Bytes) (geoZone relayChain publicKey : String) :
    Bytes :=
  littleEndian64 sessionHeight ++ prevHashBz ++ utf8 geoZone ++ utf8 relayChain ++ utf8 publicKey

/-- The hash of the block before the session.  SOURCE: utility/session.go:148-157 -/
def prevHashBytes (readCtx : PostgresContext) (s : Session) : Except String Bytes := do
  let prevHash ← readCtx.getBlockHash (prevHashHeight s.sessionHeight)
  hexDecode prevHash

/-- The session with its id, and what the id is the hash of.
SOURCE: utility/session.go:144-166 -/
def hydrateSessionID (H : SessionHost) (readCtx : PostgresContext) (s : Session) :
    Computation String (Session × Bytes) := do
  let prevHashBz ← answered (prevHashBytes readCtx s)
  match s.application with
  | none => panics
  | some app =>
    let sessionIdBz := sessionIdBytes s.sessionHeight prevHashBz s.geoZone s.relayChain app.publicKey
    return ({ s with id := hexEncode (H.sha3 sessionIdBz) }, sessionIdBz)

/-- One that is paused or unstaking is an error, also when it is not for the relay chain. -/
def candidatesFor (complaint relayChain : String) :
    List ActorMessage → Except String (List ActorMessage)
  | [] => .ok []
  | actor :: actors =>
    if actor.pausedHeight ≠ -1 ∨ actor.unstakingHeight ≠ -1 then .error (complaint ++ actor.address)
    else do
      let candidates ← candidatesFor complaint relayChain actors
      return if relayChain ∈ actor.chains then actor :: candidates else candidates

/-- The number that the parameter says of those that stake for the relay chain. -/
def selectActors (H : SessionHost) (order : MapOrder) (rounds : ℕ) (readCtx : PostgresContext)
    (paramName complaint : String) (getAll : ℤ → List ActorMessage) (s : Session)
    (sessionIdBz : Bytes) : Computation String (List ActorMessage) := do
  let numTarget ← answered (readCtx.getIntParam paramName s.sessionHeight)
  let candidates ← answered (candidatesFor complaint s.relayChain (getAll s.sessionHeight))
  AlikeRuns.total (pseudoRandomSelection H order rounds candidates numTarget sessionIdBz)

def servicersPerSessionParamName : String := "servicers_per_session"

def fishermanPerSessionParamName : String := "fisherman_per_session"

/-- SOURCE: utility/session.go:169-200 -/
def hydrateSessionServicers (H : SessionHost) (order : MapOrder) (rounds : ℕ)
    (readCtx : PostgresContext) (sessionIdBz : Bytes) (s : Session) : Computation String Session := do
  let servicers ← selectActors H order rounds readCtx servicersPerSessionParamName
    "hydrateSessionServicers should not have encountered a paused or unstaking servicer: "
    (readCtx.getAllServicers H.collation) s sessionIdBz
  return { s with servicers }

/-- SOURCE: utility/session.go:203-234 -/
def hydrateSessionFishermen (H : SessionHost) (order : MapOrder) (rounds : ℕ)
    (readCtx : PostgresContext) (sessionIdBz : Bytes) (s : Session) : Computation String Session := do
  let fishermen ← selectActors H order rounds readCtx fishermanPerSessionParamName
    "hydrateSessionFishermen should not have encountered a paused or unstaking fisherman: "
    (readCtx.getAllFishermen H.collation) s sessionIdBz
  return { s with fishermen }

/-- The orders in which Go goes over the two maps of a session. -/
structure SessionOrders where
  servicers : MapOrder
  fishermen : MapOrder

/-- SOURCE: utility/session.go:36-81 -/
def getSession (H : SessionHost) (orders : SessionOrders) (rounds : ℕ) (readCtx : PostgresContext)
    (appAddr : String) (height : ℤ) (relayChain geoZone : String) : Computation String Session := do
  let metadata ← failedTo "hydrate session metadata"
    ((hydrateSessionMetadata height).run.peek (store height) readCtx.db)
  let session : Session := Session.withMetadata { relayChain, geoZone } metadata
  let session ← failedTo "hydrate session application"
    (hydrateSessionApplication readCtx appAddr session)
  failedTo "validate application session" (validateApplicationSession session)
  let (session, sessionIdBz) ← failedTo "hydrate session ID" (hydrateSessionID H readCtx session)
  let session ← failedTo "hydrate session servicers"
    (hydrateSessionServicers H orders.servicers rounds readCtx sessionIdBz session)
  failedTo "hydrate session fishermen"
    (hydrateSessionFishermen H orders.fishermen rounds readCtx sessionIdBz session)

end Pocket.Utility
