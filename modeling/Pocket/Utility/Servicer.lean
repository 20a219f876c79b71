import Pocket.Utility.Sessions

/-!
# The servicer

What a servicer checks before it serves a relay: that the relay is for a chain which the servicer is configured
for and staked for, and that its block is in the session.  The tokens of the session are not part of the model, nor are the
fields of the records that only they and the answer to the relay need.

A read context that cannot be opened is not part of the model.
-/

set_option autoImplicit false

namespace Pocket.Utility

open Model (Bytes int64)
open Persistence (ActorMessage PostgresContext)

/-- SOURCE: shared/core/types/proto/relay.proto:52-61 -/
structure RelayMeta where
  blockHeight : ℤ
  relayChain : Option String
deriving DecidableEq, Repr

/-- The services are the keys of a map.
SOURCE: runtime/configs/proto/servicer_config.proto:10-23 -/
structure ServicerConfig where
  address : String
  services : List String
deriving DecidableEq, Repr

/-- SOURCE: utility/servicer/module.go:50-63 -/
structure Servicer where
  config : ServicerConfig

/-! ## The block of a relay -/

/-- SOURCE: utility/servicer/module.go:483-497 -/
def validateRelayBlockHeight (relayMeta : RelayMeta) (session : Session) : Except String Unit :=
  let sessionStartingBlock := int64 (session.sessionNumber * session.numSessionBlocks)
  let sessionLastBlock := int64 (sessionStartingBlock + session.sessionHeight)
  if sessionStartingBlock ≤ relayMeta.blockHeight ∧ relayMeta.blockHeight ≤ sessionLastBlock then
    .ok ()
  else
    .error ("relay block height " ++ toString relayMeta.blockHeight ++ " not within session ID "
      ++ session.id ++ " starting block " ++ toString sessionStartingBlock ++ " and last block "
      ++ toString sessionLastBlock)

namespace Servicer

variable (s : Servicer) (readCtx : PostgresContext)

/-! ## The chain of a relay -/

/-- The address of the configuration is a text, and its bytes are taken for the address.
SOURCE: utility/servicer/module.go:219-242, persistence/servicer.go:16-18 -/
def validateRelayChainSupport (relayChain : String) (currentHeight : ℤ) : Except String Unit :=
  if relayChain ∉ s.config.services then
    .error ("service " ++ relayChain ++ " not supported by servicer " ++ s.config.address
      ++ " configuration")
  else
    match readCtx.getActor .servicer (utf8 s.config.address) currentHeight with
    | .error err => .error ("error reading servicer from persistence: " ++ err)
    | .ok servicer =>
      if relayChain ∉ servicer.chains then
        .error ("chain " ++ relayChain ++ " not supported by servicer " ++ s.config.address
          ++ " configuration fetched from persistence")
      else .ok ()

/-- SOURCE: utility/servicer/module.go:201-217 -/
def validateRelayMeta (relayMeta : Option RelayMeta) (currentHeight : ℤ) : Except String Unit :=
  match relayMeta with
  | none => .error "empty relay metadata"
  | some relayMeta =>
    match relayMeta.relayChain with
    | none => .error "relay chain unspecified"
    | some relayChain =>
      (s.validateRelayChainSupport readCtx relayChain currentHeight).mapError fun err =>
        "validation of support for relay chain " ++ relayChain ++ " failed: " ++ err

end Servicer

end Pocket.Utility
