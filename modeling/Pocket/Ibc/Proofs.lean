import Pocket.Model.Types

/-!
# Merkle proofs for the IBC store

The store proves its entries with the side nodes of a sparse Merkle tree, and hands them out as the
steps of an ICS-23 proof.  A tree's own verification hashes its way up along the bits of the path.
-/

set_option autoImplicit false

namespace Pocket.Ibc

open Model (Bytes)

/-! ## ICS-23 steps -/

inductive HashOp where
  | NO_HASH
  | SHA256
  deriving DecidableEq

/-- A step of an ICS-23 proof. -/
structure InnerOp where
  hash : HashOp
  prefixBytes : Bytes
  suffix : Bytes
  deriving DecidableEq

def HashOp.doHash (sha256 : Bytes → Bytes) : HashOp → Bytes → Bytes
  | .NO_HASH, preimage => preimage
  | .SHA256, preimage => sha256 preimage

/-- What a step makes of the hash below it. -/
def InnerOp.apply (sha256 : Bytes → Bytes) (child : Bytes) (op : InnerOp) : Bytes :=
  op.hash.doHash sha256 (op.prefixBytes ++ child ++ op.suffix)

/-! ## Positions in the tree -/

/-- SOURCE: ibc/store/proofs_ics23.go:15-16 -/
def left : ℕ := 0

def right : ℕ := 1

/-- The bit of a path, the most significant one of the first byte first.  `none` is the panic of an
index out of range. -/
def getPathBit (path : Bytes) (position : ℕ) : Option ℕ :=
  path[position / 8]?.map fun byte =>
    if byte.toNat.testBit (7 - position % 8) then right else left

/-- SOURCE: ibc/store/proofs_ics23.go:155-158 -/
def isLeft (path : Bytes) (i : ℕ) : Option Bool :=
  (getPathBit path i).map (· == left)

/-- SOURCE: ibc/store/proofs_ics23.go:40 -/
def innerPrefix : Bytes := [1]

/-! ## The two ways up -/

/-- The step for a side node: it stands beside the path. -/
def stepFor (sideNode : Bytes) (pathIsLeft : Bool) : InnerOp :=
  if pathIsLeft then ⟨.SHA256, innerPrefix, sideNode⟩
  else ⟨.SHA256, innerPrefix ++ sideNode, []⟩

/-- SOURCE: ibc/store/proofs_ics23.go:131-153 -/
def convertSideNodesToSteps (sideNodes : List Bytes) (path : Bytes) : Option (List InnerOp) :=
  sideNodes.zipIdx.mapM fun level =>
    (isLeft path (sideNodes.length - 1 - level.2)).map (stepFor level.1)

/-- The hash of an inner node of the tree. -/
def digestNode (sha256 : Bytes → Bytes) (leftData rightData : Bytes) : Bytes :=
  sha256 (1 :: (leftData ++ rightData))

/-- The running hash is the left child where the bit of the path is zero. -/
def digestBeside (sha256 : Bytes → Bytes) (sideNode hash : Bytes) (bit : ℕ) : Bytes :=
  if bit = 0 then digestNode sha256 hash sideNode else digestNode sha256 sideNode hash

/-- The root that the tree's verification computes from the leaf hash upwards. -/
def smtRoot (sha256 : Bytes → Bytes) (path leafHash : Bytes) (sideNodes : List Bytes) :
    Option Bytes :=
  sideNodes.zipIdx.foldlM (fun hash level =>
    (getPathBit path (sideNodes.length - 1 - level.2)).map (digestBeside sha256 level.1 hash)) leafHash

end Pocket.Ibc
