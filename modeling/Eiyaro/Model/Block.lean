import Eiyaro.Model.Outpoint

/-!
# Transactions, headers and blocks

The domain values of `domain/consensus/model/externalapi`. Fields that only
cache a computed value (`Fee`, `Mass`, `ID`) are left out.
-/

namespace Eiyaro

/-- A 20-byte subnetwork identifier, as the number its bytes spell. -/
abbrev DomainSubnetworkID := Fin (2^160)

instance instNeZeroSubnetworkID : NeZero (2^160) := ⟨by decide⟩

/-- `SubnetworkIDCoinbase` has the first byte 1 and all others 0. -/
def subnetworkIDCoinbase : DomainSubnetworkID := ⟨2^152,by decide⟩

structure DomainTransactionInput where
  previousOutpoint : DomainOutpoint
  signatureScript : List UInt8
  sequence : UInt64
  sigOpCount : UInt8
  /-- The spent entry, once it was looked up. -/
  utxoEntry : Option UTXOEntry
deriving DecidableEq

structure DomainTransactionOutput where
  value : UInt64
  scriptPublicKey : ScriptPublicKey
deriving DecidableEq

structure DomainTransaction where
  version : UInt16
  inputs : List DomainTransactionInput
  outputs : List DomainTransactionOutput
  lockTime : UInt64
  subnetworkID : DomainSubnetworkID
  gas : UInt64
  payload : List UInt8
deriving DecidableEq

def isCoinBase (tx : DomainTransaction) : Bool :=
  tx.subnetworkID == subnetworkIDCoinbase

structure BlockHeader where
  version : UInt16
  parents : List (List DomainHash)
  hashMerkleRoot : DomainHash
  acceptedIDMerkleRoot : DomainHash
  utxoCommitment : DomainHash
  timeInMilliseconds : Int
  bits : UInt32
  nonce : UInt64
  daaScore : UInt64
  blueScore : UInt64
  blueWork : Nat
  pruningPoint : DomainHash
deriving DecidableEq

/-- The parents of level 0. -/
def BlockHeader.directParents (header : BlockHeader) : List DomainHash :=
  header.parents.headD []

structure DomainBlock where
  header : BlockHeader
  transactions : List DomainTransaction
  powHash : String
deriving DecidableEq

inductive BlockStatus
  | statusInvalid
  | statusUTXOValid
  | statusUTXOPendingVerification
  | statusDisqualifiedFromChain
  | statusHeaderOnly
deriving DecidableEq

end Eiyaro
