import Mathlib

/-!
# Hashes, outpoints and UTXO entries

The values that the UTXO structures are made of, from
`domain/consensus/model/externalapi` and `domain/consensus/utils/utxo`.
-/

namespace Eiyaro

/-- A 32-byte hash, as the number its bytes spell. `DomainHash.Less` compares
the byte arrays from the first byte on, which is the order of these numbers. -/
abbrev DomainHash := Fin (2^256)

instance instNeZeroHash : NeZero (2^256) := ⟨by decide⟩

instance : LawfulBEq DomainHash := inferInstance

/-- The identifier of a transaction. -/
abbrev DomainTransactionID := DomainHash

/-- A reference to an output of a transaction. -/
structure DomainOutpoint where
  transactionID : DomainTransactionID
  index : UInt32
deriving DecidableEq

/-- A script that has to be satisfied in order to spend an output. -/
structure ScriptPublicKey where
  script : List UInt8
  version : UInt16
deriving DecidableEq

/-- An unspent transaction output, with the DAA score of the block that
accepted its transaction. -/
structure UTXOEntry where
  amount : UInt64
  scriptPublicKey : ScriptPublicKey
  isCoinbase : Bool
  blockDAAScore : UInt64
deriving DecidableEq

/-- A sum taken in a loop over machine words. -/
lemma toNat_foldl_add {α : Type} (f : α → UInt64) (as : List α) (total : UInt64) :
    (as.foldl (fun total a => total+f a) total).toNat =
      (total.toNat+(as.map fun a => (f a).toNat).sum) % 2^64 := by
  induction as generalizing total with
  | nil => exact (Nat.mod_eq_of_lt total.toNat_lt).symm
  | cons a as ih =>
    rw [List.foldl_cons,ih,UInt64.toNat_add,List.map_cons,List.sum_cons]
    omega

end Eiyaro
