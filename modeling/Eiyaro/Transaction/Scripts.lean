import Eiyaro.Hashing.SignatureHash
import Eiyaro.Script.SigOps
import Eiyaro.Transaction.Failures

/-!
# The transaction validator with the script engine

`validateTransactionSigOpCounts` counts with `GetPreciseSigOpCount`, and
`validateTransactionScripts` builds and executes an engine for every input. The engine hashes
what a signature is for as `consensushashing` does, and with it the validator rejects scripts
with rule errors only, which is what the results on the mempool ask for.
-/

namespace Eiyaro.TxScript

/-- The engine with the signature hashes of `consensushashing`. -/
def signingEnv (env : ScriptEnv) (hashes : SigningHashes) : ScriptEnv where
  __ := env
  signatureHash scheme tx inputIndex hashType :=
    (freshSignatureHash hashes scheme tx inputIndex hashType).toOption.getD zeroHash

/-- Whatever the earlier inputs of the transaction left to be reused, the engine computes the
same hash, and fails where there is none. -/
lemma calculateSignatureHash_signingEnv (env : ScriptEnv) {hashes : SigningHashes}
    {reused : SighashReusedValues} {vm : Engine} (h : reused.Of hashes vm.tx) (scheme : Scheme)
    (hashType : UInt8) :
    (calculateSignatureHash (signingEnv env hashes) vm scheme hashType).toOption =
      ((signatureHash hashes scheme vm.tx vm.txIdx hashType reused).map Prod.fst).toOption := by
  rw [map_fst_signatureHash h,calculateSignatureHash]
  cases hs : isStandardSigHashType hashType with
  | false => simp [freshSignatureHash,hs,Except.toOption]
  | true =>
    rw [if_pos rfl]
    cases hin : vm.tx.inputs[vm.txIdx]? with
    | none => simp [freshSignatureHash,signedInput,indexAt,indexSlice,hs,hin,Except.toOption]
    | some input =>
      have hi : indexAt vm.tx.inputs vm.txIdx = .ok input := by
        rw [indexAt,if_neg (by omega),Int.toNat_natCast,hin]
      rw [hi,ok_bind]
      cases he : input.utxoEntry <;>
        simp [signingEnv,freshSignatureHash,signedInput,indexSlice,hs,hin,he,Except.toOption]

/-- What the validator makes of a failure of the engine. -/
def ScriptFailure.wrap (error : RuleError) (message : String) : ScriptFailure → Failure
  | .scriptError _ description => .ruleError error (message ++ description)
  | .error description => .ruleError error (message ++ description)
  | .panic description => .panic description

/-- The body of the loop of `validateTransactionScripts` for an input with an entry. -/
def runScript (env : ScriptEnv) (sigCache : Scheme → Option SigCache)
    (scriptPublicKey : ScriptPublicKey) (tx : DomainTransaction) (i : Nat) :
    Except Failure Unit :=
  match newEngine scriptPublicKey tx i sigCache with
  | .error failure =>
    .error (failure.wrap .errScriptMalformed ("failed to parse input " ++ toString i ++ " - "))
  | .ok vm =>
    match execute env vm with
    | .ok _ _ => .ok ()
    | .error failure _ =>
      .error (failure.wrap .errScriptValidation
        ("failed to validate input " ++ toString i ++ " - "))

/-- The validator as the node builds it. The caches hold what the scripts that were run before
left in them. -/
def engineValidator (blockCoinbaseMaturity : UInt64) (env : ScriptEnv)
    (sigCaches : DomainTransaction → Nat → Scheme → Option SigCache) : TransactionValidator where
  blockCoinbaseMaturity := blockCoinbaseMaturity
  getPreciseSigOpCount scriptSig scriptPubKey :=
    (getPreciseSigOpCount scriptSig scriptPubKey).toOption.getD 0
  runScript scriptPublicKey tx i := runScript env (sigCaches tx i) scriptPublicKey tx i

lemma ScriptFailure.wrap_expected {error : RuleError} {message : String} {failure : ScriptFailure}
    (h : failure.isPanic = false) : (failure.wrap error message).Expected True := by
  cases failure with
  | scriptError _ _ => trivial
  | error _ => trivial
  | panic _ => cases h

/-- The engine never panics on a populated transaction, so that the validator is regular. -/
lemma engineValidator_regular (blockCoinbaseMaturity : UInt64) (env : ScriptEnv)
    (sigCaches : DomainTransaction → Nat → Scheme → Option SigCache) :
    (engineValidator blockCoinbaseMaturity env sigCaches).Regular := by
  intro scriptPublicKey tx i hp
  show ErrorsIn _ (runScript env (sigCaches tx i) scriptPublicKey tx i)
  unfold runScript
  split
  · next _ he => exact .error (ScriptFailure.wrap_expected (newEngine_error he))
  · next vm hvm =>
    split
    · exact .ok _
    · next failure _ hex =>
      -- an engine is only built for an input of the transaction
      have hi : i < tx.inputs.length := by
        by_contra hi
        rw [newEngine,if_pos (by omega)] at hvm
        cases hvm
      have hin : tx.inputs[(i : Int).toNat]? = some tx.inputs[i] := by simp [hi]
      have he : (tx.inputs[i]).utxoEntry.isSome = true := hp _ (List.getElem_mem hi)
      exact .error (ScriptFailure.wrap_expected (execute_error env hin he hvm hex))

end Eiyaro.TxScript
