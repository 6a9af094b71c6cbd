import Eiyaro.Consensus.Env
import Eiyaro.Util.Binary64
import Eiyaro.Util.LittleEndian

/-!
# The expected coinbase transaction

`processes/coinbasemanager`: the coinbase payload, the subsidy of a block, and
the coinbase transaction that a block has to contain. It pays the blocks of the
merge set that count for the DAA score. The amounts are added modulo 2^64, so
they are at most the sums over the integers.
-/

namespace Eiyaro
open List UInt64 OnlyRuleErrors Nat
variable {blockData : BlockData} {hash : DomainHash}

/-! ## The payload -/

structure DomainCoinbaseData where
  scriptPublicKey : ScriptPublicKey
  extraData : List UInt8
deriving DecidableEq

variable (p : CoinbaseParams) {tx : DomainTransaction}

def serializeCoinbasePayload (blueScore : UInt64)
    (coinbaseData : DomainCoinbaseData) (subsidy : UInt64) : Except Failure (List UInt8) :=
  let script := coinbaseData.scriptPublicKey.script
  if script.length > p.coinbasePayloadScriptPublicKeyMaxLength.toNat then
    .error (.ruleError .errBadCoinbasePayloadLen ("coinbase's payload script public key is " ++
      "longer than the max allowed length of " ++
      toString p.coinbasePayloadScriptPublicKeyMaxLength))
  else
    .ok (putLittleEndian 8 blueScore.toNat ++ putLittleEndian 8 subsidy.toNat ++
      putLittleEndian 2 coinbaseData.scriptPublicKey.version.toNat ++
      [UInt8.ofNat script.length] ++ script ++ coinbaseData.extraData)

/-- The blue score, the coinbase data and the subsidy. The end of the script is
added up as a byte, as the source does it. -/
def extractCoinbaseDataBlueScoreAndSubsidy (coinbaseTx : DomainTransaction) :
    Except Failure (UInt64 × DomainCoinbaseData × UInt64) :=
  let payload := coinbaseTx.payload
  if payload.length < 19 then
    .error (.ruleError .errBadCoinbasePayloadLen
      "coinbase payload is less than the minimum length of 19")
  else
    let blueScore := ofNat (littleEndian (payload.take 8))
    let subsidy := ofNat (littleEndian ((payload.drop 8).take 8))
    let version := UInt16.ofNat (littleEndian ((payload.drop 16).take 2))
    let scriptLength := payload.getD 18 0
    if scriptLength > p.coinbasePayloadScriptPublicKeyMaxLength then
      .error (.ruleError .errBadCoinbasePayloadLen ("coinbase's payload script public key is " ++
        "longer than the max allowed length of " ++
        toString p.coinbasePayloadScriptPublicKeyMaxLength))
    else if payload.length < 19+scriptLength.toNat then
      .error (.ruleError .errBadCoinbasePayloadLen ("coinbase payload doesn't have enough bytes " ++
        "to contain a script public key of " ++ toString scriptLength ++ " bytes"))
    else
      let scriptEnd := 19+scriptLength
      if scriptEnd < 19 then
        .error (.panic "slice bounds out of range")
      else
        .ok (blueScore, ⟨⟨(payload.take scriptEnd.toNat).drop 19,version⟩,
          payload.drop scriptEnd.toNat⟩, subsidy)

lemma getD_serialize {p : CoinbaseParams} {blueScore subsidy : UInt64}
    {coinbaseData : DomainCoinbaseData} {payload : List UInt8}
    (h : serializeCoinbasePayload p blueScore coinbaseData subsidy = .ok payload) :
    payload.getD 18 0 = UInt8.ofNat coinbaseData.scriptPublicKey.script.length := by
  obtain ⟨-,h⟩ := of_ite_error h
  cases h
  simp [getElem?_append]

/-- A longer script than that of 236 bytes is never extracted: its end wraps around. -/
lemma scriptLength_le_of_extract {p : CoinbaseParams} {r : UInt64 × DomainCoinbaseData × UInt64}
    (h : extractCoinbaseDataBlueScoreAndSubsidy p tx = .ok r) :
    (tx.payload.getD 18 0).toNat ≤ 236 := by
  obtain ⟨-,h⟩ := of_ite_error h
  obtain ⟨-,h⟩ := of_ite_error h
  obtain ⟨-,h⟩ := of_ite_error h
  obtain ⟨he,-⟩ := of_ite_error h
  rw [UInt8.lt_iff_toNat_lt,UInt8.toNat_add] at he
  have := (tx.payload.getD 18 0).toNat_lt
  simp only [UInt8.reduceToNat] at he
  omega

/-- Up to 236 bytes the end of the script fits into a byte. -/
lemma extractCoinbaseData_serialize {p : CoinbaseParams} {blueScore subsidy : UInt64}
    {coinbaseData : DomainCoinbaseData} (hln : coinbaseData.scriptPublicKey.script.length ≤ 236)
    (h : serializeCoinbasePayload p blueScore coinbaseData subsidy = .ok tx.payload) :
    extractCoinbaseDataBlueScoreAndSubsidy p tx = .ok (blueScore, coinbaseData, subsidy) := by
  have hs := getD_serialize h
  obtain ⟨hl,h⟩ := of_ite_error h
  have hp := (Except.ok.inj h).symm
  obtain ⟨⟨script,version⟩,extraData⟩ := coinbaseData
  dsimp only at hl hln hp hs
  have hby : (UInt8.ofNat script.length).toNat = script.length := by
    rw [UInt8.toNat_ofNat',mod_eq_of_lt (by omega)]
  have hen : (19+UInt8.ofNat script.length).toNat = 19+script.length := by
    rw [UInt8.toNat_add,hby]
    exact mod_eq_of_lt (by simp; omega)
  have hb : tx.payload.take 8 = putLittleEndian 8 blueScore.toNat := by simp [hp]
  have hsb : (tx.payload.drop 8).take 8 = putLittleEndian 8 subsidy.toNat := by
    simp [hp]
  have hver : (tx.payload.drop 16).take 2 = putLittleEndian 2 version.toNat := by
    simp [hp,drop_append,drop_of_length_le]
  obtain ⟨front,hfr,hp⟩ :
      ∃ front, front.length = 19 ∧ tx.payload = front ++ (script ++ extraData) :=
    ⟨_,by simp,hp.trans (append_assoc _ script _)⟩
  have hsc : (tx.payload.take (19+script.length)).drop 19 = script := by
    rw [hp,← hfr,take_length_add_append,drop_left,take_left]
  have he : tx.payload.drop (19+script.length) = extraData := by
    rw [hp,← hfr,drop_length_add_append,drop_left]
  have ht : tx.payload.length = 19+script.length+extraData.length := by
    rw [hp,length_append,length_append,hfr,add_assoc]
  rw [extractCoinbaseDataBlueScoreAndSubsidy]
  rw [if_neg (by omega),hs,if_neg,if_neg (by omega),if_neg,hen,hb,
    hsb,hver,hsc,he,
    littleEndian_putLittleEndian_of_lt blueScore.toNat_lt,
    littleEndian_putLittleEndian_of_lt version.toNat_lt,
    littleEndian_putLittleEndian_of_lt subsidy.toNat_lt,UInt64.ofNat_toNat,UInt16.ofNat_toNat,
    UInt64.ofNat_toNat]
  · rw [UInt8.lt_iff_toNat_lt,hen]
    exact not_lt.2 (le_add_right 19 _)
  · rwa [gt_iff_lt,UInt8.lt_iff_toNat_lt,hby]

/-! ## The subsidy -/

/-- `subsidyByDeflationaryYearTable`. -/
def subsidyByDeflationaryYearTable : List UInt64 :=
  [10000000000,8164965809,6666666666,5443310539,4444444444,3628873693,2962962962,
    2419249128,1975308641,1612832752,1316872427,1075221834,877914951,716814556,585276634,
    477876371,390184423,318584247,260122948,212389498,173415299,141592998,115610199,
    94395332,77073466,62930221,51382310,41953481,34254873,27968987,22836582,18645991,
    15224388,12430661,10149592,8287107,6766394,5524738,4510929,3683158,3007286,2455439,
    2004857,1636959,1336571,1091306,891047,727537,594031,485025,396021,323350,264014,
    215566,176009,143711,117339,95807,78226,63871,52150,42581,34767,28387,23178,18924,
    15452,12616,10301,8411,6867,5607,4578,3738,3052,2492,2034,1661,1356,1107,904,
    738,602,492,401,328,267,218,178,145,119,97,79,64,52,43,35,28,23,19,15,12,
    10,8,6,5,4,3,3,2,2,1,1,1,0]

/-- The table entry for a year, or the last one. The entry is multiplied by the
seconds of a block, a product that is exact in floating point. -/
def getDeflationaryPeriodBlockSubsidyFromTable (year seconds : UInt64) : UInt64 :=
  subsidyByDeflationaryYearTable.getD
    (min year.toNat (subsidyByDeflationaryYearTable.length - 1)) 0*seconds

def calcDeflationaryPeriodBlockSubsidy (blockDaaScore : UInt64)
    (blockVersion : UInt16) : Except Failure UInt64 := do
  let seconds ← indexSlice p.targetSecondsPerBlock (blockVersion - 1).toNat
  let blocksPerYear := 31557600 / seconds
  -- the first year had one block per second
  let (yearsSinceDeflationStarted, blockDaaScore) : UInt64 × UInt64 :=
    if blockDaaScore ≥ 31557600 then (1, blockDaaScore - 31557600) else (0, blockDaaScore)
  let nocturneHfScore := 43334184 - 31557600
  let blockDaaScore := if blockDaaScore ≥ nocturneHfScore then blockDaaScore+nocturneHfScore*4
    else blockDaaScore
  if blocksPerYear = 0 then
    .error (.panic "integer divide by zero")
  else
    return getDeflationaryPeriodBlockSubsidyFromTable
      (yearsSinceDeflationStarted+(blockDaaScore - p.deflationaryPhaseDaaScore) / blocksPerYear)
      seconds

/-- `CalcBlockSubsidy` for a block with the given DAA score. -/
def calcBlockSubsidy (isGenesis : Bool) (blockDaaScore : UInt64)
    (blockVersion : UInt16) : Except Failure UInt64 :=
  if isGenesis then
    .ok p.subsidyGenesisReward
  else if blockDaaScore < p.deflationaryPhaseDaaScore then
    .ok p.preDeflationaryPhaseBaseSubsidy
  else
    calcDeflationaryPeriodBlockSubsidy p blockDaaScore blockVersion

/-! ## Rewards -/

/-- Five percent of a reward, in the floating point arithmetic of the source. -/
def devFeeQuantity (reward : UInt64) : UInt64 :=
  ofNat (Binary64.mulTwentieth reward.toNat)

section
variable {M : Type} (cs : Consensus M)

/-- The lookup in `acceptanceDataFromArrayToMap`. -/
def findAcceptanceData (acceptanceData : AcceptanceData) (hash : DomainHash) :
    Option BlockAcceptanceData :=
  acceptanceData.reverse.find? (·.blockHash = hash)

def acceptedFees (blockAcceptanceData : BlockAcceptanceData) : List UInt64 :=
  (blockAcceptanceData.transactionAcceptanceData.filter (·.isAccepted)).map
    TransactionAcceptanceData.fee

/-- The subsidy that a stored block states in its coinbase payload. -/
def statedSubsidy (blockHash : DomainHash) : Except Failure UInt64 := do
  let data ← cs.getBlockData blockHash
  let coinbase ← indexSlice data.block.transactions 0
  let (_, _, subsidy) ← extractCoinbaseDataBlueScoreAndSubsidy cs.coinbaseParams coinbase
  return subsidy

def calcMergedBlockReward (blockHash : DomainHash)
    (blockAcceptanceData : Option BlockAcceptanceData) (daaAddedBlocks : List DomainHash) :
    Except Failure UInt64 :=
  match blockAcceptanceData with
  | none => .error (.panic "invalid memory address or nil pointer dereference")
  | some blockAcceptanceData =>
    if blockHash ≠ blockAcceptanceData.blockHash then
      .error (.error "unexpected blockAcceptanceData.BlockHash")
    else if blockHash ∉ daaAddedBlocks then
      .ok 0
    else do
      let subsidy ← statedSubsidy cs blockHash
      return subsidy+(acceptedFees blockAcceptanceData).sum

/-- The outputs for a reward with block version 1. -/
def rewardOutputsV1 (reward : UInt64) (scriptPublicKey : Except Failure ScriptPublicKey) :
    Except Failure (List DomainTransactionOutput) :=
  if reward ≤ 0 then
    .ok []
  else do
    let scriptPublicKey ← scriptPublicKey
    return [⟨reward,scriptPublicKey⟩]

/-- The outputs for a reward from block version 2 on: the developer fee is split
off. -/
def rewardOutputsV2 (reward : UInt64) (scriptPublicKey : Except Failure ScriptPublicKey) :
    Except Failure (List DomainTransactionOutput) :=
  let devFee := devFeeQuantity reward
  if reward - devFee ≤ 0 then
    .ok []
  else do
    let scriptPublicKey ← scriptPublicKey
    return [⟨reward - devFee,scriptPublicKey⟩,⟨devFee,cs.coinbaseParams.devFeeScriptPublicKey⟩]

/-- The script that the coinbase transaction of a merged block asks to pay to. -/
def blueBlockScript (blockAcceptanceData : Option BlockAcceptanceData) :
    Except Failure ScriptPublicKey :=
  match blockAcceptanceData with
  | none => .error (.panic "invalid memory address or nil pointer dereference")
  | some blockAcceptanceData => do
    let txAcceptanceData ← indexSlice blockAcceptanceData.transactionAcceptanceData 0
    let (_, coinbaseData, _) ← extractCoinbaseDataBlueScoreAndSubsidy cs.coinbaseParams
      txAcceptanceData.transaction
    return coinbaseData.scriptPublicKey

section
variable (rewardOutputs : UInt64 → Except Failure ScriptPublicKey →
  Except Failure (List DomainTransactionOutput))

section
variable (acceptanceData : AcceptanceData) (daaAddedBlocks : List DomainHash)

def coinbaseOutputForBlueBlock
    (blueBlock : DomainHash) : Except Failure (List DomainTransactionOutput) := do
  let blockAcceptanceData := findAcceptanceData acceptanceData blueBlock
  let reward ← calcMergedBlockReward cs blueBlock blockAcceptanceData daaAddedBlocks
  rewardOutputs reward (blueBlockScript cs blockAcceptanceData)

/-- The rewards of the red blocks that have acceptance data. -/
def redRewards : List DomainHash → Except Failure (List UInt64)
  | [] => return []
  | red :: reds =>
    match findAcceptanceData acceptanceData red with
    | none => redRewards reds
    | some blockAcceptanceData => do
      let reward ← calcMergedBlockReward cs red (some blockAcceptanceData) daaAddedBlocks
      let rewards ← redRewards reds
      return reward :: rewards

end

def coinbaseOutputForRewardFromRedBlocks (data : BlockGHOSTDAGData)
    (acceptanceData : AcceptanceData) (daaAddedBlocks : List DomainHash)
    (coinbaseData : DomainCoinbaseData) : Except Failure (List DomainTransactionOutput) := do
  let rewards ← redRewards cs acceptanceData daaAddedBlocks data.mergeSetReds
  rewardOutputs rewards.sum (.ok coinbaseData.scriptPublicKey)

/-- The outputs for the whole merge set. -/
def coinbaseOutputs (blockData : BlockData) (acceptanceData : AcceptanceData)
    (coinbaseData : DomainCoinbaseData) : Except Failure (List DomainTransactionOutput) := do
  let blueOuts ← blockData.ghostdagData.mergeSetBlues.mapM
    (coinbaseOutputForBlueBlock cs rewardOutputs acceptanceData blockData.daaAddedBlocks)
  let redOuts ← coinbaseOutputForRewardFromRedBlocks cs rewardOutputs blockData.ghostdagData
    acceptanceData blockData.daaAddedBlocks coinbaseData
  return blueOuts.flatten ++ redOuts

end

/-- The outputs by block version. Version 0 pays nothing. -/
def coinbaseOutputsForVersion (blockData : BlockData) (acceptanceData : AcceptanceData)
    (coinbaseData : DomainCoinbaseData) : Except Failure (List DomainTransactionOutput) :=
  if cs.blockVersion = 1 then
    coinbaseOutputs cs rewardOutputsV1 blockData acceptanceData coinbaseData
  else if cs.blockVersion ≥ 2 then
    coinbaseOutputs cs (rewardOutputsV2 cs) blockData acceptanceData coinbaseData
  else
    .ok []

/-- `ExpectedCoinbaseTransactionInternal`. The result whether there is a red reward is shadowed in
the source and always false, so it is left out. -/
def expectedCoinbaseTransaction (blockHash : DomainHash) (coinbaseData : DomainCoinbaseData)
    (acceptanceData : AcceptanceData) : Except Failure DomainTransaction := do
  let data ← cs.getBlockData blockHash
  let txOuts ← coinbaseOutputsForVersion cs data acceptanceData coinbaseData
  let subsidy ← calcBlockSubsidy cs.coinbaseParams (blockHash = cs.genesisHash) data.daaScore
    cs.blockVersion
  let payload ← serializeCoinbasePayload cs.coinbaseParams data.ghostdagData.blueScore coinbaseData
    subsidy
  return ⟨0,[],txOuts,0,subnetworkIDCoinbase,0,payload⟩

/-! ## Amounts -/

/-- The outputs from block version 2 on with any share for the developers. -/
def rewardOutputsWithShare (share : UInt64 → UInt64) (reward : UInt64)
    (scriptPublicKey : Except Failure ScriptPublicKey) :
    Except Failure (List DomainTransactionOutput) :=
  if reward - share reward ≤ 0 then
    .ok []
  else do
    let scriptPublicKey ← scriptPublicKey
    return [⟨reward - share reward,scriptPublicKey⟩,
      ⟨share reward,cs.coinbaseParams.devFeeScriptPublicKey⟩]

/-- The subsidy and the accepted fees of a merged block, over the integers. -/
def mergedBlockAmount (acceptanceData : AcceptanceData) (hash : DomainHash) : Nat :=
  match findAcceptanceData acceptanceData hash, statedSubsidy cs hash with
  | some blockAcceptanceData, .ok subsidy =>
    subsidy.toNat+((acceptedFees blockAcceptanceData).map toNat).sum
  | _, _ => 0

/-- A block that is not in the DAA-added set counts nothing. -/
def countedAmount (acceptanceData : AcceptanceData) (daaAddedBlocks : List DomainHash)
    (hash : DomainHash) : Nat :=
  if hash ∈ daaAddedBlocks then mergedBlockAmount cs acceptanceData hash else 0

def totalValue (outputs : List DomainTransactionOutput) : Nat :=
  (outputs.map fun output => output.value.toNat).sum

variable {cs} {coinbaseData : DomainCoinbaseData} {daaAddedBlocks : List DomainHash}
  {acceptanceData : AcceptanceData} {blockHash : DomainHash} {reward : UInt64}

lemma toNat_sum (amounts : List UInt64) : amounts.sum.toNat = (amounts.map toNat).sum % 2^64 := by
  induction amounts with
  | nil => rfl
  | cons _ amounts ih =>
    rw [sum_cons,map_cons,sum_cons,UInt64.toNat_add,ih,add_mod_mod]

/-- An amount is at most another one, and equal to it exactly under a condition. -/
def Reaches (total amount : Nat) (p : Prop) : Prop :=
  total ≤ amount ∧ (total = amount ↔ p)

section
variable {a b c d : Nat} {p q : Prop}

lemma Reaches.of_eq (h : a = b) (hp : p) : Reaches a b p :=
  ⟨h.le,iff_of_true h hp⟩

lemma Reaches.mod (amount : Nat) : Reaches (amount % 2^64) amount (amount < 2^64) := by
  refine ⟨mod_le _ _,fun h => ?_,mod_eq_of_lt⟩
  rw [← h]
  exact mod_lt _ (by decide)

lemma Reaches.congr (h : Reaches a b p) (hq : p ↔ q) : Reaches a b q :=
  ⟨h.1,h.2.trans hq⟩

lemma Reaches.trans (h : Reaches a b p) (h' : Reaches b c q) : Reaches a c (p ∧ q) := by
  refine ⟨h.1.trans h'.1,?_⟩
  rw [← h.2,← h'.2]
  have := h.1
  have := h'.1
  omega

lemma Reaches.add (h : Reaches a b p) (h' : Reaches c d q) : Reaches (a+c) (b+d) (p ∧ q) := by
  refine ⟨Nat.add_le_add h.1 h'.1,?_⟩
  rw [← h.2,← h'.2]
  have := h.1
  have := h'.1
  omega

end

lemma devFeeQuantity_le (reward : UInt64) : devFeeQuantity reward ≤ reward := by
  rw [le_iff_toNat_le,devFeeQuantity,toNat_ofNat']
  exact (mod_le _ _).trans (Binary64.mulTwentieth_le _)

lemma devFeeQuantity_ne (reward : UInt64) (h : 0 < reward) : devFeeQuantity reward ≠ reward := by
  refine UInt64.ne_of_lt ?_
  rw [UInt64.lt_iff_toNat_lt,devFeeQuantity,UInt64.toNat_ofNat']
  exact (mod_le _ _).trans_lt (Binary64.mulTwentieth_lt (UInt64.lt_iff_toNat_lt.1 h))

section
variable
    (h : calcMergedBlockReward cs hash (findAcceptanceData acceptanceData hash)
      daaAddedBlocks = .ok reward)
include h

lemma calcMergedBlockReward_toNat :
    reward.toNat = countedAmount cs acceptanceData daaAddedBlocks hash % 2^64 := by
  rw [countedAmount,mergedBlockAmount]
  cases hf : findAcceptanceData acceptanceData hash with
  | none =>
    rw [hf] at h
    cases h
  | some _ =>
    rw [hf] at h
    obtain ⟨-,h⟩ := of_ite_error h
    split at h
    · next hn =>
      cases h
      rw [if_neg hn]
      rfl
    · next hm =>
      obtain ⟨_,hs,h⟩ := bind_eq_ok h
      cases h
      rw [if_pos (not_not.1 hm),hs,UInt64.toNat_add,toNat_sum,add_mod_mod]

end

lemma countedAmount_le_mergedBlockAmount :
    countedAmount cs acceptanceData daaAddedBlocks hash ≤
      mergedBlockAmount cs acceptanceData hash := by
  rw [countedAmount]
  split
  · exact le_rfl
  · exact zero_le _

lemma totalValue_split {devFee : UInt64} (h : devFee ≤ reward)
    (script devFeeScript : ScriptPublicKey) :
    totalValue [⟨reward - devFee,script⟩,⟨devFee,devFeeScript⟩] = reward.toNat := by
  have hle := UInt64.le_iff_toNat_le.1 h
  simp only [totalValue,map_cons,map_nil,sum_cons,sum_nil, UInt64.toNat_sub_of_le reward devFee h]
  omega

variable
  {rewardOutputs : UInt64 → Except Failure ScriptPublicKey →
    Except Failure (List DomainTransactionOutput)}
  {outputs : List DomainTransactionOutput} {paysFully : UInt64 → Prop}

/-- A way to pay out rewards that never pays more than the reward, and all of it for the
rewards with `paysFully`. -/
def Pays (rewardOutputs : UInt64 → Except Failure ScriptPublicKey →
    Except Failure (List DomainTransactionOutput)) (paysFully : UInt64 → Prop) : Prop :=
  ∀ reward script outputs, rewardOutputs reward script = .ok outputs →
    Reaches (totalValue outputs) reward.toNat (paysFully reward)

lemma pays_rewardOutputsV1 : Pays rewardOutputsV1 fun _ => True := by
  intro reward script outputs h
  refine .of_eq ?_ trivial
  rw [rewardOutputsV1] at h
  split at h
  · next hzr =>
    cases h
    exact (le_zero.1 (le_iff_toNat_le.1 hzr)).symm
  · obtain ⟨scriptPublicKey,-,h⟩ := bind_eq_ok h
    cases h
    simp [totalValue]

/-- A share as large as a positive reward takes the reward away: both outputs are dropped. -/
lemma pays_rewardOutputsWithShare {share : UInt64 → UInt64}
    (hle : ∀ reward, share reward ≤ reward) :
    Pays (rewardOutputsWithShare cs share) fun reward => 0 < reward → share reward ≠ reward := by
  intro reward script outputs h
  rw [rewardOutputsWithShare] at h
  split at h
  · next hzr =>
    cases h
    rw [UInt64.le_iff_toNat_le,UInt64.toNat_sub_of_le reward _ (hle reward)] at hzr
    have hsr : share reward = reward :=
      UInt64.toNat_inj.1 (le_antisymm (UInt64.le_iff_toNat_le.1 (hle reward))
        (Nat.sub_eq_zero_iff_le.1 (Nat.le_zero.1 hzr)))
    refine ⟨zero_le _,fun h0 hp => ?_,fun hf => ?_⟩
    · have hp : 0 < reward.toNat := UInt64.lt_iff_toNat_lt.1 hp
      exact absurd h0 hp.ne
    · by_contra h0
      exact hf (UInt64.lt_iff_toNat_lt.2 (pos_of_ne_zero (Ne.symm h0))) hsr
  · next hnz =>
    obtain ⟨scriptPublicKey,-,h⟩ := bind_eq_ok h
    cases h
    refine .of_eq (totalValue_split (hle reward) _ _) fun _ hsr => hnz ?_
    rw [hsr,UInt64.sub_self]
    exact UInt64.le_refl 0

section
variable (hp : Pays rewardOutputs paysFully)
include hp

/-- What is paid for a reward that stands for an amount. -/
lemma Pays.reaches {script : Except Failure ScriptPublicKey} {amount : Nat}
    (ho : rewardOutputs reward script = .ok outputs) (hr : reward.toNat = amount % 2^64) :
    Reaches (totalValue outputs) amount (amount < 2^64 ∧ paysFully (ofNat amount)) := by
  have hrw : reward = ofNat amount := UInt64.toNat_inj.1 (hr.trans UInt64.toNat_ofNat'.symm)
  have ho := hp _ _ _ ho
  have hm := hr ▸ Reaches.mod amount
  rw [hrw] at ho hm
  exact (ho.trans hm).congr and_comm

lemma blueOutputs_reaches {blues : List DomainHash} {outputs : List (List DomainTransactionOutput)}
    (h : blues.mapM (coinbaseOutputForBlueBlock cs rewardOutputs acceptanceData daaAddedBlocks) =
      .ok outputs) :
    Reaches (totalValue outputs.flatten)
      (blues.map (countedAmount cs acceptanceData daaAddedBlocks)).sum
      (∀ blue ∈ blues, countedAmount cs acceptanceData daaAddedBlocks blue < 2^64 ∧
        paysFully (ofNat (countedAmount cs acceptanceData daaAddedBlocks blue))) := by
  induction blues generalizing outputs with
  | nil =>
    cases h
    exact .of_eq rfl (by simp)
  | cons blue blues ih =>
    rw [mapM_cons] at h
    obtain ⟨first,hfr,_,hrs,h⟩ := bind₂_eq_ok h
    cases h
    obtain ⟨reward,hr,hfr⟩ := bind_eq_ok hfr
    rw [flatten_cons,totalValue,map_append,sum_append_nat]
    refine ((hp.reaches hfr (calcMergedBlockReward_toNat hr)).add (ih hrs)).congr ?_
    rw [forall_mem_cons]

end

lemma countedAmount_of_missing (h : findAcceptanceData acceptanceData hash = none) :
    countedAmount cs acceptanceData daaAddedBlocks hash = 0 := by
  rw [countedAmount,mergedBlockAmount,h]
  exact ite_self 0

lemma redRewards_toNat {reds : List DomainHash} {rewards : List UInt64}
    (h : redRewards cs acceptanceData daaAddedBlocks reds = .ok rewards) :
    rewards.sum.toNat =
      (reds.map (countedAmount cs acceptanceData daaAddedBlocks)).sum % 2^64 := by
  induction reds generalizing rewards with
  | nil =>
    cases h
    rfl
  | cons red reds ih =>
    rw [redRewards] at h
    split at h
    · next hfn => rw [ih h,map_cons,sum_cons,countedAmount_of_missing hfn,zero_add]
    · next blockAcceptanceData hfn =>
      obtain ⟨reward,hr,_,hrs,h⟩ := bind₂_eq_ok h
      cases h
      rw [← hfn] at hr
      rw [sum_cons,UInt64.toNat_add,calcMergedBlockReward_toNat hr,ih hrs,map_cons,sum_cons,
        ← Nat.add_mod]

variable (cs acceptanceData) in
/-- No sum of the coinbase transaction overflows, and every reward is paid fully. -/
def PaidFully (paysFully : UInt64 → Prop) (blockData : BlockData) : Prop :=
  (∀ blue ∈ blockData.ghostdagData.mergeSetBlues,
      countedAmount cs acceptanceData blockData.daaAddedBlocks blue < 2^64 ∧
        paysFully (ofNat (countedAmount cs acceptanceData blockData.daaAddedBlocks blue))) ∧
    (blockData.ghostdagData.mergeSetReds.map
      (countedAmount cs acceptanceData blockData.daaAddedBlocks)).sum < 2^64 ∧
    paysFully (ofNat (blockData.ghostdagData.mergeSetReds.map
      (countedAmount cs acceptanceData blockData.daaAddedBlocks)).sum)

variable (cs acceptanceData) in
/-- What the merged blocks in the DAA-added set earn, over the integers. -/
def earnedAmount (blockData : BlockData) : Nat :=
  ((blockData.ghostdagData.mergeSetBlues ++ blockData.ghostdagData.mergeSetReds).map
    (countedAmount cs acceptanceData blockData.daaAddedBlocks)).sum

lemma coinbaseOutputs_reaches (hp : Pays rewardOutputs paysFully)
    (h : coinbaseOutputs cs rewardOutputs blockData acceptanceData coinbaseData = .ok outputs) :
    Reaches (totalValue outputs) (earnedAmount cs acceptanceData blockData)
      (PaidFully cs acceptanceData paysFully blockData) := by
  obtain ⟨_,hbl,_,hred,h⟩ := bind₂_eq_ok h
  cases h
  obtain ⟨_,hrr,hred⟩ := bind_eq_ok hred
  rw [totalValue,map_append,sum_append_nat,earnedAmount,map_append,sum_append_nat]
  exact (blueOutputs_reaches hp hbl).add (hp.reaches hred (redRewards_toNat hrr))

/-- The outputs of a version that pays are worth what the merged blocks earn exactly when
nothing overflows. -/
lemma coinbaseOutputsForVersion_reaches
    (h : coinbaseOutputsForVersion cs blockData acceptanceData coinbaseData = .ok outputs) :
    Reaches (totalValue outputs) (earnedAmount cs acceptanceData blockData)
      (if cs.blockVersion = 0 then earnedAmount cs acceptanceData blockData = 0
        else PaidFully cs acceptanceData (fun _ => True) blockData) := by
  rw [coinbaseOutputsForVersion] at h
  split at h
  · next hv =>
    rw [if_neg (by rw [hv]; decide)]
    exact coinbaseOutputs_reaches pays_rewardOutputsV1 h
  · split at h
    · next hv =>
      rw [if_neg (fun h0 => absurd hv (by rw [h0]; decide))]
      have hps : Pays (rewardOutputsV2 cs) fun _ => True := fun reward script outputs h =>
        (pays_rewardOutputsWithShare devFeeQuantity_le reward script outputs h).congr
          (iff_true_intro (devFeeQuantity_ne reward))
      exact coinbaseOutputs_reaches hps h
    · next h1 h2 =>
      cases h
      rw [if_pos (by grind)]
      exact ⟨zero_le _,eq_comm⟩

lemma expectedCoinbaseTransaction_outputs (hd : cs.blockData blockHash = some blockData)
    (h : expectedCoinbaseTransaction cs blockHash coinbaseData acceptanceData = .ok tx) :
    tx.inputs = [] ∧
      coinbaseOutputsForVersion cs blockData acceptanceData coinbaseData = .ok tx.outputs := by
  rw [expectedCoinbaseTransaction,Consensus.getBlockData_eq_ok.2 hd,ok_bind] at h
  obtain ⟨outputs,hot,_,-,h⟩ := bind₂_eq_ok h
  obtain ⟨_,-,h⟩ := bind_eq_ok h
  cases h
  exact ⟨rfl,hot⟩

/-- The expected coinbase transaction pays at most the subsidies and the accepted
fees of the merge set. -/
lemma expectedCoinbaseTransaction_le (hd : cs.blockData blockHash = some blockData)
    (h : expectedCoinbaseTransaction cs blockHash coinbaseData acceptanceData = .ok tx) :
    tx.inputs = [] ∧ totalValue tx.outputs ≤ ((blockData.ghostdagData.mergeSetBlues ++
      blockData.ghostdagData.mergeSetReds).map (mergedBlockAmount cs acceptanceData)).sum := by
  obtain ⟨hin,hot⟩ := expectedCoinbaseTransaction_outputs hd h
  exact ⟨hin,(coinbaseOutputsForVersion_reaches hot).1.trans
    (sum_le_sum fun _ _ => countedAmount_le_mergedBlockAmount)⟩

/-- Block 2 merges block 1, which counts for its DAA score. -/
def mergingOne : Consensus Int :=
  sampleConsensus fun hash =>
    if hash = 2 then some { sampleBlockData 1 0 [] with daaAddedBlocks := [1] }
    else if hash = 1 then some (sampleBlockData 0 0 [])
    else if hash = 0 then some sampleGenesisData
    else none

/-- A transaction that spends the output of a coinbase transaction completely, as accepted from
a block. -/
def spentAsFee (amount : UInt64) (index : Nat) : TransactionAcceptanceData :=
  ⟨⟨0,[⟨⟨.ofNat _ index,0⟩,[],0,0,none⟩],[],0,0,0,[]⟩,amount,true,[⟨amount,⟨[],0⟩,true,0⟩]⟩

/-- The acceptance data of block 2: block 1 holds its coinbase transaction and transactions
with the given fees. -/
def acceptingFees (fees : List UInt64) : AcceptanceData :=
  [⟨1,⟨sampleCoinbase [],0,true,[]⟩ :: fees.mapIdx fun index fee => spentAsFee fee index⟩]

/-- Eleven transactions of block 1 that each leave `MaxSey` as a fee, which is the most that the
inputs of a transaction may be worth. -/
def elevenFees : AcceptanceData :=
  acceptingFees (replicate 11 1710000000000000000)

/-- The end of a script fits into a byte, and the block version has a target time
of at most a year. -/
structure ValidCoinbaseParams (p : CoinbaseParams) (blockVersion : UInt16) : Prop where
  maxLength : p.coinbasePayloadScriptPublicKeyMaxLength ≤ 236
  blocksPerYear : ∃ seconds, p.targetSecondsPerBlock[(blockVersion - 1).toNat]? = some seconds ∧
    31557600 / seconds ≠ 0

section
variable {p : CoinbaseParams} {data : BlockAcceptanceData}

lemma extractCoinbaseData_onlyRuleErrors (h : p.coinbasePayloadScriptPublicKeyMaxLength ≤ 236)
    (tx : DomainTransaction) :
    OnlyRuleErrors (extractCoinbaseDataBlueScoreAndSubsidy p tx) := by
  refine .ite (fun _ => .ruleError _ _) fun _ => ?_
  refine .ite (fun _ => .ruleError _ _) fun hl => ?_
  refine .ite (fun _ => .ruleError _ _) fun _ => ?_
  refine .ite (fun he => absurd he ?_) fun _ => .ok _
  -- the sum does not wrap around
  rw [UInt8.not_lt,UInt8.le_iff_toNat_le] at hl
  rw [UInt8.le_iff_toNat_le] at h
  rw [UInt8.not_lt,UInt8.le_iff_toNat_le,UInt8.toNat_add]
  have h236 : (236 : UInt8).toNat = 236 := rfl
  have h19 : (19 : UInt8).toNat = 19 := rfl
  omega

lemma calcBlockSubsidy_onlyRuleErrors {blockVersion : UInt16}
    (h : ValidCoinbaseParams p blockVersion) (isGenesis : Bool) (daaScore : UInt64) :
    OnlyRuleErrors (calcBlockSubsidy p isGenesis daaScore blockVersion) := by
  obtain ⟨_,hs,hb⟩ := h.blocksPerYear
  refine .ite (fun _ => .ok _) fun _ => .ite (fun _ => .ok _) fun _ => ?_
  rw [calcDeflationaryPeriodBlockSubsidy,indexSlice,hs]
  exact .ite (fun h => absurd h hb) fun _ => .ok _

lemma findAcceptanceData_spec (h : findAcceptanceData acceptanceData hash = some data) :
    data ∈ acceptanceData ∧ data.blockHash = hash :=
  ⟨mem_reverse.1 (mem_of_find?_eq_some h),by simpa using find?_some h⟩

lemma exists_findAcceptanceData (h : ∃ data ∈ acceptanceData, data.blockHash = hash) :
    ∃ data, findAcceptanceData acceptanceData hash = some data := by
  rw [← Option.isSome_iff_exists,findAcceptanceData,find?_isSome]
  obtain ⟨data,hd,hh⟩ := h
  exact ⟨data,mem_reverse.2 hd,by simpa using hh⟩

/-- What the coinbase of a block reads of its merge set: stored bodies and acceptance data. -/
structure CompleteMergeSet {M : Type} (cs : Consensus M) (blockData : BlockData)
    (acceptanceData : AcceptanceData) : Prop where
  stored : ∀ hash ∈ blockData.ghostdagData.mergeSetBlues ++ blockData.ghostdagData.mergeSetReds,
    ∃ data, cs.blockData hash = some data ∧ data.block.transactions ≠ []
  accepted : ∀ hash ∈ blockData.ghostdagData.mergeSetBlues,
    ∃ data ∈ acceptanceData, data.blockHash = hash
  txs : ∀ data ∈ acceptanceData, data.transactionAcceptanceData ≠ []

variable (hpr : ValidCoinbaseParams cs.coinbaseParams cs.blockVersion)
include hpr

lemma calcMergedBlockReward_onlyRuleErrors (hh : data.blockHash = hash)
    (hs : ∃ data, cs.blockData hash = some data ∧ data.block.transactions ≠ []) :
    OnlyRuleErrors (calcMergedBlockReward cs hash (some data) daaAddedBlocks) := by
  obtain ⟨blockData,hb,ht⟩ := hs
  refine .ite (fun h => absurd hh.symm h) fun _ => .ite (fun _ => .ok _) fun _ => ?_
  refine bind ?_ fun _ _ => .ok _
  rw [statedSubsidy,Consensus.getBlockData,hb]
  refine (indexSlice_zero ht).bind fun tx _ => ?_
  exact (extractCoinbaseData_onlyRuleErrors hpr.maxLength tx).bind fun _ _ => .ok _

variable
  (hrr : ∀ reward script, OnlyRuleErrors script → OnlyRuleErrors (rewardOutputs reward script))
include hrr

lemma coinbaseOutputs_onlyRuleErrors (h : CompleteMergeSet cs blockData acceptanceData) :
    OnlyRuleErrors (coinbaseOutputs cs rewardOutputs blockData acceptanceData coinbaseData) := by
  refine bind (.mapM fun blue hb => ?_) fun _ _ =>
    bind (bind ?_ fun rewards _ => hrr _ _ (.ok _)) fun _ _ => .ok _
  · obtain ⟨data,hdt⟩ := exists_findAcceptanceData (h.accepted blue hb)
    obtain ⟨hm,hhs⟩ := findAcceptanceData_spec hdt
    rw [coinbaseOutputForBlueBlock,hdt]
    refine (calcMergedBlockReward_onlyRuleErrors hpr hhs
      (h.stored blue (mem_append_left _ hb))).bind fun reward _ => hrr _ _ ?_
    refine (indexSlice_zero (h.txs data hm)).bind fun _ _ => ?_
    exact (extractCoinbaseData_onlyRuleErrors hpr.maxLength _).bind fun _ _ => .ok _
  · have hrd : ∀ red ∈ blockData.ghostdagData.mergeSetReds,
        ∃ data, cs.blockData red = some data ∧ data.block.transactions ≠ [] :=
      fun red hr => h.stored red (mem_append_right _ hr)
    generalize blockData.ghostdagData.mergeSetReds = reds at hrd
    induction reds with
    | nil => exact .ok []
    | cons red reds ih =>
      rw [forall_mem_cons] at hrd
      rw [redRewards]
      cases hdt : findAcceptanceData acceptanceData red with
      | none => exact ih hrd.2
      | some data =>
        obtain ⟨-,hhs⟩ := findAcceptanceData_spec hdt
        refine (calcMergedBlockReward_onlyRuleErrors hpr hhs hrd.1).bind fun reward _ => ?_
        exact (ih hrd.2).bind fun rewards _ => .ok _

end

lemma expectedCoinbaseTransaction_onlyRuleErrors
    (hpr : ValidCoinbaseParams cs.coinbaseParams cs.blockVersion)
    (hd : cs.blockData blockHash = some blockData)
    (h : CompleteMergeSet cs blockData acceptanceData) :
    OnlyRuleErrors (expectedCoinbaseTransaction cs blockHash coinbaseData acceptanceData) := by
  rw [expectedCoinbaseTransaction,Consensus.getBlockData_eq_ok.2 hd,ok_bind]
  refine bind ?_ fun _ _ => (calcBlockSubsidy_onlyRuleErrors hpr _ _).bind
    fun _ _ => bind ?_ fun _ _ => .ok _
  · refine .ite (fun _ => ?_) fun _ => .ite (fun _ => ?_) fun _ => .ok _
    all_goals
      refine coinbaseOutputs_onlyRuleErrors hpr (fun _ _ hs => ?_) h
      exact .ite (fun _ => .ok _) fun _ => hs.bind fun _ _ => .ok _
  · exact .ite (fun _ => .ruleError _ _) fun _ => .ok _

end
end Eiyaro
