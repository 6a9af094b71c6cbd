import Eiyaro.Consensus.Coinbase

/-!
# Block templates

A template is built over virtual for one miner (`BuildBlockTemplate` of
`consensus.go` and `block_builder.go`), and `ModifyBlockTemplate` of
`blocktemplatebuilder.go` turns it into one for another miner. This module compares
the coinbase transactions of the two.
-/

namespace Eiyaro
open List

/-! ## Modifying the payload -/

/-- `copy(dst[offset:], src)`. -/
def copyAt {α : Type} (dst : List α) (offset : Nat) (src : List α) : List α :=
  dst.take offset ++ src.take (dst.length - offset) ++ dst.drop (offset+src.length)

lemma copyAt_after {α : Type} (written src rest : List α) (h : src.length ≤ rest.length) :
    copyAt (written ++ rest) written.length src = (written ++ src) ++ rest.drop src.length := by
  have hl : (written ++ rest).length - written.length = rest.length := by simp
  rw [copyAt,hl,take_of_length_le h]
  simp

/-- The payload that is written to: a longer or shorter one is allocated anew, with
the blue score and the subsidy of the old one. -/
def resizePayload (payload : List UInt8) (newPayloadLen : Nat) : Except Failure (List UInt8) :=
  if payload.length = newPayloadLen then
    .ok payload
  else if payload.length < 16 then
    .error (.panic "slice bounds out of range")
  else
    .ok (copyAt (List.replicate newPayloadLen 0) 0 (payload.take 16))

def modifyCoinbasePayload (payload : List UInt8) (coinbaseData : DomainCoinbaseData)
    (coinbasePayloadScriptPublicKeyMaxLength : UInt8) : Except Failure (List UInt8) :=
  let script := coinbaseData.scriptPublicKey.script
  if script.length > coinbasePayloadScriptPublicKeyMaxLength.toNat then
    .error (.ruleError .errBadCoinbasePayloadLen ("coinbase's payload script public key is " ++
      "longer than the max allowed length of " ++
      toString coinbasePayloadScriptPublicKeyMaxLength))
  else do
    let payload ← resizePayload payload (19+script.length+coinbaseData.extraData.length)
    let payload := copyAt payload 16 (putLittleEndian 2 coinbaseData.scriptPublicKey.version.toNat)
    let payload := copyAt payload 18 [UInt8.ofNat script.length]
    let payload := copyAt payload 19 script
    return copyAt payload (19+script.length) coinbaseData.extraData

lemma resizePayload_eq {scores : List UInt8} (hs : scores.length = 16)
    (rest : List UInt8) (n : Nat) :
    ∃ rest', resizePayload (scores ++ rest) (16+n) = .ok (scores ++ rest') ∧ rest'.length = n := by
  unfold resizePayload
  by_cases hsm : (scores ++ rest).length = 16+n
  · rw [if_pos hsm]
    rw [length_append] at hsm
    exact ⟨rest,rfl,by omega⟩
  · rw [if_neg hsm]
    have hc := copyAt_after [] scores (replicate (16+n) 0) (by simp [hs])
    refine ⟨replicate n 0,?_,length_replicate⟩
    simpa [hs] using hc

/-- The copies of `ModifyCoinbasePayload` fill the buffer behind the scores. -/
lemma copyAt_coinbaseData {scores version rest : List UInt8} (hs : scores.length = 16)
    (hv : version.length = 2) (length : UInt8) (script extraData : List UInt8)
    (hr : rest.length = 3+script.length+extraData.length) :
    copyAt (copyAt (copyAt (copyAt (scores ++ rest) 16 version) 18 [length]) 19 script)
      (19+script.length) extraData = scores ++ version ++ [length] ++ script ++ extraData := by
  have haf {written rest : List UInt8} (offset : Nat) (src : List UInt8)
      (ho : written.length = offset) (h : src.length ≤ rest.length) :
      copyAt (written ++ rest) offset src = (written ++ src) ++ rest.drop src.length := by
    subst ho
    exact copyAt_after written src rest h
  rw [haf 16 version hs (by omega),
    haf 18 [length] (by simp only [length_append]; omega)
      (by simp only [length_drop,length_singleton]; omega),
    haf 19 script (by simp only [length_append,length_singleton]; omega)
      (by simp only [length_drop,length_singleton]; omega),
    haf _ extraData
      (by simp only [length_append,length_singleton]; omega)
      (by simp only [length_drop,length_singleton]; omega)]
  -- nothing of the old buffer is left
  rw [drop_eq_nil_of_le,append_nil]
  simp only [length_drop,length_singleton]
  omega

variable {payload : List UInt8}

/-- The blue score and the subsidy are kept, all else is written anew. -/
lemma modifyCoinbasePayload_serialize {p : CoinbaseParams} {blueScore subsidy : UInt64}
    {coinbaseData : DomainCoinbaseData}
    (h : serializeCoinbasePayload p blueScore coinbaseData subsidy = .ok payload)
    (newCoinbaseData : DomainCoinbaseData) :
    modifyCoinbasePayload payload newCoinbaseData p.coinbasePayloadScriptPublicKeyMaxLength =
      serializeCoinbasePayload p blueScore newCoinbaseData subsidy := by
  obtain ⟨-,h⟩ := of_ite_error h
  cases h
  unfold modifyCoinbasePayload serializeCoinbasePayload
  dsimp only
  split
  · rfl
  · have hs : (putLittleEndian 8 blueScore.toNat ++
        putLittleEndian 8 subsidy.toNat).length = 16 := by
      simp
    obtain ⟨_,hr,hrs⟩ := resizePayload_eq hs
      (putLittleEndian 2 coinbaseData.scriptPublicKey.version.toNat ++
        ([UInt8.ofNat coinbaseData.scriptPublicKey.script.length] ++
        (coinbaseData.scriptPublicKey.script ++ coinbaseData.extraData)))
      (3+newCoinbaseData.scriptPublicKey.script.length+newCoinbaseData.extraData.length)
    simp only [append_assoc] at hr ⊢
    rw [show 19+newCoinbaseData.scriptPublicKey.script.length +
        newCoinbaseData.extraData.length = 16+(3 +
        newCoinbaseData.scriptPublicKey.script.length +
        newCoinbaseData.extraData.length) by omega,hr,ok_bind]
    have hc := copyAt_coinbaseData hs
      (length_putLittleEndian 2 newCoinbaseData.scriptPublicKey.version.toNat)
      (UInt8.ofNat newCoinbaseData.scriptPublicKey.script.length)
      newCoinbaseData.scriptPublicKey.script newCoinbaseData.extraData hrs
    simp only [append_assoc] at hc
    rw [hc]
    rfl

/-- For scripts within the limit: what was serialized or put into the payload later is
extracted again if and only if both scripts have at most 236 bytes. -/
theorem coinbasePayload_roundTrip (p : CoinbaseParams) (blueScore subsidy : UInt64)
    (coinbaseData newData : DomainCoinbaseData)
    (hlimit : coinbaseData.scriptPublicKey.script.length ≤
      p.coinbasePayloadScriptPublicKeyMaxLength.toNat)
    (hnewLimit : newData.scriptPublicKey.script.length ≤
      p.coinbasePayloadScriptPublicKeyMaxLength.toNat) :
    (∃ payload newPayload,
      serializeCoinbasePayload p blueScore coinbaseData subsidy = .ok payload ∧
      modifyCoinbasePayload payload newData p.coinbasePayloadScriptPublicKeyMaxLength =
        .ok newPayload ∧
      ∀ tx : DomainTransaction,
        extractCoinbaseDataBlueScoreAndSubsidy p { tx with payload := payload } =
          .ok (blueScore, coinbaseData, subsidy) ∧
        extractCoinbaseDataBlueScoreAndSubsidy p { tx with payload := newPayload } =
          .ok (blueScore, newData, subsidy)) ↔
      coinbaseData.scriptPublicKey.script.length ≤ 236 ∧
        newData.scriptPublicKey.script.length ≤ 236 := by
  obtain ⟨payload,hpy⟩ : ∃ payload,
      serializeCoinbasePayload p blueScore coinbaseData subsidy = .ok payload :=
    ⟨_,if_neg (not_lt.2 hlimit)⟩
  obtain ⟨newPayload,hn⟩ : ∃ newPayload,
      serializeCoinbasePayload p blueScore newData subsidy = .ok newPayload :=
    ⟨_,if_neg (not_lt.2 hnewLimit)⟩
  have hmd := (modifyCoinbasePayload_serialize hpy newData).trans hn
  constructor
  · rintro ⟨_,_,hs,hm,he⟩
    obtain rfl := Except.ok.inj (hpy.symm.trans hs)
    obtain rfl := Except.ok.inj (hmd.symm.trans hm)
    obtain ⟨he,hne⟩ := he (sampleCoinbase [])
    have hle := scriptLength_le_of_extract he
    have hnle := scriptLength_le_of_extract hne
    -- the length byte holds the length, which is at most the limit
    have hlt := p.coinbasePayloadScriptPublicKeyMaxLength.toNat_lt
    rw [getD_serialize hpy,UInt8.toNat_ofNat',Nat.mod_eq_of_lt (by omega)] at hle
    rw [getD_serialize hn,UInt8.toNat_ofNat',Nat.mod_eq_of_lt (by omega)] at hnle
    exact ⟨hle,hnle⟩
  · rintro ⟨hl,hnl⟩
    exact ⟨payload,newPayload,hpy,hmd,fun tx => ⟨extractCoinbaseData_serialize hl hpy,
      extractCoinbaseData_serialize hnl hn⟩⟩

/-- Parameters with a limit on scripts. -/
def payloadLimit (limit : UInt8) : CoinbaseParams :=
  ⟨8,8,limit,100,[20],⟨[],0⟩⟩

theorem coinbasePayload_roundTrip_of_limit_255 :
    ∃ payload newPayload,
      serializeCoinbasePayload (payloadLimit 255) 7 ⟨⟨[1,2],3⟩,[4]⟩ 9 = .ok payload ∧
      modifyCoinbasePayload payload ⟨⟨[5],6⟩,[]⟩ 255 = .ok newPayload ∧
      extractCoinbaseDataBlueScoreAndSubsidy (payloadLimit 255)
        { sampleCoinbase [] with payload := newPayload } = .ok (7, ⟨⟨[5],6⟩,[]⟩, 9) := by
  obtain ⟨payload,newPayload,hs,hm,h⟩ := (coinbasePayload_roundTrip
    (payloadLimit 255) 7 9 ⟨⟨[1,2],3⟩,[4]⟩ ⟨⟨[5],6⟩,[]⟩ (by decide) (by decide)).2 (by decide)
  exact ⟨payload,newPayload,hs,hm,(h _).2⟩

/-- The end of a script of 237 bytes is 256, which is 0 as a byte. -/
theorem extractCoinbaseData_panics :
    (serializeCoinbasePayload (payloadLimit 255) 0 ⟨⟨replicate 237 0,0⟩,[]⟩ 0 >>= fun payload =>
      extractCoinbaseDataBlueScoreAndSubsidy (payloadLimit 255)
        { sampleCoinbase [] with payload := payload }) =
      .error (.panic "slice bounds out of range") := by
  decide +kernel

/-! ## Templates -/

structure DomainBlockTemplate where
  block : DomainBlock
  coinbaseData : DomainCoinbaseData
  coinbaseHasRedReward : Bool
  isNearlySynced : Bool

def DomainBlockTemplate.coinbase (template : DomainBlockTemplate) : Option DomainTransaction :=
  template.block.transactions.head?

/-- What the block builder takes from the rest of the node. -/
structure BlockBuilder where
  validateTransactions : List DomainTransaction → Except Failure Unit
  newBlockPruningPoint : Except Failure DomainHash
  buildHeader : List DomainTransaction → DomainHash → Except Failure BlockHeader
  calculateHashMerkleRoot : List DomainTransaction → DomainHash
  isNearlySynced : Except Failure Bool

section
variable {M : Type} (cs : Consensus M)

/-- `ExpectedCoinbaseTransaction` of virtual with its second result. The branches for
the block versions declare variables `hasRedReward` of their own, so the one that is
returned is never assigned. -/
def newBlockCoinbaseTransaction (acceptanceData : AcceptanceData)
    (coinbaseData : DomainCoinbaseData) : Except Failure (DomainTransaction × Bool) := do
  let transaction ← expectedCoinbaseTransaction cs virtualBlockHash coinbaseData acceptanceData
  let hasRedReward := false
  return (transaction, hasRedReward)

variable (builder : BlockBuilder)

section
variable (acceptanceData : AcceptanceData) (coinbaseData : DomainCoinbaseData)

def buildBlock (transactions : List DomainTransaction) : Except Failure (DomainBlock × Bool) := do
  builder.validateTransactions transactions
  let newBlockPruningPoint ← builder.newBlockPruningPoint
  let (coinbase, coinbaseHasRedReward) ← newBlockCoinbaseTransaction cs acceptanceData coinbaseData
  let header ← builder.buildHeader (coinbase :: transactions) newBlockPruningPoint
  return (⟨header,coinbase :: transactions,""⟩, coinbaseHasRedReward)

def buildBlockTemplate
    (transactions : List DomainTransaction) : Except Failure DomainBlockTemplate := do
  let (block, hasRedReward) ← buildBlock cs builder acceptanceData coinbaseData transactions
  let isNearlySynced ← builder.isNearlySynced
  return ⟨block,coinbaseData,hasRedReward,isNearlySynced⟩

/-- The outputs with the script of the last one replaced, if the template says that it
pays for red blocks. -/
def modifyOutputs (coinbaseHasRedReward : Bool) (outputs : List DomainTransactionOutput)
    (scriptPublicKey : ScriptPublicKey) : Except Failure (List DomainTransactionOutput) :=
  if coinbaseHasRedReward then do
    let last ← indexSlice outputs (outputs.length - 1)
    return outputs.set (outputs.length - 1) { last with scriptPublicKey := scriptPublicKey }
  else
    .ok outputs

def modifyBlockTemplate (newTimestamp : Int) (newCoinbaseData : DomainCoinbaseData)
    (template : DomainBlockTemplate) : Except Failure DomainBlockTemplate := do
  let coinbaseTx ← indexSlice template.block.transactions 0
  let newPayload ← modifyCoinbasePayload coinbaseTx.payload newCoinbaseData
    cs.coinbaseParams.coinbasePayloadScriptPublicKeyMaxLength
  let outputs ← modifyOutputs template.coinbaseHasRedReward coinbaseTx.outputs
    newCoinbaseData.scriptPublicKey
  let transactions := template.block.transactions.set 0
    { coinbaseTx with payload := newPayload, outputs := outputs }
  let header := template.block.header
  let header := { header with
    hashMerkleRoot := builder.calculateHashMerkleRoot transactions
    timeInMilliseconds :=
      if newTimestamp ≥ header.timeInMilliseconds then newTimestamp
      else header.timeInMilliseconds }
  return { template with
    block := { template.block with header := header, transactions := transactions }
    coinbaseData := newCoinbaseData }

/-! ## The red reward -/

/-- The outputs for the red blocks of the merge set of virtual. -/
def virtualRedOutputs : Except Failure (List DomainTransactionOutput) := do
  let data ← cs.getBlockData virtualBlockHash
  let outputsWith rewardOutputs := coinbaseOutputForRewardFromRedBlocks cs rewardOutputs
    data.ghostdagData acceptanceData data.daaAddedBlocks coinbaseData
  if cs.blockVersion = 1 then
    outputsWith rewardOutputsV1
  else if cs.blockVersion ≥ 2 then
    outputsWith (rewardOutputsV2 cs)
  else
    .ok []

/-- The coinbase transaction of a template has a red-reward output. -/
def HasRedReward : Prop :=
  ∃ outputs, virtualRedOutputs cs acceptanceData coinbaseData = .ok outputs ∧ outputs ≠ []

end

variable {cs builder}

/-- Whether a reward is paid depends on its amount only. -/
def PaysByAmount (rewardOutputs : UInt64 → Except Failure ScriptPublicKey →
    Except Failure (List DomainTransactionOutput)) : Prop :=
  ∀ reward script, (∃ outputs, rewardOutputs reward (.ok script) = .ok outputs ∧ outputs ≠ []) ∨
    ∀ script', rewardOutputs reward script' = .ok []

lemma rewardOutputsV1_paysByAmount : PaysByAmount rewardOutputsV1 := by
  intro reward _
  unfold rewardOutputsV1
  by_cases hp : reward ≤ 0
  · simp only [if_pos hp,implies_true,or_true]
  · simp only [if_neg hp,ok_bind]
    exact .inl ⟨_,rfl,cons_ne_nil _ _⟩

lemma rewardOutputsV2_paysByAmount : PaysByAmount (rewardOutputsV2 cs) := by
  intro reward _
  unfold rewardOutputsV2
  by_cases hp : reward - devFeeQuantity reward ≤ 0
  · simp only [if_pos hp,implies_true,or_true]
  · simp only [if_neg hp,ok_bind]
    exact .inl ⟨_,rfl,cons_ne_nil _ _⟩

variable {rewardOutputs : UInt64 → Except Failure ScriptPublicKey →
  Except Failure (List DomainTransactionOutput)} {acceptanceData : AcceptanceData}
  {c₁ c₂ : DomainCoinbaseData} {transactions : List DomainTransaction}
  {template : DomainBlockTemplate} {data : BlockData}

/-- Without a red reward the outputs do not depend on the miner. -/
lemma coinbaseOutputs_eq_of_noRedReward (hp : PaysByAmount rewardOutputs)
    (hred : ∀ outputs, coinbaseOutputForRewardFromRedBlocks cs rewardOutputs data.ghostdagData
      acceptanceData data.daaAddedBlocks c₁ = .ok outputs → outputs = []) :
    coinbaseOutputs cs rewardOutputs data acceptanceData c₁ =
      coinbaseOutputs cs rewardOutputs data acceptanceData c₂ := by
  unfold coinbaseOutputs
  unfold coinbaseOutputForRewardFromRedBlocks at hred ⊢
  cases hr : redRewards cs acceptanceData data.daaAddedBlocks data.ghostdagData.mergeSetReds with
  | error _ => rfl
  | ok rewards =>
    rw [hr] at hred
    rw [ok_bind,ok_bind]
    obtain ⟨outputs,ho,hne⟩ | hn := hp rewards.sum c₁.scriptPublicKey
    · exact absurd (hred outputs ho) hne
    · rw [hn,hn]

lemma coinbaseOutputsForVersion_eq_of_noRedReward (hd : cs.getBlockData virtualBlockHash = .ok data)
    (hr : ¬HasRedReward cs acceptanceData c₁) :
    coinbaseOutputsForVersion cs data acceptanceData c₁ =
      coinbaseOutputsForVersion cs data acceptanceData c₂ := by
  have hem : ∀ outputs, virtualRedOutputs cs acceptanceData c₁ = .ok outputs → outputs = [] := by
    intro outputs ho
    by_contra hne
    exact hr ⟨outputs,ho,hne⟩
  simp only [virtualRedOutputs,hd,ok_bind] at hem
  unfold coinbaseOutputsForVersion
  split_ifs at hem ⊢
  · exact coinbaseOutputs_eq_of_noRedReward rewardOutputsV1_paysByAmount hem
  · exact coinbaseOutputs_eq_of_noRedReward rewardOutputsV2_paysByAmount hem
  · rfl

/-! ## Modified and built templates -/

/-- What a built template consists of. -/
lemma buildBlockTemplate_eq_ok
    (h : buildBlockTemplate cs builder acceptanceData c₁ transactions = .ok template) :
    ∃ coinbase, expectedCoinbaseTransaction cs virtualBlockHash c₁ acceptanceData = .ok coinbase ∧
      template.block.transactions = coinbase :: transactions ∧
      template.coinbaseHasRedReward = false := by
  obtain ⟨⟨block,_⟩,hb,h⟩ := bind_eq_ok h
  obtain ⟨_,_,h⟩ := bind_eq_ok h
  cases h
  obtain ⟨_,_,_,_,hb⟩ := bind₂_eq_ok hb
  obtain ⟨⟨coinbase,_⟩,hcb,hb⟩ := bind_eq_ok hb
  obtain ⟨_,_,hb⟩ := bind_eq_ok hb
  cases hb
  obtain ⟨_,hcb',hp⟩ := bind_eq_ok hcb
  cases hp
  exact ⟨coinbase,hcb',rfl,rfl⟩

/-- A template that is modified for another miner has the coinbase transaction of the template
built for that miner, and its flag is right, if and only if there is no red reward. -/
theorem modifyBlockTemplate_coinbase {transactions : List DomainTransaction}
    {template₁ template₂ : DomainBlockTemplate}
    (h₁ : buildBlockTemplate cs builder acceptanceData c₁ transactions = .ok template₁)
    (h₂ : buildBlockTemplate cs builder acceptanceData c₂ transactions = .ok template₂)
    (newTimestamp : Int) :
    ((∃ modified, modifyBlockTemplate cs builder newTimestamp c₂ template₁ = .ok modified ∧
      modified.coinbase = template₂.coinbase) ∧
    (template₁.coinbaseHasRedReward = true ↔ HasRedReward cs acceptanceData c₁)) ↔
      ¬HasRedReward cs acceptanceData c₁ := by
  obtain ⟨_,hcn₁,ht₁,hf⟩ := buildBlockTemplate_eq_ok h₁
  -- the flag is never set, so that a red reward makes it wrong
  refine ⟨fun ⟨_,hi⟩ hred => by simp [hf] at hi; exact hi hred,fun hred => ?_⟩
  obtain ⟨_,hcn₂,ht₂,_⟩ := buildBlockTemplate_eq_ok h₂
  obtain ⟨_,hd,_,ho₁,hcn₁⟩ := bind₂_eq_ok hcn₁
  obtain ⟨_,hs₁,_,hp₁,hcn₁⟩ := bind₂_eq_ok hcn₁
  cases hcn₁
  obtain ⟨_,hd₂,_,ho₂,hcn₂⟩ := bind₂_eq_ok hcn₂
  obtain ⟨_,hs₂,_,hp₂,hcn₂⟩ := bind₂_eq_ok hcn₂
  cases hcn₂
  -- the two miners see the same virtual, and the outputs agree
  cases hd.symm.trans hd₂
  cases hs₁.symm.trans hs₂
  rw [← coinbaseOutputsForVersion_eq_of_noRedReward hd hred,ho₁] at ho₂
  cases ho₂
  have hp := modifyCoinbasePayload_serialize hp₁ c₂
  rw [hp₂] at hp
  refine ⟨?_,by simp [hf,hred]⟩
  -- without the flag only the payload of the coinbase transaction changes
  have hfr : ∀ tx, indexSlice (tx :: transactions) 0 = .ok tx := fun _ => rfl
  have ho : ∀ outs, modifyOutputs false outs c₂.scriptPublicKey = .ok outs := fun _ => rfl
  simp only [modifyBlockTemplate,ht₁,hf,hfr,hp,ho,ok_bind]
  refine ⟨_,rfl,?_⟩
  rw [DomainBlockTemplate.coinbase,DomainBlockTemplate.coinbase,ht₂]
  rfl

end

/-- Virtual merges block 1 as blue and block 2 as red, each with a subsidy of 8. Only the
blocks of the list count for the DAA score. -/
def templateBlocks (daaAddedBlocks : List DomainHash) (hash : DomainHash) : Option BlockData :=
  if hash = virtualBlockHash then
    some { sampleBlockData 1 0 [] with
      ghostdagData := ⟨1,2,some 1,[1],[2],∅⟩
      daaAddedBlocks := daaAddedBlocks }
  else if hash = 1 ∨ hash = 2 then
    some (sampleBlockData 0 0 [])
  else
    none

def templateAcceptanceData : AcceptanceData :=
  [⟨1,[⟨sampleCoinbase [],0,true,[]⟩]⟩,⟨2,[⟨sampleCoinbase [],0,false,[]⟩]⟩]

def templateBuilder : BlockBuilder where
  validateTransactions _ := .ok ()
  newBlockPruningPoint := .ok 0
  buildHeader _ _ := .ok (headerOn [1])
  calculateHashMerkleRoot _ := 0
  isNearlySynced := .ok true

/-- The template for a miner over `templateBlocks`. -/
def sampleTemplate (outputs : List DomainTransactionOutput) (script : List UInt8) :
    DomainBlockTemplate where
  block := ⟨headerOn [1],[⟨0,[],outputs,0,subnetworkIDCoinbase,0,
    [1,0,0,0,0,0,0,0,8,0,0,0,0,0,0,0,0,0,UInt8.ofNat script.length] ++ script⟩],""⟩
  coinbaseData := ⟨⟨script,0⟩,[]⟩
  coinbaseHasRedReward := false
  isNearlySynced := true

theorem modifyBlockTemplate_coinbase_of_blue :
    (∃ modified, modifyBlockTemplate (sampleConsensus (templateBlocks [1])) templateBuilder 7
        ⟨⟨[5,6],0⟩,[]⟩ (sampleTemplate [⟨8,⟨[],0⟩⟩] [4]) = .ok modified ∧
      modified.coinbase = (sampleTemplate [⟨8,⟨[],0⟩⟩] [5,6]).coinbase) ∧
    ((sampleTemplate [⟨8,⟨[],0⟩⟩] [4]).coinbaseHasRedReward = true ↔
      HasRedReward (sampleConsensus (templateBlocks [1])) templateAcceptanceData ⟨⟨[4],0⟩,[]⟩) := by
  have h₁ : buildBlockTemplate (sampleConsensus (templateBlocks [1])) templateBuilder
      templateAcceptanceData ⟨⟨[4],0⟩,[]⟩ [] = .ok (sampleTemplate [⟨8,⟨[],0⟩⟩] [4]) := rfl
  have h₂ : buildBlockTemplate (sampleConsensus (templateBlocks [1])) templateBuilder
      templateAcceptanceData ⟨⟨[5,6],0⟩,[]⟩ [] = .ok (sampleTemplate [⟨8,⟨[],0⟩⟩] [5,6]) := rfl
  refine (modifyBlockTemplate_coinbase h₁ h₂ 7).2 ?_
  rintro ⟨_,ho,hne⟩
  cases ho
  exact hne rfl

/-- A red reward still goes to the first miner after the modification, and the template
does not say that there is one. -/
theorem modifyBlockTemplate_keeps_red_script :
    let cs := sampleConsensus (templateBlocks [2])
    let c₁ : DomainCoinbaseData := ⟨⟨[4],0⟩,[]⟩
    let c₂ : DomainCoinbaseData := ⟨⟨[5,6],0⟩,[]⟩
    buildBlockTemplate cs templateBuilder templateAcceptanceData c₁ [] =
        .ok (sampleTemplate [⟨8,⟨[4],0⟩⟩] [4]) ∧
      buildBlockTemplate cs templateBuilder templateAcceptanceData c₂ [] =
        .ok (sampleTemplate [⟨8,⟨[5,6],0⟩⟩] [5,6]) ∧
      (∃ modified, modifyBlockTemplate cs templateBuilder 7 c₂
          (sampleTemplate [⟨8,⟨[4],0⟩⟩] [4]) = .ok modified ∧
        modified.coinbase = (sampleTemplate [⟨8,⟨[4],0⟩⟩] [5,6]).coinbase ∧
        modified.coinbase ≠ (sampleTemplate [⟨8,⟨[5,6],0⟩⟩] [5,6]).coinbase) ∧
      (sampleTemplate [⟨8,⟨[4],0⟩⟩] [4]).coinbaseHasRedReward = false ∧
      HasRedReward cs templateAcceptanceData c₁ := by
  refine ⟨rfl,rfl,⟨_,rfl,by decide,by decide⟩,rfl,[⟨8,⟨[4],0⟩⟩],rfl,by decide⟩

end Eiyaro
