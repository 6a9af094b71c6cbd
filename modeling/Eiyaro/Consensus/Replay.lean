import Eiyaro.Consensus.PastUtxo
import Eiyaro.Utxo.Leads

/-!
# Replaying accepted transactions on a UTXO set

The past UTXO set of a block is the one of its selected parent after the accepted
transactions of the merge set. `replayMergeSet` says this on UTXO sets. The code
computes the same on a diff to the UTXO set of virtual: whenever a diff leads to
a UTXO set, accepting the merge set on the diff and on the set give the same
acceptance data, and the new diff leads to the new set.
-/

namespace Eiyaro
open List DomainTransaction DomainTransactionInput UtxoCollection

namespace UtxoCollection

def spend (s : UtxoCollection) (outpoints : List DomainOutpoint) : UtxoCollection :=
  outpoints.foldl remove s

def create (s : UtxoCollection) (entries : List (DomainOutpoint × UTXOEntry)) : UtxoCollection :=
  entries.foldl (fun s p => s.add p.1 p.2) s

end UtxoCollection

/-- The outpoints that a transaction spends. -/
def DomainTransaction.outpoints (tx : DomainTransaction) : List DomainOutpoint :=
  tx.inputs.map previousOutpoint

def DomainTransaction.populatedFrom (tx : DomainTransaction) (s : UtxoCollection) :
    DomainTransaction :=
  { tx with inputs := tx.inputs.map fun input =>
      { input with utxoEntry := s.get input.previousOutpoint } }

/-- A transaction with the entries of its inputs, if the set has all of them. -/
def lookupInputs (s : UtxoCollection) (tx : DomainTransaction) : Option DomainTransaction :=
  if tx.outpoints.all s.contains then some (tx.populatedFrom s) else none

namespace Consensus
variable {M : Type} (cs : Consensus M)

def applyTransaction (s : UtxoCollection) (tx : DomainTransaction) (blockDAAScore : UInt64) :
    UtxoCollection :=
  (s.spend tx.outpoints).create (cs.createdEntries tx (isCoinBase tx) blockDAAScore)

section
variable (blockHash : DomainHash) (blockDAAScore : UInt64)

/-- A transaction is accepted when its inputs are in the set, and it is the
coinbase transaction of the selected parent or is valid in context. -/
def replayTransaction (isSelectedParent : Bool) (s : UtxoCollection) (tx : DomainTransaction) :
    Except Failure (UtxoCollection × TransactionAcceptanceData) :=
  match lookupInputs s tx with
  | none => .ok (s, ⟨tx,0,false,[]⟩)
  | some tx =>
    if isCoinBase tx then
      if isSelectedParent then
        .ok (cs.applyTransaction s tx blockDAAScore, ⟨tx,0,true,tx.inputs.filterMap (·.utxoEntry)⟩)
      else
        .ok (s, ⟨tx,0,false,[]⟩)
    else
      match cs.validateTransactionInContextAndPopulateFee tx blockHash blockDAAScore with
      | .error (.ruleError _ _) => .ok (s, ⟨tx,0,false,[]⟩)
      | .error failure => .error failure
      | .ok fee =>
        .ok (cs.applyTransaction s tx blockDAAScore,
          ⟨tx,fee,true,tx.inputs.filterMap (·.utxoEntry)⟩)

def replayBlock (s : UtxoCollection) (mergeSetBlock : (DomainHash × DomainBlock) × Nat) :
    Except Failure (UtxoCollection × BlockAcceptanceData) := do
  let ((mergeSetBlockHash, block), i) := mergeSetBlock
  let (s, accepted) ← mapAccum (cs.replayTransaction blockHash blockDAAScore (i == 0))
    block.transactions s
  return (s, ⟨mergeSetBlockHash,accepted⟩)

/-- The UTXO set after the accepted transactions of the merge set. -/
def replayMergeSet (data : BlockGHOSTDAGData) (s : UtxoCollection) :
    Except Failure (UtxoCollection × AcceptanceData) := do
  let mergeSetBlocks ← cs.mergeSetBlocks data
  mapAccum (cs.replayBlock blockHash blockDAAScore) mergeSetBlocks.zipIdx s

/-- The transaction creates no outpoint that is unspent. -/
def FreshOutputs (s : UtxoCollection) (tx : DomainTransaction) : Prop :=
  ∀ p ∈ cs.createdEntries tx (isCoinBase tx) blockDAAScore, (s.spend tx.outpoints).get p.1 = none

/-- No accepted transaction of the merge set creates an outpoint that is unspent
at that moment. -/
def NoRecreation (data : BlockGHOSTDAGData) (s : UtxoCollection) : Prop :=
  ∀ blocks, cs.mergeSetBlocks data = .ok blocks →
    mapAccum.Along (cs.replayBlock blockHash blockDAAScore)
      (fun s block => mapAccum.Along (cs.replayTransaction blockHash blockDAAScore (block.2 == 0))
        (fun s tx => ∀ s' data, cs.replayTransaction blockHash blockDAAScore (block.2 == 0) s tx =
          .ok (s', data) → data.isAccepted → cs.FreshOutputs blockDAAScore s tx)
        block.1.2.transactions s)
      blocks.zipIdx s

end
end Consensus

/-! ## Valid transactions -/

/-- What `ValidateTransactionInIsolation` and the mass limit of a block ensure. -/
structure DomainTransaction.ValidInIsolation (tx : DomainTransaction) : Prop where
  noPrefilledInputs : ∀ input ∈ tx.inputs, input.utxoEntry = none
  noDuplicateInputs : tx.outpoints.Nodup
  outputs_length : tx.outputs.length ≤ 2^32

/-- What `ValidateBodyInIsolation` ensures: the coinbase transaction is the first
transaction and the only one of its kind. -/
structure DomainBlock.ValidInIsolation (block : DomainBlock) : Prop where
  nonempty : block.transactions ≠ []
  coinbase : ∀ p ∈ block.transactions.zipIdx, isCoinBase p.1 = (p.2 == 0)
  transactions : ∀ tx ∈ block.transactions, tx.ValidInIsolation

/-! ## Looking up inputs -/

variable {values : DomainOutpoint → UInt64 → UTXOEntry} {d : UTXODiff} {s t : UtxoCollection}
  {tx tx' : DomainTransaction}

lemma lookupInputs_eq_some :
    lookupInputs s tx = some tx' ↔
      (∀ o ∈ tx.outpoints, s.contains o) ∧ tx.populatedFrom s = tx' := by
  rw [lookupInputs,Option.ite_none_right_eq_some,all_eq_true,Option.some.injEq]

lemma populateInput_eq (h : d.Leads values s t) {input : DomainTransactionInput}
    (hi : input.utxoEntry = none) :
    populateInput s d input = (t.get input.previousOutpoint).map fun entry =>
      { input with utxoEntry := some entry } := by
  rw [populateInput,hi,h.get_eq_lookup]
  cases d.toAdd.get input.previousOutpoint with
  | some entry => rfl
  | none =>
    dsimp only
    split
    · rfl
    · rfl

lemma mapM_populateInput_eq (h : d.Leads values s t) {inputs : List DomainTransactionInput}
    (hi : ∀ input ∈ inputs, input.utxoEntry = none) :
    inputs.mapM (populateInput s d) =
      if (inputs.map previousOutpoint).all t.contains then
        some (inputs.map fun input => { input with utxoEntry := t.get input.previousOutpoint })
      else
        none := by
  induction inputs with
  | nil => rfl
  | cons input rest ih =>
    rw [forall_mem_cons] at hi
    rw [mapM_cons,populateInput_eq h hi.1,ih hi.2,map_cons,all_cons,UtxoCollection.contains]
    cases hg : t.get input.previousOutpoint with
    | none => simp
    | some _ =>
      by_cases hr : (rest.map previousOutpoint).all t.contains
      · simp [hr,hg]
      · simp [hr]

/-- Populating from a diff is looking up in the set that the diff leads to. -/
lemma populateTransaction_eq (h : d.Leads values s t)
    (htx : ∀ input ∈ tx.inputs, input.utxoEntry = none) :
    populateTransaction s d tx =
      match lookupInputs t tx with
      | some tx => .ok tx
      | none => .error (.ruleError .errMissingTxOut "missing outpoints") := by
  rw [populateTransaction,mapM_populateInput_eq h htx,lookupInputs,outpoints]
  by_cases ha : (tx.inputs.map previousOutpoint).all t.contains
  · rw [if_pos ha,if_pos ha]
    rfl
  · rw [if_neg ha,if_neg ha]

lemma spentEntries_populatedFrom (h : ∀ o ∈ tx.outpoints, s.contains o) :
    ∃ spent, Consensus.spentEntries (tx.populatedFrom s) = .ok spent ∧
      spent.map Prod.fst = tx.outpoints ∧ ∀ p ∈ spent, s.get p.1 = some p.2 := by
  rw [Consensus.spentEntries,populatedFrom]
  rw [outpoints] at h ⊢
  generalize tx.inputs = inputs at h ⊢
  induction inputs with
  | nil => exact ⟨[],rfl,rfl,by simp⟩
  | cons input _ ih =>
    rw [map_cons,forall_mem_cons] at h
    obtain ⟨entry,he⟩ := Option.isSome_iff_exists.1 h.1
    obtain ⟨spent,hsp,hk,hg⟩ := ih h.2
    refine ⟨(input.previousOutpoint, entry) :: spent,?_,?_,?_⟩
    · rw [map_cons,mapM_cons,hsp]
      simp [he,pure,Except.pure]
    · rw [map_cons,map_cons,hk]
    · rw [forall_mem_cons]
      exact ⟨he,hg⟩

/-! ## Adding a transaction to a diff -/

section
open UTXODiff
variable {entries : List (DomainOutpoint × UTXOEntry)}

section
variable (hs : Agrees values s) (h : d.Leads values s t) (hnd : (entries.map Prod.fst).Nodup)
include hs h hnd

lemma UTXODiff.Leads.removeEntries (hg : ∀ p ∈ entries, t.get p.1 = some p.2) :
    ∃ d', entries.foldlM (fun diff (outpoint, entry) =>
        liftDiffError (diff.removeEntry outpoint entry)) d = .ok d' ∧
      d'.Leads values s (t.spend (entries.map Prod.fst)) := by
  induction entries generalizing d t with
  | nil => exact ⟨d,rfl,h⟩
  | cons p entries ih =>
    obtain ⟨o,e⟩ := p
    rw [map_cons,nodup_cons] at hnd
    rw [forall_mem_cons] at hg
    have hne : ∀ p ∈ entries, p.1 ≠ o := fun p hp heq =>
      hnd.1 (mem_map.2 ⟨p,hp,heq⟩)
    have hr : ∀ p ∈ entries, (t.remove o).get p.1 = some p.2 := fun p hp => by
      rw [remove,FinMap.get_erase_of_ne _ (hne p hp),hg.2 p hp]
    obtain ⟨_,hd₁,hl⟩ := h.removeEntry (o := o) (e := e) hs hg.1
    obtain ⟨d',hd',hl'⟩ := ih hl hnd.2 hr
    refine ⟨d',?_,hl'⟩
    rw [foldlM_cons]
    dsimp only
    rw [hd₁]
    exact hd'

lemma UTXODiff.Leads.addEntries (hg : ∀ p ∈ entries, t.get p.1 = none)
    (hvl : ∀ p ∈ entries, p.2 = values p.1 p.2.blockDAAScore) :
    ∃ d', entries.foldlM (fun diff (outpoint, entry) =>
        liftDiffError (diff.addEntry outpoint entry)) d = .ok d' ∧
      d'.Leads values s (t.create entries) := by
  induction entries generalizing d t with
  | nil => exact ⟨d,rfl,h⟩
  | cons p entries ih =>
    obtain ⟨o,e⟩ := p
    rw [map_cons,nodup_cons] at hnd
    rw [forall_mem_cons] at hg hvl
    have hne : ∀ p ∈ entries, p.1 ≠ o := fun p hp heq =>
      hnd.1 (mem_map.2 ⟨p,hp,heq⟩)
    have hr : ∀ p ∈ entries, (t.add o e).get p.1 = none := fun p hp => by
      rw [add,FinMap.get_insert_of_ne _ _ (hne p hp),hg.2 p hp]
    obtain ⟨_,hd₁,hl⟩ := h.addEntry (o := o) (e := e) hs hg.1 hvl.1
    obtain ⟨d',hd',hl'⟩ := ih hl hnd.2 hr hvl.2
    refine ⟨d',?_,hl'⟩
    rw [foldlM_cons]
    dsimp only
    rw [hd₁]
    exact hd'

end

namespace Consensus
variable {M : Type} {cs : Consensus M} {blockDAAScore : UInt64} {ghostdagData : BlockGHOSTDAGData}
  {isSelectedParent : Bool} {blockHash : DomainHash} {hash : DomainHash} {data : BlockData}

lemma createdEntries_nodup (isCoinbase : Bool) (h : tx.outputs.length ≤ 2^32) :
    ((cs.createdEntries tx isCoinbase blockDAAScore).map Prod.fst).Nodup := by
  have hk : (cs.createdEntries tx isCoinbase blockDAAScore).map Prod.fst =
      (range tx.outputs.length).map fun i => ⟨cs.transactionID tx,UInt32.ofNat i⟩ := by
    rw [createdEntries,range_eq_range',← zipIdx_map_snd,map_map,map_map]
    rfl
  rw [hk]
  refine List.Nodup.map_on ?_ nodup_range
  intro i hi j hj heq
  rw [mem_range] at hi hj
  have hid : (UInt32.ofNat i).toNat = (UInt32.ofNat j).toNat :=
    congrArg (fun o => DomainOutpoint.index o |>.toNat) heq
  rw [UInt32.toNat_ofNat',UInt32.toNat_ofNat',Nat.mod_eq_of_lt (by omega),
    Nat.mod_eq_of_lt (by omega)] at hid
  exact hid

lemma createdEntries_congr (hid : tx.unpopulated = tx'.unpopulated) (isCoinbase : Bool) :
    cs.createdEntries tx isCoinbase blockDAAScore =
      cs.createdEntries tx' isCoinbase blockDAAScore := by
  have ho : tx.unpopulated.outputs = tx'.unpopulated.outputs := by rw [hid]
  change tx.outputs = tx'.outputs at ho
  rw [createdEntries,createdEntries,ho,← cs.transactionID_unpopulated tx,hid,
    cs.transactionID_unpopulated]

section
variable (s tx)

lemma populatedFrom_unpopulated : (tx.populatedFrom s).unpopulated = tx.unpopulated := by
  simp [populatedFrom,unpopulated]

lemma populatedFrom_outpoints : (tx.populatedFrom s).outpoints = tx.outpoints := by
  simp [populatedFrom,outpoints]

end

/-- Adding a transaction to a diff applies it to the set that the diff leads to. -/
lemma addTransaction_leads (hs : Agrees values s) (h : d.Leads values s t)
    (htx : tx.ValidInIsolation) (hin : ∀ o ∈ tx.outpoints, t.contains o)
    (hf : cs.FreshOutputs blockDAAScore t tx)
    (hv : ∀ p ∈ cs.createdEntries tx (isCoinBase tx) blockDAAScore,
      p.2 = values p.1 p.2.blockDAAScore) :
    ∃ d', cs.addTransaction d (tx.populatedFrom t) blockDAAScore = .ok d' ∧
      d'.Leads values s (cs.applyTransaction t (tx.populatedFrom t) blockDAAScore) := by
  obtain ⟨_,hsp,hk,hg⟩ := spentEntries_populatedFrom hin
  obtain ⟨_,hd₁,hl₁⟩ := h.removeEntries hs (hk ▸ htx.noDuplicateInputs) hg
  rw [hk] at hl₁
  obtain ⟨d₂,hd₂,hl₂⟩ := hl₁.addEntries hs (createdEntries_nodup _ htx.outputs_length) hf hv
  have hc : cs.createdEntries (tx.populatedFrom t) (isCoinBase (tx.populatedFrom t))
      blockDAAScore = cs.createdEntries tx (isCoinBase tx) blockDAAScore :=
    createdEntries_congr (populatedFrom_unpopulated t tx) (isCoinBase tx)
  refine ⟨d₂,?_,?_⟩
  · have hi : checkOutputIndexes (tx.populatedFrom t) = .ok () :=
      if_neg (not_lt.2 htx.outputs_length)
    rw [addTransaction,hsp,ok_bind,hd₁,ok_bind,hi,ok_bind,hc,hd₂]
  · rw [applyTransaction,populatedFrom_outpoints,hc]
    exact hl₂

/-! ## Adding transactions in place -/

/-- Operations on a diff that is changed in place: an error leaves what was done before it. -/
def inPlace : List (UTXODiff → Except Failure UTXODiff) → UTXODiff → UTXODiff × Option Failure
  | [], diff => (diff, none)
  | operation :: operations, diff =>
    match operation diff with
    | .ok diff => inPlace operations diff
    | .error failure => (diff, some failure)

def removeInput (input : DomainTransactionInput) (diff : UTXODiff) : Except Failure UTXODiff :=
  match input.utxoEntry with
  | some utxoEntry => liftDiffError (diff.removeEntry input.previousOutpoint utxoEntry)
  | none => .error (.panic "invalid memory address or nil pointer dereference")

def addOutput (cs : Consensus M) (tx : DomainTransaction) (blockDAAScore : UInt64)
    (output : DomainTransactionOutput × Nat) (diff : UTXODiff) : Except Failure UTXODiff :=
  if output.2 ≥ 2^32 then
    .error (.error "output index cannot be represented as uint32")
  else
    liftDiffError (diff.addEntry ⟨cs.transactionID tx,UInt32.ofNat output.2⟩
      ⟨output.1.value,output.1.scriptPublicKey,isCoinBase tx,blockDAAScore⟩)

/-- `AddTransaction` on the diff itself, which keeps its changes when it fails. -/
def addTransactionInPlace (cs : Consensus M) (diff : UTXODiff) (tx : DomainTransaction)
    (blockDAAScore : UInt64) : UTXODiff × Option Failure :=
  inPlace (tx.inputs.map removeInput ++ tx.outputs.zipIdx.map (cs.addOutput tx blockDAAScore)) diff

/-- Transactions are added one after the other, each with the entries of its inputs. -/
def addTransactionsInPlace (cs : Consensus M) (s : UtxoCollection) :
    List (DomainTransaction × UInt64) → UTXODiff → UTXODiff × Option Failure
  | [], diff => (diff, none)
  | (tx, blockDAAScore) :: txs, diff =>
    match cs.addTransactionInPlace diff (tx.populatedFrom (diff.applyTo s)) blockDAAScore with
    | (diff, none) => addTransactionsInPlace cs s txs diff
    | failed => failed

/-- The set after the transactions, each with the entries that the ones before it left. -/
def applyTransactions (cs : Consensus M) (t : UtxoCollection)
    (txs : List (DomainTransaction × UInt64)) : UtxoCollection :=
  txs.foldl (fun t (tx, blockDAAScore) =>
    cs.applyTransaction t (tx.populatedFrom t) blockDAAScore) t

/-- Each transaction spends distinct outputs that are there and creates outputs that are not. -/
def Addable (cs : Consensus M) (values : DomainOutpoint → UInt64 → UTXOEntry) :
    UtxoCollection → List (DomainTransaction × UInt64) → Prop
  | _, [] => True
  | t, (tx, blockDAAScore) :: txs =>
    tx.ValidInIsolation ∧ (∀ o ∈ tx.outpoints, t.contains o) ∧ cs.FreshOutputs blockDAAScore t tx ∧
      (∀ p ∈ cs.createdEntries tx (isCoinBase tx) blockDAAScore,
        p.2 = values p.1 p.2.blockDAAScore) ∧
      Addable cs values (cs.applyTransaction t (tx.populatedFrom t) blockDAAScore) txs

lemma inPlace_of_foldlM {α : Type} {op : UTXODiff → α → Except Failure UTXODiff} {as : List α}
    {d' : UTXODiff} (h : as.foldlM op d = .ok d')
    (rest : List (UTXODiff → Except Failure UTXODiff)) :
    inPlace (as.map (fun a d => op d a) ++ rest) d = inPlace rest d' := by
  refine foldlM_rec h rfl fun a as d _ hn _ ih => ?_
  rw [map_cons,cons_append,inPlace,hn]
  exact ih

lemma addTransactionInPlace_of_ok {d' : UTXODiff}
    (h : cs.addTransaction d tx blockDAAScore = .ok d') :
    cs.addTransactionInPlace d tx blockDAAScore = (d', none) := by
  obtain ⟨_,hsp,_,hd₁,h⟩ := bind₂_eq_ok h
  obtain ⟨_,hi,h⟩ := bind_eq_ok h
  have hl : ¬tx.outputs.length > 2^32 := (of_ite_error hi).1
  have hin := map_mapM_ok hsp (h := removeInput) (g := fun p diff =>
      liftDiffError (diff.removeEntry p.1 p.2)) fun _ p hp => funext fun diff => by
    split at hp
    · next he =>
      cases hp
      rw [removeInput,he]
    · cases hp
  have hot : tx.outputs.zipIdx.map (cs.addOutput tx blockDAAScore) =
      (cs.createdEntries tx (isCoinBase tx) blockDAAScore).map fun p diff =>
        liftDiffError (diff.addEntry p.1 p.2) := by
    rw [createdEntries,map_map]
    refine map_congr_left fun _ ho => funext fun diff => if_neg ?_
    have := snd_lt_of_mem_zipIdx ho
    omega
  rw [addTransactionInPlace,← hin,hot,inPlace_of_foldlM hd₁]
  simpa [inPlace] using inPlace_of_foldlM h []

/-- Transactions that spend distinct unspent outputs and create new ones are all added, and the
diff then leads to the set after them. -/
theorem addTransactionsInPlace_leads {txs : List (DomainTransaction × UInt64)}
    (hs : Agrees values s) (h : d.Leads values s t) (htxs : cs.Addable values t txs) :
    ∃ d', cs.addTransactionsInPlace s txs d = (d', none) ∧
      d'.Leads values s (cs.applyTransactions t txs) := by
  induction txs generalizing d t with
  | nil => exact ⟨d,rfl,h⟩
  | cons _ txs ih =>
    obtain ⟨htx,hi,hf,hv,htxs⟩ := htxs
    obtain ⟨_,hn,hl⟩ := addTransaction_leads hs h htx hi hf hv
    obtain ⟨d',hd',hl'⟩ := ih hl htxs
    refine ⟨d',?_,hl'⟩
    rw [addTransactionsInPlace,h.applyTo_eq,addTransactionInPlace_of_ok hn]
    exact hd'

/-- One unspent output. -/
def oneUnspent : UtxoCollection :=
  (∅ : UtxoCollection).add ⟨7,0⟩ ⟨5,⟨[],0⟩,false,0⟩

def spendingSeven (times : Nat) : DomainTransaction :=
  ⟨0,replicate times ⟨⟨7,0⟩,[],0,0,none⟩,[⟨5,⟨[],0⟩⟩],0,0,0,[]⟩

/-- It spends what `spendingSeven 1` creates and creates the outpoint again. -/
def spendingCreated : DomainTransaction :=
  ⟨0,[⟨⟨0,0⟩,[],0,0,none⟩],[⟨5,⟨[],0⟩⟩],0,0,0,[]⟩

/-- The second transaction cancels what the first one added to the diff. -/
theorem addTransactionsInPlace_leads_chain :
    let cs := sampleConsensus fun _ => none
    let txs := [(spendingSeven 1, 9),(spendingCreated, 10)]
    ∃ d', cs.addTransactionsInPlace oneUnspent txs UTXODiff.newUTXODiff = (d', none) ∧
      d'.Leads (fun _ score => ⟨5,⟨[],0⟩,false,score⟩) oneUnspent
        (cs.applyTransactions oneUnspent txs) ∧
      d'.toRemove.keys = {⟨7,0⟩} ∧
      (d'.toAdd.get ⟨0,0⟩).map UTXOEntry.blockDAAScore = some 10 := by
  intro cs txs
  have hs : Agrees (fun _ score => ⟨5,⟨[],0⟩,false,score⟩) oneUnspent := by
    intro _ _ he
    rw [oneUnspent,add,FinMap.get_insert] at he
    split at he
    · cases he
      rfl
    · cases he
  have ha : cs.Addable (fun _ score => ⟨5,⟨[],0⟩,false,score⟩) oneUnspent txs := by
    refine ⟨⟨by decide,by decide,by decide⟩,by decide,?_,by decide,
      ⟨by decide,by decide,by decide⟩,by decide,?_,by decide,trivial⟩
    · unfold FreshOutputs
      decide
    · unfold FreshOutputs
      decide
  obtain ⟨d',hd,hl⟩ := addTransactionsInPlace_leads hs (.newUTXODiff _ _) ha
  obtain rfl : d' = (cs.addTransactionsInPlace oneUnspent txs UTXODiff.newUTXODiff).1 := by
    rw [hd]
  exact ⟨_,hd,hl,by decide,by decide⟩

/-- The second removal of an outpoint fails, and the first one stays. -/
theorem addTransactionInPlace_keeps_removal :
    let result := (sampleConsensus fun _ => none).addTransactionInPlace UTXODiff.newUTXODiff
      ((spendingSeven 2).populatedFrom (UTXODiff.newUTXODiff.applyTo oneUnspent)) 9
    result.2 = some (.error "removeEntry: Cannot remove outpoint twice") ∧
      result.1.toRemove.contains ⟨7,0⟩ = true ∧
      UTXODiff.newUTXODiff.toRemove.contains ⟨7,0⟩ = false := by
  decide

/-! ## Accepting a transaction -/

/-- What a replayed transaction can do: nothing, or all of its effect. -/
lemma replayTransaction_cases {t' : UtxoCollection} {data : TransactionAcceptanceData}
    (h : cs.replayTransaction blockHash blockDAAScore isSelectedParent t tx = .ok (t', data)) :
    (data.isAccepted = false ∧ t' = t) ∨
      (data.isAccepted = true ∧ data.transaction = tx.populatedFrom t ∧
        (∀ o ∈ tx.outpoints, t.contains o) ∧
        t' = cs.applyTransaction t (tx.populatedFrom t) blockDAAScore) := by
  rw [replayTransaction] at h
  split at h
  · cases h
    exact .inl ⟨rfl,rfl⟩
  · next populated hl =>
    obtain ⟨hi,rfl⟩ := lookupInputs_eq_some.1 hl
    split at h
    · split at h
      · cases h
        exact .inr ⟨rfl,rfl,hi,rfl⟩
      · cases h
        exact .inl ⟨rfl,rfl⟩
    · split at h
      · cases h
        exact .inl ⟨rfl,rfl⟩
      · cases h
      · cases h
        exact .inr ⟨rfl,rfl,hi,rfl⟩

lemma maybeAcceptTransaction_matches
    (hs : Agrees values s) (h : d.Leads values s t) (htx : tx.ValidInIsolation)
    (hvl : ∀ p ∈ cs.createdEntries tx (isCoinBase tx) blockDAAScore,
      p.2 = values p.1 p.2.blockDAAScore)
    (hfr : ∀ t' data, cs.replayTransaction blockHash blockDAAScore isSelectedParent t tx =
      .ok (t', data) → data.isAccepted → cs.FreshOutputs blockDAAScore t tx) :
    mapAccum.Matches (fun d t => Leads values d s t)
      (cs.maybeAcceptTransaction s blockHash blockDAAScore isSelectedParent d tx)
      (cs.replayTransaction blockHash blockDAAScore isSelectedParent t tx) := by
  rw [maybeAcceptTransaction,populateTransaction_eq h htx.noPrefilledInputs]
  rw [replayTransaction] at hfr ⊢
  cases hl : lookupInputs t tx with
  | none => exact .ok _ h
  | some _ =>
    obtain ⟨hi,rfl⟩ := lookupInputs_eq_some.1 hl
    rw [hl] at hfr
    dsimp only at hfr ⊢
    -- an accepted transaction is added to the diff, a rejected one leaves it as it is
    have ha : ∀ fee, cs.FreshOutputs blockDAAScore t tx →
        mapAccum.Matches (fun d t => Leads values d s t)
          (do
            let d ← cs.addTransaction d (tx.populatedFrom t) blockDAAScore
            return (d, (⟨tx.populatedFrom t,fee,true,
              (tx.populatedFrom t).inputs.filterMap (·.utxoEntry)⟩ : TransactionAcceptanceData)))
          (.ok (cs.applyTransaction t (tx.populatedFrom t) blockDAAScore,
            ⟨tx.populatedFrom t,fee,true,
              (tx.populatedFrom t).inputs.filterMap (·.utxoEntry)⟩)) := by
      intro fee hfr
      obtain ⟨_,hd',hld⟩ := addTransaction_leads hs h htx hi hfr hvl
      rw [hd']
      exact .ok _ hld
    by_cases hcb : isCoinBase (tx.populatedFrom t)
    · rw [if_pos hcb] at hfr
      rw [if_pos hcb,if_pos hcb]
      cases isSelectedParent with
      | false => exact .ok _ h
      | true => exact ha 0 (hfr _ _ rfl rfl)
    · rw [if_neg hcb] at hfr
      rw [if_neg hcb,if_neg hcb]
      cases hv : cs.validateTransactionInContextAndPopulateFee _ blockHash blockDAAScore with
      | ok fee =>
        rw [hv] at hfr
        exact ha fee (hfr _ _ rfl rfl)
      | error failure =>
        cases failure with
        | ruleError error message => exact .ok _ h
        | error message => exact .error _
        | panic message => exact .error _

/-! ## Accepting the merge set -/

/-- The stored blocks have passed `ValidateBodyInIsolation`, and an entry that one
of their transactions creates is determined by its outpoint and DAA score. -/
structure ValidBodies (cs : Consensus M) (values : DomainOutpoint → UInt64 → UTXOEntry) : Prop where
  validInIsolation : ∀ {hash data}, cs.blockData hash = some data → data.block.ValidInIsolation
  values_eq : ∀ {hash data}, cs.blockData hash = some data → ∀ tx ∈ data.block.transactions,
    ∀ daaScore, ∀ p ∈ cs.createdEntries tx (isCoinBase tx) daaScore, p.2 = values p.1 daaScore

lemma exists_of_mem_mergeSetBlocks
    {blocks : List (DomainHash × DomainBlock)} (h : cs.mergeSetBlocks ghostdagData = .ok blocks) :
    ∀ p ∈ blocks, ∃ data, cs.blockData p.1 = some data ∧ data.block = p.2 := by
  obtain ⟨_,-,h⟩ := bind_eq_ok h
  intro p hp
  obtain ⟨_,-,hp⟩ := exists_of_mem_mapM h p hp
  obtain ⟨data,hd,hp⟩ := bind_eq_ok hp
  cases hp
  exact ⟨data,getBlockData_eq_ok.1 hd,rfl⟩

lemma blockDAAScore_of_mem_createdEntries {isCoinbase : Bool} {p : DomainOutpoint × UTXOEntry}
    (hp : p ∈ cs.createdEntries tx isCoinbase blockDAAScore) :
    p.2.blockDAAScore = blockDAAScore := by
  obtain ⟨_,-,rfl⟩ := mem_map.1 hp
  rfl

section
variable (hbd : cs.ValidBodies values) (hs : Agrees values s) (h : d.Leads values s t)
include hbd hs h

/-- Accepting the merge set on a diff refines replaying it on the set that the
diff leads to. -/
lemma applyMergeSetBlocks_matches (hfr : cs.NoRecreation blockHash blockDAAScore ghostdagData t) :
    mapAccum.Matches (fun d t => Leads values d s t)
      (cs.applyMergeSetBlocks s blockHash ghostdagData (some d) blockDAAScore)
      (cs.replayMergeSet blockHash blockDAAScore ghostdagData t) := by
  rw [applyMergeSetBlocks,replayMergeSet]
  cases hb : cs.mergeSetBlocks ghostdagData with
  | error e => exact .error e
  | ok blocks =>
    refine mapAccum.simulates ?_ h (hfr blocks hb)
    rintro d t ⟨⟨_,_⟩,_⟩ hm h hfr
    obtain ⟨_,hd,rfl⟩ := exists_of_mem_mergeSetBlocks hb _ (fst_mem_of_mem_zipIdx hm)
    have ht := mapAccum.simulates
      (f := cs.maybeAcceptTransaction s blockHash blockDAAScore _)
      (fun d t tx htx h hfr => maybeAcceptTransaction_matches hs h
        ((hbd.validInIsolation hd).transactions tx htx)
        (fun p hp => by
          rw [blockDAAScore_of_mem_createdEntries hp]
          exact hbd.values_eq hd tx htx blockDAAScore p hp) hfr) h hfr
    exact ht.bind fun _ _ _ _ h' => .ok _ h'

end
end Consensus
end
end Eiyaro
