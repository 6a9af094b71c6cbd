import Eiyaro.Mempool.Operations

/-!
# The candidates for a block

`BlockCandidateTransactions` of `mempool.go`. Of the transactions without parents in the pool,
those with at most two outputs and those that spend a coinbase output are candidates. Among
the others, a transaction with many more outputs than inputs has to pay for them, and of those
that do not pay more than that only the one with the oldest entries is taken.

The difference of the numbers of outputs and inputs goes through `strconv.ParseUint`, which
fails where there are more inputs than outputs.
-/

namespace Eiyaro
open List

namespace Mempool

/-! ## The source -/

/-- The number is read back from its decimal digits. -/
def checkedUint64FromExtraOutputs (value : Int) : Except MempoolFailure UInt64 :=
  if value < 0 then
    .error (.other (.panic ("strconv.ParseUint: parsing \"" ++ toString value ++
      "\": invalid syntax")))
  else
    .ok (UInt64.ofNat value.toNat)

/-- Clones of the transactions without parents in the pool. -/
def allReadyTransactions (mp : Mempool) (iteration : mp.allTransactions.Iteration) :
    List TransactionObject :=
  (iteration.entries.filter fun entry =>
    (mp.parentTransactionsInPool entry.2.transaction).length = 0).map
      fun entry => mp.objects entry.2.transaction

/-- `UTXOEntry.BlockDAAScore` of an input. -/
def inputDAAScore (input : DomainTransactionInput) : Except MempoolFailure UInt64 :=
  match input.utxoEntry with
  | none => .error (.other (.panic "invalid memory address or nil pointer dereference"))
  | some utxoEntry => .ok utxoEntry.blockDAAScore

/-- The greatest DAA score of the entries, beginning with that of `Inputs[0]`. -/
def newestUTXODaaScore (tx : TransactionObject) : Except MempoolFailure UInt64 :=
  match tx.inputs with
  | [] => .error (.other (.panic "index out of range"))
  | first :: _ => do
    let score ← inputDAAScore first
    tx.inputs.foldlM (fun newest input => do
      let score ← inputDAAScore input
      return if score > newest then score else newest) score

/-- Whether the fee is above that for the extra outputs, which is only computed where no
coinbase output is spent. -/
def paysForExtraOutputs (tx : TransactionObject) (hasCoinbaseInput : Bool) :
    Except MempoolFailure Bool :=
  if hasCoinbaseInput then
    .ok true
  else do
    let extraOutputs ← checkedUint64FromExtraOutputs (tx.outputs.length - tx.inputs.length)
    return decide (tx.fee > extraOutputs*seyPerEY)

structure CandidateSearch where
  candidateTxs : List TransactionObject
  spamTx : Option TransactionObject
  spamTxNewestUTXODaaScore : UInt64

/-- Keeps the transaction with the older entries, and the one it has if both are the same. -/
def CandidateSearch.offer (search : CandidateSearch) (tx : TransactionObject) (score : UInt64) :
    CandidateSearch :=
  match search.spamTx with
  | none => { search with spamTx := some tx, spamTxNewestUTXODaaScore := score }
  | some _ =>
    if score < search.spamTxNewestUTXODaaScore then
      { search with spamTx := some tx, spamTxNewestUTXODaaScore := score }
    else
      search

/-- The body of the loop. -/
def considerCandidate (search : CandidateSearch) (tx : TransactionObject) :
    Except MempoolFailure CandidateSearch :=
  if tx.outputs.length ≤ 2 then
    .ok { search with candidateTxs := search.candidateTxs ++ [tx] }
  else do
    let hasCoinbaseInput ← hasCoinbaseInput tx.inputs
    let numExtraOuts : Int := tx.outputs.length - tx.inputs.length
    if !hasCoinbaseInput && decide (numExtraOuts > 2) &&
        decide (tx.fee < UInt64.ofNat numExtraOuts.toNat*seyPerEY) then
      return search
    else do
      let pays ← paysForExtraOutputs tx hasCoinbaseInput
      if pays then
        return { search with candidateTxs := search.candidateTxs ++ [tx] }
      else do
        let score ← newestUTXODaaScore tx
        return search.offer tx score

def blockCandidateTransactions (mp : Mempool) (iteration : mp.allTransactions.Iteration) :
    Except MempoolFailure (List TransactionObject) := do
  let search ← (allReadyTransactions mp iteration).foldlM considerCandidate ⟨[],none,0⟩
  return search.candidateTxs ++ search.spamTx.toList

end Mempool

/-! ## The rules -/

namespace TransactionObject
variable (tx : TransactionObject)

def spendsCoinbase : Bool :=
  tx.inputs.any fun input => input.utxoEntry.any (·.isCoinbase)

/-- One EY for every output beyond the number of inputs. -/
def extraOutputsFee : UInt64 :=
  UInt64.ofNat (tx.outputs.length - tx.inputs.length)*Mempool.seyPerEY

/-- More than two extra outputs without the fee for them. -/
def IsSpam : Prop :=
  tx.spendsCoinbase = false ∧ tx.inputs.length+2 < tx.outputs.length ∧ tx.fee < tx.extraOutputsFee

/-- Only one transaction of this kind is taken. -/
def IsLimited : Prop :=
  2 < tx.outputs.length ∧ tx.spendsCoinbase = false ∧ ¬tx.IsSpam ∧ tx.fee ≤ tx.extraOutputsFee

instance : Decidable tx.IsSpam := inferInstanceAs (Decidable (_ ∧ _ ∧ _))

instance : Decidable tx.IsLimited := inferInstanceAs (Decidable (_ ∧ _ ∧ ¬_ ∧ _))

/-- The DAA score of the newest entry that is spent. -/
def HasNewest (score : UInt64) : Prop :=
  (∃ input ∈ tx.inputs, ∃ entry ∈ input.utxoEntry, entry.blockDAAScore = score) ∧
    ∀ input ∈ tx.inputs, ∀ entry ∈ input.utxoEntry, entry.blockDAAScore ≤ score

def Populated : Prop :=
  ∀ input ∈ tx.inputs, input.utxoEntry.isSome

/-- What the loop needs of a transaction with more than two outputs. -/
def Checkable : Prop :=
  2 < tx.outputs.length → tx.Populated ∧
    (tx.spendsCoinbase = false → tx.inputs ≠ [] ∧ tx.inputs.length ≤ tx.outputs.length)

instance : Decidable tx.Populated :=
  inferInstanceAs (Decidable (∀ input ∈ tx.inputs, _))

instance : Decidable tx.Checkable :=
  inferInstanceAs (Decidable (_ → _ ∧ (_ → _ ∧ _)))

variable {tx}

lemma HasNewest.unique {score score' : UInt64} (h : tx.HasNewest score)
    (h' : tx.HasNewest score') : score = score' := by
  obtain ⟨input,hi,entry,he,rfl⟩ := h.1
  obtain ⟨input',hi',entry',he',rfl⟩ := h'.1
  exact UInt64.le_antisymm (h'.2 input hi entry he) (h.2 input' hi' entry' he')

end TransactionObject

namespace Mempool
open TransactionObject

/-! ## One transaction -/

variable {tx : TransactionObject} {inputs : List DomainTransactionInput}

/-- The loop goes on from the greatest score so far. -/
lemma newest_foldlM (h : ∀ input ∈ inputs, input.utxoEntry.isSome) (score : UInt64) :
    ∃ newest, inputs.foldlM (fun newest input => do
        let score ← inputDAAScore input
        return if score > newest then score else newest) score =
          (Except.ok newest : Except MempoolFailure UInt64) ∧
      score ≤ newest ∧
      (∀ input ∈ inputs, ∀ entry ∈ input.utxoEntry, entry.blockDAAScore ≤ newest) ∧
      (newest = score ∨ ∃ input ∈ inputs, ∃ entry ∈ input.utxoEntry,
        entry.blockDAAScore = newest) := by
  induction inputs generalizing score with
  | nil => exact ⟨score,rfl,UInt64.le_refl score,forall_mem_nil _,.inl rfl⟩
  | cons input inputs ih =>
    rw [forall_mem_cons] at h
    obtain ⟨entry,he⟩ := Option.isSome_iff_exists.1 h.1
    let next := if entry.blockDAAScore > score then entry.blockDAAScore else score
    have hnx : score ≤ next ∧ entry.blockDAAScore ≤ next ∧
        (next = score ∨ next = entry.blockDAAScore) := by
      by_cases hlt : entry.blockDAAScore > score
      · rw [show next = _ from if_pos hlt]
        exact ⟨UInt64.le_of_lt hlt,UInt64.le_refl _,.inr rfl⟩
      · rw [show next = _ from if_neg hlt]
        exact ⟨UInt64.le_refl _,UInt64.not_lt.1 hlt,.inl rfl⟩
    obtain ⟨newest,hf,hle,hm,hmm⟩ := ih h.2 next
    refine ⟨newest,?_,UInt64.le_trans hnx.1 hle,?_,?_⟩
    · rw [foldlM_cons,inputDAAScore,he]
      exact hf
    · rw [forall_mem_cons]
      refine ⟨fun _ he' => ?_,hm⟩
      rw [he] at he'
      obtain rfl := Option.some.inj he'
      exact UInt64.le_trans hnx.2.1 hle
    · obtain rfl | ⟨input',hi',he'⟩ := hmm
      · obtain heq | heq := hnx.2.2
        · exact .inl heq
        · exact .inr ⟨input,mem_cons_self,entry,he,heq.symm⟩
      · exact .inr ⟨input',mem_cons_of_mem _ hi',he'⟩

lemma newestUTXODaaScore_eq (hp : tx.Populated) (hi : tx.inputs ≠ []) :
    ∃ score, newestUTXODaaScore tx = .ok score ∧ tx.HasNewest score := by
  unfold newestUTXODaaScore
  obtain ⟨first,_,heq⟩ := exists_cons_of_ne_nil hi
  have hf : first ∈ tx.inputs := heq ▸ mem_cons_self
  obtain ⟨entry,he⟩ := Option.isSome_iff_exists.1 (hp first hf)
  obtain ⟨newest,hfl,-,hm,hmem⟩ := newest_foldlM hp entry.blockDAAScore
  refine ⟨newest,?_,?_,hm⟩
  · split
    · contradiction
    · next first' _ heq' =>
      obtain rfl : first' = first := (cons.inj (heq'.symm.trans heq)).1
      rw [inputDAAScore,he]
      exact hfl
  · obtain rfl | hmem := hmem
    · exact ⟨first,hf,entry,he,rfl⟩
    · exact hmem

lemma toNat_extraOutputs : ((tx.outputs.length : Int) - tx.inputs.length).toNat =
    tx.outputs.length - tx.inputs.length := by
  omega

lemma paysForExtraOutputs_eq (h : tx.inputs.length ≤ tx.outputs.length) :
    paysForExtraOutputs tx false = .ok (decide (tx.fee > tx.extraOutputsFee)) := by
  have hn : ¬((tx.outputs.length : Int) - tx.inputs.length < 0) := by omega
  simp only [paysForExtraOutputs,Bool.false_eq_true,if_false,checkedUint64FromExtraOutputs,
    if_neg hn,toNat_extraOutputs]
  rfl

/-- The test of the source is the rule on extra outputs. -/
lemma isSpam_iff : ((!tx.spendsCoinbase &&
      decide ((tx.outputs.length : Int) - tx.inputs.length > 2) &&
      decide (tx.fee < UInt64.ofNat ((tx.outputs.length : Int) - tx.inputs.length).toNat *
        seyPerEY)) = true) ↔ tx.IsSpam := by
  have hlt : (tx.outputs.length : Int) - tx.inputs.length > 2 ↔
      tx.inputs.length+2 < tx.outputs.length := by omega
  simp only [Bool.and_eq_true,Bool.not_eq_true',decide_eq_true_eq,toNat_extraOutputs,hlt,and_assoc]
  rfl

/-! ## The loop -/

/-- What the search has found in the transactions that it has seen. -/
structure SearchInv (seen : List TransactionObject) (search : CandidateSearch) : Prop where
  candidates : search.candidateTxs = seen.filter fun tx => ¬tx.IsSpam ∧ ¬tx.IsLimited
  spam : ∀ best ∈ search.spamTx, best ∈ seen ∧ best.IsLimited ∧
    best.HasNewest search.spamTxNewestUTXODaaScore
  oldest : ∀ tx ∈ seen, tx.IsLimited → search.spamTx.isSome ∧
    ∀ score, tx.HasNewest score → search.spamTxNewestUTXODaaScore ≤ score

variable {seen : List TransactionObject} {search : CandidateSearch}

section
variable (h : SearchInv seen search)
include h

/-- The limited transaction found before stays. -/
lemma SearchInv.keep {candidateTxs : List TransactionObject}
    (hc : candidateTxs = (seen ++ [tx]).filter fun tx => ¬tx.IsSpam ∧ ¬tx.IsLimited)
    (htx : tx.IsLimited → search.spamTx.isSome ∧
      ∀ score, tx.HasNewest score → search.spamTxNewestUTXODaaScore ≤ score) :
    SearchInv (seen ++ [tx]) { search with candidateTxs := candidateTxs } := by
  refine ⟨hc,fun best hb => (h.spam best hb).imp_left (mem_append_left _),?_⟩
  rw [forall_mem_append,forall_mem_singleton]
  exact ⟨h.oldest,htx⟩

lemma SearchInv.skip (hs : tx.IsSpam) : SearchInv (seen ++ [tx]) search := by
  refine h.keep ?_ fun hl => absurd hs hl.2.2.1
  rw [filter_append,← h.candidates]
  simp [hs]

lemma SearchInv.candidate (hs : ¬tx.IsSpam) (hl : ¬tx.IsLimited) :
    SearchInv (seen ++ [tx]) { search with candidateTxs := search.candidateTxs ++ [tx] } := by
  refine h.keep ?_ fun hlm => absurd hlm hl
  rw [filter_append,← h.candidates]
  simp [hs,hl]

lemma SearchInv.limited (hl : tx.IsLimited) {score : UInt64} (hsc : tx.HasNewest score)
    : SearchInv (seen ++ [tx]) (search.offer tx score) := by
  have hc : search.candidateTxs = (seen ++ [tx]).filter fun tx => ¬tx.IsSpam ∧ ¬tx.IsLimited := by
    rw [filter_append,← h.candidates]
    simp [hl]
  have htx : tx ∈ seen ++ [tx] := mem_append_right _ mem_cons_self
  have ht : (∀ other ∈ seen, other.IsLimited → ∀ score', other.HasNewest score' →
      score ≤ score') → SearchInv (seen ++ [tx])
        { search with spamTx := some tx, spamTxNewestUTXODaaScore := score } := by
    intro hle
    refine ⟨hc,?_,?_⟩
    · intro _ hb
      obtain rfl := Option.some.inj hb
      exact ⟨htx,hl,hsc⟩
    · rw [forall_mem_append,forall_mem_singleton]
      exact ⟨fun other hot hlim => ⟨rfl,hle other hot hlim⟩,
        fun _ => ⟨rfl,fun score' hsc' => UInt64.le_of_eq (hsc.unique hsc')⟩⟩
  unfold CandidateSearch.offer
  split
  · next hn =>
    apply ht
    intro other hot hlim
    have hs := (h.oldest other hot hlim).1
    rw [hn] at hs
    cases hs
  · next he hh =>
    by_cases hlt : score < search.spamTxNewestUTXODaaScore
    · rw [if_pos hlt]
      apply ht
      intro other hot hlim score' hsc'
      exact UInt64.le_trans (UInt64.le_of_lt hlt) ((h.oldest other hot hlim).2 score' hsc')
    · rw [if_neg hlt]
      refine h.keep hc fun _ => ⟨by rw [hh]; rfl,fun score' hsc' => ?_⟩
      rw [← hsc.unique hsc']
      exact UInt64.not_lt.1 hlt

end

lemma considerCandidate_inv (hc : tx.Checkable) (h : SearchInv seen search) :
    ∃ search', considerCandidate search tx = .ok search' ∧ SearchInv (seen ++ [tx]) search' := by
  unfold considerCandidate
  by_cases ho : tx.outputs.length ≤ 2
  · have hsp : ¬tx.IsSpam := fun hsp => by
      have := hsp.2.1
      omega
    have hf : ¬tx.IsLimited := fun hl => by
      have := hl.1
      omega
    rw [if_pos ho]
    exact ⟨_,rfl,h.candidate hsp hf⟩
  · obtain ⟨hpp,hi⟩ := hc (by omega)
    have hcb : hasCoinbaseInput tx.inputs = .ok tx.spendsCoinbase := hasCoinbaseInput_eq hpp
    rw [if_neg ho,hcb,ok_bind]
    by_cases hsp : tx.IsSpam
    · rw [if_pos (isSpam_iff.2 hsp)]
      exact ⟨_,rfl,h.skip hsp⟩
    · rw [if_neg fun ht => hsp (isSpam_iff.1 ht)]
      -- a coinbase input, or a fee above that for the extra outputs, makes it a candidate
      have hp : ¬tx.IsLimited → ∃ search', (Except.ok
          { search with candidateTxs := search.candidateTxs ++ [tx] } :
            Except MempoolFailure CandidateSearch) = .ok search' ∧
          SearchInv (seen ++ [tx]) search' :=
        fun hl => ⟨_,rfl,h.candidate hsp hl⟩
      cases hsn : tx.spendsCoinbase with
      | true => exact hp fun hl => by simp [hl.2.1] at hsn
      | false =>
        obtain ⟨hne,hle⟩ := hi hsn
        rw [paysForExtraOutputs_eq hle]
        by_cases hfee : tx.fee > tx.extraOutputsFee
        · rw [decide_eq_true hfee]
          exact hp fun hl => absurd hfee (UInt64.not_lt.2 hl.2.2.2)
        · obtain ⟨_,hs,hn⟩ := newestUTXODaaScore_eq hpp hne
          rw [decide_eq_false hfee,hs]
          exact ⟨_,rfl,h.limited ⟨by omega,hsn,hsp,UInt64.not_lt.1 hfee⟩ hn⟩

lemma foldlM_considerCandidate (txs : List TransactionObject)
    (hch : ∀ tx ∈ txs, tx.Checkable) (h : SearchInv seen search) :
    ∃ search', txs.foldlM considerCandidate search = .ok search' ∧
      SearchInv (seen ++ txs) search' := by
  induction txs generalizing seen search with
  | nil => exact ⟨search,rfl,by rwa [append_nil]⟩
  | cons tx txs ih =>
    rw [forall_mem_cons] at hch
    obtain ⟨_,hn,hi⟩ := considerCandidate_inv hch.1 h
    obtain ⟨search',hs',hi'⟩ := ih hch.2 hi
    refine ⟨search',?_,?_⟩
    · rw [foldlM_cons,hn]
      exact hs'
    · rwa [append_assoc] at hi'

/-! ## All candidates -/

/-- The transaction is in the pool and has no parents there. -/
def Ready (mp : Mempool) (tx : TransactionObject) : Prop :=
  ∃ id transaction, mp.allTransactions.get id = some transaction ∧
    mp.parentTransactionsInPool transaction.transaction = [] ∧
    mp.objects transaction.transaction = tx

lemma mem_allReadyTransactions {mp : Mempool} (iteration : mp.allTransactions.Iteration) :
    tx ∈ allReadyTransactions mp iteration ↔ mp.Ready tx := by
  simp only [allReadyTransactions,mem_map,mem_filter,decide_eq_true_eq,length_eq_zero_iff]
  constructor
  · rintro ⟨⟨id,transaction⟩,⟨hm,hpr⟩,htx⟩
    exact ⟨id,transaction,iteration.mem_entries.1 hm,hpr,htx⟩
  · rintro ⟨id,transaction,hg,hpr,htx⟩
    exact ⟨(id, transaction),⟨iteration.mem_entries.2 hg,hpr⟩,htx⟩

/-- The ready transactions without spam, where one limited transaction with the oldest entries
stands for all of them. -/
def AreCandidates (mp : Mempool) (candidates : List TransactionObject) : Prop :=
  ∃ kept : Option TransactionObject,
    (∀ tx, tx ∈ candidates ↔ mp.Ready tx ∧ ¬tx.IsSpam ∧ (tx.IsLimited → kept = some tx)) ∧
    (∀ tx, kept = some tx → mp.Ready tx ∧ tx.IsLimited) ∧
    (∀ tx, mp.Ready tx → tx.IsLimited → ∃ best, kept = some best ∧
      ∀ score score', best.HasNewest score → tx.HasNewest score' → score ≤ score')

lemma blockCandidateTransactions_eq {mp : Mempool} (iteration : mp.allTransactions.Iteration)
    (hcheck : ∀ tx, mp.Ready tx → tx.Checkable) :
    ∃ candidates, blockCandidateTransactions mp iteration = .ok candidates ∧
      mp.AreCandidates candidates := by
  have hi : SearchInv [] ⟨[],none,0⟩ :=
    ⟨rfl,fun _ hbs => absurd hbs (Option.not_mem_none _),forall_mem_nil _⟩
  obtain ⟨search,hsr,hinv⟩ := foldlM_considerCandidate _
    (fun tx htx => hcheck tx ((mem_allReadyTransactions iteration).1 htx)) hi
  rw [nil_append] at hinv
  have hk : ∀ tx, search.spamTx = some tx → mp.Ready tx ∧ tx.IsLimited := by
    intro tx htx
    obtain ⟨hm,hlm,-⟩ := hinv.spam tx htx
    exact ⟨(mem_allReadyTransactions iteration).1 hm,hlm⟩
  refine ⟨search.candidateTxs ++ search.spamTx.toList,?_,search.spamTx,?_,hk,?_⟩
  · rw [blockCandidateTransactions,hsr]
    rfl
  · intro tx
    rw [mem_append,hinv.candidates,mem_filter,mem_allReadyTransactions,
      Option.mem_toList,decide_eq_true_eq]
    constructor
    · rintro (⟨hrd,hsp,hlm⟩ | hs)
      · exact ⟨hrd,hsp,fun hl => absurd hl hlm⟩
      · obtain ⟨hrd,hlm⟩ := hk tx hs
        exact ⟨hrd,hlm.2.2.1,fun _ => hs⟩
    · rintro ⟨hrd,hsp,hlm⟩
      by_cases hl : tx.IsLimited
      · exact .inr (hlm hl)
      · exact .inl ⟨hrd,hsp,hl⟩
  · intro tx hrd hlm
    obtain ⟨hsm,hle⟩ := hinv.oldest tx ((mem_allReadyTransactions iteration).2 hrd) hlm
    obtain ⟨best,hbs⟩ := Option.isSome_iff_exists.1 hsm
    refine ⟨best,hbs,fun score score' hsc hs' => ?_⟩
    rw [hsc.unique (hinv.spam best hbs).2.2]
    exact hle score' hs'

/-- A round that returns has not seen more inputs than outputs where that matters. -/
lemma checkable_of_considerCandidate (hp : tx.Populated) (hi : tx.inputs ≠ [])
    {search' : CandidateSearch} (h : considerCandidate search tx = .ok search') :
    tx.Checkable := by
  intro ho
  refine ⟨hp,fun hcb => ⟨hi,?_⟩⟩
  have hce : hasCoinbaseInput tx.inputs = .ok tx.spendsCoinbase := hasCoinbaseInput_eq hp
  unfold considerCandidate at h
  rw [if_neg (by omega),hce,ok_bind] at h
  by_cases hsp : tx.IsSpam
  · have := hsp.2.1
    omega
  · rw [if_neg fun ht => hsp (isSpam_iff.1 ht),hcb] at h
    obtain ⟨_,hpay,-⟩ := bind_eq_ok h
    obtain ⟨_,hn,-⟩ := bind_eq_ok hpay
    have := (of_ite_error hn).1
    omega

lemma checkable_of_foldlM {txs : List TransactionObject}
    (hp : ∀ tx ∈ txs, tx.Populated ∧ tx.inputs ≠ []) {search' : CandidateSearch}
    (h : txs.foldlM considerCandidate search = .ok search') : ∀ tx ∈ txs, tx.Checkable := by
  revert hp
  refine foldlM_rec h (fun _ => forall_mem_nil _) fun tx txs _ _ hn _ ih hp => ?_
  rw [forall_mem_cons] at hp
  exact forall_mem_cons.2 ⟨checkable_of_considerCandidate hp.1.1 hp.1.2 hn,ih hp.2⟩

/-- The state after one submission to an empty mempool. -/
def afterSubmission (tx : TransactionObject) : Option Mempool :=
  run (step sampleSetup) (new sampleSetup 0)
    [(sampleCall, .validateAndInsertTransaction tx false false)]

end Mempool
end Eiyaro
