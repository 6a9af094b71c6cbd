import Eiyaro.Mempool.Policy

/-!
# Selecting the coins of the wallet

`selectUTXOs` of `create_unsigned_transaction.go`. A request to send an amount or everything selects
UTXOs of the wallet. What the node answers for the virtual DAA score, the time and the addresses are
arguments. The printed amounts of an error are left out.

The loop goes over the UTXOs that are available, and takes a first part of them or all. All sums
are taken modulo 2^64 and none is checked.
-/

namespace Eiyaro.Wallet
open List

/-! ## The state of the daemon -/

structure WalletAddress where
  index : UInt32
  cosignerIndex : UInt32
  keyChain : UInt8
deriving DecidableEq

structure WalletUTXO where
  outpoint : DomainOutpoint
  utxoEntry : UTXOEntry
  address : WalletAddress

/-- The UTXO that a transaction is made from. -/
structure UTXO where
  outpoint : DomainOutpoint
  utxoEntry : UTXOEntry
  derivationPath : String

/-- The fields of the server that are read. Times are in nanoseconds. -/
structure Server where
  extendedPublicKeys : List String
  coinbaseMaturity : UInt64
  utxosSortedByAmount : List WalletUTXO
  usedOutpoints : FinMap DomainOutpoint Int
  startTimeOfLastCompletedRefresh : Int

def feePerInput : UInt64 := 10000

def minChangeTarget : UInt64 := Mempool.seyPerEY / 5

namespace Server
variable (s : Server)

def isMultisig : Bool := s.extendedPublicKeys.length > 1

def walletAddressPath (wAddr : WalletAddress) : String :=
  if s.isMultisig then
    "m/" ++ toString wAddr.cosignerIndex ++ "/" ++ toString wAddr.keyChain ++ "/" ++
      toString wAddr.index
  else
    "m/" ++ toString wAddr.keyChain ++ "/" ++ toString wAddr.index

def isUTXOSpendable (entry : WalletUTXO) (virtualDAAScore : UInt64) : Bool :=
  if entry.utxoEntry.blockDAAScore = 0 ∨ entry.utxoEntry.blockDAAScore+1 > virtualDAAScore then
    false
  else if ¬ entry.utxoEntry.isCoinbase then
    true
  else
    entry.utxoEntry.blockDAAScore+s.coinbaseMaturity < virtualDAAScore

def usedOutpointHasExpired (outpointBroadcastTime : Int) : Bool :=
  s.startTimeOfLastCompletedRefresh > outpointBroadcastTime+60*60*1000000000

def toUTXO (utxo : WalletUTXO) : UTXO :=
  ⟨utxo.outpoint,utxo.utxoEntry,s.walletAddressPath utxo.address⟩

def sortUTXOsByAmountDescending : Server :=
  { s with
    utxosSortedByAmount :=
      s.utxosSortedByAmount.insertionSort fun a b => a.utxoEntry.amount ≥ b.utxoEntry.amount }

end Server

/-! ## The selection loop -/

/-- What the loop over the UTXOs of the wallet has collected. -/
structure Selection where
  selectedUTXOs : List UTXO
  totalValue : UInt64
  usedOutpoints : FinMap DomainOutpoint Int

def Selection.add (selection : Selection) (s : Server) (utxo : WalletUTXO) : Selection :=
  { selection with
    selectedUTXOs := selection.selectedUTXOs ++ [s.toUTXO utxo]
    totalValue := selection.totalValue+utxo.utxoEntry.amount }

namespace Server
variable (s : Server) (fromAddresses : List WalletAddress) (virtualDAAScore : UInt64)

/-- The first part of the loop: `none` where it continues with the next UTXO. Without addresses to
spend from, every address will do. -/
def trySelect (selection : Selection) (utxo : WalletUTXO) : Option Selection :=
  if (fromAddresses ≠ [] ∧ utxo.address ∉ fromAddresses) ∨
      ¬ s.isUTXOSpendable utxo virtualDAAScore then
    none
  else
    match selection.usedOutpoints.get utxo.outpoint with
    | none => some (selection.add s utxo)
    | some broadcastTime =>
      if s.usedOutpointHasExpired broadcastTime then
        some ({ selection with
          usedOutpoints := selection.usedOutpoints.erase utxo.outpoint }.add s utxo)
      else
        none

/-- The loop of `selectUTXOs`. It ends when the inputs pay exactly, or when they leave enough
change and are at least two. -/
def selectLoop (spendAmount : UInt64) (isSendAll : Bool) : List WalletUTXO → Selection → Selection
  | [], selection => selection
  | utxo :: utxos, selection =>
    match s.trySelect fromAddresses virtualDAAScore selection utxo with
    | none => selectLoop spendAmount isSendAll utxos selection
    | some selection =>
      let fee := feePerInput*UInt64.ofNat selection.selectedUTXOs.length
      let totalSpend := spendAmount+fee
      if ¬ isSendAll ∧ (selection.totalValue = totalSpend ∨
          (selection.totalValue ≥ totalSpend+minChangeTarget ∧
            selection.selectedUTXOs.length > 1)) then
        selection
      else
        selectLoop spendAmount isSendAll utxos selection

/-! ## Requests -/

/-- What a selection hands over: the UTXOs, the value that is received and the change. -/
structure Selected where
  selectedUTXOs : List UTXO
  totalReceived : UInt64
  changeSey : UInt64

def selectUTXOs (getBlockDAGInfo : Except Failure UInt64) (spendAmount : UInt64)
    (isSendAll : Bool) : Except Failure (Selected × Server) := do
  let virtualDAAScore ← getBlockDAGInfo
  let s := s.sortUTXOsByAmountDescending
  let selection := s.selectLoop fromAddresses virtualDAAScore spendAmount isSendAll
    s.utxosSortedByAmount ⟨[],0,s.usedOutpoints⟩
  let fee := feePerInput*UInt64.ofNat selection.selectedUTXOs.length
  let totalSpend := if isSendAll then selection.totalValue else spendAmount+fee
  let totalReceived := if isSendAll then selection.totalValue - fee else spendAmount
  if selection.totalValue < totalSpend then
    .error (.error "Insufficient funds for send")
  else
    .ok (⟨selection.selectedUTXOs,totalReceived,selection.totalValue - totalSpend⟩,
      { s with usedOutpoints := selection.usedOutpoints })

/-! ## What is selected -/

/-- The UTXO has one of the addresses, can be spent, and is not marked as used unless the mark
has expired. -/
def isAvailable (utxo : WalletUTXO) : Bool :=
  (fromAddresses = [] ∨ utxo.address ∈ fromAddresses) && s.isUTXOSpendable utxo virtualDAAScore &&
    (s.usedOutpoints.get utxo.outpoint).all s.usedOutpointHasExpired

/-- The loop takes away only marks that have expired. -/
def KeepsUsed (usedOutpoints : FinMap DomainOutpoint Int) : Prop :=
  ∀ outpoint, usedOutpoints.get outpoint = s.usedOutpoints.get outpoint ∨
    usedOutpoints.get outpoint = none ∧
      (s.usedOutpoints.get outpoint).all s.usedOutpointHasExpired = true

variable {s fromAddresses virtualDAAScore} {selection : Selection} {utxo : WalletUTXO}
  {spendAmount : UInt64} {isSendAll : Bool} {utxos : List WalletUTXO}

/-- A mark that was taken away makes no difference. -/
lemma KeepsUsed.all_eq (hk : s.KeepsUsed selection.usedOutpoints) (outpoint : DomainOutpoint) :
    (selection.usedOutpoints.get outpoint).all s.usedOutpointHasExpired =
      (s.usedOutpoints.get outpoint).all s.usedOutpointHasExpired := by
  obtain h | ⟨hn,ha⟩ := hk outpoint
  · rw [h]
  · rw [hn,ha]
    rfl

/-- The loop leaves out what is not available, and nothing else. -/
lemma trySelect_spec (hk : s.KeepsUsed selection.usedOutpoints) (utxo : WalletUTXO) :
    (s.isAvailable fromAddresses virtualDAAScore utxo = false ∧
      s.trySelect fromAddresses virtualDAAScore selection utxo = none) ∨
    s.isAvailable fromAddresses virtualDAAScore utxo = true ∧
      ∃ selection', s.trySelect fromAddresses virtualDAAScore selection utxo = some selection' ∧
        selection'.selectedUTXOs = selection.selectedUTXOs ++ [s.toUTXO utxo] ∧
        selection'.totalValue = selection.totalValue+utxo.utxoEntry.amount ∧
        s.KeepsUsed selection'.usedOutpoints := by
  have ha := hk.all_eq utxo.outpoint
  rw [isAvailable,← ha,trySelect]
  by_cases hs : (fromAddresses ≠ [] ∧ utxo.address ∉ fromAddresses) ∨
      ¬ s.isUTXOSpendable utxo virtualDAAScore
  · refine .inl ⟨?_,if_pos hs⟩
    rw [Bool.and_eq_false_iff,Bool.and_eq_false_iff,decide_eq_false_iff_not,not_or]
    exact .inl (hs.imp_right Bool.eq_false_iff.2)
  · rw [if_neg hs]
    rw [not_or,not_and_or,not_not,not_not,not_not] at hs
    rw [decide_eq_true hs.1,hs.2]
    cases hu : selection.usedOutpoints.get utxo.outpoint with
    | none => exact .inr ⟨rfl,_,rfl,rfl,rfl,hk⟩
    | some t =>
      rw [hu] at ha
      dsimp only
      by_cases he : s.usedOutpointHasExpired t = true
      · refine .inr ⟨by simpa using he,_,if_pos he,rfl,rfl,fun o => ?_⟩
        by_cases ho : o = utxo.outpoint
        · rw [ho]
          exact .inr ⟨FinMap.get_erase_self _ _,ha.symm.trans he⟩
        · have hg : (selection.usedOutpoints.erase utxo.outpoint).get o =
              selection.usedOutpoints.get o := FinMap.get_erase_of_ne _ ho
          show (selection.usedOutpoints.erase utxo.outpoint).get o = _ ∨
            (selection.usedOutpoints.erase utxo.outpoint).get o = _ ∧ _
          rw [hg]
          exact hk o
      · exact .inl ⟨by simpa using he,if_neg he⟩

/-- A first part of what is available is taken, or all of it where everything is sent. -/
lemma selectLoop_eq {final : Selection} (hk : s.KeepsUsed selection.usedOutpoints)
    (h : s.selectLoop fromAddresses virtualDAAScore spendAmount isSendAll utxos selection = final) :
    ∃ picks : List WalletUTXO,
      picks <+: utxos.filter (s.isAvailable fromAddresses virtualDAAScore) ∧
      (isSendAll = true → picks = utxos.filter (s.isAvailable fromAddresses virtualDAAScore)) ∧
      final.selectedUTXOs = selection.selectedUTXOs ++ picks.map s.toUTXO ∧
      final.totalValue =
        picks.foldl (fun total utxo => total+utxo.utxoEntry.amount) selection.totalValue := by
  subst h
  induction utxos generalizing selection with
  | nil => exact ⟨[],prefix_rfl,fun _ => rfl,by simp [selectLoop],rfl⟩
  | cons utxo utxos ih =>
    unfold selectLoop
    obtain ⟨ha,ht⟩ | ⟨ha,selection',ht,hu,htt,hk'⟩ := trySelect_spec hk utxo
    · rw [ht,filter_cons_of_neg (by simp [ha])]
      exact ih hk
    · rw [ht,filter_cons_of_pos ha]
      dsimp only
      split
      · next hst => exact ⟨[utxo],prefix_append [utxo] _,fun hal => absurd hal hst.1,hu,htt⟩
      · obtain ⟨picks,hp,hal,hu',htt'⟩ := ih hk'
        refine ⟨utxo :: picks,(prefix_cons_inj utxo).2 hp,fun h => congrArg _ (hal h),?_,?_⟩
        · rw [hu',hu,append_assoc]
          rfl
        · rw [htt',htt]
          rfl

variable {selected : Selected} {s' : Server}

/-- The amounts of the selected UTXOs. -/
def Selected.amount (selected : Selected) : Nat :=
  (selected.selectedUTXOs.map (·.utxoEntry.amount.toNat)).sum

/-- The UTXOs that a selection goes over. -/
def available (s : Server) (fromAddresses : List WalletAddress) (virtualDAAScore : UInt64) :
    List WalletUTXO :=
  s.utxosSortedByAmount.filter (s.isAvailable fromAddresses virtualDAAScore)

def amountOf (utxos : List WalletUTXO) : Nat :=
  (utxos.map (·.utxoEntry.amount.toNat)).sum

lemma selectUTXOs_eq_ok
    (h : s.selectUTXOs fromAddresses (.ok virtualDAAScore) spendAmount isSendAll =
      .ok (selected, s')) :
    ∃ (picks : List WalletUTXO) (total fee totalSpend : UInt64),
      picks.Subperm (s.available fromAddresses virtualDAAScore) ∧
      (isSendAll = true → picks.Perm (s.available fromAddresses virtualDAAScore)) ∧
      total = picks.foldl (fun total utxo => total+utxo.utxoEntry.amount) 0 ∧
      fee = feePerInput*UInt64.ofNat picks.length ∧
      totalSpend = (if isSendAll then total else spendAmount+fee) ∧ totalSpend ≤ total ∧
      selected = ⟨picks.map s.toUTXO,if isSendAll then total - fee else spendAmount,
        total - totalSpend⟩ := by
  obtain ⟨hle,h⟩ := of_ite_error h
  have hp : (s.sortUTXOsByAmountDescending.utxosSortedByAmount.filter
      (s.isAvailable fromAddresses virtualDAAScore)).Perm
        (s.available fromAddresses virtualDAAScore) := (perm_insertionSort _ _).filter _
  generalize hf : selectLoop _ _ _ _ _ _ _ = final at h hle
  obtain ⟨picks,hsb,hal,hu,ht⟩ := selectLoop_eq (fun _ => .inl rfl) hf
  cases h
  simp only [hu,ht,nil_append,length_map] at hle ⊢
  refine ⟨picks,_,_,_,hsb.sublist.subperm.trans hp.subperm,fun h => ?_,rfl,rfl,rfl,
    UInt64.not_lt.1 hle,rfl⟩
  rw [hal h]
  exact hp

/-- What is received, the change and the fees add up to what is spent. -/
def Selected.Balances (selected : Selected) : Prop :=
  selected.amount = selected.totalReceived.toNat+selected.changeSey.toNat+
    feePerInput.toNat*selected.selectedUTXOs.length

/-- A wallet with one UTXO of two fees. -/
def sampleServer : Server :=
  ⟨[],0,[⟨⟨0,0⟩,⟨20000,⟨[],0⟩,false,1⟩,⟨0,0,0⟩⟩],∅,0⟩

end Server
end Eiyaro.Wallet
