import Eiyaro.Consensus.Replay
import Eiyaro.Util.DeltaForest

/-!
# The stores of the consensus state manager

What UTXO resolution reads and changes. The UTXO set of virtual is stored as a
set. The past UTXO of a resolved block is stored as a diff to the past UTXO of its
diff child, or to the UTXO set of virtual, and `restorePastUTXO` walks along the
diff children to restore it.

Changes are staged and committed together, and reads see staged changes, so the
stores are one state that is passed along.
-/

namespace Eiyaro

/-- The status of a block whose past UTXO was calculated. -/
abbrev BlockStatus.IsResolved (status : BlockStatus) : Prop :=
  status = .statusUTXOValid ∨ status = .statusDisqualifiedFromChain

lemma BlockStatus.IsResolved.ne_pending {status : BlockStatus} (h : status.IsResolved) :
    status ≠ .statusUTXOPendingVerification := by
  rcases h with rfl | rfl <;> decide

structure ConsensusStores (M : Type) where
  utxoSet : UtxoCollection
  virtualGHOSTDAGData : BlockGHOSTDAGData
  tips : List DomainHash
  blockStatus : FinMap DomainHash BlockStatus
  utxoDiff : FinMap DomainHash UTXODiff
  utxoDiffChild : FinMap DomainHash DomainHash
  acceptanceData : FinMap DomainHash AcceptanceData
  multiset : FinMap DomainHash M

/-- A read from a store. -/
def fromStore {α : Type} : Option α → Except Failure α
  | some a => .ok a
  | none => .error (.error "not found")

/-- A use of a pointer or an interface value that can be nil. -/
def dereference {α : Type} : Option α → Except Failure α
  | some a => .ok a
  | none => .error (.panic "invalid memory address or nil pointer dereference")

lemma fromStore_eq_ok {α : Type} {x : Option α} {a : α} : fromStore x = .ok a ↔ x = some a := by
  cases x <;> simp [fromStore]

lemma dereference_eq_ok {α : Type} {x : Option α} {a : α} : dereference x = .ok a ↔ x = some a := by
  cases x <;> simp [dereference]

namespace ConsensusStores
variable {M : Type} (st : ConsensusStores M) (blockHash : DomainHash)

/-- `Stage` of the UTXO diff store. Without a diff child the stored one is kept. -/
def stageDiff (utxoDiff : UTXODiff) (utxoDiffChild : Option DomainHash) : ConsensusStores M :=
  { st with
    utxoDiff := st.utxoDiff.insert blockHash utxoDiff
    utxoDiffChild := match utxoDiffChild with
      | none => st.utxoDiffChild
      | some child => st.utxoDiffChild.insert blockHash child }

def stageStatus (status : BlockStatus) : ConsensusStores M :=
  { st with blockStatus := st.blockStatus.insert blockHash status }

def stageMultiset (multiset : M) : ConsensusStores M :=
  { st with multiset := st.multiset.insert blockHash multiset }

def stageAcceptanceData (acceptanceData : AcceptanceData) : ConsensusStores M :=
  { st with acceptanceData := st.acceptanceData.insert blockHash acceptanceData }

def virtualSelectedParent : Option DomainHash :=
  st.virtualGHOSTDAGData.selectedParent

/-! ## Restoring a past UTXO -/

/-- The first loop of `restorePastUTXO`. A walk over more blocks than there are
diffs never ends. -/
def collectUTXODiffs : Nat → DomainHash → Except Failure (List UTXODiff)
  | 0, _ => .error (.error "the diff children never end")
  | rounds+1, hash => do
    let blockStatus ← fromStore (st.blockStatus.get hash)
    if blockStatus = .statusHeaderOnly then
      .error (.error "block has a selected parent with no body")
    else
      let utxoDiff ← fromStore (st.utxoDiff.get hash)
      match st.utxoDiffChild.get hash with
      | none => return [utxoDiff]
      | some nextBlockHash =>
        let utxoDiffs ← collectUTXODiffs rounds nextBlockHash
        return utxoDiff :: utxoDiffs

def restorePastUTXO : Except Failure UTXODiff := do
  let utxoDiffs ← st.collectUTXODiffs st.utxoDiff.keys.card blockHash
  utxoDiffs.reverse.foldlM (fun accumulatedDiff utxoDiff =>
    liftDiffError (accumulatedDiff.withDiffInPlace utxoDiff)) UTXODiff.newUTXODiff

/-! ## The forest of diffs -/

/-- A block whose past UTXO was calculated. -/
def Resolved (hash : DomainHash) : Prop :=
  st.blockStatus.get hash = some .statusUTXOValid ∨
    st.blockStatus.get hash = some .statusDisqualifiedFromChain

def forest : DeltaForest DomainHash UTXODiff :=
  ⟨st.utxoDiff.get,st.utxoDiffChild.get⟩

/-- The diffs lead in `n` steps from the UTXO set of virtual to the UTXO set `s` of
a block, over blocks with `Q`. -/
abbrev Path (values : DomainOutpoint → UInt64 → UTXOEntry)
    (Q : DomainHash → Prop) (n : Nat) (hash : DomainHash) (s : UtxoCollection) : Prop :=
  st.forest.Path (UTXODiff.Leads values) st.utxoSet (fun hash => st.Resolved hash ∧ Q hash) n hash s

section
open UTXODiff
variable {st : ConsensusStores M} {values : DomainOutpoint → UInt64 → UTXOEntry}
  {Q : DomainHash → Prop} {n : Nat} {hash : DomainHash} {s : UtxoCollection}

lemma leads_unique (l : UTXODiff) (s t t' : UtxoCollection) (h : l.Leads values s t)
    (h' : l.Leads values s t') : t = t' :=
  h.applyTo_eq.symm.trans h'.applyTo_eq

lemma Path.unique {Q' : DomainHash → Prop} {m : Nat} {s' : UtxoCollection}
    (h : st.Path values Q n hash s) (h' : st.Path values Q' m hash s') : s = s' :=
  (DeltaForest.Path.unique leads_unique h h').2

lemma Resolved.ne_headerOnly (h : st.Resolved hash) :
    ∃ status, st.blockStatus.get hash = some status ∧ status ≠ .statusHeaderOnly := by
  rcases h with h | h
  · exact ⟨_,h,by decide⟩
  · exact ⟨_,h,by decide⟩

section
variable (hset : Agrees values st.utxoSet) (h : st.Path values Q n hash s)
include hset h

lemma Path.collectUTXODiffs_eq {rounds : Nat} (hr : n < rounds) :
    ∃ utxoDiffs, st.collectUTXODiffs rounds hash = .ok utxoDiffs ∧
      ∃ d, utxoDiffs.reverse.foldlM (fun accumulatedDiff utxoDiff =>
          liftDiffError (accumulatedDiff.withDiffInPlace utxoDiff)) newUTXODiff = .ok d ∧
        d.Leads values st.utxoSet s := by
  obtain ⟨rounds,rfl⟩ : ∃ r, rounds = r+1 := ⟨rounds - 1,by omega⟩
  -- the first block on a path has a body and a diff
  induction h generalizing rounds with
  | @root hash d s hQ hdf hch hld =>
    obtain ⟨status,hst,hne⟩ := hQ.1.ne_headerOnly
    obtain ⟨d',hd',hld'⟩ := (Leads.newUTXODiff values st.utxoSet).withDiff hset hld
    refine ⟨[d],?_,d',?_,hld'⟩
    · rw [collectUTXODiffs,hst]
      change st.utxoDiff.get hash = some d at hdf
      change st.utxoDiffChild.get hash = none at hch
      simp [fromStore,hne,hdf,hch,pure,Except.pure]
    · change UTXODiff.withDiffInPlace newUTXODiff d = .ok d' at hd'
      simp [hd',liftDiffError,pure,Except.pure]
  | @link n hash child d s _ hQ hdf hch _ hld ih =>
    obtain ⟨status,hst,hne⟩ := hQ.1.ne_headerOnly
    obtain ⟨utxoDiffs,hu,acc,hac,ha⟩ := ih (rounds - 1) (by omega)
    obtain ⟨d',hd',hld'⟩ := ha.withDiff hset hld
    refine ⟨d :: utxoDiffs,?_,d',?_,hld'⟩
    · rw [collectUTXODiffs,hst]
      change st.utxoDiff.get hash = some d at hdf
      change st.utxoDiffChild.get hash = some child at hch
      obtain ⟨r,rfl⟩ : ∃ r, rounds = r+1 := ⟨rounds - 1,by omega⟩
      simp only [Nat.add_sub_cancel] at hu
      simp [fromStore,hne,hdf,hch,hu,pure,Except.pure]
    · change UTXODiff.withDiffInPlace acc d = .ok d' at hd'
      rw [List.reverse_cons,List.foldlM_append,hac]
      simp [hd',liftDiffError,pure,Except.pure]

/-- A block on a path is restored to its UTXO set. -/
lemma Path.restorePastUTXO_eq :
    ∃ d, st.restorePastUTXO hash = .ok d ∧ d.Leads values st.utxoSet s := by
  have hn : n < st.utxoDiff.keys.card :=
    DeltaForest.Path.lt_card leads_unique (fun hash d hd => FinMap.mem_keys_of_get hd) h
  obtain ⟨_,hu,d,hd,hl⟩ := h.collectUTXODiffs_eq hset hn
  refine ⟨d,?_,hl⟩
  rw [restorePastUTXO,hu]
  exact hd

end
end
end ConsensusStores
end Eiyaro
