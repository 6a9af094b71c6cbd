import Eiyaro.Consensus.History
import Eiyaro.Consensus.Stores

/-!
# Sound diffs

The diffs of all resolved blocks lead to the past UTXO sets of these blocks, and
only one block, the tip of the forest of diffs, has virtual as its diff child. The
stores change in four ways. A resolved block is added below another one, or as the
new tip. A diff is replaced by one to another diff child. The UTXO set of virtual
is replaced together with the diff of the tip.
-/

namespace Eiyaro
open FinMap
variable {status : BlockStatus}

namespace ConsensusStores
variable {M : Type}

/-- The stores after a block is resolved with a diff. -/
def stageResolved (st : ConsensusStores M) (hash : DomainHash) (status : BlockStatus)
    (acceptanceData : AcceptanceData) (multiset : M) (diff : UTXODiff)
    (child : Option DomainHash) : ConsensusStores M :=
  (((st.stageAcceptanceData hash acceptanceData).stageMultiset hash multiset).stageDiff hash diff
    child).stageStatus hash status

/-- The stores after a resolved block becomes the diff child of the old tip. -/
def stageNewTip (st : ConsensusStores M) (tip hash : DomainHash) (acceptanceData : AcceptanceData)
    (multiset : M) (tipDiff diff : UTXODiff) : ConsensusStores M :=
  ((((st.stageAcceptanceData hash acceptanceData).stageMultiset hash multiset).stageDiff tip tipDiff
    hash).stageDiff hash diff none).stageStatus hash .statusUTXOValid

lemma resolved_stageStatus {st : ConsensusStores M} {hash k : DomainHash} (hs : status.IsResolved) :
    (st.stageStatus hash status).Resolved k ↔ k = hash ∨ st.Resolved k := by
  rw [Resolved,stageStatus]
  by_cases hk : k = hash
  · subst hk
    simpa using hs
  · simp [get_insert_of_ne,hk,Resolved]

end ConsensusStores

namespace Consensus
open UTXODiff
variable {M : Type} [AddCommGroup M]

structure Sound (cs : Consensus M) (values : DomainOutpoint → UInt64 → UTXOEntry)
    (root : DomainHash) (rootSet : UtxoCollection) (st : ConsensusStores M) (tip : DomainHash) :
    Prop where
  agrees : Agrees values st.utxoSet
  root_stored : ∃ data, cs.blockData root = some data
  root_resolved : st.Resolved root
  tip_valid : st.blockStatus.get tip = some .statusUTXOValid
  restorable : ∀ {hash}, st.Resolved hash → ∃ s n, cs.Replays root rootSet hash s ∧
    st.Path values (fun _ => True) n hash s ∧ st.multiset.get hash = some (cs.multisetOf s)
  unresolved : ∀ {hash}, ¬st.Resolved hash → st.utxoDiffChild.get hash = none
  child : ∀ {hash}, st.Resolved hash → (st.utxoDiffChild.get hash = none ↔ hash = tip)

namespace Sound
variable {cs : Consensus M} {values : DomainOutpoint → UInt64 → UTXOEntry} {root : DomainHash}
  {rootSet : UtxoCollection} {st st' : ConsensusStores M} {tip hash child : DomainHash}
  {s t : UtxoCollection} {diff : UTXODiff}

section
variable (h : cs.Sound values root rootSet st tip)
include h

lemma tip_resolved : st.Resolved tip :=
  .inl h.tip_valid

section
variable (hres : st.Resolved hash)
include hres

lemma exists_path
    (hs : cs.Replays root rootSet hash s) : ∃ n, st.Path values (fun _ => True) n hash s := by
  obtain ⟨_,n,hs',hp,-⟩ := h.restorable hres
  obtain rfl := hs.unique hs'
  exact ⟨n,hp⟩

lemma multiset_eq
    (hs : cs.Replays root rootSet hash s) : st.multiset.get hash = some (cs.multisetOf s) := by
  obtain ⟨_,_,hs',-,hm⟩ := h.restorable hres
  obtain rfl := hs.unique hs'
  exact hm

lemma exists_blockData : ∃ data, cs.blockData hash = some data := by
  obtain ⟨_,_,hs,-⟩ := h.restorable hres
  cases hs with
  | root => exact h.root_stored
  | child _ hd => exact ⟨_,hd⟩

lemma restorePastUTXO_eq (hs : cs.Replays root rootSet hash s) :
    ∃ d, st.restorePastUTXO hash = .ok d ∧ d.Leads values st.utxoSet s := by
  obtain ⟨_,hp⟩ := h.exists_path hres hs
  exact hp.restorePastUTXO_eq h.agrees

lemma agrees_replayed (hs : cs.Replays root rootSet hash s) : Agrees values s := by
  obtain ⟨_,-,hl⟩ := h.restorePastUTXO_eq hres hs
  exact hl.agrees_right h.agrees

end

/-- The tip has the only diff to the UTXO set of virtual. -/
lemma tip_diff (hs : cs.Replays root rootSet tip s) :
    ∃ d, st.utxoDiff.get tip = some d ∧ d.Leads values st.utxoSet s := by
  obtain ⟨_,hp⟩ := h.exists_path h.tip_resolved hs
  cases hp with
  | root _ hd _ hl => exact ⟨_,hd,hl⟩
  | link _ _ hc =>
    have := (h.child h.tip_resolved).2 rfl
    exact absurd (hc.symm.trans this) (by simp)

/-- A diff to another block leads there from the past UTXO set of that block. -/
lemma child_diff (hres : st.Resolved hash)
    (hs : cs.Replays root rootSet hash s) (hc : st.utxoDiffChild.get hash = some child) :
    st.Resolved child ∧ ∃ d t, st.utxoDiff.get hash = some d ∧
      cs.Replays root rootSet child t ∧ d.Leads values t s := by
  obtain ⟨_,hpt⟩ := h.exists_path hres hs
  cases hpt with
  | root _ _ hnx => exact absurd (hc.symm.trans hnx) (by simp)
  | link _ hd hnx hpt hl =>
    obtain rfl : child = _ := Option.some.inj (hc.symm.trans hnx)
    obtain ⟨t,_,ht,hp',-⟩ := h.restorable hpt.mem.1
    obtain rfl := ConsensusStores.Path.unique hpt hp'
    exact ⟨hpt.mem.1,_,_,hd,ht,hl⟩

/-- When one block has a new path to its past UTXO set, all other blocks keep
theirs, or take the new path from that block on. -/
lemma redirect (st' : ConsensusStores M) (changed : DomainHash)
    (hd : ∀ k, st.Resolved k → k ≠ changed → st'.utxoDiff.get k = st.utxoDiff.get k)
    (hch : ∀ k, st.Resolved k → k ≠ changed → st'.utxoDiffChild.get k = st.utxoDiffChild.get k)
    (hms : ∀ k, st.Resolved k → st'.multiset.get k = st.multiset.get k)
    (hb : st'.utxoSet = st.utxoSet ∨ changed = tip) (hst : ∀ k, st.Resolved k → st'.Resolved k)
    (hc : ∀ s, st.Resolved changed → cs.Replays root rootSet changed s →
      ∃ n, st'.Path values (fun _ => True) n changed s) (hash : DomainHash)
    (hres : st.Resolved hash) : ∃ s n, cs.Replays root rootSet hash s ∧
      st'.Path values (fun _ => True) n hash s ∧ st'.multiset.get hash =
        some (cs.multisetOf s) := by
  obtain ⟨s,n,hs,hpt,hg⟩ := h.restorable hres
  suffices hnew : ∃ m, st'.Path values (fun _ => True) m hash s from
    hnew.elim fun m hm => ⟨s,m,hs,hm,(hms hash hres).trans hg⟩
  refine DeltaForest.Path.redirect (fun k hk => hd k hk.1) (fun k hk => hch k hk.1)
    (fun k hk hne hn => ?_) (fun n k s hk hpt => ?_) (fun k hk => ⟨hst k hk.1,trivial⟩) hpt
  · exact hb.resolve_right fun heq => hne (((h.child hk.1).1 hn).trans heq.symm)
  · subst hk
    obtain ⟨_,m,hs',hp',-⟩ := h.restorable hpt.mem.1
    obtain rfl := ConsensusStores.Path.unique hpt hp'
    exact hc _ hpt.mem.1 hs'

end

/-- Stores in which only the root is resolved. -/
lemma of_root (hst : Agrees values st.utxoSet) (hs : ∃ data, cs.blockData root = some data)
    (hrt : st.blockStatus.get root = some .statusUTXOValid)
    (hres : ∀ hash, st.Resolved hash → hash = root) (hd : st.utxoDiff.get root = some diff)
    (hl : diff.Leads values st.utxoSet rootSet) (hch : ∀ hash, st.utxoDiffChild.get hash = none)
    (hm : st.multiset.get root = some (cs.multisetOf rootSet)) :
    cs.Sound values root rootSet st root where
  agrees := hst
  root_stored := hs
  root_resolved := .inl hrt
  tip_valid := hrt
  restorable := by
    intro hash hhs
    obtain rfl := hres hash hhs
    exact ⟨rootSet,0,.root,.root ⟨.inl hrt,trivial⟩ hd (hch hash) hl,hm⟩
  unresolved := fun _ => hch _
  child := fun hhs => iff_of_true (hch _) (hres _ hhs)

/-- The status of a block that is not resolved changes to another such status. -/
lemma stageStatus (h : cs.Sound values root rootSet st tip)
    (hnew : ¬st.Resolved hash) (hst : ¬(st.stageStatus hash status).Resolved hash) :
    cs.Sound values root rootSet (st.stageStatus hash status) tip := by
  have hg : ∀ k, k ≠ hash → (st.stageStatus hash status).blockStatus.get k =
      st.blockStatus.get k := fun k hk => get_insert_of_ne _ _ hk
  have hres : ∀ k, (st.stageStatus hash status).Resolved k ↔ st.Resolved k := by
    intro k
    by_cases hk : k = hash
    · subst hk
      exact iff_of_false hst hnew
    · rw [ConsensusStores.Resolved,hg k hk]
      rfl
  have ht : tip ≠ hash := fun heq => hnew (heq ▸ h.tip_resolved)
  refine ⟨h.agrees,h.root_stored,(hres root).2 h.root_resolved,
    (hg tip ht).trans h.tip_valid,fun {k} hk => ?_,fun {k} hk => ?_,fun {k} hk => ?_⟩
  · obtain ⟨s,n,hs,hp,hm⟩ := h.restorable ((hres k).1 hk)
    exact ⟨s,n,hs,hp.mono fun k hk => ⟨(hres k).2 hk.1,trivial⟩,hm⟩
  · exact h.unresolved fun ho => hk ((hres k).2 ho)
  · exact h.child ((hres k).1 hk)

/-! ## Adding a block -/

section
variable (acceptanceData : AcceptanceData)

section
variable (h : cs.Sound values root rootSet st tip) (hnew : ¬st.Resolved hash)
include h hnew

/-- A block that is not resolved yet is resolved with a diff to a resolved block. -/
lemma addBlock (hst : status.IsResolved)
    (hc : st.Resolved child) (ht : cs.Replays root rootSet child t)
    (hs : cs.Replays root rootSet hash s) (hl : diff.Leads values t s) :
    cs.Sound values root rootSet
      (st.stageResolved hash status acceptanceData (cs.multisetOf s) diff (some child)) tip := by
  have htp : tip ≠ hash := fun heq => hnew (heq ▸ h.tip_resolved)
  have hres : ∀ k, st.Resolved k → k ≠ hash := fun k hk heq => hnew (heq ▸ hk)
  set st' := st.stageResolved hash status acceptanceData (cs.multisetOf s) diff (some child)
  have hrs : ∀ {k}, st'.Resolved k ↔ k = hash ∨ st.Resolved k :=
    ConsensusStores.resolved_stageStatus hst
  -- the new block is on no old path
  have ho := h.redirect st' hash (fun k hk _ => get_insert_of_ne _ _ (hres k hk))
    (fun k hk _ => get_insert_of_ne _ _ (hres k hk)) (fun k hk => get_insert_of_ne _ _ (hres k hk))
    (.inl rfl) (fun k hk => hrs.2 (.inr hk)) fun _ hh => absurd hh hnew
  refine ⟨h.agrees,h.root_stored,hrs.2 (.inr h.root_resolved),
    (get_insert_of_ne _ _ htp).trans h.tip_valid,fun {k} hk => ?_,fun {k} hk => ?_,
    fun {k} hk => ?_⟩
  · rcases hrs.1 hk with rfl | hk
    · obtain ⟨_,n,ht',hp,-⟩ := ho child hc
      obtain rfl := ht.unique ht'
      exact ⟨s,n+1,hs,.link ⟨hrs.2 (.inl rfl),trivial⟩ (get_insert_self _ _ _)
        (get_insert_self _ _ _) hp hl,get_insert_self _ _ _⟩
    · exact ho k hk
  · have hk := not_or.1 (mt hrs.2 hk)
    exact (get_insert_of_ne _ _ hk.1).trans (h.unresolved hk.2)
  · rcases hrs.1 hk with rfl | hk
    · have hg : st'.utxoDiffChild.get k = some child := get_insert_self _ _ _
      rw [hg]
      exact iff_of_false (by simp) htp.symm
    · have hg : st'.utxoDiffChild.get k = st.utxoDiffChild.get k :=
        get_insert_of_ne _ _ (hres k hk)
      rw [hg]
      exact h.child hk

/-- A block that is not resolved yet becomes the tip, and the diff child of the old
tip. -/
lemma addTip (ht : cs.Replays root rootSet tip t) (hs : cs.Replays root rootSet hash s)
    {tipDiff : UTXODiff} (htp : tipDiff.Leads values s t) (hl : diff.Leads values st.utxoSet s) :
    cs.Sound values root rootSet (st.stageNewTip tip hash acceptanceData (cs.multisetOf s) tipDiff
      diff) hash := by
  generalize hst' : st.stageNewTip tip hash acceptanceData (cs.multisetOf s) tipDiff diff = st'
  have hset : st'.utxoSet = st.utxoSet := by rw [← hst']; rfl
  have hne : tip ≠ hash := fun heq => hnew (heq ▸ h.tip_resolved)
  have hres : ∀ k, st.Resolved k → k ≠ hash := fun k hk heq => hnew (heq ▸ hk)
  have hrs : ∀ {k}, st'.Resolved k ↔ k = hash ∨ st.Resolved k := by
    rw [← hst']
    exact ConsensusStores.resolved_stageStatus (.inl rfl)
  have hdf : ∀ k, st'.utxoDiff.get k =
      if k = hash then some diff else if k = tip then some tipDiff else st.utxoDiff.get k := by
    intro k
    rw [← hst']
    rfl
  have hch : ∀ k, st'.utxoDiffChild.get k =
      if k = tip then some hash else st.utxoDiffChild.get k := by
    intro k
    rw [← hst']
    rfl
  have hr : st'.Path values (fun _ => True) 0 hash s := by
    refine .root ⟨hrs.2 (.inl rfl),trivial⟩ ((hdf hash).trans (if_pos rfl)) ?_ (hset ▸ hl)
    exact (hch hash).trans ((if_neg hne.symm).trans (h.unresolved hnew))
  have hm : st'.multiset = st.multiset.insert hash (cs.multisetOf s) := by
    rw [← hst']; rfl
  refine ⟨hset ▸ h.agrees,h.root_stored,hrs.2 (.inr h.root_resolved),?_,
    fun {k} hk => ?_,fun {k} hk => ?_,fun {k} hk => ?_⟩
  · rw [← hst']
    exact get_insert_self _ _ _
  · rcases hrs.1 hk with rfl | hk
    · exact ⟨s,0,hs,hr,hm ▸ get_insert_self _ _ _⟩
    -- every path to the old tip goes on to the new one
    · refine h.redirect st' tip (fun k hk hkt => ?_) (fun k _ hkt => ?_) (fun k hk => ?_)
        (.inl hset) (fun k hk => hrs.2 (.inr hk)) (fun _ _ ht' => ?_) k hk
      · rw [hdf,if_neg (hres k hk),if_neg hkt]
      · rw [hch,if_neg hkt]
      · rw [hm,get_insert_of_ne _ _ (hres k hk)]
      · obtain rfl := ht.unique ht'
        refine ⟨1,.link ⟨hrs.2 (.inr h.tip_resolved),trivial⟩ ?_ ?_ hr htp⟩
        · exact (hdf tip).trans ((if_neg hne).trans (if_pos rfl))
        · exact (hch tip).trans (if_pos rfl)
  · have hk := not_or.1 (mt hrs.2 hk)
    have hkt : k ≠ tip := fun heq => hk.2 (heq ▸ h.tip_resolved)
    rw [hch,if_neg hkt,h.unresolved hk.2]
  · rw [hch]
    rcases hrs.1 hk with rfl | hk
    · exact iff_of_true ((if_neg hne.symm).trans (h.unresolved hnew)) rfl
    · refine iff_of_false (fun hnn => ?_) (hres k hk)
      split at hnn
      · cases hnn
      · next hkt => exact hkt ((h.child hk).1 hnn)

end
end

/-! ## Changing a diff -/

/-- The diff of a block is replaced by one to a block whose path does not meet it. -/
lemma reroute (h : cs.Sound values root rootSet st tip) (hres : st.Resolved hash)
    (hne : hash ≠ tip) (hs : cs.Replays root rootSet hash s) {n : Nat}
    (hp : st.Path values (· ≠ hash) n child t) (hl : diff.Leads values t s) :
    cs.Sound values root rootSet (st.stageDiff hash diff (some child)) tip := by
  have hf : (st.stageDiff hash diff (some child)).Path values (· ≠ hash) n child t :=
    DeltaForest.Path.frame (F := st.forest) (fun k hk => get_insert_of_ne _ _ hk.2)
      (fun k hk => get_insert_of_ne _ _ hk.2) hp
  refine ⟨h.agrees,h.root_stored,h.root_resolved,h.tip_valid,fun {k} hk => ?_,fun {k} hk => ?_,
    fun {k} hk => ?_⟩
  · refine h.redirect (st.stageDiff hash diff (some child)) hash
      (fun k _ hk => get_insert_of_ne _ _ hk) (fun k _ hk => get_insert_of_ne _ _ hk)
      (fun _ _ => rfl) (.inl rfl) (fun k hk => hk) (fun _ _ hs' => ?_) k hk
    obtain rfl := hs.unique hs'
    exact ⟨n+1,.link ⟨hres,trivial⟩ (get_insert_self _ _ _) (get_insert_self _ _ _)
      (hf.mono fun k hk => ⟨hk.1,trivial⟩) hl⟩
  · have hk' : k ≠ hash := fun heq => hk (heq ▸ hres)
    exact (get_insert_of_ne _ _ hk').trans (h.unresolved hk)
  · have hg : (st.stageDiff hash diff (some child)).utxoDiffChild.get k =
        if k = hash then some child else st.utxoDiffChild.get k := get_insert _ _ _ _
    rw [hg]
    split
    · next heq => exact iff_of_false (by simp) (heq ▸ hne)
    · exact h.child hk

/-- The UTXO set of virtual is replaced, and the diff of the tip leads back from the
new one. -/
lemma updateVirtual (h : cs.Sound values root rootSet st tip)
    (hst : Agrees values st'.utxoSet) (ht : cs.Replays root rootSet tip t)
    (hl : diff.Leads values st'.utxoSet t) (hs : st'.blockStatus = st.blockStatus)
    (hd : st'.utxoDiff = st.utxoDiff.insert tip diff) (hch : st'.utxoDiffChild = st.utxoDiffChild)
    (hm : ∀ k, st.Resolved k → st'.multiset.get k = st.multiset.get k) :
    cs.Sound values root rootSet st' tip := by
  have hrs : ∀ {k}, st'.Resolved k ↔ st.Resolved k := by
    intro k
    rw [ConsensusStores.Resolved,hs]
    rfl
  refine ⟨hst,h.root_stored,hrs.2 h.root_resolved,hs ▸ h.tip_valid,
    fun {k} hk => ?_,fun {k} hk => ?_,fun {k} hk => ?_⟩
  · refine h.redirect st' tip (fun k _ hk => by rw [hd,get_insert_of_ne _ _ hk])
      (fun k _ _ => by rw [hch]) hm (.inr rfl) (fun k hk => hrs.2 hk)
      (fun _ _ ht' => ?_) k (hrs.1 hk)
    obtain rfl := ht.unique ht'
    refine ⟨0,.root ⟨hrs.2 h.tip_resolved,trivial⟩ ?_ ?_ hl⟩
    · exact (congrArg (·.get tip) hd).trans (get_insert_self _ _ _)
    · exact (congrArg (·.get tip) hch).trans ((h.child h.tip_resolved).2 rfl)
  · rw [hch]
    exact h.unresolved fun hres => hk (hrs.2 hres)
  · rw [hch]
    exact h.child (hrs.1 hk)

end Sound
end Consensus
end Eiyaro
