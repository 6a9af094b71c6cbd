import Eiyaro.UtxoIndex.Refinement

/-!
# Histories of the UTXO index

What the index answers when its database represents a UTXO set, and what it
answers after a reset and any number of updates.
-/

namespace Eiyaro
open List EStateM UtxoIndexStore

/-! ## Reading -/

/-- What a cursor over a bucket yields for a pair. -/
def itemOf (bucket : Bucket) (pair : UTXOPair) : Key × IndexValue :=
  (bucket.key (serializeOutpoint pair.outpoint), .utxoEntry pair.entry)

lemma itemOf_injective (bucket : Bucket) : Function.Injective (itemOf bucket) := by
  rintro ⟨_,_⟩ ⟨_,_⟩ h
  simp only [itemOf,Bucket.key,Prod.mk.injEq,Key.mk.injEq,true_and,IndexValue.utxoEntry.injEq] at h
  rw [serializeOutpoint_injective h.1,h.2]

lemma fillPairs_map (reader : OutpointReader) (bucket : Bucket) (pairs slice : List UTXOPair) :
    fillPairs reader 0 (pairs.map (itemOf bucket)) slice = .ok (slice ++ pairs) := by
  induction pairs generalizing slice with
  | nil => simp [fillPairs]
  | cons pair pairs ih =>
    have hr := reader.deserialize_serialize pair.outpoint
    simp only [map_cons,itemOf,fillPairs,Bucket.key,hr]
    show fillPairs reader 0 (pairs.map (itemOf bucket)) (slice ++ [pair]) = _
    rw [ih,append_assoc]
    rfl


variable {family : ScriptPublicKey → Prop} {utxoSet : UtxoCollection} {uis : UtxoIndexStore}

/-- The index returns the entries of the set that pay to the script. -/
lemma utxos_of_represents (reader : OutpointReader) (hf : PairwiseSeparate family)
    (h : Represents uis.database utxoSet) (hc : Covers family utxoSet)
    (hst : uis.isAnythingStaged = false) {spk : ScriptPublicKey} (hs : family spk) :
    ∃ pairs, uis.utxos reader spk 0 = .ok pairs ∧ pairs.Nodup ∧
      ∀ pair, pair ∈ pairs ↔
        utxoSet.get pair.outpoint = some pair.entry ∧ pair.entry.scriptPublicKey = spk := by
  set bucket := bucketForScriptPublicKey spk with hb
  have hi : ∀ item ∈ cursor uis.database bucket, ∃ pair, itemOf bucket pair = item := by
    rintro ⟨⟨_,suffix⟩,value⟩ hm
    obtain ⟨rfl,hg⟩ := mem_cursor.1 hm
    have hp : bucket.path <+: (⟨bucket,suffix⟩ : Key).bytes := prefix_append _ _
    have hid : utxoIndexBucket.path <+: bucket.path := by
      rw [path_bucketForScriptPublicKey]
      exact prefix_append _ _
    obtain ⟨o,e,ho,hk,rfl⟩ := (h.entries _ (hid.trans hp) value).1 hg
    -- a key of another script would not extend the path
    have hsc : spk = e.scriptPublicKey := by
      by_contra hne
      rw [hk] at hp
      exact (hf spk e.scriptPublicKey hs (hc o e ho) hne).not_extends _ hp
    subst hsc
    have hsf : suffix = serializeOutpoint o := append_cancel_left hk
    exact ⟨⟨o,e⟩,by rw [hsf]; rfl⟩
  obtain ⟨pairs,hpr⟩ := (Set.range_list_map _).ge hi
  refine ⟨pairs,?_,?_,fun pair => ?_⟩
  · rw [utxos,hst,← hpr]
    exact fillPairs_map reader _ pairs []
  · have hnd := nodup_cursor uis.database bucket
    rw [← hpr] at hnd
    exact (List.Nodup.of_map _ hnd).of_map _
  · have hg : itemOf bucket pair ∈ cursor uis.database bucket ↔
        uis.database.get (keyOf spk pair.outpoint) = some (.utxoEntry pair.entry) :=
      mem_cursor.trans ⟨fun h => h.2,fun h => ⟨rfl,h⟩⟩
    rw [← mem_map_of_injective (itemOf_injective bucket),hpr,hg,
      h.entries _ (prefix_keyOf spk pair.outpoint)]
    constructor
    · rintro ⟨o,e,ho,hk,hv⟩
      obtain ⟨rfl,rfl⟩ := hf.keyOf_inj hs (hc o e ho) hk
      obtain rfl : pair.entry = e := IndexValue.utxoEntry.inj hv
      exact ⟨ho,rfl⟩
    · rintro ⟨ho,rfl⟩
      exact ⟨pair.outpoint,pair.entry,ho,rfl,rfl⟩

/-- The answers of the index are those of the UTXO set: the entries of every
script of the family, the number of entries of every script, and the supply. -/
structure Answers (reader : OutpointReader) (family : ScriptPublicKey → Prop)
    (uis : UtxoIndexStore) (utxoSet : UtxoCollection) : Prop where
  entries : ∀ spk, family spk → ∃ pairs, uis.utxos reader spk 0 = .ok pairs ∧ pairs.Nodup ∧
    ∀ pair, pair ∈ pairs ↔
      utxoSet.get pair.outpoint = some pair.entry ∧ pair.entry.scriptPublicKey = spk
  counts : ∀ spk, ∃ n,
    currentCountAt uis.database (utxoCountKeyForScriptPublicKey spk).bytes = .ok n ∧
      n.toNat = (utxoSet.filter fun _ e => e.scriptPublicKey = spk).keys.card
  supply : ∃ n, uis.getCirculatingSompiSupply = .ok n ∧ (n.toNat : ℤ) = totalAmount utxoSet

lemma answers_of_represents (reader : OutpointReader) (hfm : PairwiseSeparate family)
    (h : Represents uis.database utxoSet) (hcv : Covers family utxoSet) (hf : Fits utxoSet)
    (ha : uis.toAdd = ∅) (hr : uis.toRemove = ∅) : Answers reader family uis utxoSet := by
  have hst : uis.isAnythingStaged = false := by
    rw [isAnythingStaged,ha,hr]
    rfl
  refine ⟨fun spk hsp => utxos_of_represents reader hfm h hcv hst hsp,fun spk => ?_,?_⟩
  · obtain ⟨n,hc,hn⟩ := h.counts.currentCountAt (hf.countsFit spk)
    rw [paying_eq_card] at hn
    exact ⟨n,hc,Int.ofNat.inj hn⟩
  · have hs := h.supply
    refine ⟨UInt64.ofNat (totalAmount utxoSet).toNat,?_,?_⟩
    · rw [getCirculatingSompiSupply,hst,hs]
      rfl
    · have hnn := totalAmount_nonneg utxoSet
      have hlt := hf.2
      rw [UInt64.toNat_ofNat']
      omega

/-! ## Runs -/

/-- An update with the orders in which it visits the maps. -/
structure IndexUpdate where
  virtualUTXODiff : UTXODiff
  virtualParents : List DomainHash
  orders : MapOrders
  removals : virtualUTXODiff.toRemove.Iteration
  additions : virtualUTXODiff.toAdd.Iteration

namespace UtxoIndexStore

/-- `Reset` on the database of the store. -/
def resetDatabase (orders : MapOrders) {virtualUTXOSet : UtxoCollection}
    (stored : virtualUTXOSet.Iteration) (virtualParents : List DomainHash) : IndexM Unit :=
  fun uis =>
    match reset orders stored virtualParents uis.database with
    | .ok _ database => .ok () { uis with database := database }
    | .error failure database => .error failure { uis with database := database }

/-- A reset followed by updates. -/
def history (orders : MapOrders) {virtualUTXOSet : UtxoCollection}
    (stored : virtualUTXOSet.Iteration) (virtualParents : List DomainHash)
    (updates : List IndexUpdate) : IndexM Unit := do
  resetDatabase orders stored virtualParents
  updates.forM fun u => do
    let _ ← update u.orders u.virtualUTXODiff u.removals u.additions u.virtualParents

end UtxoIndexStore

/-- The virtual UTXO set after the changes of the updates. -/
def virtualUTXOSetAfter (utxoSet : UtxoCollection) (updates : List IndexUpdate) : UtxoCollection :=
  updates.foldl (fun utxoSet u => u.virtualUTXODiff.applyTo utxoSet) utxoSet

/-- The updates are successive changes of the virtual UTXO set, none of which
gives an outpoint another entry of the same script, and all sets are within the
bounds of the index. -/
def Follows (family : ScriptPublicKey → Prop) : UtxoCollection → List IndexUpdate → Prop
  | _, [] => True
  | utxoSet, u :: updates =>
    IsChange utxoSet u.virtualUTXODiff ∧ NoRewrite u.virtualUTXODiff ∧
      Covers family (u.virtualUTXODiff.applyTo utxoSet) ∧
      Fits (u.virtualUTXODiff.applyTo utxoSet) ∧
      Follows family (u.virtualUTXODiff.applyTo utxoSet) updates

lemma wp_resetDatabase (orders : MapOrders) (hfm : PairwiseSeparate family)
    (hc : Covers family utxoSet) (hf : Fits utxoSet) (stored : utxoSet.Iteration)
    (virtualParents : List DomainHash) (uis : UtxoIndexStore) :
    wp (resetDatabase orders stored virtualParents)
      (fun _ t => Represents t.database utxoSet ∧ t.toAdd = uis.toAdd ∧ t.toRemove = uis.toRemove)
      (fun _ _ => False) uis := by
  have hrs := wp_reset orders hfm hc hf stored virtualParents uis.database
  unfold wp at hrs ⊢
  rw [resetDatabase]
  split at hrs
  · rename_i hr
    rw [hr]
    exact ⟨hrs,rfl,rfl⟩
  · exact hrs.elim

/-- One update after another. -/
lemma wp_updates (hfm : PairwiseSeparate family) (updates : List IndexUpdate)
    (h : Represents uis.database utxoSet) (hcv : Covers family utxoSet) (hft : Fits utxoSet)
    (ha : uis.toAdd = ∅) (hrm : uis.toRemove = ∅) (hf : Follows family utxoSet updates) :
    wp (updates.forM fun u => do
        let _ ← update u.orders u.virtualUTXODiff u.removals u.additions u.virtualParents)
      (fun _ t => Represents t.database (virtualUTXOSetAfter utxoSet updates) ∧
        Covers family (virtualUTXOSetAfter utxoSet updates) ∧
        Fits (virtualUTXOSetAfter utxoSet updates) ∧ t.toAdd = ∅ ∧ t.toRemove = ∅)
      (fun _ _ => False) uis := by
  induction updates generalizing utxoSet uis with
  | nil => exact ⟨h,hcv,hft,ha,hrm⟩
  | cons u updates ih =>
    obtain ⟨hc,hr,hc',hf',hrs⟩ := hf
    refine (wp_bind _ fun _ => updates.forM _).2 ?_
    rw [wp_bind]
    refine (wp_update u.orders hfm h hcv hft ha hrm hc hr hc' hf'
      u.removals u.additions u.virtualParents).imp (fun _ t ht => ?_)
    exact ih ht.1 hc' hf' ht.2.1 ht.2.2 hrs

/-- After a reset and any sequence of updates that are successive changes, the
index answers as the current virtual UTXO set does. -/
theorem index_answers_of_follows (reader : OutpointReader) (hfamily : PairwiseSeparate family)
    (hcovers : Covers family utxoSet) (hfits : Fits utxoSet) (orders : MapOrders)
    (stored : utxoSet.Iteration) (virtualParents : List DomainHash) (updates : List IndexUpdate)
    (hfollows : Follows family utxoSet updates) (database : IndexDatabase) :
    wp (history orders stored virtualParents updates)
      (fun _ uis => Answers reader family uis (virtualUTXOSetAfter utxoSet updates))
      (fun _ _ => False) ⟨database,∅,∅,[]⟩ := by
  rw [history,wp_bind]
  refine (wp_resetDatabase orders hfamily hcovers hfits stored virtualParents _).imp
    (fun _ _ ht => ?_)
  refine (wp_updates hfamily updates ht.1 hcovers hfits ht.2.1 ht.2.2 hfollows).imp
    (fun _ uis hu => ?_)
  obtain ⟨hrp,hc',hf',ha,hr⟩ := hu
  exact answers_of_represents reader hfamily hrp hc' hf' ha hr

section
open UTXODiff FinMap

noncomputable def someOrders : MapOrders := ⟨someIteration,someIteration,someIteration⟩

noncomputable def updateOf (diff : UTXODiff) : IndexUpdate :=
  ⟨diff,[],someOrders,someIteration _,someIteration _⟩

/-- The family of the script of the sample entries. -/
def sampleFamily (spk : ScriptPublicKey) : Prop := spk = ⟨[],0⟩

lemma sampleFamily_separate : PairwiseSeparate sampleFamily := by
  rintro _ _ rfl rfl hne
  exact absurd rfl hne

lemma get_atOutpoint_eq_some {o o' : DomainOutpoint} {e e' : UTXOEntry} :
    (atOutpoint o (some e)).get o' = some e' ↔ o' = o ∧ e' = e := by
  by_cases ho : o' = o
  · subst ho
    rw [get_atOutpoint_self]
    simp [eq_comm]
  · rw [get_atOutpoint_of_ne ho]
    simp [ho]

lemma covers_atOutpoint (o : DomainOutpoint) (score : UInt64) :
    Covers sampleFamily (atOutpoint o (some (entryWithScore score))) := by
  intro _ _ he
  rw [(get_atOutpoint_eq_some.1 he).2]
  rfl

lemma fits_atOutpoint (o : DomainOutpoint) (score : UInt64) :
    Fits (atOutpoint o (some (entryWithScore score))) := by
  have hi : atOutpoint o (some (entryWithScore score)) =
      (∅ : UtxoCollection).insert o (entryWithScore score) := rfl
  constructor
  · intro _
    rw [paying,hi,FinMap.sum_insert _ _ _ rfl]
    show 0+(if _ then (1 : ℤ) else 0) < 2^63
    split <;> decide
  · rw [totalAmount,hi,FinMap.sum_insert _ _ _ rfl]
    show 0+((1 : ℕ) : ℤ) < 2^64
    decide

variable (o o' : DomainOutpoint)

/-- The diff that removes the only output and adds another one. -/
def moveDiff (score score' : UInt64) : UTXODiff :=
  ⟨atOutpoint o' (some (entryWithScore score')),atOutpoint o (some (entryWithScore score))⟩

lemma isChange_moveDiff (score score' : UInt64) :
    IsChange (atOutpoint o (some (entryWithScore score))) (moveDiff o o' score score') := by
  refine ⟨fun _ _ hr => hr,fun o'' _ _ => ?_⟩
  by_cases ho : o'' = o
  · exact .inr ⟨entryWithScore score,get_atOutpoint_eq_some.2 ⟨ho,rfl⟩⟩
  · exact .inl (get_atOutpoint_of_ne ho _)

lemma applyTo_moveDiff (score score' : UInt64) :
    (moveDiff o o' score score').applyTo (atOutpoint o (some (entryWithScore score))) =
      atOutpoint o' (some (entryWithScore score')) := by
  ext1 o''
  rw [UTXODiff.applyTo,FinMap.get_insertAll,FinMap.get_filter]
  by_cases ho : o'' = o
  · subst ho
    have hr : (moveDiff o'' o' score score').toRemove.containsWithDAAScore o''
        (entryWithScore score).blockDAAScore = true :=
      UtxoCollection.containsWithDAAScore_eq_true.2
        ⟨entryWithScore score,get_atOutpoint_self o'' (some _),rfl⟩
    rw [get_atOutpoint_self,Option.filter,if_neg (by rw [hr]; decide),Option.or_none]
    rfl
  · rw [get_atOutpoint_of_ne ho]
    exact Option.or_none

/-- The index after a reset from one output and an update that moves it. -/
theorem index_answers_of_follows_move :
    let before := atOutpoint ⟨0,0⟩ (some (entryWithScore 5))
    let updates := [updateOf (moveDiff ⟨0,0⟩ ⟨1,0⟩ 5 6)]
    Follows sampleFamily before updates ∧
      wp (history someOrders (someIteration before) [] updates)
        (fun _ uis => Answers exactReader sampleFamily uis (virtualUTXOSetAfter before updates))
        (fun _ _ => False) ⟨∅,∅,∅,[]⟩ := by
  intro before updates
  have hrw : NoRewrite (moveDiff ⟨0,0⟩ ⟨1,0⟩ 5 6) := by
    intro _ _ _ ha hr
    have ho := (get_atOutpoint_eq_some.1 ha).1.symm.trans (get_atOutpoint_eq_some.1 hr).1
    exact absurd ho (by decide)
  have haf := applyTo_moveDiff ⟨0,0⟩ ⟨1,0⟩ 5 6
  have hf : Follows sampleFamily before updates :=
    ⟨isChange_moveDiff _ _ _ _,hrw,haf.symm ▸ covers_atOutpoint _ _,
      haf.symm ▸ fits_atOutpoint _ _,trivial⟩
  exact ⟨hf,index_answers_of_follows exactReader sampleFamily_separate (covers_atOutpoint _ _)
    (fits_atOutpoint _ _) someOrders _ [] updates hf ∅⟩

/-- When the outpoint is added again, the addition cancels the removal and
nothing is exchanged. -/
lemma exchange_moveDiff_self {o : DomainOutpoint} {score score' : UInt64}
    {staged : UtxoIndexStore} (h : StagedFor staged (moveDiff o o score score'))
    (orders : MapOrders) (utxoSet : UtxoCollection) :
    exchange utxoSet (staged.toRemove.flatten orders) (staged.toAdd.flatten orders) = utxoSet := by
  have hn : ∀ {side : StagedPairs} {s s' : UInt64}, (∀ script o', side.entryAt script o' =
      if (entryFor (atOutpoint o (some (entryWithScore s'))) script o').isSome then none
      else entryFor (atOutpoint o (some (entryWithScore s))) script o') →
      side.flatten orders = [] := by
    intro side s s' hs
    rw [eq_nil_iff_forall_not_mem]
    rintro ⟨script,o',_⟩ hm
    obtain ⟨he,hsc,hnn⟩ := (mem_staged orders hs).1 hm
    obtain ⟨rfl,rfl⟩ := get_atOutpoint_eq_some.1 he
    have hen : entryFor (atOutpoint o' (some (entryWithScore s'))) script o' =
        some (entryWithScore s') := entryFor_eq_some.2 ⟨get_atOutpoint_self _ _,hsc⟩
    cases hen.symm.trans hnn
  rw [hn h.toRemove,hn h.toAdd]
  rfl

/-- An update that removes an outpoint and adds it again with another DAA score
leaves the entry with the old score in the index. -/
theorem index_keeps_old_score :
    let before := atOutpoint ⟨0,0⟩ (some (entryWithScore 5))
    let diff := moveDiff ⟨0,0⟩ ⟨0,0⟩ 5 6
    IsChange before diff ∧
      (virtualUTXOSetAfter before [updateOf diff]).get ⟨0,0⟩ = some (entryWithScore 6) ∧
      wp (history someOrders (someIteration before) [] [updateOf diff])
        (fun _ uis => uis.utxos exactReader ⟨[],0⟩ 0 = .ok [⟨⟨0,0⟩,entryWithScore 5⟩])
        (fun _ _ => False) ⟨∅,∅,∅,[]⟩ := by
  refine ⟨isChange_moveDiff _ _ _ _,rfl,?_⟩
  rw [history,wp_bind]
  refine (wp_resetDatabase someOrders sampleFamily_separate (covers_atOutpoint _ _)
    (fits_atOutpoint _ _) _ [] _).imp (fun _ _ ht => ?_)
  refine (wp_bind _ fun _ => forM [] _).2 ?_
  rw [wp_bind]
  refine (wp_update_exchange someOrders sampleFamily_separate ht.1 (covers_atOutpoint _ _)
    (fits_atOutpoint _ _) ht.2.1 ht.2.2 (isChange_moveDiff _ _ _ _)
    (fun o a ha => covers_atOutpoint ⟨0,0⟩ 6 o a ha) (fun staged hst => by
      rw [exchange_moveDiff_self hst]
      exact fits_atOutpoint _ _)
    (someIteration _) _ []).imp (fun _ u hu => ?_)
  obtain ⟨⟨staged,hst,hrp⟩,had,hr⟩ := hu
  rw [exchange_moveDiff_self hst] at hrp
  show u.utxos exactReader ⟨[],0⟩ 0 = _
  obtain ⟨pairs,hp,hn,hm⟩ := (answers_of_represents exactReader sampleFamily_separate
    hrp (covers_atOutpoint _ _) (fits_atOutpoint _ _) had hr).entries ⟨[],0⟩ rfl
  have hpr : pairs.Perm [⟨⟨0,0⟩,entryWithScore 5⟩] := by
    rw [perm_ext_iff_of_nodup hn (nodup_singleton _)]
    rintro ⟨o,_⟩
    rw [hm,mem_singleton,UTXOPair.mk.injEq,← get_atOutpoint_eq_some]
    refine and_iff_left_of_imp fun he => ?_
    rw [(get_atOutpoint_eq_some.1 he).2]
    rfl
  rw [hp,perm_singleton.1 hpr]

end
end Eiyaro
