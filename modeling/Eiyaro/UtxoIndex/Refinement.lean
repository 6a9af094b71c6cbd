import Eiyaro.UtxoIndex.Staging
import Eiyaro.Utxo.Algebra

/-!
# The UTXO index follows the virtual UTXO set

A reset writes the virtual UTXO set page by page, and every update carries the
index from one virtual UTXO set to the next one. The removals and the additions
of an update are two lists of pairs; entries, counts and supply change by what
the lists contain, so one argument serves the pages of a reset and the
transaction of an update.
-/

namespace Eiyaro
open List EStateM FinMap
variable {pairs : List (Bytes × DomainOutpoint × UTXOEntry)}
variable {o : DomainOutpoint} {utxoSet : UtxoCollection} {database : IndexDatabase} {e : UTXOEntry}
  {key : Bytes}

/-- The database has the entries of the set, the counts and the supply. In the
middle of an update they belong to different sets. -/
structure Holds (database : IndexDatabase) (utxoSet : UtxoCollection)
    (count : ScriptPublicKey → ℤ) (supply : ℤ) : Prop where
  entries : HoldsEntries database utxoSet
  counts : CountsAre database count
  supply : SupplyIs database supply

/-- The database represents the UTXO set. -/
def Represents (database : IndexDatabase) (utxoSet : UtxoCollection) : Prop :=
  Holds database utxoSet (paying utxoSet) (totalAmount utxoSet)

/-- The set has few enough outputs of each script for the counts and a small
enough sum of amounts for the supply. -/
def Fits (utxoSet : UtxoCollection) : Prop :=
  (∀ spk, paying utxoSet spk < 2^63) ∧ totalAmount utxoSet < 2^64

/-! ## Sums over sets and over pairs -/

lemma paying_eq_card (utxoSet : UtxoCollection) (spk : ScriptPublicKey) :
    paying utxoSet spk = ((utxoSet.filter fun _ e => e.scriptPublicKey = spk).keys.card : ℤ) := by
  have hk : (utxoSet.filter fun _ e => e.scriptPublicKey = spk).keys = utxoSet.keys.filter
      fun o => (utxoSet.get o).any (fun e => e.scriptPublicKey = spk) = true := rfl
  rw [hk,Finset.card_filter,Nat.cast_sum]
  refine Finset.sum_congr rfl fun o _ => ?_
  cases utxoSet.get o with
  | none => rfl
  | some e => by_cases hs : e.scriptPublicKey = spk <;> simp [hs]

lemma Fits.countsFit (h : Fits utxoSet) : CountsFit (paying utxoSet) := by
  intro spk
  refine ⟨?_,h.1 spk⟩
  rw [paying_eq_card]
  exact Int.natCast_nonneg _

section
variable (pairs utxoSet)

lemma totalAmount_nonneg : 0 ≤ totalAmount utxoSet := by
  refine Finset.sum_nonneg fun o _ => ?_
  cases utxoSet.get o with
  | none => exact le_rfl
  | some _ => exact Int.natCast_nonneg _

lemma sum_amounts : ((pairs.map Prod.snd).map fun entry => (entry.2.amount.toNat : ℤ)).sum =
    pairsAmount pairs := by
  rw [pairsAmount,map_map,Nat.cast_list_sum,map_map]
  rfl

end

/-- Pairs that are spelled by their bytes are counted by their scripts. -/
lemma sum_paying (h : Spelled pairs) (spk : ScriptPublicKey) :
    ((pairs.map Prod.snd).map fun entry =>
        if entry.2.scriptPublicKey = spk then (1 : ℤ) else 0).sum =
      (pairs.map Prod.fst).count (scriptPublicKeyBytes spk) := by
  induction pairs with
  | nil => rfl
  | cons pair pairs ih =>
    obtain ⟨script,o,e⟩ := pair
    have hs := h script o e mem_cons_self
    have hr := ih fun script o e hp => h script o e (mem_cons_of_mem _ hp)
    simp only [map_cons,sum_cons,count_cons]
    rw [hr]
    by_cases hspk : e.scriptPublicKey = spk
    · simp [hs,hspk,add_comm]
    · have hne : scriptPublicKeyBytes e.scriptPublicKey ≠ scriptPublicKeyBytes spk := fun heq =>
        hspk (scriptPublicKeyBytes_injective heq)
      simp [hs,hspk,hne]

/-! ## Removing and adding lists of pairs -/

/-- The set without the removed and with the added pairs. -/
def exchange (utxoSet : UtxoCollection)
    (removed added : List (Bytes × DomainOutpoint × UTXOEntry)) : UtxoCollection :=
  (utxoSet.eraseKeys ((removed.map Prod.snd).map Prod.fst)).insertEntries (added.map Prod.snd)

/-- The pairs are at outpoints of the set that can be exchanged. -/
structure CanExchange (family : ScriptPublicKey → Prop) (utxoSet : UtxoCollection)
    (removed added : List (Bytes × DomainOutpoint × UTXOEntry)) : Prop where
  removedSpelled : Spelled removed
  addedSpelled : Spelled added
  removedNodup : ((removed.map Prod.snd).map Prod.fst).Nodup
  addedNodup : ((added.map Prod.snd).map Prod.fst).Nodup
  present : ∀ o e, (o, e) ∈ removed.map Prod.snd → utxoSet.get o = some e
  free : ∀ o ∈ (added.map Prod.snd).map Prod.fst,
    (utxoSet.eraseKeys ((removed.map Prod.snd).map Prod.fst)).get o = none
  scripts : ∀ o e, (o, e) ∈ added.map Prod.snd → family e.scriptPublicKey

variable {family : ScriptPublicKey → Prop}
  {removed added : List (Bytes × DomainOutpoint × UTXOEntry)}

section
variable (h : CanExchange family utxoSet removed added)
include h

lemma CanExchange.paying (spk : ScriptPublicKey) :
    paying (exchange utxoSet removed added) spk = paying utxoSet spk +
      ((added.map Prod.fst).count (scriptPublicKeyBytes spk) -
        (removed.map Prod.fst).count (scriptPublicKeyBytes spk) : ℤ) := by
  rw [exchange,Eiyaro.paying,sum_insertEntries _ _ h.addedNodup h.free,
    sum_eraseKeys _ _ h.removedNodup h.present,sum_paying h.addedSpelled,
    sum_paying h.removedSpelled,Eiyaro.paying]
  omega

lemma CanExchange.totalAmount :
    totalAmount (exchange utxoSet removed added) =
      totalAmount utxoSet+pairsAmount added - pairsAmount removed := by
  rw [exchange,Eiyaro.totalAmount,sum_insertEntries _ _ h.addedNodup h.free,
    sum_eraseKeys _ _ h.removedNodup h.present,sum_amounts,sum_amounts,
    Eiyaro.totalAmount]
  omega

lemma CanExchange.get_exchange :
    (exchange utxoSet removed added).get o = some e ↔ (o, e) ∈ added.map Prod.snd ∨
      o ∉ (removed.map Prod.snd).map Prod.fst ∧ utxoSet.get o = some e := by
  rw [exchange,get_insertEntries_eq_some _ h.addedNodup h.free,get_eraseKeys_eq_some]

end

/-- The key at which a pair is stored. -/
def pairKey (pair : Bytes × DomainOutpoint × UTXOEntry) : Bytes := entryKey pair.1 pair.2.1

lemma Spelled.pairKey_eq (h : Spelled pairs) {pair : Bytes × DomainOutpoint × UTXOEntry}
    (hp : pair ∈ pairs) : pairKey pair = keyOf pair.2.2.scriptPublicKey pair.2.1 := by
  rw [pairKey,h _ _ _ hp,entryKey,newScriptPublicKeyFromString_bytes,keyOf]

section
variable (removed added)

/-- The two loops of writes. -/
def writePairs (database : IndexDatabase) : IndexDatabase :=
  (database.eraseKeys (removed.map pairKey)).insertEntries
    (added.map fun pair => (pairKey pair, .utxoEntry pair.2.2))

lemma foldl_eq_writePairs (database : IndexDatabase) : added.foldl
    (fun database pair => database.insert (entryKey pair.1 pair.2.1) (.utxoEntry pair.2.2))
    (removed.foldl (fun database pair => database.erase (entryKey pair.1 pair.2.1)) database) =
    writePairs removed added database := by
  simp [writePairs,eraseKeys,insertEntries,foldl_map,pairKey]

end

/-- The entries after the writes. -/
lemma CanExchange.holdsEntries (h : CanExchange family utxoSet removed added)
    (hfam : PairwiseSeparate family) (hcov : Covers family utxoSet)
    (hen : HoldsEntries database utxoSet) :
    HoldsEntries (writePairs removed added database) (exchange utxoSet removed added) := by
  -- the removed keys of entries of the set are those at the removed outpoints
  have hrem : ∀ o e, utxoSet.get o = some e → (keyOf e.scriptPublicKey o ∈
      removed.map pairKey ↔ o ∈ (removed.map Prod.snd).map Prod.fst) := by
    intro o e he
    rw [map_map,mem_map,mem_map]
    refine exists_congr fun pair => and_congr_right fun hpr => ?_
    have hp := h.present _ _ (mem_map_of_mem (f := Prod.snd) hpr)
    rw [h.removedSpelled.pairKey_eq hpr]
    constructor
    · intro hk
      exact (hfam.keyOf_inj (hcov _ _ hp) (hcov o e he) hk).2
    · rintro rfl
      rw [Option.some.inj (hp.symm.trans he)]
      rfl
  have hs : ∀ pair ∈ added, family pair.2.2.scriptPublicKey := fun pair hpr =>
    h.scripts _ _ (mem_map_of_mem (f := Prod.snd) hpr)
  have hnd : ((added.map fun pair => (pairKey pair, IndexValue.utxoEntry pair.2.2)).map
      Prod.fst).Nodup := by
    have hop := h.addedNodup
    rw [map_map,Nodup,pairwise_map] at hop ⊢
    refine hop.imp_of_mem fun {pair pair'} hpr hp' hne heq => hne ?_
    simp only [Function.comp_apply,h.addedSpelled.pairKey_eq hpr,
      h.addedSpelled.pairKey_eq hp'] at heq
    exact (hfam.keyOf_inj (hs pair hpr) (hs pair' hp') heq).2
  have hf : ∀ key ∈ (added.map fun pair => (pairKey pair, IndexValue.utxoEntry pair.2.2)).map
      Prod.fst, (database.eraseKeys (removed.map pairKey)).get key = none := by
    rw [map_map,forall_mem_map]
    intro pair hpr
    refine Option.eq_none_iff_forall_ne_some.2 fun value hv => ?_
    rw [get_eraseKeys_eq_some,Function.comp_apply,h.addedSpelled.pairKey_eq hpr,
      hen _ (prefix_keyOf _ _)] at hv
    obtain ⟨hkp,o,e,he,hk,-⟩ := hv
    obtain ⟨-,ho⟩ := hfam.keyOf_inj (hs pair hpr) (hcov o e he) hk
    rw [hk,hrem o e he] at hkp
    have hn := h.free o (ho ▸ mem_map_of_mem (mem_map_of_mem hpr))
    rw [get_eraseKeys,if_neg hkp,he] at hn
    cases hn
  intro key hpre value
  rw [writePairs,get_insertEntries_eq_some _ hnd hf,get_eraseKeys_eq_some,hen key hpre value]
  constructor
  · rintro (had | ⟨hkp,o,e,he,rfl,rfl⟩)
    · obtain ⟨pair,hpr,heq⟩ := mem_map.1 had
      obtain ⟨rfl,rfl⟩ := Prod.mk.inj heq
      exact ⟨_,_,h.get_exchange.2 (.inl (mem_map_of_mem hpr)),h.addedSpelled.pairKey_eq hpr,rfl⟩
    · exact ⟨o,e,h.get_exchange.2 (.inr ⟨fun ho => hkp ((hrem o e he).2 ho),he⟩),rfl,rfl⟩
  · rintro ⟨o,e,he,rfl,rfl⟩
    obtain had | ⟨hkp,he⟩ := h.get_exchange.1 he
    · obtain ⟨⟨_,_⟩,hpr,rfl⟩ := mem_map.1 had
      exact .inl (mem_map.2 ⟨_,hpr,by rw [h.addedSpelled.pairKey_eq hpr]⟩)
    · exact .inr ⟨fun hk => hkp ((hrem o e he).1 hk),o,e,he,rfl,rfl⟩

/-- Writes of entries leave all keys outside their bucket alone. -/
lemma get_writePairs_of_not_prefix (hk : ¬utxoIndexBucket.path <+: key)
    (removed added : List (Bytes × DomainOutpoint × UTXOEntry)) (database : IndexDatabase) :
    (writePairs removed added database).get key = database.get key := by
  have hne : ∀ pairs : List (Bytes × DomainOutpoint × UTXOEntry), key ∉ pairs.map pairKey := by
    intro pairs hm
    obtain ⟨pair,-,rfl⟩ := mem_map.1 hm
    exact hk (prefix_keyOf _ pair.2.1)
  rw [writePairs,get_insertEntries_of_not_mem,get_eraseKeys,if_neg (hne removed)]
  rw [map_map]
  exact hne added

/-! ## The steps of a write -/

lemma not_prefix_supply : ¬utxoIndexBucket.path <+: circulatingSupplyKey.bytes ∧
    ¬utxoIndexCountsBucket.path <+: circulatingSupplyKey.bytes :=
  not_prefix_of_mem_singleKeys (by decide)

variable {count : ScriptPublicKey → ℤ} {supply : ℤ}

section
variable (h : Holds database utxoSet count supply) {database' : IndexDatabase}
include h

/-- A write at a single key other than the supply's. -/
lemma Holds.insert_single (key : Bytes) (value : IndexValue) (hk : key ∈ singleKeys := by decide)
    (hs : key ≠ circulatingSupplyKey.bytes := by decide) :
    Holds (database.insert key value) utxoSet count supply := by
  obtain ⟨hi,hc⟩ := not_prefix_of_mem_singleKeys hk
  refine ⟨h.entries.congr fun _ hk' => ?_,h.counts.congr fun spk => ?_,?_⟩
  · exact get_insert_of_ne _ _ fun heq => hi (heq ▸ hk')
  · exact get_insert_of_ne _ _ fun heq => hc (heq ▸ prefix_countKeyOf spk)
  · rw [SupplyIs,get_insert_of_ne _ _ hs.symm]
    exact h.supply

/-- The writes of the entries. -/
lemma Holds.exchange (he : CanExchange family utxoSet removed added)
    (hfam : PairwiseSeparate family) (hcov : Covers family utxoSet) :
    Holds (writePairs removed added database) (exchange utxoSet removed added) count supply := by
  refine ⟨he.holdsEntries hfam hcov h.entries,h.counts.congr fun spk => ?_,?_⟩
  · exact get_writePairs_of_not_prefix
      (fun hp => not_prefix_counts hp (prefix_countKeyOf spk)) removed added database
  · rw [SupplyIs, get_writePairs_of_not_prefix not_prefix_supply.1]
    exact h.supply

/-- A write of the supply only. -/
lemma Holds.of_supply {supply' : ℤ} (hsp : SupplyIs database' supply')
    (hs : ∀ key, key ≠ circulatingSupplyKey.bytes → database'.get key = database.get key) :
    Holds database' utxoSet count supply' := by
  obtain ⟨hi,hc⟩ := not_prefix_supply
  refine ⟨h.entries.congr fun key hp => ?_,h.counts.congr fun spk => ?_,hsp⟩
  · exact hs key fun heq => hi (heq ▸ hp)
  · exact hs _ fun heq => hc (heq ▸ prefix_countKeyOf spk)

/-- A write of counts only. -/
lemma Holds.of_counts {count' : ScriptPublicKey → ℤ} (hc : CountsAre database' count')
    (hs : SameOffCounts database database') :
    Holds database' utxoSet count' supply := by
  refine ⟨h.entries.congr fun key hp => hs key (not_prefix_counts hp),hc,?_⟩
  rw [SupplyIs,hs _ not_prefix_supply.2]
  exact h.supply

end

/-! ## The transaction of an update -/

lemma countDeltas_getD (toAdd toRemove : StagedPairs) (script : Bytes) :
    ((countDeltas toAdd toRemove).get script).getD 0 =
      (toAdd.size script : ℤ) - (toRemove.size script : ℤ) := by
  show (if _ then _ else none : Option ℤ).getD 0 = _
  split
  · rfl
  · rename_i hnn
    rw [not_or,Option.not_isSome_iff_eq_none,Option.not_isSome_iff_eq_none] at hnn
    simp [StagedPairs.size,hnn.1,hnn.2]

lemma wp_commitTransaction (orders : MapOrders) (hfam : PairwiseSeparate family)
    (uis : UtxoIndexStore) (h : Represents uis.database utxoSet) (hcov : Covers family utxoSet)
    (hft : Fits utxoSet) (hex : CanExchange family utxoSet (uis.toRemove.flatten orders)
      (uis.toAdd.flatten orders))
    (hr : ScriptKeys uis.toRemove) (ha : ScriptKeys uis.toAdd)
    (hf' : Fits (exchange utxoSet (uis.toRemove.flatten orders) (uis.toAdd.flatten orders))) :
    wp (commitTransaction orders uis)
      (fun _ database => Represents database
        (exchange utxoSet (uis.toRemove.flatten orders) (uis.toAdd.flatten orders)))
      (fun _ _ => False) uis.database := by
  simp only [commitTransaction,wp_bind,wp_modify,foldl_eq_writePairs]
  have hw := (h.exchange hex hfam hcov).insert_single virtualParentsKey.bytes
    (.hashes uis.virtualParents)
  refine (wp_updateCirculatingSompiSupply hw.supply hex.totalAmount
    ⟨totalAmount_nonneg _,hft.2⟩ ⟨totalAmount_nonneg _,hf'.2⟩).imp fun _ _ hs => ?_
  have hh := hw.of_supply hs.1 hs.2
  rw [wp_bind]
  refine (wp_applyUTXOCountDeltas orders hh.counts hft.countsFit ?_ (fun _ => ?_)
    hf'.countsFit).imp fun _ _ hc => ?_
  · intro script _ hd
    have hm : script ∈ uis.toRemove.keys ∪ uis.toAdd.keys := mem_keys_of_get hd
    obtain hm | hm := Finset.mem_union.1 hm
    · exact hr script hm
    · exact ha script hm
  · rw [hex.paying,count_flatten,count_flatten,countDeltas_getD]
  · exact (hh.of_counts hc.1 hc.2).insert_single _ _

/-! ## Updates -/

/-- The diff leads on from the UTXO set: it removes entries of the set, and adds
entries at outpoints that are free once they are removed. -/
structure IsChange (utxoSet : UtxoCollection) (diff : UTXODiff) : Prop where
  removes : ∀ o r, diff.toRemove.get o = some r → utxoSet.get o = some r
  adds : ∀ o a, diff.toAdd.get o = some a → utxoSet.get o = none ∨ ∃ r, diff.toRemove.get o = some r

/-- No outpoint is removed and added with two entries of one script. -/
def NoRewrite (diff : UTXODiff) : Prop :=
  ∀ o a r, diff.toAdd.get o = some a → diff.toRemove.get o = some r →
    a.scriptPublicKey = r.scriptPublicKey → a = r

variable {diff : UTXODiff} {uis : UtxoIndexStore} {collection : UtxoCollection} {script : Bytes}

/-- An entry that the other side of the diff has at the same outpoint and script. -/
lemma entryFor_eq_none :
    entryFor collection script o = none ↔
      ∀ e, collection.get o = some e → scriptPublicKeyBytes e.scriptPublicKey ≠ script := by
  rw [Option.eq_none_iff_forall_ne_some]
  exact forall_congr' fun e => by rw [Ne,entryFor_eq_some,not_and]

section
variable {staged : StagedPairs} {own other : UtxoCollection} (orders : MapOrders)
  (h : ∀ script o, staged.entryAt script o =
    if (entryFor other script o).isSome then none else entryFor own script o)
include h

/-- A staged pair is one of its side of the diff that the other side does not cancel. -/
lemma mem_staged : (script, o, e) ∈ staged.flatten orders ↔
    own.get o = some e ∧ scriptPublicKeyBytes e.scriptPublicKey = script ∧
      entryFor other script o = none := by
  rw [mem_flatten,h,← and_assoc,← entryFor_eq_some]
  cases entryFor other script o <;> simp

lemma mem_staged_entries : (o, e) ∈ (staged.flatten orders).map Prod.snd ↔
    own.get o = some e ∧ ∀ e', other.get o = some e' → e'.scriptPublicKey ≠ e.scriptPublicKey := by
  simp [mem_staged orders h,entryFor_eq_none,scriptPublicKeyBytes_injective.eq_iff]

lemma spelled_staged : Spelled (staged.flatten orders) :=
  fun _ _ _ hp => ((mem_staged orders h).1 hp).2.1.symm

/-- The pairs are determined by their outpoints. -/
lemma nodup_staged : (((staged.flatten orders).map Prod.snd).map Prod.fst).Nodup := by
  rw [map_map]
  refine List.Nodup.map_on ?_ (nodup_flatten orders staged)
  rintro ⟨_,o,_⟩ hm ⟨_,o',_⟩ hm' heq
  obtain ⟨he,rfl,-⟩ := (mem_staged orders h).1 hm
  obtain ⟨he',rfl,-⟩ := (mem_staged orders h).1 hm'
  obtain rfl : o = o' := heq
  rw [Option.some.inj (he.symm.trans he')]

end

section
variable (h : StagedFor uis diff) (orders : MapOrders) (hch : IsChange utxoSet diff)
include h orders hch

lemma StagedFor.canExchange (hs : ∀ o a, diff.toAdd.get o = some a → family a.scriptPublicKey) :
    CanExchange family utxoSet (uis.toRemove.flatten orders) (uis.toAdd.flatten orders) := by
  refine ⟨spelled_staged orders h.toRemove,spelled_staged orders h.toAdd,
    nodup_staged orders h.toRemove,nodup_staged orders h.toAdd,?_,?_,?_⟩
  · intro o r hm
    exact hch.removes _ _ ((mem_staged_entries orders h.toRemove).1 hm).1
  · intro o hm
    obtain ⟨⟨o,a⟩,had,rfl⟩ := mem_map.1 hm
    obtain ⟨ha,ho⟩ := (mem_staged_entries orders h.toAdd).1 had
    refine Option.eq_none_iff_forall_ne_some.2 fun _ he => ?_
    obtain ⟨hk,he⟩ := (get_eraseKeys_eq_some _).1 he
    obtain hf | ⟨r,hr⟩ := hch.adds o a ha
    · cases hf.symm.trans he
    · -- the removed entry pays to another script, so its removal is staged
      refine hk (mem_map.2 ⟨(o, r),(mem_staged_entries orders h.toRemove).2
        ⟨hr,fun _ ha' => ?_⟩,rfl⟩)
      obtain rfl := Option.some.inj (ha.symm.trans ha')
      exact (ho r hr).symm
  · intro o a hm
    exact hs _ _ ((mem_staged_entries orders h.toAdd).1 hm).1

/-- The exchanged pairs make the next UTXO set. -/
lemma StagedFor.exchange_eq (hrw : NoRewrite diff)
    (hs : ∀ o a, diff.toAdd.get o = some a → family a.scriptPublicKey) :
    exchange utxoSet (uis.toRemove.flatten orders) (uis.toAdd.flatten orders) =
      diff.applyTo utxoSet := by
  have he := h.canExchange orders hch hs
  ext1 o
  refine Option.ext fun e => ?_
  rw [he.get_exchange,mem_staged_entries orders h.toAdd,UTXODiff.applyTo,get_insertAll,get_filter]
  simp only [mem_map,Prod.exists,mem_staged_entries orders h.toRemove,
    exists_and_right,exists_eq_right]
  cases ha : diff.toAdd.get o with
  | none =>
    cases hr : diff.toRemove.get o with
    | none => cases utxoSet.get o <;> simp [Option.filter,UtxoCollection.containsWithDAAScore,hr]
    | some r =>
      simp [hch.removes,Option.filter,UtxoCollection.containsWithDAAScore,hr]
  | some a =>
    cases hr : diff.toRemove.get o with
    | none =>
      have hf : utxoSet.get o = none := by simpa [hr] using hch.adds o a ha
      simp [hf]
    | some r =>
      by_cases hscr : a.scriptPublicKey = r.scriptPublicKey
      · -- both sides have the same entry, which stays where it is
        obtain rfl := hrw o a r ha hr hscr
        simp +contextual [hch.removes o a hr]
      · have ho : a = e → r.scriptPublicKey ≠ e.scriptPublicKey := by
          rintro rfl
          exact Ne.symm hscr
        simpa [hscr] using ho

end

section
variable (orders : MapOrders) (hfam : PairwiseSeparate family)
  (h : Represents uis.database utxoSet) (hcov : Covers family utxoSet) (hft : Fits utxoSet)
  (hadd : uis.toAdd = ∅) (hrem : uis.toRemove = ∅) (hch : IsChange utxoSet diff)
include orders hfam h hcov hft hadd hrem hch

/-- An update succeeds and exchanges the pairs that it stages. -/
lemma wp_update_exchange (hsc : ∀ o a, diff.toAdd.get o = some a → family a.scriptPublicKey)
    (hf' : ∀ staged, StagedFor staged diff →
      Fits (exchange utxoSet (staged.toRemove.flatten orders) (staged.toAdd.flatten orders)))
    (removals : diff.toRemove.Iteration) (additions : diff.toAdd.Iteration)
    (virtualParents : List DomainHash) :
    wp (UtxoIndexStore.update orders diff removals additions virtualParents)
      (fun _ t => (∃ staged, StagedFor staged diff ∧ Represents t.database
          (exchange utxoSet (staged.toRemove.flatten orders) (staged.toAdd.flatten orders))) ∧
        t.toAdd = ∅ ∧ t.toRemove = ∅)
      (fun _ _ => False) uis := by
  have hs := wp_stage_diff diff removals additions hadd hrem
  rw [wp_bind] at hs
  rw [UtxoIndexStore.update,wp_bind]
  refine hs.imp (fun _ t ht => ?_)
  rw [wp_bind]
  refine ht.imp (fun _ u hu => ?_)
  obtain ⟨hdb,hstg⟩ := hu
  rw [wp_bind,wp_modify,wp_bind,wp_get,wp_bind,UtxoIndexStore.commit,wp_bind,wp_get]
  -- the transaction starts from the database before the update
  have hcm := wp_commitTransaction orders hfam { u with virtualParents := virtualParents }
    (hdb ▸ h) hcov hft (hstg.canExchange orders hch hsc)
    hstg.removeKeys hstg.addKeys (hf' u hstg)
  rw [wp] at hcm
  split at hcm
  · rename_i database hr
    rw [hr]
    exact ⟨⟨u,hstg,hcm⟩,rfl,rfl⟩
  · exact hcm.elim

/-- An update carries the index from one UTXO set to the next. -/
lemma wp_update (hr : NoRewrite diff) (hc' : Covers family (diff.applyTo utxoSet))
    (hf' : Fits (diff.applyTo utxoSet)) (removals : diff.toRemove.Iteration)
    (additions : diff.toAdd.Iteration) (virtualParents : List DomainHash) :
    wp (UtxoIndexStore.update orders diff removals additions virtualParents)
      (fun _ t => Represents t.database (diff.applyTo utxoSet) ∧ t.toAdd = ∅ ∧ t.toRemove = ∅)
      (fun _ _ => False) uis := by
  have hsc : ∀ o a, diff.toAdd.get o = some a → family a.scriptPublicKey := by
    intro o a ha
    refine hc' o a ?_
    rw [UTXODiff.applyTo,get_insertAll,ha]
    rfl
  refine (wp_update_exchange orders hfam h hcov hft hadd hrem hch hsc
    (fun staged hs => ?_) removals additions virtualParents).imp (fun _ t ht => ?_)
  · rwa [hs.exchange_eq orders hch hr hsc]
  · obtain ⟨⟨staged,hs,hrp⟩,he⟩ := ht
    rw [hs.exchange_eq orders hch hr hsc] at hrp
    exact ⟨hrp,he⟩

end

/-! ## Reset -/

section

lemma get_deleteBucket (bucket : Bucket) (database : IndexDatabase) (key : Bytes) :
    (deleteBucket bucket database).get key =
      if bucket.path <+: key then none else database.get key := by
  rw [deleteBucket,get_eraseKeys]
  by_cases hp : bucket.path <+: key
  · split
    · rfl
    · rename_i hkp
      -- a key with a value would have been visited
      by_contra hv
      obtain ⟨value,hg⟩ := Option.ne_none_iff_exists'.1 hv
      obtain ⟨suffix,rfl⟩ := hp
      exact hkp (mem_map.2 ⟨(bucket.key suffix, value),mem_cursor.2 ⟨rfl,hg⟩,rfl⟩)
  · rw [if_neg hp,if_neg]
    intro hm
    obtain ⟨⟨_,value⟩,hk,rfl⟩ := mem_map.1 hm
    obtain ⟨rfl,-⟩ := mem_cursor.1 hk
    exact hp (prefix_append _ _)

/-- After everything was deleted and the supply was set to zero, the index
represents the empty set. -/
lemma wp_initialSupply (database : IndexDatabase) :
    wp initializeCirculatingSompiSupply (fun _ t => Represents t ∅) (fun _ _ => False)
      (deleteAll database) := by
  have hi : ∀ key, utxoIndexBucket.path <+: key → (deleteAll database).get key = none := by
    intro key hk
    rw [deleteAll,get_deleteBucket,if_pos hk]
  have hc : ∀ key, utxoIndexCountsBucket.path <+: key → (deleteAll database).get key = none := by
    intro key hk
    rw [deleteAll,get_deleteBucket,if_neg fun h => not_prefix_counts h hk,get_deleteBucket,
      if_pos hk]
  have hcr : cursor (deleteAll database) utxoIndexBucket = [] := by
    rw [eq_nil_iff_forall_not_mem]
    rintro ⟨key,value⟩ hm
    obtain ⟨hb,hg⟩ := mem_cursor.1 hm
    rw [hi _ (hb ▸ prefix_append _ _)] at hg
    cases hg
  obtain ⟨hni,hn⟩ := not_prefix_supply
  rw [initializeCirculatingSompiSupply,wp_bind,wp_get,hcr]
  refine ⟨fun key hp value => ?_,fun spk => ?_,get_insert_self _ _ _⟩
  · have hne : key ≠ circulatingSupplyKey.bytes := fun heq => hni (heq ▸ hp)
    rw [get_insert_of_ne _ _ hne,hi key hp]
    simp
  · have hne : countKeyOf spk ≠ circulatingSupplyKey.bytes := fun heq =>
      hn (heq ▸ prefix_countKeyOf spk)
    rw [get_insert_of_ne _ _ hne,hc _ (prefix_countKeyOf spk)]
    rfl

lemma spelled_withScripts (entries : List (DomainOutpoint × UTXOEntry)) :
    Spelled (withScripts entries) := by
  intro _ _ _ hm
  obtain ⟨⟨_,_⟩,-,heq⟩ := mem_map.1 hm
  obtain ⟨rfl,hr⟩ := Prod.mk.inj heq
  obtain ⟨rfl,rfl⟩ := Prod.mk.inj hr
  rfl

variable {page read rest : List (DomainOutpoint × UTXOEntry)}

/-- A part of the set is within the bounds of the whole. -/
lemma Fits.of_insertEntries (hnd : (rest.map Prod.fst).Nodup)
    (hfr : ∀ o ∈ rest.map Prod.fst, utxoSet.get o = none)
    (h : Fits (utxoSet.insertEntries rest)) : Fits utxoSet := by
  have hle : ∀ f : DomainOutpoint → UTXOEntry → ℤ, (∀ o e, 0 ≤ f o e) →
      utxoSet.sum f ≤ (utxoSet.insertEntries rest).sum f := by
    intro f hf
    rw [sum_insertEntries _ _ hnd hfr]
    have hn : 0 ≤ (rest.map fun entry => f entry.1 entry.2).sum :=
      sum_nonneg (forall_mem_map.2 fun entry _ => hf _ _)
    omega
  refine ⟨fun spk => (hle _ fun o e => ?_).trans_lt (h.1 spk),
    (hle _ fun o e => Int.natCast_nonneg _).trans_lt h.2⟩
  split <;> decide

variable (orders : MapOrders)

/-- A page adds its entries to the index. -/
lemma wp_addAndCommit (hfam : PairwiseSeparate family) (h : Represents database utxoSet)
    (hnd : (page.map Prod.fst).Nodup) (hf : ∀ o ∈ page.map Prod.fst, utxoSet.get o = none)
    (hcov : Covers family (utxoSet.insertEntries page)) (hft : Fits (utxoSet.insertEntries page)) :
    wp (addAndCommitOutpointsWithoutTransaction orders page)
      (fun _ t => Represents t (utxoSet.insertEntries page)) (fun _ _ => False) database := by
  have hg := fun o e => (get_insertEntries_eq_some (k := o) (v := e) utxoSet hnd hf).2
  have hf' := hft.of_insertEntries hnd hf
  have hsnd : (withScripts page).map Prod.snd = page := by
    rw [withScripts,map_map]
    exact map_id _
  have hex : CanExchange family utxoSet [] (withScripts page) := by
    refine ⟨fun _ _ _ hm => (not_mem_nil hm).elim,spelled_withScripts page,
      nodup_nil,by rwa [hsnd],fun _ _ hm => (not_mem_nil hm).elim,?_,?_⟩
    · rwa [hsnd]
    · rw [hsnd]
      exact fun o e hm => hcov o e (hg o e (.inl hm))
  have hs : exchange utxoSet [] (withScripts page) = utxoSet.insertEntries page := by
    rw [exchange,hsnd]
    rfl
  have hpy := hex.paying
  have ht := hex.totalAmount
  have hen := h.exchange hex hfam fun o e he => hcov o e (hg o e (.inr he))
  rw [hs] at hpy ht hen
  rw [← foldl_eq_writePairs] at hen
  simp only [addAndCommitOutpointsWithoutTransaction,wp_bind,wp_modify]
  refine (wp_applyUTXOCountDeltas orders hen.counts hf'.countsFit ?_ (fun _ => ?_)
    hft.countsFit).imp fun _ _ hc => ?_
  · intro script _ hd
    have hm : script ∈ ((withScripts page).map Prod.fst).toFinset := mem_keys_of_get hd
    obtain ⟨⟨_,o,e⟩,hp,rfl⟩ := mem_map.1 (mem_toFinset.1 hm)
    exact ⟨e.scriptPublicKey,spelled_withScripts page _ _ _ hp⟩
  · rw [hpy]
    show _ = _+(if _ then _ else none : Option ℤ).getD 0
    split
    · simp
    · rename_i hn
      simp [count_eq_zero_of_not_mem hn]
  · have hh := (hen.of_counts hc.1 hc.2).insert_single utxoCountsInitializedKey.bytes .flag
    exact (wp_updateCirculatingSompiSupply hh.supply ht ⟨totalAmount_nonneg _,hf'.2⟩
      ⟨totalAmount_nonneg _,hft.2⟩).imp fun _ _ h => hh.of_supply h.1 h.2

/-- The page after a part of the entries that was already read. -/
lemma virtualUTXOs_append (hnd : ((read ++ rest).map Prod.fst).Nodup) (limit : Nat) :
    virtualUTXOs (read ++ rest) (read.getLast?.map Prod.fst) limit = rest.take limit := by
  obtain rfl | ⟨before,last,rfl⟩ := eq_nil_or_concat' read
  · rfl
  · have hb : ∀ entry ∈ before, entry.1 ≠ last.1 := by
      intro entry he heq
      rw [append_assoc,map_append,nodup_append] at hnd
      exact hnd.2.2 entry.1 (mem_map_of_mem he) last.1 (by simp) heq
    rw [getLast?_concat,append_assoc]
    show (((before ++ ([last] ++ rest)).dropWhile _).drop 1).take limit = _
    rw [dropWhile_append_of_pos (by simpa using hb)]
    simp

lemma insertEntries_append (m : UtxoCollection) (l l' : List (DomainOutpoint × UTXOEntry)) :
    m.insertEntries (l ++ l') = (m.insertEntries l).insertEntries l' :=
  foldl_append

/-- The loop over the pages, with fuel for every entry that is still to be read. -/
lemma wp_resetPages (hfam : PairwiseSeparate family) {total : UtxoCollection}
    (hcov : Covers family total) (hft : Fits total) (fuel : Nat)
    (hnd : ((read ++ rest).map Prod.fst).Nodup) (hf : rest.length < fuel)
    (hfr : ∀ o ∈ rest.map Prod.fst, utxoSet.get o = none)
    (htt : utxoSet.insertEntries rest = total) (h : Represents database utxoSet) :
    wp (resetPages orders (read ++ rest) fuel (read.getLast?.map Prod.fst))
      (fun _ t => Represents t total) (fun _ _ => False) database := by
  induction fuel generalizing read rest utxoSet database with
  | zero => omega
  | succ fuel ih =>
    -- the page is the next part of the entries
    have hp := virtualUTXOs_append hnd resetStep
    obtain ⟨later,hl⟩ : ∃ later, rest.drop resetStep = later := ⟨_,rfl⟩
    have hsp := take_append_drop resetStep rest
    rw [hl] at hsp
    set page := rest.take resetStep with hp'
    rw [← hsp,insertEntries_append] at htt
    rw [← hsp,map_append,forall_mem_append] at hfr
    have hrs := hnd
    rw [← hsp,map_append,map_append] at hrs
    obtain ⟨hnodup_page,hnodup_later,hd⟩ := nodup_append.1 hrs.of_append_right
    have hfr' : ∀ o ∈ later.map Prod.fst, (utxoSet.insertEntries page).get o = none := by
      intro o ho
      rw [get_insertEntries_of_not_mem _ fun hmm => hd o hmm o ho rfl]
      exact hfr.2 o ho
    rw [resetPages,hp,wp_bind]
    refine (wp_addAndCommit orders hfam h hnodup_page hfr.1 (fun o e he => hcov o e ?_)
      (.of_insertEntries hnodup_later hfr' (htt ▸ hft))).imp (fun _ t ht => ?_)
    · rw [← htt,get_insertEntries_eq_some _ hnodup_later hfr']
      exact .inr he
    refine wp_ite (fun hls => ?_) fun hm => ?_
    · have hn : later = [] := by
        rw [length_take] at hls
        rw [← hl,drop_eq_nil_iff]
        omega
      rwa [← htt,hn]
    · have hne : page ≠ [] := by
        intro hn
        rw [hn] at hm
        exact hm (by decide)
      have hr : read ++ rest = (read ++ page) ++ later := by rw [append_assoc,hsp]
      rw [← getLast?_append_of_ne_nil read hne,hr]
      refine ih (hr ▸ hnd) ?_ hfr' htt ht
      have := congrArg length hsp
      rw [length_append] at this
      have := length_pos_iff.2 hne
      omega

/-- A reset makes the index represent the virtual UTXO set, whatever was in the
database. -/
lemma wp_reset (hfam : PairwiseSeparate family) (hcov : Covers family utxoSet) (hft : Fits utxoSet)
    (stored : utxoSet.Iteration) (virtualParents : List DomainHash) (database : IndexDatabase) :
    wp (reset orders stored virtualParents) (fun _ t => Represents t utxoSet) (fun _ _ => False)
      database := by
  have hs : (∅ : UtxoCollection).insertEntries stored.entries = utxoSet := by
    rw [insertEntries_entries]
    ext1 o
    rw [get_insertAll,get_empty,Option.or_none]
  rw [reset,wp_bind,wp_modify,wp_bind]
  refine (wp_initialSupply database).imp (fun _ t ht => ?_)
  have hnd : (([] ++ stored.entries).map Prod.fst).Nodup := stored.nodup_map_fst
  rw [wp_bind]
  refine (wp_resetPages orders hfam hcov hft _ hnd (Nat.lt_succ_self _) (fun _ _ => rfl)
    hs ht).imp (fun _ _ hu => ?_)
  exact (hu.insert_single _ _).insert_single _ _

end
end Eiyaro
