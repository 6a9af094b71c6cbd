import Eiyaro.UtxoIndex.Store
import Eiyaro.Util.WeakestPre

/-!
# What the UTXO index stands for

An index database represents a UTXO set when it has an entry for every unspent
output under the key of its script and outpoint, the number of outputs of every
script, and the sum of all amounts. Each part is kept by its own writes and left
alone by the others: entries, counts and the supply have keys of their own.
-/

namespace Eiyaro
open List EStateM FinMap UInt64 Function
variable {e : UTXOEntry} {key : Bytes}

/-! ## Keys of different kinds -/

variable (spk : ScriptPublicKey)
variable (o : DomainOutpoint)

/-- The key of an entry of the script. -/
def keyOf : Bytes :=
  (convertOutpointToKey (bucketForScriptPublicKey spk) o).bytes

/-- The key of the number of entries of the script. -/
def countKeyOf : Bytes :=
  (utxoCountKeyForScriptPublicKey spk).bytes

lemma prefix_keyOf : utxoIndexBucket.path <+: keyOf spk o := by
  rw [keyOf,convertOutpointToKey,Bucket.key,Key.bytes,path_bucketForScriptPublicKey]
  exact prefix_append _ _

lemma prefix_countKeyOf : utxoIndexCountsBucket.path <+: countKeyOf spk :=
  prefix_append _ _

lemma countKeyOf_injective : Function.Injective countKeyOf := by
  intro _ _ h
  exact scriptPublicKeyBytes_injective (append_cancel_left h)

/-- No key lies in both buckets. -/
lemma not_prefix_counts (h : utxoIndexBucket.path <+: key) :
    ¬utxoIndexCountsBucket.path <+: key := by
  intro h'
  obtain hp | hp := prefix_or_prefix_of_prefix h h'
  · exact absurd hp (by decide)
  · exact absurd hp (by decide)

/-- The keys outside both buckets. -/
def singleKeys : List Bytes :=
  [virtualParentsKey.bytes,circulatingSupplyKey.bytes,utxoCountsInitializedKey.bytes]

lemma not_prefix_of_mem_singleKeys (h : key ∈ singleKeys) :
    ¬utxoIndexBucket.path <+: key ∧ ¬utxoIndexCountsBucket.path <+: key := by
  simp only [singleKeys,mem_cons,not_mem_nil,or_false] at h
  obtain rfl | rfl | rfl := h
  · decide
  · decide
  · decide

variable (family : ScriptPublicKey → Prop)

/-- A family of scripts no two of which have nested buckets. -/
def PairwiseSeparate : Prop :=
  ∀ s t, family s → family t → s ≠ t → Separate s t

/-- All outputs of the set pay to scripts of the family. -/
def Covers (utxoSet : UtxoCollection) : Prop :=
  ∀ o e, utxoSet.get o = some e → family e.scriptPublicKey

lemma PairwiseSeparate.keyOf_inj {family : ScriptPublicKey → Prop}
    (hf : PairwiseSeparate family) {s t : ScriptPublicKey} (hs : family s) (ht : family t)
    {o o' : DomainOutpoint} (h : keyOf s o = keyOf t o') : s = t ∧ o = o' := by
  by_cases hst : s = t
  · subst hst
    exact ⟨rfl,serializeOutpoint_injective (append_cancel_left h)⟩
  · have hp : (bucketForScriptPublicKey s).path <+: keyOf s o := prefix_append _ _
    rw [h] at hp
    exact absurd hp ((hf s t hs ht hst).not_extends _)

/-! ## Entries -/

/-- The entries of the index are those of the set. -/
def HoldsEntries (database : IndexDatabase) (utxoSet : UtxoCollection) : Prop :=
  ∀ key, utxoIndexBucket.path <+: key → ∀ value, database.get key = some value ↔
    ∃ o e, utxoSet.get o = some e ∧ key = keyOf e.scriptPublicKey o ∧ value = .utxoEntry e

variable {database database' : IndexDatabase} {utxoSet : UtxoCollection}

lemma HoldsEntries.congr (h : HoldsEntries database utxoSet)
    (hs : ∀ key, utxoIndexBucket.path <+: key → database'.get key = database.get key) :
    HoldsEntries database' utxoSet := by
  intro key hk value
  rw [hs key hk]
  exact h key hk value

/-- The pairs are entries of scripts that are spelled by their bytes. -/
def Spelled (pairs : List (Bytes × DomainOutpoint × UTXOEntry)) : Prop :=
  ∀ script o e, (script, o, e) ∈ pairs → script = scriptPublicKeyBytes e.scriptPublicKey

/-! ## Counts -/

/-- The number of outputs of the set that pay to the script. -/
def paying (utxoSet : UtxoCollection) (spk : ScriptPublicKey) : ℤ :=
  utxoSet.sum fun _ e => if e.scriptPublicKey = spk then 1 else 0

/-- The stored counts: a number where it is not zero. -/
def CountsAre (database : IndexDatabase) (count : ScriptPublicKey → ℤ) : Prop :=
  ∀ spk, database.get (countKeyOf spk) =
    if count spk = 0 then none else some (.number (ofNat (count spk).toNat))

/-- The counts fit in the signed numbers that they are computed with. -/
def CountsFit (count : ScriptPublicKey → ℤ) : Prop :=
  ∀ spk, 0 ≤ count spk ∧ count spk < 2^63

/-- Nothing is written outside the bucket of the counts. -/
def SameOffCounts (database database' : IndexDatabase) : Prop :=
  ∀ key, ¬utxoIndexCountsBucket.path <+: key → database'.get key = database.get key

variable {count : ScriptPublicKey → ℤ}

section
variable (h : CountsAre database count) {spk : ScriptPublicKey}
include h

lemma CountsAre.congr (hs : ∀ spk, database'.get (countKeyOf spk) = database.get (countKeyOf spk)) :
    CountsAre database' count := by
  intro spk
  rw [hs]
  exact h spk

/-- Rewriting one count. -/
lemma CountsAre.update (spk : ScriptPublicKey) (n : ℤ) (hs : database'.get (countKeyOf spk) =
      if n = 0 then none else some (.number (ofNat n.toNat)))
    (ho : ∀ key, key ≠ countKeyOf spk → database'.get key = database.get key) :
    CountsAre database' (update count spk n) := by
  intro spk'
  by_cases heq : spk' = spk
  · subst heq
    rw [hs,update_self]
  · rw [ho _ fun hk => heq (countKeyOf_injective hk),update_of_ne heq]
    exact h spk'

lemma CountsAre.currentCountAt (hf : 0 ≤ count spk ∧ count spk < 2^63) :
    ∃ n, currentCountAt database (utxoCountKeyForScriptPublicKey spk).bytes = .ok n ∧
      (n.toNat : ℤ) = count spk := by
  have hg := h spk
  rw [countKeyOf] at hg
  rw [Eiyaro.currentCountAt,hg]
  by_cases hzr : count spk = 0
  · rw [if_pos hzr,hzr]
    exact ⟨0,rfl,rfl⟩
  · rw [if_neg hzr]
    refine ⟨_,rfl,?_⟩
    rw [toNat_ofNat',Nat.mod_eq_of_lt (by omega)]
    omega

lemma wp_applyUTXOCountDelta {delta : ℤ} (hol : 0 ≤ count spk ∧ count spk < 2^63)
    (hnw : 0 ≤ count spk+delta) :
    wp (applyUTXOCountDelta (scriptPublicKeyBytes spk) delta)
      (fun _ database' =>
        CountsAre database' (update count spk (count spk+delta)) ∧ SameOffCounts database database')
      (fun _ _ => False) database := by
  have ho : ∀ {key}, ¬utxoIndexCountsBucket.path <+: key → key ≠ countKeyOf spk := by
    rintro key hk rfl
    exact hk (prefix_countKeyOf spk)
  refine wp_ite (fun hd => ?_) fun hd => ?_
  · rw [wp_bind,wp_get,newScriptPublicKeyFromString_bytes]
    obtain ⟨n,hc,hn⟩ := h.currentCountAt hol
    rw [wp_bind]
    refine wp_ofExcept (fun n' hn' => ?_) fun _ hf => ?_
    swap
    · rw [hc] at hf
      cases hf
    obtain rfl : n = n' := Except.ok.inj (hc.symm.trans hn')
    rw [hn,if_neg (by omega),if_neg (by omega)]
    refine wp_ite (fun hzr => ?_) fun hzr => ?_
    · refine ⟨h.update spk _ ?_ fun key hk => get_erase_of_ne database hk,
        fun key hk => get_erase_of_ne database (ho hk)⟩
      rw [if_pos hzr]
      exact get_erase_self database _
    · refine ⟨h.update spk _ ?_ fun key hk => get_insert_of_ne database _ hk,
        fun key hk => get_insert_of_ne database _ (ho hk)⟩
      rw [if_neg hzr]
      exact get_insert_self database _ _
  · have hzr : delta = 0 := not_not.1 hd
    rw [hzr,add_zero,update_eq_self]
    exact ⟨h,fun _ _ => rfl⟩

end

/-- All counts after a loop over the changes. -/
lemma wp_applyUTXOCountDeltas (orders : MapOrders) {deltas : FinMap Bytes ℤ}
    {count' : ScriptPublicKey → ℤ} (h : CountsAre database count) (hf : CountsFit count)
    (hky : ∀ script delta, deltas.get script = some delta →
      ∃ spk, script = scriptPublicKeyBytes spk)
    (hc' : ∀ spk, count' spk = count spk+(deltas.get (scriptPublicKeyBytes spk)).getD 0)
    (hf' : CountsFit count') :
    wp (applyUTXOCountDeltas orders deltas)
      (fun _ database' => CountsAre database' count' ∧ SameOffCounts database database')
      (fun _ _ => False) database := by
  -- the scripts that are still to be visited have their old counts
  have hl := wp_forM_entries (orders.deltas deltas) (I := fun rest t =>
      SameOffCounts database t ∧ ∃ current, CountsAre t current ∧ ∀ spk,
        current spk = if scriptPublicKeyBytes spk ∈ rest then count spk else count' spk)
    (f := fun entry => applyUTXOCountDelta entry.1 entry.2) (E := fun _ _ => False) ?_
    (s := database) ⟨fun _ _ => rfl,count,h,fun spk => ?_⟩
  · refine hl.imp (fun _ t ht => ?_)
    obtain ⟨hsm,current,hc,heq⟩ := ht
    have hcurrent_eq : current = count' := by
      funext spk
      simpa using heq spk
    rw [hcurrent_eq] at hc
    exact ⟨hc,hsm⟩
  · rintro script delta rest t hv hd ⟨hsm,current,hc,heq⟩
    obtain ⟨spk,rfl⟩ := hky script delta hd
    have ho : current spk = count spk := by
      rw [heq,if_pos mem_cons_self]
    have hnw : count spk+delta = count' spk := by
      rw [hc' spk,hd]
      rfl
    refine (wp_applyUTXOCountDelta hc (ho ▸ hf spk) ?_).imp (fun _ _ hu => ?_)
    · rw [ho,hnw]
      exact (hf' spk).1
    · refine ⟨fun key hk => (hu.2 key hk).trans (hsm key hk),_,hu.1,fun spk' => ?_⟩
      by_cases hs : spk' = spk
      · subst hs
        rw [update_self,if_neg hv,ho,hnw]
      · have hne : scriptPublicKeyBytes spk' ≠ scriptPublicKeyBytes spk := fun h =>
          hs (scriptPublicKeyBytes_injective h)
        rw [update_of_ne hs,heq]
        simp [hne]
  · split
    · rfl
    · rename_i hn
      rw [(orders.deltas deltas).mem_order,deltas.mem_keys,Option.not_isSome_iff_eq_none] at hn
      rw [hc',hn]
      simp

/-! ## The supply -/

/-- The sum of the amounts of the set. -/
def totalAmount (utxoSet : UtxoCollection) : ℤ :=
  utxoSet.sum fun _ e => (e.amount.toNat : ℤ)

/-- The stored supply. -/
def SupplyIs (database : IndexDatabase) (supply : ℤ) : Prop :=
  database.get circulatingSupplyKey.bytes = some (.number (ofNat supply.toNat))

/-- The sum of the amounts of a list of pairs. -/
def pairsAmount (pairs : List (Bytes × DomainOutpoint × UTXOEntry)) : ℕ :=
  (pairs.map fun pair => pair.2.2.amount.toNat).sum

lemma toNat_sompiSupply (pairs : List (Bytes × DomainOutpoint × UTXOEntry)) :
    (sompiSupply pairs).toNat = pairsAmount pairs % 2^64 := by
  simpa [sompiSupply,pairsAmount] using toNat_foldl_add _ pairs 0

/-- The supply after an update, when the old and the new one fit in 64 bits. -/
lemma wp_updateCirculatingSompiSupply {supply supply' : ℤ} (h : SupplyIs database supply)
    {added removed : List (Bytes × DomainOutpoint × UTXOEntry)}
    (hs' : supply' = supply+pairsAmount added - pairsAmount removed)
    (hft : 0 ≤ supply ∧ supply < 2^64) (hf' : 0 ≤ supply' ∧ supply' < 2^64) :
    wp (updateCirculatingSompiSupply (sompiSupply added) (sompiSupply removed))
      (fun _ database' => SupplyIs database' supply' ∧
        ∀ key, key ≠ circulatingSupplyKey.bytes → database'.get key = database.get key)
      (fun _ _ => False) database := by
  have had := toNat_sompiSupply added
  have hr := toNat_sompiSupply removed
  refine wp_ite (fun _ => ?_) fun heq => ?_
  · rw [wp_bind,wp_get,h,wp_bind]
    refine wp_ofExcept (fun n hn => ?_) fun _ hf => by cases hf
    obtain rfl : ofNat supply.toNat = n := Except.ok.inj hn
    have hv : UInt64.ofNat supply.toNat+sompiSupply added - sompiSupply removed =
        UInt64.ofNat supply'.toNat := by
      apply UInt64.toNat_inj.1
      rw [UInt64.toNat_sub,UInt64.toNat_add,UInt64.toNat_ofNat',UInt64.toNat_ofNat']
      omega
    refine ⟨?_,fun key hk => get_insert_of_ne database _ hk⟩
    rw [SupplyIs,get_insert_self,hv]
  · -- the amounts agree modulo 2^64, and so do the two supplies, which fit
    have ha := congrArg toNat (not_not.1 heq)
    have hs : supply' = supply := by omega
    rw [hs]
    exact ⟨h,fun _ _ => rfl⟩

end Eiyaro
