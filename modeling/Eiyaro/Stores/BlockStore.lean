import Eiyaro.Model.Failure
import Eiyaro.Model.Outpoint
import Eiyaro.Util.FinMap
import Eiyaro.Util.Run

/-!
# The block store

The store of `domain/consensus/datastructures/blockstore` and its staging shard, which keeps the
additions and the deletions of a staging area in two collections. The LRU cache is the map of what
it holds; the blocks that it drops to make room are a parameter of every call that adds to it.
-/

namespace Eiyaro
open FinMap Finset
variable {B : Type}

structure BlockStore (B : Type) where
  cache : FinMap DomainHash B
  countCached : UInt64
  /-- The blocks in the bucket of the store. -/
  database : FinMap DomainHash B

structure BlockStagingShard (B : Type) where
  toAdd : FinMap DomainHash B
  toDelete : Finset DomainHash

namespace BlockStore
variable (store : BlockStore B) (shard : BlockStagingShard B) (hash : DomainHash)
  (evicted : List DomainHash)

def stage (block : B) : BlockStagingShard B :=
  { shard with toAdd := shard.toAdd.insert hash block }

def cacheAdd (block : B) : BlockStore B :=
  { store with cache := (store.cache.insert hash block).eraseKeys evicted }

def block : Except Failure B × BlockStore B :=
  match shard.toAdd.get hash, store.cache.get hash, store.database.get hash with
  | some block, _, _ => (.ok block, store)
  | none, some blockCached, _ => (.ok blockCached, store)
  | none, none, some blockDeserialized =>
    (.ok blockDeserialized, store.cacheAdd hash evicted blockDeserialized)
  | none, none, none => (.error (.error "Block does not exist in db"), store)

def hasBlock : Bool × BlockStore B :=
  match shard.toAdd.get hash, store.cache.get hash, store.database.get hash with
  | some _, _, _ => (true, store)
  | none, some _, _ => (true, store)
  | none, none, some blockDeserialized =>
    (true, store.cacheAdd hash evicted blockDeserialized)
  | none, none, none => (false, store)

def delete : BlockStore B × BlockStagingShard B :=
  let store := { store with cache := store.cache.erase hash }
  if hash ∈ shard.toAdd.keys then
    (store, { shard with toAdd := shard.toAdd.erase hash })
  else
    (store, { shard with toDelete := Insert.insert hash shard.toDelete })

def count : UInt64 :=
  store.countCached + .ofNat shard.toAdd.keys.card - .ofNat shard.toDelete.card

/-- The additions are written first, so that a hash of both collections ends up deleted. -/
def commit : BlockStore B where
  cache := ((store.cache.insertAll shard.toAdd).eraseKeys evicted).filter fun hash _ =>
    hash ∉ shard.toDelete
  countCached := store.count shard
  database := (store.database.insertAll shard.toAdd).filter fun hash _ => hash ∉ shard.toDelete

/-- The cache holds blocks of the database, and the count is that of the database. -/
structure Consistent : Prop where
  cache_le : store.cache ≤ store.database
  countCached_eq : store.countCached = .ofNat store.database.keys.card

end BlockStore

inductive BlockStoreCall (B : Type)
  | stage (hash : DomainHash) (block : B)
  | delete (hash : DomainHash)
  | block (hash : DomainHash) (evicted : List DomainHash)
  | hasBlock (hash : DomainHash) (evicted : List DomainHash)

/-- A store, the shard of a staging area and the plain map that the same calls are made on. -/
structure StagedBlocks (B : Type) where
  store : BlockStore B
  shard : BlockStagingShard B
  plain : FinMap DomainHash B

namespace StagedBlocks
variable {s s' : StagedBlocks B} {call : BlockStoreCall B} {hash : DomainHash}
  (evicted : List DomainHash)

def perform (s : StagedBlocks B) : BlockStoreCall B → Option (StagedBlocks B)
  | .stage hash block =>
    some ⟨s.store,BlockStore.stage s.shard hash block,s.plain.insert hash block⟩
  | .delete hash =>
    let (store, shard) := s.store.delete s.shard hash
    some ⟨store,shard,s.plain.erase hash⟩
  | .block hash evicted => some { s with store := (s.store.block s.shard hash evicted).2 }
  | .hasBlock hash evicted => some { s with store := (s.store.hasBlock s.shard hash evicted).2 }

/-- The staging area of a store before its first call. -/
def new (store : BlockStore B) : StagedBlocks B := ⟨store,⟨∅,∅⟩,store.database⟩

def oneBlock : BlockStore Nat := ⟨∅,1,(∅ : FinMap DomainHash Nat).insert 1 10⟩

/-- A block that was deleted is still read from the database, and one that is staged again is
counted twice. -/
theorem delete_is_not_read :
    (∃ s, run perform (new oneBlock) [.delete 1] = some s ∧ s.plain.get 1 = none ∧
      (s.store.block s.shard 1 []).1 = .ok 10 ∧ (s.store.hasBlock s.shard 1 []).1 = true) ∧
      ∃ s, run perform (new oneBlock) [.stage 1 11] = some s ∧
        s.store.count s.shard = 2 ∧ s.plain.keys.card = 1 :=
  ⟨⟨_,rfl,rfl,rfl,rfl⟩,_,rfl,rfl,rfl⟩

/-- No block of the database is staged again, and only a block of the database or a staged one
is deleted. -/
def Orderly (s : StagedBlocks B) : BlockStoreCall B → Prop
  | .stage hash _ => hash ∉ s.store.database.keys
  | .delete hash => hash ∈ s.store.database.keys ∨ hash ∈ s.shard.toAdd.keys
  | _ => True

instance (s : StagedBlocks B) : (call : BlockStoreCall B) → Decidable (s.Orderly call)
  | .stage _ _ => inferInstanceAs (Decidable (_ ∉ _))
  | .delete _ => inferInstanceAs (Decidable (_ ∨ _))
  | .block _ _ | .hasBlock _ _ => inferInstanceAs (Decidable True)

/-- What orderly calls keep. -/
structure Inv (s : StagedBlocks B) : Prop where
  consistent : s.store.Consistent
  disjoint : Disjoint s.store.database.keys s.shard.toAdd.keys
  subset : s.shard.toDelete ⊆ s.store.database.keys
  plain_get : ∀ hash, s.plain.get hash =
    if hash ∈ s.shard.toDelete then none
    else (s.shard.toAdd.get hash).or (s.store.database.get hash)

section
variable (h : s.Inv)
include h

/-- A read may only change the cache, to hold one more block of the database. -/
lemma Inv.block : Inv { s with store := (s.store.block s.shard hash evicted).2 } := by
  have hc : (s.store.block s.shard hash evicted).2.cache ≤ s.store.database ∧
      (s.store.block s.shard hash evicted).2 =
        { s.store with cache := (s.store.block s.shard hash evicted).2.cache } := by
    rw [BlockStore.block]
    split
    · exact ⟨h.consistent.cache_le,rfl⟩
    · exact ⟨h.consistent.cache_le,rfl⟩
    · next hg => exact ⟨eraseKeys_le (insert_le h.consistent.cache_le hg) _,rfl⟩
    · exact ⟨h.consistent.cache_le,rfl⟩
  rw [hc.2]
  exact ⟨⟨hc.1,h.consistent.countCached_eq⟩,h.disjoint,h.subset,h.plain_get⟩

lemma Inv.stage (hn : hash ∉ s.store.database.keys) (block : B) :
    Inv ⟨s.store,BlockStore.stage s.shard hash block,s.plain.insert hash block⟩ := by
  refine ⟨h.consistent,disjoint_insert_right.2 ⟨hn,h.disjoint⟩,h.subset,fun x => ?_⟩
  have hd : hash ∉ s.shard.toDelete := fun hm => hn (h.subset hm)
  by_cases hx : x = hash
  · simp [BlockStore.stage,hx,hd]
  · simp [BlockStore.stage,get_insert,hx,h.plain_get]

lemma Inv.delete (hm : hash ∈ s.store.database.keys ∨ hash ∈ s.shard.toAdd.keys) :
    Inv ⟨(s.store.delete s.shard hash).1,(s.store.delete s.shard hash).2,s.plain.erase hash⟩ := by
  have hc : BlockStore.Consistent
      { s.store with cache := s.store.cache.eraseKeys [hash] } :=
    ⟨eraseKeys_le h.consistent.cache_le _,h.consistent.countCached_eq⟩
  rw [BlockStore.delete]
  by_cases ha : hash ∈ s.shard.toAdd.keys
  · have hn : s.store.database.get hash = none := by
      simpa [mem_keys] using disjoint_right.1 h.disjoint ha
    rw [if_pos ha]
    refine ⟨hc,h.disjoint.mono_right (erase_subset _ _),h.subset,fun x => ?_⟩
    by_cases hx : x = hash
    · simp [hx,hn]
    · simp [get_erase,hx,h.plain_get]
  · rw [if_neg ha]
    refine ⟨hc,h.disjoint,insert_subset (hm.resolve_right ha) h.subset,fun x => ?_⟩
    by_cases hx : x = hash
    · simp [hx]
    · simp [get_erase,hx,h.plain_get]

lemma Inv.perform (ho : s.Orderly call) (hcl : s.perform call = some s') : s'.Inv := by
  cases call with
  | stage hash block => exact Option.some.inj hcl ▸ h.stage ho block
  | delete hash => exact Option.some.inj hcl ▸ h.delete ho
  | block hash evicted => exact Option.some.inj hcl ▸ h.block evicted
  | hasBlock hash evicted =>
    have hr : (s.store.hasBlock s.shard hash evicted).2 =
        (s.store.block s.shard hash evicted).2 := by
      rw [BlockStore.hasBlock,BlockStore.block]
      split <;> rfl
    rw [StagedBlocks.perform,hr] at hcl
    exact Option.some.inj hcl ▸ h.block evicted

/-- A read finds what the plain map has, unless the block was deleted from the database. -/
lemma Inv.reads (hn : hash ∉ s.shard.toDelete) :
    (s.store.block s.shard hash evicted).1.toOption = s.plain.get hash ∧
      (s.store.hasBlock s.shard hash evicted).1 = (s.plain.get hash).isSome := by
  have hr := get_or_of_le h.consistent.cache_le hash
  rw [h.plain_get,← hr,BlockStore.block,BlockStore.hasBlock]
  split <;> simp [*,Except.toOption]

lemma Inv.database_commit : (s.store.commit s.shard evicted).database = s.plain := by
  ext1 hash
  rw [h.plain_get,BlockStore.commit,get_filter,get_insertAll]
  by_cases hm : hash ∈ s.shard.toDelete <;>
    cases (s.shard.toAdd.get hash).or _ <;> simp [hm]

lemma Inv.count_eq : s.store.count s.shard = .ofNat s.plain.keys.card := by
  have hk : s.plain.keys = (s.store.database.keys ∪ s.shard.toAdd.keys) \ s.shard.toDelete := by
    ext hash
    rw [mem_keys,h.plain_get,mem_sdiff,mem_union,mem_keys,mem_keys]
    by_cases hm : hash ∈ s.shard.toDelete <;> simp [hm,or_comm]
  have hs := h.subset.trans (subset_union_left : _ ⊆ _ ∪ s.shard.toAdd.keys)
  rw [hk,card_sdiff_of_subset hs,UInt64.ofNat_sub (card_le_card hs),
    card_union_of_disjoint h.disjoint,UInt64.ofNat_add,← h.consistent.countCached_eq]
  rfl

lemma Inv.cache_commit :
    (s.store.commit s.shard evicted).cache ≤ (s.store.commit s.shard evicted).database := by
  have hle : s.store.cache.insertAll s.shard.toAdd ≤ s.store.database.insertAll s.shard.toAdd := by
    intro hash block hg
    rw [get_insertAll,Option.or_eq_some_iff] at hg ⊢
    exact hg.imp_right fun hc => ⟨hc.1,h.consistent.cache_le _ _ hc.2⟩
  intro hash block hg
  rw [BlockStore.commit,get_filter,Option.filter_eq_some_iff] at hg ⊢
  exact ⟨eraseKeys_le hle evicted _ _ hg.1,hg.2⟩

end

/-- When no block of the database is staged again and only stored or staged blocks are deleted,
the count and the commit are those of a plain map, and so are the reads of every block that was
not deleted from the database. -/
theorem calls_agree_with_plain_map {store : BlockStore B} (hstore : store.Consistent)
    {calls : List (BlockStoreCall B)}
    (horderly : run.Along StagedBlocks.perform Orderly (new store) calls)
    (hrun : run StagedBlocks.perform (new store) calls = some s) :
    (∀ hash ∉ s.shard.toDelete, (s.store.block s.shard hash evicted).1.toOption = s.plain.get hash ∧
        (s.store.hasBlock s.shard hash evicted).1 = (s.plain.get hash).isSome) ∧
      s.store.count s.shard = .ofNat s.plain.keys.card ∧
      (s.store.commit s.shard evicted).database = s.plain ∧
      (s.store.commit s.shard evicted).Consistent := by
  have h : s.Inv := run.invariant_along (fun _ _ _ => Inv.perform)
    ⟨hstore,disjoint_empty_right _,empty_subset _,fun _ => by simp [new]⟩ horderly hrun
  refine ⟨fun hash => h.reads evicted,h.count_eq,h.database_commit evicted,
    h.cache_commit evicted,?_⟩
  rw [h.database_commit]
  exact h.count_eq

/-- Blocks are staged, read and deleted, one of them before the commit. -/
def mixedCalls : List (BlockStoreCall Nat) :=
  [.stage 2 20,.hasBlock 2 [],.delete 1,.stage 3 30,.delete 3,.block 2 []]

theorem calls_agree_with_plain_map_mixed :
    ∃ s, run perform (new oneBlock) mixedCalls = some s ∧
      (s.store.block s.shard 2 []).1.toOption = some 20 ∧
      s.store.count s.shard = 1 ∧ (s.store.commit s.shard []).database = s.plain := by
  have hs : oneBlock.Consistent := ⟨fun _ _ h => (nomatch h),rfl⟩
  have ho : run.Along perform Orderly (new oneBlock) mixedCalls := by decide
  have h := calls_agree_with_plain_map [] hs ho rfl
  exact ⟨_,rfl,(h.1 2 (by decide)).1,h.2.1,h.2.2.1⟩

end StagedBlocks
end Eiyaro
