import Eiyaro.Utxo.Algebra

/-!
# The store of the virtual UTXO set

`domain/consensus/datastructures/consensusstatestore/utxo.go`: the UTXO set of
the virtual is kept in the database behind a cache of bounded size, and a block
that is being processed stages a diff on top of it. A lookup first asks the
staged diff, then the cache, then the database. Committing deletes the removed
outpoints and then writes the added entries, in the cache and in the database.

Both lookups are described by what they read, without the cache
(`utxoByOutpoint_toOption`, `hasUTXOByOutpoint_eq`), so that a staged lookup and
a committed one can be compared outpoint by outpoint.
-/

namespace Eiyaro
open List FinMap

/-! ## The cache -/

/-- The cache of `utxolrucache`. When it is full a key that a map iteration
happens to visit first leaves it, whichever that is. -/
structure LRUCache where
  cache : UtxoCollection
  capacity : Nat

namespace LRUCache

def remove (c : LRUCache) (key : DomainOutpoint) : LRUCache :=
  { c with cache := c.cache.erase key }

/-- Stores an entry and evicts the key that `evict` picks when there are more
entries than the capacity allows. -/
def add (evict : UtxoCollection → DomainOutpoint) (c : LRUCache) (key : DomainOutpoint)
    (value : UTXOEntry) : LRUCache :=
  let cache := c.cache.insert key value
  { c with cache := if cache.keys.card > c.capacity then cache.erase (evict cache) else cache }

/-- Every cached entry is the stored one. -/
def Coherent (c : LRUCache) (db : UtxoCollection) : Prop :=
  ∀ o e, c.cache.get o = some e → db.get o = some e

variable {c : LRUCache} {db : UtxoCollection}

lemma get_add_of_get {evict : UtxoCollection → DomainOutpoint} {key o : DomainOutpoint}
    {value e : UTXOEntry} (h : (c.add evict key value).cache.get o = some e) :
    (c.cache.insert key value).get o = some e := by
  simp only [add] at h
  split at h
  · rw [get_erase] at h
    split at h
    · cases h
    · exact h
  · exact h

lemma Coherent.remove (h : c.Coherent db) (key : DomainOutpoint) :
    (c.remove key).Coherent (db.erase key) := by
  intro o e ho
  simp only [LRUCache.remove,get_erase] at ho ⊢
  split at ho
  · cases ho
  · rename_i hne
    rw [if_neg hne]
    exact h o e ho

lemma Coherent.add (h : c.Coherent db) (evict : UtxoCollection → DomainOutpoint)
    (key : DomainOutpoint) (value : UTXOEntry) :
    (c.add evict key value).Coherent (db.insert key value) := by
  intro o e ho
  have hi := get_add_of_get ho
  rw [get_insert] at hi ⊢
  split at hi
  · rename_i heq
    rw [if_pos heq,hi]
  · rename_i hne
    rw [if_neg hne]
    exact h o e hi

/-- Caching an entry that was just read. -/
lemma Coherent.add_of_get (h : c.Coherent db) (evict : UtxoCollection → DomainOutpoint)
    {key : DomainOutpoint} {value : UTXOEntry} (hdb : db.get key = some value) :
    (c.add evict key value).Coherent db := by
  have hs : db.insert key value = db := by
    ext1 o
    rw [get_insert]
    split
    · rename_i heq
      rw [heq,hdb]
    · rfl
  have ha := h.add evict key value
  rwa [hs] at ha

end LRUCache

/-! ## The store -/

/-- The committed virtual UTXO set and its cache. The cache starts out empty and
every operation below keeps it a part of the committed set. -/
structure ConsensusStateStore where
  db : UtxoCollection
  virtualUTXOSetCache : LRUCache
  coherent : virtualUTXOSetCache.Coherent db

/-- Why a lookup of an entry failed. -/
inductive LookupFailure
  /-- `"outpoint was not found"`: the staged diff removes the outpoint. -/
  | outpointWasNotFound
  /-- `"UTXO entry %s does not exist in db"`, wrapping `ErrNotFound`. -/
  | doesNotExistInDB (outpoint : DomainOutpoint)
deriving DecidableEq

namespace ConsensusStateStore
variable (evict : UtxoCollection → DomainOutpoint) (css : ConsensusStateStore)

/-- The loop body of `commitVirtualUTXODiff` for a removed outpoint. -/
def commitRemove (outpoint : DomainOutpoint) : ConsensusStateStore where
  db := css.db.erase outpoint
  virtualUTXOSetCache := css.virtualUTXOSetCache.remove outpoint
  coherent := css.coherent.remove outpoint

/-- The loop body of `commitVirtualUTXODiff` for an added entry. -/
def commitAdd (outpoint : DomainOutpoint) (entry : UTXOEntry) : ConsensusStateStore where
  db := css.db.insert outpoint entry
  virtualUTXOSetCache := css.virtualUTXOSetCache.add evict outpoint entry
  coherent := css.coherent.add evict outpoint entry

/-- Writes a staged diff: first the removals, then the additions. -/
def commitVirtualUTXODiff (diff : UTXODiff) (removals : diff.toRemove.Iteration)
    (additions : diff.toAdd.Iteration) : ConsensusStateStore :=
  additions.entries.foldl (fun store added => store.commitAdd evict added.1 added.2)
    (removals.order.foldl commitRemove css)

variable (staged : Option UTXODiff)

/-- `UTXOByOutpoint` with the diff that is staged, if there is one. An entry read
from the database is cached. -/
def utxoByOutpoint (outpoint : DomainOutpoint) :
    Except LookupFailure UTXOEntry × ConsensusStateStore :=
  if staged.any fun diff => diff.toRemove.contains outpoint then
    (.error .outpointWasNotFound, css)
  else
    match staged.bind fun diff => diff.toAdd.get outpoint with
    | some entry => (.ok entry, css)
    | none =>
      match css.virtualUTXOSetCache.cache.get outpoint with
      | some entry => (.ok entry, css)
      | none =>
        match hdb : css.db.get outpoint with
        | none => (.error (.doesNotExistInDB outpoint), css)
        | some entry =>
          (.ok entry, { css with
              virtualUTXOSetCache := css.virtualUTXOSetCache.add evict outpoint entry
              coherent := css.coherent.add_of_get evict hdb })

/-- `HasUTXOByOutpoint`, which does not ask the cache. -/
def hasUTXOByOutpoint (outpoint : DomainOutpoint) : Bool :=
  if staged.any fun diff => diff.toRemove.contains outpoint then false
  else if (staged.bind fun diff => diff.toAdd.get outpoint).isSome then true
  else css.db.contains outpoint

/-! ## What the operations do to the committed set -/

lemma db_foldl_commitRemove (outpoints : List DomainOutpoint) :
    (outpoints.foldl commitRemove css).db = css.db.eraseKeys outpoints := by
  induction outpoints generalizing css with
  | nil => rfl
  | cons _ _ ih => exact ih _

lemma db_foldl_commitAdd (entries : List (DomainOutpoint × UTXOEntry)) :
    (entries.foldl (fun store added => store.commitAdd evict added.1 added.2) css).db =
      css.db.insertEntries entries := by
  induction entries generalizing css with
  | nil => rfl
  | cons added entries ih => exact ih _

/-- The committed set after a commit: an added entry if there is one, nothing at
the other removed outpoints, and elsewhere what was there before. -/
lemma get_db_commitVirtualUTXODiff (diff : UTXODiff) (removals : diff.toRemove.Iteration)
    (additions : diff.toAdd.Iteration) (o : DomainOutpoint) :
    (css.commitVirtualUTXODiff evict diff removals additions).db.get o =
      (diff.toAdd.get o).or (if diff.toRemove.contains o then none else css.db.get o) := by
  rw [commitVirtualUTXODiff,db_foldl_commitAdd,db_foldl_commitRemove,insertEntries_entries,
    eraseKeys_order,get_insertAll,get_eraseAll,UtxoCollection.contains]
  cases diff.toRemove.get o <;> rfl

/-! ## What the lookups return -/

/-- A lookup does not depend on what is cached. -/
lemma utxoByOutpoint_toOption (o : DomainOutpoint) :
    (css.utxoByOutpoint evict staged o).1.toOption =
      if staged.any fun diff => diff.toRemove.contains o then none
      else (staged.bind fun diff => diff.toAdd.get o).or (css.db.get o) := by
  rw [utxoByOutpoint]
  split
  · rfl
  · cases ha : staged.bind fun diff => diff.toAdd.get o with
    | some entry => rfl
    | none =>
      cases hc : css.virtualUTXOSetCache.cache.get o with
      | some entry => simp [Except.toOption,css.coherent o entry hc]
      | none =>
        simp only [Option.none_or]
        split
        · rename_i hdb
          exact hdb.symm
        · rename_i entry hdb
          exact hdb.symm

lemma hasUTXOByOutpoint_eq (o : DomainOutpoint) :
    css.hasUTXOByOutpoint staged o = (css.utxoByOutpoint evict staged o).1.toOption.isSome := by
  rw [utxoByOutpoint_toOption,hasUTXOByOutpoint]
  split
  · rfl
  · cases staged.bind fun diff => diff.toAdd.get o <;> rfl

/-! ## A staged diff and a committed one -/

/-- A store without cached entries. -/
def uncached (db : UtxoCollection) (capacity : Nat) : ConsensusStateStore where
  db := db
  virtualUTXOSetCache := ⟨∅,capacity⟩
  coherent := by
    intro o e h
    cases h

section
open UTXODiff

/-- The visit of the only outpoint of a collection. -/
def iterationAt (o : DomainOutpoint) (e : UTXOEntry) : (atOutpoint o (some e)).Iteration where
  order := [o]
  nodup := nodup_singleton o
  mem_order := by
    intro k
    show k ∈ [o] ↔ k ∈ insert o ∅
    simp

end
end ConsensusStateStore
end Eiyaro
