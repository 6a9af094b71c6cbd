import Eiyaro.UtxoIndex.Keys
import Eiyaro.Utxo.Diff

/-!
# The store of the UTXO index

`domain/utxoindex/store.go` and `utxoindex.go`: an index from scripts to the
unspent outputs that pay to them. An update stages removals and additions for
each script, where an addition cancels a removal of the same outpoint and the
other way round, and commits them in one transaction together with the number of
entries of each script and the circulating supply. A reset reads the virtual UTXO
set in pages and writes without a transaction.

The values of the database are kept in their decoded form. The code visits Go
maps in an unspecified order, which the definitions take as an argument.
-/

namespace Eiyaro

/-- A decoded value of the database. -/
inductive IndexValue
  | utxoEntry (entry : UTXOEntry)
  | number (n : UInt64)
  | hashes (hashes : List DomainHash)
  | flag
deriving DecidableEq

abbrev IndexDatabase := FinMap Bytes IndexValue

inductive IndexFailure
  /-- `"cannot get %s while staging isn't empty"`. -/
  | stagingIsNotEmpty (what : String)
  /-- `"cannot add outpoint %s because it's being added already"`. -/
  | beingAddedAlready (outpoint : DomainOutpoint)
  /-- `"cannot remove outpoint %s because it's being removed already"`. -/
  | beingRemovedAlready (outpoint : DomainOutpoint)
  /-- `ErrNotFound` for a key. -/
  | notFound (key : Bytes)
  /-- `"utxo count %d exceeds int64"`. -/
  | exceedsInt64 (count : UInt64)
  /-- `"utxo count for scriptPublicKey %s became negative"`. -/
  | becameNegative (scriptPublicKey : Bytes)
  /-- A key or a value that cannot be decoded. -/
  | malformed
  /-- The model ran out of pages to read. -/
  | outOfPages
deriving DecidableEq

/-- Decoding of the outpoints that keys end in. -/
structure OutpointReader where
  deserializeOutpoint : Bytes → Except IndexFailure DomainOutpoint
  deserialize_serialize : ∀ o, deserializeOutpoint (serializeOutpoint o) = .ok o

def deserializeUTXOEntry : IndexValue → Except IndexFailure UTXOEntry
  | .utxoEntry entry => .ok entry
  | _ => .error .malformed

def deserializeUTXOAmount (value : IndexValue) : Except IndexFailure UInt64 :=
  (deserializeUTXOEntry value).map UTXOEntry.amount

def deserializeUint64 : IndexValue → Except IndexFailure UInt64
  | .number n => .ok n
  | _ => .error .malformed

structure UTXOPair where
  outpoint : DomainOutpoint
  entry : UTXOEntry
deriving DecidableEq

/-- The staged pairs of each script, which is spelled by its bytes. -/
abbrev StagedPairs := FinMap Bytes UtxoCollection

/-- The entry that is staged for a script at an outpoint. -/
def StagedPairs.entryAt (staged : StagedPairs) (script : Bytes) (o : DomainOutpoint) :
    Option UTXOEntry :=
  (staged.get script).bind fun pairs => pairs.get o

structure UtxoIndexStore where
  database : IndexDatabase
  toAdd : StagedPairs
  toRemove : StagedPairs
  virtualParents : List DomainHash

/-- The orders in which the maps of an update are visited. -/
structure MapOrders where
  scripts : (m : StagedPairs) → m.Iteration
  outpoints : (m : UtxoCollection) → m.Iteration
  deltas : (m : FinMap Bytes Int) → m.Iteration

abbrev DatabaseM := EStateM IndexFailure IndexDatabase

abbrev IndexM := EStateM IndexFailure UtxoIndexStore

/-! ## Staging -/

/-- What `add` and `remove` have in common: a pair that is staged on the opposite
side is taken back from there, any other pair is staged on its own side once. -/
def stagePair (failure : DomainOutpoint → IndexFailure) (opposite own : StagedPairs)
    (scriptPublicKey : ScriptPublicKey) (outpoint : DomainOutpoint) (utxoEntry : UTXOEntry) :
    Except IndexFailure (StagedPairs × StagedPairs) :=
  let key := scriptPublicKeyBytes scriptPublicKey
  let oppositePairs := (opposite.get key).getD ∅
  if oppositePairs.contains outpoint then
    .ok (opposite.insert key (oppositePairs.remove outpoint), own)
  else
    let pairs := (own.get key).getD ∅
    if pairs.contains outpoint then .error (failure outpoint)
    else .ok (opposite, own.insert key (pairs.add outpoint utxoEntry))

namespace UtxoIndexStore

def add (scriptPublicKey : ScriptPublicKey) (outpoint : DomainOutpoint) (utxoEntry : UTXOEntry) :
    IndexM Unit := do
  let uis ← get
  let (toRemove, toAdd) ← MonadExcept.ofExcept
    (stagePair .beingAddedAlready uis.toRemove uis.toAdd scriptPublicKey outpoint utxoEntry)
  set { uis with toRemove := toRemove, toAdd := toAdd }

def remove (scriptPublicKey : ScriptPublicKey) (outpoint : DomainOutpoint)
    (utxoEntry : UTXOEntry) : IndexM Unit := do
  let uis ← get
  let (toAdd, toRemove) ← MonadExcept.ofExcept
    (stagePair .beingRemovedAlready uis.toAdd uis.toRemove scriptPublicKey outpoint utxoEntry)
  set { uis with toRemove := toRemove, toAdd := toAdd }

def discard (uis : UtxoIndexStore) : UtxoIndexStore :=
  { uis with toAdd := ∅, toRemove := ∅, virtualParents := [] }

def isAnythingStaged (uis : UtxoIndexStore) : Bool :=
  decide (0 < uis.toAdd.keys.card) || decide (0 < uis.toRemove.keys.card)

end UtxoIndexStore

variable (orders : MapOrders)

/-- The pairs of a staged map, in the order in which two nested loops visit them. -/
def StagedPairs.flatten (staged : StagedPairs) : List (Bytes × DomainOutpoint × UTXOEntry) :=
  (orders.scripts staged).entries.flatMap fun (script, pairs) =>
    (orders.outpoints pairs).entries.map fun (outpoint, entry) => (script, outpoint, entry)

/-- The key of an entry in the bucket of its script. -/
def entryKey (script : Bytes) (outpoint : DomainOutpoint) : Bytes :=
  (convertOutpointToKey (bucketForScriptPublicKey (newScriptPublicKeyFromString script))
    outpoint).bytes

/-! ## Counts and supply -/

def updateCirculatingSompiSupply (toAddSompiSupply toRemoveSompiSupply : UInt64) :
    DatabaseM Unit := do
  if toAddSompiSupply ≠ toRemoveSompiSupply then
    let database ← get
    match database.get circulatingSupplyKey.bytes with
    | none => throw (.notFound circulatingSupplyKey.bytes)
    | some circulatingSupplyBytes =>
      let circulatingSupply ← MonadExcept.ofExcept (deserializeUint64 circulatingSupplyBytes)
      set (database.insert circulatingSupplyKey.bytes
        (.number (circulatingSupply+toAddSompiSupply - toRemoveSompiSupply)))

/-- The count at a key, zero if there is none. -/
def currentCountAt (database : IndexDatabase) (countKey : Bytes) : Except IndexFailure UInt64 :=
  match database.get countKey with
  | none => .ok 0
  | some countBytes => deserializeUint64 countBytes

/-- The body of the loop of `applyUTXOCountDeltasToAccessor`. -/
def applyUTXOCountDelta (script : Bytes) (delta : Int) : DatabaseM Unit := do
  if delta ≠ 0 then
    let database ← get
    let countKey := (utxoCountKeyForScriptPublicKey (newScriptPublicKeyFromString script)).bytes
    let currentCount ← MonadExcept.ofExcept (currentCountAt database countKey)
    if currentCount.toNat > 2^63 - 1 then
      throw (.exceedsInt64 currentCount)
    else
      let newCount := (currentCount.toNat : Int)+delta
      if newCount < 0 then
        throw (.becameNegative script)
      else if newCount = 0 then
        set (database.erase countKey)
      else
        set (database.insert countKey (.number (UInt64.ofNat newCount.toNat)))

def applyUTXOCountDeltas (countDeltas : FinMap Bytes Int) : DatabaseM Unit :=
  (orders.deltas countDeltas).entries.forM fun (script, delta) => applyUTXOCountDelta script delta

/-- The number of pairs staged for a script. -/
def StagedPairs.size (staged : StagedPairs) (script : Bytes) : Nat :=
  ((staged.get script).map fun pairs => pairs.keys.card).getD 0

/-- The change of the number of entries of every script that something is staged
for. -/
def countDeltas (toAdd toRemove : StagedPairs) : FinMap Bytes Int where
  keys := toRemove.keys ∪ toAdd.keys
  get := fun script =>
    if (toRemove.get script).isSome ∨ (toAdd.get script).isSome then
      some ((toAdd.size script : Int) - (toRemove.size script : Int))
    else none
  mem_keys := by
    intro script
    rw [Finset.mem_union,toRemove.mem_keys,toAdd.mem_keys]
    split <;> simp_all

/-- The sum of the amounts, in 64 bits. -/
def sompiSupply (pairs : List (Bytes × DomainOutpoint × UTXOEntry)) : UInt64 :=
  pairs.foldl (fun supply pair => supply+pair.2.2.amount) 0

/-! ## Committing -/

/-- The database transaction of `commit`. -/
def commitTransaction (uis : UtxoIndexStore) : DatabaseM Unit := do
  let removed := uis.toRemove.flatten orders
  let added := uis.toAdd.flatten orders
  modify fun database =>
    removed.foldl (fun database pair => database.erase (entryKey pair.1 pair.2.1)) database
  modify fun database => added.foldl
    (fun database pair => database.insert (entryKey pair.1 pair.2.1) (.utxoEntry pair.2.2)) database
  modify fun database => database.insert virtualParentsKey.bytes (.hashes uis.virtualParents)
  updateCirculatingSompiSupply (sompiSupply added) (sompiSupply removed)
  applyUTXOCountDeltas orders (countDeltas uis.toAdd uis.toRemove)
  modify fun database => database.insert utxoCountsInitializedKey.bytes .flag

namespace UtxoIndexStore

/-- A failed transaction is rolled back and leaves what is staged. -/
def commit (orders : MapOrders) : IndexM Unit := do
  let uis ← get
  match commitTransaction orders uis uis.database with
  | .ok _ database => set { uis with database := database }.discard
  | .error failure _ => throw failure

/-- `Update`: the changes that were staged are returned once they are committed. -/
def update (orders : MapOrders) (diff : UTXODiff) (removals : diff.toRemove.Iteration)
    (additions : diff.toAdd.Iteration) (virtualParents : List DomainHash) :
    IndexM (List UTXOPair × List UTXOPair) := do
  removals.entries.forM fun (outpoint, entry) => remove entry.scriptPublicKey outpoint entry
  additions.entries.forM fun (outpoint, entry) => add entry.scriptPublicKey outpoint entry
  modify fun uis => { uis with virtualParents := virtualParents }
  let uis ← get
  let pairsOf := fun (staged : StagedPairs) =>
    (staged.flatten orders).map fun pair => (⟨pair.2.1,pair.2.2⟩ : UTXOPair)
  commit orders
  return (pairsOf uis.toAdd, pairsOf uis.toRemove)

end UtxoIndexStore

/-! ## Resetting -/

/-- Deletes every key that a cursor over the bucket visits. -/
def deleteBucket (bucket : Bucket) (database : IndexDatabase) : IndexDatabase :=
  database.eraseKeys ((cursor database bucket).map fun entry => entry.1.bytes)

def deleteAll (database : IndexDatabase) : IndexDatabase :=
  deleteBucket utxoIndexBucket (deleteBucket utxoIndexCountsBucket
    (database.eraseKeys [virtualParentsKey.bytes,circulatingSupplyKey.bytes,
      utxoCountsInitializedKey.bytes]))

def sumAmounts : List (Key × IndexValue) → UInt64 → Except IndexFailure UInt64
  | [], sum => .ok sum
  | (_, value) :: rest, sum =>
    match deserializeUTXOAmount value with
    | .error failure => .error failure
    | .ok amount => sumAmounts rest (sum+amount)

def initializeCirculatingSompiSupply : DatabaseM Unit := do
  let database ← get
  let supply ← MonadExcept.ofExcept (sumAmounts (cursor database utxoIndexBucket) 0)
  set (database.insert circulatingSupplyKey.bytes (.number supply))

/-- The pairs of a page with the scripts that they pay to. -/
def withScripts (utxoPairs : List (DomainOutpoint × UTXOEntry)) :
    List (Bytes × DomainOutpoint × UTXOEntry) :=
  utxoPairs.map fun pair => (scriptPublicKeyBytes pair.2.scriptPublicKey, pair.1, pair.2)

/-- The number of pairs of every script of a page. -/
def pageDeltas (pairs : List (Bytes × DomainOutpoint × UTXOEntry)) : FinMap Bytes Int where
  keys := (pairs.map Prod.fst).toFinset
  get := fun script =>
    if script ∈ pairs.map Prod.fst then some ((pairs.map Prod.fst).count script : Int) else none
  mem_keys := by
    intro script
    rw [List.mem_toFinset]
    split <;> simp_all

def addAndCommitOutpointsWithoutTransaction (orders : MapOrders)
    (utxoPairs : List (DomainOutpoint × UTXOEntry)) : DatabaseM Unit := do
  let pairs := withScripts utxoPairs
  modify fun database => pairs.foldl
    (fun database pair => database.insert (entryKey pair.1 pair.2.1) (.utxoEntry pair.2.2)) database
  applyUTXOCountDeltas orders (pageDeltas pairs)
  modify fun database => database.insert utxoCountsInitializedKey.bytes .flag
  updateCirculatingSompiSupply (sompiSupply pairs) 0

/-- `VirtualUTXOs`: at most `limit` entries of the virtual UTXO set, from the one
after `fromOutpoint` on, in the order of the cursor over the set. -/
def virtualUTXOs (entries : List (DomainOutpoint × UTXOEntry))
    (fromOutpoint : Option DomainOutpoint) (limit : Nat) : List (DomainOutpoint × UTXOEntry) :=
  let rest := match fromOutpoint with
    | none => entries
    | some outpoint =>
      (entries.dropWhile fun entry : DomainOutpoint × UTXOEntry => entry.1 ≠ outpoint).drop 1
  rest.take limit

def resetStep : Nat := 1000

/-- The loop of `Reset` over the pages. -/
def resetPages (orders : MapOrders) (entries : List (DomainOutpoint × UTXOEntry)) :
    Nat → Option DomainOutpoint → DatabaseM Unit
  | 0, _ => throw .outOfPages
  | fuel+1, fromOutpoint => do
    let page := virtualUTXOs entries fromOutpoint resetStep
    addAndCommitOutpointsWithoutTransaction orders page
    if page.length < resetStep then pure ()
    else resetPages orders entries fuel (page.getLast?.map Prod.fst)

/-- `Reset`, from the virtual UTXO set and the parents of the virtual. -/
def reset (orders : MapOrders) {virtualUTXOSet : UtxoCollection}
    (stored : virtualUTXOSet.Iteration) (virtualParents : List DomainHash) : DatabaseM Unit := do
  modify deleteAll
  initializeCirculatingSompiSupply
  resetPages orders stored.entries (stored.entries.length+1) none
  modify fun database => database.insert virtualParentsKey.bytes (.hashes virtualParents)
  modify fun database => database.insert utxoCountsInitializedKey.bytes .flag

/-! ## Reading -/

namespace UtxoIndexStore

/-- The second pass of `UTXOs` over the cursor. -/
def fillPairs (reader : OutpointReader) (limit : UInt32) :
    List (Key × IndexValue) → List UTXOPair → Except IndexFailure (List UTXOPair)
  | [], slice => .ok slice
  | (key, serializedUTXOEntry) :: rest, slice => do
    let outpoint ← reader.deserializeOutpoint key.suffix
    let utxoEntry ← deserializeUTXOEntry serializedUTXOEntry
    let slice := slice ++ [⟨outpoint,utxoEntry⟩]
    if limit > 0 ∧ slice.length ≥ limit.toNat then .ok slice
    else fillPairs reader limit rest slice

def utxos (reader : OutpointReader) (uis : UtxoIndexStore) (scriptPublicKey : ScriptPublicKey)
    (limit : UInt32) : Except IndexFailure (List UTXOPair) :=
  if uis.isAnythingStaged then .error (.stagingIsNotEmpty "UTXOs")
  else fillPairs reader limit (cursor uis.database (bucketForScriptPublicKey scriptPublicKey)) []

variable (uis : UtxoIndexStore)

def getBalance (scriptPublicKey : ScriptPublicKey) : Except IndexFailure UInt64 :=
  if uis.isAnythingStaged then .error (.stagingIsNotEmpty "balance")
  else sumAmounts (cursor uis.database (bucketForScriptPublicKey scriptPublicKey)) 0

def getCirculatingSompiSupply : Except IndexFailure UInt64 :=
  if uis.isAnythingStaged then .error (.stagingIsNotEmpty "circulatingSupply")
  else match uis.database.get circulatingSupplyKey.bytes with
    | none => .ok 0
    | some circulatingSupply => deserializeUint64 circulatingSupply

end UtxoIndexStore

/-! ## Entries of different scripts -/

/-- A change to the entries of one script. -/
inductive EntryWrite
  | put (outpoint : DomainOutpoint) (entry : UTXOEntry)
  | delete (outpoint : DomainOutpoint)

/-- Adds and removes entries of a script. -/
def writeEntries (scriptPublicKey : ScriptPublicKey) (writes : List EntryWrite)
    (database : IndexDatabase) : IndexDatabase :=
  writes.foldl (fun database write =>
    match write with
    | .put outpoint entry => database.insert
        (convertOutpointToKey (bucketForScriptPublicKey scriptPublicKey) outpoint).bytes
        (.utxoEntry entry)
    | .delete outpoint => database.erase
        (convertOutpointToKey (bucketForScriptPublicKey scriptPublicKey) outpoint).bytes) database

/-- Only keys in the bucket of the script are written. -/
lemma get_writeEntries {t : ScriptPublicKey} {key : Bytes}
    (hk : ∀ o, key ≠ (convertOutpointToKey (bucketForScriptPublicKey t) o).bytes)
    (writes : List EntryWrite) (database : IndexDatabase) :
    (writeEntries t writes database).get key = database.get key := by
  induction writes generalizing database with
  | nil => rfl
  | cons write writes ih =>
    cases write with
    | put o _ => exact (ih _).trans (FinMap.get_insert_of_ne database _ (hk o))
    | delete o => exact (ih _).trans (FinMap.get_erase_of_ne database (hk o))

/-- No key of an entry of `t` extends the bucket of `s`: the bucket of `t` does not, and the bucket
of `s` is not that of `t` followed by the beginning of a serialized outpoint. -/
def Apart (s t : ScriptPublicKey) : Prop :=
  ∀ outpoint, ¬(bucketForScriptPublicKey s).path <+:
    (bucketForScriptPublicKey t).path ++ serializeOutpoint outpoint

lemma Separate.apart {s t : ScriptPublicKey} (h : Separate s t) : Apart s t :=
  fun outpoint => h.not_extends (serializeOutpoint outpoint)

lemma cursor_writeEntries {s t : ScriptPublicKey} (h : Apart s t) (writes : List EntryWrite)
    (database : IndexDatabase) :
    cursor (writeEntries t writes database) (bucketForScriptPublicKey s) =
      cursor database (bucketForScriptPublicKey s) := by
  apply cursor_congr
  intro _ hp
  apply get_writeEntries
  rintro outpoint rfl
  exact h outpoint hp

/-- A store with an empty database. -/
def emptyIndexStore : UtxoIndexStore := ⟨∅,∅,∅,[]⟩

/-- An entry whose key extends the bucket of `s` is counted for `s`. -/
lemma getBalance_of_extends {s t : ScriptPublicKey} {outpoint : DomainOutpoint}
    (h : (bucketForScriptPublicKey s).path <+:
      (bucketForScriptPublicKey t).path ++ serializeOutpoint outpoint) :
    UtxoIndexStore.getBalance { emptyIndexStore with
      database := writeEntries t [.put outpoint ⟨1,t,false,0⟩] ∅ } s = .ok 1 := by
  obtain ⟨rest,hr⟩ := h
  have hk : (convertOutpointToKey (bucketForScriptPublicKey t) outpoint).bytes =
      ((bucketForScriptPublicKey s).key rest).bytes := hr.symm
  have hc : cursor (writeEntries t [.put outpoint ⟨1,t,false,0⟩] ∅) (bucketForScriptPublicKey s) =
      [((bucketForScriptPublicKey s).key rest, .utxoEntry ⟨1,t,false,0⟩)] := by
    simp only [writeEntries,List.foldl_cons,List.foldl_nil,hk]
    exact cursor_insert_empty _ _ _
  rw [UtxoIndexStore.getBalance,hc]
  rfl

/-- The entries of a script never show in the answers for another one exactly if no key of the
first extends the bucket of the second. -/
theorem utxos_and_balance_of_apart (reader : OutpointReader) (s t : ScriptPublicKey) :
    (∀ (uis : UtxoIndexStore) (writes : List EntryWrite) (limit : UInt32),
      let changed := { uis with database := writeEntries t writes uis.database }
      changed.utxos reader s limit = uis.utxos reader s limit ∧
        changed.getBalance s = uis.getBalance s) ↔ Apart s t := by
  constructor
  · intro h outpoint hp
    -- one entry in an empty index is enough to see it
    have hb := (h emptyIndexStore [.put outpoint ⟨1,t,false,0⟩] 0).2
    have he : emptyIndexStore.getBalance s = .ok 0 := by
      have hc : cursor emptyIndexStore.database (bucketForScriptPublicKey s) = [] := cursor_empty _
      rw [UtxoIndexStore.getBalance,hc]
      rfl
    rw [he] at hb
    cases (getBalance_of_extends hp).symm.trans hb
  · intro h uis writes limit
    simp only [UtxoIndexStore.utxos,UtxoIndexStore.getBalance,
      cursor_writeEntries h writes uis.database]
    exact ⟨rfl,rfl⟩

/-- A reader that decodes exactly the outpoints that were serialized. -/
noncomputable def exactReader : OutpointReader where
  deserializeOutpoint := fun bytes =>
    open Classical in
    if h : ∃ o, serializeOutpoint o = bytes then .ok h.choose else .error .malformed
  deserialize_serialize := by
    intro o
    have h : ∃ o', serializeOutpoint o' = serializeOutpoint o := ⟨o,rfl⟩
    rw [dif_pos h]
    exact congrArg Except.ok (serializeOutpoint_injective h.choose_spec)

theorem utxos_and_balance_of_apart_pair :
    let s : ScriptPublicKey := ⟨[0x51],0⟩
    let t : ScriptPublicKey := ⟨[0x52],0⟩
    let changed := { emptyIndexStore with
      database := writeEntries t [.put ⟨0,0⟩ ⟨1,t,false,0⟩] emptyIndexStore.database }
    Apart s t ∧
      changed.utxos exactReader s 0 = emptyIndexStore.utxos exactReader s 0 ∧
      changed.getBalance s = emptyIndexStore.getBalance s :=
  have h : Separate ⟨[0x51],0⟩ ⟨[0x52],0⟩ :=
    separate_of_length_eq (by decide) rfl (by decide) (by decide)
  ⟨h.apart,(utxos_and_balance_of_apart exactReader _ _).2 h.apart emptyIndexStore _ 0⟩

/-- The separator at the end of a script is taken for the one that closes a
bucket, so a script and the script with a separator behind it share a bucket. -/
theorem utxos_and_balance_of_shared_bucket :
    let s : ScriptPublicKey := ⟨[0x51],0⟩
    let t : ScriptPublicKey := ⟨[0x51,0x2f],0⟩
    let changed := { emptyIndexStore with
      database := writeEntries t [.put ⟨0,0⟩ ⟨1,t,false,0⟩] emptyIndexStore.database }
    s ≠ t ∧ emptyIndexStore.utxos exactReader s 0 = .ok [] ∧
      changed.utxos exactReader s 0 = .ok [⟨⟨0,0⟩,⟨1,t,false,0⟩⟩] ∧
      emptyIndexStore.getBalance s = .ok 0 ∧ changed.getBalance s = .ok 1 := by
  intro s t changed
  have hb : cursor emptyIndexStore.database (bucketForScriptPublicKey s) = [] := cursor_empty _
  have ha : cursor changed.database (bucketForScriptPublicKey s) =
      [((bucketForScriptPublicKey s).key (serializeOutpoint ⟨0,0⟩), .utxoEntry ⟨1,t,false,0⟩)] := by
    exact cursor_insert_empty _ _ _
  have hr := exactReader.deserialize_serialize ⟨0,0⟩
  refine ⟨by decide,?_,?_,?_,?_⟩
  · rw [UtxoIndexStore.utxos,hb]
    rfl
  · rw [UtxoIndexStore.utxos,ha]
    simp only [UtxoIndexStore.fillPairs,Bucket.key,hr]
    rfl
  · rw [UtxoIndexStore.getBalance,hb]
    rfl
  · rw [UtxoIndexStore.getBalance,ha]
    rfl

end Eiyaro
