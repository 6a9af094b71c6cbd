import Eiyaro.Model.Failure
import Eiyaro.UtxoIndex.Store

/-!
# Pages of the UTXOs of a script

`PaginatedUTXOs` of `domain/utxoindex/store.go`. The cursor is compared with the offset by `>`, so
that the entry at the offset is skipped together with those before it.
-/

namespace Eiyaro
open List
variable {reader : OutpointReader} {offset limit iterator : UInt32} {slice pairs : List UTXOPair}
  {items : List (Key × IndexValue)} {uis : UtxoIndexStore} {s : ScriptPublicKey}

namespace UtxoIndexStore

/-- The second pass of `PaginatedUTXOs` over the cursor. -/
def fillPage (reader : OutpointReader) (offset limit : UInt32) :
    List (Key × IndexValue) → UInt32 → List UTXOPair → Except IndexFailure (List UTXOPair)
  | [], _, slice => .ok slice
  | (key, serializedUTXOEntry) :: rest, iterator, slice =>
    if iterator > offset then do
      let outpoint ← reader.deserializeOutpoint key.suffix
      let utxoEntry ← deserializeUTXOEntry serializedUTXOEntry
      let slice := slice ++ [⟨outpoint,utxoEntry⟩]
      if limit > 0 ∧ slice.length ≥ limit.toNat then .ok slice
      else fillPage reader offset limit rest (iterator+1) slice
    else fillPage reader offset limit rest (iterator+1) slice

def paginatedUTXOs (reader : OutpointReader) (uis : UtxoIndexStore)
    (scriptPublicKey : ScriptPublicKey) (offset limit : UInt32) :
    Except IndexFailure (List UTXOPair) :=
  if uis.isAnythingStaged then .error (.stagingIsNotEmpty "UTXOs")
  else fillPage reader offset limit (cursor uis.database (bucketForScriptPublicKey scriptPublicKey))
    0 []

end UtxoIndexStore

open UtxoIndexStore

/-- The first entries, or all of them where there is no limit. -/
def takePage (limit : UInt32) (pairs : List UTXOPair) : List UTXOPair :=
  if limit = 0 then pairs else pairs.take limit.toNat

/-- The items of the cursor decode to the pairs. -/
def Decodes (reader : OutpointReader) : List (Key × IndexValue) → List UTXOPair → Prop :=
  Forall₂ fun item pair => reader.deserializeOutpoint item.1.suffix = .ok pair.outpoint ∧
    deserializeUTXOEntry item.2 = .ok pair.entry

lemma decodes_of_fillPairs (h : fillPairs reader 0 items slice = .ok pairs) :
    ∃ rest, Decodes reader items rest ∧ pairs = slice ++ rest := by
  induction items generalizing slice with
  | nil =>
    cases h
    exact ⟨[],.nil,by simp⟩
  | cons _ items ih =>
    obtain ⟨outpoint,hop,entry,he,h⟩ := bind₂_eq_ok h
    obtain ⟨rest,hr,rfl⟩ := ih h
    exact ⟨⟨outpoint,entry⟩ :: rest,.cons ⟨hop,he⟩ hr,by simp⟩

lemma fillPage_of_decodes (h : Decodes reader items pairs) (hl : iterator.toNat+items.length < 2^32)
    (hsl : limit = 0 ∨ slice.length < limit.toNat) :
    fillPage reader offset limit items iterator slice =
      .ok (takePage limit (slice ++ pairs.drop (offset.toNat+1 - iterator.toNat))) := by
  induction h generalizing iterator slice with
  | nil =>
    obtain rfl | hsl := hsl
    · simp [fillPage,takePage]
    · simp [fillPage,takePage,take_of_length_le hsl.le]
  | @cons _ pair items pairs hr _ ih =>
    rw [length_cons] at hl
    have hn : (iterator+1).toNat = iterator.toNat+1 := by
      exact Nat.mod_eq_of_lt (by simp; omega)
    by_cases hgt : iterator > offset
    · have hd : offset.toNat+1 - iterator.toNat = 0 := by
        have := UInt32.lt_iff_toNat_lt.1 hgt
        omega
      rw [fillPage,if_pos hgt,hr.1,ok_bind,hr.2,ok_bind,hd]
      dsimp only
      split
      · next hf =>
        -- the pair fills the page
        have hne : limit ≠ 0 := UInt32.pos_iff_ne_zero.1 hf.1
        have hln : limit.toNat = slice.length+1 := by
          have := hsl.resolve_left hne
          simp at hf
          omega
        simp [takePage,hne,hln,take_append]
      · have hs' : limit = 0 ∨ (slice ++ [pair]).length < limit.toNat := by
          grind
        rw [ih (by omega) hs',Nat.sub_eq_zero_of_le (by omega)]
        simp
    · have hle : iterator.toNat ≤ offset.toNat := by
        rw [gt_iff_lt,UInt32.lt_iff_toNat_lt] at hgt
        omega
      rw [fillPage,if_neg hgt,ih (by omega) hsl,hn,Nat.succ_sub hle,drop_succ_cons,
        Nat.add_sub_add_right]

/-- A store with one entry, for the script `t`. -/
def oneEntry (t : ScriptPublicKey) : UtxoIndexStore :=
  { emptyIndexStore with database := writeEntries t [.put ⟨0,0⟩ ⟨1,t,false,0⟩] ∅ }

lemma cursor_oneEntry : cursor (oneEntry s).database (bucketForScriptPublicKey s) =
    [((bucketForScriptPublicKey s).key (serializeOutpoint ⟨0,0⟩), .utxoEntry ⟨1,s,false,0⟩)] :=
  cursor_insert_empty _ _ _

lemma utxos_oneEntry : (oneEntry s).utxos exactReader s 0 = .ok [⟨⟨0,0⟩,⟨1,s,false,0⟩⟩] := by
  have hr := exactReader.deserialize_serialize ⟨0,0⟩
  have hs : (oneEntry s).isAnythingStaged = false := rfl
  rw [utxos,cursor_oneEntry]
  simp only [fillPairs,Bucket.key,hr]
  rfl

/-- The first entry is not on the first page. -/
theorem paginatedUTXOs_skips_first :
    (oneEntry ⟨[0x51],0⟩).utxos exactReader ⟨[0x51],0⟩ 0 =
      .ok [⟨⟨0,0⟩,⟨1,⟨[0x51],0⟩,false,0⟩⟩] ∧
      (oneEntry ⟨[0x51],0⟩).paginatedUTXOs exactReader ⟨[0x51],0⟩ 0 0 = .ok [] := by
  refine ⟨utxos_oneEntry,?_⟩
  rw [paginatedUTXOs,cursor_oneEntry]
  rfl

/-- A page that starts behind the offset is a page that starts at it only where both are empty. -/
lemma takePage_drop_succ_iff {i : Nat} (hnd : pairs.Nodup) :
    takePage limit (pairs.drop (i+1)) = takePage limit (pairs.drop i) ↔ pairs.length ≤ i := by
  constructor
  · intro heq
    by_contra hlt
    rw [not_le] at hlt
    have hn := hnd.sublist (drop_sublist i pairs)
    rw [drop_eq_getElem_cons hlt] at heq hn
    obtain ⟨hx,-⟩ := nodup_cons.1 hn
    refine hx ?_
    by_cases hlm : limit = 0
    · rw [takePage,takePage,if_pos hlm,if_pos hlm] at heq
      rw [heq]
      exact mem_cons_self
    · obtain ⟨k,hk⟩ := Nat.exists_eq_succ_of_ne_zero
        (mt (UInt32.toNat_inj (b := 0)).1 hlm)
      rw [takePage,takePage,if_neg hlm,if_neg hlm,hk,take_succ_cons] at heq
      exact mem_of_mem_take (heq ▸ mem_cons_self)
  · intro hle
    rw [drop_eq_nil_of_le hle,drop_eq_nil_of_le (by omega)]

/-- The pairs of different keys are different where the keys end in serialized outpoints. -/
lemma Decodes.nodup {bucket : Bucket} (h : Decodes reader items pairs)
    (hnd : (items.map Prod.fst).Nodup)
    (hk : ∀ item ∈ items, item.1.bucket = bucket ∧ ∃ o, item.1.suffix = serializeOutpoint o) :
    pairs.Nodup := by
  have hm : items.map Prod.fst = pairs.map fun pair =>
      bucket.key (serializeOutpoint pair.outpoint) := by
    induction h with
    | nil => rfl
    | @cons item pair _ _ hr _ ih =>
      rw [forall_mem_cons] at hk
      obtain ⟨⟨hb,o,ho⟩,hk⟩ := hk
      have hop : o = pair.outpoint := by
        have hd := hr.1
        rw [ho,reader.deserialize_serialize,Except.ok.injEq] at hd
        exact hd
      rw [map_cons,map_cons,ih hnd.of_cons hk,← hop,← ho,← hb]
      rfl
  exact Nodup.of_map _ (hm ▸ hnd)

/-- A page starts behind its offset, so that it has the entries it should have if and only if the
offset is not below their number. -/
theorem paginatedUTXOs_eq_iff (hall : uis.utxos reader s 0 = .ok pairs)
    (hkeys : ∀ item ∈ cursor uis.database (bucketForScriptPublicKey s),
      ∃ o, item.1.suffix = serializeOutpoint o)
    (hlength : pairs.length < 2^32) (offset limit : UInt32) :
    uis.paginatedUTXOs reader s offset limit = .ok (takePage limit (pairs.drop offset.toNat)) ↔
      pairs.length ≤ offset.toNat := by
  rw [utxos] at hall
  split at hall
  · cases hall
  next hst =>
  obtain ⟨_,hr,rfl⟩ := decodes_of_fillPairs hall
  have hnd := hr.nodup (nodup_cursor _ _) fun item hi =>
    ⟨(mem_cursor.1 hi).1,hkeys item hi⟩
  have hpg : uis.paginatedUTXOs reader s offset limit =
      .ok (takePage limit (pairs.drop (offset.toNat+1))) := by
    rw [paginatedUTXOs,if_neg hst]
    refine fillPage_of_decodes hr (by simpa [hr.length_eq] using hlength) ?_
    by_cases hlm : limit = 0
    · exact .inl hlm
    · exact .inr (UInt32.lt_iff_toNat_lt.1 (UInt32.pos_iff_ne_zero.2 hlm))
  rw [hpg,Except.ok.injEq]
  exact takePage_drop_succ_iff hnd

/-- The only entry is missing from the page of offset 0, and nothing from that of offset 1. -/
theorem paginatedUTXOs_eq_iff_oneEntry :
    (oneEntry ⟨[0x51],0⟩).paginatedUTXOs exactReader ⟨[0x51],0⟩ 0 2 ≠
        .ok [⟨⟨0,0⟩,⟨1,⟨[0x51],0⟩,false,0⟩⟩] ∧
      (oneEntry ⟨[0x51],0⟩).paginatedUTXOs exactReader ⟨[0x51],0⟩ 1 2 = .ok [] := by
  have hp := paginatedUTXOs_eq_iff (utxos_oneEntry (s := ⟨[0x51],0⟩)) (by
    rw [cursor_oneEntry]
    exact forall_mem_singleton.2 ⟨_,rfl⟩) (by decide)
  exact ⟨fun h => absurd ((hp 0 2).1 h) (by decide),(hp 1 2).2 (by decide)⟩

end Eiyaro
