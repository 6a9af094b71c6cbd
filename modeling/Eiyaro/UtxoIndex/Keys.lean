import Eiyaro.Util.FinMap
import Eiyaro.Util.LittleEndian
import Eiyaro.Util.PrefixRange
import Eiyaro.Model.Outpoint

/-!
# Keys and buckets of the UTXO index

`infrastructure/db/database/keys.go` builds keys from a path of buckets, each
closed by a separator, and a suffix. A cursor over a bucket visits the keys
between two bounds in the order of their bytes. `domain/utxoindex/store.go` uses
the bytes of a script as the name of a bucket.

A cursor visits exactly the keys that extend the path of its bucket
(`mem_bytesPrefix_iff`, `mem_cursor`), so two buckets are independent exactly
when neither path extends the other.
-/

namespace Eiyaro
open List UInt8
variable {s t : ScriptPublicKey}

/-- The byte `'/'`. -/
def bucketSeparator : UInt8 := 0x2f

/-- A path of buckets. -/
structure Bucket where
  path : Bytes
deriving DecidableEq

/-- A bucket and a suffix in it. -/
structure Key where
  bucket : Bucket
  suffix : Bytes
deriving DecidableEq

/-- Closes the path by the separator, unless it is empty or ends in one. -/
def makeBucket (path : Bytes) : Bucket :=
  if 0 < path.length ∧ path.getLast? ≠ some bucketSeparator then ⟨path ++ [bucketSeparator]⟩
  else ⟨path⟩

/-- `Bucket.Bucket`. -/
def Bucket.bucket (b : Bucket) (bucketBytes : Bytes) : Bucket :=
  makeBucket (b.path ++ bucketBytes)

/-- `Bucket.Key`. -/
def Bucket.key (b : Bucket) (suffix : Bytes) : Key := ⟨b,suffix⟩

/-- The full key. -/
def Key.bytes (k : Key) : Bytes := k.bucket.path ++ k.suffix

/-! ## Cursors -/

/-- The loop of `BytesPrefix` over the bytes from the last one on: the first byte
that can be raised is raised and ends the limit. -/
def prefixLimit : Bytes → Option Bytes
  | [] => none
  | c :: rest => if c < 0xff then some ((c+1) :: rest).reverse else prefixLimit rest

/-- The bounds of a range of keys. -/
structure IterOptions where
  lowerBound : Bytes
  upperBound : Option Bytes

def bytesPrefix (path : Bytes) : IterOptions :=
  ⟨path,prefixLimit path.reverse⟩

/-- Whether a key is within the bounds. -/
def IterOptions.contains (options : IterOptions) (key : Bytes) : Bool :=
  decide (options.lowerBound ≤ key) && options.upperBound.all fun limit => decide (key < limit)

/-- `bytes.TrimPrefix`. -/
def trimPrefix (bytes path : Bytes) : Bytes :=
  if path <+: bytes then bytes.drop path.length else bytes

/-- The keys and values that a cursor over the bucket visits, in their order. -/
def cursor {V : Type} (db : FinMap Bytes V) (bucket : Bucket) : List (Key × V) :=
  ((db.keys.filter fun key => (bytesPrefix bucket.path).contains key).sort).filterMap fun fullKey =>
    (db.get fullKey).map fun value => (bucket.key (trimPrefix fullKey bucket.path), value)

lemma UInt8.covBy_add_one {c : UInt8} (h : c < 0xff) : c ⋖ c+1 := by
  have hc : (c+1).toNat = c.toNat+1 := by
    have := lt_iff_toNat_lt.1 h
    simp at this ⊢
    omega
  refine ⟨lt_iff_toNat_lt.2 (by omega),fun _ hcx hx => ?_⟩
  have hcx' := lt_iff_toNat_lt.1 hcx
  have hx' := lt_iff_toNat_lt.1 hx
  omega

/-- The bounds select the keys that extend the path. -/
lemma mem_bytesPrefix_iff (path key : Bytes) :
    (bytesPrefix path).contains key = true ↔ path <+: key := by
  have hl : ∀ reversed : Bytes, reversed.reverse ≤ key →
      (((prefixLimit reversed).all fun limit => decide (key < limit)) = true ↔
        reversed.reverse <+: key) := by
    intro reversed
    induction reversed with
    | nil => simp [prefixLimit]
    | cons c rest ih =>
      intro hle
      rw [reverse_cons] at hle ⊢
      rw [prefixLimit]
      split
      · rename_i hc
        have hr := mem_range_iff_prefix (UInt8.covBy_add_one hc) rest.reverse key
        simp only [reverse_cons,Option.all_some,decide_eq_true_eq]
        exact ⟨fun hlt => hr.1 ⟨hle,hlt⟩,fun h => (hr.2 h).2⟩
      · rename_i hc
        have hm : ∀ x : UInt8, ¬c < x := by
          intro x hx
          have hx' := lt_iff_toNat_lt.1 hx
          have hc' : ¬c.toNat < 255 := fun h => hc (lt_iff_toNat_lt.2 h)
          have := x.toNat_lt
          omega
        have hle' : rest.reverse ≤ key := List.le_trans le_append_left hle
        rw [ih hle',← le_and_prefix_iff_prefix hm]
        exact ⟨fun h => ⟨hle,h⟩,fun h => h.2⟩
  rw [IterOptions.contains,Bool.and_eq_true,decide_eq_true_eq]
  have hrev := hl path.reverse
  rw [reverse_reverse] at hrev
  constructor
  · rintro ⟨hle,ha⟩
    exact (hrev hle).1 ha
  · intro hp
    have hle : path ≤ key := by
      obtain ⟨_,rfl⟩ := hp
      exact le_append_left
    exact ⟨hle,(hrev hle).2 hp⟩

variable {V : Type} {bucket : Bucket}

/-- A cursor visits the keys of its bucket. -/
lemma mem_cursor {db : FinMap Bytes V} {key : Key} {value : V} :
    (key, value) ∈ cursor db bucket ↔ key.bucket = bucket ∧ db.get key.bytes = some value := by
  simp only [cursor,mem_filterMap,Finset.mem_sort,Finset.mem_filter,mem_bytesPrefix_iff]
  constructor
  · rintro ⟨_,⟨-,hp⟩,hv⟩
    obtain ⟨_,hg,heq⟩ := Option.map_eq_some_iff.1 hv
    obtain ⟨_,rfl⟩ := hp
    obtain ⟨rfl,rfl⟩ := Prod.mk.inj heq
    simpa [Key.bytes,Bucket.key,trimPrefix] using hg
  · rintro ⟨rfl,hg⟩
    refine ⟨key.bytes,⟨FinMap.mem_keys_of_get hg,prefix_append _ _⟩,?_⟩
    simpa [Key.bytes,Bucket.key,trimPrefix] using hg

/-- What a cursor visits is determined by the keys that extend the path. -/
lemma cursor_congr {db db' : FinMap Bytes V}
    (h : ∀ key, bucket.path <+: key → db.get key = db'.get key) :
    cursor db bucket = cursor db' bucket := by
  have hky : (db.keys.filter fun key => (bytesPrefix bucket.path).contains key) =
      db'.keys.filter fun key => (bytesPrefix bucket.path).contains key := by
    ext key
    simp only [Finset.mem_filter,mem_bytesPrefix_iff]
    refine and_congr_left fun hp => ?_
    rw [db.mem_keys,db'.mem_keys,h key hp]
  rw [cursor,hky]
  refine filterMap_congr fun key hk => ?_
  rw [Finset.mem_sort,Finset.mem_filter,mem_bytesPrefix_iff] at hk
  rw [h key hk.2]

/-- A cursor visits no key twice. -/
lemma nodup_cursor (db : FinMap Bytes V) (bucket : Bucket) :
    ((cursor db bucket).map Prod.fst).Nodup := by
  rw [List.Nodup,pairwise_map,cursor,pairwise_filterMap]
  refine (Finset.sort_nodup _ _).imp_of_mem fun {a a'} ha ha' hne b hb b' hb' heq => hne ?_
  rw [Finset.mem_sort,Finset.mem_filter,mem_bytesPrefix_iff] at ha ha'
  obtain ⟨-,_,rfl⟩ := ha
  obtain ⟨-,_,rfl⟩ := ha'
  obtain ⟨_,-,rfl⟩ := Option.map_eq_some_iff.1 hb
  obtain ⟨_,-,rfl⟩ := Option.map_eq_some_iff.1 hb'
  simpa [Bucket.key,trimPrefix] using heq

lemma cursor_empty (bucket : Bucket) : cursor (∅ : FinMap Bytes V) bucket = [] := by
  have hk : (∅ : FinMap Bytes V).keys = ∅ := rfl
  simp [cursor,hk]

lemma cursor_insert_empty (bucket : Bucket) (suffix : Bytes) (value : V) :
    cursor ((∅ : FinMap Bytes V).insert (bucket.key suffix).bytes value) bucket =
      [(bucket.key suffix, value)] := by
  have hk : ((∅ : FinMap Bytes V).insert (bucket.key suffix).bytes value).keys =
      {(bucket.key suffix).bytes} := rfl
  have hp : bucket.path <+: (bucket.key suffix).bytes := prefix_append _ _
  have hc := (mem_bytesPrefix_iff bucket.path (bucket.key suffix).bytes).2 hp
  simp [cursor,hk,Finset.filter_singleton,hc,trimPrefix, hp]
  simp [Key.bytes,Bucket.key]

/-! ## The keys of the index -/

def utxoIndexBucket : Bucket := makeBucket (asciiBytes "utxo-index")

def utxoIndexCountsBucket : Bucket := makeBucket (asciiBytes "utxo-index-counts")

def virtualParentsKey : Key := (makeBucket []).key (asciiBytes "utxo-index-virtual-parents")

def circulatingSupplyKey : Key := (makeBucket []).key (asciiBytes "utxo-index-circulating-supply")

def utxoCountsInitializedKey : Key :=
  (makeBucket []).key (asciiBytes "utxo-index-counts-initialized")

section
variable (scriptPublicKey : ScriptPublicKey)

/-- The version and the script. `ScriptPublicKey.String` spells the same bytes. -/
def scriptPublicKeyBytes : Bytes :=
  putLittleEndian 2 scriptPublicKey.version.toNat ++ scriptPublicKey.script

def newScriptPublicKeyFromString (bytes : Bytes) : ScriptPublicKey :=
  ⟨bytes.drop 2,UInt16.ofNat (littleEndian (bytes.take 2))⟩

def bucketForScriptPublicKey : Bucket :=
  utxoIndexBucket.bucket (scriptPublicKeyBytes scriptPublicKey)

def utxoCountKeyForScriptPublicKey : Key :=
  utxoIndexCountsBucket.key (scriptPublicKeyBytes scriptPublicKey)

end

/-- `EncodeVarint`, seven bits a byte. A 64-bit number takes at most ten bytes. -/
def encodeVarint : Nat → Nat → Bytes
  | 0, v => [ofNat v]
  | width+1, v =>
    if v ≥ 128 then ofNat (v % 128+128) :: encodeVarint width (v / 128)
    else [ofNat v]

/-- The message `DbOutpoint`: the transaction ID in a message of its own, and the
index unless it is zero. -/
def serializeOutpoint (outpoint : DomainOutpoint) : Bytes :=
  [0x0a,0x22,0x0a,0x20] ++ (putLittleEndian 32 outpoint.transactionID.val).reverse ++
    if outpoint.index = 0 then [] else 0x10 :: encodeVarint 9 outpoint.index.toNat

def convertOutpointToKey (bucket : Bucket) (outpoint : DomainOutpoint) : Key :=
  bucket.key (serializeOutpoint outpoint)

lemma newScriptPublicKeyFromString_bytes (spk : ScriptPublicKey) :
    newScriptPublicKeyFromString (scriptPublicKeyBytes spk) = spk := by
  have hl := length_putLittleEndian 2 spk.version.toNat
  rw [newScriptPublicKeyFromString,scriptPublicKeyBytes,drop_left' hl,
    take_left' hl,littleEndian_putLittleEndian]
  have hv : spk.version.toNat % 256^2 = spk.version.toNat := Nat.mod_eq_of_lt spk.version.toNat_lt
  rw [hv,UInt16.ofNat_toNat]

lemma scriptPublicKeyBytes_injective : Function.Injective scriptPublicKeyBytes :=
  Function.LeftInverse.injective newScriptPublicKeyFromString_bytes

lemma encodeVarint_injective (width : Nat) {v w : Nat} (hv : v < 128^(width+1))
    (hw : w < 128^(width+1)) (h : encodeVarint width v = encodeVarint width w) : v = w := by
  -- the first byte tells whether more follow, and the low seven bits of the number
  have hby : ∀ {a b : Nat}, a < 256 → b < 256 → ofNat a = ofNat b → a = b := by
    intro a b ha hb hab
    have := congrArg toNat hab
    rwa [toNat_ofNat',toNat_ofNat',Nat.mod_eq_of_lt ha,Nat.mod_eq_of_lt hb] at this
  induction width generalizing v w with
  | zero =>
    simp only [encodeVarint,cons.injEq,and_true] at h
    exact hby (by omega) (by omega) h
  | succ width ih =>
    rw [encodeVarint,encodeVarint] at h
    by_cases hv128 : v ≥ 128 <;> by_cases hw128 : w ≥ 128
    · rw [if_pos hv128,if_pos hw128] at h
      obtain ⟨hf,hr⟩ := cons.inj h
      have hl := hby (by omega) (by omega) hf
      have hh : v / 128 = w / 128 := by
        refine ih ?_ ?_ hr
        · exact Nat.div_lt_of_lt_mul (by rwa [Nat.pow_succ,Nat.mul_comm] at hv)
        · exact Nat.div_lt_of_lt_mul (by rwa [Nat.pow_succ,Nat.mul_comm] at hw)
      omega
    · rw [if_pos hv128,if_neg hw128] at h
      have := hby (by omega) (by omega) (cons.inj h).1
      omega
    · rw [if_neg hv128,if_pos hw128] at h
      have := hby (by omega) (by omega) (cons.inj h).1
      omega
    · rw [if_neg hv128,if_neg hw128] at h
      exact hby (by omega) (by omega) (cons.inj h).1

lemma serializeOutpoint_injective : Function.Injective serializeOutpoint := by
  rintro ⟨id,index⟩ ⟨id',index'⟩ h
  rw [serializeOutpoint,serializeOutpoint,append_assoc,append_assoc,append_cancel_left_eq] at h
  obtain ⟨hid,hi⟩ := append_inj h (by simp)
  have hid' : id = id' :=
    Fin.ext (putLittleEndian_injective id.isLt id'.isLt (reverse_injective hid))
  have hi' : index = index' := by
    split at hi <;> split at hi
    · simp_all
    · cases hi
    · cases hi
    · have hlt := fun i : UInt32 => Nat.lt_trans i.toNat_lt (show 2^32 < 128^10 by decide)
      exact UInt32.toNat_inj.1 (encodeVarint_injective 9 (hlt index) (hlt index') (cons.inj hi).2)
  rw [hid',hi']

/-! ## Buckets of different scripts -/

/-- Neither bucket lies in the other one. -/
def Separate (s t : ScriptPublicKey) : Prop :=
  ¬(bucketForScriptPublicKey s).path <+: (bucketForScriptPublicKey t).path ∧
    ¬(bucketForScriptPublicKey t).path <+: (bucketForScriptPublicKey s).path

instance (s t : ScriptPublicKey) : Decidable (Separate s t) :=
  inferInstanceAs (Decidable (_ ∧ _))

/-- No key of one bucket extends the path of the other. -/
lemma Separate.not_extends (h : Separate s t) (suffix : Bytes) :
    ¬(bucketForScriptPublicKey s).path <+: ((bucketForScriptPublicKey t).key suffix).bytes := by
  intro hp
  obtain hst | hts := prefix_or_prefix_of_prefix hp (prefix_append _ suffix)
  · exact h.1 hst
  · exact h.2 hts

lemma path_bucketForScriptPublicKey (spk : ScriptPublicKey) :
    (bucketForScriptPublicKey spk).path =
      utxoIndexBucket.path ++ scriptPublicKeyBytes spk ++
        if (scriptPublicKeyBytes spk).getLast? = some bucketSeparator then []
        else [bucketSeparator] := by
  have hne : scriptPublicKeyBytes spk ≠ [] := by
    intro hn
    have := congrArg length hn
    simp [scriptPublicKeyBytes] at this
  rw [bucketForScriptPublicKey,Bucket.bucket,makeBucket]
  by_cases hs : (scriptPublicKeyBytes spk).getLast? = some bucketSeparator
  · simp [hs]
  · have hp : 0 < (utxoIndexBucket.path ++ scriptPublicKeyBytes spk).length := by
      rw [length_append]
      have := length_pos_of_ne_nil hne
      omega
    rw [if_pos ⟨hp,hs⟩,if_neg hs]

/-- Scripts of one length that do not end in a separator have separate buckets. -/
lemma separate_of_length_eq (hne : s ≠ t) (hl : s.script.length = t.script.length)
    (hs : (scriptPublicKeyBytes s).getLast? ≠ some bucketSeparator)
    (ht : (scriptPublicKeyBytes t).getLast? ≠ some bucketSeparator) : Separate s t := by
  have hp : (bucketForScriptPublicKey s).path.length =
      (bucketForScriptPublicKey t).path.length := by
    rw [path_bucketForScriptPublicKey,path_bucketForScriptPublicKey,if_neg hs,if_neg ht]
    simp [scriptPublicKeyBytes,hl]
  have hpath_ne : (bucketForScriptPublicKey s).path ≠ (bucketForScriptPublicKey t).path := by
    intro heq
    rw [path_bucketForScriptPublicKey,path_bucketForScriptPublicKey,if_neg hs,if_neg ht] at heq
    have hb := append_cancel_left (append_cancel_right heq)
    exact hne (scriptPublicKeyBytes_injective hb)
  exact ⟨fun h => hpath_ne (h.eq_of_length hp),fun h => hpath_ne (h.eq_of_length hp.symm).symm⟩

end Eiyaro
