import Eiyaro.Model.Failure
import Eiyaro.Util.Bits

/-!
# Bech32

`util/bech32/bech32.go`. A string is a list of bytes, of which an encoded one has a text, a colon
and then symbols of five bits, the last eight of them a checksum. The functions `Encode` and
`Decode` are `encodeVersioned` and `decodeVersioned`.

Regrouping bits keeps the stream of bits (`Regrouping.Holds`), and the remainder modulo the
generator is linear (`foldl_polyModStep_xor`), so what was encoded is decoded again. A string
with a right checksum and less than a byte of data is decoded to nothing, of which `Decode`
takes the first byte.
-/

namespace Eiyaro
open List Nat
variable {stream : List Bool}

namespace Bech32

def charset : Bytes := asciiBytes "qpzry9x8gf2tvdw0s3jn54khce6mua7l"

def checksumLength : Nat := 8

/-- The byte `':'`. -/
def colon : UInt8 := 0x3a

/-- Bytes in a message. -/
def textOf (bytes : Bytes) : String :=
  String.ofList (bytes.map fun byte => Char.ofNat byte.toNat)

/-! ## Regrouping bits -/

structure ConversionType where
  fromBits : Nat
  toBits : Nat
  pad : Bool

def fiveToEightBits : ConversionType := ⟨5,8,false⟩

def eightToFiveBits : ConversionType := ⟨8,5,true⟩

/-- `b << n` on bytes, which is 0 from `n = 8` on. -/
def shiftLeft (b : UInt8) (n : Nat) : UInt8 := UInt8.ofNat (b.toNat <<< n)

def shiftRight (b : UInt8) (n : Nat) : UInt8 := UInt8.ofNat (b.toNat >>> n)

/-- The variables of the loops of `convertBits`. -/
structure Regrouping where
  regrouped : Bytes
  nextByte : UInt8
  filledBits : Nat

/-- The inner loop. Every round takes a bit of the byte or more, so that there are at most as
many rounds as bits. -/
def extractBits (conversionType : ConversionType) : Nat → UInt8 → Nat → Regrouping → Regrouping
  | 0, _, _, state => state
  | fuel+1, b, remainingFromBits, state =>
    if remainingFromBits > 0 then
      let remainingToBits := conversionType.toBits - state.filledBits
      let toExtract := min remainingToBits remainingFromBits
      let nextByte := shiftLeft state.nextByte toExtract ||| shiftRight b (8 - toExtract)
      let filledBits := state.filledBits+toExtract
      extractBits conversionType fuel (shiftLeft b toExtract) (remainingFromBits - toExtract)
        (if filledBits = conversionType.toBits then ⟨state.regrouped ++ [nextByte],0,0⟩
          else ⟨state.regrouped,nextByte,filledBits⟩)
    else
      state

/-- The round of the outer loop for a byte. -/
def regroupByte (conversionType : ConversionType) (state : Regrouping) (b : UInt8) : Regrouping :=
  extractBits conversionType conversionType.fromBits (shiftLeft b (8 - conversionType.fromBits))
    conversionType.fromBits state

def convertBits (data : Bytes) (conversionType : ConversionType) : Bytes :=
  let state := data.foldl (regroupByte conversionType) ⟨[],0,0⟩
  if conversionType.pad && state.filledBits > 0 then
    state.regrouped ++ [shiftLeft state.nextByte (conversionType.toBits - state.filledBits)]
  else
    state.regrouped

/-! ## The checksum -/

def generator : List Nat :=
  [0x98f2bc8e61,0x79b76d99e2,0xf33e5fb3c4,0xae2eabe2a8,0x1e4f43e470]

/-- The inner loop of `polyMod`. -/
def reduce (topBits checksum : Nat) : Nat :=
  generator.zipIdx.foldl
    (fun checksum (g, i) => if topBits >>> i &&& 1 = 1 then checksum ^^^ g else checksum) checksum

/-- The round of `polyMod` for a value. -/
def polyModStep (checksum value : Nat) : Nat :=
  reduce (checksum >>> 35) ((checksum &&& 0x07ffffffff) <<< 5 ^^^ value)

/-- The numbers stay below `2 ^ 40`. -/
def polyMod (values : List Nat) : Nat :=
  values.foldl polyModStep 1 ^^^ 1

def prefixToUint5Array (prefixString : Bytes) : List Nat :=
  prefixString.map fun char => (char &&& 31).toNat

def ints (payload : Bytes) : List Nat :=
  payload.map UInt8.toNat

variable (prefixString payload : Bytes)

def calculateChecksum : Bytes :=
  let polyModResult := polyMod (prefixToUint5Array prefixString ++ [0] ++ ints payload ++
    List.replicate checksumLength 0)
  (List.range checksumLength).map fun i =>
    UInt8.ofNat (polyModResult >>> (5*(checksumLength - 1 - i)) &&& 31)

def verifyChecksum : Bool :=
  polyMod (prefixToUint5Array prefixString ++ [0] ++ ints payload) == 0

/-! ## Encoding and decoding -/

/-- Bytes from 32 on have no character, in which case nothing is returned. -/
def encodeToBase32 (data : Bytes) : Bytes :=
  (data.mapM fun b => charset[b.toNat]?).getD []

def decodeFromBase32 (base32String : Bytes) : Except String Bytes :=
  base32String.mapM fun char =>
    match charset.idxOf? char with
    | some index => .ok (UInt8.ofNat index)
    | none => .error ("invalid character not part of charset: " ++ textOf [char])

/-- `strings.ToLower` on ASCII characters. -/
def toLower (char : UInt8) : UInt8 :=
  if 0x41 ≤ char ∧ char ≤ 0x5a then char+0x20 else char

/-- `strings.ToUpper` on ASCII characters. -/
def toUpper (char : UInt8) : UInt8 :=
  if 0x61 ≤ char ∧ char ≤ 0x7a then char - 0x20 else char

/-- `strings.LastIndexByte`. -/
def lastIndexByte (s : Bytes) (c : UInt8) : Int :=
  match s.reverse.idxOf? c with
  | some i => s.length - 1 - i
  | none => -1

/-- `s[low:high]`. -/
def slice (s : Bytes) (low high : Int) : Except Failure Bytes :=
  if 0 ≤ low ∧ low ≤ high ∧ high ≤ s.length then
    .ok ((s.take high.toNat).drop low.toNat)
  else
    .error (.panic "slice bounds out of range")

def encode (prefixString data : Bytes) : Bytes :=
  prefixString ++ [colon] ++ encodeToBase32 (data ++ calculateChecksum prefixString data)

variable (encoded : Bytes) {k : Nat}

/-- The part of `decode` after the checks of the characters. -/
def decodeLower : Except Failure (Bytes × Bytes) :=
  let colonIndex := lastIndexByte encoded colon
  if colonIndex < 1 ∨ colonIndex+checksumLength+1 > encoded.length then
    .error (.error "invalid index of ':'")
  else do
    let prefixString ← slice encoded 0 colonIndex
    let data ← slice encoded (colonIndex+1) encoded.length
    match decodeFromBase32 data with
    | .error message => .error (.error ("failed converting data to bytes: " ++ message))
    | .ok decoded => do
      let payload ← slice decoded 0 (decoded.length - checksumLength)
      if !verifyChecksum prefixString decoded then
        let checksum ← slice encoded (encoded.length - checksumLength) encoded.length
        let expected := encodeToBase32 (calculateChecksum prefixString payload)
        .error (.error ("checksum failed. Expected " ++ textOf expected ++ ", got " ++
          textOf checksum))
      else
        .ok (prefixString, payload)

/-- The characters from 33 to 126. -/
def isAllowed (char : UInt8) : Bool :=
  33 ≤ char && char ≤ 126

def decode : Except Failure (Bytes × Bytes) :=
  if encoded.length < checksumLength+2 then
    .error (.error ("invalid bech32 string length " ++ toString encoded.length))
  else
    match encoded.find? (!isAllowed ·) with
    | some char => .error (.error ("invalid character in string: '" ++ textOf [char] ++ "'"))
    | none =>
      let lower := encoded.map toLower
      let upper := encoded.map toUpper
      if encoded ≠ lower ∧ encoded ≠ upper then
        .error (.error "string not all lowercase or all uppercase")
      else
        decodeLower lower

/-- `Encode`. -/
def encodeVersioned (version : UInt8) : Bytes :=
  encode prefixString (convertBits (version :: payload) eightToFiveBits)

/-- `Decode`. -/
def decodeVersioned : Except Failure (Bytes × Bytes × UInt8) := do
  let (prefixString, decoded) ← decode encoded
  let converted := convertBits decoded fiveToEightBits
  let version ← indexSlice converted 0
  let payload ← slice converted 1 converted.length
  .ok (prefixString, payload, version)

/-! ## Regrouping keeps the bits -/

lemma toNat_shiftLeft (b : UInt8) (n : Nat) : (shiftLeft b n).toNat = b.toNat <<< n % 2^8 :=
  UInt8.toNat_ofNat'

lemma toNat_shiftRight (b : UInt8) (n : Nat) : (shiftRight b n).toNat = b.toNat >>> n := by
  refine mod_eq_of_lt (lt_of_le_of_lt ?_ b.toNat_lt)
  rw [shiftRight_eq_div_pow]
  exact div_le_self _ _

lemma shiftLeft_lt {x f w : Nat} (hx : x < 2^f) (hw : f+k ≤ w) : x <<< k < 2^w := by
  rw [shiftLeft_eq]
  calc x*2^k < 2^f*2^k := Nat.mul_lt_mul_of_pos_right hx (Nat.two_pow_pos k)
    _ = 2^(f+k) := (pow_add 2 f k).symm
    _ ≤ 2^w := Nat.pow_le_pow_right (by decide) hw

lemma shiftRight_lt {b w : Nat} (hb : b < 2^w) (hk : k ≤ w) : b >>> (w - k) < 2^k := by
  rw [shiftRight_eq_div_pow]
  refine Nat.div_lt_of_lt_mul ?_
  rwa [← Nat.pow_add,show w - k+k = w by omega]

/-- What was regrouped so far and the bits of the next byte are the stream of bits. -/
structure Regrouping.Holds (toBits : Nat) (state : Regrouping) (stream : List Bool) : Prop where
  filled : state.filledBits < toBits
  nextByte : state.nextByte.toNat < 2^state.filledBits
  regrouped : ∀ n ∈ ints state.regrouped, n < 2^toBits
  bits : (ints state.regrouped).flatMap (bitsOf toBits) ++
    bitsOf state.filledBits state.nextByte.toNat = stream

variable {state : Regrouping} {symbol : UInt8} {data : Bytes}

/-- Taking bits from the top of a byte into the next one, which is completed by them or not. -/
lemma Regrouping.Holds.extract {toBits : Nat} (h : state.Holds toBits stream) (hto : toBits ≤ 8)
    (b : UInt8) (hk : state.filledBits+k ≤ toBits) (nextByte : UInt8)
    (hnx : nextByte = shiftLeft state.nextByte k ||| shiftRight b (8 - k)) :
    Regrouping.Holds toBits
      (if state.filledBits+k = toBits then ⟨state.regrouped ++ [nextByte],0,0⟩
        else ⟨state.regrouped,nextByte,state.filledBits+k⟩)
      (stream ++ bitsOf k (b.toNat >>> (8 - k))) := by
  have hs : state.nextByte.toNat <<< k < 2^(state.filledBits+k) :=
    shiftLeft_lt h.nextByte (le_refl _)
  have ht : b.toNat >>> (8 - k) < 2^k := shiftRight_lt b.toNat_lt (by omega)
  have hnt : nextByte.toNat = state.nextByte.toNat <<< k ||| b.toNat >>> (8 - k) := by
    rw [hnx,UInt8.toNat_or,toNat_shiftLeft,toNat_shiftRight,
      mod_eq_of_lt (shiftLeft_lt h.nextByte (by omega))]
  have hlt : nextByte.toNat < 2^(state.filledBits+k) := by
    rw [hnt]
    exact Nat.or_lt_two_pow hs (Nat.lt_of_lt_of_le ht (Nat.pow_le_pow_right (by decide) (by omega)))
  have hb : bitsOf (state.filledBits+k) nextByte.toNat =
      bitsOf state.filledBits state.nextByte.toNat ++ bitsOf k (b.toNat >>> (8 - k)) := by
    rw [hnt,bitsOf_shiftLeft_or _ _ _ _ ht]
  split
  · next hf =>
    -- the byte is complete, and the next one starts empty
    have hi : ints (state.regrouped ++ [nextByte]) =
        ints state.regrouped ++ [nextByte.toNat] := by simp [ints]
    refine ⟨lt_of_le_of_lt (zero_le _) h.filled,by simp,?_,?_⟩
    · intro n hn
      simp only [hi,mem_append,mem_singleton] at hn
      obtain hn | rfl := hn
      · exact h.regrouped n hn
      · exact hf ▸ hlt
    · simp only [hi,flatMap_append,flatMap_singleton]
      rw [← h.bits,append_assoc,append_assoc,← hb,hf]
      simp [bitsOf]
  · next hno =>
    refine ⟨lt_of_le_of_ne hk hno,hlt,h.regrouped,?_⟩
    rw [← h.bits,append_assoc,← hb]

lemma Regrouping.Holds.extractBits {conversionType : ConversionType}
    (hto : conversionType.toBits ≤ 8) {fuel r : Nat} {b : UInt8}
    (h : state.Holds conversionType.toBits stream) (hfl : r ≤ fuel) (hr : r ≤ 8) :
    (extractBits conversionType fuel b r state).Holds conversionType.toBits
      (stream ++ bitsOf r (b.toNat >>> (8 - r))) := by
  induction fuel generalizing r b state stream with
  | zero =>
    obtain rfl : r = 0 := by omega
    simpa [Bech32.extractBits,bitsOf] using h
  | succ fuel ih =>
    rw [Bech32.extractBits]
    by_cases hp : r > 0
    · rw [if_pos hp]
      have hf := h.filled
      have hm : min (conversionType.toBits - state.filledBits) r ≤ r := min_le_right _ _
      have hrn : state.filledBits+min (conversionType.toBits - state.filledBits) r ≤
          conversionType.toBits := by omega
      have hn := ih (b := shiftLeft b (min (conversionType.toBits - state.filledBits) r))
        (h.extract hto b hrn _ rfl)
        (show r - min (conversionType.toBits - state.filledBits) r ≤ fuel by omega) (by omega)
      rwa [append_assoc,toNat_shiftLeft,← bitsOf_shiftRight_split 8 b.toNat hm hr] at hn
    · obtain rfl : r = 0 := by omega
      simpa [bitsOf] using h

lemma Regrouping.Holds.foldl_regroupByte (conversionType : ConversionType)
    (hto : conversionType.toBits ≤ 8) (hf : conversionType.fromBits ≤ 8) (data : Bytes)
    (h : state.Holds conversionType.toBits stream) :
    (data.foldl (regroupByte conversionType) state).Holds conversionType.toBits
      (stream ++ (ints data).flatMap (bitsOf conversionType.fromBits)) := by
  induction data generalizing state stream with
  | nil => simpa [ints] using h
  | cons b data ih =>
    have hb := h.extractBits hto (b := shiftLeft b (8 - conversionType.fromBits))
      (le_refl conversionType.fromBits) hf
    rw [toNat_shiftLeft,bitsOf_shiftLeft_shiftRight 8 b.toNat hf] at hb
    have hr := ih hb
    rw [append_assoc] at hr
    exact hr

section
variable (data)

/-- Bits that do not fill a byte are dropped. -/
lemma convertBits_fiveToEightBits : ∃ rest : List Bool, rest.length < 8 ∧
    (ints (convertBits data fiveToEightBits)).flatMap (bitsOf 8) ++ rest = (ints data).flatMap
    (bitsOf 5) := by
  have hs : Regrouping.Holds 8 ⟨[],0,0⟩ [] :=
    ⟨by decide,by decide,by simp [ints],by simp [ints,bitsOf]⟩
  have ha := hs.foldl_regroupByte fiveToEightBits (by decide) (by decide) data
  exact ⟨_,by rw [length_bitsOf]; exact ha.filled,ha.bits⟩

/-- Bits that do not fill a symbol are filled up. -/
lemma convertBits_eightToFiveBits : (∀ n ∈ ints (convertBits data eightToFiveBits), n < 32) ∧ ∃
    rest : List Bool, rest.length < 5 ∧ (ints (convertBits data eightToFiveBits)).flatMap (bitsOf 5)
    = (ints data).flatMap (bitsOf 8) ++ rest := by
  have hs : Regrouping.Holds 5 ⟨[],0,0⟩ [] :=
    ⟨by decide,by decide,by simp [ints],by simp [ints,bitsOf]⟩
  have ha := hs.foldl_regroupByte eightToFiveBits (by decide) (by decide) data
  rw [convertBits]
  generalize data.foldl (regroupByte eightToFiveBits) ⟨[],0,0⟩ = state at ha
  by_cases hf : state.filledBits > 0
  · -- the padding is a last round that takes the bits of an empty byte
    have hlt : state.filledBits < 5 := ha.filled
    have hp := ha.extract (by decide) 0 (k := 5 - state.filledBits) (by
      show state.filledBits+(5 - state.filledBits) ≤ 5
      omega) _ rfl
    have hfl : state.filledBits+(5 - state.filledBits) = 5 := by omega
    have hz : ∀ x : UInt8, x ||| shiftRight 0 (8 - (5 - state.filledBits)) = x := by
      simp [shiftRight]
    simp only [eightToFiveBits,hfl,if_true,hz] at hp ⊢
    simp only [hf,decide_true,Bool.and_self,if_true]
    refine ⟨hp.regrouped,bitsOf (5 - state.filledBits) 0,?_,?_⟩
    · rw [length_bitsOf]
      omega
    · simpa [bitsOf] using hp.bits
  · have he : state.filledBits = 0 := by omega
    simp only [eightToFiveBits,he,gt_iff_lt,lt_irrefl,decide_false,Bool.and_false,
      Bool.false_eq_true,if_false]
    refine ⟨ha.regrouped,[],by simp,?_⟩
    have hb := ha.bits
    rw [he] at hb
    simpa [bitsOf,eightToFiveBits] using hb

lemma convertBits_convertBits : convertBits (convertBits data eightToFiveBits) fiveToEightBits =
    data := by
  obtain ⟨-,_,_,hf⟩ := convertBits_eightToFiveBits data
  obtain ⟨_,_,height⟩ := convertBits_fiveToEightBits _
  rw [hf] at height
  have hl := congrArg length height
  simp only [length_append,length_flatMap_bitsOf] at hl
  have hb : ∀ bytes : Bytes, ∀ n ∈ ints bytes, n < 2^8 := by
    intro bytes n hn
    obtain ⟨byte,-,rfl⟩ := mem_map.1 hn
    exact byte.toNat_lt
  -- neither the padding nor the rest is a whole byte
  obtain ⟨hm,-⟩ := (delimited_bitsOf 8).flatMap_of_length_eq (by omega) (hb _) (hb _) height
  rw [map_id,map_id] at hm
  exact map_injective_iff.2 (fun _ _ h => UInt8.toNat_inj.1 h) hm

end

/-! ## The checksum of an encoded word -/

/-- The reduction only adds multiples of the generator. -/
lemma reduce_xor (topBits a d : Nat) : reduce topBits (a ^^^ d) = reduce topBits a ^^^ d := by
  have hf : ∀ gs : List (Nat × Nat), ∀ a,
      gs.foldl (fun checksum (g, i) =>
        if topBits >>> i &&& 1 = 1 then checksum ^^^ g else checksum) (a ^^^ d) =
      gs.foldl (fun checksum (g, i) =>
        if topBits >>> i &&& 1 = 1 then checksum ^^^ g else checksum) a ^^^ d := by
    intro gs
    induction gs with
    | nil => exact fun a => rfl
    | cons g gs ih =>
      intro a
      simp only [foldl_cons]
      split
      · rw [← ih,Nat.xor_assoc,Nat.xor_assoc,Nat.xor_comm d]
      · exact ih a
  exact hf _ a

lemma reduce_lt {topBits a : Nat} (ha : a < 2^40) : reduce topBits a < 2^40 := by
  have hf : ∀ gs : List (Nat × Nat), (∀ g ∈ gs, g.1 < 2^40) → ∀ a < 2^40,
      gs.foldl (fun checksum (g, i) =>
        if topBits >>> i &&& 1 = 1 then checksum ^^^ g else checksum) a < 2^40 := by
    intro gs
    induction gs with
    | nil => exact fun _ a ha => ha
    | cons g gs ih =>
      intro hgs a ha
      rw [forall_mem_cons] at hgs
      simp only [foldl_cons]
      refine ih hgs.2 _ ?_
      split
      · exact xor_lt_two_pow ha hgs.1
      · exact ha
  exact hf _ (by decide) a ha

lemma polyModStep_lt {checksum value : Nat} (hv : value < 2^40) :
    polyModStep checksum value < 2^40 := by
  refine reduce_lt (xor_lt_two_pow ?_ hv)
  exact shiftLeft_lt (f := 35) (lt_of_le_of_lt and_le_right (by decide)) (by decide)

/-- Less than 35 bits more in the remainder only move. -/
lemma polyModStep_xor {d : Nat} (hd : d < 2^35) (a value : Nat) :
    polyModStep (a ^^^ d) value = polyModStep a 0 ^^^ (d <<< 5 ^^^ value) := by
  have ht : (a ^^^ d) >>> 35 = a >>> 35 := by
    rw [shiftRight_xor_distrib,shiftRight_eq_div_pow d,div_eq_of_lt hd,xor_zero]
  have hl : (a ^^^ d) &&& 0x07ffffffff = (a &&& 0x07ffffffff) ^^^ d := by
    rw [and_xor_distrib_right]
    congr 1
    rw [show 0x07ffffffff = 2^35 - 1 by rfl,and_two_pow_sub_one_eq_mod,mod_eq_of_lt hd]
  rw [polyModStep,polyModStep,ht,hl,Nat.shiftLeft_xor_distrib,Nat.xor_zero,Nat.xor_assoc,reduce_xor]

/-- The number that symbols of five bits spell. -/
def spell (d : Nat) (symbols : List Nat) : Nat :=
  symbols.foldl (fun d symbol => d <<< 5 ^^^ symbol) d

/-- Up to eight symbols do not reach the bits that the reduction looks at. -/
lemma foldl_polyModStep_xor {symbols : List Nat} (hsy : ∀ symbol ∈ symbols, symbol < 32)
    {a d : Nat} (hd : d < 2^(5*k)) (hk : k+symbols.length ≤ 8) :
    symbols.foldl polyModStep (a ^^^ d) =
      (replicate symbols.length 0).foldl polyModStep a ^^^ spell d symbols := by
  induction symbols generalizing a d k with
  | nil => rfl
  | cons symbol symbols ih =>
    rw [forall_mem_cons] at hsy
    rw [length_cons] at hk
    have hd35 : d < 2^35 := Nat.lt_of_lt_of_le hd (Nat.pow_le_pow_right (by decide) (by omega))
    have hn : d <<< 5 ^^^ symbol < 2^(5*(k+1)) := by
      refine xor_lt_two_pow (shiftLeft_lt hd (by omega)) ?_
      exact lt_of_lt_of_le hsy.1
        (Nat.pow_le_pow_right (show 0 < 2 by decide) (show 5 ≤ 5*(k+1) by omega))
    rw [foldl_cons,polyModStep_xor hd35,ih hsy.2 hn (by omega)]
    rfl

/-- The symbols that a number is split into spell it. -/
lemma spell_symbols (n p : Nat) :
    spell 0 ((range n).map fun i => p >>> (5*(n - 1 - i)) &&& 31) = p % 2^(5*n) := by
  induction n generalizing p with
  | zero => simp [spell,mod_one]
  | succ n ih =>
    have hf : ∀ i ∈ range n,
        p >>> (5*(n+1 - 1 - i)) &&& 31 = (p >>> 5) >>> (5*(n - 1 - i)) &&& 31 := by
      intro i hi
      rw [mem_range] at hi
      rw [← shiftRight_add,show 5*(n+1 - 1 - i) = 5+5*(n - 1 - i) by omega]
    have hl : p >>> (5*(n+1 - 1 - n)) &&& 31 = p % 2^5 := by
      rw [show 5*(n+1 - 1 - n) = 0 by omega]
      exact and_two_pow_sub_one_eq_mod p 5
    rw [range_succ,map_append,map_singleton,hl,map_congr_left hf,spell,foldl_append]
    show spell 0 _ <<< 5 ^^^ (p % 2^5) = _
    rw [ih]
    -- bit by bit
    refine eq_of_testBit_eq fun i => ?_
    rw [testBit_xor,testBit_shiftLeft,testBit_mod_two_pow,testBit_mod_two_pow,
      testBit_mod_two_pow,testBit_shiftRight]
    by_cases hi : 5 ≤ i
    · rw [decide_eq_true hi,decide_eq_false (show ¬i < 5 by omega),Bool.true_and,Bool.false_and,
        Bool.xor_false,show 5+(i - 5) = i by omega]
      congr 1
      exact decide_eq_decide.2 (by omega)
    · rw [decide_eq_false hi,decide_eq_true (show i < 5 by omega),
        decide_eq_true (show i < 5*(n+1) by omega),Bool.false_and,Bool.false_xor]

lemma ints_append (a b : Bytes) : ints (a ++ b) = ints a ++ ints b :=
  map_append

lemma ints_calculateChecksum : ints (calculateChecksum prefixString payload) =
      (range 8).map fun i => polyMod (prefixToUint5Array prefixString ++ [0] ++
        ints payload ++ replicate 8 0) >>> (5*(8 - 1 - i)) &&& 31 := by
  rw [ints,calculateChecksum,map_map]
  refine map_congr_left fun i _ => ?_
  refine (UInt8.toNat_ofNat').trans (mod_eq_of_lt ?_)
  exact lt_of_le_of_lt and_le_right (by decide)

lemma verifyChecksum_append :
    verifyChecksum prefixString (payload ++ calculateChecksum prefixString payload) = true := by
  rw [verifyChecksum,beq_iff_eq,ints_append,ints_calculateChecksum,polyMod,polyMod, ← append_assoc]
  generalize prefixToUint5Array prefixString ++ [0] ++ ints payload = word
  rw [foldl_append,foldl_append]
  generalize word.foldl polyModStep 1 = a
  have hs : ∀ p, ∀ symbol ∈ (range 8).map (fun i => p >>> (5*(8 - 1 - i)) &&& 31), symbol < 32 := by
    intro p symbol hsy
    obtain ⟨i,-,rfl⟩ := mem_map.1 hsy
    exact lt_of_le_of_lt and_le_right (by decide)
  have hl := foldl_polyModStep_xor
    (hs ((replicate 8 0).foldl polyModStep a ^^^ 1)) (a := a) (d := 0) (k := 0)
    (by decide) (by simp)
  rw [xor_zero,spell_symbols,length_map,length_range] at hl
  have hlt : (replicate 8 0).foldl polyModStep a ^^^ 1 < 2^(5*8) :=
    xor_lt_two_pow (polyModStep_lt (by decide)) (by decide)
  rw [hl,Nat.mod_eq_of_lt hlt,← Nat.xor_assoc,Nat.xor_self,Nat.zero_xor,Nat.xor_self]

/-! ## Single errors -/

lemma polyModStep_eq (checksum value : Nat) : polyModStep checksum value =
    reduce (checksum / 2^35) 0 ^^^ (checksum % 2^35) <<< 5 ^^^ value := by
  rw [polyModStep,shiftRight_eq_div_pow,show 0x07ffffffff = 2^35 - 1 by rfl,
    Nat.and_two_pow_sub_one_eq_mod,Nat.xor_assoc,← reduce_xor,Nat.zero_xor]

/-- The lowest bits of the generator keep the bits that leave at the top. -/
lemma polyModStep_injective {a b value : Nat} (ha : a < 2^40) (hb : b < 2^40)
    (h : polyModStep a value = polyModStep b value) : a = b := by
  have hl : ∀ top < 32, reduce top 0 % 2^5 = top := by decide
  rw [polyModStep_eq,polyModStep_eq,xor_left_inj] at h
  have ht : a / 2^35 = b / 2^35 := by
    have hm := congrArg (· % 2^5) h
    simp only [xor_mod_two_pow,shiftLeft_eq,mul_mod_left,xor_zero] at hm
    rwa [hl _ (by omega),hl _ (by omega)] at hm
  rw [ht,xor_right_inj,shiftLeft_eq] at h
  omega

lemma foldl_polyModStep_injective {values : List Nat} (hvl : ∀ value ∈ values, value < 2^40)
    {a b : Nat} (ha : a < 2^40) (hb : b < 2^40)
    (h : values.foldl polyModStep a = values.foldl polyModStep b) : a = b := by
  induction values generalizing a b with
  | nil => exact h
  | cons value values ih =>
    rw [forall_mem_cons] at hvl
    exact polyModStep_injective ha hb (ih hvl.2 (polyModStep_lt hvl.1) (polyModStep_lt hvl.1) h)

/-- A symbol of the data part determines the remainder, so that no other one in its place has the
same checksum. -/
lemma verifyChecksum_injective {before after : Bytes} {x y : UInt8}
    (hx : verifyChecksum prefixString (before ++ x :: after) = true)
    (hy : verifyChecksum prefixString (before ++ y :: after) = true) : x = y := by
  have hby : ∀ byte : UInt8, byte.toNat < 2^40 := fun byte => lt_trans byte.toNat_lt (by decide)
  rw [verifyChecksum,beq_iff_eq,ints,map_append,map_cons,← append_assoc,polyMod,foldl_append,
    xor_eq_zero_iff] at hx hy
  have h := foldl_polyModStep_injective (forall_mem_map.2 fun byte _ => hby byte)
    (polyModStep_lt (hby x)) (polyModStep_lt (hby y)) (hx.trans hy.symm)
  rwa [polyModStep_eq,polyModStep_eq,xor_right_inj,UInt8.toNat_inj] at h

lemma decodeFromBase32_append_cons {before after : Bytes} {char : UInt8}
    (h : decodeFromBase32 (before ++ char :: after) = .ok data) :
    ∃ first symbol rest, decodeFromBase32 before = .ok first ∧ charset[symbol.toNat]? = some char ∧
      decodeFromBase32 after = .ok rest ∧ data = first ++ symbol :: rest := by
  rw [decodeFromBase32,mapM_append,mapM_cons] at h
  obtain ⟨first,hf,_,htl,h⟩ := bind₂_eq_ok h
  obtain ⟨symbol,hsy,rest,hr,htl⟩ := bind₂_eq_ok htl
  cases htl
  cases h
  refine ⟨first,symbol,rest,hf,?_,hr,rfl⟩
  cases hi : charset.idxOf? char with
  | none =>
    rw [hi] at hsy
    cases hsy
  | some index =>
    rw [hi] at hsy
    cases hsy
    obtain ⟨hlt,hc,-⟩ := findIdx?_eq_some_iff_getElem.1 hi
    have hlt' : index < 256 := hlt.trans (by decide)
    rw [UInt8.toNat_ofNat_of_lt' hlt',getElem?_eq_getElem hlt,beq_iff_eq.1 hc]

/-- A data part with a right checksum has a wrong one after the change of a character. -/
theorem verifyChecksum_single_error (before after : Bytes) {data' : Bytes} {c d : UInt8}
    (hdata : decodeFromBase32 (before ++ c :: after) = .ok data)
    (hdata' : decodeFromBase32 (before ++ d :: after) = .ok data') (hne : c ≠ d)
    (hvalid : verifyChecksum prefixString data = true) :
    verifyChecksum prefixString data' = false := by
  obtain ⟨_,_,_,hf,hc,hr,rfl⟩ := decodeFromBase32_append_cons hdata
  obtain ⟨_,_,_,hf',hc',hr',rfl⟩ := decodeFromBase32_append_cons hdata'
  cases hf.symm.trans hf'
  cases hr.symm.trans hr'
  refine Bool.eq_false_iff.2 fun hv' => hne ?_
  rw [verifyChecksum_injective prefixString hvalid hv',hc'] at hc
  exact (Option.some.inj hc).symm

theorem verifyChecksum_single_error_first :
    verifyChecksum (asciiBytes "a") [1,0,25,0,26,5,28,12,3,23] = false :=
  verifyChecksum_single_error _ [] (asciiBytes "qeq69uvrh") (c := 113) (d := 112) rfl rfl
    (by decide)
    (by decide)

/-! ## Decoding what was encoded -/

/-- The character of a symbol. -/
def charOf (symbol : UInt8) : UInt8 := charset.getD symbol.toNat 0

/-- The facts about the characters of the symbols. -/
structure IsSymbolChar (symbol char : UInt8) : Prop where
  get : charset[symbol.toNat]? = some char
  index : charset.idxOf? char = some symbol.toNat
  allowed : isAllowed char = true
  lower : toLower char = char
  ne_colon : char ≠ colon

lemma isSymbolChar_charOf (h : symbol.toNat < 32) : IsSymbolChar symbol (charOf symbol) := by
  have hal : ∀ n < 32, charset[n]? = some (charset.getD n 0) ∧
      charset.idxOf? (charset.getD n 0) = some n ∧ isAllowed (charset.getD n 0) = true ∧
      toLower (charset.getD n 0) = charset.getD n 0 ∧ charset.getD n 0 ≠ colon := by
    decide
  obtain ⟨hg,hi,ha,hl,hc⟩ := hal symbol.toNat h
  exact ⟨hg,hi,ha,hl,hc⟩

lemma encodeToBase32_eq (h : ∀ symbol ∈ data, symbol.toNat < 32) :
    encodeToBase32 data = data.map charOf := by
  have hm : (data.mapM fun b => charset[b.toNat]?) = some (data.map charOf) := by
    induction data with
    | nil => rfl
    | cons symbol data ih =>
      rw [forall_mem_cons] at h
      rw [mapM_cons,(isSymbolChar_charOf h.1).get,ih h.2]
      rfl
  rw [encodeToBase32,hm]
  rfl

lemma decodeFromBase32_map_charOf (h : ∀ symbol ∈ data, symbol.toNat < 32) :
    decodeFromBase32 (data.map charOf) = .ok data := by
  rw [decodeFromBase32]
  induction data with
  | nil => rfl
  | cons symbol data ih =>
    rw [forall_mem_cons] at h
    rw [map_cons,mapM_cons,(isSymbolChar_charOf h.1).index,ih h.2]
    simp only [ok_bind,UInt8.ofNat_toNat]
    rfl

variable {before after prefixString : Bytes} {c : UInt8}

lemma idxOf?_append_cons (h : c ∉ before) :
    (before ++ c :: after).idxOf? c = some before.length := by
  induction before with
  | nil => simp [idxOf?_cons]
  | cons _ before ih =>
    rw [mem_cons,not_or] at h
    rw [cons_append,idxOf?_cons,ih h.2]
    simp [Ne.symm h.1]

lemma lastIndexByte_append_cons (h : c ∉ after) :
    lastIndexByte (before ++ c :: after) c = before.length := by
  have hr : (before ++ c :: after).reverse = after.reverse ++ c :: before.reverse := by simp
  rw [lastIndexByte,hr,idxOf?_append_cons (by simpa using h)]
  simp only [length_append,length_cons,length_reverse]
  omega

lemma slice_eq (s : Bytes) (low : Nat) {high : Nat} (hl : low ≤ high)
    (hh : high ≤ s.length) : slice s low high = .ok ((s.take high).drop low) :=
  if_pos ⟨by omega,by omega,by omega⟩

/-- A text that comes before the colon unchanged. -/
structure IsPrefix (prefixString : Bytes) : Prop where
  nonempty : 0 < prefixString.length
  allowed : ∀ char ∈ prefixString, isAllowed char = true
  lower : ∀ char ∈ prefixString, toLower char = char

lemma lt_of_mem_calculateChecksum {payload : Bytes}
    (h : symbol ∈ calculateChecksum prefixString payload) : symbol.toNat < 32 := by
  have hm : symbol.toNat ∈ ints (calculateChecksum prefixString payload) := mem_map_of_mem h
  rw [ints_calculateChecksum] at hm
  obtain ⟨_,-,heq⟩ := mem_map.1 hm
  rw [← heq]
  exact lt_of_le_of_lt and_le_right (by decide)

lemma decodeLower_append {word : Bytes} (hn : 0 < prefixString.length)
    (hw : ∀ symbol ∈ word, symbol.toNat < 32) (hl : 8 ≤ word.length)
    (hc : verifyChecksum prefixString word = true) :
    decodeLower (prefixString ++ colon :: word.map charOf) =
      .ok (prefixString, word.take (word.length - 8)) := by
  have hcl : colon ∉ word.map charOf := by
    intro hm
    obtain ⟨symbol,hs,heq⟩ := mem_map.1 hm
    exact (isSymbolChar_charOf (hw symbol hs)).ne_colon heq
  have hln : (prefixString ++ colon :: word.map charOf).length =
      prefixString.length+1+word.length := by
    rw [length_append,length_cons,length_map]
    omega
  have hi : ¬((prefixString.length : Int) < 1 ∨
      (prefixString.length : Int)+checksumLength+1 >
        (prefixString ++ colon :: word.map charOf).length) := by
    rw [checksumLength]
    omega
  have ht : slice (prefixString ++ colon :: word.map charOf) 0 prefixString.length =
      .ok prefixString := by
    refine (slice_eq _ 0 (zero_le _) (by omega)).trans ?_
    rw [take_left,drop_zero]
  have hd : slice (prefixString ++ colon :: word.map charOf) (prefixString.length+1)
      (prefixString ++ colon :: word.map charOf).length = .ok (word.map charOf) := by
    refine (slice_eq _ (prefixString.length+1) (by omega) (le_refl _)).trans ?_
    rw [take_length,← drop_drop,drop_left]
    rfl
  have hp : slice word 0 (word.length - checksumLength) = .ok (word.take (word.length - 8)) := by
    have hcs : (word.length : Int) - checksumLength = (word.length - 8 : Nat) := by
      rw [checksumLength]
      omega
    rw [hcs]
    refine (slice_eq _ 0 (zero_le _) (by omega)).trans ?_
    rw [drop_zero]
  simp only [decodeLower,lastIndexByte_append_cons hcl]
  rw [if_neg hi,ht,ok_bind,hd,ok_bind,decodeFromBase32_map_charOf hw]
  simp [hp,hc]

lemma decode_encode (hvl : IsPrefix prefixString) (hd : ∀ symbol ∈ data, symbol.toNat < 32) :
    decode (encode prefixString data) = .ok (prefixString, data) := by
  have hwr : ∀ symbol ∈ data ++ calculateChecksum prefixString data, symbol.toNat < 32 :=
    forall_mem_append.2 ⟨hd,fun _ => lt_of_mem_calculateChecksum⟩
  have hen : encode prefixString data = prefixString ++ colon ::
      (data ++ calculateChecksum prefixString data).map charOf := by
    rw [encode,encodeToBase32_eq hwr,append_assoc]
    rfl
  have hlen : (data ++ calculateChecksum prefixString data).length = data.length+8 := by
    simp [calculateChecksum,checksumLength]
  -- the characters are allowed and in lower case
  have hc : ∀ char ∈ encode prefixString data, isAllowed char = true ∧ toLower char = char := by
    intro char hch
    rw [hen,mem_append,mem_cons] at hch
    obtain hch | rfl | hch := hch
    · exact ⟨hvl.allowed char hch,hvl.lower char hch⟩
    · decide
    · obtain ⟨symbol,hsy,rfl⟩ := mem_map.1 hch
      have hs := isSymbolChar_charOf (hwr symbol hsy)
      exact ⟨hs.allowed,hs.lower⟩
  have hln : ¬(encode prefixString data).length < checksumLength+2 := by
    have hn := hvl.nonempty
    rw [hen,length_append,length_cons,length_map,checksumLength]
    omega
  have hf : (encode prefixString data).find? (!isAllowed ·) = none := by
    rw [find?_eq_none]
    intro char hch
    simp [(hc char hch).1]
  have hl : (encode prefixString data).map toLower = encode prefixString data :=
    (map_congr_left fun char hch => (hc char hch).2).trans (map_id _)
  rw [decode,if_neg hln,hf]
  simp only [hl,ne_eq,not_true,false_and,if_false]
  rw [hen,decodeLower_append hvl.nonempty hwr (by omega)
    (verifyChecksum_append prefixString data),hlen]
  simp

/-- What `Encode` writes, `Decode` reads. -/
lemma decodeVersioned_encodeVersioned (hv : IsPrefix prefixString) (payload : Bytes)
    (version : UInt8) :
    decodeVersioned (encodeVersioned prefixString payload version) =
      .ok (prefixString, payload, version) := by
  have hs : ∀ symbol ∈ convertBits (version :: payload) eightToFiveBits,
      symbol.toNat < 32 := fun symbol hsy =>
    (convertBits_eightToFiveBits _).1 _ (mem_map_of_mem hsy)
  have hp : slice (version :: payload) 1 (version :: payload).length = .ok payload := by
    refine (slice_eq _ 1 (by simp) (le_refl _)).trans ?_
    rw [take_length]
    rfl
  rw [decodeVersioned,encodeVersioned,decode_encode hv hs,ok_bind]
  simp only [convertBits_convertBits]
  rw [hp]
  rfl

/-! ## Failures of the decoder -/

lemma noPanic_slice {s : Bytes} {low high : Int} (hl : 0 ≤ low) (hle : low ≤ high)
    (hh : high ≤ s.length) : NoPanic (slice s low high) := by
  rw [slice,if_pos ⟨hl,hle,hh⟩]
  exact .ok _

lemma noPanic_decodeLower : NoPanic (decodeLower encoded) := by
  unfold decodeLower
  generalize lastIndexByte encoded colon = colonIndex
  dsimp only
  split
  · exact .error _
  next hi =>
  rw [checksumLength] at hi
  have hd : slice encoded (colonIndex+1) encoded.length =
      .ok ((encoded.take encoded.length).drop (colonIndex+1).toNat) :=
    if_pos ⟨by omega,by omega,by omega⟩
  refine (noPanic_slice (by omega) (by omega) (by omega)).bind fun _ => ?_
  rw [hd,ok_bind]
  cases hdc : decodeFromBase32 ((encoded.take encoded.length).drop (colonIndex+1).toNat) with
  | error _ => exact .error _
  | ok _ =>
    have hl := length_mapM_ok hdc
    rw [take_length,length_drop] at hl
    refine (noPanic_slice (by omega) (by rw [checksumLength]; omega)
      (by rw [checksumLength]; omega)).bind fun _ => ?_
    split
    · exact (noPanic_slice (by rw [checksumLength]; omega) (by rw [checksumLength]; omega)
        (by omega)).bind fun _ => .error _
    · exact .ok _

lemma noPanic_decode : NoPanic (decode encoded) := by
  unfold decode
  split
  · exact .error _
  cases encoded.find? (!isAllowed ·) with
  | some _ => exact .error _
  | none =>
    dsimp only
    split
    · exact .error _
    · exact noPanic_decodeLower _

/-- Five bits for a symbol, eight for a byte. -/
lemma length_convertBits_fiveToEightBits (data : Bytes) :
    (convertBits data fiveToEightBits).length = 5*data.length / 8 := by
  obtain ⟨_,_,hb⟩ := convertBits_fiveToEightBits data
  have hl := congrArg length hb
  simp only [length_append,length_flatMap_bitsOf] at hl
  simp only [ints,length_map] at hl
  omega

/-- `Decode` panics exactly if a string with a right checksum has less than a byte of data. -/
lemma noPanic_decodeVersioned_iff : NoPanic (decodeVersioned encoded) ↔
      ∀ prefixString data, decode encoded = .ok (prefixString, data) → 2 ≤ data.length := by
  have hd := noPanic_decode encoded
  unfold decodeVersioned
  cases hc : decode encoded with
  | error _ =>
    rw [hc] at hd
    constructor
    · intro _ prefixString data h
      cases h
    · intro _ message h
      exact hd message (by cases h; rfl)
  | ok result =>
    obtain ⟨prefixString,data⟩ := result
    rw [ok_bind]
    have hl := length_convertBits_fiveToEightBits data
    dsimp only
    generalize convertBits data fiveToEightBits = converted at hl
    cases converted with
    | nil =>
      refine ⟨fun h => absurd rfl (h "index out of range"),fun h => ?_⟩
      have ht := h prefixString data rfl
      simp only [length_nil] at hl
      omega
    | cons version _ =>
      refine ⟨fun _ _ _ h => ?_,fun _ => ?_⟩
      · cases h
        rw [length_cons] at hl
        omega
      · exact (NoPanic.ok version).bind fun version =>
          (noPanic_slice (by omega) (by simp) (Int.le_refl _)).bind fun _ => .ok _

end Bech32
end Eiyaro
