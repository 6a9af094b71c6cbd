import Eiyaro.Header.MergeDepth

/-!
# Required difficulty

`checkProofOfWork` and `validateDifficulty` of `processes/blockvalidator`, the difficulty manager
and `BigToCompact` of `util/difficulty`, for a header without trusted data. The levels above the
lowest and the block version are left out, and whether a header has the work that its target asks
for is arbitrary.

Bits are compared as integers, with a tolerance. For bits as `BigToCompact` returns them
(`IsNormal`) the tolerance raises the target by less than a third (`target_le_of_bits_le`). The
bits of genesis are required until the window is full, and those of the main network are negative.
-/

namespace Eiyaro
open List Nat
variable {n : Nat} {bits : UInt32} {x h : UInt32}

/-! ## The compact format -/

/-- `BigToCompact`. A byte length counts the bytes of the absolute value. -/
def bigToCompact (n : Int) : UInt32 :=
  if n = 0 then
    0
  else
    let exponent := n.natAbs.log2 / 8+1
    let word (m : Int) : Nat := min (m.natAbs % 2^64) (2^32 - 1)
    let mantissa : UInt32 :=
      if exponent ≤ 3 then UInt32.ofNat (word n <<< (8*(3 - exponent)))
      else UInt32.ofNat (word (n >>> (8*(exponent - 3))))
    let compact :=
      if mantissa &&& 0x00800000 ≠ 0 then UInt32.ofNat (exponent+1) <<< 24 ||| mantissa >>> 8
      else UInt32.ofNat exponent <<< 24 ||| mantissa
    if n < 0 then compact ||| 0x00800000 else compact

/-! ## The window of targets -/

structure DifficultyParams where
  disableDifficultyAdjustment : Bool
  /-- In milliseconds. -/
  targetTimePerBlock : Nat

structure DifficultyBlock where
  timeInMilliseconds : Int
  bits : UInt32

/-- The `blockWindow` of the difficulty manager, with the block of the lowest timestamp while
it is built. -/
structure TargetsWindow where
  blocks : List DifficultyBlock
  minTimestamp : Int
  maxTimestamp : Int
  minTimestampIndex : Nat
  minBlock : Option StoredBlock

/-- Whether a block becomes the one with the lowest timestamp. A first block with the highest
timestamp that there is would be compared with no block. -/
def isMinimal (window : TargetsWindow) (block : StoredBlock) (time : Int) : Except Failure Bool :=
  if time < window.minTimestamp then
    .ok true
  else if time = window.minTimestamp then
    match window.minBlock with
    | none => .error (.panic "invalid memory address or nil pointer dereference")
    | some minBlock =>
      .ok (lessData block.hash block.ghostdagData minBlock.hash minBlock.ghostdagData)
  else
    .ok false

/-- The loop over the blocks of the window. -/
def addToWindow (stores : HeaderStores) (window : TargetsWindow) (block : StoredBlock) :
    Except Failure TargetsWindow := do
  let record ← stores.record block.hash
  let time := record.header.timeInMilliseconds
  let isMin ← isMinimal window block time
  return {
    blocks := window.blocks ++ [⟨time,record.header.bits⟩]
    minTimestamp := if isMin then time else window.minTimestamp
    maxTimestamp := max time window.maxTimestamp
    minTimestampIndex := if isMin then window.blocks.length else window.minTimestampIndex
    minBlock := if isMin then some block else window.minBlock }

def targetsWindow (stores : HeaderStores) (pairs : List StoredBlock) :
    Except Failure TargetsWindow :=
  pairs.foldlM (addToWindow stores) ⟨[],2^63 - 1,0,0,none⟩

/-- The last block takes the place of the one that is removed. -/
def removeFromWindow (blocks : List DifficultyBlock) (n : Nat) : List DifficultyBlock :=
  match blocks.getLast? with
  | none => blocks
  | some last => (blocks.set n last).dropLast

def averageTarget (blocks : List DifficultyBlock) : Int :=
  (blocks.map fun block => compactToBig block.bits).sum / blocks.length

section
variable (cfg : HeaderConfig) (params : DifficultyParams)

def requiredDifficultyFromTargetsWindow (window : TargetsWindow) : Except Failure UInt32 :=
  if params.disableDifficultyAdjustment then
    .ok cfg.ghostdag.genesisBits
  else if window.blocks.length < 2 ∨ window.blocks.length < cfg.difficultyAdjustmentWindowSize then
    .ok cfg.ghostdag.genesisBits
  else if params.targetTimePerBlock = 0 then
    .error (.panic "division by zero")
  else
    let blocks := removeFromWindow window.blocks window.minTimestampIndex
    let interval := max ((window.maxTimestamp - window.minTimestamp).bmod (2^64)) 1
    let newTarget := averageTarget blocks*interval / params.targetTimePerBlock / blocks.length
    if newTarget > cfg.ghostdag.powMax then .ok (bigToCompact cfg.ghostdag.powMax)
    else .ok (bigToCompact newTarget)

/-- The difficulty that is required for a header. -/
def requiredDifficulty (stores : HeaderStores) (header : BlockHeader) : Except Failure UInt32 := do
  let data ← Eiyaro.ghostdag cfg.ghostdag stores.blocks header.directParents
  let pairs ← blockWindow cfg.ghostdag stores.blocks cfg.difficultyAdjustmentWindowSize data
  let window ← targetsWindow stores pairs
  let _ ← calculateDaaScoreAndAddedBlocks stores data pairs
  requiredDifficultyFromTargetsWindow cfg params window

def bitsTolerance : UInt32 := 10000

def validateDifficulty (stores : HeaderStores) (header : BlockHeader) : Except Failure Unit := do
  let expectedBits ← requiredDifficulty cfg params stores header
  let maxBits := expectedBits+bitsTolerance
  if header.bits > maxBits then
    .error (.ruleError .errUnexpectedDifficulty ("block difficulty of " ++ toString header.bits ++
      " is ahead of the expected difficulty " ++ toString expectedBits))
  else
    .ok ()

end

/-- `checkProofOfWork`. -/
def checkProofOfWork (cfg : GhostdagConfig) (skipPoW : Bool) (hasWork : BlockHeader → Bool)
    (header : BlockHeader) : Except Failure Unit := do
  checkTarget cfg header
  if !skipPoW && !hasWork header then
    .error (.ruleError .errInvalidPoW "block has invalid PoW")
  else
    .ok ()

/-! ## The order of the compact format -/

section
variable (bits)

def compactMantissa : Nat := bits.toNat % 2^23

def compactExponent : Nat := bits.toNat / 2^24

def compactSign : Nat := bits.toNat / 2^23 % 2

/-- The number without its sign. -/
def compactMagnitude : Nat :=
  if compactExponent bits ≤ 3 then compactMantissa bits / 256^(3 - compactExponent bits)
  else compactMantissa bits*256^(compactExponent bits - 3)

lemma toNat_eq_fields : bits.toNat = compactExponent bits*2^24+compactSign bits*2^23 +
    compactMantissa bits := by
  rw [compactExponent,compactSign,compactMantissa]
  omega

lemma and_signBit_eq_zero_iff : bits &&& 0x00800000 = 0 ↔ compactSign bits = 0 := by
  rw [← UInt32.toNat_inj]
  show bits.toNat &&& 2^23 = 0 ↔ _
  rw [and_two_pow,testBit_eq_decide_div_mod_eq,compactSign]
  simp

lemma compactToBig_eq : compactToBig bits = if compactSign bits = 0 then
    (compactMagnitude bits : Int) else -compactMagnitude bits := by
  have hmn : (bits &&& 0x007fffff).toNat = compactMantissa bits := by
    exact and_two_pow_sub_one_eq_mod bits.toNat 23
  have he : (bits >>> 24).toNat = compactExponent bits := by
    exact shiftRight_eq_div_pow bits.toNat 24
  have hs := and_signBit_eq_zero_iff bits
  have hm : (if (bits >>> 24).toNat ≤ 3 then
        (bits &&& 0x007fffff).toNat >>> (8*(3 - (bits >>> 24).toNat))
      else (bits &&& 0x007fffff).toNat <<< (8*((bits >>> 24).toNat - 3))) =
      compactMagnitude bits := by
    rw [hmn,he,compactMagnitude,Nat.shiftRight_eq_div_pow,Nat.shiftLeft_eq,Nat.pow_mul,Nat.pow_mul]
  rw [compactToBig]
  simp only [hm]
  by_cases h : compactSign bits = 0
  · rw [if_pos h,if_neg (by simpa using hs.2 h)]
  · rw [if_neg h,if_pos (fun h0 => h (hs.1 h0))]

/-- Bits as `BigToCompact` returns them for a positive number: not negative, with the shortest
mantissa that has all digits of a small number. -/
@[mk_iff]
structure IsNormal : Prop where
  sign : compactSign bits = 0
  mantissa : 2^15 ≤ compactMantissa bits
  exact : compactMantissa bits % 256^(3 - compactExponent bits) = 0

end

instance (bits : UInt32) : Decidable (IsNormal bits) :=
  decidable_of_iff' _ (isNormal_iff bits)

/-- Small numbers lose the digits after the point. -/
lemma compactMagnitude_le (bits : UInt32) :
    compactMagnitude bits*256^3 ≤ compactMantissa bits*256^compactExponent bits := by
  rw [compactMagnitude]
  split
  · next h =>
    rw [← Nat.sub_add_cancel h,Nat.pow_add,← Nat.mul_assoc,Nat.add_sub_cancel]
    exact mul_le_mul_right _ (div_mul_le_self _ _)
  · rw [Nat.mul_assoc,← Nat.pow_add,Nat.sub_add_cancel (by omega)]

lemma IsNormal.magnitude (h : IsNormal bits) :
    compactMagnitude bits*256^3 = compactMantissa bits*256^compactExponent bits := by
  rw [compactMagnitude]
  split
  · next hle =>
    have hd : 256^(3 - compactExponent bits) ∣ compactMantissa bits := dvd_of_mod_eq_zero h.exact
    rw [← Nat.sub_add_cancel hle,Nat.pow_add,← Nat.mul_assoc,Nat.add_sub_cancel,
      Nat.div_mul_cancel hd]
  · rw [Nat.mul_assoc,← Nat.pow_add,Nat.sub_add_cancel (by omega)]

/-- A mantissa with a lower exponent is below every normal one, and with the same exponent the
tolerance is at most `10000 / 32768` of the mantissa. -/
lemma IsNormal.mantissa_mul_le (hx : IsNormal x) (hs : compactSign h = 0)
    (hle : h.toNat ≤ x.toNat+10000) :
    32768*(compactMantissa h*256^compactExponent h) ≤
      42768*(compactMantissa x*256^compactExponent x) := by
  have hxb := toNat_eq_fields x
  have hh := toNat_eq_fields h
  have hxs := hx.sign
  have hxm := hx.mantissa
  have hmx : compactMantissa x < 2^23 := mod_lt _ (by decide)
  have hmh : compactMantissa h < 2^23 := mod_lt _ (by decide)
  obtain heq | _ : compactExponent h = compactExponent x ∨
      compactExponent h < compactExponent x := by omega
  · have hm : 32768*compactMantissa h ≤ 42768*compactMantissa x := by omega
    rw [heq,← mul_assoc,← mul_assoc]
    exact mul_le_mul_right _ hm
  · obtain ⟨e,he⟩ : ∃ e, compactExponent x = e+1 := ⟨compactExponent x - 1,by omega⟩
    have hp : 256^compactExponent h ≤ 256^e := Nat.pow_le_pow_right (by decide) (by omega)
    calc 32768*(compactMantissa h*256^compactExponent h) ≤ 32768*(2^23*256^e) :=
          Nat.mul_le_mul_left _ (Nat.mul_le_mul (Nat.le_of_lt hmh) hp)
      _ = 32768*(2^15*256^compactExponent x) := by
          rw [he]
          ring
      _ ≤ 42768*(compactMantissa x*256^compactExponent x) :=
          Nat.mul_le_mul (by decide) (Nat.mul_le_mul_right _ hxm)

/-- Bits that are at most by the tolerance above normal ones, or above zero. -/
lemma target_le_of_bits_le (hx : IsNormal x ∨ x = 0)
    (hle : h.toNat ≤ x.toNat+10000) (hp : 0 < compactToBig h) :
    32768*compactToBig h ≤ 42768*compactToBig x := by
  have hs : compactSign h = 0 := by
    by_contra hs
    rw [compactToBig_eq] at hp
    omega
  obtain hx | rfl := hx
  · have hml := hx.mantissa_mul_le hs hle
    have hm := compactMagnitude_le h
    rw [compactToBig_eq,compactToBig_eq,if_pos hx.sign]
    have hn : 32768*compactMagnitude h*256^3 ≤ 42768*compactMagnitude x*256^3 := by
      calc 32768*compactMagnitude h*256^3 = 32768*(compactMagnitude h*256^3) := mul_assoc _ _ _
        _ ≤ 32768*(compactMantissa h*256^compactExponent h) := mul_le_mul_left _ hm
        _ ≤ 42768*(compactMantissa x*256^compactExponent x) := hml
        _ = 42768*compactMagnitude x*256^3 := by rw [← hx.magnitude,mul_assoc]
    omega
  · -- bits up to the tolerance are a fraction of one
    have hsm : h.toNat ≤ 10000 := by simpa using hle
    have he : compactExponent h = 0 := by
      rw [compactExponent]
      omega
    have hz : compactMagnitude h = 0 := by
      have hlt : compactMantissa h < 2^23 := mod_lt _ (by decide)
      rw [compactMagnitude,he]
      simp only [zero_le,if_true]
      omega
    rw [compactToBig_eq] at hp
    omega

/-! ## Bits of positive numbers are normal -/

/-- Normal bits for the highest such number that is at most `n`. -/
structure RoundsDown (bits : UInt32) (n : Nat) : Prop extends IsNormal bits where
  le : compactMantissa bits*256^compactExponent bits ≤ n*256^3
  lt : n*256^3 < (compactMantissa bits+1)*256^compactExponent bits

lemma roundsDown_of_fields {e m : Nat} (hb : bits.toNat = e*2^24+m) (hl : 2^15 ≤ m)
    (hh : m < 2^23) (he : m % 256^(3 - e) = 0) (hle : m*256^e ≤ n*256^3)
    (hlt : n*256^3 < (m+1)*256^e) : RoundsDown bits n := by
  have hex : compactExponent bits = e := by
    rw [compactExponent]
    omega
  have hm : compactMantissa bits = m := by
    rw [compactMantissa]
    omega
  subst hex hm
  refine ⟨⟨?_,hl,he⟩,hle,hlt⟩
  rw [compactSign]
  omega

lemma toNat_pack {e : Nat} (he : e < 256) {mantissa : UInt32} (hm : mantissa.toNat < 2^24) :
    (UInt32.ofNat e <<< 24 ||| mantissa).toNat = e*2^24+mantissa.toNat := by
  have hs : (UInt32.ofNat e <<< 24).toNat = e <<< 24 := by
    have ho : (UInt32.ofNat e).toNat = e := by
      rw [UInt32.toNat_ofNat']
      omega
    have hlt : e <<< 24 < 2^32 := by
      omega
    rw [UInt32.toNat_shiftLeft,ho]
    exact mod_eq_of_lt hlt
  rw [UInt32.toNat_or,hs,← shiftLeft_add_eq_or_of_lt hm,shiftLeft_eq]

/-- The number of bytes of a positive number. -/
lemma byteLength_spec (hn : n ≠ 0) : 256^(n.log2 / 8) ≤ n ∧ n < 256^(n.log2 / 8+1) := by
  have hl : 2^n.log2 ≤ n := log2_self_le hn
  have hh : n < 2^(n.log2+1) := lt_log2_self
  have hp : ∀ e, 256^e = 2^(8*e) := fun e => by rw [Nat.pow_mul]
  rw [hp,hp]
  exact ⟨Nat.le_trans (Nat.pow_le_pow_right (by decide) (by omega)) hl,
    Nat.lt_of_lt_of_le hh (Nat.pow_le_pow_right (by decide) (by omega))⟩

/-- The three highest bytes of a number, or all of them and zeros. -/
def leadingBytes (n e : Nat) : Nat :=
  if e ≤ 3 then n*256^(3 - e) else n / 256^(e - 3)

lemma leadingBytes_bounds {e : Nat} (hl : 256^e ≤ n) (hh : n < 256^(e+1)) :
    256^2 ≤ leadingBytes n (e+1) ∧ leadingBytes n (e+1) < 256^3 := by
  rw [leadingBytes]
  split
  · constructor
    · calc 256^2 = 256^e*256^(3 - (e+1)) := by
            rw [← pow_add,show e+(3 - (e+1)) = 2 by omega]
        _ ≤ n*256^(3 - (e+1)) := mul_le_mul_right _ hl
    · calc n*256^(3 - (e+1)) < 256^(e+1)*256^(3 - (e+1)) :=
            Nat.mul_lt_mul_of_pos_right hh (Nat.pow_pos (by decide))
        _ = 256^3 := by rw [← pow_add,show e+1+(3 - (e+1)) = 3 by omega]
  · have hp : 0 < 256^(e+1 - 3) := Nat.pow_pos (by decide)
    constructor
    · rw [le_div_iff_mul_le hp,← pow_add,show 2+(e+1 - 3) = e by omega]
      exact hl
    · rw [div_lt_iff_lt_mul hp,← pow_add,show 3+(e+1 - 3) = e+1 by omega]
      exact hh

lemma leadingBytes_mul (n e : Nat) : leadingBytes n e*256^e ≤ n*256^3 ∧
    n*256^3 < (leadingBytes n e+1)*256^e := by
  rw [leadingBytes]
  split
  · next he =>
    have hex : n*256^(3 - e)*256^e = n*256^3 := by
      rw [Nat.mul_assoc,← Nat.pow_add,Nat.sub_add_cancel he]
    rw [succ_mul,hex]
    exact ⟨Nat.le_refl _,Nat.lt_add_of_pos_right (Nat.pow_pos (by decide))⟩
  · have hp : 256^e = 256^(e - 3)*256^3 := by
      rw [← Nat.pow_add,Nat.sub_add_cancel (by omega)]
    rw [hp,← mul_assoc,← mul_assoc]
    exact ⟨mul_le_mul_right _ (div_mul_le_self _ _),mul_lt_mul_of_pos_right
      (Nat.lt_mul_of_div_lt (Nat.lt_succ_self _) (Nat.pow_pos (by decide))) (by decide)⟩

/-- The mantissa before it is moved out of the sign bit. -/
lemma toNat_mantissa (hn : n ≠ 0) :
    (if n.log2 / 8+1 ≤ 3 then
        UInt32.ofNat (min ((n : Int).natAbs % 2^64) (2^32 - 1) <<< (8*(3 - (n.log2 / 8+1))))
      else UInt32.ofNat (min (((n : Int) >>> (8*(n.log2 / 8+1 - 3))).natAbs % 2^64)
        (2^32 - 1))).toNat = leadingBytes n (n.log2 / 8+1) := by
  obtain ⟨hl,hh⟩ := byteLength_spec hn
  have hbn := (leadingBytes_bounds hl hh).2
  have ho : ∀ m < 256^3, (UInt32.ofNat m).toNat = m := by
    intro m hm
    exact mod_eq_of_lt (lt_trans hm (by decide))
  rw [leadingBytes] at hbn ⊢
  split
  · next he =>
    rw [if_pos he] at hbn
    have hsm : n < 256^3 := Nat.lt_of_lt_of_le hh (Nat.pow_le_pow_right (by decide) he)
    have hwr : min ((n : Int).natAbs % 2^64) (2^32 - 1) = n := by
      omega
    have hp : n <<< (8*(3 - (n.log2 / 8+1))) = n*256^(3 - (n.log2 / 8+1)) := by
      rw [Nat.shiftLeft_eq,Nat.pow_mul]
    rw [hwr,hp,ho _ hbn]
  · next he =>
    rw [if_neg he] at hbn
    have hs : ((n : Int) >>> (8*(n.log2 / 8+1 - 3))).natAbs = n / 256^(n.log2 / 8+1 - 3) := by
      show (n >>> (8*(n.log2 / 8+1 - 3)) : Nat) = _
      rw [Nat.shiftRight_eq_div_pow,Nat.pow_mul]
    have hwr : min (n / 256^(n.log2 / 8+1 - 3) % 2^64) (2^32 - 1) = n / 256^(n.log2 / 8+1 - 3) := by
      omega
    rw [hs,hwr,ho _ hbn]

lemma roundsDown_bigToCompact {n : Int} (hps : 0 < n) (hlt : n < 2^256) :
    RoundsDown (bigToCompact n) n.toNat := by
  obtain ⟨m,rfl⟩ : ∃ m : Nat, n = m := ⟨n.toNat,by omega⟩
  have hm : m ≠ 0 := by omega
  have he : m.log2 / 8+1 ≤ 32 := by
    have hlg : m.log2 < 256 := (log2_lt hm).2 (by exact_mod_cast hlt)
    omega
  obtain ⟨hl,hhg⟩ := byteLength_spec hm
  obtain ⟨_,_⟩ := leadingBytes_bounds hl hhg
  obtain ⟨hle,hgt⟩ := leadingBytes_mul m _
  have hman := toNat_mantissa hm
  rw [bigToCompact]
  rw [if_neg (by omega)]
  simp only [Int.natAbs_natCast] at hman ⊢
  rw [if_neg (by omega)]
  generalize (if m.log2 / 8+1 ≤ 3 then
      UInt32.ofNat (min (m % 2^64) (2^32 - 1) <<< (8*(3 - (m.log2 / 8+1))))
    else UInt32.ofNat (min (((m : Int) >>> (8*(m.log2 / 8+1 - 3))).natAbs % 2^64)
      (2^32 - 1))) = mantissa at hman ⊢
  split
  · next hb =>
    -- the highest byte would set the sign bit
    have hh : 2^23 ≤ leadingBytes m (m.log2 / 8+1) := by
      rw [ne_eq,and_signBit_eq_zero_iff,compactSign] at hb
      omega
    have hp : 256^(m.log2 / 8+1+1) = 256*256^(m.log2 / 8+1) := pow_succ'
    have hs : (mantissa >>> 8).toNat = leadingBytes m (m.log2 / 8+1) / 256 := by
      rw [UInt32.toNat_shiftRight,hman]
      exact shiftRight_eq_div_pow _ 8
    refine roundsDown_of_fields (e := m.log2 / 8+1+1) (toNat_pack (by omega) (by omega))
      (by omega) (by omega) ?_ ?_ ?_
    · rw [hs,leadingBytes]
      obtain hz | hps : m.log2 / 8 = 0 ∨ 1 ≤ m.log2 / 8 := by omega
      · rw [hz]
        simp only [zero_add,reduceLeDiff,if_true,reduceSub]
        omega
      · rw [show 3 - (m.log2 / 8+1+1) = 0 by omega,pow_zero,mod_one]
    · rw [hs,hp,← mul_assoc]
      exact (mul_le_mul_right _ (div_mul_le_self _ _)).trans hle
    · rw [hp,← mul_assoc]
      exact hgt.trans_le (mul_le_mul_right _ (by omega))
  · next hb =>
    have hh : leadingBytes m (m.log2 / 8+1) < 2^23 := by
      rw [ne_eq,and_signBit_eq_zero_iff,compactSign] at hb
      omega
    refine roundsDown_of_fields (e := m.log2 / 8+1) (toNat_pack (by omega) (by omega)) (by omega)
      (by omega) ?_ (hman ▸ hle) (hman ▸ hgt)
    rw [hman,leadingBytes]
    split
    · exact mul_mod_left _ _
    · rw [show 3 - (m.log2 / 8+1) = 0 by omega,pow_zero,mod_one]

lemma IsNormal.target_pos (h : IsNormal bits) : 0 < compactToBig bits := by
  have hm := h.magnitude
  have hp : 0 < compactMantissa bits*256^compactExponent bits :=
    Nat.mul_pos (Nat.lt_of_lt_of_le (by decide) h.mantissa) (Nat.pow_pos (by decide))
  rw [compactToBig_eq,if_pos h.sign]
  omega

/-- The last digits are lost, which are less than `1 / 32768` of the number. -/
lemma RoundsDown.target_bounds (h : RoundsDown bits n) :
    compactToBig bits ≤ n ∧ n - n / 32768 - 1 < compactToBig bits := by
  have hm := h.magnitude
  have hle := h.le
  have hlt := h.lt
  have hmn := mul_le_mul_right (256^compactExponent bits) h.mantissa
  rw [succ_mul] at hlt
  rw [compactToBig_eq,if_pos h.sign]
  omega

/-- Normal bits are ordered as their numbers, also where only a number between them is known. -/
lemma IsNormal.le_of_lt (hx : IsNormal x) (hlt : compactMantissa x*256^compactExponent x <
      (compactMantissa h+1)*256^compactExponent h) : x ≤ h := by
  have hxb := toNat_eq_fields x
  have hh := toNat_eq_fields h
  rw [hx.sign] at hxb
  have hmx : compactMantissa x < 2^23 := mod_lt _ (by decide)
  have hmh : compactMantissa h < 2^23 := mod_lt _ (by decide)
  rw [UInt32.le_iff_toNat_le]
  obtain he | he | he := lt_trichotomy (compactExponent x) (compactExponent h)
  · omega
  · rw [he] at hlt
    have hm := Nat.lt_of_mul_lt_mul_right hlt
    omega
  · -- a higher exponent gives a higher number
    have hle : (compactMantissa h+1)*256^compactExponent h ≤
        compactMantissa x*256^compactExponent x :=
      calc (compactMantissa h+1)*256^compactExponent h ≤
            (compactMantissa x*256)*256^compactExponent h :=
          Nat.mul_le_mul_right _ (by have := hx.mantissa; omega)
        _ = compactMantissa x*256^(compactExponent h+1) := by
          rw [Nat.mul_assoc,Nat.pow_succ']
        _ ≤ compactMantissa x*256^compactExponent x :=
          Nat.mul_le_mul_left _ (Nat.pow_le_pow_right (by decide) he)
    exact absurd hlt (Nat.not_lt.2 hle)

lemma RoundsDown.mono {m : Nat} (hx : RoundsDown x m) (hh : RoundsDown h n) (hle : m ≤ n) : x ≤ h :=
  hx.le_of_lt ((hx.le.trans (mul_le_mul_right _ hle)).trans_lt hh.lt)

/-- Rounding the number of the bits changes nothing. -/
lemma bigToCompact_compactToBig (h : RoundsDown bits n) (hn : n < 2^256) :
    bigToCompact (compactToBig bits) = bits := by
  have hle := h.target_bounds.1
  have hag := roundsDown_bigToCompact h.target_pos (by omega)
  have hm := h.magnitude
  have ht : (compactToBig bits).toNat = compactMagnitude bits := by
    rw [compactToBig_eq,if_pos h.sign]
    rfl
  rw [ht] at hag
  refine UInt32.le_antisymm (hag.le_of_lt ?_) (h.le_of_lt ?_)
  · rw [succ_mul,← hm]
    exact hag.le.trans_lt (Nat.lt_add_of_pos_right (Nat.pow_pos (by decide)))
  · rw [← hm]
    exact hag.lt

/-- The bits of `0` have less work than those of `1`. -/
theorem calcWork_of_zero_target : calcWork (bigToCompact 0) < calcWork (bigToCompact 1) := by
  decide

/-- Compact numbers are ordered as the numbers that they are made of, are at most by the last
digits below them and stay what they are, and lower targets have more work. -/
theorem bigToCompact_laws {m n : Int} (hm : 0 ≤ m) (hle : m ≤ n) (hlt : n < 2^256) :
    bigToCompact m ≤ bigToCompact n ∧ compactToBig (bigToCompact n) ≤ n ∧
      n - n / 32768 - 1 < compactToBig (bigToCompact n) ∧
      bigToCompact (compactToBig (bigToCompact n)) = bigToCompact n ∧
      ∀ x h, 0 < compactToBig x → compactToBig x ≤ compactToBig h → calcWork h ≤ calcWork x := by
  have hw : ∀ x h, 0 < compactToBig x → compactToBig x ≤ compactToBig h →
      calcWork h ≤ calcWork x := by
    intro x h hp hle
    rw [calcWork,calcWork,if_neg (by omega),if_neg (by omega)]
    exact div_le_div_left (by omega) (succ_pos _)
  obtain rfl | hn := Int.le_iff_lt_or_eq.1 (hm.trans hle) |>.symm
  · obtain rfl : m = 0 := by omega
    exact ⟨UInt32.le_refl _,by decide,by decide,by decide,hw⟩
  · have hrn := roundsDown_bigToCompact hn hlt
    have hbn := hrn.target_bounds
    rw [Int.toNat_of_nonneg hn.le] at hbn
    refine ⟨?_,hbn.1,hbn.2,bigToCompact_compactToBig hrn (by omega),hw⟩
    obtain rfl | hp := Int.le_iff_lt_or_eq.1 hm |>.symm
    · exact UInt32.zero_le
    · exact (roundsDown_bigToCompact hp (by omega)).mono hrn (by omega)

theorem bigToCompact_laws_of_testnet :
    bigToCompact (compactToBig (bigToCompact (2^255 - 1))) = bigToCompact (2^255 - 1) :=
  (bigToCompact_laws (m := 0) (n := 2^255 - 1) (by decide) (by decide) (by decide)).2.2.2.1

/-! ## The required difficulty -/

variable {cfg : HeaderConfig} {params : DifficultyParams} {stores : HeaderStores}
  {blocks : List DifficultyBlock} {window : TargetsWindow} {header : BlockHeader}

/-! ### Genesis is in no window -/

section
variable {gcfg : GhostdagConfig} {chain older : BlockStores} {data : BlockGHOSTDAGData}
  {hashes : List DomainHash} {heap heap' : List StoredBlock}

lemma mem_of_mem_tryPush {node b : StoredBlock}
    (hb : b ∈ (tryPushWithGHOSTDAGData n heap node).1) : b = node ∨ b ∈ heap := by
  cases heap with
  | nil => exact .inl (mem_singleton.1 hb)
  | cons minNode rest =>
    rw [tryPushWithGHOSTDAGData] at hb
    split at hb
    · split at hb
      · exact .inr hb
      · exact ((mem_orderedInsert _).1 hb).imp_right (mem_cons_of_mem _)
    · rw [heapPush,mem_orderedInsert] at hb
      exact hb

lemma forall_pushUntilRejected {P : DomainHash → Prop} (hs : ∀ hash ∈ hashes, P hash)
    (hh : ∀ b ∈ heap, P b.hash) (h : pushUntilRejected chain n hashes heap = .ok heap') :
    ∀ b ∈ heap', P b.hash := by
  induction hashes generalizing heap with
  | nil =>
    cases h
    exact hh
  | cons hash hashes ih =>
    rw [forall_mem_cons] at hs
    obtain ⟨block,hb,h⟩ := bind_eq_ok h
    have hp : ∀ b ∈ (tryPushWithGHOSTDAGData n heap block).1, P b.hash := by
      intro b hm
      obtain rfl | hm := mem_of_mem_tryPush hm
      · exact (BlockStores.block_eq_ok hb).2 ▸ hs.1
      · exact hh b hm
    rcases hpu : tryPushWithGHOSTDAGData n heap block with ⟨pushed,added⟩
    rw [hpu] at h hp
    cases added with
    | true => exact ih hs.2 hp h
    | false =>
      cases h
      exact hp

/-- Below the selected parent a block merges no genesis. -/
def MergesNoGenesis (gcfg : GhostdagConfig) (data : BlockGHOSTDAGData) : Prop :=
  ∀ x, x ∈ data.mergeSetBlues.tail ∨ x ∈ data.mergeSetReds → x ≠ gcfg.genesisHash

lemma Merge.mergesNoGenesis {parents : List DomainHash} {selected : StoredBlock}
    {mergeSet : List StoredBlock} (hmr : Merge chain parents selected mergeSet)
    (hst : Shaped gcfg chain) (hpa : CheckedParents chain parents)
    (hd : MergedData chain selected mergeSet data) : MergesNoGenesis gcfg data := by
  obtain ⟨_,hb,hbs⟩ := hd.blues
  obtain ⟨_,hr,hrs⟩ := hd.reds
  rintro x (hx | hx)
  · rw [hb,tail_cons] at hx
    exact (hmr.ne_of_mem hst hpa (map_subset _ hbs.subset hx)).1
  · rw [hr] at hx
    exact (hmr.ne_of_mem hst hpa (map_subset _ hrs.subset hx)).1

lemma Shaped.mergesNoGenesis (hst : Shaped gcfg chain) {block : StoredBlock} (hb : block ∈ chain) :
    MergesNoGenesis gcfg block.ghostdagData := by
  obtain hb | ⟨_,older,rfl,hsh,hol⟩ := hst.init_or_split hb
  · -- the first two blocks merge nothing
    rintro x hx
    obtain rfl | rfl := mem_initStores.1 hb <;> simp at hx
  · obtain ⟨_,_,hmr,hd⟩ := hsh.merged
    exact hmr.mergesNoGenesis hol hsh.parents hd

lemma walkWindow_ne_genesis (hst : Shaped gcfg chain) (hol : ∀ b ∈ older, b ∈ chain)
    (hd : MergesNoGenesis gcfg data) (hh : ∀ b ∈ heap, b.hash ≠ gcfg.genesisHash)
    (h : walkWindow gcfg chain n older data heap = .ok heap') :
    ∀ b ∈ heap', b.hash ≠ gcfg.genesisHash := by
  induction older generalizing data heap with
  | nil =>
    rw [walkWindow] at h
    split at h
    · cases h
      exact hh
    · cases h
  | cons next older ih =>
    rw [forall_mem_cons] at hol
    rw [walkWindow] at h
    split at h
    · cases h
      exact hh
    · next hng =>
      split at h
      · next hsp =>
        have hne : next.hash ≠ gcfg.genesisHash := fun he => hng (he ▸ hsp)
        have hp : ∀ b ∈ (tryPushWithGHOSTDAGData n heap next).1, b.hash ≠ gcfg.genesisHash := by
          intro b hb
          obtain rfl | hb := mem_of_mem_tryPush hb
          · exact hne
          · exact hh b hb
        obtain ⟨⟨pushed,done⟩,ht,h⟩ := bind_eq_ok h
        have hps : ∀ b ∈ pushed, b.hash ≠ gcfg.genesisHash := by
          rw [tryPushMergeSet] at ht
          rcases hpu : tryPushWithGHOSTDAGData n heap next with ⟨first,added⟩
          rw [hpu] at ht hp
          cases added with
          | true =>
            obtain ⟨_,hbl,_,hrd,ht⟩ := bind₂_eq_ok ht
            cases ht
            have hbl := forall_pushUntilRejected
              (fun x hx => hd x (.inl (mem_reverse.1 hx))) hp hbl
            exact forall_pushUntilRejected (fun x hx => hd x (.inr (mem_reverse.1 hx))) hbl hrd
          | false =>
            cases ht
            exact hp
        cases done with
        | true =>
          cases h
          exact hps
        | false => exact ih hol.2 (hst.mergesNoGenesis hol.1) hps h
      · exact ih hol.2 hd hh h

end

/-- All stored headers but genesis have positive targets. -/
def TargetsPositive (cfg : HeaderConfig) (stores : HeaderStores) : Prop :=
  ∀ hash record, hash ≠ cfg.ghostdag.genesisHash → stores.records.get hash = some record →
    0 < compactToBig record.header.bits

lemma addToWindow_blocks {window' : TargetsWindow} {block : StoredBlock}
    (hst : TargetsPositive cfg stores) (hb : block.hash ≠ cfg.ghostdag.genesisHash)
    (h : addToWindow stores window block = .ok window')
    (hw : ∀ b ∈ window.blocks, 0 < compactToBig b.bits) :
    window'.blocks.length = window.blocks.length+1 ∧
      ∀ b ∈ window'.blocks, 0 < compactToBig b.bits := by
  obtain ⟨record,hr,_,-,h⟩ := bind₂_eq_ok h
  cases h
  refine ⟨length_append,fun b hm => ?_⟩
  obtain hm | hm := mem_append.1 hm
  · exact hw b hm
  · rw [mem_singleton.1 hm]
    rw [HeaderStores.record] at hr
    split at hr
    · next found hf =>
      cases hr
      exact hst _ _ hb hf
    · cases hr

lemma targetsWindow_blocks {pairs : List StoredBlock} (hst : TargetsPositive cfg stores)
    (hps : ∀ p ∈ pairs, p.hash ≠ cfg.ghostdag.genesisHash)
    (h : targetsWindow stores pairs = .ok window) :
    window.blocks.length = pairs.length ∧ ∀ b ∈ window.blocks, 0 < compactToBig b.bits := by
  have hsr : ∀ start : TargetsWindow, pairs.foldlM (addToWindow stores) start = .ok window →
      (∀ b ∈ start.blocks, 0 < compactToBig b.bits) →
      window.blocks.length = start.blocks.length+pairs.length ∧
        ∀ b ∈ window.blocks, 0 < compactToBig b.bits := by
    intro start h
    revert hps
    refine foldlM_rec h (fun _ hb => ⟨rfl,hb⟩) fun pair pairs start _ hn _ ih hps hb => ?_
    rw [forall_mem_cons] at hps
    obtain ⟨hl,hb⟩ := addToWindow_blocks hst hps.1 hn hb
    obtain ⟨hls,hb⟩ := ih hps.2 hb
    rw [length_cons]
    exact ⟨by omega,hb⟩
  have hw := hsr _ h (by simp)
  rwa [length_nil,zero_add] at hw

lemma mem_of_mem_removeFromWindow
    {b : DifficultyBlock} (h : b ∈ removeFromWindow blocks n) : b ∈ blocks := by
  rw [removeFromWindow] at h
  split at h
  · exact h
  · next last hl =>
    obtain hb | rfl := mem_or_eq_of_mem_set (dropLast_subset _ h)
    · exact hb
    · exact mem_of_getLast? hl

lemma averageTarget_nonneg
    (h : ∀ b ∈ blocks, 0 < compactToBig b.bits) : 0 ≤ averageTarget blocks := by
  refine Int.ediv_nonneg (sum_nonneg fun _ ht => ?_) (Int.natCast_nonneg _)
  obtain ⟨b,hb,rfl⟩ := mem_map.1 ht
  exact Int.le_of_lt (h b hb)

/-- The bits of genesis are required while the window is not full. -/
def isGenesisRequired (cfg : HeaderConfig) (params : DifficultyParams) (length : Nat) : Bool :=
  params.disableDifficultyAdjustment ||
    decide (length < 2 ∨ length < cfg.difficultyAdjustmentWindowSize)

lemma requiredDifficultyFromTargetsWindow_genesis
    (hg : isGenesisRequired cfg params window.blocks.length) :
    requiredDifficultyFromTargetsWindow cfg params window = .ok cfg.ghostdag.genesisBits := by
  rw [isGenesisRequired,Bool.or_eq_true,decide_eq_true_iff] at hg
  rw [requiredDifficultyFromTargetsWindow]
  split
  · rfl
  · next hd => rw [if_pos (hg.resolve_left hd)]

section
variable (hg : isGenesisRequired cfg params window.blocks.length = false)
include hg

lemma requiredDifficultyFromTargetsWindow_full {blocks : List DifficultyBlock} {interval : Int}
    (hb : removeFromWindow window.blocks window.minTimestampIndex = blocks)
    (hi : max ((window.maxTimestamp - window.minTimestamp).bmod (2^64)) 1 = interval) :
    requiredDifficultyFromTargetsWindow cfg params window =
      if params.targetTimePerBlock = 0 then .error (.panic "division by zero") else
      .ok (bigToCompact (min (averageTarget blocks*interval / params.targetTimePerBlock /
        blocks.length) cfg.ghostdag.powMax)) := by
  rw [isGenesisRequired,Bool.or_eq_false_iff,decide_eq_false_iff_not] at hg
  rw [requiredDifficultyFromTargetsWindow,if_neg (by simp [hg.1]),if_neg hg.2,hb,hi]
  refine if_congr Iff.rfl rfl ?_
  dsimp only
  split
  · next hlt => rw [Int.min_eq_right hlt.le]
  · next hle => rw [Int.min_eq_left (Int.not_lt.1 hle)]

/-- With a full window the required bits are normal, or zero. -/
lemma requiredDifficultyFromTargetsWindow_spec
    (hp : 0 < cfg.ghostdag.powMax) (hw : ∀ b ∈ window.blocks, 0 < compactToBig b.bits)
    (h : requiredDifficultyFromTargetsWindow cfg params window = .ok bits) :
    IsNormal bits ∨ bits = 0 := by
  rw [requiredDifficultyFromTargetsWindow_full hg rfl rfl] at h
  obtain ⟨-,h⟩ := of_ite_error h
  cases h
  have ha := averageTarget_nonneg fun b hb =>
    hw b (mem_of_mem_removeFromWindow (n := window.minTimestampIndex) hb)
  generalize removeFromWindow window.blocks window.minTimestampIndex = blocks at ha ⊢
  have hi : (0 : Int) ≤
      max ((window.maxTimestamp - window.minTimestamp).bmod (2^64)) 1 := by omega
  have hn := Int.ediv_nonneg (Int.ediv_nonneg (Int.mul_nonneg ha hi)
    (Int.natCast_nonneg params.targetTimePerBlock)) (Int.natCast_nonneg blocks.length)
  generalize averageTarget blocks*_ / _ / _ = target at hn ⊢
  have hlt := cfg.ghostdag.powMax_lt
  obtain hz | hps : min target cfg.ghostdag.powMax = 0 ∨ 0 < min target cfg.ghostdag.powMax := by
    omega
  · rw [hz]
    exact .inr rfl
  · exact .inl (roundsDown_bigToCompact hps (by omega)).toIsNormal

end

lemma bigToCompact_target {m n : Int} (hp : 1 ≤ m) (hle : m ≤ n) (hlt : n < 2^256) :
    1 ≤ compactToBig (bigToCompact m) ∧ compactToBig (bigToCompact m) ≤ n := by
  have hr := roundsDown_bigToCompact hp (by omega)
  have hb := hr.target_bounds.1
  have ht := hr.target_pos
  omega

/-- The targets of the blocks that remain in the window. -/
lemma sum_removeFromWindow (f : DifficultyBlock → Int) (hn : n < blocks.length) :
    ((removeFromWindow blocks n).map f).sum = (blocks.map f).sum - f blocks[n] := by
  obtain ⟨rest,last,rfl⟩ := eq_nil_or_concat' blocks |>.resolve_left (fun h => by simp [h] at hn)
  rw [removeFromWindow,getLast?_concat]
  dsimp only
  obtain hlt | rfl : n < rest.length ∨ n = rest.length := by
    rw [length_append,length_singleton] at hn
    omega
  · rw [set_append_left _ _ hlt,dropLast_concat,map_set,sum_set',dif_pos (by simpa using hlt)]
    simp [getElem_append_left hlt]
    omega
  · rw [set_append_right _ _ le_rfl]
    simp

lemma length_removeFromWindow (hl : blocks ≠ []) :
    (removeFromWindow blocks n).length+1 = blocks.length := by
  obtain ⟨last,hlast⟩ := Option.isSome_iff_exists.1 (getLast?_isSome.2 hl)
  rw [removeFromWindow,hlast]
  have := length_pos_iff.2 hl
  simp only [length_dropLast,length_set]
  omega

/-- The lowest sum of targets for which the new target is not rounded down to zero: the mean of `n`
targets has to be at least the time of `n` blocks, divided by the time range and rounded up. -/
def leastTargetSum (targetTimePerBlock n range : Int) : Int :=
  (targetTimePerBlock*n+range - 1) / range*n

lemma leastTargetSum_le_iff {time length range sum : Int} (hl : 0 < length) (hr : 0 < range) :
    leastTargetSum time length range ≤ sum ↔ time*length ≤ sum / length*range := by
  rw [leastTargetSum,← Int.le_ediv_iff_mul_le hl,← Int.lt_add_one_iff,
    Int.ediv_lt_iff_lt_mul hr,Int.add_mul]
  omega

/-- What a window has to be like: while it is not full, the target of genesis has to be in the
range; from then on the timestamps may not be too far apart for a machine word, and the targets
may not be too low for the time that the blocks took. -/
def AllowsTarget (cfg : HeaderConfig) (params : DifficultyParams) (window : TargetsWindow) : Prop :=
  if isGenesisRequired cfg params window.blocks.length then
    1 ≤ compactToBig cfg.ghostdag.genesisBits ∧
      compactToBig cfg.ghostdag.genesisBits ≤ cfg.ghostdag.powMax
  else
    params.targetTimePerBlock ≠ 0 ∧
      -2^63 ≤ window.maxTimestamp - window.minTimestamp ∧
      window.maxTimestamp - window.minTimestamp < 2^63 ∧
      leastTargetSum params.targetTimePerBlock (window.blocks.length - 1)
          (max (window.maxTimestamp - window.minTimestamp) 1) ≤
        (window.blocks.map fun block => compactToBig block.bits).sum -
          compactToBig (window.blocks.getD window.minTimestampIndex ⟨0,0⟩).bits

lemma bmod_eq_self_iff {x : Int} : x.bmod (2^64) = x ↔ -2^63 ≤ x ∧ x < 2^63 := by
  constructor
  · intro h
    have hl := Int.le_bmod (x := x) (m := 2^64) (by decide)
    have hu := Int.bmod_lt (x := x) (m := 2^64) (by decide)
    rw [h] at hl hu
    omega
  · rintro ⟨hl,hu⟩
    exact Int.bmod_eq_of_le (by omega) (by omega)

lemma one_le_newTarget_iff {average time length interval : Int} (hl : 0 < length) (ht : 0 < time) :
    1 ≤ average*interval / time / length ↔ time*length ≤ average*interval := by
  rw [Int.ediv_ediv_of_nonneg ht.le,Int.le_ediv_iff_mul_le (Int.mul_pos ht hl),Int.one_mul]

lemma bigToCompact_target_iff {m n : Int} (hm : 0 ≤ m) (hn : 1 ≤ n) (hlt : n < 2^256) :
    (1 ≤ compactToBig (bigToCompact (min m n)) ∧ compactToBig (bigToCompact (min m n)) ≤ n) ↔
      1 ≤ m := by
  refine ⟨fun h => ?_,fun h => bigToCompact_target (by omega) (Int.min_le_right _ _) hlt⟩
  by_contra hz
  obtain rfl : m = 0 := by omega
  rw [Int.min_eq_left (by omega)] at h
  exact absurd h.1 (by decide)

lemma pos_and_le_of_checkTarget (h : checkTarget cfg.ghostdag header = .ok ()) :
    0 < compactToBig header.bits ∧ compactToBig header.bits ≤ cfg.ghostdag.powMax := by
  obtain ⟨hp,h⟩ := of_ite_error h
  obtain ⟨hm,h⟩ := of_ite_error h
  exact ⟨Int.not_le.1 hp,Int.not_lt.1 hm⟩

/-! ## Runs -/

lemma TargetsPositive.processHeader {stores' : HeaderStores} {hash : DomainHash}
    (hs : Shaped cfg.ghostdag stores.blocks) (hst : TargetsPositive cfg stores)
    (h : Eiyaro.processHeader cfg stores hash header = .ok stores') :
    TargetsPositive cfg stores' := by
  obtain ⟨_,_,_,rfl,-,hsh,rfl⟩ := processHeader_eq_ok hs h
  intro other record hne hr
  rw [FinMap.get_insert] at hr
  split at hr
  · cases hr
    -- a block of positive work has a positive target
    have hwr := hsh.work_pos
    rw [calcWork] at hwr
    split at hwr
    · cases hwr
    · next hp => exact Int.not_le.1 hp
  · exact hst other record hne hr

lemma targetsPositive_processHeaders (cfg : HeaderConfig) (genesis : HeaderRecord)
    (actions : List HeaderAction) :
    Shaped cfg.ghostdag (processHeaders cfg genesis actions).blocks ∧
      TargetsPositive cfg (processHeaders cfg genesis actions) := by
  have hi : TargetsPositive cfg (initHeaderStores cfg genesis) := by
    intro hash _ hne hr
    rw [initHeaderStores,FinMap.get_insert] at hr
    split at hr
    · next he => exact absurd he hne
    · cases hr
  have hbt : MergesBounded cfg (processHeaders cfg genesis actions) ∧
      TargetsPositive cfg (processHeaders cfg genesis actions) := by
    refine foldlRecOn
      (motive := fun stores => MergesBounded cfg stores ∧ TargetsPositive cfg stores) actions
      (headerStep cfg) ⟨.init genesis,hi⟩ ?_
    rintro stores ⟨hb,hst⟩ action -
    refine ⟨hb.headerStep action,?_⟩
    cases action with
    | header hash header =>
      rw [headerStep]
      split
      · next h => exact hst.processHeader hb.shaped h
      · exact hst
    | movePruningPoint hash => exact hst
  exact ⟨hbt.1.shaped,hbt.2⟩

variable (cfg params stores header) in
/-- The window of the header is full, and the difficulty is adjusted. -/
def HasFullWindow : Prop :=
  ∃ data window, Eiyaro.ghostdag cfg.ghostdag stores.blocks header.directParents = .ok data ∧
    blockWindow cfg.ghostdag stores.blocks cfg.difficultyAdjustmentWindowSize data = .ok window ∧
    isGenesisRequired cfg params window.length = false

/-- The required bits are those of genesis until the window is full, and normal or zero then. -/
lemma requiredDifficulty_spec (hst : Shaped cfg.ghostdag stores.blocks)
    (htp : TargetsPositive cfg stores) (hp : 0 < cfg.ghostdag.powMax)
    (hpa : CheckedParents stores.blocks header.directParents)
    (h : requiredDifficulty cfg params stores header = .ok bits) :
    (¬HasFullWindow cfg params stores header ∧ bits = cfg.ghostdag.genesisBits) ∨
      (HasFullWindow cfg params stores header ∧ (IsNormal bits ∨ bits = 0)) := by
  obtain ⟨data,hd,pairs,hps,h⟩ := bind₂_eq_ok h
  obtain ⟨window,hw,_,-,h⟩ := bind₂_eq_ok h
  obtain ⟨_,_,hmr⟩ := hpa.exists_merge hst.wf
  have hng : ∀ b ∈ pairs, b.hash ≠ cfg.ghostdag.genesisHash := by
    rw [blockWindow] at hps
    split at hps
    · cases hps
      simp
    · exact walkWindow_ne_genesis hst (fun _ hb => hb)
        (hmr.mergesNoGenesis hst hpa (hmr.mergedData hst.wf hd)) (by simp) hps
  obtain ⟨hl,hb⟩ := targetsWindow_blocks htp hng hw
  have hfull : HasFullWindow cfg params stores header ↔
      isGenesisRequired cfg params window.blocks.length = false := by
    rw [hl]
    refine ⟨?_,fun hg => ⟨data,pairs,hd,hps,hg⟩⟩
    rintro ⟨data',pairs',hd',hps',hg⟩
    cases hd.symm.trans hd'
    cases hps.symm.trans hps'
    exact hg
  rw [hfull]
  by_cases hg : isGenesisRequired cfg params window.blocks.length
  · rw [requiredDifficultyFromTargetsWindow_genesis hg] at h
    cases h
    exact .inl ⟨by simp [hg],rfl⟩
  · rw [Bool.not_eq_true] at hg
    exact .inr ⟨hg,requiredDifficultyFromTargetsWindow_spec hg hp hb h⟩

/-- In every run, a header that passes the checks of its work and of its difficulty has a positive
target that is at most the maximal one. It is at most `42768 / 32768` of the required one exactly
if the window is full or the target of genesis is positive, for networks whose genesis has bits
that are normal or not positive, as all networks have. -/
theorem validateDifficulty_target (cfg : HeaderConfig) (params : DifficultyParams)
    (genesis : HeaderRecord) (actions : List HeaderAction)
    (hnetwork : IsNormal cfg.ghostdag.genesisBits ∨ compactToBig cfg.ghostdag.genesisBits ≤ 0)
    (skipPoW : Bool) (hasWork : BlockHeader → Bool) (header : BlockHeader) (expectedBits : UInt32)
    (hparents : CheckedParents (processHeaders cfg genesis actions).blocks header.directParents)
    (hwork : checkProofOfWork cfg.ghostdag skipPoW hasWork header = .ok ())
    (hrequired : requiredDifficulty cfg params (processHeaders cfg genesis actions) header =
      .ok expectedBits)
    (hvalid : validateDifficulty cfg params (processHeaders cfg genesis actions) header = .ok ()) :
    (0 < compactToBig header.bits ∧ compactToBig header.bits ≤ cfg.ghostdag.powMax ∧
      32768*compactToBig header.bits ≤ 42768*compactToBig expectedBits) ↔
    HasFullWindow cfg params (processHeaders cfg genesis actions) header ∨
      0 < compactToBig cfg.ghostdag.genesisBits := by
  obtain ⟨_,ht,-⟩ := bind_eq_ok hwork
  obtain ⟨hpos,hm⟩ := pos_and_le_of_checkTarget ht
  have hb : header.bits.toNat ≤ expectedBits.toNat+10000 := by
    rw [validateDifficulty,hrequired] at hvalid
    obtain ⟨hle,hvalid⟩ := of_ite_error hvalid
    -- the sum may wrap around, which only lowers it
    have hs : (expectedBits+bitsTolerance).toNat ≤ expectedBits.toNat+10000 := by
      exact mod_le _ _
    exact le_trans (UInt32.le_iff_toNat_le.1 (UInt32.not_lt.1 hle)) hs
  obtain ⟨hst,htp⟩ := targetsPositive_processHeaders cfg genesis actions
  obtain ⟨hnf,rfl⟩ | ⟨hf,hex⟩ :=
    requiredDifficulty_spec hst htp (Int.lt_of_lt_of_le hpos hm) hparents hrequired
  · constructor
    · rintro ⟨-,-,hle⟩
      -- a positive target is above every part of one that is not positive
      exact .inr (by omega)
    · rintro (hf | hg)
      · exact absurd hf hnf
      · exact ⟨hpos,hm,target_le_of_bits_le (.inl (hnetwork.resolve_right hg.not_ge)) hb hpos⟩
  · exact iff_of_true ⟨hpos,hm,target_le_of_bits_le hex hb hpos⟩ (.inl hf)

/-! ## Networks -/

/-- The parameters that the main network and the test network share. -/
def networkConfig (genesisHash : DomainHash) (genesisBits : UInt32)
    (h : genesisHash ≠ virtualGenesisBlockHash) : HeaderConfig where
  ghostdag := ⟨18,genesisHash,genesisBits,2^255 - 1,h,(configWithK 18).powMax_lt⟩
  mergeSetSizeLimit := 180
  timestampDeviationTolerance := 132
  difficultyAdjustmentWindowSize := 2641
  mergeDepth := 360
  finalityDepth := 4320

def networkDifficultyParams : DifficultyParams := ⟨false,20000⟩

def testnetGenesisHash : DomainHash :=
  ⟨0x8ec2316345a5f563943ac1d362ac7e6c272dd6c7bb8dc857d390a6a9c0c320f5,by decide⟩

def testnetGenesisBits : UInt32 := 0x1f0346dc

def testnetConfig : HeaderConfig :=
  networkConfig testnetGenesisHash testnetGenesisBits (by decide)

def mainnetGenesisHash : DomainHash :=
  ⟨0xc3003a4836c39a7965fc92241a2a2e9504399fe2694ff25276f7ea47dde7a783,by decide⟩

/-- The number `0x05f5e100`, with the sign bit set. -/
def mainnetGenesisBits : UInt32 := 100000000

def mainnetConfig : HeaderConfig :=
  networkConfig mainnetGenesisHash mainnetGenesisBits (by decide)

def recordOfGenesis (genesisBits : UInt32) : HeaderRecord :=
  ⟨{ headerOn [] with bits := genesisBits },0,[],some virtualGenesisBlockHash,
    virtualGenesisBlockHash⟩

/-- The first block of the test network may have a target above that of genesis. -/
theorem validateDifficulty_target_on_testnet :
    32768*compactToBig (testnetGenesisBits+10000) ≤ 42768*compactToBig testnetGenesisBits := by
  have hp : CheckedParents (processHeaders testnetConfig (recordOfGenesis testnetGenesisBits)
      []).blocks [testnetGenesisHash] :=
    ⟨by simp,fun p hp => mem_singleton.1 hp ▸ Shaped.init.genesis_mem,
      fun p hp => mem_singleton.1 hp ▸ testnetConfig.ghostdag.genesis_ne,
      fun p hp q hq hne => absurd ((mem_singleton.1 hp).trans (mem_singleton.1 hq).symm) hne⟩
  exact ((validateDifficulty_target testnetConfig networkDifficultyParams
    (recordOfGenesis testnetGenesisBits) [] (.inl (by decide)) true (fun _ => false)
    { headerOn [testnetGenesisHash] with bits := testnetGenesisBits+10000 } testnetGenesisBits
    hp (by decide) (by decide) (by decide)).2 (.inr (by decide))).2.2

/-- A full window of blocks that have the bits of genesis and took 20 seconds each. -/
def steadyWindow : TargetsWindow :=
  ⟨(range 2641).map fun i => ⟨20000*i,testnetGenesisBits⟩,0,20000*2640,0,none⟩

/-- On the main network the first block is required to have a negative target, and one with a
positive target passes. -/
theorem mainnet_target_not_bounded :
    ∃ header : BlockHeader,
      (∀ hasWork : BlockHeader → Bool, hasWork header = true →
        checkProofOfWork mainnetConfig.ghostdag false hasWork header = .ok ()) ∧
      requiredDifficulty mainnetConfig networkDifficultyParams
        (processHeaders mainnetConfig (recordOfGenesis mainnetGenesisBits) []) header =
        .ok mainnetGenesisBits ∧
      validateDifficulty mainnetConfig networkDifficultyParams
        (processHeaders mainnetConfig (recordOfGenesis mainnetGenesisBits) []) header = .ok () ∧
      0 < compactToBig header.bits ∧ compactToBig mainnetGenesisBits < 0 := by
  refine ⟨{ headerOn [mainnetGenesisHash] with bits := 0x057fffff },?_,by decide,
    by decide,by decide,by decide⟩
  intro hasWork hh
  rw [checkProofOfWork,hh]
  rfl

end Eiyaro
