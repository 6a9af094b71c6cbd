import Eiyaro.Model.Failure

/-!
# Block locators

A block locator lists blocks of a selected chain from a high to a low block, with distances that
double. One kind finds the next block by its blue score, the other one by its index in the
chain. Where the blue score grows by more than the distance from one chain block to the next,
the first kind lists a block again.
-/

namespace Eiyaro
open List Nat

/-- The blue scores of a selected chain from its first block upwards. A block stands for its
index. -/
structure SelectedChain where
  blueScore : Nat → UInt64
  top : Nat
  top_lt : top < 2^64
  rising : ∀ i < top, blueScore i < blueScore (i+1)

namespace SelectedChain

section
variable (chain : SelectedChain) (low : Nat)

/-- The walk down from a block. The first block has no selected parent. -/
def walkToBlueScore (blueScore : UInt64) : Nat → Nat
  | 0 => 0
  | selectedParent+1 =>
    if chain.blueScore selectedParent < blueScore then selectedParent+1
    else walkToBlueScore blueScore selectedParent

def lowestChainBlockAboveOrEqualToBlueScore (high : Nat) (blueScore : UInt64) :
    Except Failure Nat :=
  if chain.blueScore high < blueScore then
    .error (.error (s!"the given blue score {blueScore} is higher than block {high} blue score " ++
      s!"of {chain.blueScore high}"))
  else
    .ok (chain.walkToBlueScore blueScore high)

/-- The blue score that the next block should have. -/
def nextBlueScore (step : UInt64) (current : Nat) : UInt64 :=
  if chain.blueScore current < step ∨ chain.blueScore current - step < chain.blueScore low then
    chain.blueScore low
  else
    chain.blueScore current - step

/-- The loop without a limit. It ends when the length does not fit into 32 bits. -/
def blockLocatorFrom : Nat → UInt64 → Nat → Except Failure (List Nat)
  | 0, _, current => .ok [current]
  | rounds+1, step, current =>
    if chain.blueScore current ≤ chain.blueScore low then
      if current ≤ low then .ok [current]
      else .error (.error "highHash and lowHash are not in the same selected parent chain.")
    else do
      let next ← chain.lowestChainBlockAboveOrEqualToBlueScore current
        (chain.nextBlueScore low step current)
      let locator ← blockLocatorFrom rounds (step*2) next
      return current :: locator

def createBlockLocator (high : Nat) : Except Failure (List Nat) :=
  chain.blockLocatorFrom low (2^32 - 1) 1 high

/-- The loop over indexes. The distance doubles, which bounds the rounds. -/
def indexLocatorFrom (lowIndex : UInt64) : Nat → UInt64 → UInt64 → Except Failure (List Nat)
  | 0, _, _ => .error (.panic "out of memory")
  | rounds+1, step, currentIndex =>
    if currentIndex > lowIndex then
      if currentIndex < step then
        .ok [currentIndex.toNat,lowIndex.toNat]
      else do
        let locator ← indexLocatorFrom lowIndex rounds (step*2) (currentIndex - step)
        return currentIndex.toNat :: locator
    else
      .ok [lowIndex.toNat]

def createHeadersSelectedChainBlockLocator (lowIndex highIndex : UInt64) :
    Except Failure (List Nat) :=
  if highIndex < lowIndex then
    .error (.error "cannot build block locator while highHash is lower than lowHash")
  else
    indexLocatorFrom lowIndex 65 1 highIndex

end

/-- From `high` strictly down to `low`. -/
structure GoesDown (low high : Nat) (locator : List Nat) : Prop where
  head : locator.head? = some high
  last : locator.getLast? = some low
  down : locator.Pairwise (· > ·)

variable {chain : SelectedChain} {low high next current rounds j : Nat} {step : UInt64}
  {locator : List Nat}

lemma GoesDown.single : GoesDown low low [low] :=
  ⟨rfl,rfl,pairwise_singleton _ _⟩

lemma GoesDown.cons (h : GoesDown low next locator) (hlt : next < high) :
    GoesDown low high (high :: locator) := by
  obtain ⟨_,rfl⟩ := head?_eq_some_iff.1 h.head
  refine ⟨rfl,h.last,pairwise_cons.2 ⟨forall_mem_cons.2 ⟨hlt,fun x hx => ?_⟩,h.down⟩⟩
  exact ((pairwise_cons.1 h.down).1 x hx).trans hlt

/-- The distance as long as it has not wrapped around. -/
lemma step_toNat (hs : step.toNat = 2^j % 2^64) (hlt : 2^j < 2^64) :
    step.toNat = 2^j ∧ (step*2).toNat = 2^(j+1) % 2^64 := by
  rw [mod_eq_of_lt hlt] at hs
  rw [UInt64.toNat_mul,hs]
  exact ⟨rfl,rfl⟩

section
variable (hgp : ∀ i < chain.top, chain.blueScore (i+1) = chain.blueScore i+1)
include hgp

lemma blueScore_toNat (h : current ≤ chain.top) :
    (chain.blueScore current).toNat = (chain.blueScore 0).toNat+current := by
  induction current with
  | zero => rfl
  | succ i _ =>
    have hlt := UInt64.lt_iff_toNat_lt.1 (chain.rising i h)
    rw [hgp i h,UInt64.toNat_add] at hlt ⊢
    have := UInt64.toNat_one
    omega

lemma blueScore_lt_iff (hc : current ≤ chain.top) (hn : next ≤ chain.top) :
    chain.blueScore current < chain.blueScore next ↔ current < next := by
  rw [UInt64.lt_iff_toNat_lt,blueScore_toNat hgp hc,blueScore_toNat hgp hn]
  omega

lemma lowestChainBlockAboveOrEqualToBlueScore_eq (hnx : next ≤ current) (hc : current ≤ chain.top) :
    chain.lowestChainBlockAboveOrEqualToBlueScore current (chain.blueScore next) = .ok next := by
  rw [lowestChainBlockAboveOrEqualToBlueScore,
    if_neg ((blueScore_lt_iff hgp hc (hnx.trans hc)).not.2 (by omega))]
  congr 1
  induction current with
  | zero => exact (le_zero.1 hnx).symm
  | succ _ ih =>
    have hlt := blueScore_lt_iff hgp (le_of_succ_le hc) (hnx.trans hc)
    rw [walkToBlueScore]
    split
    · next h => exact (hnx.antisymm (hlt.1 h)).symm
    · next h => exact ih (not_lt.1 (hlt.not.1 h)) (le_of_succ_le hc)

/-- The next block is the low one or `2 ^ j` blocks further down. -/
lemma nextBlueScore_eq (hc : current ≤ chain.top) (hl : low < current)
    (hst : step.toNat = 2^j) : ∃ next < current, low ≤ next ∧
      chain.nextBlueScore low step current = chain.blueScore next ∧
      (next = low ∨ next+2^(j+1) = current+2^j) := by
  have hs := blueScore_toNat hgp hc
  have hs' := blueScore_toNat hgp (hl.le.trans hc)
  have hp := Nat.two_pow_pos j
  rw [nextBlueScore]
  split
  · exact ⟨low,hl,le_rfl,rfl,.inl rfl⟩
  · next h =>
    rw [not_or,UInt64.not_lt,UInt64.not_lt] at h
    have hsb := UInt64.toNat_sub_of_le _ _ h.1
    have hle := UInt64.le_iff_toNat_le.1 h.2
    have hle' := UInt64.le_iff_toNat_le.1 h.1
    have hs'' := blueScore_toNat hgp ((sub_le current (2^j)).trans hc)
    refine ⟨current - 2^j,by omega,by omega,UInt64.toNat_inj.1 (by omega),.inr ?_⟩
    omega

lemma blockLocatorFrom_eq (hc : current ≤ chain.top) (hl : low ≤ current)
    (hj : current = low ∨ current+2^j ≤ 2^64) (hr : 65 ≤ rounds+j) (hst : step.toNat = 2^j % 2^64) :
    ∃ locator, chain.blockLocatorFrom low rounds step current = .ok locator ∧
      GoesDown low current locator := by
  induction rounds generalizing current j step with
  | zero =>
    have hp : 2^65 ≤ 2^j := Nat.pow_le_pow_right (by decide) (by omega)
    obtain rfl := hj.resolve_right (by omega)
    exact ⟨_,rfl,.single⟩
  | succ rounds ih =>
    have hlt := blueScore_lt_iff hgp (hl.trans hc) hc
    rw [blockLocatorFrom]
    split
    · next hle =>
      obtain rfl := hl.antisymm (not_lt.1 (hlt.not.1 (UInt64.not_lt.2 hle)))
      exact ⟨_,if_pos le_rfl,.single⟩
    · next hle =>
      have hl' := hlt.1 (UInt64.not_le.1 hle)
      obtain ⟨hst,hd⟩ := step_toNat hst (by omega)
      obtain ⟨next,hn,hl'',hs,_⟩ := nextBlueScore_eq hgp hc hl' hst
      obtain ⟨locator,heq,hdw⟩ := ih (by omega) hl'' (j := j+1) (by omega) (by omega) hd
      refine ⟨_,?_,hdw.cons hn⟩
      rw [hs,lowestChainBlockAboveOrEqualToBlueScore_eq hgp hn.le hc,ok_bind,heq]
      rfl

end

lemma indexLocatorFrom_eq {lowIndex currentIndex : UInt64} (hl : lowIndex.toNat = low)
    (hc : currentIndex.toNat = current) (hlt : low < current) (hj : current+2^j ≤ 2^64)
    (hr : 65 ≤ rounds+j) (hst : step.toNat = 2^j % 2^64) :
    ∃ locator, indexLocatorFrom lowIndex rounds step currentIndex = .ok locator ∧
      GoesDown low current locator := by
  induction rounds generalizing current currentIndex j step with
  | zero =>
    have hpw : 2^65 ≤ 2^j := Nat.pow_le_pow_right (by decide) (by omega)
    omega
  | succ rounds ih =>
    obtain ⟨hst,hd⟩ := step_toNat hst (by omega)
    have hp := Nat.two_pow_pos j
    rw [indexLocatorFrom,if_pos (UInt64.lt_iff_toNat_lt.2 (by omega)),hl,hc]
    split
    · exact ⟨_,rfl,GoesDown.single.cons hlt⟩
    · next hle =>
      have hle := UInt64.not_lt.1 hle
      have hn := UInt64.toNat_sub_of_le _ _ hle
      have hle := UInt64.le_iff_toNat_le.1 hle
      rw [hc,hst] at hn hle
      by_cases hl' : low < current - 2^j
      · obtain ⟨locator,heq,hdw⟩ := ih hn hl' (j := j+1) (by rw [Nat.pow_succ]; omega) (by omega) hd
        exact ⟨_,by rw [heq]; rfl,hdw.cons (by omega)⟩
      · obtain ⟨rounds,rfl⟩ : ∃ n, rounds = n+1 := by
          have hlt : j < 64 := (Nat.pow_lt_pow_iff_right (by decide)).1 (by omega : 2^j < 2^64)
          exact ⟨rounds - 1,by omega⟩
        refine ⟨_,?_,GoesDown.single.cons hlt⟩
        rw [indexLocatorFrom,if_neg (by rw [gt_iff_lt,UInt64.lt_iff_toNat_lt]; omega),hl]
        rfl

/-! ## Repeated blocks -/

lemma blockLocatorFrom_head (h : chain.blockLocatorFrom low rounds step current = .ok locator) :
    locator.head? = some current := by
  cases rounds with
  | zero =>
    cases h
    rfl
  | succ rounds =>
    rw [blockLocatorFrom] at h
    split at h
    · split at h
      · cases h
        rfl
      · cases h
    · obtain ⟨_,-,_,-,h⟩ := bind₂_eq_ok h
      cases h
      rfl

/-- Where the blue score grows by more than one, the first distance leads back to the block. -/
lemma lowestChainBlockAboveOrEqualToBlueScore_of_jump {i : Nat}
    (h : (chain.blueScore i).toNat+1 < (chain.blueScore (i+1)).toNat) :
    chain.lowestChainBlockAboveOrEqualToBlueScore (i+1) (chain.nextBlueScore i 1 (i+1)) =
      .ok (i+1) := by
  have hone : (1 : UInt64).toNat = 1 := rfl
  have hle : 1 ≤ chain.blueScore (i+1) := UInt64.le_iff_toNat_le.2 (by omega)
  have hsub := UInt64.toNat_sub_of_le _ _ hle
  have hnext : chain.nextBlueScore i 1 (i+1) = chain.blueScore (i+1) - 1 := by
    refine if_neg (not_or.2 ⟨UInt64.not_lt.2 hle,UInt64.not_lt.2 ?_⟩)
    rw [UInt64.le_iff_toNat_le]
    omega
  rw [hnext,lowestChainBlockAboveOrEqualToBlueScore,if_neg,walkToBlueScore,if_pos]
  · rw [UInt64.lt_iff_toNat_lt]
    omega
  · rw [UInt64.not_lt,UInt64.le_iff_toNat_le]
    omega

lemma createBlockLocator_of_jump {i : Nat}
    (h : (chain.blueScore i).toNat+1 < (chain.blueScore (i+1)).toNat)
    (hc : chain.createBlockLocator i (i+1) = .ok locator) : ¬GoesDown i (i+1) locator := by
  intro hd
  obtain ⟨rounds,hr⟩ : ∃ rounds, 2^32 - 1 = rounds+1 := ⟨2^32 - 2,rfl⟩
  rw [createBlockLocator,hr,blockLocatorFrom,if_neg,
    lowestChainBlockAboveOrEqualToBlueScore_of_jump h,ok_bind] at hc
  · obtain ⟨rest,hrest,hc⟩ := bind_eq_ok hc
    cases hc
    obtain ⟨_,rfl⟩ := head?_eq_some_iff.1 (blockLocatorFrom_head hrest)
    exact absurd ((pairwise_cons.1 hd.down).1 _ mem_cons_self) (lt_irrefl _)
  · rw [UInt64.not_le,UInt64.lt_iff_toNat_lt]
    omega

end SelectedChain
end Eiyaro
