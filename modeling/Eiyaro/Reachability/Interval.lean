import Eiyaro.Model.Failure
import Eiyaro.Model.Outpoint

/-!
# Splitting intervals of the reachability tree

`interval.go` of the reachability manager. A node hands its interval on to its children, each of
which gets at least as many points as its subtree has nodes. What is left over is shared out by
rounded fractions, which are any numbers here.
-/

namespace Eiyaro
open List

/-- Both ends belong to the interval. -/
structure ReachabilityInterval where
  start : UInt64
  /-- `End`. -/
  stop : UInt64

def intervalSize (ri : ReachabilityInterval) : UInt64 :=
  ri.stop - ri.start+1

def splitFrom (start : UInt64) : List UInt64 → List ReachabilityInterval
  | [] => []
  | size :: sizes => ⟨start,start+size - 1⟩ :: splitFrom (start+size) sizes

def intervalSplitExact (ri : ReachabilityInterval) (sizes : List UInt64) :
    Except Failure (List ReachabilityInterval) :=
  if sizes.foldl (fun sum size => sum+size) 0 ≠ intervalSize ri then
    .error (.error "sum of sizes must be equal to the interval's size")
  else
    .ok (splitFrom ri.start sizes)

/-- The sizes with their biases, of which the last part gets what remains. `rounded` are the
roundings of the biases from index `i` on. -/
def biasedSizes (rounded : Nat → UInt64) : Nat → UInt64 → List UInt64 → List UInt64
  | _, _, [] => []
  | _, remainingBias, [size] => [size+remainingBias]
  | i, remainingBias, size :: next :: sizes =>
    let bias := min (rounded i) remainingBias
    (size+bias) :: biasedSizes rounded (i+1) (remainingBias - bias) (next :: sizes)

def intervalSplitWithExponentialBias (rounded : Nat → UInt64) (ri : ReachabilityInterval)
    (sizes : List UInt64) : Except Failure (List ReachabilityInterval) :=
  let sizesSum := sizes.foldl (fun sum size => sum+size) 0
  if sizesSum > intervalSize ri then
    .error (.error "sum of sizes must be less than or equal to the interval's size")
  else if sizesSum = intervalSize ri then
    intervalSplitExact ri sizes
  else
    intervalSplitExact ri (biasedSizes rounded 0 (intervalSize ri - sizesSum) sizes)

/-- The intervals follow each other from `start` up to the one that ends before `next`, and each
has as many points as its size or more. -/
inductive Splits (next : Nat) : Nat → List UInt64 → List ReachabilityInterval → Prop
  | nil : Splits next next [] []
  | cons (ri : ReachabilityInterval) {size : UInt64} {sizes : List UInt64}
    {intervals : List ReachabilityInterval} (hsize : ri.start.toNat+size.toNat ≤ ri.stop.toNat+1)
    (h : Splits next (ri.stop.toNat+1) sizes intervals) :
    Splits next ri.start.toNat (size :: sizes) (ri :: intervals)

/-- The sum of sizes without overflow. -/
def sizesSum (sizes : List UInt64) : Nat :=
  (sizes.map UInt64.toNat).sum

variable {sizes : List UInt64} {ri : ReachabilityInterval}

lemma toNat_add_of_lt {a b : UInt64} (h : a.toNat+b.toNat < 2^64) :
    (a+b).toNat = a.toNat+b.toNat := by
  rw [UInt64.toNat_add,Nat.mod_eq_of_lt h]

lemma splits_splitFrom {next : Nat} {biased : List UInt64} (hn : next < 2^64)
    (hp : ∀ size ∈ sizes, 0 < size.toNat)
    (hle : Forall₂ (fun size b => size.toNat ≤ b.toNat) sizes biased)
    (start : UInt64) (hs : start.toNat+sizesSum biased = next) :
    Splits next start.toNat sizes (splitFrom start biased) := by
  induction hle generalizing start with
  | nil =>
    obtain rfl : start.toNat = next := hs
    exact .nil
  | @cons size b sizes biased hsz _ ih =>
    rw [forall_mem_cons] at hp
    have hsm' : start.toNat+(b.toNat+sizesSum biased) = next := hs
    have hb := hp.1.trans_le hsz
    have ha := toNat_add_of_lt (by omega : start.toNat+b.toNat < 2^64)
    have ho : 1 ≤ start+b := UInt64.le_iff_toNat_le.2 (ha ▸ Nat.le_add_left_of_le hb)
    have hstop : (start+b - 1).toNat+1 = start.toNat+b.toNat := by
      rw [UInt64.toNat_sub_of_le _ _ ho]
      show _ - 1+1 = _
      omega
    refine .cons ⟨start,start+b - 1⟩ (by dsimp only; omega) ?_
    rw [hstop,← ha]
    exact ih hp.2 (start+b) (by omega)

/-- The biases add up to what is left over. -/
lemma biasedSizes_spec (rounded : Nat → UInt64) (hne : sizes ≠ []) (i : Nat)
    (remainingBias : UInt64) (hlt : sizesSum sizes+remainingBias.toNat < 2^64) :
    Forall₂ (fun size b => size.toNat ≤ b.toNat) sizes (biasedSizes rounded i remainingBias sizes) ∧
      sizesSum (biasedSizes rounded i remainingBias sizes) =
        sizesSum sizes+remainingBias.toNat := by
  induction sizes generalizing i remainingBias with
  | nil => exact absurd rfl hne
  | cons size sizes ih =>
    have hlt' : size.toNat+sizesSum sizes+remainingBias.toNat < 2^64 := hlt
    cases sizes with
    | nil =>
      have ha := toNat_add_of_lt (by omega : size.toNat+remainingBias.toNat < 2^64)
      exact ⟨.cons (by omega) .nil,by simp [biasedSizes,sizesSum,ha]⟩
    | cons _ sizes =>
      have hm : min (rounded i) remainingBias ≤ remainingBias := Std.min_le_right
      rw [biasedSizes]
      generalize min (rounded i) remainingBias = bias at hm ⊢
      have hr := UInt64.toNat_sub_of_le _ _ hm
      have hm' := UInt64.le_iff_toNat_le.1 hm
      have ha := toNat_add_of_lt (by omega : size.toNat+bias.toNat < 2^64)
      obtain ⟨hf,_⟩ := ih (cons_ne_nil _ _) (i+1) (remainingBias - bias) (by omega)
      refine ⟨.cons (by omega) hf,?_⟩
      show (size+bias).toNat+sizesSum (biasedSizes _ _ _ _) = size.toNat+sizesSum (_ :: _)+_
      omega

lemma toNat_sizes (h : sizesSum sizes < 2^64) :
    (sizes.foldl (fun sum size => sum+size) 0).toNat = sizesSum sizes := by
  rw [toNat_foldl_add (fun size => size) sizes 0,UInt64.toNat_zero,Nat.zero_add]
  exact Nat.mod_eq_of_lt h

section
variable (hstop : ri.stop.toNat ≤ 2^64 - 2) (hri : ri.start.toNat ≤ ri.stop.toNat)
include hstop hri

lemma toNat_intervalSize : (intervalSize ri).toNat+ri.start.toNat = ri.stop.toNat+1 := by
  rw [intervalSize,UInt64.toNat_add,UInt64.toNat_sub_of_le _ _ (UInt64.le_iff_toNat_le.2 hri),
    UInt64.toNat_one]
  omega

lemma intervalSplitExact_splits {biased : List UInt64} (hp : ∀ size ∈ sizes, 0 < size.toNat)
    (hle : Forall₂ (fun size b => size.toNat ≤ b.toNat) sizes biased)
    (hb : ri.start.toNat+sizesSum biased = ri.stop.toNat+1) :
    ∃ intervals, intervalSplitExact ri biased = .ok intervals ∧
      Splits (ri.stop.toNat+1) ri.start.toNat sizes intervals := by
  have hs := toNat_intervalSize hstop hri
  have hsm := toNat_sizes (by omega : sizesSum biased < 2^64)
  refine ⟨_,if_neg (not_not.2 (UInt64.toNat_inj.1 (by omega))),?_⟩
  exact splits_splitFrom (by omega) hp hle ri.start hb

end

/-- An interval is split into consecutive parts with enough points each, whatever the fractions
are rounded to. -/
theorem interval_splits (rounded : Nat → UInt64) (hstop : ri.stop.toNat ≤ 2^64 - 2)
    (hne : sizes ≠ []) (hpos : ∀ size ∈ sizes, size ≠ 0)
    (hsum : ri.start.toNat+sizesSum sizes ≤ ri.stop.toNat+1) :
    (ri.start.toNat+sizesSum sizes = ri.stop.toNat+1 → ∃ intervals,
      intervalSplitExact ri sizes = .ok intervals ∧
        Splits (ri.stop.toNat+1) ri.start.toNat sizes intervals) ∧
    ∃ intervals, intervalSplitWithExponentialBias rounded ri sizes = .ok intervals ∧
      Splits (ri.stop.toNat+1) ri.start.toNat sizes intervals := by
  have hp : ∀ size ∈ sizes, 0 < size.toNat :=
    fun size hs => Nat.pos_of_ne_zero fun h => hpos size hs (UInt64.toNat_inj.1 h)
  have hri : ri.start.toNat ≤ ri.stop.toNat := by
    obtain ⟨size,rest,rfl⟩ := exists_cons_of_ne_nil hne
    have hsz := hp size mem_cons_self
    have hs : ri.start.toNat+(size.toNat+sizesSum rest) ≤ ri.stop.toNat+1 := hsum
    omega
  have he := intervalSplitExact_splits hstop hri hp (forall₂_same.2 fun _ _ => Nat.le_refl _)
  refine ⟨he,?_⟩
  have hsz := toNat_intervalSize hstop hri
  have ht := toNat_sizes (by omega : sizesSum sizes < 2^64)
  have hf : sizes.foldl (fun sum size => sum+size) 0 ≤ intervalSize ri :=
    UInt64.le_iff_toNat_le.2 (by omega)
  unfold intervalSplitWithExponentialBias
  rw [if_neg (UInt64.not_lt.2 hf)]
  split
  · next heq =>
    rw [heq] at ht
    exact he (by omega)
  · have hbs := UInt64.toNat_sub_of_le _ _ hf
    obtain ⟨hle,_⟩ := biasedSizes_spec rounded hne 0 _ (by omega :
      sizesSum sizes+(intervalSize ri - sizes.foldl (fun sum size => sum+size) 0).toNat < 2^64)
    exact intervalSplitExact_splits hstop hri hp hle (by omega)

/-- Two children of a node with a hundred points. -/
theorem interval_splits_two : (∀ size ∈ [(1 : UInt64),2], size ≠ 0) ∧ 1+sizesSum [1,2] ≤ 100+1 ∧
    ∃ intervals, intervalSplitWithExponentialBias (fun _ => 7) ⟨1,100⟩ [1,2] = .ok intervals ∧
      Splits (100+1) 1 [1,2] intervals :=
  ⟨by simp,by decide,(@interval_splits [1,2] ⟨1,100⟩ (fun _ => 7) (by decide) (by decide)
    (by simp) (by decide)).2⟩

end Eiyaro
