import Eiyaro.Consensus.Coinbase

/-!
# The subsidy schedule

`CalcBlockSubsidy` with the parameters that all networks share. The year of a
score is computed from a score that is rebased twice, at the end of the first
year and at a fork in the second one, and the subsidy is the table entry of the
year times the seconds of a block. The documentation states a base subsidy of
8 EY, a floor of 0.1 EY and a subsidy that never grows.
-/

namespace Eiyaro
variable {score : UInt64}

/-- The values of `consensus_defaults.go`. -/
def defaultCoinbaseParams (devFeeScriptPublicKey : ScriptPublicKey) : CoinbaseParams where
  subsidyGenesisReward := 800000000
  preDeflationaryPhaseBaseSubsidy := 800000000
  coinbasePayloadScriptPublicKeyMaxLength := 150
  deflationaryPhaseDaaScore := 360
  targetSecondsPerBlock := [20]
  devFeeScriptPublicKey := devFeeScriptPublicKey

/-- The documented base subsidy, 8 EY. -/
def documentedBaseSubsidy : UInt64 := 800000000

/-- The documented floor, 0.1 EY. -/
def documentedMinimumSubsidy : UInt64 := 10000000

variable (blockDaaScore : UInt64)

/-- The years counted so far and the score that is left after the two steps that
rebase it. -/
def rebasedScore : UInt64 × UInt64 :=
  let (years, blockDaaScore) : UInt64 × UInt64 :=
    if blockDaaScore ≥ 31557600 then (1, blockDaaScore - 31557600) else (0, blockDaaScore)
  let nocturneHfScore := 43334184 - 31557600
  (years, if blockDaaScore ≥ nocturneHfScore then blockDaaScore+nocturneHfScore*4
    else blockDaaScore)

/-- The subtraction of the start of the deflationary phase wraps around. -/
def SubtractionWraps (p : CoinbaseParams) (blockDaaScore : UInt64) : Prop :=
  p.deflationaryPhaseDaaScore ≤ blockDaaScore ∧
    (rebasedScore blockDaaScore).2 < p.deflationaryPhaseDaaScore

instance (p : CoinbaseParams) (blockDaaScore : UInt64) :
    Decidable (SubtractionWraps p blockDaaScore) :=
  inferInstanceAs (Decidable (_ ∧ _))

lemma calcDeflationaryPeriodBlockSubsidy_eq (p : CoinbaseParams) (blockDaaScore : UInt64)
    (blockVersion : UInt16) :
    calcDeflationaryPeriodBlockSubsidy p blockDaaScore blockVersion =
      indexSlice p.targetSecondsPerBlock (blockVersion - 1).toNat >>= fun seconds =>
        if 31557600 / seconds = 0 then .error (.panic "integer divide by zero")
        else .ok (getDeflationaryPeriodBlockSubsidyFromTable
          ((rebasedScore blockDaaScore).1 +
            ((rebasedScore blockDaaScore).2 - p.deflationaryPhaseDaaScore) / (31557600 / seconds))
          seconds) := by
  by_cases hy : blockDaaScore ≥ 31557600
  · rfl
  · rfl

/-- The scores with a subsidy within the documented bounds: before the deflationary phase, and in
two ranges of years that begin where the score is rebased. -/
def RegularScore : Prop :=
  blockDaaScore < 360 ∨ 11776584 ≤ blockDaaScore ∧ blockDaaScore < 30210144 ∨
    43334184 ≤ blockDaaScore ∧ blockDaaScore < 60189864

/-- The year of a regular score. The years before the deflationary phase count as 0. -/
def regularYear : Nat :=
  if blockDaaScore < 360 then 0
  else if blockDaaScore < 31557600 then (blockDaaScore.toNat+47106336 - 360) / 1577880
  else 1+(blockDaaScore.toNat - 31557600+47106336 - 360) / 1577880

/-- Both steps over the natural numbers. Only scores next to 2^64 wrap around. -/
lemma rebasedScore_toNat (score : UInt64) :
    (31557600 ≤ score.toNat ∧ (rebasedScore score).1 = 1 ∧ (rebasedScore score).2.toNat =
        (if 43334184 ≤ score.toNat then (score.toNat - 31557600+47106336) % 2^64
          else score.toNat - 31557600)) ∨
      score.toNat < 31557600 ∧ (rebasedScore score).1 = 0 ∧ (rebasedScore score).2.toNat =
        (if 11776584 ≤ score.toNat then score.toNat+47106336 else score.toNat) := by
  have hn : (43334184 - 31557600 : UInt64) = 11776584 := rfl
  have hm : (43334184 - 31557600 : UInt64)*4 = 47106336 := rfl
  have hlt := score.toNat_lt
  by_cases hy : (31557600 : UInt64) ≤ score
  · have hle : 31557600 ≤ score.toNat := UInt64.le_iff_toNat_le.1 hy
    have hs : (score - 31557600).toNat = score.toNat - 31557600 := UInt64.toNat_sub_of_le _ _ hy
    refine .inl ⟨hle,by rw [rebasedScore,if_pos hy],?_⟩
    rw [rebasedScore,if_pos hy]
    dsimp only
    rw [hm,hn,apply_ite UInt64.toNat,UInt64.toNat_add,hs]
    refine if_congr ?_ rfl rfl
    rw [ge_iff_le,UInt64.le_iff_toNat_le,hs]
    show 11776584 ≤ _ ↔ _
    omega
  · have hle : score.toNat < 31557600 := UInt64.lt_iff_toNat_lt.1 (UInt64.not_le.1 hy)
    refine .inr ⟨hle,by rw [rebasedScore,if_neg hy],?_⟩
    rw [rebasedScore,if_neg hy]
    dsimp only
    rw [hm,hn,apply_ite UInt64.toNat,UInt64.toNat_add]
    refine if_congr UInt64.le_iff_toNat_le ?_ rfl
    exact Nat.mod_eq_of_lt (by show _+47106336 < _; omega)

/-- The year of a score of the deflationary phase, as the source computes it. -/
def deflationaryYear : Nat :=
  ((rebasedScore blockDaaScore).1+((rebasedScore blockDaaScore).2 - 360) / 1577880).toNat

variable {blockDaaScore} {devFee : ScriptPublicKey} {blockVersion : UInt16} {subsidy : UInt64}

section
variable
  (h : calcBlockSubsidy (defaultCoinbaseParams devFee) false score blockVersion = .ok subsidy)
include h

lemma calcBlockSubsidy_of_lt (hs : score < 360) : subsidy = documentedBaseSubsidy := by
  change (if score < 360 then _ else _) = _ at h
  rw [if_pos hs] at h
  cases h
  rfl

/-- The subsidy of the deflationary phase is the entry of a year for twenty seconds. -/
lemma calcBlockSubsidy_of_le (hs : ¬score < 360) : subsidy =
    subsidyByDeflationaryYearTable.getD (min (deflationaryYear score) 114) 0*20 := by
  change (if score < 360 then _ else _) = _ at h
  rw [if_neg hs,calcDeflationaryPeriodBlockSubsidy_eq] at h
  obtain ⟨seconds,hsec,h⟩ := bind_eq_ok h
  obtain rfl : seconds = 20 := List.mem_singleton.1 (mem_of_indexSlice hsec)
  cases h
  rfl

end

/-- The entries within the documented bounds are those of the years 28 to 48. -/
lemma table_within_iff (year : Nat) :
    subsidyByDeflationaryYearTable.getD (min year 114) 0*20 ≤ documentedBaseSubsidy ∧
        documentedMinimumSubsidy ≤ subsidyByDeflationaryYearTable.getD (min year 114) 0*20 ↔
      28 ≤ year ∧ year ≤ 48 := by
  have ht : ∀ i : Fin 115,
      subsidyByDeflationaryYearTable.getD i 0*20 ≤ documentedBaseSubsidy ∧
        documentedMinimumSubsidy ≤ subsidyByDeflationaryYearTable.getD i 0*20 ↔
      28 ≤ i.val ∧ i.val ≤ 48 := by
    decide +kernel
  refine (ht ⟨min year 114,by omega⟩).trans ?_
  show 28 ≤ min year 114 ∧ min year 114 ≤ 48 ↔ _
  omega

/-- From year 28 to year 48 the entries fall. -/
lemma table_le_iff {a b : Nat} (ha : 28 ≤ a ∧ a ≤ 48) (hb : 28 ≤ b ∧ b ≤ 48) :
    subsidyByDeflationaryYearTable.getD b 0*20 ≤ subsidyByDeflationaryYearTable.getD a 0*20 ↔
      a ≤ b := by
  have ht : ∀ i j : Fin 21, subsidyByDeflationaryYearTable.getD (28+j) 0*20 ≤
      subsidyByDeflationaryYearTable.getD (28+i) 0*20 ↔ i ≤ j := by
    decide +kernel
  have h := ht ⟨a - 28,by omega⟩ ⟨b - 28,by omega⟩
  rw [Fin.mk_le_mk] at h
  simp only [Nat.add_sub_cancel' ha.1,Nat.add_sub_cancel' hb.1] at h
  rw [h]
  omega

lemma deflationaryYear_eq (h : 360 ≤ (rebasedScore score).2) : deflationaryYear score =
    (rebasedScore score).1.toNat+((rebasedScore score).2.toNat - 360) / 1577880 := by
  have hd : ((rebasedScore score).2 - 360).toNat = (rebasedScore score).2.toNat - 360 :=
    UInt64.toNat_sub_of_le _ _ h
  have hlt := (rebasedScore score).2.toNat_lt
  rw [deflationaryYear,UInt64.toNat_add,UInt64.toNat_div,hd]
  change (_+_ / 1577880) % _ = _
  refine Nat.mod_eq_of_lt ?_
  obtain ⟨-,hy,-⟩ | ⟨-,hy,-⟩ := rebasedScore_toNat score
  · rw [hy]
    show 1+_ < _
    omega
  · rw [hy]
    show 0+_ < _
    omega

/-- In the deflationary phase a score is regular exactly where nothing wraps around and its year
has an entry within the bounds. -/
lemma regularScore_iff (hs : ¬score < 360) :
    RegularScore score ↔ 360 ≤ (rebasedScore score).2 ∧ 28 ≤ deflationaryYear score ∧
      deflationaryYear score ≤ 48 := by
  have hlt := score.toNat_lt
  have hr : RegularScore score ↔ 11776584 ≤ score.toNat ∧ score.toNat < 30210144 ∨
      43334184 ≤ score.toNat ∧ score.toNat < 60189864 :=
    (or_iff_right hs)
  have hd : (360 ≤ (rebasedScore score).2 ∧ 28 ≤ deflationaryYear score ∧
      deflationaryYear score ≤ 48) ↔ 360 ≤ (rebasedScore score).2.toNat ∧
        28 ≤ (rebasedScore score).1.toNat+((rebasedScore score).2.toNat - 360) / 1577880 ∧
        (rebasedScore score).1.toNat+((rebasedScore score).2.toNat - 360) / 1577880 ≤ 48 :=
    and_congr_right fun h => by rw [deflationaryYear_eq h]
  rw [hr,hd]
  obtain ⟨hle,hy,hsc⟩ | ⟨hle,hy,hsc⟩ := rebasedScore_toNat score
  · rw [hy,hsc]
    change _ ↔ _ ∧ _ ≤ 1+_ ∧ 1+_ ≤ _
    split
    · -- the scores that wrap around when they are rebased end up in the first years
      by_cases hov : score.toNat - 31557600+47106336 < 2^64
      · rw [Nat.mod_eq_of_lt hov]
        omega
      · rw [Nat.mod_eq_sub_mod (not_lt.1 hov),Nat.mod_eq_of_lt (by omega)]
        omega
    · omega
  · rw [hy,hsc]
    change _ ↔ _ ∧ _ ≤ 0+_ ∧ 0+_ ≤ _
    split
    · omega
    · omega

lemma regularYear_eq (hs : ¬score < 360) (h : RegularScore score) :
    regularYear score = deflationaryYear score := by
  rw [deflationaryYear_eq ((regularScore_iff hs).1 h).1,regularYear,if_neg hs]
  have hr : 11776584 ≤ score.toNat ∧ score.toNat < 30210144 ∨
      43334184 ≤ score.toNat ∧ score.toNat < 60189864 := h.resolve_left hs
  obtain ⟨hle,hy,hsc⟩ | ⟨hle,hy,hsc⟩ := rebasedScore_toNat score
  · rw [if_neg fun hlt => Nat.not_lt.2 hle (UInt64.lt_iff_toNat_lt.1 hlt),hy,hsc,
      if_pos (by omega)]
    show _ = 1+_
    omega
  · rw [if_pos (UInt64.lt_iff_toNat_lt.2 hle),hy,hsc,if_pos (by omega)]
    show _ = 0+_
    omega

/-- The subsidy is within the documented bounds, and the subtraction does not wrap around. -/
lemma within_iff
    (h : calcBlockSubsidy (defaultCoinbaseParams devFee) false score blockVersion = .ok subsidy) :
    (subsidy ≤ documentedBaseSubsidy ∧ documentedMinimumSubsidy ≤ subsidy) ∧
        ¬SubtractionWraps (defaultCoinbaseParams devFee) score ↔ RegularScore score := by
  by_cases hs : score < 360
  · rw [calcBlockSubsidy_of_lt h hs]
    exact iff_of_true ⟨by decide,fun hw => UInt64.not_lt.2 hw.1 hs⟩ (.inl hs)
  · have hw : SubtractionWraps (defaultCoinbaseParams devFee) score ↔
        (rebasedScore score).2 < 360 := and_iff_right (UInt64.not_lt.1 hs)
    rw [calcBlockSubsidy_of_le h hs,table_within_iff,regularScore_iff hs,hw,UInt64.not_lt,and_comm]

lemma calcBlockSubsidy_of_regular
    (h : calcBlockSubsidy (defaultCoinbaseParams devFee) false score blockVersion = .ok subsidy)
    (hs : ¬score < 360) (hr : RegularScore score) : (28 ≤ regularYear score ∧
      regularYear score ≤ 48) ∧ subsidy =
        subsidyByDeflationaryYearTable.getD (regularYear score) 0*20 := by
  have hy := ((regularScore_iff hs).1 hr).2
  rw [regularYear_eq hs hr,calcBlockSubsidy_of_le h hs,min_eq_left (by omega)]
  exact ⟨hy,rfl⟩

/-- The subsidy does not grow from one score to a later one and is within the documented bounds,
and no subtraction wraps around, exactly where both scores are regular and in the order of their
years. -/
theorem subsidy_schedule_iff (devFee : ScriptPublicKey) (blockVersion : UInt16)
    {s t : UInt64} {subsidy subsidy' : UInt64} (hst : s ≤ t)
    (hsubsidy : calcBlockSubsidy (defaultCoinbaseParams devFee) false s blockVersion = .ok subsidy)
    (hsubsidy' : calcBlockSubsidy (defaultCoinbaseParams devFee) false t blockVersion =
      .ok subsidy') :
    subsidy' ≤ subsidy ∧
        (subsidy ≤ documentedBaseSubsidy ∧ documentedMinimumSubsidy ≤ subsidy) ∧
        (subsidy' ≤ documentedBaseSubsidy ∧ documentedMinimumSubsidy ≤ subsidy') ∧
        ¬SubtractionWraps (defaultCoinbaseParams devFee) s ∧
        ¬SubtractionWraps (defaultCoinbaseParams devFee) t ↔
      RegularScore s ∧ RegularScore t ∧ regularYear s ≤ regularYear t := by
  have hm : RegularScore s → RegularScore t →
      (subsidy' ≤ subsidy ↔ regularYear s ≤ regularYear t) := by
    intro hs ht
    by_cases hs' : s < 360
    · have hsb := (within_iff hsubsidy').2 ht
      rw [calcBlockSubsidy_of_lt hsubsidy hs',regularYear,if_pos hs']
      exact iff_of_true hsb.1.1 (Nat.zero_le _)
    · have ht' : ¬t < 360 := fun hlt => hs' (UInt64.lt_of_le_of_lt hst hlt)
      obtain ⟨hy,rfl⟩ := calcBlockSubsidy_of_regular hsubsidy hs' hs
      obtain ⟨hy',rfl⟩ := calcBlockSubsidy_of_regular hsubsidy' ht' ht
      exact table_le_iff hy hy'
  rw [← within_iff hsubsidy,← within_iff hsubsidy'] at hm ⊢
  tauto

theorem subsidy_schedule_iff_fork :
    let p := defaultCoinbaseParams ⟨[],0⟩
    calcBlockSubsidy p false 11776584 1 = .ok 110494760 ∧
      calcBlockSubsidy p false 43334184 1 = .ok 90218580 ∧
      (90218580 : UInt64) ≤ 110494760 ∧ ¬SubtractionWraps p 11776584 ∧
      ¬SubtractionWraps p 43334184 := by
  have hx : calcBlockSubsidy (defaultCoinbaseParams ⟨[],0⟩) false 11776584 1 = .ok 110494760 ∧
      calcBlockSubsidy (defaultCoinbaseParams ⟨[],0⟩) false 43334184 1 = .ok 90218580 := by
    decide +kernel
  have hr := (subsidy_schedule_iff ⟨[],0⟩ 1 (by decide) hx.1 hx.2).2
    ⟨.inr (.inl (by decide)),.inr (.inr (by decide)),by decide⟩
  exact ⟨hx.1,hx.2,hr.1,hr.2.2.2⟩

/-- The first score of the deflationary phase pays 2000 EY, more than the score
before it and more than the base subsidy. At the end of the first year the
rebased score is less than the start of the phase: the subtraction wraps around
and the subsidy is zero. -/
theorem subsidy_schedule_violated :
    let p := defaultCoinbaseParams ⟨[],0⟩
    calcBlockSubsidy p false 359 1 = .ok 800000000 ∧
      calcBlockSubsidy p false 360 1 = .ok 200000000000 ∧
      documentedBaseSubsidy < 200000000000 ∧
      SubtractionWraps p 31557600 ∧ calcBlockSubsidy p false 31557600 1 = .ok 0 ∧
      (0 : UInt64) < documentedMinimumSubsidy := by
  decide +kernel

end Eiyaro
