import Mathlib

/-!
# How a computation of the node fails

A Go function either returns an error, which is a broken consensus rule of
`ruleerrors` or something else, or panics and takes the process down.
-/

namespace Eiyaro
open List

inductive RuleError
  | errWrongBlockVersion
  | errTimeTooMuchInTheFuture
  | errNoParents
  | errTooManyParents
  | errGenesisOnInitializedConsensus
  | errDuplicateBlock
  | errVirtualGenesisParent
  | errMissingParents
  | errInvalidParentsRelation
  | errUnexpectedParents
  | errNegativeTarget
  | errTargetTooHigh
  | errTimeTooOld
  | errViolatingMergeLimit
  | errViolatingBoundedMergeDepth
  | errUnexpectedDAAScore
  | errUnexpectedBlueWork
  | errUnexpectedBlueScore
  | errMissingTxOut
  | errBadCoinbasePayloadLen
  | errBadUTXOCommitment
  | errBadPruningPointUTXOSet
  | errBadMerkleRoot
  | errBadCoinbaseTransaction
  | errKnownInvalid
  | errInvalidAncestorBlock
  | errImmatureSpend
  | errBadTxOutValue
  | errSpendTooHigh
  | errUnfinalizedTx
  | errWrongSigOpCount
  | errScriptMalformed
  | errScriptValidation
  | errNoTxInputs
  | errTxOutValueZero
  | errDuplicateTxInputs
  | errCoinbaseWithInputs
  | errCoinbaseTooManyOutputs
  | errCoinbaseTooLongScriptPublicKey
  | errInvalidGas
  | errSubnetworkRegistry
  | errTooLargePayload
  | errInvalidPayload
  | errSubnetworksDisabled
  | errTransactionVersionIsUnknown
  | errInvalidPoW
  | errUnexpectedDifficulty
  | errPruningProofEmpty
  | errPruningProofWrongBlockLevel
  | errPruningProofHeaderWithNoKnownParents
  | errPruningProofMissingBlockAtDepthMFromNextLevel
  | errPruningProofMissesBlocksBelowPruningPoint
  | errPruningProofSelectedTipIsNotThePruningPoint
  | errPruningProofSelectedTipNotParentOfPruningPoint
  | errPruningProofInsufficientBlueWork
deriving DecidableEq

inductive Failure
  | ruleError (error : RuleError) (message : String)
  | error (message : String)
  | panic (message : String)
deriving DecidableEq

variable {ε α β : Type} {c : Prop} {a : α} {f : α → Except ε β} {as : List α} {bs : List β}
  {slice : List α} {x : Except ε α}

@[simp]
lemma ok_bind (a : α) (f : α → Except ε β) : (Except.ok a >>= f) = f a :=
  rfl

@[simp]
lemma error_bind (failure : ε) (f : α → Except ε β) :
    ((.error failure : Except ε α) >>= f) = .error failure :=
  rfl

lemma bind_eq_ok {b : β} (h : x >>= f = .ok b) : ∃ a, x = .ok a ∧ f a = .ok b := by
  cases x with
  | error _ => cases h
  | ok a => exact ⟨a,rfl,h⟩

lemma bind₂_eq_ok {γ : Type} {g : α → β → Except ε γ} {c : γ}
    (h : (x >>= fun a => f a >>= g a) = .ok c) :
    ∃ a, x = .ok a ∧ ∃ b, f a = .ok b ∧ g a b = .ok c := by
  obtain ⟨a,ha,h⟩ := bind_eq_ok h
  exact ⟨a,ha,bind_eq_ok h⟩

lemma toOption_eq_some : x.toOption = some a ↔ x = .ok a := by
  cases x with
  | error _ => simp [Except.toOption]
  | ok _ => simp [Except.toOption]

lemma of_ite_error [Decidable c] {failure : ε} (h : (if c then .error failure else x) = .ok a)
    : ¬ c ∧ x = .ok a := by
  by_cases hc : c
  · rw [if_pos hc] at h
    cases h
  · rw [if_neg hc] at h
    exact ⟨hc,h⟩

lemma mapM_eq_ok (h : ∀ a ∈ as, ∃ b, f a = .ok b) : ∃ bs, as.mapM f = .ok bs := by
  induction as with
  | nil => exact ⟨[],rfl⟩
  | cons a as ih =>
    rw [forall_mem_cons] at h
    obtain ⟨b,hb⟩ := h.1
    obtain ⟨bs,hbs⟩ := ih h.2
    exact ⟨b :: bs,by rw [mapM_cons,hb,ok_bind,hbs,ok_bind]; rfl⟩

lemma forall₂_of_mapM (h : as.mapM f = .ok bs) : Forall₂ (fun a b => f a = .ok b) as bs := by
  induction as generalizing bs with
  | nil =>
    cases h
    exact .nil
  | cons a as ih =>
    rw [mapM_cons] at h
    obtain ⟨b,hb,_,hbs',h⟩ := bind₂_eq_ok h
    cases h
    exact .cons hb (ih hbs')

lemma exists_of_forall₂ {R : α → β → Prop} (h : Forall₂ R as bs) : ∀ a ∈ as, ∃ b ∈ bs, R a b := by
  induction h with
  | nil => simp
  | cons hab _ ih =>
    rw [forall_mem_cons]
    refine ⟨⟨_,mem_cons_self,hab⟩,fun a ha => ?_⟩
    obtain ⟨b,hb,hab⟩ := ih a ha
    exact ⟨b,mem_cons_of_mem _ hb,hab⟩

section
variable (h : as.mapM f = .ok bs)
include h

lemma exists_of_mem_mapM : ∀ b ∈ bs, ∃ a ∈ as, f a = .ok b :=
  exists_of_forall₂ (forall₂_of_mapM h).flip

lemma length_mapM_ok : bs.length = as.length :=
  (forall₂_of_mapM h).length_eq.symm

lemma getElem?_mapM_ok {i : Nat} (ha : as[i]? = some a) : ∃ b, bs[i]? = some b ∧ f a = .ok b := by
  obtain ⟨hi,rfl⟩ := List.getElem?_eq_some_iff.1 ha
  obtain ⟨_,hg⟩ := forall₂_iff_get.1 (forall₂_of_mapM h)
  exact ⟨bs[i],getElem?_eq_getElem _,hg i hi _⟩

end

lemma map_mapM_ok {γ : Type} {g : β → γ} {h : α → γ} (hok : as.mapM f = .ok bs)
    (hf : ∀ a b, f a = .ok b → g b = h a) : bs.map g = as.map h := by
  have hs := (forall₂_of_mapM hok).imp hf
  clear hok
  induction hs with
  | nil => rfl
  | cons hab _ ih => rw [map_cons,map_cons,hab,ih]

@[elab_as_elim]
lemma foldlM_rec {g : β → α → Except ε β} {b b' : β} {motive : List α → β → Prop}
    (h : as.foldlM g b = .ok b') (nil : motive [] b')
    (cons : ∀ a as b next, g b a = .ok next → as.foldlM g next = .ok b' → motive as next →
      motive (a :: as) b) : motive as b := by
  induction as generalizing b with
  | nil =>
    cases h
    exact nil
  | cons a as ih =>
    obtain ⟨next,hn,h⟩ := bind_eq_ok h
    exact cons a as b next hn h (ih h)

lemma forM_eq_ok {f : α → Except ε Unit} : as.forM f = .ok () ↔ ∀ a ∈ as, f a = .ok () := by
  induction as with
  | nil => simp [pure,Except.pure]
  | cons a as ih =>
    rw [forall_mem_cons,← ih]
    constructor
    · intro h
      obtain ⟨_,ha,has⟩ := bind_eq_ok h
      exact ⟨ha,has⟩
    · rintro ⟨ha,has⟩
      show (f a >>= fun _ => as.forM f) = .ok ()
      rw [ha,ok_bind,has]

/-- Every error of the computation satisfies `P`. -/
def ErrorsIn {ε α : Type} (P : ε → Prop) (x : Except ε α) : Prop :=
  ∀ e, x = .error e → P e

namespace ErrorsIn
variable {P : ε → Prop}

lemma ok (a : α) : ErrorsIn P (.ok a : Except ε α) := by
  intro _ h
  cases h

lemma error {e : ε} (h : P e) : ErrorsIn P (.error e : Except ε α) := by
  intro _ he
  cases he
  exact h

lemma bind (hx : ErrorsIn P x) (hf : ∀ a, x = .ok a → ErrorsIn P (f a)) : ErrorsIn P (x >>= f) := by
  cases x with
  | error e => exact error (hx e rfl)
  | ok a => exact hf a rfl

lemma ite [Decidable c] {y : Except ε α} (hx : c → ErrorsIn P x) (hy : ¬c → ErrorsIn P y)
    : ErrorsIn P (if c then x else y) := by
  split
  · next h => exact hx h
  · next h => exact hy h

lemma forM {f : α → Except ε Unit} (h : ∀ a ∈ as, ErrorsIn P (f a)) : ErrorsIn P (as.forM f) := by
  induction as with
  | nil => exact .ok ()
  | cons a as ih =>
    rw [forall_mem_cons] at h
    exact h.1.bind fun _ _ => ih h.2

lemma mapM (h : ∀ a ∈ as, ErrorsIn P (f a)) : ErrorsIn P (as.mapM f) := by
  induction as with
  | nil => exact .ok []
  | cons a as ih =>
    rw [forall_mem_cons] at h
    rw [mapM_cons]
    exact h.1.bind fun _ _ => (ih h.2).bind fun _ _ => .ok _

lemma foldlM {f : β → α → Except ε β} (h : ∀ b, ∀ a ∈ as, ErrorsIn P (f b a))
    (b : β) : ErrorsIn P (as.foldlM f b) := by
  induction as generalizing b with
  | nil => exact .ok b
  | cons a as ih =>
    exact (h b a mem_cons_self).bind fun c _ =>
      ih (fun b a ha => h b a (mem_cons_of_mem _ ha)) c

end ErrorsIn

def NoPanic {α : Type} (x : Except Failure α) : Prop :=
  ∀ message, x ≠ .error (.panic message)

section
variable {f : α → Except Failure β} {x y : Except Failure α}

lemma NoPanic.ok (a : α) : NoPanic (.ok a) := by
  intro _ h
  cases h

lemma NoPanic.ruleError (error : RuleError) (message : String) :
    NoPanic (.error (.ruleError error message) : Except Failure α) := by
  intro message h
  cases h

section
variable {P : α → Prop} (message : String)

lemma NoPanic.error : NoPanic (.error (.error message) : Except Failure α) := by
  intro message h
  cases h

lemma noPanic_iff : NoPanic x ↔ ErrorsIn (fun e => ∀ message, e ≠ .panic message) x := by
  constructor
  · rintro h e rfl message rfl
    exact h message rfl
  · rintro h message rfl
    exact h _ rfl message rfl

/-- What follows may use the result of what came before. -/
lemma NoPanic.bind_ok (hx : NoPanic x) (hf : ∀ a, x = .ok a → NoPanic (f a)) : NoPanic (x >>= f) :=
  noPanic_iff.2 ((noPanic_iff.1 hx).bind fun a ha => noPanic_iff.1 (hf a ha))

lemma NoPanic.bind (hx : NoPanic x) (hf : ∀ a, NoPanic (f a)) : NoPanic (x >>= f) :=
  hx.bind_ok fun a _ => hf a

lemma noPanic_bind_iff :
    NoPanic (x >>= f) ↔ NoPanic x ∧ ∀ a, x = .ok a → NoPanic (f a) := by
  refine ⟨fun h => ⟨?_,?_⟩,fun h => h.1.bind_ok h.2⟩
  · rintro message rfl
    exact h message rfl
  · rintro a rfl
    exact h

lemma NoPanic.ite [Decidable c] (hx : c → NoPanic x) (hy : ¬c → NoPanic y)
    : NoPanic (if c then x else y) :=
  noPanic_iff.2 (.ite (fun h => noPanic_iff.1 (hx h)) fun h => noPanic_iff.1 (hy h))

lemma NoPanic.mapM (h : ∀ a ∈ as, NoPanic (f a)) : NoPanic (as.mapM f) :=
  noPanic_iff.2 (.mapM fun a ha => noPanic_iff.1 (h a ha))

lemma NoPanic.foldlM {f : β → α → Except Failure β}
    (h : ∀ b, ∀ a ∈ as, NoPanic (f b a)) (b : β) : NoPanic (as.foldlM f b) :=
  noPanic_iff.2 (.foldlM (fun b a ha => noPanic_iff.1 (h b a ha)) b)

/-- The computation does not panic, and a condition holds of its result. -/
def Safe {α : Type} (P : α → Prop) (x : Except Failure α) : Prop :=
  NoPanic x ∧ ∀ a, x = .ok a → P a

lemma Safe.ok (h : P a) : Safe P (.ok a) := by
  refine ⟨.ok a,fun _ hb => ?_⟩
  cases hb
  exact h

lemma Safe.error : Safe P (.error (.error message)) :=
  ⟨.error message,fun _ h => nomatch h⟩

lemma Safe.noPanic_bind (hx : Safe P x) (hf : ∀ a, P a → NoPanic (f a)) : NoPanic (x >>= f) :=
  hx.1.bind_ok fun a ha => hf a (hx.2 a ha)

lemma NoPanic.safe_bind {P : β → Prop} (hx : NoPanic x)
    (hf : ∀ a, x = .ok a → Safe P (f a)) : Safe P (x >>= f) := by
  refine ⟨hx.bind_ok fun a ha => (hf a ha).1,fun b h => ?_⟩
  obtain ⟨a,ha,h⟩ := bind_eq_ok h
  exact (hf a ha).2 b h

lemma Safe.bind {Q : β → Prop} (hx : Safe P x) (hf : ∀ a, P a → Safe Q (f a)) : Safe Q (x >>= f) :=
  hx.1.safe_bind fun a ha => hf a (hx.2 a ha)

end

/-- The computation can only fail because a consensus rule is broken. -/
def OnlyRuleErrors {α : Type} (x : Except Failure α) : Prop :=
  (∃ a, x = .ok a) ∨ ∃ error message, x = .error (.ruleError error message)

lemma onlyRuleErrors_iff :
    OnlyRuleErrors x ↔ ErrorsIn (fun e => ∃ error message, e = .ruleError error message) x := by
  cases x <;> simp [OnlyRuleErrors,ErrorsIn]

lemma OnlyRuleErrors.bind (hx : OnlyRuleErrors x) (hf : ∀ a, x = .ok a → OnlyRuleErrors (f a)) :
    OnlyRuleErrors (x >>= f) :=
  onlyRuleErrors_iff.2 ((onlyRuleErrors_iff.1 hx).bind fun a ha => onlyRuleErrors_iff.1 (hf a ha))

lemma OnlyRuleErrors.ite [Decidable c] (hx : c → OnlyRuleErrors x) (hy : ¬c → OnlyRuleErrors y) :
    OnlyRuleErrors (if c then x else y) :=
  onlyRuleErrors_iff.2
    (.ite (fun h => onlyRuleErrors_iff.1 (hx h)) fun h => onlyRuleErrors_iff.1 (hy h))

lemma OnlyRuleErrors.ok (a : α) : OnlyRuleErrors (.ok a) :=
  .inl ⟨a,rfl⟩

lemma OnlyRuleErrors.ruleError (error : RuleError) (message : String) :
    OnlyRuleErrors (.error (.ruleError error message) : Except Failure α) :=
  .inr ⟨error,message,rfl⟩

lemma OnlyRuleErrors.mapM (h : ∀ a ∈ as, OnlyRuleErrors (f a)) : OnlyRuleErrors (as.mapM f) :=
  onlyRuleErrors_iff.2 (.mapM fun a ha => onlyRuleErrors_iff.1 (h a ha))

lemma OnlyRuleErrors.forM {f : α → Except Failure Unit}
    (h : ∀ a ∈ as, OnlyRuleErrors (f a)) : OnlyRuleErrors (as.forM f) :=
  onlyRuleErrors_iff.2 (.forM fun a ha => onlyRuleErrors_iff.1 (h a ha))

end

/-- A slice access, which panics outside of the slice. -/
def indexSlice {α : Type} (slice : List α) (i : Nat) : Except Failure α :=
  match slice[i]? with
  | some a => .ok a
  | none => .error (.panic "index out of range")

lemma OnlyRuleErrors.indexSlice_zero (h : slice ≠ []) : OnlyRuleErrors (indexSlice slice 0) := by
  cases slice with
  | nil => exact absurd rfl h
  | cons a _ => exact .ok a

lemma mem_of_indexSlice {i : Nat} (h : indexSlice slice i = .ok a) : a ∈ slice := by
  unfold indexSlice at h
  split at h
  · next hg =>
    cases h
    exact mem_of_getElem? hg
  · cases h

lemma indexSlice_of_lt {i : Nat} (h : i < slice.length) : indexSlice slice i = .ok slice[i] := by
  simp [indexSlice,h]

lemma noPanic_indexSlice_iff {i : Nat} : NoPanic (indexSlice slice i) ↔ i < slice.length := by
  constructor
  · intro h
    by_contra hi
    exact h "index out of range" (by simp [indexSlice,hi])
  · intro h
    rw [indexSlice_of_lt h]
    exact .ok _

/-- The only failures of the accesses are panics, so none may be out of range. -/
lemma noPanic_mapM_indexSlice_iff {index : β → Nat} {bs : List β} :
    NoPanic (bs.mapM fun b => indexSlice slice (index b)) ↔
      ∀ b ∈ bs, index b < slice.length := by
  refine ⟨fun h => ?_,fun h => .mapM fun b hb => noPanic_indexSlice_iff.2 (h b hb)⟩
  induction bs with
  | nil => simp
  | cons b bs ih =>
    rw [mapM_cons,noPanic_bind_iff,noPanic_indexSlice_iff] at h
    obtain ⟨hb,h⟩ := h
    exact forall_mem_cons.2 ⟨hb,ih (noPanic_bind_iff.1 (h _ (indexSlice_of_lt hb))).1⟩

end Eiyaro
