import Eiyaro.Script.Opcode
import Eiyaro.Util.WeakestPre

/-!
# The stacks of the script engine

`stack.go`. The top of a stack is the end of the list. Positions are `int32` and the size of a
stack has to be one, which `checkedStackSize` panics on otherwise; `StackTame` is what keeps a
computation away from that.
-/

namespace Eiyaro.TxScript
open List MonadExcept Nat

abbrev Stack := List (List UInt8)

abbrev StackM := EStateM ScriptFailure Stack

open EStateM

/-- Hands an error of `x` on as a value. A panic goes through. -/
def tolerate {σ α : Type} (x : EStateM ScriptFailure σ α) :
    EStateM ScriptFailure σ (Except ScriptFailure α) := do
  match ← attempt x with
  | .error (.panic message) => throw (.panic message)
  | result => return result

lemma wp_tolerate {σ α : Type} {x : EStateM ScriptFailure σ α}
    {Q : Except ScriptFailure α → σ → Prop} {E : ScriptFailure → σ → Prop} {s : σ}
    (h : wp x (fun a => Q (.ok a)) (fun e t => e.isPanic = false ∧ Q (.error e) t) s) :
    wp (tolerate x) Q E s := by
  rw [tolerate,wp_bind,wp_attempt]
  refine h.mono (fun a t ht => ht) fun e t he => ?_
  cases e with
  | panic message => cases he.1
  | scriptError _ _ => exact he.2
  | error message => exact he.2

/-! ## The source -/

/-- The most items that the data stack and the alternate stack may have together. -/
def maxStackSize : Nat := 244

def checkedStackSize (size : Nat) : Except ScriptFailure Int :=
  if (size : Int) > maxInt32 then
    .error (.panic "stack depth exceeds int32")
  else
    .ok size

def asBool : List UInt8 → Bool
  | [] => false
  -- negative 0 is also considered false
  | [byte] => byte ≠ 0 ∧ byte ≠ 0x80
  | byte :: rest => byte ≠ 0 ∨ asBool rest

def fromBool (v : Bool) : List UInt8 :=
  if v then [1] else []

namespace Stack

def depth : StackM Int := do
  let stk ← get
  ofExcept (checkedStackSize stk.length)

def pushByteArray (so : List UInt8) : StackM Unit :=
  modify fun stk => stk ++ [so]

def pushInt (val : Int) : StackM Unit := do
  let bytes ← ofExcept (scriptNumBytes val)
  pushByteArray bytes

def pushBool (val : Bool) : StackM Unit :=
  pushByteArray (fromBool val)

def invalidIndex {α : Type} (idx size : Int) : Except ScriptFailure α :=
  scriptError .errInvalidStackOperation ("index " ++ toString idx ++
    " is invalid for stack size " ++ toString size)

/-- The arithmetic on positions wraps around. -/
def int32 (position : Int) : Int :=
  position.bmod (2^32)

section
variable (idx : Int) (n : Int)

/-- Takes the item at a position below the top out. -/
def nipN : StackM (List UInt8) := do
  let stk ← get
  let sz ← ofExcept (checkedStackSize stk.length)
  if idx < 0 ∨ idx > sz - 1 then
    ofExcept (invalidIndex idx sz)
  else do
    let so ← ofExcept (indexAt stk (sz - idx - 1))
    if idx = 0 then
      set (stk.take (sz - 1).toNat)
    else if idx = sz - 1 then
      set (stk.drop 1)
    else
      set (stk.take (sz - idx - 1).toNat ++ stk.drop (sz - idx).toNat)
    return so

def popByteArray : StackM (List UInt8) :=
  nipN 0

def popInt : StackM Int := do
  let so ← popByteArray
  ofExcept (makeScriptNum so defaultScriptNumLen)

def popBool : StackM Bool := do
  let so ← popByteArray
  return asBool so

def peekByteArray : StackM (List UInt8) := do
  let stk ← get
  let sz ← ofExcept (checkedStackSize stk.length)
  if idx < 0 ∨ idx ≥ sz then
    ofExcept (invalidIndex idx sz)
  else
    ofExcept (indexAt stk (sz - idx - 1))

/-- `NipN`. -/
def dropNth : StackM Unit := do
  let _ ← nipN idx

def tuck : StackM Unit := do
  let so2 ← popByteArray
  let so1 ← popByteArray
  pushByteArray so2
  pushByteArray so1
  pushByteArray so2

/-- A loop that counts down from `n`. -/
def times : Nat → StackM Unit → StackM Unit
  | 0, _ => return
  | n+1, body => do
    body
    times n body

/-- The loop of an operation on the top `n` items, which have to be at least one. -/
def forN (description : String) (n : Int) (body : StackM Unit) : StackM Unit :=
  if n < 1 then
    ofExcept (scriptError .errInvalidStackOperation description)
  else
    times n.toNat body

/-- Copies the item at a position to the top. -/
def pickN : StackM Unit := do
  let so ← peekByteArray n
  pushByteArray so

/-- Moves the item at a position to the top. -/
def rollN : StackM Unit := do
  let so ← nipN n
  pushByteArray so

def dropN : StackM Unit :=
  forN ("attempt to drop " ++ toString n ++ " items from stack") n (dropNth 0)

def dupN : StackM Unit :=
  forN ("attempt to dup " ++ toString n ++ " stack items") n (pickN (int32 (n - 1)))

def rotN : StackM Unit :=
  forN ("attempt to rotate " ++ toString n ++ " stack items") n
    (rollN (int32 (int32 (3*n) - 1)))

def swapN : StackM Unit :=
  forN ("attempt to swap " ++ toString n ++ " stack items") n (rollN (int32 (int32 (2*n) - 1)))

def overN : StackM Unit :=
  forN ("attempt to perform over on " ++ toString n ++ " stack items") n
    (pickN (int32 (int32 (2*n) - 1)))

end

/-- Pops one item after the other. -/
def popMany : Nat → StackM (List (List UInt8))
  | 0 => return []
  | n+1 => do
    let so ← popByteArray
    let rest ← popMany n
    return so :: rest

/-- The items from the bottom on, each looked up from the top. -/
def getStack : StackM (List (List UInt8)) := do
  let size ← depth
  let items ← (List.range size.toNat).mapM fun (i : Nat) => do
    match ← tolerate (peekByteArray i) with
    | .ok so => return so
    | .error _ => return []
  return items.reverse

/-- Drops everything, where the error for an empty stack is ignored, and pushes the items. -/
def setStack (data : List (List UInt8)) : StackM Unit := do
  let size ← depth
  let _ ← tolerate (dropN size)
  data.forM pushByteArray

end Stack

/-! ## Growth -/

/-- From a stack with room for `k` more items the computation does not panic, and adds at most
as many. Its result satisfies `P`. -/
def StackTame {α : Type} (k : Nat) (P : α → Prop) (x : StackM α) : Prop :=
  ∀ s : Stack, (s.length+k : Nat) ≤ maxInt32 →
    wp x (fun a t => P a ∧ t.length ≤ s.length+k) (fun e _ => e.isPanic = false) s

/-- `StackTame` with any result. -/
abbrev StackGrows {α : Type} (k : Nat) (x : StackM α) : Prop :=
  StackTame k (fun _ => True) x

namespace StackTame
variable {α β : Type} {j k : Nat} {P : α → Prop} {R : β → Prop} {f : α → StackM β} {x : StackM α}

lemma pure {a : α} (h : P a) : StackTame 0 P (pure a) :=
  fun _ _ => ⟨h,le_refl _⟩

lemma bind (hx : StackTame j P x)
    (hf : ∀ a, P a → StackTame k R (f a)) : StackTame (j+k) R (x >>= f) := by
  intro s _
  rw [wp_bind]
  refine (hx s (by omega)).imp (fun a t ht => ?_)
  refine (hf a ht.1 t (by have := ht.2; omega)).imp (fun _ _ hu => ⟨hu.1,?_⟩)
  omega

/-- What comes first adds nothing. -/
lemma seq (hx : StackTame 0 P x)
    (hf : ∀ a, P a → StackTame k R (f a)) : StackTame k R (x >>= f) := by
  have h := hx.bind hf
  rwa [zero_add] at h

lemma mono {P' : α → Prop} (hx : StackTame j P x) (hjk : j ≤ k)
    (hP : ∀ a, P a → P' a) : StackTame k P' x := by
  intro s _
  refine (hx s (by omega)).imp (fun a _ ht => ⟨hP a ht.1,?_⟩)
  omega

lemma ofExcept {x : Except ScriptFailure α} (hok : ∀ a, x = .ok a → P a)
    (he : ∀ e, x = .error e → e.isPanic = false) :
    StackTame 0 P (ofExcept x : StackM α) :=
  fun _ _ => wp_ofExcept (fun a ha => ⟨hok a ha,le_refl _⟩) he

lemma scriptError (code : ErrorCode) (description : String) :
    StackTame 0 P (MonadExcept.ofExcept (TxScript.scriptError code description) : StackM α) :=
  .ofExcept (fun _ h => nomatch h) fun _ h => by
    cases h
    rfl

end StackTame

namespace Stack
variable {α : Type} {k : Nat} {E : ScriptFailure → Stack → Prop} {Q : List UInt8 → Stack → Prop}
  {body : StackM Unit} {s : Stack}

lemma checkedStackSize_eq {size : Nat} (h : (size : Int) ≤ maxInt32) :
    checkedStackSize size = .ok (size : Int) :=
  if_neg (by omega)

lemma depth_tame : StackTame 0 (fun size => 0 ≤ size) depth := by
  intro _ hs
  rw [depth,wp_bind,wp_get,checkedStackSize_eq (by simpa using hs)]
  exact ⟨Int.natCast_nonneg _,le_refl _⟩

lemma pushByteArray_tame (so : List UInt8) : StackGrows 1 (pushByteArray so) := by
  intro s _
  show True ∧ (s ++ [so]).length ≤ s.length+1
  simp

lemma pushInt_tame {val : Int} (h : -2^63 < val) : StackGrows 1 (pushInt val) := by
  obtain ⟨bytes,hb⟩ := scriptNumBytes_eq_ok h
  rw [pushInt,hb]
  exact pushByteArray_tame bytes

lemma pushBool_tame (val : Bool) : StackGrows 1 (pushBool val) :=
  pushByteArray_tame _

/-- The items above a position are as many as it says. -/
lemma exists_indexAt {idx : Int} (h0 : 0 ≤ idx) (hlt : idx < s.length) :
    ∃ base a top, s = base ++ a :: top ∧ idx = top.length ∧
      indexAt s (s.length - idx - 1) = .ok a := by
  obtain ⟨n,rfl⟩ := Int.eq_ofNat_of_zero_le h0
  have hn : s.length - n - 1 < s.length := by omega
  have hnt : (s.length : Int) - (n : Nat) - 1 = (s.length - n - 1 : Nat) := by omega
  refine ⟨s.take (s.length - n - 1),s[s.length - n - 1],s.drop (s.length - n - 1+1),?_,?_,?_⟩
  · rw [← drop_eq_getElem_cons hn,take_append_drop]
  · rw [length_drop]
    omega
  · rw [hnt,indexAt,Int.toNat_natCast,getElem?_eq_getElem hn]
    rfl

section
variable {idx : Int} (hs : (s.length : Int) ≤ maxInt32)
  (hfl : ∀ e, ¬(0 ≤ idx ∧ idx < s.length) → e.isPanic = false → E e s)
include hs hfl

lemma nipN_wp (hok : ∀ base a top, s = base ++ a :: top → idx = top.length → Q a (base ++ top)) :
    wp (nipN idx) Q E s := by
  rw [nipN,wp_bind,wp_get,checkedStackSize_eq hs]
  refine wp_ite (fun h => hfl _ (by omega) rfl) fun _ => ?_
  obtain ⟨base,a,top,rfl,rfl,hat⟩ := exists_indexAt (by omega : 0 ≤ idx) (by omega : idx < s.length)
  have hdn : ∀ t, t = base ++ top →
      wp (do set t; return a : StackM (List UInt8)) Q E (base ++ a :: top) := by
    rintro t rfl
    exact hok base a top rfl rfl
  have hsz : ((base ++ a :: top).length : Int) = base.length+top.length+1 := by
    simp
    omega
  rw [hat]
  refine wp_ite (fun h => hdn _ ?_) fun _ => wp_ite (fun h => hdn _ ?_) fun _ => hdn _ ?_
  · obtain rfl : top = [] := length_eq_zero_iff.1 (by omega)
    simp
  · obtain rfl : base = [] := length_eq_zero_iff.1 (by omega)
    rfl
  · rw [hsz,(by omega : (base.length+top.length+1 - top.length - 1 : Int).toNat = base.length),
      (by omega : (base.length+top.length+1 - top.length : Int).toNat = base.length+1),
      take_left,← drop_drop,drop_left]
    rfl

lemma peekByteArray_wp (hok : ∀ base a top, s = base ++ a :: top → idx = top.length → Q a s) :
    wp (peekByteArray idx) Q E s := by
  rw [peekByteArray,wp_bind,wp_get,checkedStackSize_eq hs]
  refine wp_ite (fun _ => hfl _ (by omega) rfl) fun _ => ?_
  obtain ⟨base,a,top,heq,hl,hat⟩ := exists_indexAt (by omega : 0 ≤ idx) (by omega : idx < s.length)
  rw [hat]
  exact hok base a top heq hl

end

/-- What is left has one item less. -/
lemma nipN_tame (idx : Int) : StackGrows 0 (nipN idx) := by
  intro _ hs
  refine nipN_wp (by simpa using hs) (fun _ _ he => he) ?_
  rintro _ _ _ rfl -
  simp

lemma popByteArray_tame : StackGrows 0 popByteArray :=
  nipN_tame 0

/-- Four bytes are enough for any operand. -/
lemma popInt_tame : StackTame 0 (fun n => n.natAbs < 2^32) popInt :=
  popByteArray_tame.seq fun _ _ => .ofExcept (fun _ h => natAbs_makeScriptNum_lt h)
    fun _ h => makeScriptNum_error h

lemma popBool_tame : StackGrows 0 popBool :=
  popByteArray_tame.seq fun _ _ => .pure trivial

lemma peekByteArray_tame (idx : Int) : StackGrows 0 (peekByteArray idx) :=
  fun _ hs => peekByteArray_wp (by simpa using hs) (fun _ _ he => he)
    fun _ _ _ _ _ => ⟨trivial,le_refl _⟩

lemma dropNth_tame (idx : Int) : StackGrows 0 (dropNth idx) :=
  (nipN_tame idx).seq fun _ _ => .pure trivial

lemma tuck_tame : StackGrows 3 tuck :=
  popByteArray_tame.seq fun so2 _ => popByteArray_tame.seq fun so1 _ =>
    ((pushByteArray_tame so2).bind fun _ _ => (pushByteArray_tame so1).bind fun _ _ =>
      pushByteArray_tame so2).mono (by decide) fun _ h => h

lemma times_tame (h : StackGrows k body) (n : Nat) : StackGrows (n*k) (times n body) := by
  induction n with
  | zero =>
    rw [zero_mul]
    exact .pure trivial
  | succ n ih => exact (h.bind fun _ _ => ih).mono (by rw [succ_mul]; omega) fun _ _ => trivial

lemma forN_tame (h : StackGrows k body) (description : String) (n : Int) :
    StackGrows (n.toNat*k) (forN description n body) := by
  unfold forN
  split
  · exact (StackTame.scriptError _ _).mono (zero_le _) fun _ h => h
  · exact times_tame h n.toNat

lemma pickN_tame (n : Int) : StackGrows 1 (pickN n) :=
  (peekByteArray_tame n).seq fun so _ => pushByteArray_tame so

lemma rollN_tame (n : Int) : StackGrows 1 (rollN n) :=
  (nipN_tame n).seq fun so _ => pushByteArray_tame so

lemma popMany_tame (n : Nat) : StackTame 0 (fun items => items.length = n) (popMany n) := by
  induction n with
  | zero => exact .pure rfl
  | succ n ih =>
    exact popByteArray_tame.seq fun _ _ => ih.seq fun _ h => .pure (congrArg _ h)

/-! ## Whole stacks -/

lemma popByteArray_wp (hs : (s.length : Int) ≤ maxInt32)
    (hnl : ∀ e, s = [] → e.isPanic = false → E e s)
    (hok : ∀ rest so, s = rest ++ [so] → Q so rest) : wp popByteArray Q E s := by
  refine nipN_wp hs (fun e _ => hnl e (length_eq_zero_iff.1 (by omega))) ?_
  intro base a top heq _
  obtain rfl : top = [] := length_eq_zero_iff.1 (by omega)
  rw [append_nil]
  exact hok base a heq

lemma times_dropNth_wp {Q : Unit → Stack → Prop} (s : Stack)
    (hs : (s.length : Int) ≤ maxInt32) (hQ : Q () []) :
    wp (times s.length (dropNth 0)) Q E s := by
  induction s using reverseRecOn with
  | nil => exact hQ
  | append_singleton _ _ ih =>
    rw [length_append,length_singleton] at hs ⊢
    rw [times,dropNth,wp_bind,wp_bind]
    refine popByteArray_wp (by simpa using hs) (fun _ hnl => ?_) fun _ _ heq => ?_
    · simp at hnl
    · rw [← (append_inj' heq rfl).1]
      exact ih (by omega)

section
variable (hs : (s.length : Int) ≤ maxInt32)
include hs

/-- Dropping everything leaves nothing, also when that is an error. -/
lemma dropAll_wp {Q : Unit → Stack → Prop} (hQ : Q () [])
    (hE : ∀ e, e.isPanic = false → E e []) : wp (dropN s.length) Q E s := by
  unfold dropN forN
  cases s with
  | nil => exact hE _ rfl
  | cons _ s =>
    refine wp_ite (fun h => ?_) fun _ => ?_
    · rw [length_cons] at h
      omega
    · exact times_dropNth_wp _ hs hQ

lemma setStack_wp {Q : Unit → Stack → Prop} {data : Stack} (hQ : Q () data) :
    wp (setStack data) Q E s := by
  have hl := wp_forM (I := fun rest stk => stk ++ rest = data) (f := pushByteArray) (E := E)
    (fun so rest stk h => ?_) data [] rfl
  · have hp : wp (data.forM pushByteArray) Q E [] := by
      refine hl.imp (fun _ stk h => ?_)
      rwa [← (append_nil stk).symm.trans h] at hQ
    rw [setStack,wp_bind,depth,wp_bind,wp_get,checkedStackSize_eq hs]
    refine (wp_bind _ _).2 (wp_tolerate (dropAll_wp hs ?_ fun _ he => ⟨he,?_⟩))
    · exact hp
    · exact hp
  · show stk ++ [so] ++ rest = data
    rw [append_assoc]
    exact h

/-- What is saved is the stack, and the stack stays. -/
lemma getStack_wp {Q : List (List UInt8) → Stack → Prop} (hQ : Q s s) : wp getStack Q E s := by
  rw [getStack,wp_bind,depth,wp_bind,wp_get,checkedStackSize_eq hs]
  refine (wp_bind _ _).2 ((wp_mapM (g := fun i => s.reverse.getD i []) fun i hi => ?_).imp
    fun _ t h => ?_)
  · rw [wp_bind]
    refine wp_tolerate (peekByteArray_wp hs (fun _ hidx => ?_) ?_)
    · exact absurd ⟨by omega,by simpa using hi⟩ hidx
    · rintro _ _ top rfl _
      obtain rfl : i = top.length := by omega
      constructor
      · simp
      · rfl
  · obtain ⟨rfl,rfl⟩ := h
    rw [Int.toNat_natCast]
    have hit : (range t.length).map (fun i => t.reverse.getD i []) = t.reverse := by
      refine ext_getElem (by simp) fun i hi hi' => ?_
      rw [getElem_map,getElem_range,getD_eq_getElem?_getD,getElem?_eq_getElem hi',Option.getD_some]
    rw [hit,reverse_reverse]
    exact hQ

end

/-! ## Operations on several items -/

/-- `x` fails on a stack with less than `k` items, and otherwise changes its top `k` items
by `f` and leaves those below in place. -/
def ChangesTop (k : Nat) (f : Stack → Stack) (x : StackM Unit) (s : Stack) : Prop :=
  (s.length < k → wp x (fun _ _ => False) (fun e _ => e.isPanic = false) s) ∧
  ∀ base top, s = base ++ top → top.length = k →
    wp x (fun _ t => t = base ++ f top) (fun _ _ => False) s

/-- The first `n` items go to the end, and each leaves `keep` of it behind. -/
def shift (keep : List UInt8 → Stack) (n : Nat) (top : Stack) : Stack :=
  (top.take n).flatMap keep ++ (top.drop n ++ top.take n)

lemma ChangesTop.of_wp {f : Stack → Stack} {x : StackM Unit} (h : ∀ Q E,
      (∀ e, s.length < k → e.isPanic = false → E e s) →
      (∀ base top, s = base ++ top → top.length = k → Q () (base ++ f top)) → wp x Q E s) :
    ChangesTop k f x s := by
  refine ⟨fun hlt => h _ _ (fun _ _ he => he) ?_,?_⟩
  · rintro base top rfl hl
    rw [length_append] at hlt
    omega
  · rintro base top rfl hl
    refine h _ _ (fun _ hlt => ?_) fun _ _ heq hl' => ?_
    · rw [length_append] at hlt
      omega
    · obtain ⟨rfl,rfl⟩ := append_inj' heq (hl.trans hl'.symm)
      rfl

section
variable {idx : Int} (hk : 0 < k) (hidx : idx = k - 1) (hs : (s.length : Int) ≤ maxInt32)
include hk hidx hs

lemma pickN_changesTop : ChangesTop k (shift (fun a => [a]) 1) (pickN idx) s := by
  refine .of_wp fun Q E hfl hok => ?_
  rw [pickN,wp_bind]
  refine peekByteArray_wp hs (fun e h => hfl e (by omega)) fun base a top heq _ => ?_
  have h := hok base (a :: top) heq (by rw [length_cons]; omega)
  rwa [show base ++ shift _ 1 (a :: top) = s ++ [a] by simp [shift,heq]] at h

lemma rollN_changesTop : ChangesTop k (shift (fun _ => []) 1) (rollN idx) s := by
  refine .of_wp fun Q E hfl hok => ?_
  rw [rollN,wp_bind]
  refine nipN_wp hs (fun e h => hfl e (by omega)) fun base a top heq _ => ?_
  have h := hok base (a :: top) heq (by rw [length_cons]; omega)
  rwa [show base ++ shift _ 1 (a :: top) = base ++ top ++ [a] by simp [shift]] at h

end

section
variable {n : Nat} {keep : List UInt8 → Stack}
  (hbd : ∀ {s : Stack}, (s.length : Int) ≤ maxInt32 → ChangesTop k (shift keep 1) body s)
  (hkp : ∀ a, (keep a).length ≤ 1)
include hbd hkp

/-- Round after round the item at the position is the next one, as the others move down. -/
lemma times_wp (moved : Stack) : ∀ base rest : Stack, moved.length+rest.length = k →
    ((base ++ (moved ++ rest)).length+moved.length : Nat) ≤ maxInt32 →
    wp (times moved.length body) (fun _ t => t = base ++ (moved.flatMap keep ++ (rest ++ moved)))
      (fun _ _ => False) (base ++ (moved ++ rest)) := by
  induction moved with
  | nil => simp [times,wp_pure]
  | cons a moved ih =>
    intro base rest hk hs
    simp only [length_append,length_cons] at hk hs
    have hl := hkp a
    rw [length_cons,times,wp_bind]
    refine ((hbd (by simp; omega)).2 base _ rfl (by simp; omega)).imp fun _ t ht => ?_
    have hnx := ih (base ++ keep a) (rest ++ [a]) (by simp; omega) (by simp; omega)
    rw [ht]
    simpa [shift] using hnx

lemma forN_changesTop (hn : 0 < n) (hnk : n ≤ k) (hs : (s.length+n : Nat) ≤ maxInt32)
    (description : String) : ChangesTop k (shift keep n) (forN description n body) s := by
  rw [forN,if_neg (by omega),Int.toNat_natCast]
  refine ⟨fun hlt => ?_,?_⟩
  · obtain ⟨n,rfl⟩ : ∃ m, n = m+1 := ⟨n - 1,by omega⟩
    rw [times,wp_bind]
    exact ((hbd (by omega)).1 hlt).imp fun _ _ => False.elim
  · rintro base top rfl _
    have ht : (top.take n).length = n := length_take_of_le (by omega)
    have hl := times_wp hbd hkp (top.take n) base (top.drop n) (by simp; omega)
      (by rw [take_append_drop,ht]; exact hs)
    rwa [ht,take_append_drop] at hl

end

section
variable {n : Nat} {idx : Int} (hn : 0 < n) (hnk : n ≤ k) (hidx : idx = k - 1)
  (hs : (s.length+n : Nat) ≤ maxInt32) (description : String)
include hn hnk hidx hs

lemma forN_pickN :
    ChangesTop k (fun top => top ++ top.take n) (forN description n (pickN idx)) s := by
  have hkp : shift (fun a => [a]) n = fun top => top ++ top.take n := by
    funext top
    simp [shift,← append_assoc]
  rw [← hkp]
  exact forN_changesTop (pickN_changesTop (by omega) hidx) (fun _ => le_refl 1) hn hnk hs _

lemma forN_rollN : ChangesTop k (fun top => top.drop n ++ top.take n)
    (forN description n (rollN idx)) s := by
  have hkp : shift (fun _ => []) n = fun top => top.drop n ++ top.take n := by
    funext top
    simp [shift]
  rw [← hkp]
  exact forN_changesTop (rollN_changesTop (by omega) hidx) (fun _ => zero_le 1) hn hnk hs _

end

lemma int32_eq {position : Int} (h0 : 0 ≤ position) (h : position ≤ maxInt32) :
    int32 position = position := by
  rw [maxInt32] at h
  exact Int.bmod_eq_of_le (by omega) (by omega)

/-- The operations on `n` items, for stacks whose size stays an `int32`. -/
theorem changesTop_operations (n : Nat) (hn : 0 < n) (hmax : n ≤ maxStackSize) (s : Stack)
    (hs : (s.length+n : Nat) ≤ maxInt32) :
    ChangesTop n (fun top => top ++ top) (dupN n) s ∧
    ChangesTop (3*n) (fun top => top.drop n ++ top.take n) (rotN n) s ∧
    ChangesTop (2*n) (fun top => top.drop n ++ top.take n) (swapN n) s ∧
    ChangesTop (2*n) (fun top => top ++ top.take n) (overN n) s := by
  -- no position wraps around
  have hi : ∀ position : Int, 0 ≤ position → position ≤ 3*n → int32 position = position := by
    intro position h0 hle
    refine int32_eq h0 ?_
    rw [maxInt32]
    rw [maxStackSize] at hmax
    omega
  have h1 : int32 ((n : Int) - 1) = (n : Nat) - 1 := hi _ (by omega) (by omega)
  have h2 : int32 (int32 (2*n) - 1) = (2*n : Nat) - 1 := by
    rw [hi (2*n) (by omega) (by omega),hi _ (by omega) (by omega)]
    omega
  have h3 : int32 (int32 (3*n) - 1) = (3*n : Nat) - 1 := by
    rw [hi (3*n) (by omega) (by omega),hi _ (by omega) (by omega)]
    omega
  refine ⟨?_,forN_rollN hn (by omega) h3 hs _,forN_rollN hn (by omega) h2 hs _,
    forN_pickN hn (by omega) h2 hs _⟩
  obtain ⟨hfl,hok⟩ := forN_pickN (k := n) hn (le_refl n) h1 hs
    ("attempt to dup " ++ toString (n : Int) ++ " stack items")
  refine ⟨hfl,fun base top hb ht => ?_⟩
  have h := hok base top hb ht
  dsimp only at h
  rwa [take_of_length_le (by omega)] at h

theorem changesTop_operations_two :
    (([[0],[1],[2],[3],[4]] : Stack).length+2 : Nat) ≤ maxInt32 ∧
      ChangesTop 4 (fun top => top.drop 2 ++ top.take 2) (swapN 2) [[0],[1],[2],[3],[4]] :=
  ⟨by decide,(changesTop_operations 2 (by decide) (by decide) [[0],[1],[2],[3],[4]]
    (by decide)).2.2.1⟩

end Stack
end Eiyaro.TxScript
