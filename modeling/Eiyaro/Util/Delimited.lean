import Eiyaro.Util.LittleEndian

/-!
# Self-delimiting encodings

An encoding is delimited if what it is followed by cannot be taken for a part of
it. Then the parts of a concatenation can be read back one after the other. What
can be read back of a value is its view, which forgets the fields that are not
encoded.
-/

namespace Eiyaro
open List
variable {α γ γ' ι σ : Type}

/-- For the values that satisfy `P`, an encoding and what follows it determine the
view of the value and where the encoding ends. -/
def Delimited (P : α → Prop) (encode : α → List σ) (view : α → γ) : Prop :=
  ∀ a b s t, P a → P b → encode a ++ s = encode b ++ t → view a = view b ∧ s = t

namespace Delimited
variable {P Q : α → Prop} {encode encode' : α → List σ} {view : α → γ} {view' : α → γ'}

lemma view_eq (h : Delimited P encode view) {a b : α} (ha : P a) (hb : P b)
    (heq : encode a = encode b) : view a = view b :=
  (h a b [] [] ha hb (by rw [heq])).1

/-- Encodings of one length are delimited by it. -/
lemma of_length (n : Nat) (hl : ∀ a, P a → (encode a).length = n)
    (hv : ∀ a b, P a → P b → encode a = encode b → view a = view b) :
    Delimited P encode view := by
  intro a b _ _ ha hb heq
  obtain ⟨he,hr⟩ := append_inj heq (by rw [hl a ha,hl b hb])
  exact ⟨hv a b ha hb he,hr⟩

section
variable (h : Delimited P encode view) {as bs : List α}
include h

lemma append (h' : Delimited Q encode' view') :
    Delimited (fun a => P a ∧ Q a) (fun a => encode a ++ encode' a)
      (fun a => (view a, view' a)) := by
  intro a b s t ha hb heq
  simp only [append_assoc] at heq
  obtain ⟨hv,hr⟩ := h a b _ _ ha.1 hb.1 heq
  obtain ⟨hv',hr'⟩ := h' a b s t ha.2 hb.2 hr
  exact ⟨Prod.ext hv hv',hr'⟩

/-- Encoding a part of a value. -/
lemma comap (part : ι → α) :
    Delimited (fun i => P (part i)) (fun i => encode (part i)) (fun i => view (part i)) :=
  fun _ _ s t hi hj heq => h _ _ s t hi hj heq

lemma mono (hd : ∀ a, Q a → P a)
    (hv : ∀ a b, view a = view b → view' a = view' b) : Delimited Q encode view' := by
  intro a b s t ha hb heq
  obtain ⟨heq',hr⟩ := h a b s t (hd a ha) (hd b hb) heq
  exact ⟨hv a b heq',hr⟩

/-- Two lists of one length, element after element. -/
lemma flatMap_of_length_eq {s t : List σ}
    (hl : as.length = bs.length) (has : ∀ a ∈ as, P a) (hbs : ∀ b ∈ bs, P b)
    (heq : as.flatMap encode ++ s = bs.flatMap encode ++ t) :
    as.map view = bs.map view ∧ s = t := by
  induction as generalizing bs with
  | nil =>
    obtain rfl : bs = [] := length_eq_zero_iff.1 hl.symm
    exact ⟨rfl,heq⟩
  | cons a as ih =>
    cases bs with
    | nil => cases hl
    | cons b bs =>
      simp only [flatMap_cons,append_assoc] at heq
      obtain ⟨hvw,hr⟩ := h a b _ _ (has a (by simp)) (hbs b (by simp)) heq
      obtain ⟨hv,hr'⟩ := ih (Nat.succ.inj hl)
        (fun c hc => has c (by simp [hc])) (fun c hc => hbs c (by simp [hc])) hr
      exact ⟨by simp [hvw,hv],hr'⟩

/-- A list that is not followed by anything needs no count, if every element leaves a trace. -/
lemma flatMap_view_eq (hne : ∀ a, encode a ≠ []) (has : ∀ a ∈ as, P a) (hbs : ∀ b ∈ bs, P b)
    (heq : as.flatMap encode = bs.flatMap encode) : as.map view = bs.map view := by
  induction as generalizing bs with
  | nil =>
    cases bs with
    | nil => rfl
    | cons b bs => simp [hne] at heq
  | cons a as ih =>
    cases bs with
    | nil => simp [hne] at heq
    | cons b bs =>
      obtain ⟨hvw,hr⟩ := h a b _ _ (has a (by simp)) (hbs b (by simp)) heq
      have hv := ih (fun c hc => has c (by simp [hc])) (fun c hc => hbs c (by simp [hc])) hr
      simp [hvw,hv]

end
end Delimited

/-! ## Numbers and counted lists -/

lemma delimited_putLittleEndian (width : Nat) :
    Delimited (fun n => n < 256^width) (putLittleEndian width) id :=
  .of_length width (fun n _ => length_putLittleEndian width n)
    fun _ _ hm hn heq => putLittleEndian_injective hm hn heq

/-- The number of elements, and then the elements. -/
lemma Delimited.counted {P : α → Prop} {encode : α → List UInt8} {view : α → γ}
    (h : Delimited P encode view) (width : Nat) :
    Delimited (fun as : List α => as.length < 256^width ∧ ∀ a ∈ as, P a)
      (fun as => putLittleEndian width as.length ++ as.flatMap encode)
      (fun as => as.map view) := by
  intro as _ _ _ has hbs heq
  simp only [append_assoc] at heq
  obtain ⟨hl,hr⟩ := delimited_putLittleEndian width _ _ _ _ has.1 hbs.1 heq
  exact h.flatMap_of_length_eq hl has.2 hbs.2 hr

end Eiyaro
