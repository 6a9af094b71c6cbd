import Mathlib

/-!
# Prefixes as ranges of the lexicographic order

An ordered store finds the keys with a given prefix as the range of keys from
the prefix up to, but excluding, the next string that does not extend it. That
string is the prefix with its last letter replaced by the following one; where
the last letter is the greatest one, it is the bound for the prefix without it.
-/

namespace List
variable {α : Type} [LT α] [Std.Asymm fun a b : α => a < b] [Std.Trichotomous fun a b : α => a < b]

/-- From `p ++ [c]` up to `p ++ [d]`, where `d` follows `c`, lie the extensions
of `p ++ [c]`. -/
lemma mem_range_iff_prefix {c d : α} (h : c ⋖ d) (p k : List α) :
    p ++ [c] ≤ k ∧ k < p ++ [d] ↔ p ++ [c] <+: k := by
  induction p generalizing k with
  | nil =>
    cases k with
    | nil => simp
    | cons x k =>
      simp only [nil_append,cons_le_cons_iff,cons_lt_cons_iff,nil_le,and_true,not_lt_nil,
        and_false,or_false,cons_prefix_cons, nil_prefix]
      constructor
      · rintro ⟨hc | hc,hd⟩
        · exact absurd hd (h.2 hc)
        · exact hc
      · rintro rfl
        exact ⟨.inr rfl,h.1⟩
  | cons a p ih =>
    cases k with
    | nil => simp
    | cons x k =>
      simp only [cons_append,cons_le_cons_iff,cons_lt_cons_iff,cons_prefix_cons,← ih]
      constructor
      · rintro ⟨hl | ⟨rfl,hl⟩,hhg | ⟨heq,hhg⟩⟩
        · exact absurd hhg (Std.Asymm.asymm _ _ hl)
        · subst heq
          exact absurd hl (Std.Irrefl.irrefl x)
        · exact absurd hhg (Std.Irrefl.irrefl a)
        · exact ⟨rfl,hl,hhg⟩
      · rintro ⟨rfl,hl,hhg⟩
        exact ⟨.inr ⟨rfl,hl⟩,.inr ⟨rfl,hhg⟩⟩

/-- Among the extensions of `p`, those of `p ++ [c]` with the greatest letter `c`
are the ones from `p ++ [c]` on. -/
lemma le_and_prefix_iff_prefix {c : α} (h : ∀ x, ¬c < x) (p k : List α) :
    p ++ [c] ≤ k ∧ p <+: k ↔ p ++ [c] <+: k := by
  constructor
  · rintro ⟨hle,r,rfl⟩
    have hr : [c] ≤ r := fun hlt => hle (append_left_lt hlt)
    cases r with
    | nil => simp at hr
    | cons x r =>
      have hx : x = c := by
        obtain hlt | ⟨heq,-⟩ := cons_le_cons_iff.1 hr
        · exact absurd hlt (h x)
        · exact heq.symm
      exact ⟨r,by simp [hx]⟩
  · intro hp
    refine ⟨?_,(prefix_append p [c]).trans hp⟩
    obtain ⟨r,rfl⟩ := hp
    exact le_append_left

end List
