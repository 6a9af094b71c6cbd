import Mathlib

/-!
# Two walks that meet

Two walks along the pointers of a forest. The weights do not decrease along a pointer, and at each
step the walk at the lower weight goes on, the second one if both weights are equal. The walks
end in a common root, so they have a common node. They are where they should be as long as the
second one does not go past the root, which could only happen while the first one waits at another
node of the greatest weight.
-/

variable {K : Type}

/-- The nodes from one node on, up to but not including the last one. -/
inductive Climb (next : K → Option K) : List K → K → K → Prop
  | nil (k : K) : Climb next [] k k
  | cons {k k' top : K} {nodes : List K} (hnext : next k = some k')
      (hclimb : Climb next nodes k' top) : Climb next (k :: nodes) k top

namespace Climb
variable {next : K → Option K} {nodes : List K} {k top : K}

lemma trans {nodes' : List K} {top' : K} (h : Climb next nodes k top)
    (h' : Climb next nodes' top top') : Climb next (nodes ++ nodes') k top' := by
  induction h with
  | nil => exact h'
  | cons hn _ ih => exact .cons hn (ih h')

lemma weight_le {V : K → Prop} {weight : K → Nat}
    (hst : ∀ k k', V k → next k = some k' → V k' ∧ weight k ≤ weight k')
    (h : Climb next nodes k top) (hk : V k) : weight k ≤ weight top := by
  induction h with
  | nil => exact Nat.le_refl _
  | cons hn _ ih =>
    obtain ⟨hk',hle⟩ := hst _ _ hk hn
    exact Nat.le_trans hle (ih hk')

end Climb

section
variable [DecidableEq K] (next : K → Option K) (weight : K → Nat)

/-- The nodes that the two walks leave behind until they meet. -/
def meet : Nat → K → K → Option (List K × List K)
  | 0, _, _ => none
  | rounds+1, first, second =>
    if weight first < weight second then do
      let first' ← next first
      let (left, left') ← meet rounds first' second
      return (first :: left, left')
    else if second = first then
      return ([], [])
    else do
      let second' ← next second
      let (left, left') ← meet rounds first second'
      return (left, second :: left')

end

section
variable [DecidableEq K] {next : K → Option K} {weight : K → Nat} {V : K → Prop} {root : K}

section
variable (hst : ∀ k k', V k → next k = some k' → V k' ∧ weight k ≤ weight k')
  (hrt : next root = none) {rounds : Nat}
include hst hrt

/-- The walks from two nodes with `V`, where the second walk has left the nodes with `Passed`
behind: they have at most the weight of the first walk, and if the first walk is at one of them,
the second one has more weight. -/
lemma exists_meet_passed (Passed : K → Prop) {start first second : K}
    {nodes before nodes' : List K} (hV : V first) (hV' : V second)
    (hbf : Climb next before start first)
    (hfr : Climb next nodes first root) (hsc : Climb next nodes' second root)
    (hps : ∀ n, Passed n → weight n ≤ weight first ∧ (n = first → weight n < weight second))
    (hts : ∀ n visited, Climb next visited start n → n ≠ root → weight n = weight root →
      Passed n ∨ ∃ visited', Climb next visited' second n)
    (hr : nodes.length+nodes'.length < rounds) :
    ∃ left left' top, meet next weight rounds first second = some (left, left') ∧
      Climb next left first top ∧ Climb next left' second top := by
  induction rounds generalizing Passed first second nodes before nodes' with
  | zero => omega
  | succ rounds ih =>
    unfold meet
    by_cases hlt : weight first < weight second
    · rw [if_pos hlt]
      -- The first walk is not at the root, which has the greatest weight.
      cases hfr with
      | nil =>
        have hle := hsc.weight_le hst hV'
        omega
      | @cons _ first' _ nodes hnx hcl =>
        obtain ⟨hV₁,hle⟩ := hst _ _ hV hnx
        have hb' : Climb next (before ++ [first]) start first' := hbf.trans (.cons hnx (.nil _))
        have hps' : ∀ n, Passed n →
            weight n ≤ weight first' ∧ (n = first' → weight n < weight second) := by
          intro n hn
          have hn' := (hps n hn).1
          exact ⟨Nat.le_trans hn' hle,fun _ => by omega⟩
        rw [List.length_cons] at hr
        obtain ⟨left,left',top,hmt,hlf,hlf'⟩ := ih Passed hV₁ hV' hb' hcl hsc hps' hts (by omega)
        refine ⟨first :: left,left',top,?_,.cons hnx hlf,hlf'⟩
        rw [hnx]
        simp [hmt]
    · rw [if_neg hlt]
      by_cases heq : second = first
      · subst heq
        rw [if_pos rfl]
        exact ⟨[],[],second,rfl,.nil _,.nil _⟩
      · rw [if_neg heq]
        cases hsc with
        | nil =>
          -- The second walk is at the root, and the first one at a node of the same weight.
          have hle := hfr.weight_le hst hV
          have hwg : weight first = weight root := by omega
          obtain hp | ⟨visited',hcl⟩ := hts first before hbf (Ne.symm heq) hwg
          · have hl := (hps first hp).2 rfl
            omega
          · cases hcl with
            | nil => exact absurd rfl heq
            | cons hnx _ =>
              rw [hrt] at hnx
              cases hnx
        | @cons _ second' _ nodes' hnx hcl =>
          obtain ⟨hV₁,hle⟩ := hst _ _ hV' hnx
          have hps' : ∀ n, Passed n ∨ n = second →
              weight n ≤ weight first ∧ (n = first → weight n < weight second') := by
            rintro n (hn | rfl)
            · obtain ⟨hn',hn''⟩ := hps n hn
              exact ⟨hn',fun h => Nat.lt_of_lt_of_le (hn'' h) hle⟩
            · exact ⟨by omega,fun h => absurd h heq⟩
          have ht' : ∀ n visited, Climb next visited start n → n ≠ root →
              weight n = weight root →
              (Passed n ∨ n = second) ∨ ∃ visited', Climb next visited' second' n := by
            intro n visited hv hne hwg
            obtain hp | ⟨visited',hcl'⟩ := hts n visited hv hne hwg
            · exact .inl (.inl hp)
            · cases hcl' with
              | nil => exact .inl (.inr rfl)
              | cons hnx' hcl' =>
                obtain rfl := Option.some.inj (hnx.symm.trans hnx')
                exact .inr ⟨_,hcl'⟩
          rw [List.length_cons] at hr
          obtain ⟨left,left',top,hmt,hlf,hlf'⟩ :=
            ih (fun n => Passed n ∨ n = second) hV hV₁ hbf hfr hcl hps' ht' (by omega)
          refine ⟨left,second :: left',top,?_,hlf,.cons hnx hlf'⟩
          rw [hnx]
          simp [hmt]

end
end
