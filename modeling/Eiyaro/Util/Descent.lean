import Mathlib

/-!
# The tree of the paths that lead down from a node

A node has a key, and the key has a list of children. Where no node has a key of an ancestor of
its, the paths that lead down from a node are finite in number, and `below` lists their ends.
-/

open List Relation

namespace Descent
variable {α K : Type} (key : α → K) (children : K → List α)

def Child (a b : α) : Prop := b ∈ children (key a)

/-- The ends of the paths of at most `n` steps that lead down from a node, one for each path. -/
def below : Nat → α → List α
  | 0, _ => []
  | n+1, a => children (key a) ++ (children (key a)).flatMap (below n)

lemma length_below_succ (n : Nat) (a : α) : (below key children (n+1) a).length =
    ((children (key a)).map fun b => (below key children n b).length+1).sum := by
  rw [below,sum_map_add]
  simp [add_comm]

/-- No node has the key of an ancestor, and only some keys have children. -/
structure Acyclic (keys : Finset K) : Prop where
  keys : ∀ k, k ∉ keys → children k = []
  irrefl : ∀ a b, TransGen (Child key children) a b → key b ≠ key a

/-- A node and the nodes below it form a tree: no list of children repeats one, and no node has
two parents. -/
def IsTree (a : α) : Prop :=
  (∀ b, ReflTransGen (Child key children) a b → (children (key b)).Nodup) ∧
    ∀ b c d, ReflTransGen (Child key children) a b → ReflTransGen (Child key children) a c →
      Child key children b d → Child key children c d → b = c

open Classical in
/-- The keys with children at a node or below it. -/
noncomputable def reach (keys : Finset K) (a : α) : Finset K :=
  keys.filter fun k => ∃ b, ReflTransGen (Child key children) a b ∧ key b = k

variable {key children} in
lemma mem_reach {keys : Finset K} {a : α} {k : K} : k ∈ reach key children keys a ↔
    k ∈ keys ∧ ∃ b, ReflTransGen (Child key children) a b ∧ key b = k := by
  classical exact Finset.mem_filter

namespace Acyclic
variable {key children} {keys : Finset K} (h : Acyclic key children keys) {a b : α} {n : Nat}
include h

lemma card_reach_lt (hb : Child key children a b) :
    (reach key children keys b).card < (reach key children keys a).card := by
  apply Finset.card_lt_card
  rw [Finset.ssubset_iff_of_subset]
  · refine ⟨key a,?_,?_⟩
    · refine mem_reach.2 ⟨?_,a,.refl,rfl⟩
      by_contra hm
      unfold Child at hb
      rw [h.keys _ hm] at hb
      exact not_mem_nil hb
    · intro hm
      obtain ⟨-,c,hc,heq⟩ := mem_reach.1 hm
      exact h.irrefl a c (.head' hb hc) heq
  · intro _ hk
    obtain ⟨hm,c,hc,heq⟩ := mem_reach.1 hk
    exact mem_reach.2 ⟨hm,c,.head hb hc,heq⟩

lemma children_eq_nil (ha : (reach key children keys a).card = 0) : children (key a) = [] := by
  apply eq_nil_iff_forall_not_mem.2
  intro _ hb
  have := h.card_reach_lt (a := a) hb
  omega

lemma below_succ_of_card_le (hn : (reach key children keys a).card ≤ n) :
    below key children (n+1) a = below key children n a := by
  induction n generalizing a with
  | zero => simp [below,h.children_eq_nil (Nat.le_zero.1 hn)]
  | succ n ih =>
    rw [below]
    congr 1
    apply flatMap_congr
    intro _ hb
    exact ih (Nat.le_of_lt_succ ((h.card_reach_lt hb).trans_le hn))

/-- All paths have at most as many steps as there are keys. -/
lemma below_eq (a : α) : below key children keys.card a = below key children (keys.card+1) a := by
  apply Eq.symm
  apply h.below_succ_of_card_le
  classical exact Finset.card_filter_le _ _

lemma mem_below_iff : b ∈ below key children keys.card a ↔ TransGen (Child key children) a b := by
  constructor
  · suffices ∀ n a, b ∈ below key children n a → TransGen (Child key children) a b from this _ a
    intro n
    induction n with
    | zero => exact fun a hb => absurd hb not_mem_nil
    | succ n ih =>
      intro a hb
      obtain hb | hb := mem_append.1 hb
      · exact .single hb
      · obtain ⟨c,hc,hb⟩ := mem_flatMap.1 hb
        exact .head hc (ih c hb)
  · intro hb
    induction hb using TransGen.head_induction_on with
    | single hb =>
      rw [h.below_eq]
      exact mem_append_left _ hb
    | head hc _ ih =>
      rw [h.below_eq]
      exact mem_append_right _ (mem_flatMap.2 ⟨_,hc,ih⟩)

lemma length_below_lt {B : Nat} (hB : ∀ k, (children k).length ≤ B) (n : Nat) (a : α) :
    (below key children n a).length < (B+2)^(reach key children keys a).card := by
  induction n generalizing a with
  | zero => exact Nat.pow_pos (by omega)
  | succ n ih =>
    cases hr : (reach key children keys a).card with
    | zero => simp [below,h.children_eq_nil hr]
    | succ r =>
      have hle : ∀ x ∈ (children (key a)).map fun b => (below key children n b).length+1,
          x ≤ (B+2)^r := by
        intro x hx
        obtain ⟨b,hb,rfl⟩ := mem_map.1 hx
        have hr' : (reach key children keys b).card ≤ r := by
          have := h.card_reach_lt (a := a) hb
          omega
        exact (ih b).trans_le (Nat.pow_le_pow_right (by omega) hr')
      calc (below key children (n+1) a).length ≤ (children (key a)).length*(B+2)^r := by
            rw [length_below_succ]
            simpa using sum_le_card_nsmul _ _ hle
        _ ≤ B*(B+2)^r := Nat.mul_le_mul_right _ (hB _)
        _ < (B+2)^(r+1) := by
            rw [mul_comm]
            exact (Nat.mul_lt_mul_left (Nat.pow_pos (by omega))).2 (by omega)

lemma not_reflTransGen_of_child (hb : Child key children a b) :
    ¬ReflTransGen (Child key children) b a :=
  fun hba => h.irrefl a a (.head' hb hba) rfl

/-- In a tree nothing is below two children of one node. -/
lemma not_transGen_of_isTree (ht : IsTree key children a) {c d : α} (hb : Child key children a b)
    (hc : Child key children a c) (hne : b ≠ c) (hd : TransGen (Child key children) b d) :
    ¬TransGen (Child key children) c d := by
  have hup : ∀ {e f g}, Child key children a e → ReflTransGen (Child key children) e f →
      Child key children f g → ¬Child key children a g := by
    intro e f g he hf hg hag
    obtain rfl := ht.2 a f g .refl (.head he hf) hag hg
    exact h.not_reflTransGen_of_child he hf
  -- the induction goes up from `d`, whose parent is the same on both ways
  induction hd with
  | single hd =>
    intro hcd
    obtain ⟨p,hp,hpd⟩ := TransGen.tail'_iff.1 hcd
    obtain rfl := ht.2 b p _ (.single hb) (.head hc hp) hd hpd
    obtain heq | hcb := reflTransGen_iff_eq_or_transGen.1 hp
    · exact hne heq
    · obtain ⟨q,hq,hqb⟩ := TransGen.tail'_iff.1 hcb
      exact hup hc hq hqb hb
  | tail hp hd ih =>
    intro hcd
    obtain ⟨q,hq,hqd⟩ := TransGen.tail'_iff.1 hcd
    obtain rfl := ht.2 _ q _ (.head hb hp.to_reflTransGen) (.head hc hq) hd hqd
    obtain rfl | hcp := reflTransGen_iff_eq_or_transGen.1 hq
    · obtain ⟨q,hq,hqp⟩ := TransGen.tail'_iff.1 hp
      exact hup hb hq hqp hc
    · exact ih hcp

/-- Every node below is the end of one path only where the nodes below form a tree. -/
lemma nodup_below_iff : (below key children keys.card a).Nodup ↔ IsTree key children a := by
  induction hn : (reach key children keys a).card using Nat.strong_induction_on generalizing a with
  | h n ih =>
    have ih : ∀ {b}, Child key children a b →
        ((below key children keys.card b).Nodup ↔ IsTree key children b) := fun hb =>
      ih _ (hn ▸ h.card_reach_lt hb) rfl
    rw [h.below_eq,below,nodup_append',nodup_flatMap]
    constructor
    · rintro ⟨hnd,⟨hbl,hpw⟩,hdj⟩
      have hdis : ∀ {b c d}, Child key children a b → Child key children a c →
          TransGen (Child key children) b d → TransGen (Child key children) c d → b = c := by
        intro b c d hb hc hbd hcd
        by_contra hne
        have : Std.Symm (Function.onFun List.Disjoint (below key children keys.card)) :=
          ⟨fun _ _ h => h.symm⟩
        exact hpw.forall hb hc hne (h.mem_below_iff.2 hbd) (h.mem_below_iff.2 hcd)
      refine ⟨fun b hb => ?_,fun b c d hb hc hbd hcd => ?_⟩
      · obtain rfl | ⟨e,he,hb⟩ := hb.cases_head
        · exact hnd
        · exact ((ih he).1 (hbl e he)).1 b hb
      · have hno : ∀ {e c}, Child key children a e → ReflTransGen (Child key children) e c →
            Child key children c d → ¬Child key children a d := fun he hc hcd hd =>
          hdj hd (mem_flatMap.2 ⟨_,he,h.mem_below_iff.2 (.tail' hc hcd)⟩)
        obtain rfl | ⟨e,he,hb⟩ := hb.cases_head
        · obtain rfl | ⟨f,hf,hc⟩ := hc.cases_head
          · rfl
          · exact absurd hbd (hno hf hc hcd)
        · obtain rfl | ⟨f,hf,hc⟩ := hc.cases_head
          · exact absurd hcd (hno he hb hbd)
          · obtain rfl := hdis he hf (.tail' hb hbd) (.tail' hc hcd)
            exact ((ih he).1 (hbl e he)).2 b c d hb hc hbd hcd
    · intro ht
      refine ⟨ht.1 a .refl,⟨fun b hb => (ih hb).2 ⟨fun c hc => ht.1 c (.head hb hc),
        fun c d e hc hd => ht.2 c d e (.head hb hc) (.head hb hd)⟩,?_⟩,?_⟩
      · refine (ht.1 a .refl).imp_of_mem fun {b c} hb hc hne d hd hd' => ?_
        exact h.not_transGen_of_isTree ht hb hc hne (h.mem_below_iff.1 hd)
          (h.mem_below_iff.1 hd')
      · intro d hd hd'
        obtain ⟨b,hb,hbd⟩ := mem_flatMap.1 hd'
        obtain ⟨p,hp,hpd⟩ := TransGen.tail'_iff.1 (h.mem_below_iff.1 hbd)
        obtain rfl := ht.2 a p d .refl (.head hb hp) hd hpd
        exact h.not_reflTransGen_of_child hb hp

end Acyclic
end Descent
