import Mathlib

/-!
# Growing directed acyclic graphs

A graph is the list of its nodes with their parents, newest first. A node is new
when it is added and has earlier nodes as parents, so that ancestry is decided by
recursion over the list and never changes between nodes that are already there.
The second half counts, inside a set of nodes, the nodes that are unrelated to a
given one.
-/

abbrev Dag (H : Type) := List (H × List H)

namespace Dag
open List
variable {H : Type} {ps : List H} {d : Dag H} {p c : H} {h : H}

def nodes (d : Dag H) : List H :=
  d.map Prod.fst

inductive WF : Dag H → Prop
  | nil : WF []
  | cons {h : H} {ps : List H} {d : Dag H} (hnew : h ∉ nodes d) (hparents : ∀ p ∈ ps, p ∈ nodes d)
      (hd : WF d) : WF ((h, ps) :: d)

/-- `p` is a parent of `c`. -/
def Link (d : Dag H) (p c : H) : Prop :=
  ∃ ps, (c, ps) ∈ d ∧ p ∈ ps

lemma mem_nodes : h ∈ nodes d ↔ ∃ ps, (h, ps) ∈ d := by
  simp [nodes]

@[simp]
lemma nodes_cons (h : H) (ps : List H) (d : Dag H) : nodes ((h, ps) :: d) = h :: nodes d :=
  rfl

lemma WF.tail (hd : WF ((h, ps) :: d)) : WF d := by
  cases hd with
  | cons _ _ hd => exact hd

lemma WF.notMem (hd : WF ((h, ps) :: d)) : h ∉ nodes d := by
  cases hd with
  | cons hn _ _ => exact hn

lemma WF.nodes_nodup (hd : WF d) : (nodes d).Nodup := by
  induction hd with
  | nil => exact nodup_nil
  | cons hn _ _ ih => exact nodup_cons.2 ⟨hn,ih⟩

lemma Link.cons (h : Link d p c) (n : H × List H) : Link (n :: d) p c := by
  obtain ⟨ps,hm,hp⟩ := h
  exact ⟨ps,mem_cons_of_mem _ hm,hp⟩

lemma WF.mem_of_link (hd : WF d) (h : Link d p c) : p ∈ nodes d ∧ c ∈ nodes d := by
  obtain ⟨ps,hm,hp⟩ := h
  refine ⟨?_,mem_nodes.2 ⟨ps,hm⟩⟩
  induction hd with
  | nil => simp at hm
  | cons _ hpr _ ih =>
    rcases mem_cons.1 hm with heq | hm
    · cases heq
      exact mem_cons_of_mem _ (hpr p hp)
    · exact mem_cons_of_mem _ (ih hm)

variable [DecidableEq H] {e : Dag H}

/-- Whether `a` is `b` or an ancestor of `b`. -/
def isAncestorOf : Dag H → H → H → Bool
  | [], _, _ => false
  | (h, ps) :: d, a, b =>
    if b = h then a = h || ps.any fun p => isAncestorOf d a p else isAncestorOf d a b

/-- `a` is `b` or an ancestor of `b`. -/
abbrev Anc (d : Dag H) (a b : H) : Prop :=
  isAncestorOf d a b = true

variable {a b : H}

lemma anc_cons_self : Anc ((h, ps) :: d) a h ↔ a = h ∨ ∃ p ∈ ps, Anc d a p := by
  simp [Anc,isAncestorOf]

lemma anc_cons_of_ne (hb : b ≠ h) : Anc ((h, ps) :: d) a b ↔ Anc d a b := by
  simp [Anc,isAncestorOf,hb]

lemma WF.anc_cons_of_mem (hd : WF ((h, ps) :: d)) (hb : b ∈ nodes d) :
    Anc ((h, ps) :: d) a b ↔ Anc d a b :=
  anc_cons_of_ne fun heq => hd.notMem (heq ▸ hb)

lemma WF.anc_append (hd : WF (e ++ d)) (hb : b ∈ nodes d) : Anc (e ++ d) a b ↔ Anc d a b := by
  induction e with
  | nil => rfl
  | cons n e ih =>
    obtain ⟨h,ps⟩ := n
    have hm : b ∈ nodes (e ++ d) := by
      rw [nodes,map_append]
      exact mem_append_right _ hb
    have hd' : WF ((h, ps) :: (e ++ d)) := hd
    exact (hd'.anc_cons_of_mem hm).trans (ih hd'.tail)

lemma WF.mem_of_anc (hd : WF d) (hab : Anc d a b) : a ∈ nodes d ∧ b ∈ nodes d := by
  induction hd generalizing b with
  | nil => simp [Anc,isAncestorOf] at hab
  | @cons h _ d _ _ hd ih =>
    by_cases hb : b = h
    · subst hb
      obtain rfl | ⟨_,_,hap⟩ := anc_cons_self.1 hab
      · simp
      · exact ⟨mem_cons_of_mem _ (ih hap).1,mem_cons_self⟩
    · obtain ⟨ha,hb⟩ := ih ((anc_cons_of_ne hb).1 hab)
      exact ⟨mem_cons_of_mem _ ha,mem_cons_of_mem _ hb⟩

lemma anc_refl (ha : a ∈ nodes d) : Anc d a a := by
  induction d with
  | nil => simp [nodes] at ha
  | cons n d ih =>
    obtain ⟨h,_⟩ := n
    by_cases hah : a = h
    · subst hah
      exact anc_cons_self.2 (.inl rfl)
    · rw [anc_cons_of_ne hah]
      rw [nodes_cons,mem_cons] at ha
      exact ih (ha.resolve_left hah)

/-- A new node is an ancestor of no other node. -/
lemma WF.eq_of_anc_new (hd : WF ((h, ps) :: d)) (hb : Anc ((h, ps) :: d) h b) : b = h := by
  by_contra hne
  rw [anc_cons_of_ne hne] at hb
  exact hd.notMem (hd.tail.mem_of_anc hb).1

lemma WF.anc_trans (hd : WF d) (hab : Anc d a b) (hbc : Anc d b c) : Anc d a c := by
  induction hd generalizing b c with
  | nil => simp [Anc,isAncestorOf] at hab
  | @cons h ps d hn hpr hd ih =>
    have hwf : WF ((h, ps) :: d) := .cons hn hpr hd
    by_cases hb : b = h
    · subst hb
      rwa [hwf.eq_of_anc_new hbc]
    · rw [anc_cons_of_ne hb] at hab
      by_cases hc : c = h
      · subst hc
        obtain rfl | ⟨p,hp,hbp⟩ := anc_cons_self.1 hbc
        · exact absurd rfl hb
        · exact anc_cons_self.2 (.inr ⟨p,hp,ih hab hbp⟩)
      · rw [anc_cons_of_ne hc] at hbc ⊢
        exact ih hab hbc

lemma WF.anc_of_link (hd : WF d) (hl : Link d a b) : Anc d a b := by
  induction hd with
  | nil =>
    obtain ⟨ps,hm,-⟩ := hl
    simp at hm
  | @cons h ps d hn hp hd ih =>
    have hwf : WF ((h, ps) :: d) := .cons hn hp hd
    obtain ⟨qs,hm,ha⟩ := hl
    rcases mem_cons.1 hm with heq | hm
    · cases heq
      exact anc_cons_self.2 (.inr ⟨a,ha,anc_refl (hp a ha)⟩)
    · rw [hwf.anc_cons_of_mem (mem_nodes.2 ⟨qs,hm⟩)]
      exact ih ⟨qs,hm,ha⟩

/-- The decision procedure follows the parent links. -/
lemma WF.anc_iff (hd : WF d) (hb : b ∈ nodes d) :
    Anc d a b ↔ Relation.ReflTransGen (Link d) a b := by
  constructor
  · intro hab
    clear hb
    induction hd generalizing b with
    | nil => simp [Anc,isAncestorOf] at hab
    | @cons h ps d _ _ hd ih =>
      have hlf : ∀ x y, Relation.ReflTransGen (Link d) x y →
          Relation.ReflTransGen (Link ((h, ps) :: d)) x y :=
        Relation.ReflTransGen.mono fun _ _ hl => Link.cons hl _
      by_cases hb : b = h
      · subst hb
        obtain rfl | ⟨p,hp,hap⟩ := anc_cons_self.1 hab
        · exact .refl
        · exact (hlf a p (ih hap)).tail ⟨ps,mem_cons_self,hp⟩
      · exact hlf a b (ih ((anc_cons_of_ne hb).1 hab))
  · intro hab
    induction hab with
    | refl => exact anc_refl hb
    | tail _ hln ih => exact hd.anc_trans (ih (hd.mem_of_link hln).1) (hd.anc_of_link hln)

/-- Induction along the links from a node down to one of its ancestors. -/
lemma WF.anc_induction (hd : WF d) {P : H → Prop} (hab : Anc d a b) (hb : P b)
    (hs : ∀ p c, Link d p c → Anc d a p → P c → P p) : P a := by
  have hm := (hd.mem_of_anc hab).2
  rw [hd.anc_iff hm] at hab
  induction hab with
  | refl => exact hb
  | @tail p c hap hl ih =>
    have hp := (hd.mem_of_link hl).1
    exact ih (hs p c hl ((hd.anc_iff hp).2 hap) hb) hp

/-! ## Weights -/

/-- The weight of a node exceeds the sum of the weights of all older nodes. -/
def weight : Dag H → H → ℕ
  | [], _ => 0
  | (h, _) :: d, a => if a = h then 2^d.length else weight d a

variable {l : List H}

lemma weight_cons_of_ne (hne : a ≠ h) : weight ((h, ps) :: d) a = weight d a := by
  rw [weight,if_neg hne]

lemma weight_pos (ha : a ∈ nodes d) : 0 < weight d a := by
  induction d with
  | nil => simp [nodes] at ha
  | cons n d ih =>
    obtain ⟨h,_⟩ := n
    by_cases hah : a = h
    · rw [weight,if_pos hah]
      exact Nat.two_pow_pos _
    · rw [weight_cons_of_ne hah]
      exact ih ((mem_cons.1 ha).resolve_left hah)

lemma sum_weight_cons (hl : h ∉ l) :
    (l.map (weight ((h, ps) :: d))).sum = (l.map (weight d)).sum := by
  congr 1
  apply map_congr_left
  intro _ ha
  exact weight_cons_of_ne fun hah => hl (hah ▸ ha)

lemma sum_weight_lt (hl : l.Nodup) : (l.map (weight d)).sum < 2^d.length := by
  induction d generalizing l with
  | nil => simp [weight,map_const']
  | cons n d ih =>
    obtain ⟨h,ps⟩ := n
    rw [length_cons]
    by_cases hh : h ∈ l
    · have hp := (perm_cons_erase hh).map (weight ((h, ps) :: d))
      have hr := ih (hl.erase h)
      rw [hp.sum_nat,map_cons,sum_cons,sum_weight_cons (hl.not_mem_erase),weight,if_pos rfl]
      omega
    · have hr := ih hl
      rw [sum_weight_cons hh]
      omega

/-- Distinct parents together weigh less than their child. -/
lemma WF.sum_weight_parents_lt (hd : WF d) (ha : (a, ps) ∈ d) (hl : l.Nodup)
    (hs : ∀ p ∈ l, p ∈ ps) : (l.map (weight d)).sum < weight d a := by
  induction hd with
  | nil => simp at ha
  | @cons h _ d hn hp hd ih =>
    obtain heq | ha := mem_cons.1 ha
    · cases heq
      have hh : a ∉ l := fun hh => hn (hp a (hs a hh))
      rw [sum_weight_cons hh,weight,if_pos rfl]
      exact sum_weight_lt hl
    · have hm : a ∈ nodes d := mem_nodes.2 ⟨ps,ha⟩
      have hh : h ∉ l := fun hh => hn (hd.mem_of_link ⟨ps,ha,hs h hh⟩).1
      have hne : a ≠ h := fun hah => hn (hah ▸ hm)
      rw [sum_weight_cons hh,weight_cons_of_ne hne]
      exact ih ha

lemma WF.weight_lt_of_link (hd : WF d) (hl : Link d p c) : weight d p < weight d c := by
  obtain ⟨_,hc,_⟩ := hl
  have hlt := hd.sum_weight_parents_lt hc (nodup_singleton p) fun _ hq => by
    rwa [mem_singleton.1 hq]
  simpa using hlt

/-- A proper ancestor weighs less. -/
lemma WF.weight_lt_of_anc (hd : WF d) (hab : Anc d a b) (hne : a ≠ b) :
    weight d a < weight d b := by
  have hle : a = b ∨ weight d a < weight d b := by
    refine hd.anc_induction (P := fun x => x = b ∨ weight d x < weight d b) hab (.inl rfl) ?_
    intro _ _ hl _ hc
    have hlt := hd.weight_lt_of_link hl
    obtain rfl | hc := hc
    · exact .inr hlt
    · exact .inr (hlt.trans hc)
  exact hle.resolve_left hne

lemma WF.anc_antisymm (hd : WF d) (hab : Anc d a b) (hba : Anc d b a) : a = b := by
  by_contra hne
  exact lt_asymm (hd.weight_lt_of_anc hab hne) (hd.weight_lt_of_anc hba (Ne.symm hne))

/-! ## Anticones and clusters -/

section
variable (d : Dag H)

/-- Neither of the two is the other or an ancestor of it. -/
def Unrelated (a b : H) : Prop :=
  ¬Anc d a b ∧ ¬Anc d b a

instance (a b : H) : Decidable (Unrelated d a b) :=
  inferInstanceAs (Decidable (¬Anc d a b ∧ ¬Anc d b a))

/-- The number of nodes of `s` in the anticone of `a`. -/
def anticoneSize (s : Finset H) (a : H) : ℕ :=
  (s.filter (Unrelated d a)).card

def KCluster (k : ℕ) (s : Finset H) : Prop :=
  ∀ a ∈ s, anticoneSize d s a ≤ k

variable {d} {s : Finset H}

lemma Unrelated.symm (hac : Unrelated d a c) : Unrelated d c a :=
  ⟨hac.2,hac.1⟩

lemma not_unrelated_self (ha : a ∈ nodes d) : ¬Unrelated d a a :=
  fun h => h.1 (anc_refl ha)

lemma anticoneSize_insert (hc : c ∉ s) :
    anticoneSize d (insert c s) a = anticoneSize d s a+if Unrelated d a c then 1 else 0 := by
  unfold anticoneSize
  rw [Finset.filter_insert]
  split
  · simp [hc]
  · rw [Nat.add_zero]

lemma WF.unrelated_append (hd : WF (e ++ d)) (ha : a ∈ nodes d) (hc : c ∈ nodes d) :
    Unrelated (e ++ d) a c ↔ Unrelated d a c := by
  rw [Unrelated,Unrelated,hd.anc_append ha,hd.anc_append hc]

/-- New nodes leave the anticones inside a set of older ones as they are. -/
lemma WF.anticoneSize_append (hd : WF (e ++ d)) (ha : a ∈ nodes d)
    (hs : ∀ c ∈ s, c ∈ nodes d) : anticoneSize (e ++ d) s a = anticoneSize d s a := by
  unfold anticoneSize
  congr 1
  exact Finset.filter_congr fun c hc => hd.unrelated_append ha (hs c hc)

end
end Dag
