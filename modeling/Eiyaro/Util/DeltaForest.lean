import Mathlib

/-!
# Forests of deltas

A store that holds states as deltas: every node has a delta that leads to its
state, from the state of the node that it points to or, without such a node, from
a base state. A node can be restored when its pointers end. This file has the
paths of such a forest, that they are unique and no longer than the forest has
nodes, and what changes of the forest do to them.
-/

structure DeltaForest (K L : Type) where
  delta : K → Option L
  next : K → Option K

namespace DeltaForest
open List
variable {K L S : Type} {leads : L → S → S → Prop} {base : S} {F G : DeltaForest K L}
  {Q Q' : K → Prop} {n m : Nat} {k : K} {s s' : S}

/-- A path of `n` pointers from a node with the state `s` to the base. All nodes on
the path satisfy `Q`. -/
inductive Path (F : DeltaForest K L) (leads : L → S → S → Prop) (base : S) (Q : K → Prop) :
    Nat → K → S → Prop
  | root {k : K} {l : L} {s : S} (hQ : Q k) (hdelta : F.delta k = some l)
      (hnext : F.next k = none) (hleads : leads l base s) : Path F leads base Q 0 k s
  | link {n : Nat} {k k' : K} {l : L} {s t : S} (hQ : Q k) (hdelta : F.delta k = some l)
      (hnext : F.next k = some k') (hpath : Path F leads base Q n k' t)
      (hleads : leads l t s) : Path F leads base Q (n+1) k s

namespace Path

lemma mono (hQ : ∀ k, Q k → Q' k) (h : F.Path leads base Q n k s) : F.Path leads base Q' n k s := by
  induction h with
  | root hk hdl hnx hleads => exact .root (hQ _ hk) hdl hnx hleads
  | link hk hdl hnx _ hleads ih => exact .link (hQ _ hk) hdl hnx ih hleads

lemma mem (h : F.Path leads base Q n k s) : Q k := by
  cases h with
  | root hQ => exact hQ
  | link hQ => exact hQ

lemma exists_delta (h : F.Path leads base Q n k s) : ∃ l, F.delta k = some l := by
  cases h with
  | root _ hdl => exact ⟨_,hdl⟩
  | link _ hdl => exact ⟨_,hdl⟩

section
variable (hleads : ∀ l s t t', leads l s t → leads l s t' → t = t')
include hleads

/-- The pointers of a forest are functions, so a node has one path. -/
lemma unique
    (h : F.Path leads base Q n k s) (h' : F.Path leads base Q' m k s') : n = m ∧ s = s' := by
  induction h generalizing m s' with
  | root hQ hdl hnx hl =>
    cases h' with
    | root _ hdl' _ hl' =>
      rw [hdl] at hdl'
      cases hdl'
      exact ⟨rfl,hleads _ _ _ _ hl hl'⟩
    | link _ _ hnx' =>
      rw [hnx] at hnx'
      cases hnx'
  | link hQ hdl hnx _ hl ih =>
    cases h' with
    | root _ _ hnx' =>
      rw [hnx] at hnx'
      cases hnx'
    | link _ hdl' hnx' hp' hl' =>
      rw [hdl] at hdl'
      rw [hnx] at hnx'
      cases hdl'
      cases hnx'
      obtain ⟨rfl,rfl⟩ := ih hp'
      exact ⟨rfl,hleads _ _ _ _ hl hl'⟩

/-- The nodes on a path are different, since each has a path of its own length. -/
lemma exists_nodes (h : F.Path leads base Q n k s) :
    ∃ nodes : List K, nodes.length = n+1 ∧ nodes.Nodup ∧
      ∀ k' ∈ nodes, ∃ m ≤ n, ∃ s', F.Path leads base Q m k' s' := by
  induction h with
  | @root k l s hQ hdl hnx hl =>
    refine ⟨[k],rfl,nodup_singleton _,fun k' hk' => ?_⟩
    obtain rfl := mem_singleton.1 hk'
    exact ⟨0,le_rfl,s,.root hQ hdl hnx hl⟩
  | @link n k k' l s _ hQ hdl hnx hp hl ih =>
    obtain ⟨nodes,hln,hnd,hmm⟩ := ih
    have hk : F.Path leads base Q (n+1) k s := .link hQ hdl hnx hp hl
    refine ⟨k :: nodes,by simp [hln],nodup_cons.2 ⟨fun hin => ?_,hnd⟩,?_⟩
    · obtain ⟨m,hm,s',hpt'⟩ := hmm k hin
      have := (hk.unique hleads hpt').1
      omega
    · intro k' hk'
      rcases mem_cons.1 hk' with rfl | hk'
      · exact ⟨n+1,le_rfl,s,hk⟩
      · obtain ⟨m,hm,hpt'⟩ := hmm k' hk'
        exact ⟨m,by omega,hpt'⟩

lemma lt_card [DecidableEq K] {nodes : Finset K} (hn : ∀ k l, F.delta k = some l → k ∈ nodes)
    (h : F.Path leads base Q n k s) : n < nodes.card := by
  obtain ⟨path,_,hnd,hm⟩ := h.exists_nodes hleads
  have hs : path.toFinset ⊆ nodes := by
    intro k hk
    obtain ⟨_,-,_,hp⟩ := hm k (mem_toFinset.1 hk)
    obtain ⟨l,hl⟩ := hp.exists_delta
    exact hn k l hl
  have hc := Finset.card_le_card hs
  rw [toFinset_card_of_nodup hnd] at hc
  omega

end

/-- A path that only meets unchanged nodes stays. -/
lemma frame (hdl : ∀ k, Q k → G.delta k = F.delta k) (hnx : ∀ k, Q k → G.next k = F.next k)
    (h : F.Path leads base Q n k s) : G.Path leads base Q n k s := by
  induction h with
  | root hQ hd hn hl => exact .root hQ ((hdl _ hQ).trans hd) ((hnx _ hQ).trans hn) hl
  | link hQ hd hn _ hl ih =>
    exact .link hQ ((hdl _ hQ).trans hd) ((hnx _ hQ).trans hn) ih hl

/-- Paths to changed nodes go on along the new paths of these nodes, if the new
paths lead to the same states. -/
lemma redirect {base' : S} {Changed : K → Prop}
    (hdl : ∀ k, Q k → ¬Changed k → G.delta k = F.delta k)
    (hnx : ∀ k, Q k → ¬Changed k → G.next k = F.next k)
    (hr : ∀ k, Q k → ¬Changed k → F.next k = none → base' = base)
    (hch : ∀ n k s, Changed k → F.Path leads base Q n k s → ∃ m, G.Path leads base' Q' m k s)
    (hQ : ∀ k, Q k → Q' k) (h : F.Path leads base Q n k s) :
    ∃ m, G.Path leads base' Q' m k s := by
  induction h with
  | @root k l s hk hd hn hl =>
    by_cases hc : Changed k
    · exact hch 0 k s hc (.root hk hd hn hl)
    · obtain rfl := hr k hk hc hn
      exact ⟨0,.root (hQ k hk) ((hdl k hk hc).trans hd) ((hnx k hk hc).trans hn) hl⟩
  | @link n k _ l s _ hk hd hn hp hl ih =>
    by_cases hc : Changed k
    · exact hch (n+1) k s hc (.link hk hd hn hp hl)
    · obtain ⟨m,hm⟩ := ih
      exact ⟨m+1,.link (hQ k hk) ((hdl k hk hc).trans hd) ((hnx k hk hc).trans hn) hm hl⟩

end Path
end DeltaForest
