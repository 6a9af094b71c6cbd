import Mathlib

/-!
# Walks through a graph with a queue

A node is taken from the front of the queue and visited unless it was visited before. Where the
visit says so, the neighbours of the node enter the queue. With finitely many nodes that have
neighbours the walk ends, and then it has visited everything that it was led to.
-/

variable {ε σ H : Type} [DecidableEq H]

/-- `stuck` is returned when the rounds are used up. -/
def walk (next : H → List H) (visit : H → σ → Except ε (Bool × σ)) (stuck : ε) :
    Nat → List H → Finset H → σ → Except ε σ
  | 0, _, _, _ => .error stuck
  | _+1, [], _, s => .ok s
  | rounds+1, current :: queue, visited, s =>
    if current ∈ visited then
      walk next visit stuck rounds queue visited s
    else
      match visit current s with
      | .error e => .error e
      | .ok (goesOn, s) =>
        walk next visit stuck rounds (if goesOn then queue ++ next current else queue)
          (insert current visited) s

namespace walk
open List
variable {next : H → List H} {visit : H → σ → Except ε (Bool × σ)} {stuck : ε} {rounds : Nat}
  {queue : List H} {nodes visited : Finset H} {s s' : σ}

/-- A round takes a node from the queue, and the neighbours of a node enter it at most once. -/
def enough (next : H → List H) (nodes : Finset H) (queue : List H) : Nat :=
  queue.length + ∑ h ∈ nodes, (next h).length+1

/-- The neighbours of a node that is visited for the first time are not counted again. -/
lemma length_add_sum_le {current : H} (hn : ∀ h ∉ nodes, next h = []) (hv : current ∉ visited) :
    (next current).length + ∑ h ∈ nodes \ insert current visited, (next h).length ≤
      ∑ h ∈ nodes \ visited, (next h).length := by
  rw [Finset.sdiff_insert]
  by_cases hc : current ∈ nodes \ visited
  · rw [Finset.add_sum_erase _ (fun h => (next h).length) hc]
  · have hnil : next current = [] := hn _ fun hm => hc (Finset.mem_sdiff.2 ⟨hm,hv⟩)
    rw [hnil,Finset.erase_eq_of_notMem hc,length_nil,Nat.zero_add]

lemma ok_of_lt (hn : ∀ h ∉ nodes, next h = []) (hok : ∀ h s, ∃ r, visit h s = .ok r)
    (hr : queue.length + ∑ h ∈ nodes \ visited, (next h).length < rounds) :
    ∃ s', walk next visit stuck rounds queue visited s = .ok s' := by
  induction rounds generalizing queue visited s with
  | zero => omega
  | succ rounds ih =>
    cases queue with
    | nil => exact ⟨s,rfl⟩
    | cons current queue =>
      rw [length_cons] at hr
      rw [walk]
      by_cases hv : current ∈ visited
      · rw [if_pos hv]
        exact ih (by omega)
      · obtain ⟨⟨goesOn,t⟩,ht⟩ := hok current s
        have := length_add_sum_le hn hv
        rw [if_neg hv,ht]
        refine ih ?_
        split
        · rw [length_append]
          omega
        · omega

/-- A walk whose visits do not fail ends. -/
lemma ok (hn : ∀ h ∉ nodes, next h = []) (hok : ∀ h s, ∃ r, visit h s = .ok r) :
    ∃ s', walk next visit stuck (enough next nodes queue) queue ∅ s = .ok s' := by
  refine ok_of_lt hn hok ?_
  rw [Finset.sdiff_empty]
  exact Nat.lt_succ_self _

/-- A walk stays in a set `S` that is closed under neighbours, keeps what every visit in `S` keeps,
and visits the neighbours of the nodes where it always goes on. -/
lemma rule {I : Finset H → σ → Prop} {S : Set H} {G : H → Prop}
    (hS : ∀ h ∈ S, ∀ n ∈ next h, n ∈ S) (hqu : ∀ h ∈ queue, h ∈ S)
    (hI : ∀ h ∈ S, ∀ visited s goesOn t, h ∉ visited → I visited s →
      visit h s = .ok (goesOn, t) → I (insert h visited) t ∧ (G h → goesOn = true))
    (hs : I visited s) (hw : walk next visit stuck rounds queue visited s = .ok s') :
    ∃ seen, I seen s' ∧ visited ⊆ seen ∧ (∀ h ∈ queue, h ∈ seen) ∧
      ∀ h ∈ seen, h ∉ visited → G h → ∀ n ∈ next h, n ∈ seen := by
  induction rounds generalizing queue visited s with
  | zero => cases hw
  | succ rounds ih =>
    cases queue with
    | nil =>
      cases hw
      exact ⟨visited,hs,Finset.Subset.rfl,by simp,fun _ hm hn => absurd hm hn⟩
    | cons current queue =>
      rw [forall_mem_cons] at hqu
      rw [walk] at hw
      by_cases hv : current ∈ visited
      · rw [if_pos hv] at hw
        obtain ⟨seen,hs,hsub,hq,hg⟩ := ih hqu.2 hs hw
        exact ⟨seen,hs,hsub,forall_mem_cons.2 ⟨hsub hv,hq⟩,hg⟩
      · rw [if_neg hv] at hw
        split at hw
        · cases hw
        · next goesOn t ht =>
          obtain ⟨hs,hgo⟩ := hI _ hqu.1 _ _ _ _ hv hs ht
          have hq' : ∀ h ∈ (if goesOn then queue ++ next current else queue), h ∈ S := by
            split
            · exact forall_mem_append.2 ⟨hqu.2,hS _ hqu.1⟩
            · exact hqu.2
          obtain ⟨seen,hs,hsub,hq,hg⟩ := ih hq' hs hw
          have hc : current ∈ seen := hsub (Finset.mem_insert_self _ _)
          refine ⟨seen,hs,(Finset.subset_insert _ _).trans hsub,
            forall_mem_cons.2 ⟨hc,fun h hh => hq h ?_⟩,fun h hh hn hgh n hnh => ?_⟩
          · split
            · exact mem_append_left _ hh
            · exact hh
          -- the neighbours of a node were queued when it was visited
          · by_cases heq : h = current
            · subst heq
              refine hq n ?_
              rw [if_pos (hgo hgh)]
              exact mem_append_right _ hnh
            · refine hg h hh (fun hm => ?_) hgh n hnh
              exact (Finset.mem_insert.1 hm).elim heq hn

/-- A walk with enough rounds only fails in a visit, up to which everything is kept. -/
lemma rule_error {I : Finset H → σ → Prop} {S : Set H} {e : ε} (hn : ∀ h ∉ nodes, next h = [])
    (hS : ∀ h ∈ S, ∀ n ∈ next h, n ∈ S) (hqu : ∀ h ∈ queue, h ∈ S)
    (hI : ∀ h ∈ S, ∀ visited s goesOn t, h ∉ visited → I visited s →
      visit h s = .ok (goesOn, t) → I (insert h visited) t)
    (hr : queue.length + ∑ h ∈ nodes \ visited, (next h).length < rounds) (hs : I visited s)
    (hw : walk next visit stuck rounds queue visited s = .error e) :
    ∃ h ∈ S, ∃ seen t, h ∉ seen ∧ I seen t ∧ visit h t = .error e := by
  induction rounds generalizing queue visited s with
  | zero => omega
  | succ rounds ih =>
    cases queue with
    | nil => cases hw
    | cons current queue =>
      rw [forall_mem_cons] at hqu
      rw [length_cons] at hr
      rw [walk] at hw
      by_cases hv : current ∈ visited
      · rw [if_pos hv] at hw
        exact ih hqu.2 (by omega) hs hw
      · rw [if_neg hv] at hw
        split at hw
        · next hvs =>
          cases hw
          exact ⟨current,hqu.1,visited,s,hv,hs,hvs⟩
        · next goesOn t ht =>
          have := length_add_sum_le hn hv
          refine ih ?_ ?_ (hI _ hqu.1 _ _ _ _ hv hs ht) hw
          · split
            · exact forall_mem_append.2 ⟨hqu.2,hS _ hqu.1⟩
            · exact hqu.2
          · split
            · rw [length_append]
              omega
            · omega

end walk
