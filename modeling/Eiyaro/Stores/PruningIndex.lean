import Eiyaro.PruningProof.Flow
import Eiyaro.Util.Run

/-!
# The index of the current pruning point

The index of the current pruning point in `datastructures/pruningstore`: the stored one, its cache
and the one of a staging area's shard, with the points that the shard has by their index. The index
of a shard starts at 0 even where a higher one is stored. So the current index is the greatest one
only if the first index that is staged in an area is above the stored one.
-/

namespace Eiyaro
open List

structure PruningIndexes where
  storedPruningPointIndex : Option Nat
  currentPruningPointIndexCache : Option Nat
  /-- The points and the index in the shard of the staging area. -/
  staged : FinMap Nat DomainHash × Option Nat

inductive PruningStoreCall
  | stagePruningPoint (hash : DomainHash)
  | stagePruningPointByIndex (hash : DomainHash) (index : Nat)
  | currentPruningPointIndex
  | commit

namespace PruningIndexes
variable (s : PruningIndexes) {t t' : PruningIndexes × List Nat} {call : PruningStoreCall}

def currentPruningPointIndex : Option Nat :=
  s.staged.2.or (s.currentPruningPointIndexCache.or s.storedPruningPointIndex)

/-- A read keeps the stored index in the cache. -/
def afterRead : PruningIndexes :=
  if s.staged.2.isSome then s
  else { s with
    currentPruningPointIndexCache := s.currentPruningPointIndexCache.or s.storedPruningPointIndex }

def stagePruningPointByIndex (hash : DomainHash) (index : Nat) : Except Failure PruningIndexes := do
  let staged ← PruningProof.Flow.stagePruningPointByIndex
    (s.currentPruningPointIndexCache.or s.storedPruningPointIndex) s.staged (hash, index)
  .ok { s.afterRead with staged := staged }

def newPruningPointIndex : Nat :=
  match s.currentPruningPointIndex with
  | none => 0
  | some pruningPointIndex => (pruningPointIndex+1) % 2^64

def stagePruningPoint (hash : DomainHash) : Except Failure PruningIndexes :=
  s.afterRead.stagePruningPointByIndex hash s.newPruningPointIndex

def commit : PruningIndexes where
  storedPruningPointIndex := s.staged.2.or s.storedPruningPointIndex
  currentPruningPointIndexCache := s.staged.2.or s.currentPruningPointIndexCache
  staged := (∅, none)

/-- The state after a staging call, and the indexes staged so far. A call that fails stages none. -/
def recorded (indexes : List Nat) (index : Nat) :
    Except Failure PruningIndexes → PruningIndexes × List Nat
  | .ok s' => (s', index :: indexes)
  | .error _ => (s, indexes)

def perform : PruningIndexes × List Nat → PruningStoreCall → Option (PruningIndexes × List Nat)
  | (s, indexes), .stagePruningPoint hash =>
    some (s.afterRead.recorded indexes s.newPruningPointIndex (s.stagePruningPoint hash))
  | (s, indexes), .stagePruningPointByIndex hash index =>
    some (s.recorded indexes index (s.stagePruningPointByIndex hash index))
  | (s, indexes), .currentPruningPointIndex => some (s.afterRead, indexes)
  | (s, indexes), .commit => some (s.commit, indexes)

def empty : PruningIndexes := ⟨none,none,(∅, none)⟩

/-- The index 5 is committed, and 3 is staged in the next area. -/
theorem currentPruningPointIndex_falls : ∃ t,
    run perform (empty, []) [.stagePruningPointByIndex 1 5,.commit,.stagePruningPointByIndex 2 3] =
      some t ∧ t.1.currentPruningPointIndex = some 0 ∧ t.2.max? = some 5 :=
  ⟨_,rfl,rfl,rfl⟩

/-- An index that is the first one in its area is above the current one, unless that is 0. -/
def Rises (index : Nat) : Prop :=
  s.staged.2 = none → ∀ i ∈ s.currentPruningPointIndex, i < index ∨ i = 0

def RisingCall (t : PruningIndexes × List Nat) : PruningStoreCall → Prop
  | .stagePruningPoint _ => t.1.Rises t.1.newPruningPointIndex
  | .stagePruningPointByIndex _ index => t.1.Rises index
  | _ => True

variable {s}

lemma afterRead_staged : s.afterRead.staged = s.staged := by
  rw [afterRead]
  split <;> rfl

lemma currentPruningPointIndex_afterRead :
    s.afterRead.currentPruningPointIndex = s.currentPruningPointIndex := by
  rw [afterRead]
  split
  · rfl
  · simp [currentPruningPointIndex,Option.or_assoc]

lemma currentPruningPointIndex_stage {s' : PruningIndexes} {hash : DomainHash} {index : Nat}
    (hr : s.Rises index) (h : s.stagePruningPointByIndex hash index = .ok s') :
    s'.currentPruningPointIndex = some (s.currentPruningPointIndex.elim index (max index)) := by
  obtain ⟨staged,hs,hs'⟩ := bind_eq_ok h
  cases hs'
  obtain ⟨-,hs⟩ := of_ite_error hs
  change (match s.currentPruningPointIndex with | none => _ | some i => _) = _ at hs
  cases hc : s.currentPruningPointIndex with
  | none =>
    rw [hc] at hs
    cases hs
    rfl
  | some i =>
    rw [hc] at hs
    cases hs
    have hl : ¬index > i → s.staged.2.getD 0 = i := by
      intro hle
      cases hp : s.staged.2 with
      | none =>
        obtain hlt | rfl := hr hp i hc
        · exact absurd hlt hle
        · rfl
      | some _ =>
        rw [currentPruningPointIndex,hp] at hc
        exact Option.some.inj hc
    show some (if index > i then index else s.staged.2.getD 0) = some (max index i)
    split
    · rw [max_eq_left (by omega)]
    · next hle => rw [hl hle,max_eq_right (by omega)]

lemma recorded_keeps {indexes : List Nat} {hash : DomainHash} {index : Nat}
    (h : s.currentPruningPointIndex = indexes.max?) (hr : s.Rises index) :
    let t := s.recorded indexes index (s.stagePruningPointByIndex hash index)
    t.1.currentPruningPointIndex = t.2.max? ∧ indexes <:+ t.2 := by
  cases hs' : s.stagePruningPointByIndex hash index with
  | error _ => exact ⟨h,suffix_rfl⟩
  | ok _ =>
    refine ⟨?_,suffix_cons _ _⟩
    rw [recorded,max?_cons,currentPruningPointIndex_stage hr hs',h]

lemma perform_keeps (h : t.1.currentPruningPointIndex = t.2.max?) (hr : RisingCall t call)
    (hcl : perform t call = some t') :
    t'.1.currentPruningPointIndex = t'.2.max? ∧ t.2 <:+ t'.2 := by
  obtain ⟨s,_⟩ := t
  have hrd := currentPruningPointIndex_afterRead (s := s)
  cases call with
  | stagePruningPoint hash =>
    cases hcl
    have hrs : s.afterRead.Rises s.newPruningPointIndex := by
      rw [Rises,afterRead_staged,hrd]
      exact hr
    exact recorded_keeps (hrd.trans h) hrs
  | stagePruningPointByIndex hash _ =>
    cases hcl
    exact recorded_keeps h hr
  | currentPruningPointIndex =>
    cases hcl
    exact ⟨hrd.trans h,suffix_rfl⟩
  | commit =>
    cases hcl
    refine ⟨Eq.trans ?_ h,suffix_rfl⟩
    simp only [commit,currentPruningPointIndex]
    cases s.staged.2 <;> rfl

/-- Where the first index in every area is above the stored one, the index of the current pruning
point is the greatest one that was staged, before and after every commit, and it never falls. -/
theorem currentPruningPointIndex_is_greatest {calls more : List PruningStoreCall}
    (hrising : run.Along perform RisingCall (empty, []) (calls ++ more))
    (hcalls : run perform (empty, []) calls = some t) (hmore : run perform t more = some t') :
    t.1.currentPruningPointIndex = t.2.max? ∧
      ∀ i ∈ t.1.currentPruningPointIndex, ∃ j ∈ t'.1.currentPruningPointIndex, i ≤ j := by
  obtain ⟨hb,ha⟩ := run.along_append hrising hcalls
  have h := run.invariant_along (P := fun t => t.1.currentPruningPointIndex = t.2.max?)
    (fun _ _ _ h hrising hcl => (perform_keeps h hrising hcl).1) rfl hb hcalls
  have h' := run.invariant_along
    (P := fun u => u.1.currentPruningPointIndex = u.2.max? ∧ t.2 <:+ u.2)
    (fun _ _ _ h hrising hcl => (perform_keeps h.1 hrising hcl).imp_right h.2.trans)
    ⟨h,suffix_rfl⟩ ha hmore
  refine ⟨h,fun i hi => ?_⟩
  rw [h,Option.mem_def,max?_eq_some_iff] at hi
  have hm := h'.2.subset hi.1
  obtain ⟨j,hj⟩ := Option.isSome_iff_exists.1 (isSome_max?_of_mem hm)
  exact ⟨j,h'.1.trans hj,(max?_eq_some_iff.1 hj).2 i hm⟩

theorem currentPruningPointIndex_is_greatest_of_two : ∃ t,
    run perform (empty, []) [.stagePruningPointByIndex 1 5,.commit] = some t ∧
      t.1.currentPruningPointIndex = t.2.max? := by
  have hr : run.Along perform RisingCall (empty, [])
      ([.stagePruningPointByIndex 1 5,.commit] ++ []) :=
    ⟨fun _ _ h => (nomatch h),fun _ _ => ⟨trivial,fun _ _ => trivial⟩⟩
  exact ⟨_,rfl,(currentPruningPointIndex_is_greatest hr rfl rfl).1⟩

end PruningIndexes
end Eiyaro
