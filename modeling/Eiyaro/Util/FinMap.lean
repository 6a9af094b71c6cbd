import Mathlib

/-!
# Finite maps with extensional equality

A finite map is a lookup function together with the finite set of keys on which
it is defined. Two maps with the same lookups are equal, lookups compute, and a
loop over a map is a bounded quantifier over its keys. Every operation comes
with the equation for its lookup, so that proofs about maps are proofs about
one key at a time.
-/

/-- A finite map from `K` to `V`. The key set is determined by the lookup
function, so the two cannot drift apart. -/
structure FinMap (K V : Type) where
  /-- The keys the map is defined on. -/
  keys : Finset K
  /-- The value stored at a key, if any. -/
  get : K → Option V
  /-- A key is listed exactly when it has a value. -/
  mem_keys : ∀ k, k ∈ keys ↔ (get k).isSome

namespace FinMap
open List Prod
variable {K V : Type} {p : K → V → Bool} {k : K} {v : V} {m n : FinMap K V}

/-- Maps with the same lookups are equal. -/
@[ext] lemma ext (h : ∀ k, m.get k = n.get k) : m = n := by
  obtain ⟨mk,mg,hm⟩ := m
  obtain ⟨nk,ng,hn⟩ := n
  have hg : mg = ng := funext h
  subst hg
  have hk : mk = nk := by
    ext k
    rw [hm,hn]
  subst hk
  rfl

/-- A key with a value is a listed key. -/
lemma mem_keys_of_get (h : m.get k = some v) : k ∈ m.keys := by
  rw [m.mem_keys,h]
  rfl

/-- A listed key has a value. -/
lemma exists_get_of_mem (h : k ∈ m.keys) : ∃ v, m.get k = some v :=
  Option.isSome_iff_exists.mp ((m.mem_keys k).mp h)

/-- The map without keys. -/
def empty : FinMap K V where
  keys := ∅
  get := fun _ => none
  mem_keys := by simp

instance : EmptyCollection (FinMap K V) := ⟨empty⟩

instance : Inhabited (FinMap K V) := ⟨empty⟩

@[simp] lemma get_empty (k : K) : (∅ : FinMap K V).get k = none := rfl

/-- Whether some entry of the map satisfies `p`. -/
def any (m : FinMap K V) (p : K → V → Bool) : Bool :=
  decide (∃ k ∈ m.keys, (m.get k).any (p k) = true)

lemma any_eq_true : m.any p = true ↔ ∃ k v, m.get k = some v ∧ p k v = true := by
  rw [any,decide_eq_true_iff]
  constructor
  · rintro ⟨k,hk,h⟩
    obtain ⟨v,hv⟩ := exists_get_of_mem hk
    exact ⟨k,v,hv,by simpa [hv] using h⟩
  · rintro ⟨k,v,hv,hp⟩
    exact ⟨k,mem_keys_of_get hv,by simp [hv,hp]⟩

lemma any_eq_false : m.any p = false ↔ ∀ k v, m.get k = some v → p k v = false := by
  rw [← Bool.not_eq_true,any_eq_true]
  simp

/-- The entries that satisfy `p`. -/
def filter (m : FinMap K V) (p : K → V → Bool) : FinMap K V where
  keys := m.keys.filter fun k => (m.get k).any (p k) = true
  get := fun k => (m.get k).filter (p k)
  mem_keys := by
    intro k
    rw [Finset.mem_filter,m.mem_keys]
    cases h : m.get k with
    | none => simp
    | some v => simp [Option.filter]

@[simp] lemma get_filter (m : FinMap K V) (p : K → V → Bool) (k : K) :
    (m.filter p).get k = (m.get k).filter (p k) := rfl

/-- Removes every key of `n`. -/
def eraseAll (m n : FinMap K V) : FinMap K V where
  keys := m.keys.filter fun k => (n.get k).isNone
  get := fun k => if (n.get k).isNone then m.get k else none
  mem_keys := by
    intro k
    rw [Finset.mem_filter,m.mem_keys]
    cases n.get k <;> simp

@[simp] lemma get_eraseAll (m n : FinMap K V) (k : K) :
    (m.eraseAll n).get k = if (n.get k).isNone then m.get k else none := rfl

def mapValues {W : Type} (m : FinMap K V) (f : V → W) : FinMap K W where
  keys := m.keys
  get := fun k => (m.get k).map f
  mem_keys := by
    intro k
    rw [m.mem_keys,Option.isSome_map]

@[simp] lemma get_mapValues {W : Type} (m : FinMap K V) (f : V → W) (k : K) :
    (m.mapValues f).get k = (m.get k).map f := rfl

/-- An order in which a loop over the map may visit its keys. -/
structure Iteration (m : FinMap K V) where
  order : List K
  nodup : order.Nodup
  mem_order : ∀ k, k ∈ order ↔ k ∈ m.keys

/-- Some order of the keys of a map. -/
noncomputable def someIteration (m : FinMap K V) : m.Iteration :=
  ⟨m.keys.toList,m.keys.nodup_toList,fun _ => Finset.mem_toList⟩

section
variable {m : FinMap K V} (it : m.Iteration)

/-- The entries in the order of their visits. -/
def Iteration.entries : List (K × V) :=
  it.order.filterMap fun k => (m.get k).map fun v => (k, v)

lemma Iteration.mem_entries : (k, v) ∈ it.entries ↔ m.get k = some v := by
  rw [entries,mem_filterMap]
  constructor
  · rintro ⟨_,-,h⟩
    obtain ⟨_,hv',heq⟩ := Option.map_eq_some_iff.1 h
    obtain ⟨rfl,rfl⟩ := Prod.mk.inj heq
    exact hv'
  · intro h
    exact ⟨k,(it.mem_order k).2 (mem_keys_of_get h),by simp [h]⟩

lemma Iteration.map_fst_entries : it.entries.map fst = it.order := by
  rw [entries,map_filterMap]
  have hs : ∀ k ∈ it.order, Option.map fst ((m.get k).map fun v => (k, v)) = some k := by
    intro k hk
    obtain ⟨v,hv⟩ := exists_get_of_mem ((it.mem_order k).1 hk)
    rw [hv]
    rfl
  rw [filterMap_congr hs]
  exact filterMap_some

lemma Iteration.nodup_map_fst : (it.entries.map fst).Nodup :=
  it.map_fst_entries ▸ it.nodup

/-- There is only one way to go over a single entry. -/
lemma Iteration.entries_of_keys_eq
    (hk : m.keys = {k}) (hv : m.get k = some v) : it.entries = [(k, v)] := by
  have hp : it.order.Perm [k] := by
    refine (perm_ext_iff_of_nodup it.nodup (nodup_singleton k)).2 fun _ => ?_
    rw [it.mem_order,hk,Finset.mem_singleton,mem_singleton]
  rw [entries,perm_singleton.1 hp,filterMap_cons,hv]
  rfl

end

/-- Every entry of the first map is an entry of the second, as of a cache and what it caches. -/
instance : LE (FinMap K V) := ⟨fun m n => ∀ k v,m.get k = some v → n.get k = some v⟩

lemma get_or_of_le (h : m ≤ n) (k : K) : (m.get k).or (n.get k) = n.get k := by
  cases hk : m.get k with
  | none => rfl
  | some v => exact (h k v hk).symm

section
variable [DecidableEq K] {l : List (K × V)} {k' : K} (m : FinMap K V)

/-- Stores `v` at `k`, replacing what was there. -/
def insert (k : K) (v : V) : FinMap K V where
  keys := Insert.insert k m.keys
  get := fun k' => if k' = k then some v else m.get k'
  mem_keys := by
    intro k'
    by_cases h : k' = k
    · simp [h]
    · simp [h,m.mem_keys]

lemma get_insert (k : K) (v : V) (k' : K) :
    (m.insert k v).get k' = if k' = k then some v else m.get k' := rfl

@[simp] lemma get_insert_self (k : K) (v : V) : (m.insert k v).get k = some v := by
  simp [get_insert]

lemma get_insert_of_ne (v : V) (h : k' ≠ k) : (m.insert k v).get k' = m.get k' := by
  simp [get_insert,h]

/-- Removes the entry at `k`, if there is one. -/
def erase (k : K) : FinMap K V where
  keys := m.keys.erase k
  get := fun k' => if k' = k then none else m.get k'
  mem_keys := by
    intro k'
    by_cases h : k' = k
    · simp [h]
    · simp [h,m.mem_keys]

lemma get_erase (k k' : K) : (m.erase k).get k' = if k' = k then none else m.get k' := rfl

@[simp] lemma get_erase_self (k : K) : (m.erase k).get k = none := by
  simp [get_erase]

lemma get_erase_of_ne (h : k' ≠ k) : (m.erase k).get k' = m.get k' := by
  simp [get_erase,h]

/-- Stores every entry of `n`, replacing the entries of `m` at the same keys. -/
def insertAll (n : FinMap K V) : FinMap K V where
  keys := m.keys ∪ n.keys
  get := fun k => (n.get k).or (m.get k)
  mem_keys := by
    intro k
    rw [Finset.mem_union,m.mem_keys,n.mem_keys]
    cases n.get k <;> simp

@[simp] lemma get_insertAll (n : FinMap K V) (k : K) :
    (m.insertAll n).get k = (n.get k).or (m.get k) := rfl

lemma ite_mem_cons {A : Type} {ks : List K} {a b : A} :
    (if k ∈ ks then a else if k = k' then a else b) = if k ∈ k' :: ks then a else b := by
  by_cases hks : k ∈ ks <;> by_cases heq : k = k' <;> simp [hks,heq]

/-- Stores `v` at every key of the list. -/
def insertKeys (ks : List K) (v : V) : FinMap K V :=
  ks.foldl (fun m k => m.insert k v) m

lemma get_insertKeys (ks : List K) (v : V) (k : K) :
    (m.insertKeys ks v).get k = if k ∈ ks then some v else m.get k := by
  induction ks generalizing m with
  | nil => rfl
  | cons k' ks ih =>
    show ((m.insert k' v).insertKeys ks v).get k = _
    rw [ih,get_insert,ite_mem_cons]

/-- Removes the entries at the keys of the list. -/
def eraseKeys (ks : List K) : FinMap K V :=
  ks.foldl (fun m k => m.erase k) m

lemma get_eraseKeys (ks : List K) (k : K) :
    (m.eraseKeys ks).get k = if k ∈ ks then none else m.get k := by
  induction ks generalizing m with
  | nil => rfl
  | cons k' ks ih =>
    show ((m.erase k').eraseKeys ks).get k = _
    rw [ih,get_erase,ite_mem_cons]

/-- Stores the entries of the list, later ones replacing earlier ones. -/
def insertEntries (l : List (K × V)) : FinMap K V :=
  l.foldl (fun m entry => m.insert entry.1 entry.2) m

lemma get_insertEntries_of_not_mem (h : k ∉ l.map fst) : (m.insertEntries l).get k = m.get k := by
  induction l generalizing m with
  | nil => rfl
  | cons entry l ih =>
    rw [map_cons,mem_cons,not_or] at h
    show ((m.insert entry.1 entry.2).insertEntries l).get k = _
    rw [ih _ h.2,get_insert_of_ne m entry.2 h.1]

lemma get_insertEntries_of_mem (hnd : (l.map fst).Nodup) (h : (k, v) ∈ l) :
    (m.insertEntries l).get k = some v := by
  induction l generalizing m with
  | nil => cases h
  | cons entry l ih =>
    rw [map_cons,nodup_cons] at hnd
    show ((m.insert entry.1 entry.2).insertEntries l).get k = _
    obtain rfl | hm := mem_cons.1 h
    · rw [get_insertEntries_of_not_mem _ hnd.1,get_insert_self]
    · exact ih _ hnd.2 hm

lemma get_eraseKeys_eq_some {ks : List K} :
    (m.eraseKeys ks).get k = some v ↔ k ∉ ks ∧ m.get k = some v := by
  rw [get_eraseKeys]
  split <;> simp [*]

/-- Entries with distinct keys that are stored where nothing was. -/
lemma get_insertEntries_eq_some (hnd : (l.map fst).Nodup) (hf : ∀ k ∈ l.map fst, m.get k = none) :
    (m.insertEntries l).get k = some v ↔ (k, v) ∈ l ∨ m.get k = some v := by
  by_cases hk : k ∈ l.map fst
  · obtain ⟨⟨_,_⟩,hm,rfl⟩ := mem_map.1 hk
    rw [hf _ hk,get_insertEntries_of_mem m hnd hm]
    refine ⟨fun h => .inl (Option.some.inj h ▸ hm),fun h => ?_⟩
    obtain h | h := h
    · rw [← get_insertEntries_of_mem m hnd hm,get_insertEntries_of_mem m hnd h]
    · cases h
  · rw [get_insertEntries_of_not_mem m hk]
    exact (or_iff_right fun h => hk (mem_map_of_mem h)).symm

lemma get_insertEntries_empty (hnd : (l.map fst).Nodup) :
    ((∅ : FinMap K V).insertEntries l).get k = some v ↔ (k, v) ∈ l :=
  (get_insertEntries_eq_some ∅ hnd fun _ _ => rfl).trans (or_iff_left (Option.some_ne_none v).symm)

/-- A loop that stores the entries of another map. -/
lemma insertEntries_entries (it : n.Iteration) : m.insertEntries it.entries = m.insertAll n := by
  ext1 k
  rw [get_insertAll]
  cases hk : n.get k with
  | some _ => exact get_insertEntries_of_mem m it.nodup_map_fst (it.mem_entries.2 hk)
  | none =>
    refine get_insertEntries_of_not_mem m ?_
    simp [it.map_fst_entries,it.mem_order,n.mem_keys,hk]

lemma eraseKeys_order (it : n.Iteration) : m.eraseKeys it.order = m.eraseAll n := by
  ext1 k
  rw [get_eraseKeys]
  cases hk : n.get k <;> simp [it.mem_order,n.mem_keys,hk]

variable {m} {n : FinMap K V}

lemma insert_le (h : m ≤ n) (hv : n.get k = some v) : m.insert k v ≤ n := by
  intro k' v' hk'
  rw [get_insert] at hk'
  split at hk'
  · next heq => rw [heq,← hk',hv]
  · exact h k' v' hk'

lemma eraseKeys_le (h : m ≤ n) (ks : List K) : m.eraseKeys ks ≤ n :=
  fun k v hk => h k v (m.get_eraseKeys_eq_some.1 hk).2

/-! ## Sums over the entries -/

variable (m)
variable {A : Type} [AddCommGroup A]

def sum (m : FinMap K V) (f : K → V → A) : A :=
  ∑ k ∈ m.keys, (m.get k).elim 0 (f k)

section
variable (f : K → V → A)

lemma sum_erase (h : m.get k = some v) : (m.erase k).sum f = m.sum f - f k v := by
  have hc : ∀ k' ∈ m.keys.erase k,
      ((m.erase k).get k').elim 0 (f k') = (m.get k').elim 0 (f k') := by
    intro k' hk'
    rw [get_erase_of_ne m (Finset.ne_of_mem_erase hk')]
  have hk : (m.erase k).keys = m.keys.erase k := rfl
  rw [sum,sum,hk,Finset.sum_congr rfl hc,eq_sub_iff_add_eq,
    ← Finset.sum_erase_add m.keys _ (mem_keys_of_get h),h]
  rfl

lemma sum_insert (v : V) (h : m.get k = none) : (m.insert k v).sum f = m.sum f+f k v := by
  have hk : k ∉ m.keys := by
    rw [m.mem_keys,h]
    simp
  have hc : ∀ k' ∈ m.keys, ((m.insert k v).get k').elim 0 (f k') = (m.get k').elim 0 (f k') := by
    intro k' hk'
    rw [get_insert_of_ne m v (ne_of_mem_of_not_mem hk' hk)]
  have hky : (m.insert k v).keys = Insert.insert k m.keys := rfl
  rw [sum,hky,Finset.sum_insert hk,Finset.sum_congr rfl hc,get_insert_self,add_comm]
  rfl

lemma sum_eraseKeys (hnd : (l.map fst).Nodup) (hm : ∀ k v, (k, v) ∈ l → m.get k = some v) :
    (m.eraseKeys (l.map fst)).sum f = m.sum f - (l.map fun entry => f entry.1 entry.2).sum := by
  induction l generalizing m with
  | nil => simp [eraseKeys]
  | cons entry l ih =>
    obtain ⟨k,v⟩ := entry
    rw [map_cons,nodup_cons] at hnd
    show ((m.erase k).eraseKeys (l.map fst)).sum f = _
    rw [ih _ hnd.2,sum_erase m f (hm k v mem_cons_self),map_cons,sum_cons,sub_sub]
    intro k' v' h
    have hne : k' ≠ k := by
      rintro rfl
      exact hnd.1 (mem_map.2 ⟨(k', v'),h,rfl⟩)
    rw [get_erase_of_ne m hne]
    exact hm k' v' (mem_cons_of_mem _ h)

lemma sum_insertEntries (hnd : (l.map fst).Nodup) (hf : ∀ k ∈ l.map fst, m.get k = none) :
    (m.insertEntries l).sum f = m.sum f+(l.map fun entry => f entry.1 entry.2).sum := by
  induction l generalizing m with
  | nil => simp [insertEntries]
  | cons entry l ih =>
    obtain ⟨k,v⟩ := entry
    rw [map_cons,nodup_cons] at hnd
    show ((m.insert k v).insertEntries l).sum f = _
    rw [ih _ hnd.2,sum_insert m f v (hf k mem_cons_self),map_cons,sum_cons,add_assoc]
    intro k' hk'
    have hne : k' ≠ k := fun heq => hnd.1 (heq ▸ hk')
    rw [get_insert_of_ne m v hne]
    exact hf k' (mem_cons_of_mem _ hk')

end
end
end FinMap
