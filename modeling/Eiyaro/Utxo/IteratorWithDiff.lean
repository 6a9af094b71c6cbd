import Eiyaro.Utxo.Algebra
import Eiyaro.Utxo.Iterator

/-!
# Iterating over a set under a diff

The iterator of `utxo_iterator_with_diff.go` goes through the entries of a base iterator that its
diff does not remove, and then through the entries that the diff adds, in an order that every
`First` chooses anew. Over an iterator with a diff of its own the two diffs are combined.
-/

namespace Eiyaro
open List FinMap UTXODiff UtxoCollectionIterator

abbrev UtxoPairs := List (DomainOutpoint × UTXOEntry)

/-- The order of an iteration over a map. -/
abbrev MapOrder := (uc : UtxoCollection) → uc.Iteration

/-- An iterator as its users see it. -/
structure ReadOnlyUTXOSetIterator (σ : Type) where
  first : σ → Except Failure (Bool × σ)
  next : σ → Except Failure (Bool × σ)
  get : σ → Except Failure (DomainOutpoint × UTXOEntry)

def UtxoCollectionIterator.close (uci : UtxoCollectionIterator) :
    Except Failure UtxoCollectionIterator :=
  if uci.isClosed then .error (.error "Tried using a closed utxoCollectionIterator")
  else .ok { uci with isClosed := true, pairs := [] }

def utxoCollectionIterator : ReadOnlyUTXOSetIterator UtxoCollectionIterator :=
  ⟨first,next,get⟩

variable {σ : Type}

/-- The fields `currentOutpoint`, `currentUTXOEntry` and `currentErr` are one. -/
structure ReadOnlyUTXOIteratorWithDiff (σ : Type) where
  baseIterator : σ
  diff : UTXODiff
  current : Except Failure (DomainOutpoint × UTXOEntry)
  toAddIterator : UtxoCollectionIterator
  isClosed : Bool

def nilDereference : Failure :=
  .panic "invalid memory address or nil pointer dereference"

def iteratorWithDiff (iterator : σ ⊕ ReadOnlyUTXOIteratorWithDiff σ) (diff : UTXODiff)
    (order : MapOrder) :
    Except Failure (ReadOnlyUTXOIteratorWithDiff σ) :=
  let start (base : σ) (d : UTXODiff) : ReadOnlyUTXOIteratorWithDiff σ :=
    ⟨base,d,.error nilDereference,d.toAdd.iterator (order d.toAdd),false⟩
  match iterator with
  | .inl base => .ok (start base diff)
  | .inr iterator =>
    match iterator.diff.withDiff diff with
    | .error message => .error (.error message)
    | .ok combinedDiff => .ok (start iterator.baseIterator combinedDiff)

namespace ReadOnlyUTXOIteratorWithDiff
variable (base : ReadOnlyUTXOSetIterator σ)

section
variable (fuel : Nat) (r : ReadOnlyUTXOIteratorWithDiff σ)

/-- Makes the base's entry the current one, and says whether the diff removes it. -/
def readBase : Except Failure (Bool × ReadOnlyUTXOIteratorWithDiff σ) :=
  match base.get r.baseIterator with
  | .error (.panic message) => .error (.panic message)
  -- the DAA score of a nil entry is read
  | .error _ => .error nilDereference
  | .ok pair =>
    .ok (r.diff.toRemove.containsWithDAAScore pair.1 pair.2.blockDAAScore,
      { r with current := .ok pair })

/-- The body of `Next`, with fuel for its loop. -/
def nextLoop : Nat → ReadOnlyUTXOIteratorWithDiff σ →
    Except Failure (Bool × ReadOnlyUTXOIteratorWithDiff σ)
  | 0, _ => .error (.error "out of fuel")
  | fuel+1, r => do
    let (more, baseIterator) ← base.next r.baseIterator
    let r := { r with baseIterator }
    if more then
      let (removed, r) ← r.readBase base
      if removed then nextLoop fuel r else return (true, r)
    else
      let (more, toAddIterator) ← r.toAddIterator.next
      let r := { r with toAddIterator }
      if more then
        match toAddIterator.get with
        | .error (.panic message) => .error (.panic message)
        | current => return (true, { r with current })
      else return (false, r)

def next : Except Failure (Bool × ReadOnlyUTXOIteratorWithDiff σ) :=
  if r.isClosed then .error (.panic "Tried using a closed readOnlyUTXOIteratorWithDiff")
  else nextLoop base fuel r

def first (order : MapOrder) (r : ReadOnlyUTXOIteratorWithDiff σ) :
    Except Failure (Bool × ReadOnlyUTXOIteratorWithDiff σ) :=
  if r.isClosed then .error (.panic "Tried using a closed readOnlyUTXOIteratorWithDiff")
  else do
    let (baseNotEmpty, baseIterator) ← base.first r.baseIterator
    let r := { r with baseIterator }
    match r.toAddIterator.close with
    | .error err => return (true, { r with current := .error err })
    | .ok _ =>
      let r := { r with toAddIterator := r.diff.toAdd.iterator (order r.diff.toAdd) }
      if baseNotEmpty then
        let (removed, r) ← r.readBase base
        if removed then r.next base fuel else return (true, r)
      else if r.diff.toAdd.keys.card = 0 then return (false, r)
      else r.next base fuel

def get : Except Failure (DomainOutpoint × UTXOEntry) :=
  if r.isClosed then .error (.error "Tried using a closed readOnlyUTXOIteratorWithDiff")
  else r.current

def iterator (order : MapOrder) : ReadOnlyUTXOSetIterator (ReadOnlyUTXOIteratorWithDiff σ) :=
  ⟨first base fuel order,next base fuel,get⟩

end
end ReadOnlyUTXOIteratorWithDiff

/-! ## What an iterator goes through -/

namespace ReadOnlyUTXOSetIterator
variable (it : ReadOnlyUTXOSetIterator σ) (At : UtxoPairs → σ → Prop)

/-- The entries from the current one on, with fuel. -/
def collect : Nat → Bool × σ → Except Failure UtxoPairs
  | 0, _ => .error (.error "out of fuel")
  | _+1, (false, _) => .ok []
  | fuel+1, (true, s) => do
    let pair ← it.get s
    let rest ← it.next s >>= collect fuel
    return pair :: rest

def enumerate (fuel : Nat) (s : σ) : Except Failure UtxoPairs :=
  it.first s >>= it.collect fuel

/-- The result of a call after which the entries of `l` are left, the first one as the current
entry. The states before `rest` are the ones `At rest`. -/
def Yields (get : σ → Except Failure (DomainOutpoint × UTXOEntry)) (l : UtxoPairs)
    (result : Except Failure (Bool × σ)) : Prop :=
  ∃ s, result = .ok (!l.isEmpty, s) ∧ At l.tail s ∧ ∀ pair ∈ l.head?, get s = .ok pair

/-- The iterator goes through `pairs` after every `First`. -/
structure Over (pairs : UtxoPairs) : Prop where
  first : ∀ {rest s}, At rest s → Yields At it.get pairs (it.first s)
  next : ∀ {rest s}, At rest s → Yields At it.get rest (it.next s)

variable {it At} {pairs l rest : UtxoPairs}

lemma Over.collect_eq (h : it.Over At pairs) {fuel : Nat} {result : Except Failure (Bool × σ)}
    (hl : Yields At it.get l result) (hfl : l.length < fuel) :
    (result >>= it.collect fuel) = .ok l := by
  induction l generalizing fuel result with
  | nil =>
    obtain ⟨s,rfl,-⟩ := hl
    obtain ⟨fuel,rfl⟩ := Nat.exists_eq_add_of_lt hfl
    simp [collect]
  | cons pair _ ih =>
    obtain ⟨s,rfl,hat,hg⟩ := hl
    obtain _ | fuel := fuel
    · simp at hfl
    · have hr := ih (h.next hat) (Nat.lt_of_succ_lt_succ hfl)
      rw [isEmpty_cons,Bool.not_false,ok_bind,collect,hg pair rfl,hr]
      rfl

end ReadOnlyUTXOSetIterator

open ReadOnlyUTXOSetIterator

namespace UtxoCollectionIterator

/-- An iterator over `pairs` that has `rest` before it. -/
def Before (pairs rest : UtxoPairs) (uci : UtxoCollectionIterator) : Prop :=
  ∃ n : Nat, uci = ⟨n - 1,pairs,false⟩ ∧ rest = pairs.drop n

variable {pairs : UtxoPairs}

lemma yields_drop (n : Nat) : Yields (Before pairs) get (pairs.drop n)
    (.ok (decide (n < pairs.length), ⟨n,pairs,false⟩)) := by
  refine ⟨⟨n,pairs,false⟩,?_,⟨n+1,by simp,by simp⟩,?_⟩
  · congr 2
    rw [Bool.eq_iff_iff]
    simp
  · intro _ hp
    rw [head?_drop] at hp
    obtain ⟨hn,rfl⟩ := List.getElem?_eq_some_iff.1 hp
    exact get_of_lt hn

lemma over_pairs : utxoCollectionIterator.Over (Before pairs) pairs where
  first := by
    rintro _ _ ⟨n,rfl,rfl⟩
    exact yields_drop 0
  next := by
    rintro _ _ ⟨n,rfl,rfl⟩
    simpa [utxoCollectionIterator,next] using yields_drop n

end UtxoCollectionIterator

open UtxoCollectionIterator

namespace UTXODiff
variable {d : UTXODiff} {s : UtxoCollection}

def keeps (d : UTXODiff) (pair : DomainOutpoint × UTXOEntry) : Bool :=
  !d.toRemove.containsWithDAAScore pair.1 pair.2.blockDAAScore

/-- The entries that an iterator over `s` in the order `it` has under the diff. -/
def applied (it : s.Iteration) (order : d.toAdd.Iteration) : UtxoPairs :=
  it.entries.filter d.keeps ++ order.entries

section
variable (h : d.CanApply s) (it : s.Iteration) (order : d.toAdd.Iteration)
include h

lemma CanApply.not_keeps (o : DomainOutpoint) (a e : UTXOEntry) (ha : d.toAdd.get o = some a)
    (he : s.get o = some e) : d.keeps (o, e) = false := by
  obtain ⟨hrm,had⟩ := DiffCell.canApply_iff.1 (h o)
  obtain hf | ⟨r,hr⟩ := had a ha
  · cases hf.symm.trans he
  · obtain ⟨_,he',hs⟩ := hrm r hr
    obtain rfl := Option.some.inj (he'.symm.trans he)
    have hc := UtxoCollection.containsWithDAAScore_eq_true.2 ⟨r,hr,hs.symm⟩
    simp [keeps,hc]

lemma CanApply.mem_applied (o : DomainOutpoint) (e : UTXOEntry) :
    (o, e) ∈ applied it order ↔ (d.applyTo s).get o = some e := by
  rw [applied,mem_append,mem_filter,it.mem_entries,order.mem_entries,applyTo,get_insertAll,
    get_filter,Option.or_eq_some_iff,Option.filter_eq_some_iff]
  constructor
  · rintro (⟨he,hkp⟩ | ha)
    · refine .inr ⟨Option.eq_none_iff_forall_ne_some.2 fun a ha => ?_,he,hkp⟩
      simp [h.not_keeps o a e ha he] at hkp
    · exact .inl ha
  · rintro (ha | ⟨-,he,hkp⟩)
    · exact .inr ha
    · exact .inl ⟨he,hkp⟩

lemma CanApply.nodup_applied : ((applied it order).map Prod.fst).Nodup := by
  rw [applied,map_append]
  refine (it.nodup_map_fst.sublist (filter_sublist.map _)).append order.nodup_map_fst ?_
  intro _ hkp had
  obtain ⟨⟨_,_⟩,he,rfl⟩ := mem_map.1 hkp
  obtain ⟨⟨_,_⟩,ha,rfl⟩ := mem_map.1 had
  obtain ⟨he,hk⟩ := mem_filter.1 he
  have hf := h.not_keeps _ _ _ (order.mem_entries.1 ha) (it.mem_entries.1 he)
  simp [hf] at hk

end
end UTXODiff

namespace ReadOnlyUTXOIteratorWithDiff
variable (base : ReadOnlyUTXOSetIterator σ) (At : UtxoPairs → σ → Prop)
  (d : UTXODiff) (fuel : Nat)

/-- The open iterators before the entries `baseRest` of the base and `added` of the diff. -/
inductive Ahead : UtxoPairs → ReadOnlyUTXOIteratorWithDiff σ → Prop
  | mk {b : σ} {uci : UtxoCollectionIterator} {baseRest pairs added}
    (current : Except Failure (DomainOutpoint × UTXOEntry)) (hbase : At baseRest b)
    (hadded : Before pairs added uci) (hlt : baseRest.length < fuel) :
    Ahead (baseRest.filter d.keeps ++ added) ⟨b,d,current,uci,false⟩

variable {base At d fuel} {baseRest pairs added : UtxoPairs} {b : σ}
  {uci : UtxoCollectionIterator} {current : Except Failure (DomainOutpoint × UTXOEntry)}

/-- A base entry is the answer, or the search goes on after it. -/
lemma yields_of_readBase {pair : DomainOutpoint × UTXOEntry}
    {again : ReadOnlyUTXOIteratorWithDiff σ →
      Except Failure (Bool × ReadOnlyUTXOIteratorWithDiff σ)}
    (hat : At baseRest b) (ha : Before pairs added uci) (hlt : baseRest.length < fuel)
    (hg : base.get b = .ok pair)
    (hag : ∀ current, Yields (Ahead At d fuel) get (baseRest.filter d.keeps ++ added)
      (again ⟨b,d,current,uci,false⟩)) :
    Yields (Ahead At d fuel) get ((pair :: baseRest).filter d.keeps ++ added)
      (readBase base ⟨b,d,current,uci,false⟩ >>= fun (removed, r) =>
        if removed then again r else return (true, r)) := by
  rw [readBase,hg,ok_bind]
  cases hr : d.toRemove.containsWithDAAScore pair.1 pair.2.blockDAAScore with
  | false =>
    rw [filter_cons_of_pos (by simp [keeps,hr])]
    exact ⟨_,rfl,.mk _ hat ha hlt,by simp [get]⟩
  | true =>
    rw [filter_cons_of_neg (by simp [keeps,hr])]
    exact hag _

section
variable {entries : UtxoPairs} (hbase : base.Over At entries)
include hbase

lemma nextLoop_yields {k : Nat} (hk : k ≤ fuel) (hat : At baseRest b)
    (had : Before pairs added uci) (hlt : baseRest.length < k) :
    Yields (Ahead At d fuel) get (baseRest.filter d.keeps ++ added)
      (nextLoop base k ⟨b,d,current,uci,false⟩) := by
  induction k generalizing baseRest b current with
  | zero => omega
  | succ k ih =>
    obtain ⟨b,hnx,hat,hg⟩ := hbase.next hat
    rw [nextLoop,hnx]
    cases baseRest with
    | cons pair rest =>
      have hlt := Nat.lt_of_succ_lt_succ hlt
      exact yields_of_readBase hat had (hlt.trans hk) (hg pair rfl)
        fun _ => ih (Nat.le_of_succ_le hk) hat hlt
    | nil =>
      obtain ⟨uci',hnx : uci.next = _,had,hg⟩ := over_pairs.next had
      have hf := hlt.trans_le hk
      simp only [isEmpty_nil,Bool.not_true,Bool.false_eq_true,if_false,hnx,ok_bind]
      cases added with
      | nil => exact ⟨_,rfl,.mk _ hat had hf,by simp⟩
      | cons pair rest =>
        have hp : uci'.get = .ok pair := hg pair rfl
        rw [hp]
        exact ⟨_,rfl,.mk _ hat had hf,by simp [get]⟩

lemma over_applied (order : MapOrder) (hfl : entries.length < fuel) :
    (iterator base fuel order).Over (Ahead At d fuel)
      (entries.filter d.keeps ++ (order d.toAdd).entries) where
  next := by
    rintro _ _ ⟨_,hat,had,hlt⟩
    exact nextLoop_yields hbase le_rfl hat had hlt
  first := by
    rintro _ _ ⟨_,hat,⟨_,rfl,-⟩,-⟩
    obtain ⟨_,hf,hat,hg⟩ := hbase.first hat
    have had : Before _ (order d.toAdd).entries (d.toAdd.iterator (order d.toAdd)) := ⟨0,rfl,rfl⟩
    simp only [iterator,first,Bool.false_eq_true,if_false,hf,ok_bind]
    cases entries with
    | cons pair _ =>
      have hlt := Nat.lt_of_succ_lt hfl
      exact yields_of_readBase hat had hlt (hg pair rfl)
        fun _ => nextLoop_yields hbase le_rfl hat had hlt
    | nil =>
      show Yields _ _ _ (if d.toAdd.keys.card = 0 then _ else nextLoop _ _ _)
      split
      · next he =>
        have hn : (order d.toAdd).entries = [] := by
          refine eq_nil_iff_forall_not_mem.2 fun ⟨_,_⟩ hm => ?_
          have hk := mem_keys_of_get ((order d.toAdd).mem_entries.1 hm)
          simp [Finset.card_eq_zero.1 he] at hk
        rw [hn] at had ⊢
        exact ⟨_,rfl,.mk _ hat had hfl,by simp⟩
      · exact nextLoop_yields hbase le_rfl hat had hfl

end

variable (At) in
/-- The base goes through `s`, so that the iterator goes through `t`. -/
def IteratesOver (s : UtxoCollection) : σ ⊕ ReadOnlyUTXOIteratorWithDiff σ → UtxoCollection → Prop
  | .inl b, t => (∃ rest, At rest b) ∧ t = s
  | .inr r, t => (∃ rest, At rest r.baseIterator) ∧ r.diff.CanApply s ∧ t = r.diff.applyTo s

/-- From the state `r₀` on, whatever is called, iterating from `First` gives `l order`. -/
def Enumerates (base : ReadOnlyUTXOSetIterator σ) (r₀ : ReadOnlyUTXOIteratorWithDiff σ)
    (l : MapOrder → UtxoPairs) : Prop :=
  ∃ bound, ∀ fuel > bound, ∃ At, (∃ rest, At rest r₀) ∧ ∀ order,
    (iterator base fuel order).Over At (l order) ∧ ∀ fuel' > (l order).length,
      ∀ rest r, At rest r → (iterator base fuel order).enumerate fuel' r = .ok (l order)

lemma enumerates_applied {s : UtxoCollection} (it : s.Iteration)
    (hbase : base.Over At it.entries) (hat : ∃ rest, At rest b) (created : d.toAdd.Iteration) :
    Enumerates base ⟨b,d,current,d.toAdd.iterator created,false⟩
      fun order => applied it (order d.toAdd) := by
  obtain ⟨rest,hat⟩ := hat
  refine ⟨max rest.length it.entries.length,fun fuel hf => ?_⟩
  obtain ⟨hrs,he⟩ := max_lt_iff.1 hf
  refine ⟨Ahead At d fuel,⟨_,.mk _ hat ⟨0,rfl,rfl⟩ hrs⟩,fun order => ?_⟩
  have hov : (iterator base fuel order).Over (Ahead At d fuel) _ := over_applied hbase order he
  exact ⟨hov,fun _ hf' _ _ hr => hov.collect_eq (hov.first hr) hf'⟩

/-- An iterator with a diff goes through the entries of the set under the diff, each once, after
every `First`. The order of the base's entries is always the same, the one of the added entries
is chosen by `First`. Over an iterator with a diff this uses that an entry is determined by its
outpoint and DAA score. -/
theorem iteratorWithDiff_enumerates (base : ReadOnlyUTXOSetIterator σ) {s t : UtxoCollection}
    (it : s.Iteration) (hbase : base.Over At it.entries)
    (baseIterator : σ ⊕ ReadOnlyUTXOIteratorWithDiff σ) (hover : IteratesOver At s baseIterator t)
    (d : UTXODiff) (hd : d.CanApply t) (created : MapOrder) :
    ∃ r₀, ∃ d' : UTXODiff, iteratorWithDiff baseIterator d created = .ok r₀ ∧
      Enumerates base r₀ (fun order => applied it (order d'.toAdd)) ∧
      (∀ order : d'.toAdd.Iteration, ((applied it order).map Prod.fst).Nodup ∧
        ∀ o e, (o, e) ∈ applied it order ↔ (d'.applyTo s).get o = some e) ∧
      SameScores (d'.applyTo s) (d.applyTo t) ∧
      ((∀ r, baseIterator = .inr r → ∃ values,
        Agrees values s ∧ DiffAgrees values r.diff ∧ DiffAgrees values d) →
          d'.applyTo s = d.applyTo t) := by
  rcases baseIterator with b | r
  · obtain ⟨hat,rfl⟩ := hover
    exact ⟨_,d,rfl,enumerates_applied it hbase hat _,
      fun order => ⟨hd.nodup_applied it order,hd.mem_applied it order⟩,fun _ => rfl,fun _ => rfl⟩
  · obtain ⟨hat,hr,rfl⟩ := hover
    have ha := composed_canApply hr hd
    refine ⟨_,composed r.diff d,by rw [iteratorWithDiff,withDiff_eq_composed hr hd],
      enumerates_applied it hbase hat _,
      fun order => ⟨ha.nodup_applied it order,ha.mem_applied it order⟩,
      composed_applyTo hr hd,fun hv => ?_⟩
    obtain ⟨values,hs,hdf,hd'⟩ := hv r rfl
    exact composed_applyTo_eq hr hd hs hdf hd'

/-- An iteration that visits the outpoints in a given order if these are the keys. -/
noncomputable def visiting (outpoints : List DomainOutpoint) : MapOrder := fun uc =>
  if h : outpoints.Nodup ∧ outpoints.toFinset = uc.keys then ⟨outpoints,h.1,by simp [← h.2]⟩
  else someIteration uc

/-- The diff removes the entry of the set and adds one with another score for its outpoint: only
the added entry is visited. -/
theorem iteratorWithDiff_enumerates_replaced :
    let s := atOutpoint ⟨0,0⟩ (some (entryWithScore 5))
    let d := ofCell ⟨0,0⟩ ⟨some (entryWithScore 7),some (entryWithScore 5)⟩
    ∃ r₀ l, iteratorWithDiff (.inl (s.iterator (visiting [] s))) d (visiting []) = .ok r₀ ∧
      Enumerates utxoCollectionIterator r₀ l ∧
      ∀ order e, (⟨0,0⟩, e) ∈ l order ↔ e = entryWithScore 7 := by
  intro s d
  obtain ⟨r₀,_,hr,hen,hmem,-,heq⟩ := iteratorWithDiff_enumerates utxoCollectionIterator
    (visiting [] s) over_pairs (.inl _) ⟨⟨_,0,rfl,rfl⟩,rfl⟩ d
    (ofCell_canApply (.replace _ rfl)) _
  refine ⟨r₀,_,hr,hen,fun order e => ?_⟩
  have hg : (d.applyTo s).get ⟨0,0⟩ = some (entryWithScore 7) := by decide
  have heq := heq fun _ he => by cases he
  rw [(hmem _).2,heq,hg]
  exact Option.some_inj.trans eq_comm

/-- The second `First` gives the added entries in another order. -/
theorem iteratorWithDiff_changes_order :
    let d : UTXODiff := ⟨(addingOne 1).toAdd.insert ⟨2,0⟩ (entryWithScore 5),∅⟩
    let order := visiting [⟨1,0⟩,⟨2,0⟩]
    let order' := visiting [⟨2,0⟩,⟨1,0⟩]
    (do
      let r ← iteratorWithDiff (.inl (⟨-1,[],false⟩ : UtxoCollectionIterator)) d order
      let l ← (iterator utxoCollectionIterator 3 order).enumerate 3 r
      let (_, r) ← r.first utxoCollectionIterator 3 order
      let l' ← (iterator utxoCollectionIterator 3 order').enumerate 3 r
      return (l.map Prod.fst, l'.map Prod.fst)) = .ok ([⟨1,0⟩,⟨2,0⟩], [⟨2,0⟩,⟨1,0⟩]) := by
  decide

end ReadOnlyUTXOIteratorWithDiff
end Eiyaro
