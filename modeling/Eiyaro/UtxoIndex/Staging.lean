import Eiyaro.UtxoIndex.Represents

/-!
# What an update stages

The two loops of `Update` go over the removed and then over the added entries of
a diff. An added entry cancels a staged removal of the same outpoint and script.
What is staged afterwards is described outpoint by outpoint (`StagedFor`), for
every order in which the loops visit the diff.
-/

namespace Eiyaro
open EStateM StagedPairs UtxoIndexStore
variable {o : DomainOutpoint} {collection : UtxoCollection} {uis : UtxoIndexStore} {script : Bytes}
  {e : UTXOEntry}

/-- The entry of the collection at the outpoint, if it pays to the script. -/
def entryFor (collection : UtxoCollection) (script : Bytes) (o : DomainOutpoint) :
    Option UTXOEntry :=
  (collection.get o).filter fun e => scriptPublicKeyBytes e.scriptPublicKey = script

lemma entryFor_eq_some : entryFor collection script o = some e ↔
      collection.get o = some e ∧ scriptPublicKeyBytes e.scriptPublicKey = script := by
  rw [entryFor,Option.filter_eq_some_iff,decide_eq_true_eq]

lemma entryFor_of_get
    (h : collection.get o = some e) (script : Bytes) : entryFor collection script o =
      if scriptPublicKeyBytes e.scriptPublicKey = script then some e else none := by
  rw [entryFor,h]
  simp [Option.filter]

/-- Scripts are spelled by the bytes of script public keys. -/
def ScriptKeys (staged : StagedPairs) : Prop :=
  ∀ script ∈ staged.keys, ∃ spk, script = scriptPublicKeyBytes spk

lemma StagedPairs.entryAt_getD (staged : StagedPairs) (script : Bytes) (o : DomainOutpoint) :
    ((staged.get script).getD ∅).get o = staged.entryAt script o := by
  rw [entryAt]
  cases staged.get script <;> rfl

lemma StagedPairs.entryAt_insert (staged : StagedPairs) (script script' : Bytes)
    (pairs : UtxoCollection) (o : DomainOutpoint) :
    entryAt (staged.insert script pairs) script' o =
      if script' = script then pairs.get o else staged.entryAt script' o := by
  rw [entryAt,FinMap.get_insert]
  split
  · rfl
  · rfl

lemma ScriptKeys.insert {staged : StagedPairs} (h : ScriptKeys staged) (spk : ScriptPublicKey)
    (pairs : UtxoCollection) : ScriptKeys (staged.insert (scriptPublicKeyBytes spk) pairs) := by
  intro script hs
  obtain rfl | hm := Finset.mem_insert.1 hs
  · exact ⟨spk,rfl⟩
  · exact h script hm

/-! ## One pair -/

/-- A pair that is not staged on its own side is staged there, or cancels the
pair on the opposite side. -/
lemma stagePair_eq_ok (failure : DomainOutpoint → IndexFailure) {opposite own : StagedPairs}
    {spk : ScriptPublicKey} (e : UTXOEntry)
    (how : own.entryAt (scriptPublicKeyBytes spk) o = none) :
    ∃ opposite' own', stagePair failure opposite own spk o e = .ok (opposite', own') ∧
      (∀ script o', opposite'.entryAt script o' =
        if script = scriptPublicKeyBytes spk ∧ o' = o then none
        else opposite.entryAt script o') ∧
      (∀ script o', own'.entryAt script o' =
        if script = scriptPublicKeyBytes spk ∧ o' = o then
          (if (opposite.entryAt script o').isSome then none else some e)
        else own.entryAt script o') ∧
      (ScriptKeys opposite → ScriptKeys opposite') ∧ (ScriptKeys own → ScriptKeys own') := by
  have hop := opposite.entryAt_getD (scriptPublicKeyBytes spk) o
  have ho' := own.entryAt_getD (scriptPublicKeyBytes spk) o
  simp only [stagePair,UtxoCollection.contains,hop,ho',how]
  cases he : opposite.entryAt _ o with
  | some _ =>
    refine ⟨_,_,rfl,fun script o' => ?_,fun script o' => ?_,fun h => h.insert _ _,id⟩
    · rw [entryAt_insert,UtxoCollection.remove,FinMap.get_erase,entryAt_getD]
      by_cases hs : script = scriptPublicKeyBytes spk
      · by_cases ho : o' = o
        · simp [hs,ho]
        · simp [hs,ho]
      · simp [hs]
    · split
      · rename_i hat
        rw [hat.1,hat.2,he,how]
        rfl
      · rfl
  | none =>
    refine ⟨_,_,rfl,fun script o' => ?_,fun script o' => ?_,id,fun h => h.insert _ _⟩
    · split
      · rename_i hat
        rw [hat.1,hat.2,he]
      · rfl
    · rw [entryAt_insert,UtxoCollection.add,FinMap.get_insert, entryAt_getD]
      by_cases hs : script = scriptPublicKeyBytes spk
      · by_cases ho : o' = o
        · simp [hs,ho,he]
        · simp [hs,ho]
      · simp [hs]

/-! ## A loop over a collection -/

section
variable (opposite own : UtxoIndexStore → StagedPairs) (failure : DomainOutpoint → IndexFailure)
  {body : DomainOutpoint × UTXOEntry → IndexM Unit}

lemma mem_order_of_entryFor (it : collection.Iteration) (h : (entryFor collection script o).isSome)
    : o ∈ it.order := by
  obtain ⟨_,he⟩ := Option.isSome_iff_exists.1 h
  exact (it.mem_order o).2 (FinMap.mem_keys_of_get (entryFor_eq_some.1 he).1)

/-- Staging all entries of a collection, when nothing is staged on their side:
entries that are staged on the opposite side cancel, the others are staged. -/
lemma wp_stage_loop (it : collection.Iteration) (hb : ∀ t entry opposite' own',
      stagePair failure (opposite t) (own t) entry.2.scriptPublicKey entry.1 entry.2 =
          .ok (opposite', own') →
        ∃ t', body entry t = .ok () t' ∧ opposite t' = opposite' ∧ own t' = own' ∧
          t'.database = t.database)
    (hem : ∀ script o, (own uis).entryAt script o = none) (hky : ScriptKeys (own uis))
    (hky' : ScriptKeys (opposite uis)) :
    wp (it.entries.forM body)
      (fun _ t => t.database = uis.database ∧ ScriptKeys (opposite t) ∧ ScriptKeys (own t) ∧
        (∀ script o, (opposite t).entryAt script o =
          if (entryFor collection script o).isSome then none
          else (opposite uis).entryAt script o) ∧
        (∀ script o, (own t).entryAt script o =
          if ((opposite uis).entryAt script o).isSome then none
          else entryFor collection script o))
      (fun _ _ => False) uis := by
  -- outpoints that are still to be visited are as they were before the loop
  have hl := wp_forM_entries it (I := fun rest t =>
      t.database = uis.database ∧ ScriptKeys (opposite t) ∧ ScriptKeys (own t) ∧
      (∀ script o, (opposite t).entryAt script o =
        if o ∉ rest ∧ (entryFor collection script o).isSome then none
        else (opposite uis).entryAt script o) ∧
      ∀ script o, (own t).entryAt script o =
        if o ∈ rest ∨ ((opposite uis).entryAt script o).isSome then none
        else entryFor collection script o)
    (f := body) (E := fun _ _ => False) ?_ (s := uis)
    ⟨rfl,hky',hky,fun script o => ?_,fun script o => ?_⟩
  · refine hl.imp (fun _ t ht => ?_)
    obtain ⟨hdb,hky,hky',hop,hown⟩ := ht
    refine ⟨hdb,hky,hky',fun script o => ?_,fun script o => ?_⟩
    · simpa using hop script o
    · simpa using hown script o
  · rintro o e rest t hv he ⟨hdb,hky,hky',hop,hown⟩
    have hf : (own t).entryAt (scriptPublicKeyBytes e.scriptPublicKey) o = none := by
      rw [hown,if_pos (.inl List.mem_cons_self)]
    obtain ⟨opposite',own',hs,ho',how',hk,hk'⟩ := stagePair_eq_ok failure e hf
    obtain ⟨t',hr,rfl,rfl,hdb'⟩ := hb t (o, e) opposite' own' hs
    rw [wp,hr]
    refine ⟨hdb'.trans hdb,hk hky,hk' hky',fun script o' => ?_,fun script o' => ?_⟩
    · rw [ho',hop]
      by_cases ho : o' = o
      · subst ho
        rw [entryFor_of_get he]
        by_cases hscr : scriptPublicKeyBytes e.scriptPublicKey = script
        · simp [hscr,hv]
        · simp [hscr,Ne.symm]
      · simp [ho]
    · rw [how',hown]
      by_cases ho : o' = o
      · subst ho
        have hu : (opposite t).entryAt script o' = (opposite uis).entryAt script o' := by
          rw [hop,if_neg fun h => h.1 List.mem_cons_self]
        rw [hu,entryFor_of_get he]
        by_cases hscr : scriptPublicKeyBytes e.scriptPublicKey = script
        · simp [hscr,hv]
        · simp [hscr,Ne.symm hscr]
      · simp [ho]
  · split
    · rename_i hv
      exact absurd (mem_order_of_entryFor it hv.2) hv.1
    · rfl
  · rw [hem]
    split
    · rfl
    · rename_i hv
      rw [not_or] at hv
      refine (Option.not_isSome_iff_eq_none.1 fun hsm => hv.1 ?_).symm
      exact mem_order_of_entryFor it hsm

end

/-! ## The staged pairs of an update -/

/-- What is staged for a diff: its entries, except those that both sides have at
one outpoint and script. -/
structure StagedFor (uis : UtxoIndexStore) (diff : UTXODiff) : Prop where
  toRemove : ∀ script o, uis.toRemove.entryAt script o =
    if (entryFor diff.toAdd script o).isSome then none else entryFor diff.toRemove script o
  toAdd : ∀ script o, uis.toAdd.entryAt script o =
    if (entryFor diff.toRemove script o).isSome then none else entryFor diff.toAdd script o
  removeKeys : ScriptKeys uis.toRemove
  addKeys : ScriptKeys uis.toAdd

lemma scriptKeys_empty : ScriptKeys ∅ := by
  intro script hs
  exact absurd hs (Finset.notMem_empty script)

/-- From an empty staging area both loops of an update succeed. -/
lemma wp_stage_diff (diff : UTXODiff) (removals : diff.toRemove.Iteration)
    (additions : diff.toAdd.Iteration) (hadd : uis.toAdd = ∅) (hr : uis.toRemove = ∅) :
    wp (do
        removals.entries.forM fun (outpoint, entry) =>
          remove entry.scriptPublicKey outpoint entry
        additions.entries.forM fun (outpoint, entry) =>
          add entry.scriptPublicKey outpoint entry)
      (fun _ t => t.database = uis.database ∧ StagedFor t diff) (fun _ _ => False) uis := by
  rw [wp_bind]
  refine (wp_stage_loop toAdd toRemove .beingRemovedAlready removals
    ?_ ?_ ?_ ?_).imp (fun _ t ht => ?_)
  · rintro t ⟨o,e⟩ toAdd toRemove hst
    refine ⟨{ t with toRemove := toRemove, toAdd := toAdd },?_,rfl,rfl,rfl⟩
    simp only [remove,bind,EStateM.bind,get,getThe,MonadStateOf.get,EStateM.get,hst]
    rfl
  · intro script o
    rw [hr]
    rfl
  · rw [hr]
    exact scriptKeys_empty
  · rw [hadd]
    exact scriptKeys_empty
  · obtain ⟨hdb,hka,hk,hta,htr⟩ := ht
    have hn : ∀ script o, t.toAdd.entryAt script o = none := by
      intro script o
      rw [hta,hadd]
      split <;> rfl
    have ha : ∀ script o, t.toRemove.entryAt script o = entryFor diff.toRemove script o := by
      intro script o
      rw [htr,hadd]
      rfl
    refine (wp_stage_loop toRemove toAdd .beingAddedAlready additions
      ?_ hn hka hk).imp (fun _ _ hu => ?_)
    · rintro t ⟨o,e⟩ toRemove toAdd hst
      refine ⟨{ t with toRemove := toRemove, toAdd := toAdd },?_,rfl,rfl,rfl⟩
      simp only [add,bind,EStateM.bind,get,getThe,MonadStateOf.get,EStateM.get,hst]
      rfl
    · obtain ⟨hdb',hk',hka',ht',hta'⟩ := hu
      refine ⟨hdb'.trans hdb,fun script o => ?_,fun script o => ?_,hk',hka'⟩
      · rw [ht',ha]
      · rw [hta',ha]

/-! ## Flattened pairs -/

section
variable (orders : MapOrders) (staged : StagedPairs)

lemma mem_flatten : (script, o, e) ∈ staged.flatten orders ↔ staged.entryAt script o = some e := by
  simp only [flatten,List.mem_flatMap,List.mem_map,entryAt,Option.bind_eq_some_iff]
  constructor
  · rintro ⟨⟨script',pairs⟩,hpr,⟨o',e'⟩,he,heq⟩
    obtain ⟨rfl,rfl,rfl⟩ : script' = script ∧ o' = o ∧ e' = e := by simpa using heq
    exact ⟨pairs,(orders.scripts staged).mem_entries.1 hpr,
      (orders.outpoints pairs).mem_entries.1 he⟩
  · rintro ⟨pairs,hpr,he⟩
    exact ⟨(script, pairs),(orders.scripts staged).mem_entries.2 hpr,(o, e),
      (orders.outpoints pairs).mem_entries.2 he,rfl⟩

lemma nodup_flatten : (staged.flatten orders).Nodup := by
  rw [flatten,List.nodup_flatMap]
  constructor
  · rintro ⟨script,pairs⟩ -
    refine (orders.outpoints pairs).nodup_map_fst.of_map.map ?_
    rintro ⟨o,e⟩ ⟨_,_⟩ h
    simpa using h
  · -- pairs of two scripts differ in the script
    have hk := (orders.scripts staged).nodup_map_fst
    rw [List.Nodup,List.pairwise_map] at hk
    refine hk.imp ?_
    rintro ⟨script,pairs⟩ ⟨_,_⟩ hne ⟨_,o,e⟩ hm hm'
    simp only [List.mem_map,Prod.mk.injEq,Prod.exists] at hm hm'
    obtain ⟨-,-,-,rfl,-⟩ := hm
    obtain ⟨-,-,-,hs,-⟩ := hm'
    exact hne hs.symm

/-- The number of pairs of a script. -/
lemma count_flatten (script : Bytes) :
    ((staged.flatten orders).map Prod.fst).count script = staged.size script := by
  -- the pairs of the script have distinct outpoints, those that are staged for it
  set pairs := (staged.flatten orders).filter fun pair => pair.1 == script with hpr
  have hm : ∀ script' o e, (script', o, e) ∈ pairs ↔
      script' = script ∧ staged.entryAt script o = some e := by
    intro script' o e
    rw [List.mem_filter,mem_flatten,beq_iff_eq,and_comm]
    exact and_congr_right fun h => by rw [← h]
  have hnd : (pairs.map fun pair => pair.2.1).Nodup := by
    refine ((nodup_flatten orders staged).filter _).map_on ?_
    rintro ⟨s,o,e⟩ h ⟨s',o',e'⟩ h' heq
    obtain ⟨hs,he⟩ := (hm s o e).1 h
    obtain ⟨hs',he'⟩ := (hm s' o' e').1 h'
    obtain rfl : o = o' := heq
    rw [hs,hs',Option.some.inj (he.symm.trans he')]
  have hk : (pairs.map fun pair => pair.2.1).toFinset = ((staged.get script).getD ∅).keys := by
    ext o
    rw [List.mem_toFinset,List.mem_map,FinMap.mem_keys,entryAt_getD,Option.isSome_iff_exists]
    constructor
    · rintro ⟨⟨s,o,e⟩,hp,rfl⟩
      exact ⟨e,((hm s o e).1 hp).2⟩
    · rintro ⟨e,he⟩
      exact ⟨(script, o, e),(hm script o e).2 ⟨rfl,he⟩,rfl⟩
  have hsz : staged.size script = ((staged.get script).getD ∅).keys.card := by
    rw [size]
    cases staged.get script <;> rfl
  rw [hsz,← hk,List.toFinset_card_of_nodup hnd,List.length_map,List.count,
    List.countP_map,List.countP_eq_length_filter]
  rfl

end
end Eiyaro
