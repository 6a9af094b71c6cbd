import Eiyaro.Utxo.Algebra

/-!
# Diffs that lead from one UTXO set to another

The consensus state manager never holds the UTXO set of a block. It holds diffs
that lead from one set to another, and combines them with `withDiff`, `diffFrom`
and `reversed` or extends them entry by entry. This file states what each of
these operations does to the sets at both ends. All entries come from a function
`values`, since the diff algebra compares entries by outpoint and DAA score only.
-/

namespace Eiyaro.UTXODiff
open FinMap DiffCell
open UtxoCollection
variable {values : DomainOutpoint → UInt64 → UTXOEntry} {d d₁ d₂ : UTXODiff}
  {s t u : UtxoCollection} {o : DomainOutpoint} {e : UTXOEntry} {c : DiffCell UTXOEntry}

section
variable (values d s t)

/-- The diff can be applied to `s`, and the result is `t`. -/
structure Leads : Prop where
  reduced : d.Reduced
  canApply : d.CanApply s
  agrees : DiffAgrees values d
  applyTo_eq : d.applyTo s = t

end

lemma ext_cell (h : ∀ o, d₁.cell o = d₂.cell o) : d₁ = d₂ := by
  obtain ⟨add₁,remove₁⟩ := d₁
  obtain ⟨add₂,remove₂⟩ := d₂
  have ha : add₁ = add₂ := ext fun o => congrArg DiffCell.add (h o)
  have hr : remove₁ = remove₂ := ext fun o => congrArg DiffCell.remove (h o)
  rw [ha,hr]

lemma difference_reduced (h₁ : d₁.CanApply s) (h₂ : d₂.CanApply s) (hr₁ : d₁.Reduced)
    (hr₂ : d₂.Reduced) : (difference d₁ d₂).Reduced := by
  intro o
  rw [cell_difference]
  exact DiffCell.difference_reduced (h₁ o) (h₂ o) (hr₁ o) (hr₂ o)

lemma cell_ofCell_self (o : DomainOutpoint) (c : DiffCell UTXOEntry) : (ofCell o c).cell o = c := by
  rw [cell,ofCell,get_atOutpoint_self,get_atOutpoint_self]

lemma cell_ofCell_of_ne {o' : DomainOutpoint} (h : o' ≠ o) (c : DiffCell UTXOEntry) :
    (ofCell o c).cell o' = ⟨none,none⟩ := by
  rw [cell,ofCell,get_atOutpoint_of_ne h,get_atOutpoint_of_ne h]

lemma eq_composed_ofCell (hs : d₁.cell o = compose UTXOEntry.blockDAAScore (d.cell o) c)
    (hne : ∀ o', o' ≠ o → d₁.cell o' = d.cell o') : d₁ = composed d (ofCell o c) := by
  refine ext_cell fun o' => ?_
  rw [cell_composed]
  by_cases ho : o' = o
  · subst ho
    rw [cell_ofCell_self,hs]
  · rw [cell_ofCell_of_ne ho,compose_idle,hne o' ho]

lemma removeEntry_eq_composed (h : ¬d.toAdd.containsWithDAAScore o e.blockDAAScore →
    d.toRemove.get o = none) :
    d.removeEntry o e = .ok (composed d (ofCell o ⟨none,some e⟩)) := by
  unfold removeEntry
  by_cases ha : d.toAdd.containsWithDAAScore o e.blockDAAScore
  · rw [if_pos ha]
    congr 1
    refine eq_composed_ofCell ?_ fun o' ho => ?_
    · rw [compose_destroy]
      refine Eq.trans ?_ (if_pos ha).symm
      simp [cell,UtxoCollection.remove]
    · simp [cell,UtxoCollection.remove,get_erase_of_ne _ ho]
  · rw [if_neg ha,if_neg (by simp [contains,h ha])]
    congr 1
    refine eq_composed_ofCell ?_ fun o' ho => ?_
    · rw [compose_destroy]
      refine Eq.trans ?_ (if_neg ha).symm
      simp [cell,UtxoCollection.add]
    · simp [cell,UtxoCollection.add,get_insert_of_ne _ _ ho]

lemma addEntry_eq_composed (h : ¬d.toRemove.containsWithDAAScore o e.blockDAAScore →
    d.toAdd.get o = none) :
    d.addEntry o e = .ok (composed d (ofCell o ⟨some e,none⟩)) := by
  unfold addEntry
  by_cases hr : d.toRemove.containsWithDAAScore o e.blockDAAScore
  · rw [if_pos hr]
    congr 1
    refine eq_composed_ofCell ?_ fun o' ho => ?_
    · rw [compose_create]
      refine Eq.trans ?_ (if_pos hr).symm
      simp [cell,UtxoCollection.remove]
    · simp [cell,UtxoCollection.remove,get_erase_of_ne _ ho]
  · rw [if_neg hr,if_neg (by simp [contains,h hr])]
    congr 1
    refine eq_composed_ofCell ?_ fun o' ho => ?_
    · rw [compose_create]
      refine Eq.trans ?_ (if_neg hr).symm
      simp [cell,UtxoCollection.add]
    · simp [cell,UtxoCollection.add,get_insert_of_ne _ _ ho]

namespace Leads

lemma get_eq (h : Leads values d s t) (o : DomainOutpoint) :
    t.get o = (d.cell o).applyTo UTXOEntry.blockDAAScore (s.get o) := by
  rw [← h.applyTo_eq,get_applyTo]

lemma agrees_right (h : Leads values d s t) (hs : Agrees values s) : Agrees values t :=
  h.applyTo_eq ▸ applyTo_agrees h.agrees hs

section
variable (values s)

lemma newUTXODiff : Leads values UTXODiff.newUTXODiff s s where
  reduced o a r ha := by cases ha
  canApply o := .idle _
  agrees := ⟨fun _ _ he => absurd he (by simp [UTXODiff.newUTXODiff]),
    fun _ _ he => absurd he (by simp [UTXODiff.newUTXODiff])⟩
  applyTo_eq := by
    ext1 o
    exact applyTo_idle _ _

end

lemma withDiff (hs : Agrees values s) (h₁ : Leads values d₁ s t) (h₂ : Leads values d₂ t u) :
    ∃ d, UTXODiff.withDiff d₁ d₂ = .ok d ∧ Leads values d s u := by
  obtain ⟨hr₁,hcn₁,ha₁,rfl⟩ := h₁
  obtain ⟨_,hcn₂,ha₂,rfl⟩ := h₂
  exact ⟨_,withDiff_eq_composed hcn₁ hcn₂,composed_reduced hcn₁ hcn₂ hr₁,
    composed_canApply hcn₁ hcn₂,composed_agrees ha₁ ha₂,
    composed_applyTo_eq hcn₁ hcn₂ hs ha₁ ha₂⟩

lemma diffFrom (hs : Agrees values s) (h₁ : Leads values d₁ s t) (h₂ : Leads values d₂ s u) :
    ∃ d, UTXODiff.diffFrom d₁ d₂ = .ok d ∧ Leads values d t u := by
  obtain ⟨hr₁,hcn₁,hag₁,rfl⟩ := h₁
  obtain ⟨hr₂,hcn₂,hag₂,rfl⟩ := h₂
  have hno := hr₁.noReAddition hr₂
  refine ⟨_,diffFrom_eq_difference hcn₁ hcn₂ hno,difference_reduced hcn₁ hcn₂ hr₁ hr₂,
    difference_canApply hcn₁ hcn₂ hno,difference_agrees hag₁ hag₂,?_⟩
  exact (difference_applyTo hcn₁ hcn₂ hno).eq_of_agrees
    (applyTo_agrees (difference_agrees hag₁ hag₂) (applyTo_agrees hag₁ hs)) (applyTo_agrees hag₂ hs)

lemma reversed (hs : Agrees values s) (h : Leads values d s t) : Leads values d.reversed t s := by
  obtain ⟨hrd,hc,hag,rfl⟩ := h
  have ha' : DiffAgrees values d.reversed := ⟨hag.2,hag.1⟩
  refine ⟨fun o a r ha hr => (hrd o r a hr ha).symm,fun o => ?_,ha',?_⟩
  · exact (swap_spec (hc o)).1
  · refine SameScores.eq_of_agrees (fun o => ?_) (applyTo_agrees ha' (applyTo_agrees hag hs)) hs
    exact (swap_spec (hc o)).2

/-! ## One entry -/

lemma ofCell_agrees (ha : ∀ e, c.add = some e → e = values o e.blockDAAScore)
    (hr : ∀ e, c.remove = some e → e = values o e.blockDAAScore) :
    DiffAgrees values (ofCell o c) := by
  have hcl : ∀ c : Option UTXOEntry, (∀ e, c = some e → e = values o e.blockDAAScore) →
      Agrees values (atOutpoint o c) := by
    intro c hc o' e' he'
    by_cases ho : o' = o
    · subst ho
      rw [get_atOutpoint_self] at he'
      exact hc e' he'
    · rw [get_atOutpoint_of_ne ho] at he'
      cases he'
  exact ⟨hcl _ ha,hcl _ hr⟩

lemma ofCell_remove (ht : Agrees values t) (h : t.get o = some e) :
    Leads values (ofCell o ⟨none,some e⟩) t (t.remove o) where
  reduced := ofCell_reduced fun _ _ ha => by cases ha
  canApply := ofCell_canApply (by rw [h]; exact .destroy rfl)
  agrees := ofCell_agrees (fun e' he' => by cases he')
    (fun e' he' => Option.some.inj he' ▸ ht o e h)
  applyTo_eq := by
    ext1 o'
    rw [get_applyTo,UtxoCollection.remove,get_erase]
    by_cases ho : o' = o
    · subst ho
      rw [if_pos rfl,cell_ofCell_self,h]
      exact applyTo_destroy _ rfl
    · rw [if_neg ho,cell_ofCell_of_ne ho]
      exact applyTo_idle _ _

lemma ofCell_add (h : t.get o = none) (he : e = values o e.blockDAAScore) :
    Leads values (ofCell o ⟨some e,none⟩) t (t.add o e) where
  reduced := ofCell_reduced fun _ _ _ hr => by cases hr
  canApply := ofCell_canApply (by rw [h]; exact .create e)
  agrees := ofCell_agrees (fun e' he' => Option.some.inj he' ▸ he) (fun e' he' => by cases he')
  applyTo_eq := by
    ext1 o'
    rw [get_applyTo,UtxoCollection.add,get_insert]
    by_cases ho : o' = o
    · subst ho
      rw [if_pos rfl,cell_ofCell_self]
      rfl
    · rw [if_neg ho,cell_ofCell_of_ne ho]
      exact applyTo_idle _ _

/-- What the diff says about an outpoint, read from the set it leads to. -/
lemma toRemove_eq_none (h : Leads values d s t) (ho : t.get o = some e)
    (had : ¬d.toAdd.containsWithDAAScore o e.blockDAAScore) : d.toRemove.get o = none := by
  have hg := h.get_eq o
  have hc := h.canApply o
  have ha' : d.toAdd.get o ≠ some e := fun ha =>
    had (containsWithDAAScore_eq_true.2 ⟨e,ha,rfl⟩)
  rw [ho] at hg
  cases hr : d.toRemove.get o with
  | none => rfl
  | some r =>
    obtain ⟨_,he',hs⟩ := (canApply_iff.1 hc).1 r hr
    cases ha : d.toAdd.get o with
    | some _ => simp_all [cell]
    | none => simp [cell,ha,hr,he',applyTo_destroy _ hs] at hg

lemma toAdd_eq_none (h : Leads values d s t) (ho : t.get o = none) : d.toAdd.get o = none := by
  have hg := h.get_eq o
  rw [ho] at hg
  cases ha : d.toAdd.get o with
  | none => rfl
  | some _ => simp [DiffCell.applyTo,cell,ha] at hg

/-- Removing an entry of the set that the diff leads to. -/
lemma removeEntry (hs : Agrees values s) (h : Leads values d s t) (ho : t.get o = some e) :
    ∃ d', d.removeEntry o e = .ok d' ∧ Leads values d' s (t.remove o) := by
  have hc := ofCell_remove (h.agrees_right hs) ho
  obtain ⟨d',hd',hl⟩ := h.withDiff hs hc
  refine ⟨d',?_,hl⟩
  rw [removeEntry_eq_composed (h.toRemove_eq_none ho),← hd']
  exact (withDiff_eq_composed h.canApply (h.applyTo_eq ▸ hc.canApply)).symm

/-- Adding an entry at an outpoint that is free in the set the diff leads to. -/
lemma addEntry (hs : Agrees values s) (h : Leads values d s t) (ho : t.get o = none)
    (he : e = values o e.blockDAAScore) :
    ∃ d', d.addEntry o e = .ok d' ∧ Leads values d' s (t.add o e) := by
  have hc := ofCell_add ho he
  obtain ⟨d',hd',hl⟩ := h.withDiff hs hc
  refine ⟨d',?_,hl⟩
  rw [addEntry_eq_composed fun _ => h.toAdd_eq_none ho,← hd']
  exact (withDiff_eq_composed h.canApply (h.applyTo_eq ▸ hc.canApply)).symm

/-- Looking up an outpoint in the diff first and then in its base, as the code
does, is looking it up in the set that the diff leads to. -/
lemma get_eq_lookup (h : Leads values d s t) (o : DomainOutpoint) :
    t.get o = match d.toAdd.get o with
      | some e => some e
      | none => if d.toRemove.contains o then none else s.get o := by
  have hg := h.get_eq o
  have hc := h.canApply o
  cases ha : d.toAdd.get o with
  | some _ => simpa [DiffCell.applyTo,cell,ha] using hg
  | none =>
    cases hr : d.toRemove.get o with
    | none => simpa [cell,ha,hr,contains] using hg
    | some r =>
      obtain ⟨_,he',hs⟩ := (canApply_iff.1 hc).1 r hr
      simpa [cell,ha,hr,contains,he',applyTo_destroy _ hs] using hg

end Leads
end Eiyaro.UTXODiff
