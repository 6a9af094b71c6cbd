import Eiyaro.Mempool.Checks

/-!
# The orphan pool as a whole

In a coherent state the orphan pool agrees with its index, and an orphan can be taken out without
an error. `strict` asks for what keeps the acceptance of an orphan from failing in other ways
than by a rule.
-/

namespace Eiyaro
open List FinMap DomainTransaction
variable {id : DomainTransactionID} {orphan : OrphanTransaction} {pointer : Pointer}
  {touched : Set Pointer}

namespace Mempool
open EStateM
variable {setup : MempoolSetup} {call : Call} {s t : Mempool} {strict : Prop}
  {tx : TransactionObject} {isHighPriority : Bool}

/-! ## Coherent states -/

/-- An orphan that is listed in both maps, under its ID and its outpoints. -/
structure Listed (setup : MempoolSetup) (mp : Mempool) (id : DomainTransactionID)
    (orphan : OrphanTransaction) : Prop where
  lt : orphan.transaction < mp.nextPointer
  idAt : idAt setup mp orphan.transaction = id
  nodup : (mp.objects orphan.transaction).previousOutpoints.Nodup
  indexed : ∀ o ∈ (mp.objects orphan.transaction).previousOutpoints,
    mp.orphansByPreviousOutpoint.get o = some orphan

/-- The sizes that `checkedOutpointIndex` is made for. -/
def Indexable (tx : DomainTransaction) : Prop :=
  tx.inputs.length ≤ 2^32 ∧ tx.outputs.length ≤ 2^32

structure Coherent (strict : Prop) (setup : MempoolSetup) (mp : Mempool) : Prop where
  transactions : ∀ id t, mp.allTransactions.get id = some t → t.transaction < mp.nextPointer
  keyed : KeyedByID setup mp
  orphans : ∀ id orphan, mp.allOrphans.get id = some orphan → Listed setup mp id orphan
  index : ∀ o orphan, mp.orphansByPreviousOutpoint.get o = some orphan →
    ∃ id, mp.allOrphans.get id = some orphan ∧ o ∈ (mp.objects orphan.transaction).previousOutpoints
  indexable : ∀ id orphan, mp.allOrphans.get id = some orphan →
    Indexable (mp.objects orphan.transaction).toDomainTransaction
  accepted : strict → ∀ id orphan, mp.allOrphans.get id = some orphan →
    (mp.objects orphan.transaction).mass ≠ 0 ∧ HasScores (mp.objects orphan.transaction)

lemma Indexable.congr {tx tx' : DomainTransaction} (h : Indexable tx)
    (hc : tx'.unpopulated = tx.unpopulated) : Indexable tx' := by
  have hl := congrArg length (previousOutpoints_congr hc)
  simp only [previousOutpoints,length_map] at hl
  refine ⟨?_,?_⟩
  · rw [hl]
    exact h.1
  · rw [← outputs_unpopulated,hc]
    exact h.2

lemma Indexable.same (h : Indexable (s.objects pointer).toDomainTransaction)
    (hs : Same touched s t) : Indexable (t.objects pointer).toDomainTransaction :=
  h.congr (hs.core pointer)

lemma Coherent.pooled (h : Coherent strict setup s) (id : DomainTransactionID)
    (m : MempoolTransaction) (hm : s.allTransactions.get id = some m) :
    m.transaction < s.nextPointer ∧ Mempool.idAt setup s m.transaction = id :=
  ⟨h.transactions id m hm,h.keyed id m hm⟩

lemma Coherent.of_noOrphans (ho : s.allOrphans = ∅) (hi : s.orphansByPreviousOutpoint = ∅)
    (hp : ∀ id m, s.allTransactions.get id = some m →
      m.transaction < s.nextPointer ∧ Mempool.idAt setup s m.transaction = id) :
    Coherent strict setup s := by
  refine ⟨fun id m hm => (hp id m hm).1,fun id m hm => (hp id m hm).2,?_,?_,?_,?_⟩
  all_goals simp [ho,hi]

/-- Coherence survives new objects, new entries of the old ones and transactions that are put
into the pool under their IDs, as long as the orphans still can be accepted. -/
lemma Coherent.congr (h : Coherent strict setup s)
    (hcr : ∀ p < s.nextPointer, (t.objects p).toDomainTransaction.unpopulated =
      (s.objects p).toDomainTransaction.unpopulated) (hn : s.nextPointer ≤ t.nextPointer)
    (hor : t.allOrphans = s.allOrphans)
    (hi : t.orphansByPreviousOutpoint = s.orphansByPreviousOutpoint)
    (hpl : ∀ id m, t.allTransactions.get id = some m →
      m.transaction < s.nextPointer ∧ idAt setup s m.transaction = id)
    (ha : strict → ∀ id orphan, s.allOrphans.get id = some orphan →
      (t.objects orphan.transaction).mass ≠ 0 ∧ HasScores (t.objects orphan.transaction)) :
    Coherent strict setup t := by
  have hid : ∀ {p}, p < s.nextPointer → idAt setup t p = idAt setup s p := fun hp => by
    rw [idAt,idAt,← setup.transactionID_unpopulated,hcr _ hp,setup.transactionID_unpopulated]
  have hops : ∀ {p}, p < s.nextPointer →
      (t.objects p).previousOutpoints = (s.objects p).previousOutpoints := fun hp =>
    previousOutpoints_congr (hcr _ hp)
  refine ⟨fun id m hm => (hpl id m hm).1.trans_le hn,fun id m hm => ?_,?_,?_,?_,?_⟩
  · obtain ⟨hlt,hia⟩ := hpl id m hm
    rw [hid hlt,hia]
  · intro id orphan hg
    rw [hor] at hg
    have hls := h.orphans id orphan hg
    refine ⟨hls.lt.trans_le hn,(hid hls.lt).trans hls.idAt,?_,?_⟩
    · rw [hops hls.lt]
      exact hls.nodup
    · rw [hops hls.lt,hi]
      exact hls.indexed
  · intro o orphan ho
    rw [hi] at ho
    obtain ⟨id,hg,hmm⟩ := h.index o orphan ho
    rw [hor,hops (h.orphans id orphan hg).lt]
    exact ⟨id,hg,hmm⟩
  · intro id orphan hg
    rw [hor] at hg
    exact (h.indexable id orphan hg).congr (hcr _ (h.orphans id orphan hg).lt)
  · rw [hor]
    exact ha

lemma Coherent.same (h : Coherent strict setup s) (hsm : Same touched s t)
    (ht : strict → ∀ id orphan, s.allOrphans.get id = some orphan →
      orphan.transaction ∈ touched → (t.objects orphan.transaction).mass ≠ 0 ∧
        HasScores (t.objects orphan.transaction)) : Coherent strict setup t := by
  refine h.congr (fun p _ => hsm.core p) hsm.nextPointer.ge hsm.allOrphans
    hsm.orphansByPreviousOutpoint ?_ fun hs id orphan hg => ?_
  · rw [hsm.allTransactions]
    exact h.pooled
  · by_cases hm : orphan.transaction ∈ touched
    · exact ht hs id orphan hg hm
    · rw [hsm.objects _ hm]
      exact h.accepted hs id orphan hg

/-! ## Taking an orphan out -/

/-- The state without an orphan. -/
def forget (s : Mempool) (id : DomainTransactionID) (orphan : OrphanTransaction) : Mempool :=
  { s with
    allOrphans := s.allOrphans.erase id
    orphansByPreviousOutpoint := s.orphansByPreviousOutpoint.eraseKeys
      (s.objects orphan.transaction).previousOutpoints }

lemma forgetOrphan_wp (h : Listed setup s id orphan) :
    wp (forgetOrphan id orphan) (fun _ t => t = s.forget id orphan) (fun _ _ => False) s := by
  have hl : ∀ (inputs : List DomainTransactionInput) (n : Nat) (u : Mempool),
      (inputs.map (·.previousOutpoint)).Nodup →
      (∀ input ∈ inputs, (u.orphansByPreviousOutpoint.get input.previousOutpoint).isSome) →
      wp ((inputs.zipIdx n).forM fun input => do
        let mp ← get
        if (mp.orphansByPreviousOutpoint.get input.1.previousOutpoint).isNone then
          error ("Input No. " ++ toString input.2 ++ " of " ++ hashString id ++ " (" ++
            outpointString input.1.previousOutpoint ++
            ") doesn't exist in orphansByPreviousOutpoint")
        else
          set { mp with
            orphansByPreviousOutpoint :=
              mp.orphansByPreviousOutpoint.erase input.1.previousOutpoint } : MempoolM Unit)
        (fun _ t => t = { u with orphansByPreviousOutpoint :=
          u.orphansByPreviousOutpoint.eraseKeys (inputs.map (·.previousOutpoint)) })
        (fun _ _ => False) u := by
    intro inputs
    induction inputs with
    | nil => exact fun _ _ _ _ => rfl
    | cons input inputs ih =>
      intro n u hnd hsm
      rw [map_cons,nodup_cons] at hnd
      rw [forall_mem_cons] at hsm
      refine (wp_bind _ _).2 ?_
      refine wp_ite (fun hn => ?_) fun _ => ?_
      · rw [Option.isNone_iff_eq_none] at hn
        rw [hn] at hsm
        cases hsm.1
      · refine ih (n+1) _ hnd.2 fun other ho => ?_
        have hne : other.previousOutpoint ≠ input.previousOutpoint := fun heq =>
          hnd.1 (heq ▸ mem_map_of_mem ho)
        rw [get_erase_of_ne _ hne]
        exact hsm.2 other ho
  refine (hl _ 0 _ h.nodup fun input hi => ?_).imp (fun _ t ht => ht)
  rw [h.indexed _ (mem_map_of_mem hi)]
  rfl

lemma removeOrphan_wp (h : Coherent strict setup s) :
    wp (removeOrphan setup id false)
      (fun _ t => (s.allOrphans.get id = none ∧ t = s) ∨
        ∃ orphan, s.allOrphans.get id = some orphan ∧ t = s.forget id orphan)
      (fun _ _ => False) s := by
  rw [removeOrphan,wp_bind,wp_get]
  unfold removeOrphanLoop
  rw [wp_bind,wp_get]
  cases hg : s.allOrphans.get id with
  | none => exact .inl ⟨rfl,rfl⟩
  | some orphan =>
    rw [wp_bind]
    refine (forgetOrphan_wp (h.orphans id orphan hg)).imp (fun _ t ht => ?_)
    exact .inr ⟨orphan,rfl,ht⟩

/-- The orphan at an ID is known by its pointer. -/
lemma Coherent.eq_of_transaction (h : Coherent strict setup s) {id' : DomainTransactionID}
    {orphan' : OrphanTransaction} (hg : s.allOrphans.get id = some orphan)
    (hg' : s.allOrphans.get id' = some orphan') (heq : orphan'.transaction = orphan.transaction)
    : id' = id := by
  rw [← (h.orphans id' orphan' hg').idAt,heq,(h.orphans id orphan hg).idAt]

lemma Coherent.forget (h : Coherent strict setup s) (hg : s.allOrphans.get id = some orphan) :
    Coherent strict setup (s.forget id orphan) := by
  have hold : ∀ id' orphan', (s.allOrphans.erase id).get id' = some orphan' →
      s.allOrphans.get id' = some orphan' ∧ id' ≠ id := by
    intro id' orphan' hg'
    rw [get_erase] at hg'
    split at hg'
    · cases hg'
    · next hne => exact ⟨hg',hne⟩
  refine ⟨h.transactions,h.keyed,?_,?_,?_,?_⟩
  · intro id' orphan' hg'
    obtain ⟨hg',hne⟩ := hold id' orphan' hg'
    have hls := h.orphans id' orphan' hg'
    refine ⟨hls.lt,hls.idAt,hls.nodup,fun o ho => ?_⟩
    show (s.orphansByPreviousOutpoint.eraseKeys _).get o = some orphan'
    rw [get_eraseKeys,if_neg,hls.indexed o ho]
    -- No outpoint is spent by two orphans, since the index has one orphan for each.
    intro hs
    have hsm := (hls.indexed o ho).symm.trans ((h.orphans id orphan hg).indexed o hs)
    cases hsm
    exact hne (h.eq_of_transaction hg hg' rfl)
  · intro o orphan' hi
    have hi' : (s.orphansByPreviousOutpoint.eraseKeys
      (s.objects orphan.transaction).previousOutpoints).get o = some orphan' := hi
    rw [get_eraseKeys] at hi'
    split at hi'
    · cases hi'
    · next hn =>
      obtain ⟨id',hg',ho⟩ := h.index o orphan' hi'
      refine ⟨id',?_,ho⟩
      show (s.allOrphans.erase id).get id' = some orphan'
      rw [get_erase_of_ne,hg']
      rintro rfl
      rw [hg] at hg'
      cases hg'
      exact hn ho
  · intro id' orphan' hg'
    exact h.indexable id' orphan' (hold id' orphan' hg').1
  · intro hst id' orphan' hg'
    exact h.accepted hst id' orphan' (hold id' orphan' hg').1

lemma card_forget (hg : s.allOrphans.get id = some orphan) :
    (s.forget id orphan).allOrphans.keys.card < s.allOrphans.keys.card :=
  Finset.card_erase_lt_of_mem (mem_keys_of_get hg)

/-! ## Putting an orphan in -/

lemma limitOrphanPoolSizeLoop_wp (fuel : Nat) : ∀ s, Coherent strict setup s →
    s.allOrphans.keys.card < fuel →
    wp (limitOrphanPoolSizeLoop setup call fuel)
      (fun _ t => Coherent strict setup t ∧ t.allTransactions = s.allTransactions)
      (fun _ _ => False) s := by
  induction fuel with
  | zero => exact fun _ _ hc => absurd hc (Nat.not_lt_zero _)
  | succ fuel ih =>
    intro s h hc
    refine wp_ite (fun _ => ?_) fun _ => ⟨h,rfl⟩
    cases hr : randomNonHighPriorityOrphan call s with
    | none => exact ⟨h,rfl⟩
    | some orphan =>
      obtain ⟨id,-,hg⟩ := mem_filterMap.1 (mem_of_find?_eq_some hr)
      have hid := (h.orphans id orphan hg).idAt
      rw [wp_bind,hid]
      refine (removeOrphan_wp h).imp (fun _ t ht => ?_)
      obtain ⟨hn,-⟩ | ⟨_,hg',rfl⟩ := ht
      · rw [hg] at hn
        cases hn
      · refine ih _ (h.forget hg') ?_
        have hlt := card_forget hg'
        omega

lemma addOrphan_wp (h : Coherent strict setup s) (hlt : pointer < s.nextPointer)
    (hid : Indexable (s.objects pointer).toDomainTransaction)
    (hnd : (s.objects pointer).previousOutpoints.Nodup)
    (hn : s.allOrphans.get (idAt setup s pointer) = none)
    (hfr : ∀ o ∈ (s.objects pointer).previousOutpoints, s.orphansByPreviousOutpoint.get o = none) :
    wp (addOrphan setup call pointer isHighPriority)
      (fun _ t => Coherent False setup t ∧ t.allTransactions = s.allTransactions)
      (fun _ _ => False) s := by
  have hc : ∀ {id orphan added}, (s.allOrphans.insert (idAt setup s pointer) added).get id =
      some orphan → id = idAt setup s pointer ∧ orphan = added ∨
        s.allOrphans.get id = some orphan := by
    intro id orphan added hg
    rw [get_insert] at hg
    split at hg
    · next heq =>
      cases hg
      exact .inl ⟨heq,rfl⟩
    · exact .inr hg
  refine ⟨⟨h.transactions,h.keyed,?_,?_,?_,fun hf => hf.elim⟩,rfl⟩
  · intro id orphan hg
    obtain ⟨rfl,rfl⟩ | hg := hc hg
    · refine ⟨hlt,rfl,hnd,fun o ho => ?_⟩
      rw [get_insertKeys,if_pos ho]
    · have hls := h.orphans id orphan hg
      refine ⟨hls.lt,hls.idAt,hls.nodup,fun o ho => ?_⟩
      have hin := hls.indexed o ho
      rw [get_insertKeys,if_neg,hin]
      intro hm
      rw [hfr o hm] at hin
      cases hin
  · intro o orphan hi
    have hi' : (insertKeys s.orphansByPreviousOutpoint
      (s.objects pointer).previousOutpoints _).get o = some orphan := hi
    rw [get_insertKeys] at hi'
    split at hi'
    · next hm =>
      cases hi'
      exact ⟨idAt setup s pointer,get_insert_self _ _ _,hm⟩
    · obtain ⟨id,hg,ho⟩ := h.index o orphan hi'
      refine ⟨id,?_,ho⟩
      rw [get_insert_of_ne,hg]
      rintro rfl
      rw [hn] at hg
      cases hg
  · intro id orphan hg
    obtain ⟨rfl,rfl⟩ | hg := hc hg
    · exact hid
    · exact h.indexable id orphan hg

lemma checkOrphanDoubleSpend_eq_ok (h : checkOrphanDoubleSpend setup s tx = .ok ()) :
    ∀ o ∈ tx.previousOutpoints, s.orphansByPreviousOutpoint.get o = none := by
  intro o ho
  obtain ⟨input,hi,rfl⟩ := mem_map.1 ho
  have hc := forM_eq_ok.1 h input hi
  split at hc
  · next hn => exact hn
  · cases hc

lemma checkOrphanDoubleSpend_errorsIn :
    ErrorsIn (fun e => e.isRuleError = true) (checkOrphanDoubleSpend setup s tx) := by
  refine .forM fun input _ => ?_
  cases s.orphansByPreviousOutpoint.get input.previousOutpoint with
  | none => exact .ok _
  | some _ => exact .error rfl

/-- An orphan is added, or the error says why not and nothing has happened. -/
lemma maybeAddOrphan_wp (h : Coherent strict setup s) (hlt : pointer < s.nextPointer)
    (hi : Indexable (s.objects pointer).toDomainTransaction)
    (hnd : (s.objects pointer).previousOutpoints.Nodup) :
    wp (maybeAddOrphan setup call pointer isHighPriority)
      (fun _ t => Coherent False setup t ∧ t.allTransactions = s.allTransactions)
      (fun e t => e.isRuleError = true ∧ t = s) s := by
  refine wp_ite (fun _ => ⟨{ h with accepted := fun hf => hf.elim },rfl⟩) fun _ => ?_
  rw [wp_bind,wp_get,wp_bind]
  refine wp_ofExcept (fun _ hdp => ?_) fun e he =>
    ⟨ErrorsIn.ite (fun _ => errorsIn_rule) (fun _ => .ok _) e he,rfl⟩
  have hnw : s.allOrphans.get (idAt setup s pointer) = none := by
    obtain ⟨hn,hdp⟩ := of_ite_error hdp
    exact Option.not_isSome_iff_eq_none.1 hn
  rw [wp_bind]
  refine wp_ofExcept (fun _ _ => ?_) fun e he =>
    ⟨ErrorsIn.ite (fun _ => errorsIn_rule) (fun _ => .ok _) e he,rfl⟩
  rw [wp_bind]
  refine wp_ofExcept (fun _ hd => ?_) fun e he =>
    ⟨checkOrphanDoubleSpend_errorsIn e he,rfl⟩
  rw [wp_bind]
  refine (addOrphan_wp h hlt hi hnd hnw
    (checkOrphanDoubleSpend_eq_ok hd)).mono (fun _ t ht => ?_) fun _ _ he => he.elim
  exact (limitOrphanPoolSizeLoop_wp _ t ht.1 (Nat.lt_succ_self _)).mono
    (fun _ _ hu => ⟨hu.1,hu.2.trans ht.2⟩) fun _ _ he => he.elim

end Mempool
end Eiyaro
