import Eiyaro.Mempool.Operations

/-!
# Dust and the rate limiter

The dust rule is monotone in the amount as long as its product does not wrap. The rate limiter
cuts a prefix off the submissions of an address, which is the window where they are recorded in
the order of their timestamps.
-/

namespace Eiyaro.Mempool
open EStateM List
variable {setup : MempoolSetup} {call : Call} {s : Mempool} {address : String}

/-! ## Dust -/

/-- What the product of an amount has to reach, so that the output is no dust. -/
def dustThreshold (setup : MempoolSetup) (scriptPublicKey : ScriptPublicKey) : Nat :=
  setup.config.minimumRelayTransactionFee.toNat*(3*(scriptPublicKey.script.length+166))

lemma isTransactionOutputDust_eq_false_iff {scriptPublicKey : ScriptPublicKey}
    (hlen : scriptPublicKey.script.length < 2^32) (x : UInt64) :
    isTransactionOutputDust setup ⟨x,scriptPublicKey⟩ = false ↔
      setup.isUnspendable scriptPublicKey.script = false ∧
        dustThreshold setup scriptPublicKey ≤ x.toNat*1000 % 2^64 := by
  have hd : (3*(transactionOutputEstimatedSerializedSize ⟨x,scriptPublicKey⟩+148)).toNat =
      3*(scriptPublicKey.script.length+166) := by
    simp only [transactionOutputEstimatedSerializedSize,UInt64.toNat_mul,UInt64.toNat_add,
      UInt64.toNat_ofNat',UInt64.reduceToNat]
    omega
  have hx : (x*1000).toNat = x.toNat*1000 % 2^64 := rfl
  rw [isTransactionOutputDust,dustThreshold]
  split
  · next hs => simp [hs]
  · next hs =>
    rw [decide_eq_false_iff_not,UInt64.not_lt,UInt64.le_iff_toNat_le,UInt64.toNat_div,hd,hx,
      Nat.le_div_iff_mul_le (by omega)]
    simp [hs]

/-- An output with a larger amount is no dust either as long as the product of the largest
amount does not wrap. For a spendable script and a fee rate above zero it is only so then, unless
the rate makes dust of everything below the wrap. -/
theorem isTransactionOutputDust_mono (scriptPublicKey : ScriptPublicKey)
    (hlen : scriptPublicKey.script.length < 2^32) (largest : UInt64) :
    let mono := ∀ a b : UInt64, a ≤ b → b ≤ largest →
      isTransactionOutputDust setup ⟨a,scriptPublicKey⟩ = false →
      isTransactionOutputDust setup ⟨b,scriptPublicKey⟩ = false
    let condition := setup.isUnspendable scriptPublicKey.script = true ∨
      setup.config.minimumRelayTransactionFee = 0 ∨
      2^64 ≤ dustThreshold setup scriptPublicKey ∨ largest.toNat*1000 < 2^64
    (condition → mono) ∧ (dustThreshold setup scriptPublicKey ≤ 18446744073709551000 ∨
      2^64 ≤ dustThreshold setup scriptPublicKey → mono → condition) := by
  refine ⟨fun hc a b hab hb ha => ?_,fun hr hm => ?_⟩
  · rw [isTransactionOutputDust_eq_false_iff hlen] at ha ⊢
    obtain ⟨hs,ha⟩ := ha
    refine ⟨hs,?_⟩
    rw [UInt64.le_iff_toNat_le] at hab hb
    obtain hu | hz | ht | hl := hc
    · rw [hs] at hu
      cases hu
    · simp [dustThreshold,hz]
    · exact absurd (ht.trans ha) (not_le.2 (Nat.mod_lt _ (by decide)))
    · rw [Nat.mod_eq_of_lt (lt_of_le_of_lt (Nat.mul_le_mul_right 1000 hb) hl)]
      exact ha.trans ((Nat.mod_le _ _).trans (Nat.mul_le_mul_right 1000 hab))
  · by_contra hc
    simp only [not_or,not_le,not_lt,Bool.not_eq_true] at hc
    obtain ⟨hs,hz,ht,hl⟩ := hc
    -- the last amount with an exact product, and the next one
    have hw := hm 18446744073709551 18446744073709552 (by decide)
      (UInt64.le_iff_toNat_le.2 (by simp; omega))
    rw [isTransactionOutputDust_eq_false_iff hlen,isTransactionOutputDust_eq_false_iff hlen] at hw
    have hp : 0 < setup.config.minimumRelayTransactionFee.toNat :=
      UInt64.lt_iff_toNat_lt.1 (UInt64.pos_iff_ne_zero.2 hz)
    have hd : 498 ≤ dustThreshold setup scriptPublicKey :=
      (by omega : 498 ≤ 1*(3*(scriptPublicKey.script.length+166))).trans (Nat.mul_le_mul_right _ hp)
    have := (hw ⟨hs,by simp; omega⟩).2
    simp at this
    omega

theorem isTransactionOutputDust_mono_sample :
    (isTransactionOutputDust sampleSetup ⟨600000,⟨[],0⟩⟩ = false →
      isTransactionOutputDust sampleSetup ⟨1000000,⟨[],0⟩⟩ = false) ∧
    ¬∀ a b : UInt64, a ≤ b → b ≤ maxSey →
      isTransactionOutputDust sampleSetup ⟨a,⟨[],0⟩⟩ = false →
      isTransactionOutputDust sampleSetup ⟨b,⟨[],0⟩⟩ = false := by
  refine ⟨(isTransactionOutputDust_mono ⟨[],0⟩ (by decide) 1000000).1 (by decide) 600000 1000000
    (by decide) (by decide),fun hm => ?_⟩
  exact absurd ((isTransactionOutputDust_mono ⟨[],0⟩ (by decide) maxSey).2 (by decide) hm)
    (by decide)

/-- Above a hundredth of all money the product wraps, and a larger amount is dust. -/
theorem isTransactionOutputDust_wraps :
    (18000000000000000 : UInt64) ≤ 18446744073709552 ∧ (18446744073709552 : UInt64) ≤ maxSey ∧
      isTransactionOutputDust sampleSetup ⟨18000000000000000,⟨[],0⟩⟩ = false ∧
      isTransactionOutputDust sampleSetup ⟨18446744073709552,⟨[],0⟩⟩ = true := by
  decide

/-! ## The rate limiter -/

/-- A call of `recordTransactionAt`. -/
structure Recording where
  call : Call
  tx : TransactionObject
  ts : Int

namespace Recording

section
variable (setup address)

def record (recording : Recording) : MempoolM Unit :=
  recordTransactionAt setup recording.call recording.tx recording.ts

def submission (recording : Recording) : CompoundTxSubmission :=
  ⟨recording.ts,hashString (setup.transactionID recording.tx.toDomainTransaction)⟩

/-- The recording is one of an address. -/
def IsOf (recording : Recording) : Prop :=
  isCompoundTransaction setup recording.tx = true ∧
    address ∈ extractSenderAddresses setup recording.tx

end

instance (setup : MempoolSetup) (address : String) : DecidablePred (IsOf setup address) :=
  fun _ => inferInstanceAs (Decidable (_ ∧ _))

end Recording

section
variable (setup call address)

/-- All submissions of an address that were recorded, whatever their age. -/
def submissionsOf (recordings : List Recording) : List CompoundTxSubmission :=
  (recordings.filter (Recording.IsOf setup address)).map (Recording.submission setup)

/-- The configured window in nanoseconds. -/
def windowDuration : Int :=
  setup.config.compoundTxRateLimitWindowMinutes.toNat*(60*10^9)

/-- The timestamp is inside the window that ends now. -/
def InWindow (submission : CompoundTxSubmission) : Prop :=
  call.now - windowDuration setup < submission.timestamp ∧ submission.timestamp ≤ call.now

end

instance (setup : MempoolSetup) (call : Call) : DecidablePred (InWindow setup call) :=
  fun _ => inferInstanceAs (Decidable (_ ∧ _))

lemma submissionsOf_append (recordings : List Recording) (recording : Recording) :
    submissionsOf setup address (recordings ++ [recording]) =
      submissionsOf setup address recordings ++
        if recording.IsOf setup address then [recording.submission setup] else [] := by
  unfold submissionsOf
  by_cases h : recording.IsOf setup address
  · simp [h]
  · simp [h]

/-- What is left of the submissions where the window is a number of nanoseconds in 64 bits. -/
def recentSubmissions (setup : MempoolSetup) (call : Call)
    (submissions : List CompoundTxSubmission) : List CompoundTxSubmission :=
  submissions.dropWhile fun submission =>
    decide (submission.timestamp ≤ call.now - windowDuration setup)

lemma cleanupOldSubmissions_eq (hw : windowDuration setup < 2^63)
    (submissions : List CompoundTxSubmission) :
    cleanupOldSubmissions setup call submissions =
      .ok (recentSubmissions setup call submissions) := by
  have hn : setup.config.compoundTxRateLimitWindowMinutes.toNat < 2^63 := by
    unfold windowDuration at hw
    omega
  have hb : (windowDuration setup).bmod (2^64) = windowDuration setup := by
    refine Int.bmod_eq_of_le ?_ ?_
    all_goals
      unfold windowDuration at hw ⊢
      omega
  have hb' : (-windowDuration setup).bmod (2^64) = -windowDuration setup := by
    refine Int.bmod_eq_of_le ?_ ?_
    all_goals
      unfold windowDuration at hw ⊢
      omega
  have hd : checkedDurationFromUint64Minutes setup.config.compoundTxRateLimitWindowMinutes =
      .ok (windowDuration setup) := by
    rw [checkedDurationFromUint64Minutes,if_pos hn]
    exact congrArg Except.ok hb
  rw [cleanupOldSubmissions,hd]
  dsimp only
  rw [hb',← sub_eq_add_neg]
  rfl

/-- In the order of the timestamps the cut prefix is what is older than the window. -/
lemma recentSubmissions_eq_filter {submissions : List CompoundTxSubmission}
    (h : submissions.Pairwise (·.timestamp ≤ ·.timestamp)) :
    recentSubmissions setup call submissions = submissions.filter fun submission =>
      call.now - windowDuration setup < submission.timestamp := by
  unfold recentSubmissions
  induction submissions with
  | nil => rfl
  | cons first submissions ih =>
    rw [pairwise_cons] at h
    by_cases hfr : first.timestamp ≤ call.now - windowDuration setup
    · rw [dropWhile_cons_of_pos (by simpa using hfr),ih h.2,filter_cons_of_neg]
      simpa using hfr
    · rw [dropWhile_cons_of_neg (by simpa using hfr),eq_comm,filter_eq_self]
      intro submission hm
      obtain rfl | hm := mem_cons.1 hm
      · simpa using hfr
      · simpa using lt_of_lt_of_le (not_le.1 hfr) (h.1 submission hm)

/-- The submissions that the tracker of an address has left. -/
def recentOf (setup : MempoolSetup) (call : Call) (s : Mempool) (address : String) :
    List CompoundTxSubmission :=
  recentSubmissions setup call ((s.addressTracker.get address).getD [])

/-- The tracker of the address is cleaned up, and the others are left alone. -/
lemma currentSubmissions_wp (hw : windowDuration setup < 2^63) (address : String) (s : Mempool) :
    wp (currentSubmissions setup call address)
      (fun submissions t => submissions = recentOf setup call s address ∧
        t = { s with addressTracker := s.addressTracker.insert address submissions })
      (fun _ _ => False) s := by
  rw [currentSubmissions,wp_bind,wp_get,wp_bind,wp_set,cleanupOldSubmissions_eq hw]
  exact ⟨rfl,rfl⟩

/-- The submissions that a recording leaves to one of its addresses. -/
def Recording.added (setup : MempoolSetup) (s : Mempool) (address : String)
    (recording : Recording) : List CompoundTxSubmission :=
  let submissions := recentOf setup recording.call s address
  if submissions.any (·.txID = (recording.submission setup).txID) then submissions
  else submissions ++ [recording.submission setup]

section
variable (hw : windowDuration setup < 2^63)
include hw

lemma record_wp (recording : Recording) (s : Mempool) (address : String) :
    wp (recording.record setup) (fun _ t => t.addressTracker.get address =
      if recording.IsOf setup address then some (recording.added setup s address)
      else s.addressTracker.get address) (fun _ _ => False) s := by
  unfold Recording.record recordTransactionAt Recording.IsOf
  refine wp_ite (fun hcm => ?_) fun hcm => ?_
  · simp only [hcm,true_and]
    -- an address that is still to come has the submissions that it had at first
    refine (wp_forM (I := fun later t => later.Nodup ∧
      later ⊆ extractSenderAddresses setup recording.tx ∧ t.addressTracker.get address =
        if address ∈ extractSenderAddresses setup recording.tx ∧ address ∉ later then
          some (recording.added setup s address)
        else s.addressTracker.get address) ?_ _ s
      ⟨nodup_dedup _,Subset.refl _,(if_neg fun h => h.2 h.1).symm⟩).imp (fun _ t ht => ?_)
    · rintro a later t ⟨hnd,hs,hg⟩
      rw [nodup_cons] at hnd
      rw [cons_subset] at hs
      rw [wp_bind]
      refine (currentSubmissions_wp hw a t).imp (fun _ u hu => ?_)
      obtain ⟨rfl,rfl⟩ := hu
      refine (wp_modify _).2 ⟨hnd.2,hs.2,?_⟩
      by_cases ha : address = a
      · subst ha
        rw [if_neg fun h => h.2 mem_cons_self] at hg
        refine Eq.trans ?_ (if_pos ⟨hs.1,hnd.1⟩).symm
        rw [FinMap.get_insert_self]
        unfold Recording.added recentOf
        rw [hg]
        rfl
      · rw [FinMap.get_insert_of_ne _ _ ha,FinMap.get_insert_of_ne _ _ ha,hg]
        simp [ha]
    · simpa using ht.2.2
  · simp [hcm,wp_pure]

/-- The submissions of an address are recorded in the order of their timestamps, each once and
not before its time, by a clock that does not go back. -/
structure Orderly (setup : MempoolSetup) (address : String) (recordings : List Recording) :
    Prop where
  clock : recordings.Pairwise (·.call.now ≤ ·.call.now)
  past : ∀ recording ∈ recordings, recording.ts ≤ recording.call.now
  sorted : (submissionsOf setup address recordings).Pairwise (·.timestamp ≤ ·.timestamp)
  distinct : (submissionsOf setup address recordings).Pairwise (·.txID ≠ ·.txID)

/-- After such recordings any later clean-up leaves what is not older than the window. -/
lemma recordings_wp (hs : s.addressTracker.get address = none) (recordings : List Recording)
    (h : Orderly setup address recordings) :
    wp (recordings.forM (Recording.record setup)) (fun _ t => ∀ call : Call,
      (∀ recording ∈ recordings, recording.call.now ≤ call.now) →
      recentOf setup call t address =
        (submissionsOf setup address recordings).filter fun submission =>
          call.now - windowDuration setup < submission.timestamp) (fun _ _ => False) s := by
  induction recordings using reverseRecOn with
  | nil =>
    intro call _
    unfold recentOf
    rw [hs]
    rfl
  | append_singleton recordings recording ih =>
    obtain ⟨hcl,hp,hsr,hds⟩ := h
    rw [submissionsOf_append] at hsr hds ⊢
    rw [pairwise_append] at hcl hds
    have hb : Orderly setup address recordings :=
      ⟨hcl.1,fun r hr => hp r (mem_append_left _ hr),(pairwise_append.1 hsr).1,hds.1⟩
    rw [show (recordings ++ [recording]).forM (Recording.record setup) =
      recordings.forM (Recording.record setup) >>= fun _ => recording.record setup >>= pure
      from forM_append ..]
    rw [bind_pure,wp_bind]
    refine (ih hb).imp (fun _ t ht => ?_)
    refine (record_wp hw recording t address).imp (fun _ _ hu call hc => ?_)
    rw [forall_mem_append,forall_mem_singleton] at hc
    by_cases hof : recording.IsOf setup address
    · -- the recording cleans up as well, and an earlier window has everything of this one
      have hcr := ht recording.call fun r hr => hcl.2.2 r hr _ mem_cons_self
      rw [if_pos hof] at hu hsr hds ⊢
      have hn : recording.added setup t address = (submissionsOf setup address recordings).filter
          (fun submission => recording.call.now - windowDuration setup < submission.timestamp) ++
            [recording.submission setup] := by
        unfold Recording.added
        rw [hcr,if_neg]
        simp only [any_eq_true,mem_filter,decide_eq_true_eq]
        rintro ⟨submission,⟨hm,-⟩,heq⟩
        exact hds.2.2 submission hm _ mem_cons_self heq
      unfold recentOf
      rw [hu,Option.getD_some,hn,recentSubmissions_eq_filter]
      · rw [filter_append,filter_append,filter_filter]
        congr 1
        apply filter_congr
        intro submission _
        rw [Bool.eq_iff_iff]
        simp only [Bool.and_eq_true,decide_eq_true_eq]
        omega
      · exact hsr.sublist (filter_sublist.append_right _)
    · rw [if_neg hof] at hu ⊢
      rw [append_nil,← ht call hc.1]
      unfold recentOf
      rw [hu]

end

/-- A setup with two compound transactions a minute. -/
def limitedSetup : MempoolSetup :=
  { sampleSetup with config := { sampleConfig with maxCompoundTxPerAddressPerMinute := 2 } }

/-- A transaction of more than half of the standard mass, recorded at some second. -/
def sampleRecording (id : UInt64) (now second : Int) : Recording where
  call := { sampleCall with now := now*10^9 }
  tx := { sampleTransaction id [] [] with
    inputs := [⟨⟨100,0⟩,[],0,0,some ⟨1000000,⟨[],0⟩,false,5⟩⟩]
    mass := 60000 }
  ts := second*10^9

end Eiyaro.Mempool
