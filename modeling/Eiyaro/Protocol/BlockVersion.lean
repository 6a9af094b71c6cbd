import Eiyaro.Model.Block
import Eiyaro.Model.Failure
import Eiyaro.Model.Params
import Eiyaro.Util.Run

/-!
# The process-wide block version

`constants.go` keeps one block version for the whole process. The relay flow
(`handle_relay_invs.go`) and the IBD flow (`ibd.go`) raise it from the DAA score
of a header they received, before the block is validated, the block builder
raises it from the DAA score of virtual, and the managers use it as an index
into the per-version parameters. The flows of several peers and the block
builder run at once, so a step of the node below is one access to the version.
-/

namespace Eiyaro
open Function Network

/-! ## Reading and raising the version -/

def getBlockVersion (blockVersion : UInt32) : UInt16 :=
  if blockVersion > 65535 then 65535 else blockVersion.toUInt16

/-- The store of `SetBlockVersion`. It compares with the value `current` that was
loaded before, while `blockVersion` is the value at the time of the store. -/
def setBlockVersion (v : UInt16) (current blockVersion : UInt32) : UInt32 :=
  if v.toUInt32 > current then v.toUInt32 else blockVersion

/-- The loop over `POWScores` of both flows and of `buildHeader`. -/
def versionFromDAAScore (powScores : List UInt64) (daaScore : UInt64) : UInt16 :=
  powScores.foldl (fun version powScore => if daaScore ≥ powScore then version+1 else version) 1

/-! ## Header validation in isolation -/

variable (p : Params)

def expectedBlockVersion (daaScore : UInt64) : UInt16 :=
  if daaScore = 0 then 1 else versionFromDAAScore p.powScores daaScore

def checkBlockVersion (header : BlockHeader) : Except Failure Unit :=
  let expectedVersion := expectedBlockVersion p header.daaScore
  if header.version ≠ expectedVersion then
    .error (.ruleError .errWrongBlockVersion
      ("The block version " ++ toString header.version ++ " should be " ++
        toString expectedVersion))
  else
    .ok ()

def checkBlockTimestampInIsolation (now : Int) (header : BlockHeader) : Except Failure Unit := do
  let targetTimePerBlock ← indexSlice p.targetTimePerBlock 0
  let maxCurrentTime := now+p.timestampDeviationTolerance*(targetTimePerBlock / 1000000)
  if header.timeInMilliseconds > maxCurrentTime then
    .error (.ruleError .errTimeTooMuchInTheFuture "block timestamp is in the future")
  else
    .ok ()

def checkParentsLimit (isGenesis : Bool) (header : BlockHeader) : Except Failure Unit :=
  if header.directParents.length = 0 ∧ !isGenesis then
    .error (.ruleError .errNoParents "block has no parents")
  else do
    let expectedVersion := expectedBlockVersion p header.daaScore
    let maxBlockParents ← indexSlice p.maxBlockParents (expectedVersion.toNat - 1)
    if header.directParents.length > maxBlockParents.toNat then
      .error (.ruleError .errTooManyParents ("block header has " ++
        toString header.directParents.length ++ " parents, but the maximum allowed amount is " ++
        toString p.maxBlockParents))
    else
      .ok ()

/-- `ValidateHeaderInIsolation`, for a header whose hash is or is not the hash of
genesis. -/
def validateHeaderInIsolation (isGenesis : Bool) (now : Int)
    (header : BlockHeader) : Except Failure Unit := do
  if !isGenesis then
    checkBlockVersion p header
  checkBlockTimestampInIsolation p now header
  checkParentsLimit p isGenesis header

/-! ## The flows -/

/-- What the relay flow finds when it handles a block: the configuration and the
answers of consensus. -/
structure RelayContext where
  genesisHash : DomainHash
  allowSubmitBlockWhenNotSynced : Bool
  devnet : Bool
  isOrphanRoot : Bool
  /-- The blue work of virtual's merge depth root, unless it is virtual genesis. -/
  mergeDepthRootBlueWork : Option Nat
  virtualInfoFound : Bool
  now : Int
  /-- The validation and insertion of a block whose header is valid in isolation. -/
  insertBlock : DomainBlock → Except Failure Unit

inductive RelayOutcome
  | wrongVersion
  | headerOnly
  | childOfGenesis
  | belowMergeDepthRoot
  | virtualInfoNotFound
  | failed (failure : Failure)
  | accepted

def isChildOfGenesis (genesisHash : DomainHash) (block : DomainBlock) : Bool :=
  block.header.directParents == [genesisHash]

/-- The relay flow once the block version was raised. -/
def relayOutcome (ctx : RelayContext) (blockVersion : UInt32)
    (block : DomainBlock) : RelayOutcome :=
  if block.header.version ≠ getBlockVersion blockVersion then
    .wrongVersion
  else if block.transactions.length = 0 then
    .headerOnly
  else if p.disallowDirectBlocksOnTopOfGenesis && !ctx.allowSubmitBlockWhenNotSynced &&
      !ctx.devnet && isChildOfGenesis ctx.genesisHash block then
    .childOfGenesis
  else if !ctx.isOrphanRoot && ctx.mergeDepthRootBlueWork.any (block.header.blueWork ≤ ·) then
    .belowMergeDepthRoot
  else if !ctx.virtualInfoFound then
    .virtualInfoNotFound
  else
    -- a received block is not the genesis block, which the node already has
    match validateHeaderInIsolation p false ctx.now block.header with
    | .error failure => .failed failure
    | .ok () =>
      match ctx.insertBlock block with
      | .error failure => .failed failure
      | .ok () => .accepted

/-- What makes a flow, or the block builder, raise the version. -/
inductive Message
  | relayBlock (block : DomainBlock) (ctx : RelayContext)
  | ibdRequest (block : DomainBlock)
  | ibdWithHeadersProof (highBlockDAAScore : UInt64)
  /-- The comparison of a relayed block with the selected tip before the proof is asked for. -/
  | compareWithSelectedTip (block : DomainBlock)
  | buildHeader (daaScore : UInt64)

def Message.daaScore : Message → UInt64
  | .relayBlock block _ => block.header.daaScore
  | .ibdRequest block => block.header.daaScore
  | .ibdWithHeadersProof highBlockDAAScore => highBlockDAAScore
  -- the source passes the version of the header where the score is expected
  | .compareWithSelectedTip block => block.header.version.toUInt64
  | .buildHeader daaScore => daaScore

/-- Where a flow stands: `SetBlockVersion` first loads the version and then
compares and stores. -/
inductive Phase
  | waiting
  | versionLoaded (message : Message) (current : UInt32)
  | versionSet (message : Message)

/-- The version and the flows of all peers. -/
structure Node where
  blockVersion : UInt32
  phase : Nat → Phase

variable {p : Params}

namespace Node

def init : Node := ⟨1,fun _ => .waiting⟩

inductive Action
  | receive (flow : Nat) (message : Message)
  | store (flow : Nat)
  | finish (flow : Nat)

def step (p : Params) (s : Node) : Action → Option Node
  | .receive flow message =>
    match s.phase flow with
    | .waiting =>
      some { s with phase := update s.phase flow (.versionLoaded message s.blockVersion) }
    | _ => none
  | .store flow =>
    match s.phase flow with
    | .versionLoaded message current =>
      some ⟨setBlockVersion (versionFromDAAScore p.powScores message.daaScore) current
        s.blockVersion,update s.phase flow (.versionSet message)⟩
    | _ => none
  | .finish flow =>
    match s.phase flow with
    | .versionSet _ => some { s with phase := update s.phase flow .waiting }
    | _ => none

lemma step_cases {s s' : Node} {a : Action} (h : step p s a = some s') :
    (∃ flow message, a = .receive flow message ∧ s.phase flow = .waiting ∧
      s' = ⟨s.blockVersion,update s.phase flow (.versionLoaded message s.blockVersion)⟩) ∨
    (∃ flow message current, a = .store flow ∧ s.phase flow = .versionLoaded message current ∧
      s' = ⟨setBlockVersion (versionFromDAAScore p.powScores message.daaScore) current
        s.blockVersion,update s.phase flow (.versionSet message)⟩) ∨
    (∃ flow message, a = .finish flow ∧ s.phase flow = .versionSet message ∧
      s' = ⟨s.blockVersion,update s.phase flow .waiting⟩) := by
  cases a with
  | receive flow message =>
    cases hph : s.phase flow <;> simp only [step,hph,Option.some.injEq,reduceCtorEq] at h
    exact .inl ⟨flow,message,rfl,hph,h.symm⟩
  | store flow =>
    cases hph : s.phase flow <;> simp only [step,hph,Option.some.injEq,reduceCtorEq] at h
    exact .inr (.inl ⟨flow,_,_,rfl,hph,h.symm⟩)
  | finish flow =>
    cases hph : s.phase flow <;> simp only [step,hph,Option.some.injEq,reduceCtorEq] at h
    exact .inr (.inr ⟨flow,_,rfl,hph,h.symm⟩)

/-- The version is at least 1 and at most the length of every per-version slice. -/
def VersionInRange (p : Params) (s : Node) : Prop :=
  1 ≤ s.blockVersion.toNat ∧ ∀ n ∈ p.perVersionLengths, s.blockVersion.toNat ≤ n

end Node

/-! ## Runs below the POW scores -/

/-- The message does not reach a POW score. -/
def Message.BelowScores (p : Params) (message : Message) : Prop :=
  ∀ powScore ∈ p.powScores, message.daaScore < powScore

variable {daaScore : UInt64} {flow : Nat} {s : Node}

lemma versionFromDAAScore_eq_one {powScores : List UInt64}
    (h : ∀ powScore ∈ powScores, daaScore < powScore) :
    versionFromDAAScore powScores daaScore = 1 := by
  unfold versionFromDAAScore
  induction powScores with
  | nil => rfl
  | cons powScore powScores ih =>
    rw [List.forall_mem_cons] at h
    rw [List.foldl_cons,if_neg (UInt64.not_le.2 h.1)]
    exact ih h.2

namespace Node

section
variable (p s)

def Action.BelowScores : Action → Prop
  | .receive _ message => message.BelowScores p
  | _ => True

/-- No flow that is between its load and its store will raise the version. -/
def Phase.Harmless : Phase → Prop
  | .waiting => True
  | .versionLoaded message current => message.BelowScores p ∧ current = 1
  | .versionSet message => message.BelowScores p

structure Inv : Prop where
  version_eq : s.blockVersion = 1
  harmless : ∀ flow, Phase.Harmless p (s.phase flow)

lemma inv_init : Inv p init :=
  ⟨rfl,fun _ => trivial⟩

end

lemma harmless_update {phase : Nat → Phase} {new : Phase}
    (h : ∀ flow, Phase.Harmless p (phase flow)) (hn : Phase.Harmless p new) :
    ∀ flow', Phase.Harmless p (update phase flow new flow') := by
  intro flow'
  by_cases hf : flow' = flow
  · subst hf
    rwa [update_self]
  · rw [update_of_ne hf]
    exact h flow'

lemma inv_step (s : Node) (a : Action) (s' : Node) (hi : Inv p s)
    (ha : a.BelowScores p) (h : step p s a = some s') : Inv p s' := by
  obtain ⟨hv,hfl⟩ := hi
  obtain ⟨flow,message,rfl,-,rfl⟩ | ⟨flow,message,_,rfl,hp,rfl⟩ |
    ⟨flow,message,rfl,-,rfl⟩ := step_cases h
  · exact ⟨hv,harmless_update hfl ⟨ha,hv⟩⟩
  · have hl := hfl flow
    rw [hp] at hl
    obtain ⟨hb,rfl⟩ := hl
    refine ⟨?_,harmless_update hfl hb⟩
    rw [versionFromDAAScore_eq_one hb]
    exact hv
  · exact ⟨hv,harmless_update hfl trivial⟩

lemma Inv.versionInRange (h : Inv p s)
    (hs : ∀ n ∈ p.perVersionLengths, 1 ≤ n) : VersionInRange p s := by
  rw [VersionInRange,h.version_eq]
  exact ⟨le_rfl,hs⟩

end Node

lemma getBlockVersion_toNat_le (blockVersion : UInt32) :
    (getBlockVersion blockVersion).toNat ≤ blockVersion.toNat := by
  unfold getBlockVersion
  split
  · next h => exact (UInt32.lt_iff_toNat_lt.1 h).le
  · exact Nat.mod_le _ _

lemma Node.VersionInRange.index_lt (h : s.VersionInRange p) {n : Nat}
    (hn : n ∈ p.perVersionLengths) : (getBlockVersion s.blockVersion).toNat - 1 < n := by
  have hle := h.2 n hn
  have ho := h.1
  have hg := getBlockVersion_toNat_le s.blockVersion
  omega

variable {header : BlockHeader}

/-- The checks before the count of the parents pass. -/
def CountsParents (p : Params) (isGenesis : Bool) (now : Int) (header : BlockHeader) : Prop :=
  (isGenesis = false → checkBlockVersion p header = .ok ()) ∧
    checkBlockTimestampInIsolation p now header = .ok () ∧
    (isGenesis = false → header.directParents ≠ [])

lemma checkBlockTimestampInIsolation_noPanic (h : 0 < p.targetTimePerBlock.length) (now : Int) :
    NoPanic (checkBlockTimestampInIsolation p now header) := by
  rw [checkBlockTimestampInIsolation,indexSlice_of_lt h]
  exact .bind (.ok _) fun targetTimePerBlock => .ite (fun _ => .ruleError _ _) fun _ => .ok _

lemma checkParentsLimit_noPanic_iff {isGenesis : Bool} :
    NoPanic (checkParentsLimit p isGenesis header) ↔
      ((isGenesis = false → header.directParents ≠ []) →
        (expectedBlockVersion p header.daaScore).toNat - 1 < p.maxBlockParents.length) := by
  unfold checkParentsLimit
  split
  · next hn =>
    refine iff_of_true (.ruleError _ _) fun h => ?_
    rw [List.length_eq_zero_iff,Bool.not_eq_true'] at hn
    exact absurd hn.1 (h hn.2)
  · next hn =>
    rw [noPanic_bind_iff,noPanic_indexSlice_iff]
    constructor
    · exact fun h _ => h.1
    · intro h
      refine ⟨h fun hg hp => hn ?_,fun _ _ => .ite (fun _ => .ruleError _ _) fun _ => .ok _⟩
      rw [hp,hg]
      exact ⟨rfl,rfl⟩

/-- The one access that the header decides about is the one to the limit of its version. -/
lemma validateHeaderInIsolation_noPanic_iff (ht : 0 < p.targetTimePerBlock.length)
    {isGenesis : Bool} {now : Int} :
    NoPanic (validateHeaderInIsolation p isGenesis now header) ↔
      (CountsParents p isGenesis now header →
        (expectedBlockVersion p header.daaScore).toNat - 1 < p.maxBlockParents.length) := by
  have hr : NoPanic (do
      checkBlockTimestampInIsolation p now header
      checkParentsLimit p isGenesis header) ↔
        (checkBlockTimestampInIsolation p now header = .ok () →
          (isGenesis = false → header.directParents ≠ []) →
          (expectedBlockVersion p header.daaScore).toNat - 1 < p.maxBlockParents.length) := by
    rw [noPanic_bind_iff,and_iff_right (checkBlockTimestampInIsolation_noPanic ht now)]
    exact ⟨fun h hok => checkParentsLimit_noPanic_iff.1 (h () hok),
      fun h _ hok => checkParentsLimit_noPanic_iff.2 (h hok)⟩
  unfold validateHeaderInIsolation CountsParents
  cases isGenesis with
  | true => simpa using hr
  | false =>
    rw [Bool.not_false,if_pos rfl,noPanic_bind_iff]
    have hv : NoPanic (checkBlockVersion p header) := .ite (fun _ => .ruleError _ _) fun _ => .ok _
    constructor
    · rintro ⟨-,h⟩ ⟨hok,htime,hparents⟩
      exact hr.1 (h () (hok rfl)) htime hparents
    · intro h
      exact ⟨hv,fun _ hok => hr.2 fun htime hparents => h ⟨fun _ => hok,htime,hparents⟩⟩

/-- Below the POW scores no check in isolation leaves a per-version slice. -/
lemma validateHeaderInIsolation_noPanic (hs : ∀ n ∈ p.perVersionLengths, 1 ≤ n)
    (hb : ∀ powScore ∈ p.powScores, header.daaScore < powScore) (isGenesis : Bool)
    (now : Int) : NoPanic (validateHeaderInIsolation p isGenesis now header) := by
  have ht : 0 < p.targetTimePerBlock.length := hs _ (by simp [Params.perVersionLengths])
  rw [validateHeaderInIsolation_noPanic_iff ht]
  intro _
  rw [expectedBlockVersion,versionFromDAAScore_eq_one hb,ite_self]
  exact hs _ (by simp [Params.perVersionLengths])

lemma Node.run_receive_store (message : Message) (h : s.phase flow = .waiting) :
    run (Node.step p) s [.receive flow message,.store flow] =
      some ⟨setBlockVersion (versionFromDAAScore p.powScores message.daaScore) s.blockVersion
        s.blockVersion,update s.phase flow (.versionSet message)⟩ := by
  simp [run,Node.step,h]

namespace Network

lemma belowScores_iff (network : Network) (message : Message) :
    message.BelowScores network.params ↔ message.daaScore < 18446744073709551615 := by
  simp [Message.BelowScores,params]

end Network

/-- While all received headers are below the POW scores, the version stays inside
the per-version slices and no step changes it, whether the block of the step is
then accepted or rejected. The next header that reaches the POW score takes the
version out of the slices. -/
theorem blockVersion_in_range (network : Network) (as : List Node.Action) (s : Node)
    (hrun : run (Node.step network.params) Node.init as = some s)
    (hbelow : ∀ a ∈ as, a.BelowScores network.params) :
    s.VersionInRange network.params ∧
    (∀ n ∈ network.params.perVersionLengths, (getBlockVersion s.blockVersion).toNat - 1 < n) ∧
    (∀ flow block ctx, s.phase flow = .versionSet (.relayBlock block ctx) →
      ∀ isGenesis now,
        NoPanic (validateHeaderInIsolation network.params isGenesis now block.header)) ∧
    (∀ a s', a.BelowScores network.params → Node.step network.params s a = some s' →
      s'.blockVersion = s.blockVersion) ∧
    (∀ flow message, s.phase flow = .waiting →
      ((∃ s', run (Node.step network.params) s [.receive flow message,.store flow] = some s' ∧
        s'.VersionInRange network.params) ↔ message.daaScore < 18446744073709551615)) := by
  have hi := run.invariant Node.inv_step (Node.inv_init network.params) hbelow hrun
  have hsl : ∀ n ∈ network.params.perVersionLengths, 1 ≤ n := by
    simp [Params.perVersionLengths,Network.params]
  have hr := hi.versionInRange hsl
  refine ⟨hr,fun n hn => hr.index_lt hn,?_,?_,?_⟩
  · intro flow block ctx hph
    have hf := hi.harmless flow
    rw [hph] at hf
    exact validateHeaderInIsolation_noPanic hsl hf
  · intro a s' ha h
    rw [(Node.inv_step s a s' hi ha h).version_eq,hi.version_eq]
  · intro flow message hph
    rw [Node.run_receive_store message hph,hi.version_eq]
    constructor
    · rintro ⟨s',h,hr'⟩
      by_contra hsc
      have ht : versionFromDAAScore network.params.powScores message.daaScore = 2 :=
        if_pos (UInt64.not_lt.1 hsc)
      rw [ht] at h
      cases h
      have ht : (setBlockVersion 2 1 1).toNat ≤ 1 :=
        hr'.2 1 (by simp [Params.perVersionLengths,params])
      exact absurd ht (by decide)
    · intro hsc
      rw [versionFromDAAScore_eq_one ((network.belowScores_iff message).2 hsc)]
      refine ⟨_,rfl,?_,hsl⟩
      show 1 ≤ (setBlockVersion 1 1 1).toNat
      decide

/-- A header with one parent, of the given version and DAA score. -/
def headerWithScore (version : UInt16) (daaScore : UInt64) : BlockHeader where
  version := version
  parents := [[1]]
  hashMerkleRoot := 0
  acceptedIDMerkleRoot := 0
  utxoCommitment := 0
  timeInMilliseconds := 0
  bits := 0
  nonce := 0
  daaScore := daaScore
  blueScore := 0
  blueWork := 1
  pruningPoint := 0

def blockWithScore (version : UInt16) (daaScore : UInt64) : DomainBlock where
  header := headerWithScore version daaScore
  transactions := [⟨0,[],[],0,subnetworkIDCoinbase,0,[]⟩]
  powHash := "0"

/-- A synced node that would insert every block. -/
def syncedContext : RelayContext where
  genesisHash := 0
  allowSubmitBlockWhenNotSynced := false
  devnet := false
  isOrphanRoot := false
  mergeDepthRootBlueWork := none
  virtualInfoFound := true
  now := 0
  insertBlock := fun _ => .ok ()

theorem blockVersion_in_range_after_block :
    ∃ s, run (Node.step mainnet.params) Node.init
        [.receive 0 (.relayBlock (blockWithScore 1 5) syncedContext),.store 0] = some s ∧
      s.VersionInRange mainnet.params := by
  have hb : ∀ a ∈ [Node.Action.receive 0 (.relayBlock (blockWithScore 1 5) syncedContext),
      .store 0], a.BelowScores mainnet.params := by
    intro a ha
    simp only [List.mem_cons,List.not_mem_nil,or_false] at ha
    obtain rfl | rfl := ha
    · exact (belowScores_iff _ _).2 (by decide)
    · trivial
  have hr := Node.run_receive_store (p := mainnet.params)
    (.relayBlock (blockWithScore 1 5) syncedContext) (rfl : Node.init.phase 0 = .waiting)
  exact ⟨_,hr,(blockVersion_in_range .mainnet _ _ hr hb).1⟩

/-- One relayed header with the highest DAA score is rejected for its version and
still raises the block version past every per-version slice. -/
theorem blockVersion_raised_by_rejected_block :
    ∃ s, run (Node.step mainnet.params) Node.init
        [.receive 0 (.relayBlock (blockWithScore 1 18446744073709551615) syncedContext),
          .store 0] = some s ∧
      s.blockVersion = 2 ∧ ¬s.VersionInRange mainnet.params ∧
      relayOutcome mainnet.params syncedContext s.blockVersion
        (blockWithScore 1 18446744073709551615) = .wrongVersion ∧
      relayOutcome mainnet.params syncedContext s.blockVersion
        (blockWithScore 2 18446744073709551615) = .failed (.panic "index out of range") := by
  refine ⟨_,Node.run_receive_store _ rfl,rfl,?_,rfl,rfl⟩
  intro h
  exact absurd (h.2 1 (by decide)) (by decide)

end Eiyaro
