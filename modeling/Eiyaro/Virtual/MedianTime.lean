import Eiyaro.Virtual.Finality

/-!
# The cached past median time of virtual

`PastMedianTime` of `processes/pastmediantimemanager` keeps what it computed for virtual until a
block is inserted. `ResolveVirtual` moves virtual as well, but leaves the kept value. Both ask for
the past median time of the new virtual while they calculate its past UTXO set.
-/

namespace Eiyaro
open ChainState (Action finalityConfig)

/-- The chain with the value that is kept for virtual, which is 0 if there is none. -/
structure TimedState where
  chain : ChainState
  virtualPastMedianTimeCache : Int

inductive TimedAction
  | chain (action : Action)
  | pastMedianTime

namespace TimedState
variable (cfg : VirtualConfig) (verifyUTXO : DomainHash → Bool) (s : TimedState)

/-- The median of the window of the current virtual. -/
def medianTime : Except Failure Int :=
  Eiyaro.pastMedianTime cfg.header s.chain.toHeaderStores s.chain.virtualGHOSTDAGData

/-- `PastMedianTime` of virtual. The time of genesis, which stands for an empty window, is not
kept. -/
def pastMedianTime : Except Failure (Int × TimedState) :=
  if s.virtualPastMedianTimeCache ≠ 0 then
    .ok (s.virtualPastMedianTimeCache, s)
  else do
    let window ← blockWindow cfg.header.ghostdag s.chain.blocks
      (2*cfg.header.timestampDeviationTolerance - 1) s.chain.virtualGHOSTDAGData
    let pastMedianTime ← s.medianTime cfg
    return (pastMedianTime, if window.length = 0 then s
      else { s with virtualPastMedianTimeCache := pastMedianTime })

/-- Whether an action computes a new virtual. `ResolveVirtual` returns early if there is no pending
tip, or if it is virtual's selected parent already. -/
def updatesVirtual : Action → Bool
  | .insertBlock _ updateVirtual => updateVirtual
  | .resolveVirtual _ =>
    match s.chain.findNextPendingTip cfg with
    | .ok (some (pendingTip, pendingTipStatus)) =>
      !(pendingTipStatus = .statusUTXOValid ∧ s.chain.virtualSelectedParent = some pendingTip)
    | _ => false
  | _ => false

/-- The state after a query of virtual, as `applyMergeSetBlocks` makes one for a new virtual. -/
def query : Option TimedState := (s.pastMedianTime cfg).toOption.map Prod.snd

/-- The chain after an action, with the query for a new virtual. -/
def moveTo (action : Action) (chain : ChainState) : Option TimedState :=
  if s.updatesVirtual cfg action then query cfg { s with chain := chain }
  else some { s with chain := chain }

/-- A block that is inserted clears the kept value, after it moved the pruning point. -/
def step : TimedAction → Option TimedState
  | .chain action => do
    let chain ← s.chain.step cfg verifyUTXO action
    let moved ← s.moveTo cfg action chain
    match action with
    | .insertHeader _ _ | .insertBlock _ _ | .movePruningPoint _ =>
      return { moved with virtualPastMedianTimeCache := 0 }
    | .rejectBody _ | .resolveVirtual _ => return moved
  | .pastMedianTime => s.query cfg

def init (genesis : HeaderRecord) : TimedState := ⟨ChainState.init cfg genesis,0⟩

def timedBlock (hash parent : DomainHash) (time : Int) (updateVirtual : Bool) : List TimedAction :=
  [.chain (.insertHeader hash { headerOn [parent] with
    daaScore := boundedMergeActivation, timeInMilliseconds := time }),
    .chain (.insertBlock hash updateVirtual)]

/-- A block at time 10, and one at time 20 on it that waits to be resolved. -/
def timedActions : List TimedAction := timedBlock 1 0 10 true ++ timedBlock 2 1 20 false

/-- Virtual is moved by a resolution only while no value is kept. -/
def isOrderly : TimedAction → Bool
  | .chain (.resolveVirtual maxBlocksToResolve) => s.virtualPastMedianTimeCache = 0 ||
    !s.updatesVirtual cfg (.resolveVirtual maxBlocksToResolve)
  | _ => true

def Exact : Prop :=
  s.virtualPastMedianTimeCache ≠ 0 → s.medianTime cfg = .ok s.virtualPastMedianTimeCache

variable {cfg verifyUTXO s} {s' : TimedState} {action : TimedAction}

lemma Exact.query (h : s.Exact cfg) (hq : s.query cfg = some s') : s'.Exact cfg := by
  obtain ⟨⟨_,_⟩,ht,rfl⟩ := Option.map_eq_some_iff.1 hq
  have ht := toOption_eq_some.1 ht
  rw [TimedState.pastMedianTime] at ht
  split at ht
  · cases ht
    exact h
  · next hnn =>
    obtain ⟨_,-,_,htm,ht⟩ := bind₂_eq_ok ht
    cases ht
    split
    · exact fun hne => absurd hne hnn
    · exact fun _ => htm

/-- A resolution that finds virtual resolved leaves the chain as it is. -/
lemma resolveVirtual_of_resolved {maxBlocksToResolve : UInt64} {chain : ChainState}
    (hu : s.updatesVirtual cfg (.resolveVirtual maxBlocksToResolve) = false)
    (h : s.chain.resolveVirtual cfg verifyUTXO maxBlocksToResolve = .ok chain) :
    chain = s.chain := by
  have hn : ∀ found, s.chain.findProcessingPoint cfg maxBlocksToResolve = .ok found →
      found = none := by
    intro found hf
    obtain ⟨tip,hp,hf⟩ := bind_eq_ok hf
    rw [updatesVirtual,hp] at hu
    cases tip with
    | none =>
      cases hf
      rfl
    | some tip =>
      obtain ⟨previous,hd,hf⟩ := bind_eq_ok hf
      have hr : tip.2 = .statusUTXOValid ∧ s.chain.virtualSelectedParent = some tip.1 := by
        simpa using hu
      rw [hr.2] at hd
      cases hd
      rw [if_pos ⟨hr.1,rfl⟩] at hf
      cases hf
      rfl
  obtain ⟨found,hf,h⟩ := bind_eq_ok h
  obtain rfl := hn found hf
  cases h
  rfl

lemma Exact.step (h : s.Exact cfg) (ho : s.isOrderly cfg action)
    (hs : s.step cfg verifyUTXO action = some s') : s'.Exact cfg := by
  cases action with
  | pastMedianTime => exact h.query hs
  | chain action =>
    obtain ⟨chain,hch,hs⟩ := Option.bind_eq_some_iff.1 hs
    obtain ⟨moved,hm,hs⟩ := Option.bind_eq_some_iff.1 hs
    have hch := toOption_eq_some.1 hch
    cases action with
    | insertHeader _ _ | insertBlock _ _ | movePruningPoint _ =>
      cases hs
      exact fun hne => absurd rfl hne
    | rejectBody _ =>
      cases hs
      cases hm
      obtain ⟨_,-,hch⟩ := bind_eq_ok hch
      split at hch
      · cases hch
        exact h
      · cases hch
    | resolveVirtual _ =>
      cases hs
      rw [moveTo] at hm
      rw [isOrderly,Bool.or_eq_true,decide_eq_true_iff,Bool.not_eq_true'] at ho
      obtain hnn | hu := ho
      · -- the query is answered from the window of the new virtual
        have he : Exact cfg { s with chain := chain } := fun hne => absurd hnn hne
        split at hm
        · exact he.query hm
        · cases hm
          exact he
      · rw [hu] at hm
        cases hm
        rw [resolveVirtual_of_resolved hu hch]
        exact h

/-- Virtual is resolved, a block is inserted and virtual is resolved again. -/
def resolvedTwice : List TimedAction :=
  timedActions ++ [.chain (.resolveVirtual 0)] ++ timedBlock 3 2 30 false ++
    [.chain (.resolveVirtual 0)]

end TimedState
end Eiyaro
