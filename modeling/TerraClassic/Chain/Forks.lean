import TerraClassic.Market.Types
import TerraClassic.Oracle.Types

/-! # Forks

    `BeginBlockForks` runs the logic of the fork that is due at a height, of those that the
    application registers.  The fork that was to disable swaps sets the minimum spread of the
    market to one and closes three IBC channels; a later one opens the channels again.

    * `Settings`: what forks and governance write.
    * `runForkLogicSwapDisable_ok`: what the first fork leaves.
    * `beginBlockForks_spread`: no fork takes the spread back.
-/

namespace TerraClassic.Chain

/-- `ColumbusChainID`. -/
def columbusChainID : String := "columbus-5"

/-- The states of an IBC channel. -/
inductive ChannelState where
  | uninitialized
  | init
  | tryOpen
  | opened
  | closed
  deriving DecidableEq, Repr

/-- The market parameters, and the state of each channel of the transfer port. -/
structure Settings where
  marketParams : Market.Params
  channels : SortedMap String ChannelState
  deriving DecidableEq

/-- `SetParams` of the market.  A validator that refuses its parameter panics; together they ask
    what `Validate` asks. -/
def setMarketParams (params : Market.Params) : Option Market.Params :=
  params.validate.toOption.map (fun _ => params)

/-! ### The forks -/

/-- The channels to Osmosis, Crescent and Juno. -/
def forkChannelIDs : List String := ["channel-1", "channel-49", "channel-20"]

/-- One round of the loop over the channels.  A channel that is not found panics. -/
def setChannelState (state : ChannelState) (channels : SortedMap String ChannelState)
    (channelID : String) : Option (SortedMap String ChannelState) :=
  if (channels.get channelID).isSome then some (channels.set channelID state) else none

/-- `runForkLogicSwapDisable`. -/
def runForkLogicSwapDisable (chainID : String) (settings : Settings) : Option Settings :=
  if chainID = columbusChainID then do
    let marketParams ← setMarketParams
      { settings.marketParams with minStabilitySpread := Dec.one }
    let channels ← forkChannelIDs.foldlM (setChannelState .closed) settings.channels
    return ⟨marketParams, channels⟩
  else some settings

/-- `runForkLogicIbcEnable`. -/
def runForkLogicIbcEnable (chainID : String) (settings : Settings) : Option Settings :=
  if chainID = columbusChainID then do
    let channels ← forkChannelIDs.foldlM (setChannelState .opened) settings.channels
    return { settings with channels := channels }
  else some settings

/-- `upgrades.Fork`. -/
structure Fork where
  upgradeName : String
  upgradeHeight : ℕ
  beginForkLogic : String → Settings → Option Settings

/-- `DisableSwapFork`, at `SwapDisableHeight`. -/
def disableSwapFork : Fork := ⟨"v0.5.20", 7607790, runForkLogicSwapDisable⟩

/-- `IbcEnableFork`, at `IbcEnableHeight`. -/
def ibcEnableFork : Fork := ⟨"v0.5.23", 10542500, runForkLogicIbcEnable⟩

/-- `VersionMapEnableFork`.  It writes the module versions only, which nothing here reads. -/
def versionMapEnableFork : Fork := ⟨"v1.0.5", 11543150, fun _ settings => some settings⟩

/-- The forks of the repository. -/
def knownForks : List Fork := [disableSwapFork, ibcEnableFork, versionMapEnableFork]

/-- `BeginBlockForks`: the first fork at this height, if there is one. -/
def beginBlockForks (forks : List Fork) (chainID : String) (height : BlockHeight)
    (settings : Settings) : Option Settings :=
  match forks.find? (fun fork => height.val = fork.upgradeHeight) with
  | some fork => fork.beginForkLogic chainID settings
  | none => some settings

/-! ### What they leave -/

theorem setMarketParams_ok {params params' : Market.Params}
    (h : setMarketParams params = some params') : params' = params := by
  obtain ⟨_, _, rfl⟩ := Option.map_eq_some_iff.mp h
  rfl

/-- The loop sets the channels that it visits and leaves the others alone. -/
theorem setChannelStates_ok {state : ChannelState} {channelIDs : List String}
    {channels channels' : SortedMap String ChannelState}
    (h : channelIDs.foldlM (setChannelState state) channels = some channels') :
    (∀ id ∈ channelIDs, channels'.get id = some state) ∧
      ∀ id ∉ channelIDs, channels'.get id = channels.get id := by
  induction channelIDs generalizing channels with
  | nil =>
    cases h
    exact ⟨nofun, fun _ _ => rfl⟩
  | cons first rest ih =>
    rw [List.foldlM_cons] at h
    obtain ⟨channels₁, hfirst, hrest⟩ := Option.bind_eq_some_iff.mp h
    unfold setChannelState at hfirst
    split at hfirst
    · cases hfirst
      obtain ⟨hset, hkept⟩ := ih hrest
      constructor
      · intro id hid
        by_cases hagain : id ∈ rest
        · exact hset id hagain
        · obtain rfl := (List.mem_cons.mp hid).resolve_right hagain
          rw [hkept id hagain, SortedMap.get_set_self]
      · intro id hid
        obtain ⟨hne, hnot⟩ := not_or.mp (List.mem_cons.not.mp hid)
        rw [hkept id hnot, SortedMap.get_set_ne _ _ hne]
    · cases hfirst

/-- After the fork the spread is one and the channels are closed; nothing else has changed. -/
theorem runForkLogicSwapDisable_ok {settings settings' : Settings}
    (h : runForkLogicSwapDisable columbusChainID settings = some settings') :
    settings'.marketParams = { settings.marketParams with minStabilitySpread := Dec.one } ∧
      (∀ id ∈ forkChannelIDs, settings'.channels.get id = some .closed) ∧
      ∀ id ∉ forkChannelIDs, settings'.channels.get id = settings.channels.get id := by
  unfold runForkLogicSwapDisable at h
  rw [if_pos rfl] at h
  obtain ⟨marketParams, hparams, h⟩ := Option.bind_eq_some_iff.mp h
  obtain ⟨channels, hchannels, h⟩ := Option.bind_eq_some_iff.mp h
  cases h
  exact ⟨setMarketParams_ok hparams, setChannelStates_ok hchannels⟩

/-- At its height the fork is the one that runs: the heights differ. -/
theorem beginBlockForks_disableSwap {forks : List Fork} (hknown : forks ⊆ knownForks)
    (hmem : disableSwapFork ∈ forks) {height : BlockHeight}
    (hheight : height.val = disableSwapFork.upgradeHeight) (chainID : String)
    (settings : Settings) :
    beginBlockForks forks chainID height settings = runForkLogicSwapDisable chainID settings := by
  have hdue : (forks.find? (fun fork => height.val = fork.upgradeHeight)).isSome :=
    List.find?_isSome.mpr ⟨disableSwapFork, hmem, decide_eq_true hheight⟩
  obtain ⟨fork, hfind⟩ := Option.isSome_iff_exists.mp hdue
  have hfork : fork = disableSwapFork := by
    have hat : height.val = fork.upgradeHeight := by simpa using List.find?_some hfind
    have hcases := hknown (List.mem_of_find?_eq_some hfind)
    simp only [knownForks, List.mem_cons, List.not_mem_nil, or_false] at hcases
    rcases hcases with rfl | rfl | rfl
    · rfl
    · exact absurd (hheight.symm.trans hat) (by decide)
    · exact absurd (hheight.symm.trans hat) (by decide)
  unfold beginBlockForks
  rw [hfind, hfork]
  rfl

/-- No fork takes a minimum spread of one back. -/
theorem beginBlockForks_spread {forks : List Fork} (hknown : forks ⊆ knownForks)
    {chainID : String} {height : BlockHeight} {settings settings' : Settings}
    (h : beginBlockForks forks chainID height settings = some settings')
    (hspread : Dec.one ≤ settings.marketParams.minStabilitySpread) :
    Dec.one ≤ settings'.marketParams.minStabilitySpread := by
  unfold beginBlockForks at h
  split at h
  · next fork hfind =>
    have hcases := hknown (List.mem_of_find?_eq_some hfind)
    simp only [knownForks, List.mem_cons, List.not_mem_nil, or_false] at hcases
    rcases hcases with rfl | rfl | rfl
    · by_cases hchain : chainID = columbusChainID
      · subst hchain
        rw [(runForkLogicSwapDisable_ok h).1]
      · have hsame : some settings = some settings' := (if_neg hchain).symm.trans h
        cases hsame
        exact hspread
    · -- only channels are written
      have h : runForkLogicIbcEnable chainID settings = some settings' := h
      unfold runForkLogicIbcEnable at h
      split at h
      · obtain ⟨channels, _, h⟩ := Option.bind_eq_some_iff.mp h
        cases h
        exact hspread
      · cases h
        exact hspread
    · cases h
      exact hspread
  · cases h
    exact hspread

end TerraClassic.Chain
