import SafrochainIndexer.Callisto.NodePages
import SafrochainIndexer.Lib.Snapshots

/-!
# Signing infos

The slashing module asks, at every block, for the signing infos of all
validators and upserts them in one statement, guarded by the height. A block
whose listing cannot be had to the end, or is too long for the statement, writes
nothing.

Blocks may be handled in any order, and more than once, as when one failed before:
`signing_infos_latest` says what the table shows then.
-/

namespace SafrochainIndexer.Callisto.Slashing

structure ValidatorSigningInfo where
  validatorAddress : String
  startHeight : Int
  indexOffset : Int
  jailedUntil : Int
  tombstoned : Bool
  missedBlocksCounter : Int
  height : Int
  deriving DecidableEq, Repr

def ValidatorSigningInfo.row (info : ValidatorSigningInfo) : ValidatorSigningInfoRow where
  validatorAddress := info.validatorAddress
  startHeight := info.startHeight
  indexOffset := info.indexOffset
  jailedUntil := info.jailedUntil
  tombstoned := info.tombstoned
  missedBlocksCounter := info.missedBlocksCounter
  height := info.height

/-- The clause sets `validator_address` too, to what it is. -/
def signingInfoConflict : Conflict ValidatorSigningInfoRow.validatorAddress where
  set stored excluded :=
    { stored with
      startHeight := excluded.startHeight
      indexOffset := excluded.indexOffset
      jailedUntil := excluded.jailedUntil
      tombstoned := excluded.tombstoned
      missedBlocksCounter := excluded.missedBlocksCounter
      height := excluded.height }
  guard stored excluded := stored.height ≤ excluded.height
  key_set _ _ := rfl

def saveValidatorsSigningInfos (infos : List ValidatorSigningInfo) : Eff Db Unit :=
  if infos.length = 0 then pure ()
  else
    Eff.wrap "error while storing validators signing infos: "
      (sending (infos.length * 7)
        (validatorSigningInfoTable.insert signingInfoConflict (infos.map ValidatorSigningInfo.row)))

structure Module where
  node : PagedNode ChainSigningInfo
  kind : SourceKind

def newValidatorSigningInfo (height : Int) (info : ChainSigningInfo) : ValidatorSigningInfo where
  validatorAddress := info.address
  startHeight := info.startHeight
  indexOffset := info.indexOffset
  jailedUntil := info.jailedUntil
  tombstoned := info.tombstoned
  missedBlocksCounter := info.missedBlocksCounter
  height := height

section
variable (m : Module) (rounds : Nat)

/-- `none` if the pages do not end within `rounds` requests. -/
def Module.updateSigningInfo (height : Int) : Eff Db (Option Unit) :=
  match getSigningInfos m.node m.kind rounds height with
  | none => pure none
  | some (.error message) => Eff.fail message
  | some (.ok signingInfos) => do
    saveValidatorsSigningInfos (signingInfos.map (newValidatorSigningInfo height))
    pure (some ())

def Module.handleBlock (height : Int) : Eff Db (Option Unit) :=
  Eff.wrap "error while updating signing info: " (m.updateSigningInfo rounds height)

end

/-- A block that is handled, with the node as it answers then. -/
structure SigningBlock where
  m : Module
  height : Int

/-- Blocks handled one after the other; an error is logged. -/
def runBlocks (rounds : Nat) (s : Db) (blocks : List SigningBlock) : Db :=
  blocks.foldl (fun s block => (Eff.exec (block.m.handleBlock rounds block.height) s).2) s

-- ---------------------------------------------------------------------------
-- Laws
-- ---------------------------------------------------------------------------

theorem signingInfoConflict_guards : signingInfoConflict.Guards ValidatorSigningInfoRow.height where
  set_eq stored excluded hk := by
    cases stored; cases excluded
    simpa [signingInfoConflict] using hk
  guard_iff _ _ := decide_eq_true_iff

def listedInfos (chain : Int → Listing ChainSigningInfo) (height : Int) :
    List ValidatorSigningInfoRow :=
  (chain height).all.map fun info => (newValidatorSigningInfo height info).row

def putInfos (s : Db) (rows : List ValidatorSigningInfoRow) : Db :=
  { s with
    validatorSigningInfo := rows.foldl (Table.upsert signingInfoConflict) s.validatorSigningInfo }

theorem saveValidatorsSigningInfos_state {infos : List ValidatorSigningInfo} (s : Db)
    (hn : (infos.map ValidatorSigningInfo.validatorAddress).Nodup) :
    (Eff.exec (saveValidatorsSigningInfos infos) s).2 =
      putInfos s (if infos.length * 7 ≤ maxParameters then infos.map ValidatorSigningInfo.row
        else []) := by
  unfold saveValidatorsSigningInfos
  split
  · rename_i hnil
    obtain rfl := List.length_eq_zero_iff.mp hnil
    rfl
  · split
    · rename_i hfits
      have hkeys : ((infos.map ValidatorSigningInfo.row).map
          ValidatorSigningInfoRow.validatorAddress).Nodup := by
        rw [List.map_map]
        exact hn
      rw [sending_of_le hfits]
      exact (Eff.returns_wrap.mpr (signingInfoConflict_guards.insert_ok hkeys fun _ _ => rfl)).state
    · rename_i hlong
      exact (Eff.fails_wrap.mpr (sending_fails (Nat.not_le.mp hlong))).state

/-- The listing of the block is had to the end and has room in one statement. -/
def SigningBlock.stored (chain : Int → Listing ChainSigningInfo) (block : SigningBlock) : Bool :=
  block.m.node.complete chain block.m.kind block.height &&
    decide ((chain block.height).all.length * 7 ≤ maxParameters)

def storedHeights (chain : Int → Listing ChainSigningInfo) (blocks : List SigningBlock) : List Int :=
  (blocks.filter (SigningBlock.stored chain)).map SigningBlock.height

section
variable {chain : Int → Listing ChainSigningInfo} {rounds : Nat}
  (hdistinct : ∀ height, ((chain height).all.map ChainSigningInfo.address).Nodup)
include hdistinct

theorem handleBlock_state {block : SigningBlock} (hserves : block.m.node.Serves chain)
    (hr : (chain block.height).keys.length ≤ rounds) (s : Db) :
    (Eff.exec (block.m.handleBlock rounds block.height) s).2 =
      putInfos s (if block.stored chain then listedInfos chain block.height else []) := by
  have hget := PagedNode.get_eq block.m.kind "" hserves hr
  unfold Module.handleBlock Module.updateSigningInfo getSigningInfos SigningBlock.stored
  rw [Eff.exec_wrap]
  split at hget
  · rename_i hcomplete
    have hn : (((chain block.height).all.map (newValidatorSigningInfo block.height)).map
        ValidatorSigningInfo.validatorAddress).Nodup := by
      rw [List.map_map]
      exact hdistinct block.height
    have hsaved := saveValidatorsSigningInfos_state s hn
    rw [List.length_map, List.map_map] at hsaved
    rw [hget, hcomplete, Bool.true_and]
    have hbind := Eff.exec_bind_of_fixes (f := id) (s := s) (saveValidatorsSigningInfos
      ((chain block.height).all.map (newValidatorSigningInfo block.height)))
      (k := fun _ => pure (some ())) fun _ => .pure
    simp only [decide_eq_true_eq]
    exact hbind.trans hsaved
  · rename_i hincomplete
    obtain ⟨message, hget⟩ := hget
    rw [hget, Bool.eq_false_of_not_eq_true hincomplete]
    rfl

theorem runBlocks_state {blocks : List SigningBlock}
    (hserves : ∀ block ∈ blocks, block.m.node.Serves chain)
    (hr : ∀ block ∈ blocks, (chain block.height).keys.length ≤ rounds) (s : Db) :
    runBlocks rounds s blocks =
      putInfos s ((storedHeights chain blocks).flatMap (listedInfos chain)) := by
  unfold storedHeights
  induction blocks generalizing s with
  | nil => rfl
  | cons block blocks ih =>
    obtain ⟨hblock, hblocks⟩ := List.forall_mem_cons.mp hr
    obtain ⟨hanswers, hserves⟩ := List.forall_mem_cons.mp hserves
    rw [runBlocks, List.foldl_cons, ← runBlocks, handleBlock_state hdistinct hanswers hblock,
      ih hserves hblocks, List.filter_cons]
    split
    · rw [List.map_cons, List.flatMap_cons, putInfos, putInfos, putInfos, List.foldl_append]
    · rfl

end

/-- Every row is what the chain listed at its height. -/
def AsListed (chain : Int → Listing ChainSigningInfo) (s : Db) : Prop :=
  ∀ row ∈ s.validatorSigningInfo.rows, row ∈ listedInfos chain row.height

theorem height_of_listed {chain : Int → Listing ChainSigningInfo} {height : Int}
    {row : ValidatorSigningInfoRow} (h : row ∈ listedInfos chain height) : row.height = height := by
  obtain ⟨info, -, rfl⟩ := List.mem_map.mp h
  rfl

theorem listed_unique {chain : Int → Listing ChainSigningInfo}
    (hdistinct : ∀ height, ((chain height).all.map ChainSigningInfo.address).Nodup)
    {row row' : ValidatorSigningInfoRow} (h : row ∈ listedInfos chain row.height)
    (h' : row' ∈ listedInfos chain row'.height)
    (haddress : row.validatorAddress = row'.validatorAddress) (hheight : row.height = row'.height) :
    row = row' := by
  rw [← hheight] at h'
  obtain ⟨info, hinfo, hrow⟩ := List.mem_map.mp h
  obtain ⟨info', hinfo', hrow'⟩ := List.mem_map.mp h'
  have hinfos : info.address = info'.address :=
    (congrArg ValidatorSigningInfoRow.validatorAddress hrow).trans
      (haddress.trans (congrArg ValidatorSigningInfoRow.validatorAddress hrow').symm)
  rw [← hrow, ← hrow', List.inj_on_of_nodup_map (hdistinct row.height) hinfo hinfo' hinfos]

/-- What a table that shows nothing else has been told of a validator. -/
def toldOf (chain : Int → Listing ChainSigningInfo) (s : Db) (completed : List Int)
    (address : String) : List ValidatorSigningInfoRow :=
  historyOf s.validatorSigningInfo (completed.flatMap (listedInfos chain)) address

theorem asListed_of_told {chain : Int → Listing ChainSigningInfo} {s : Db} (h : AsListed chain s)
    {completed : List Int} {address : String} {row : ValidatorSigningInfoRow}
    (hrow : row ∈ toldOf chain s completed address) :
    row ∈ listedInfos chain row.height ∧ row.validatorAddress = address := by
  rcases List.mem_append.mp hrow with hrow | hrow
  · have hfind := Option.mem_toList.mp hrow
    exact ⟨h row (Table.mem_of_find hfind), Table.find_key hfind⟩
  · obtain ⟨hrow, haddress⟩ := List.mem_filter.mp hrow
    obtain ⟨height, -, hlisted⟩ := List.mem_flatMap.mp hrow
    exact ⟨(height_of_listed hlisted).symm ▸ hlisted, of_decide_eq_true haddress⟩

/-- Blocks at any heights, in any order and any number of times, of which any may
fail, and succeed later: nothing but the signing infos changes. What they show of a
validator is what the chain listed at the greatest height of those that a block has
stored, so neither the order nor the repetitions matter. -/
theorem signing_infos_latest {chain : Int → Listing ChainSigningInfo} {rounds : Nat}
    (hdistinct : ∀ height, ((chain height).all.map ChainSigningInfo.address).Nodup)
    {s : Db} (hlisted : AsListed chain s) (blocks : List SigningBlock)
    (hserves : ∀ block ∈ blocks, block.m.node.Serves chain)
    (hrounds : ∀ block ∈ blocks, (chain block.height).keys.length ≤ rounds) :
    ∃ infos, runBlocks rounds s blocks = { s with validatorSigningInfo := infos } ∧
      AsListed chain (runBlocks rounds s blocks) ∧
      ∀ address row, infos.find address = some row ↔
        row ∈ toldOf chain s (storedHeights chain blocks) address ∧
          ∀ other ∈ toldOf chain s (storedHeights chain blocks) address,
            other.height ≤ row.height := by
  have hrun := runBlocks_state hdistinct hserves hrounds s
  have hlatest := latest_upserts signingInfoConflict_guards s.validatorSigningInfo
    ((storedHeights chain blocks).flatMap (listedInfos chain))
  have hsnapshots : ∀ address, Register.Snapshots ValidatorSigningInfoRow.height
      (toldOf chain s (storedHeights chain blocks) address) := by
    intro address x hx y hy hheight
    obtain ⟨hx, hxa⟩ := asListed_of_told hlisted hx
    obtain ⟨hy, hya⟩ := asListed_of_told hlisted hy
    exact listed_unique hdistinct hx hy (hxa.trans hya.symm) hheight
  have hiff := fun address row => Latest.find_iff (r := row) hlatest (hsnapshots address)
  refine ⟨_, hrun, fun row hrow => ?_, hiff⟩
  rw [hrun] at hrow
  exact (asListed_of_told hlisted ((hiff _ row).mp (Table.find_of_mem hrow)).1).1

def missedAt (height : Int) : Listing ChainSigningInfo :=
  .single [⟨"safrovalcons1", 1, height, 0, false, height⟩]

def forgetful (lost : Int) : Module where
  node :=
    { loadHeight := fun _ => .ok ()
      query := fun height key =>
        if height = lost then .error "rpc error: code = Unknown"
        else .ok ((missedAt height).page key) }
  kind := .remote

theorem forgetful_serves (lost : Int) : (forgetful lost).node.Serves missedAt := by
  intro height key
  by_cases h : height = lost
  · exact .inr ⟨"rpc error: code = Unknown", if_pos h⟩
  · exact .inl (if_neg h)

def retried : List SigningBlock :=
  [⟨forgetful 2, 1⟩, ⟨forgetful 2, 3⟩, ⟨forgetful 2, 2⟩, ⟨forgetful 4, 2⟩, ⟨forgetful 4, 4⟩]

theorem signing_infos_latest_forgetful :
    ∃ infos, runBlocks 1 default retried =
        { (default : Db) with validatorSigningInfo := infos } ∧
      infos.find "safrovalcons1" = some ⟨"safrovalcons1", 1, 3, 0, false, 3, 3⟩ := by
  obtain ⟨infos, hrun, -, hfind⟩ := @signing_infos_latest missedAt 1
    (fun height => by simp [missedAt, Listing.single, Listing.all, Pages.listed]) default
    (fun _ h => absurd h List.not_mem_nil) retried (by simp [retried, forgetful_serves])
    fun _ _ => Nat.le_refl 1
  refine ⟨infos, hrun, (hfind _ _).mpr ⟨?_, ?_⟩⟩
  · decide
  · decide

end SafrochainIndexer.Callisto.Slashing
