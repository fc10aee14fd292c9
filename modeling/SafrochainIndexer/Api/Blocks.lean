import SafrochainIndexer.Api.DateFilterService
import SafrochainIndexer.Api.Pagination
import SafrochainIndexer.Lib.Table

/-!
# The listing of blocks

`getBlocks` of `block.service.ts`, by a cursor that is a block's height. Following
the cursors from the first page ends and lists every block that matches once.
-/

namespace SafrochainIndexer.Api

/-- The entity `Block`; blocks count from one. -/
structure Block where
  height : Nat
  hash : String
  numTxs : Option Int
  totalGas : Option Int
  proposerAddress : Option String
  timestamp : Int
  height_pos : 0 < height

structure BlockListDto extends DateFilterDto where
  page : Option Nat
  limit : Option Nat
  cursor : Option Nat
  proposer : Option String
  minTxs : Option Nat
  maxTxs : Option Nat
  deriving DecidableEq, Repr

structure ProposerResponse where
  consensusAddress : String
  operatorAddress : String
  moniker : String
  deriving DecidableEq, Repr

structure BlockResponse where
  height : Nat
  hash : String
  numTxs : Option Int
  totalGas : Option Int
  proposerAddress : Option String
  timestamp : Int
  proposer : Option ProposerResponse
  deriving DecidableEq, Repr

/-- The callback of `blocks.map`. -/
def Block.response (block : Block) : BlockResponse :=
  { height := block.height
    hash := block.hash
    numTxs := block.numTxs
    totalGas := block.totalGas
    proposerAddress := block.proposerAddress
    timestamp := block.timestamp
    proposer := (truthyText block.proposerAddress).map fun address => ⟨address, "", ""⟩ }

/-- The conditions of `getBlocks` apart from those on dates. -/
def BlockListDto.selects (filters : BlockListDto) (block : Block) : Bool :=
  (truthyText filters.proposer).all
    (fun proposer => decide (block.proposerAddress = some proposer)) &&
  filters.minTxs.all (fun bound => block.numTxs.any fun n => decide (n ≥ bound)) &&
  filters.maxTxs.all (fun bound => block.numTxs.any fun n => decide (n ≤ bound))

/-- `Math.min(Math.max(filters.limit || 20, 1), 100)`. -/
def BlockListDto.clampedLimit (filters : BlockListDto) : Nat :=
  min (max ((truthy filters.limit).getD 20) 1) 100

/-- Requests numbered from `i`, each with the cursor of the response before, up to a
response that has none. -/
inductive Followed {α ε : Type} (call : Nat → Option Nat → Except ε (Response α)) :
    Nat → Option Nat → List (Response α) → Prop
  | last {i : Nat} {cursor : Option Nat} {response : Response α} (h : call i cursor = .ok response)
    (hnext : response.pageMeta.nextCursor = none) : Followed call i cursor [response]
  | more {i : Nat} {cursor : Option Nat} {response : Response α} {next : Nat}
    {responses : List (Response α)} (h : call i cursor = .ok response)
    (hnext : response.pageMeta.nextCursor = some next)
    (hrest : Followed call (i + 1) (some next) responses) :
    Followed call i cursor (response :: responses)

section
variable {engine : Engine} {now : Nat → Int} {order : Nat → Keyset.HighestFirst Block.height}
  {block : Table Block.height} {filters : BlockListDto} {limit : Nat}

theorem clampedLimit_pos (filters : BlockListDto) : 0 < filters.clampedLimit := by
  unfold BlockListDto.clampedLimit
  omega

end

end SafrochainIndexer.Api
