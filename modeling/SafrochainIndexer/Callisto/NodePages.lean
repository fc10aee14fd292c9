import SafrochainIndexer.Callisto.ParamsSources
import SafrochainIndexer.Callisto.Staking
import SafrochainIndexer.Lib.Pages

/-!
# Paged queries

`GetSupply`, `GetSigningInfos` and `GetValidatorsWithStatus` ask a node for one
page after the other, each with the key that the reply before it names, until
a reply names none. They return the whole listing or an error, and a local
source may fail before the first page.
-/

namespace SafrochainIndexer.Callisto

/-- A reply that ends with a `query.PageResponse`. -/
structure NodePage (α : Type) where
  items : List α
  nextKey : List UInt8
  deriving DecidableEq, Repr

/-- `stop = len(res.Pagination.NextKey) == 0`. -/
def NodePage.next {α : Type} (res : NodePage α) : Option (List UInt8) :=
  if res.nextKey.length = 0 then none else some res.nextKey

/-- A node as one paged query sees it. `loadHeight` is that of a local node. -/
structure PagedNode (α : Type) where
  loadHeight : Int → Except String Unit
  query : Int → List UInt8 → Except String (NodePage α)

section
variable {α : Type} (node : PagedNode α)

/-- An error of the query, with what the source puts before it. -/
def PagedNode.request (context : String) (height : Int) (key : List UInt8) :
    Except String (NodePage α) :=
  (node.query height key).mapError (context ++ ·)

/-- What the sources share. `none` if the pages do not end within `rounds`
requests. -/
def PagedNode.get (kind : SourceKind) (context : String) (rounds : Nat) (height : Int) :
    Option (Except String (List α)) :=
  let pages := Pages.collect (node.request context height) NodePage.next NodePage.items rounds [] []
  match kind with
  | .remote => pages
  | .local =>
    match node.loadHeight height with
    | .error message => some (.error ("error while loading height: " ++ message))
    | .ok _ => pages

end

def Bank.getSupply (node : PagedNode Coin) (kind : SourceKind) :
    Nat → Int → Option (Except String (List Coin)) :=
  match kind with
  | .remote => node.get .remote "error while getting total supply: "
  | .local => node.get .local ""

/-- `slashingtypes.ValidatorSigningInfo`. -/
structure Slashing.ChainSigningInfo where
  address : String
  startHeight : Int
  indexOffset : Int
  jailedUntil : Int
  tombstoned : Bool
  missedBlocksCounter : Int
  deriving DecidableEq, Repr

def Slashing.getSigningInfos (node : PagedNode Slashing.ChainSigningInfo) (kind : SourceKind) :
    Nat → Int → Option (Except String (List Slashing.ChainSigningInfo)) :=
  node.get kind ""

/-- `node` answers the query for the validators of one status. -/
def Staking.getValidatorsWithStatus (node : String → PagedNode Staking.StakingValidator)
    (kind : SourceKind) (rounds : Nat) (height : Int) (status : String) :
    Option (Except String (List Staking.StakingValidator)) :=
  (node status).get kind "" rounds height

-- ---------------------------------------------------------------------------
-- Listings of the chain
-- ---------------------------------------------------------------------------

/-- What the chain lists at a height, in pages that lead from one to the next. -/
structure Listing (α : Type) where
  page : List UInt8 → NodePage α
  keys : List (List UInt8)
  linked : Pages.Linked page NodePage.next [] keys

section
variable {α : Type}

def Listing.all (listing : Listing α) : List α :=
  Pages.listed listing.page NodePage.items listing.keys

def Listing.single (items : List α) : Listing α where
  page _ := ⟨items, []⟩
  keys := [[]]
  linked := .last rfl

/-- The node fails or answers with a page of the chain. -/
def PagedNode.Serves (node : PagedNode α) (chain : Int → Listing α) : Prop :=
  ∀ height, Pages.Answers (node.query height) (chain height).page

/-- Every page of the height can be had. -/
def PagedNode.complete (node : PagedNode α) (chain : Int → Listing α) (kind : SourceKind)
    (height : Int) : Bool :=
  (match kind, node.loadHeight height with
    | .local, .error _ => false
    | _, _ => true) &&
  !(chain height).keys.any (Pages.fails (node.query height))

variable {node : PagedNode α} {chain : Int → Listing α} {kind : SourceKind} {context : String}
  {rounds : Nat} {height : Int}

theorem PagedNode.fails_request (key : List UInt8) :
    Pages.fails (node.request context height) key = Pages.fails (node.query height) key := by
  unfold Pages.fails PagedNode.request
  cases node.query height key <;> rfl

theorem PagedNode.Serves.request (context : String) (h : node.Serves chain) :
    Pages.Answers (node.request context height) (chain height).page := by
  intro key
  unfold PagedNode.request
  obtain hok | ⟨err, herr⟩ := h height key
  · exact .inl (by rw [hok]; rfl)
  · exact .inr ⟨context ++ err, by rw [herr]; rfl⟩

theorem PagedNode.get_eq (kind : SourceKind) (context : String) (h : node.Serves chain)
    (hr : (chain height).keys.length ≤ rounds) :
    if node.complete chain kind height then
      node.get kind context rounds height = some (.ok (chain height).all)
    else ∃ err, node.get kind context rounds height = some (.error err) := by
  have hfails : (chain height).keys.any (Pages.fails (node.request context height)) =
      (chain height).keys.any (Pages.fails (node.query height)) :=
    congrArg (List.any _) (funext fails_request)
  have hpages := Pages.collect_linked (chain height).linked (h.request context) hr
    NodePage.items []
  rw [hfails, List.nil_append] at hpages
  unfold PagedNode.complete PagedNode.get
  cases kind with
  | remote =>
    obtain ⟨hall, hcollect⟩ | ⟨hall, hcollect⟩ := hpages
    · simpa [hall, Listing.all] using hcollect
    · simpa [hall] using hcollect
  | «local» =>
    cases node.loadHeight height with
    | error message => simp
    | ok _ =>
      obtain ⟨hall, hcollect⟩ | ⟨hall, hcollect⟩ := hpages
      · simpa [hall, Listing.all] using hcollect
      · simpa [hall] using hcollect

end

end SafrochainIndexer.Callisto
