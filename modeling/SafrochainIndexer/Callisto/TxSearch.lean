import Mathlib.Data.List.Range

/-!
# Transactions that a query finds

`QueryTxs` asks a node for one page of a search after the other and stops as soon
as it holds as many transactions as the node counts. `queryTxs_collects`: on a
search with a fixed result it asks for the pages that there are, and returns all
of it.
-/

namespace SafrochainIndexer.Callisto.TxSearch

variable {Tx : Type}

/-- `coretypes.ResultTxSearch`. -/
structure ResultTxSearch (Tx : Type) where
  txs : List Tx
  totalCount : Int

/-- `node.TxSearch`, for a query, a page and a number of transactions per page. -/
abbrev Node (Tx : Type) := String → Nat → Nat → Except String (ResultTxSearch Tx)

def perPage : Nat := 100

/-- At most `rounds` rounds of the loop, with the pages they ask for; `none` if
the last of them does not stop. -/
def queryPages (node : Node Tx) (query : String) :
    Nat → Nat → List Tx → Option (Except String (List Tx)) × List Nat
  | 0, _, _ => (none, [])
  | rounds + 1, page, txs =>
    match node query page perPage with
    | .error err => (some (.error ("error while running tx search: " ++ err)), [page])
    | .ok result =>
      let txs := txs ++ result.txs
      if (txs.length : Int) = result.totalCount then (some (.ok txs), [page])
      else
        let (outcome, pages) := queryPages node query rounds (page + 1) txs
        (outcome, page :: pages)

def queryTxs (node : Node Tx) (query : String) (rounds : Nat) :
    Option (Except String (List Tx)) × List Nat :=
  queryPages node query rounds 1 []

-- ---------------------------------------------------------------------------
-- A search with a fixed result
-- ---------------------------------------------------------------------------

/-- The first page is there even if nothing is found. -/
def lastPage (count : Nat) : Nat := max 1 ((count + (perPage - 1)) / perPage)

def pageOf (all : List Tx) (page : Nat) : List Tx := (all.drop ((page - 1) * perPage)).take perPage

/-- The node finds these transactions and serves them in pages. It may refuse a
page that is not there. -/
def Serves (node : Node Tx) (query : String) (all : List Tx) : Prop :=
  ∀ page, 1 ≤ page → page ≤ lastPage all.length →
    node query page perPage = .ok ⟨pageOf all page, all.length⟩

variable {node : Node Tx} {query : String} {all : List Tx}

theorem take_append_pageOf (all : List Tx) (page : Nat) :
    all.take (page * perPage) ++ pageOf all (page + 1) = all.take ((page + 1) * perPage) := by
  rw [pageOf, Nat.add_sub_cancel, Nat.succ_mul, List.take_add]

theorem length_take_iff {count page : Nat} (hpage : page + 1 ≤ lastPage count) :
    min ((page + 1) * perPage) count = count ↔ page + 1 = lastPage count := by
  unfold lastPage perPage at *
  omega

/-- From page `page + 1` on, with the pages before it collected. -/
theorem queryPages_collects (hn : Serves node query all) (page left : Nat) {rounds : Nat}
    (hleft : page + left + 1 = lastPage all.length) (hrounds : left < rounds) :
    queryPages node query rounds (page + 1) (all.take (page * perPage)) =
      (some (.ok all), (List.range (left + 1)).map (page + 1 + ·)) := by
  induction left generalizing page rounds with
  | zero =>
    obtain ⟨rounds, rfl⟩ := Nat.exists_eq_succ_of_ne_zero (Nat.ne_of_gt hrounds)
    have hpage := hn (page + 1) (Nat.le_add_left ..) (Nat.le_of_eq hleft)
    have hall := (length_take_iff (Nat.le_of_eq hleft)).mpr hleft
    have hfull : all.take ((page + 1) * perPage) = all :=
      List.take_of_length_le (hall ▸ Nat.min_le_left ..)
    rw [queryPages, hpage]
    simp [take_append_pageOf, hfull]
  | succ left ih =>
    obtain ⟨rounds, rfl⟩ := Nat.exists_eq_succ_of_ne_zero (Nat.ne_zero_of_lt hrounds)
    have hle : page + 1 ≤ lastPage all.length := by omega
    have hpage := hn (page + 1) (Nat.le_add_left ..) hle
    have hmore : min ((page + 1) * perPage) all.length ≠ all.length := by
      intro h
      have hlast := (length_take_iff hle).mp h
      omega
    have hrest := ih (page + 1) (by omega) (Nat.lt_of_succ_lt_succ hrounds)
    rw [queryPages, hpage]
    simp only [take_append_pageOf, List.length_take, Int.natCast_inj, hmore, if_false, hrest]
    have hpages : (List.range (left + 1)).map (page + 1 + 1 + ·) =
        (List.range (left + 1)).map ((page + 1 + ·) ∘ Nat.succ) := by
      refine List.map_congr_left fun i _ => ?_
      simp only [Function.comp_apply]
      omega
    rw [List.range_succ_eq_map (n := left + 1), List.map_cons, List.map_map, hpages]

/-- A search that finds `N` transactions takes the pages up to the last one, each
once, and returns the transactions in order. -/
theorem queryTxs_collects {node : Node Tx} {query : String} {all : List Tx}
    (hn : Serves node query all) {rounds : Nat} (hrounds : lastPage all.length ≤ rounds) :
    queryTxs node query rounds =
      (some (.ok all), (List.range (lastPage all.length)).map (1 + ·)) := by
  have hpos : 1 ≤ lastPage all.length := Nat.le_max_left ..
  have hleft : lastPage all.length - 1 < rounds := by omega
  have hpages := queryPages_collects hn 0 (lastPage all.length - 1) (by omega) hleft
  rw [Nat.zero_mul, List.take_zero, Nat.sub_add_cancel hpos, Nat.zero_add] at hpages
  exact hpages

def strictNode (all : List Tx) : Node Tx := fun _ page _ =>
  if page ≤ lastPage all.length then .ok ⟨pageOf all page, all.length⟩
  else .error "page should be within range"

theorem queryTxs_collects_three :
    queryTxs (strictNode (List.range 250)) "proposal_vote.proposal_id=7" 3 =
      (some (.ok (List.range 250)), [1, 2, 3]) :=
  (queryTxs_collects (fun _ _ hle => if_pos hle) (by simp [lastPage, perPage])).trans (by
    rw [List.length_range]
    rfl)

end SafrochainIndexer.Callisto.TxSearch
