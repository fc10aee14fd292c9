import SafrochainIndexer.Api.Address
import SafrochainIndexer.Api.Message

/-!
# Listings by cursor

`getTransactions`, `getAddressTransactions` and `getMessagesByAddress` followed
from the first page to the last. A cursor is a height, so a page that ends
inside a height loses the rest of that height. Rows that share the primary key
of their entity, in two partitions, are merged where they meet on a page.
-/

namespace SafrochainIndexer.Api

section
variable {α κ : Type} [DecidableEq κ] {key : α → κ} {height : α → Nat}

/-- The pages of a listing cut no height and merge no rows. -/
def PagesWhole (key : α → κ) (height : α → Nat) (config : AppConfig) (page limit : Option Nat)
    (rows : List α) : Prop :=
  Keyset.Unsplit height (normalizePagePagination ⟨page, limit, none⟩ config).limit rows ∧
    Keyset.Apart key height (normalizePagePagination ⟨page, limit, none⟩ config).limit rows

theorem cursorListing_enumerates_iff (key : α → κ) (config : AppConfig) (page limit : Option Nat)
    (order : Nat → Keyset.HighestFirst height) (rows : List α) (hpos : ∀ x, 0 < height x) :
    Keyset.Enumerates height
        (fun i cursor => (cursorListing key height (order i).run config ⟨page, limit, cursor⟩ rows).page)
        none rows ↔
      PagesWhole key height config page limit rows :=
  have hcursor : Keyset.Handed none := trivial
  Keyset.enumerates_iff (cursorListing_serves config page limit order rows) (limit_pos ..)
    (fun x _ => hpos x) hcursor

end

theorem getTransactions_enumerates_iff (config : AppConfig) (db : Tables)
    (order : Nat → Keyset.HighestFirst TransactionRow.height) (filters : TransactionListDto) :
    Keyset.Enumerates TransactionRow.height
        (fun i cursor => (getTransactions config db (order i).run { filters with cursor }).page)
        none (db.transaction.rows.filter (filters.selects db)) ↔
      PagesWhole TransactionRow.hash TransactionRow.height config filters.page filters.limit
        (db.transaction.rows.filter (filters.selects db)) :=
  cursorListing_enumerates_iff TransactionRow.hash config filters.page filters.limit order
    (db.transaction.rows.filter (filters.selects db)) TransactionRow.height_pos

/-- Each of the three listings lists every row that matches exactly once,
highest first, exactly if its pages are whole. -/
theorem listings_enumerate_iff (config : AppConfig) (db : Tables) :
    (∀ (order : Nat → Keyset.HighestFirst TransactionRow.height) (filters : TransactionListDto),
      Keyset.Enumerates TransactionRow.height
          (fun i cursor => (getTransactions config db (order i).run { filters with cursor }).page)
          none (db.transaction.rows.filter (filters.selects db)) ↔
        PagesWhole TransactionRow.hash TransactionRow.height config filters.page filters.limit
          (db.transaction.rows.filter (filters.selects db))) ∧
    (∀ (order : Nat → Keyset.HighestFirst TransactionRow.height) (address : String)
        (page limit : Option Nat),
      Keyset.Enumerates TransactionRow.height
          (fun i cursor =>
            (getAddressTransactions config db (order i).run address ⟨page, limit, cursor⟩).page)
          none (db.transaction.rows.filter (db.involvesAddress address)) ↔
        PagesWhole TransactionRow.hash TransactionRow.height config page limit
          (db.transaction.rows.filter (db.involvesAddress address))) ∧
    (∀ (order : Nat → Keyset.HighestFirst MessageRow.height) (address : String)
        (page limit : Option Nat),
      Keyset.Enumerates MessageRow.height
          (fun i cursor =>
            (getMessagesByAddress config db (order i).run address ⟨page, limit, cursor⟩).page)
          none (db.message.rows.filter (·.involves address)) ↔
        PagesWhole MessageRow.primaryKey MessageRow.height config page limit
          (db.message.rows.filter (·.involves address))) :=
  ⟨getTransactions_enumerates_iff config db,
    fun order address page limit =>
      cursorListing_enumerates_iff TransactionRow.hash config page limit order
        (db.transaction.rows.filter (db.involvesAddress address)) TransactionRow.height_pos,
    fun order address page limit =>
      cursorListing_enumerates_iff MessageRow.primaryKey config page limit order
        (db.message.rows.filter (·.involves address)) MessageRow.height_pos⟩

-- ---------------------------------------------------------------------------
-- Two transactions in one block
-- ---------------------------------------------------------------------------

def defaultConfig : AppConfig := ⟨20, 100, by decide⟩

def transactionAt (hash : String) (height : Nat) (h : 0 < height) : TransactionRow :=
  ⟨hash, height, true, none, "[]", none, none, 0, h⟩

def sharedBlock : Tables where
  block := ⟨[⟨7, "block", 0⟩], by decide⟩
  transaction := ⟨[transactionAt "a" 7 (by decide), transactionAt "b" 7 (by decide)], by decide⟩
  message := .empty
  messageType := .empty

/-- With one row a page, the second transaction is never listed. -/
theorem shared_block_not_enumerated :
    ¬ Keyset.Enumerates TransactionRow.height
      (fun _ cursor =>
        (getTransactions defaultConfig sharedBlock
          (Keyset.HighestFirst.insertion TransactionRow.height).run
          ⟨none, some 1, none, none, none, cursor⟩).page)
      none sharedBlock.transaction.rows := by
  intro h
  have hu := (getTransactions_enumerates_iff defaultConfig sharedBlock
    (fun _ => Keyset.HighestFirst.insertion TransactionRow.height)
    ⟨none, some 1, none, none, none, none⟩).mp h
  exact hu.1 7 1 (by decide)

end SafrochainIndexer.Api
