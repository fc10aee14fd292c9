import SafrochainIndexer.Api.Message
import SafrochainIndexer.Lib.Text

/-!
# Searching messages page by page

In `searchMessages` only the last alternative of the condition sees the cursor.
A message that matches by its value or its type is selected at every cursor.
-/

namespace SafrochainIndexer.Api

section
variable (env : Platform) (config : AppConfig) (db : Store)
  (order : Nat → Keyset.HighestFirst MessageRow.height) (query : String) (page limit : Option Nat)

def searchMatches (m : MessageRow) : Bool :=
  valueMatches env query m || typeMatches env query m || addressesMatch env query m

/-- The message is selected whatever the cursor. -/
def looselyMatches (m : MessageRow) : Bool := valueMatches env query m || typeMatches env query m

def searchCall (i : Nat) (cursor : Option Nat) : Keyset.Page MessageRow :=
  (searchMessages env config db (order i).run query ⟨page, limit, cursor⟩).page

def searchRows (cursor : Option Nat) : List MessageRow :=
  db.message.rows.filter (searchSelects env query cursor)

def searchLimit : Nat := (normalizePagePagination ⟨page, limit, none⟩ config).limit

theorem searchCall_eq (i : Nat) (cursor : Option Nat) :
    searchCall env config db order query page limit i cursor =
      Keyset.page MessageRow.height (order i).run (searchLimit config page limit)
        (searchRows env db query cursor) :=
  getMany_page (order i) (searchLimit config page limit)
    (db.primaryKey_nodup.sublist (List.filter_sublist.map _))

end

section
variable {env : Platform} {config : AppConfig} {db : Store}
  {order : Nat → Keyset.HighestFirst MessageRow.height} {query : String} {page limit : Option Nat}

theorem searchLimit_pos : 0 < searchLimit config page limit := limit_pos ..

theorem mem_searchRows_some {m : MessageRow} {c : Nat} (hc : 0 < c) :
    m ∈ searchRows env db query (some c) ↔
      m ∈ db.message.rows ∧ (looselyMatches env query m = true ∨
        (addressesMatch env query m = true ∧ m.height < c)) := by
  have hne : c ≠ 0 := Nat.ne_of_gt hc
  simp [searchRows, searchSelects, truthy, looselyMatches, Option.filter, hne]

theorem mem_searchRows_of_loose {m : MessageRow} {cursor : Option Nat} (hm : m ∈ db.message.rows)
    (hl : looselyMatches env query m = true) : m ∈ searchRows env db query cursor := by
  simp only [looselyMatches, Bool.or_eq_true] at hl
  refine List.mem_filter.mpr ⟨hm, ?_⟩
  unfold searchSelects
  split
  · simp [hl]
  · simp [hl]

theorem searchRows_height_pos (cursor : Option Nat) :
    ∀ m ∈ searchRows env db query cursor, 0 < m.height := fun m _ => m.height_pos

/-- A page at a cursor is sound exactly if no message that ignores the cursor
is at or above it. -/
theorem search_sound_iff {i c : Nat} (hc : 0 < c) :
    (∀ m ∈ (searchCall env config db order query page limit i (some c)).data,
        searchMatches env query m = true ∧ m.height < c) ↔
      ∀ m ∈ db.message.rows, looselyMatches env query m = true → m.height < c := by
  rw [searchCall_eq]
  constructor
  · intro hs m hm hl
    have hmem : m ∈ searchRows env db query (some c) := mem_searchRows_of_loose hm hl
    have hmem' := ((order i).perm _).mem_iff.mpr hmem
    have hsort := (order i).sorted (searchRows env db query (some c))
    -- the first row of the page is not below `m`
    cases hrun : (order i).run (searchRows env db query (some c)) with
    | nil => simp [hrun] at hmem'
    | cons first rest =>
      have hfirst : first ∈ ((order i).run (searchRows env db query (some c))).take
          (searchLimit config page limit) := by
        rw [hrun, List.take_cons searchLimit_pos]
        exact List.mem_cons_self
      rw [hrun] at hmem' hsort
      have hle : m.height ≤ first.height := by
        rcases List.mem_cons.mp hmem' with rfl | hr
        · exact Nat.le_refl _
        · exact (List.pairwise_cons.mp hsort).1 m hr
      exact Nat.lt_of_le_of_lt hle (hs first hfirst).2
  · intro hl m hm
    have hmem := ((order i).perm _).mem_iff.mp (List.mem_of_mem_take hm)
    obtain ⟨hdb, hloose | ⟨haddr, hlt⟩⟩ := (mem_searchRows_some hc).mp hmem
    · refine ⟨?_, hl m hdb hloose⟩
      simp only [looselyMatches, Bool.or_eq_true] at hloose
      simp [searchMatches, hloose]
    · exact ⟨by simp [searchMatches, haddr], hlt⟩

theorem countP_loose_le (cursor : Option Nat) :
    db.message.rows.countP (looselyMatches env query) ≤ (searchRows env db query cursor).length := by
  rw [searchRows, ← List.countP_eq_length_filter]
  refine List.countP_mono_left fun m hm hl => ?_
  have hmem : m ∈ searchRows env db query cursor := mem_searchRows_of_loose hm hl
  exact (List.mem_filter.mp hmem).2

theorem searchCall_decreases
    (hn : db.message.rows.countP (looselyMatches env query) < searchLimit config page limit)
    (i c d : Nat) (hc : 0 < c)
    (h : (searchCall env config db order query page limit i (some c)).nextCursor = some d) :
    d < c := by
  rw [searchCall_eq] at h
  obtain ⟨hfull, -, -, htake, -⟩ := Keyset.nextCursor_eq_some (order i) searchLimit_pos h
  have hex : ∃ m ∈ ((order i).run (searchRows env db query (some c))).take
      (searchLimit config page limit), looselyMatches env query m = false := by
    by_contra hall
    push Not at hall
    have hcount : searchLimit config page limit ≤
        ((order i).run (searchRows env db query (some c))).countP (looselyMatches env query) := by
      have htakes := (List.take_sublist (searchLimit config page limit)
        ((order i).run (searchRows env db query (some c)))).countP_le (p := looselyMatches env query)
      rw [List.countP_eq_length.mpr (by simpa using hall)] at htakes
      simpa [Keyset.length_run, hfull] using htakes
    rw [((order i).perm _).countP_eq] at hcount
    have hle : (searchRows env db query (some c)).countP (looselyMatches env query) ≤
        db.message.rows.countP (looselyMatches env query) := List.filter_sublist.countP_le
    exact absurd hn (Nat.not_lt.mpr (Nat.le_trans hcount hle))
  obtain ⟨m, hm, hl⟩ := hex
  have hmem := ((order i).perm _).mem_iff.mp (List.mem_of_mem_take hm)
  obtain ⟨-, hloose | ⟨-, hlt⟩⟩ := (mem_searchRows_some hc).mp hmem
  · simp [hl] at hloose
  · exact Nat.lt_of_le_of_lt (htake m hm) hlt

theorem searchCall_handed (i : Nat) (cursor : Option Nat) (d : Nat)
    (h : (searchCall env config db order query page limit i cursor).nextCursor = some d) :
    Keyset.Handed (some d) :=
  Keyset.handed_nextCursor searchLimit_pos (searchCall_eq env config db order query page limit)
    searchRows_height_pos h

theorem search_stops_iff {start : Option Nat} (hs : Keyset.Handed start) :
    Keyset.Stops (searchCall env config db order query page limit) start ↔
      db.message.rows.countP (looselyMatches env query) < searchLimit config page limit := by
  constructor
  · rintro ⟨fuel, pages, hf⟩
    by_contra hn
    have hfull : ∀ i cursor, Keyset.Handed cursor → ∃ d,
        (searchCall env config db order query page limit i cursor).nextCursor = some d ∧
          Keyset.Handed (some d) := by
      intro i cursor _
      cases hd : (searchCall env config db order query page limit i cursor).nextCursor with
      | none =>
        rw [searchCall_eq, Keyset.nextCursor_eq_none_iff (order i) searchLimit_pos] at hd
        exact absurd (Nat.lt_of_le_of_lt (countP_loose_le cursor) hd) hn
      | some d => exact ⟨d, rfl, searchCall_handed i cursor d hd⟩
    rw [Keyset.follow_never hfull fuel 0 hs] at hf
    cases hf
  · intro hn
    exact Keyset.follow_stops searchCall_handed (searchCall_decreases hn) hs 0

/-- What the pages of a search promise: each holds messages that match, below
its cursor, and from any start they descend to a last one. -/
def SearchPages (env : Platform) (config : AppConfig) (db : Store)
    (order : Nat → Keyset.HighestFirst MessageRow.height) (query : String)
    (page limit : Option Nat) : Prop :=
  (∀ i c, 0 < c → ∀ m ∈ (searchCall env config db order query page limit i (some c)).data,
    searchMatches env query m = true ∧ m.height < c) ∧
  ∀ start, Keyset.Handed start →
    ∃ fuel pages, Keyset.follow (searchCall env config db order query page limit) fuel 0 start =
      some pages ∧ Keyset.Descends MessageRow.height pages

theorem search_pages_iff :
    SearchPages env config db order query page limit ↔
      ∀ m ∈ db.message.rows, looselyMatches env query m = false := by
  have hcall := searchCall_eq env config db order query page limit
  constructor
  · intro h m hm
    by_contra hl
    -- no message is below the cursor 1
    have hlt := (search_sound_iff Nat.one_pos).mp (h.1 0 1 Nat.one_pos) m hm (by simpa using hl)
    exact absurd m.height_pos (Nat.not_lt.mpr (Nat.le_of_lt_succ hlt))
  · intro hl
    refine ⟨fun i c hc => (search_sound_iff hc).mpr fun m hm hloose => ?_, fun start hs => ?_⟩
    · simp [hl m hm] at hloose
    · have hzero : db.message.rows.countP (looselyMatches env query) = 0 :=
        List.countP_eq_zero.mpr (by simpa using hl)
      have hstops : Keyset.Stops (searchCall env config db order query page limit) start :=
        (search_stops_iff hs).mpr (hzero ▸ searchLimit_pos)
      obtain ⟨fuel, pages, hf⟩ := hstops
      refine ⟨fuel, pages, hf, (Keyset.descends_of_follow searchLimit_pos hcall
        searchRows_height_pos (fun c hc m hm => ?_) hs hf).1⟩
      obtain ⟨hdb, hloose | ⟨-, hlt⟩⟩ := (mem_searchRows_some hc).mp hm
      · simp [hl m hdb] at hloose
      · exact hlt

end

/-- When a search is sound at a cursor, when following it stops, and when all
its pages keep their promise. -/
theorem searchMessages_iff (env : Platform) (config : AppConfig) (db : Store)
    (order : Nat → Keyset.HighestFirst MessageRow.height) (query : String)
    (page limit : Option Nat) :
    (∀ i c, 0 < c →
      ((∀ m ∈ (searchCall env config db order query page limit i (some c)).data,
          searchMatches env query m = true ∧ m.height < c) ↔
        ∀ m ∈ db.message.rows, looselyMatches env query m = true → m.height < c)) ∧
    (∀ start, Keyset.Handed start →
      (Keyset.Stops (searchCall env config db order query page limit) start ↔
        db.message.rows.countP (looselyMatches env query) < searchLimit config page limit)) ∧
    (SearchPages env config db order query page limit ↔
      ∀ m ∈ db.message.rows, looselyMatches env query m = false) :=
  ⟨fun _ _ => search_sound_iff, fun _ => search_stops_iff, search_pages_iff⟩

-- ---------------------------------------------------------------------------
-- A search that repeats its page
-- ---------------------------------------------------------------------------

def plainPlatform : Platform where
  ilike text pattern := Text.contains text (.ofList pattern.toList.tail.dropLast)
  jsonField _ _ := none
  arrayText addresses := "\x7b" ++ String.intercalate "," addresses ++ "\x7d"
  newDate _ := 0

def oneSend : Store where
  block := .empty
  transaction := .empty
  message :=
    ⟨[⟨"hash", 0, "cosmos.bank.v1beta1.MsgSend", "\x7b\x7d", ["addr"], 0, 7, Nat.succ_pos _⟩],
      List.nodup_singleton _⟩
  messageType := .empty
  hash_nodup := TransactionRow.empty_nodup
  primaryKey_nodup := List.nodup_singleton _

/-- A message found by its type fills every page of one row. -/
theorem search_repeats_page :
    ¬ SearchPages plainPlatform ⟨20, 100, by decide⟩ oneSend
      (fun _ => Keyset.HighestFirst.insertion MessageRow.height) "bank" none (some 1) := by
  rw [search_pages_iff]
  decide

end SafrochainIndexer.Api
