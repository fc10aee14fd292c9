import SafrochainIndexer.Callisto.FeegrantLaws
import SafrochainIndexer.Callisto.FullTxs
import SafrochainIndexer.Callisto.TxSearch
import SafrochainIndexer.Lib.Replays

/-!
# `parse feegrant allowance`

The command searches the chain for transactions that grant or revoke a fee
allowance, sorts what both searches find by height, and handles the messages
again. A transaction with both kinds of messages is found twice, and
`sort.Slice` orders equal heights as it likes.

`allowance_replays`: the grants come out as a chain without expiries would have
left them.
-/

namespace SafrochainIndexer.Callisto.Feegrant

/-- `sort.Slice` by ascending height. It is not stable. -/
structure HeightSort where
  sorted : List ResultTx → List ResultTx
  perm : ∀ txs, (sorted txs).Perm txs
  ascending : ∀ txs, (sorted txs).Pairwise fun a b => a.height ≤ b.height

structure Command where
  module : Module
  txSearch : TxSearch.Node ResultTx
  tx : String → Except String (FullTx Msg)
  sort : HeightSort

def grantQuery : String := "message.action='set_feegrant'"

def revokeQuery : String := "message.action='revoke_feegrant'"

def isAllowance : Msg → Bool
  | .grantAllowance _ => true
  | .revokeAllowance _ => true
  | .other => false

variable (c : Command)

def Command.handleMsg (transaction : FullTx Msg) (msg : Msg × Nat) : Eff Db Unit :=
  if isAllowance msg.1 then
    Eff.wrap "error while handling feegrant module message: "
      (c.module.handleMsg msg.2 msg.1 transaction.tx)
  else pure ()

/-- `none` if the pages of a search do not end within `rounds` requests. -/
def Command.allowance (rounds : Nat) : Eff Db (Option Unit) :=
  match (TxSearch.queryTxs c.txSearch grantQuery rounds).1 with
  | none => pure none
  | some (.error message) => Eff.fail message
  | some (.ok grantAllowanceTxs) =>
    match (TxSearch.queryTxs c.txSearch revokeQuery rounds).1 with
    | none => pure none
    | some (.error message) => Eff.fail message
    | some (.ok revokeAllowanceTxs) => do
      (c.sort.sorted (grantAllowanceTxs ++ revokeAllowanceTxs)).forM (handleAgain c.tx c.handleMsg)
      pure (some ())

-- ---------------------------------------------------------------------------
-- A chain
-- ---------------------------------------------------------------------------

def handlings (transaction : FullTx Msg) : List Handling :=
  transaction.msgs.zipIdx.map fun msg => .msg transaction.tx msg.2 msg.1

/-- What the node knows: the transactions of a chain, in its order, of which the
searches find those with a message of their kind and maybe others. A successful
transaction has only grants that can be decoded. -/
structure Command.Sees (chain : List (FullTx Msg)) (grants revokes : List ResultTx) : Prop where
  ascending : chain.Pairwise fun a b => a.tx.height ≤ b.tx.height
  knows : Knows c.tx chain (grants ++ revokes)
  serves_grants : TxSearch.Serves c.txSearch grantQuery grants
  serves_revokes : TxSearch.Serves c.txSearch revokeQuery revokes
  grants_found : ∀ transaction ∈ chain, ∀ msg, .grantAllowance msg ∈ transaction.msgs →
    transaction.result ∈ grants
  revokes_found : ∀ transaction ∈ chain, ∀ msg, .revokeAllowance msg ∈ transaction.msgs →
    transaction.result ∈ revokes
  decodes : ∀ transaction ∈ chain, transaction.tx.logs ≠ [] →
    ∀ msg, .grantAllowance msg ∈ transaction.msgs → ∃ row, c.module.grantRow transaction.tx msg = .ok row

def Command.opsOf (pair : String × String) (transaction : FullTx Msg) :
    List (Register.Op FeeGrantAllowanceRow Int) :=
  c.module.opsFor pair (handlings transaction)

/-- No two transactions of one height touch the grant. -/
def Command.Unclashed (chain : List (FullTx Msg)) (pair : String × String) : Prop :=
  ∀ a ∈ chain, ∀ b ∈ chain, c.opsOf pair a ≠ [] → c.opsOf pair b ≠ [] →
    a.tx.height = b.tx.height → a = b

/-- The table shows nothing but grants that the chain has had, maybe stale ones
and maybe revoked ones. -/
def Command.Had (chain : List (FullTx Msg)) (s : Db) : Prop :=
  ∀ row ∈ s.feeGrantAllowance.rows, ∃ transaction ∈ chain,
    .save row ∈ c.opsOf row.uniqueFeeGrantAllowance transaction

-- ---------------------------------------------------------------------------
-- One message
-- ---------------------------------------------------------------------------

section
variable {c} {m : Module} {s : Db} {pair : String × String}

theorem saveFeeGrantAllowance_returns {protoMarshalJSON : Any → Except String String}
    {allowance : FeeGrant} {json : String} (h : protoMarshalJSON allowance.allowance = .ok json)
    (s : Db) : ∃ t, Eff.Returns (saveFeeGrantAllowance protoMarshalJSON allowance) s () t := by
  have hgranter := (hasAccount_addAccounts s [⟨allowance.granter⟩, ⟨allowance.grantee⟩]
    allowance.granter).mpr (by simp)
  have hgrantee := (hasAccount_addAccounts s [⟨allowance.granter⟩, ⟨allowance.grantee⟩]
    allowance.grantee).mpr (by simp)
  have hrow : feeGrantAllowanceTable.violation
      (s.addAccounts [⟨allowance.granter⟩, ⟨allowance.grantee⟩])
      ⟨allowance.grantee, allowance.granter, json, allowance.height⟩ = none := by
    simp [feeGrantAllowanceTable, hgrantee, hgranter]
  have hsave := saveAccounts_insert feeGrantAllowanceConflict_guards (by simp [maxPostgreSQLParams])
    hrow "error while storing fee grant allowance accounts: " "error while saving fee grant allowance: "
  obtain ⟨⟨⟩, u, haccounts, hinsert⟩ := Eff.returns_bind.mp hsave
  exact ⟨_, Eff.returns_bind.mpr ⟨(), u, haccounts, Eff.returns_bind.mpr
    ⟨json, u, Eff.returns_wrap.mpr (Eff.returns_ofExcept.mpr ⟨h, rfl⟩), hinsert⟩⟩⟩

theorem handleMsgGrantAllowance_returns {tx : Tx} {msg : MsgGrantAllowance}
    {row : FeeGrantAllowanceRow} (h : m.grantRow tx msg = .ok row) (s : Db) :
    ∃ t, Eff.Returns (m.handleMsgGrantAllowance tx msg) s () t := by
  simp only [Module.grantRow, Eff.bind_ok, Eff.pure_ok] at h
  obtain ⟨allowance, hallowance, granter, hgranter, grantee, hgrantee, ⟨granter', grantee', allowance'⟩,
    hgrant, json, hjson, -⟩ := h
  let grant : FeeGrant := ⟨granter', grantee', allowance', tx.height⟩
  obtain ⟨t, hsave⟩ := saveFeeGrantAllowance_returns (show _ = Except.ok json from hjson :
    m.protoMarshalJSON grant.allowance = .ok json) s
  refine ⟨t, ?_⟩
  unfold Module.handleMsgGrantAllowance Eff.Returns
  simp only [Eff.exec_wrap_ofExcept_bind, hallowance, hgranter, hgrantee, hgrant]
  exact hsave

theorem handleMsg_returns {tx : Tx} {msg : Msg} {index : Nat}
    (h : tx.logs ≠ [] → ∀ grant, msg = .grantAllowance grant → ∃ row, m.grantRow tx grant = .ok row)
    (s : Db) : ∃ t, Eff.Returns (m.handleMsg index msg tx) s () t := by
  unfold Module.handleMsg
  split
  · exact ⟨s, Eff.returns_pure.mpr ⟨rfl, rfl⟩⟩
  · rename_i hlogs
    have hlogs : tx.logs ≠ [] := fun hnil => hlogs (List.length_eq_zero_iff.mpr hnil)
    cases msg with
    | grantAllowance msg =>
      obtain ⟨row, hrow⟩ := h hlogs msg rfl
      exact handleMsgGrantAllowance_returns hrow s
    | revokeAllowance msg => exact ⟨_, deleteFeeGrantAllowance_returns _ s⟩
    | other => exact ⟨s, Eff.returns_pure.mpr ⟨rfl, rfl⟩⟩

/-- Other messages do nothing, so it makes no difference that they are skipped. -/
theorem exec_command_handleMsg (transaction : FullTx Msg) (msg : Msg × Nat) (s : Db) :
    (Eff.exec (c.handleMsg transaction msg) s).2 =
      (Eff.exec (c.module.handle (.msg transaction.tx msg.2 msg.1)) s).2 := by
  unfold Command.handleMsg
  split
  · rw [Eff.exec_wrap]
    rfl
  · rename_i hother
    obtain ⟨msg, index⟩ := msg
    cases msg with
    | grantAllowance msg => exact absurd rfl hother
    | revokeAllowance msg => exact absurd rfl hother
    | other =>
      show s = (Eff.exec (c.module.handleMsg index .other transaction.tx) s).2
      unfold Module.handleMsg
      split <;> rfl

theorem command_handleMsg_returns {transaction : FullTx Msg} {msg : Msg × Nat}
    (h : transaction.tx.logs ≠ [] → ∀ grant, msg.1 = .grantAllowance grant →
      ∃ row, c.module.grantRow transaction.tx grant = .ok row) (s : Db) :
    Eff.Returns (c.handleMsg transaction msg) s ()
      (Eff.exec (c.module.handle (.msg transaction.tx msg.2 msg.1)) s).2 := by
  rw [← exec_command_handleMsg]
  obtain ⟨t, ht⟩ : ∃ t, Eff.Returns (c.handleMsg transaction msg) s () t := by
    unfold Command.handleMsg
    split
    · obtain ⟨t, ht⟩ : ∃ t, Eff.Returns (c.module.handleMsg msg.2 msg.1 transaction.tx) s () t :=
        handleMsg_returns h s
      exact ⟨t, Eff.returns_wrap.mpr ht⟩
    · exact ⟨s, Eff.returns_pure.mpr ⟨rfl, rfl⟩⟩
  rw [ht.state]
  exact ht

theorem run_append (handlings later : List Handling) (s : Db) :
    m.run s (handlings ++ later) = m.run (m.run s handlings) later := List.foldl_append

theorem afterMsgs_eq (transaction : FullTx Msg) (s : Db) (msgs : List (Msg × Nat)) :
    afterMsgs c.handleMsg transaction s msgs =
      c.module.run s (msgs.map fun msg => .msg transaction.tx msg.2 msg.1) := by
  unfold afterMsgs Module.run
  rw [List.foldl_map]
  simp only [exec_command_handleMsg]

theorem afterTxs_eq (s : Db) (transactions : List (FullTx Msg)) :
    afterTxs c.handleMsg s transactions = c.module.run s (transactions.flatMap handlings) := by
  induction transactions generalizing s with
  | nil => rfl
  | cons transaction transactions ih =>
    rw [afterTxs, List.foldl_cons, ← afterTxs, ih, List.flatMap_cons, run_append, afterMsgs_eq]
    rfl

end

-- ---------------------------------------------------------------------------
-- The whole search
-- ---------------------------------------------------------------------------

section
variable {c} {chain : List (FullTx Msg)} {grants revokes : List ResultTx} {s : Db}
  {pair : String × String}

def Command.replayed (c : Command) (grants revokes : List ResultTx) : List (FullTx Msg) :=
  fetched c.tx (c.sort.sorted (grants ++ revokes))

theorem knows_sorted (hsees : c.Sees chain grants revokes) :
    Knows c.tx chain (c.sort.sorted (grants ++ revokes)) where
  tx := hsees.knows.tx
  found tx htx := hsees.knows.found tx ((c.sort.perm _).mem_iff.mp htx)

theorem allowance_returns (hsees : c.Sees chain grants revokes) {rounds : Nat}
    (hgrants : TxSearch.lastPage grants.length ≤ rounds)
    (hrevokes : TxSearch.lastPage revokes.length ≤ rounds) (s : Db) :
    Eff.Returns (c.allowance rounds) s (some ())
      (c.module.run s ((c.replayed grants revokes).flatMap handlings)) := by
  have hmsgs : ∀ transaction ∈ chain, ∀ msg ∈ transaction.msgs.zipIdx, ∀ done : List Unit,
      ∀ s : Db, True → ∃ t, Eff.Returns (c.handleMsg transaction msg) s () t ∧ True := by
    intro transaction hmem msg hmsg _ s _
    refine ⟨_, command_handleMsg_returns (fun hlogs grant hgrant => ?_) s, trivial⟩
    have hin : msg.1 ∈ transaction.msgs := (List.mem_zipIdx' hmsg).2 ▸ List.getElem_mem _
    exact hsees.decodes transaction hmem hlogs grant (hgrant ▸ hin)
  obtain ⟨hsorted, -⟩ := forM_handleAgain (fun _ _ => True) (fun _ _ => []) (knows_sorted hsees)
    hmsgs (fun _ h => h) [] (s := s) trivial
  unfold Command.allowance
  rw [TxSearch.queryTxs_collects hsees.serves_grants hgrants,
    TxSearch.queryTxs_collects hsees.serves_revokes hrevokes]
  rw [afterTxs_eq] at hsorted
  exact Eff.returns_bind.mpr ⟨⟨⟩, _, hsorted, Eff.returns_pure.mpr ⟨rfl, rfl⟩⟩

theorem opsFor_flatMap (transactions : List (FullTx Msg)) :
    c.module.opsFor pair (transactions.flatMap handlings) =
      transactions.flatMap (c.opsOf pair) := by
  induction transactions with
  | nil => rfl
  | cons transaction transactions ih =>
    rw [List.flatMap_cons, List.flatMap_cons, ← ih]
    exact List.filterMap_append

theorem stampOf_opsOf {transaction : FullTx Msg} {op : Register.Op FeeGrantAllowanceRow Int}
    (h : op ∈ c.opsOf pair transaction) :
    op.stampOf FeeGrantAllowanceRow.height = transaction.tx.height := by
  obtain ⟨handling, hmem, hop⟩ := List.mem_filterMap.mp h
  obtain ⟨msg, -, rfl⟩ := List.mem_map.mp hmem
  exact stampOf_opFor c.module hop

theorem found_of_opsOf (hsees : c.Sees chain grants revokes) {transaction : FullTx Msg}
    (hmem : transaction ∈ chain) (h : c.opsOf pair transaction ≠ []) :
    transaction.result ∈ grants ++ revokes := by
  obtain ⟨op, hop⟩ := List.exists_mem_of_ne_nil _ h
  obtain ⟨handling, hhandling, hop⟩ := List.mem_filterMap.mp hop
  obtain ⟨⟨msg, index⟩, hmsg, rfl⟩ := List.mem_map.mp hhandling
  have hmsgs : msg ∈ transaction.msgs := (List.mem_zipIdx' hmsg).2 ▸ List.getElem_mem _
  cases msg with
  | grantAllowance msg => exact List.mem_append_left _ (hsees.grants_found transaction hmem msg hmsgs)
  | revokeAllowance msg =>
    exact List.mem_append_right _ (hsees.revokes_found transaction hmem msg hmsgs)
  | other =>
    simp only [Module.opFor] at hop
    split at hop <;> cases hop

theorem mem_replayed (hsees : c.Sees chain grants revokes) {transaction : FullTx Msg} :
    transaction ∈ c.replayed grants revokes ↔
      transaction ∈ chain ∧ transaction.result ∈ grants ++ revokes := by
  rw [Command.replayed, mem_fetched (knows_sorted hsees), (c.sort.perm _).mem_iff]

theorem flatMap_opsOf_ascending {transactions : List (FullTx Msg)}
    (h : transactions.Pairwise fun a b => a.tx.height ≤ b.tx.height) :
    (transactions.flatMap (c.opsOf pair)).Pairwise fun a b =>
      a.stampOf FeeGrantAllowanceRow.height ≤ b.stampOf FeeGrantAllowanceRow.height := by
  refine List.pairwise_flatMap.mpr ⟨fun transaction _ => ?_, h.imp fun hab a ha b hb => ?_⟩
  · refine List.pairwise_of_forall_mem_list fun a ha b hb => ?_
    rw [stampOf_opsOf ha, stampOf_opsOf hb]
  · rw [stampOf_opsOf ha, stampOf_opsOf hb]
    exact hab

/-- Both a replay and the chain end with what the last transaction does. -/
theorem run_of_top {transactions : List (FullTx Msg)} {top : FullTx Msg}
    {op : Register.Op FeeGrantAllowanceRow Int}
    (hs : transactions.Pairwise fun a b => a.tx.height ≤ b.tx.height) (hmem : top ∈ transactions)
    (hop : (c.opsOf pair top).getLast? = some op)
    (htop : ∀ other ∈ transactions, c.opsOf pair other ≠ [] → other = top ∨
      other.tx.height < top.tx.height)
    (hheld : ∀ row, s.feeGrantAllowance.find pair = some row → row.height ≤ top.tx.height) :
    (c.module.run s (transactions.flatMap handlings)).feeGrantAllowance.find pair = op.left := by
  have hlast := getLast?_flatMap_top hs hmem hop htop
  have hstamp : op.stampOf FeeGrantAllowanceRow.height = top.tx.height :=
    stampOf_opsOf (List.mem_of_getLast? hop)
  rw [find_run, opsFor_flatMap]
  exact Register.run_getLast? (flatMap_opsOf_ascending hs) hlast fun row hrow => hstamp ▸ hheld row hrow

end

/-- From a database that shows only grants that the chain has had, the command
comes to an end, and a grant that no two transactions of one height touch is
then what the messages of the chain, handled in order on an empty database, make
of it. It depends neither on the order that the sort gives to equal heights nor
on what is found twice. Expiries are no messages: a grant that has expired is
back. -/
theorem allowance_replays {c : Command} {chain : List (FullTx Msg)} {grants revokes : List ResultTx}
    (hsees : c.Sees chain grants revokes) {rounds : Nat}
    (hgrants : TxSearch.lastPage grants.length ≤ rounds)
    (hrevokes : TxSearch.lastPage revokes.length ≤ rounds) {s : Db} (hhad : c.Had chain s) :
    ∃ t, Eff.Returns (c.allowance rounds) s (some ()) t ∧
      ∀ pair, c.Unclashed chain pair →
        t.feeGrantAllowance.find pair =
          (c.module.run default (chain.flatMap handlings)).feeGrantAllowance.find pair := by
  refine ⟨_, allowance_returns hsees hgrants hrevokes s, fun pair hunclashed => ?_⟩
  have hstored : ∀ row, s.feeGrantAllowance.find pair = some row →
      ∃ transaction ∈ chain, .save row ∈ c.opsOf pair transaction := by
    intro row hrow
    have hkey : row.uniqueFeeGrantAllowance = pair := Table.find_key hrow
    exact hkey ▸ hhad row (Table.mem_of_find hrow)
  have hdefault : (default : Db).feeGrantAllowance.find pair = none := rfl
  by_cases htouched : ∃ transaction ∈ chain, c.opsOf pair transaction ≠ []
  · obtain ⟨top, hmem, hne, hle⟩ :=
      exists_top (fun transaction : FullTx Msg => transaction.tx.height) htouched
    obtain ⟨op, hop⟩ := Option.ne_none_iff_exists'.mp (List.getLast?_eq_none_iff.not.mpr hne)
    have htop : ∀ other ∈ chain, c.opsOf pair other ≠ [] → other = top ∨
        other.tx.height < top.tx.height := by
      intro other hother hops
      rcases lt_or_eq_of_le (hle other hother hops) with hlt | heq
      · exact .inr hlt
      · exact .inl (hunclashed other hother top hmem hops hne heq)
    have hreplayed := (mem_replayed hsees).mpr ⟨hmem, found_of_opsOf hsees hmem hne⟩
    have hascending : (c.replayed grants revokes).Pairwise fun a b => a.tx.height ≤ b.tx.height :=
      fetched_ascending (knows_sorted hsees) (c.sort.ascending _)
    rw [run_of_top hascending hreplayed hop
        (fun other hother => htop other ((mem_replayed hsees).mp hother).1) ?_,
      run_of_top hsees.ascending hmem hop htop fun _ h => by simp [hdefault] at h]
    intro row hrow
    obtain ⟨transaction, htransaction, hsave⟩ := hstored row hrow
    have hheight : row.height = transaction.tx.height := stampOf_opsOf hsave
    exact hheight ▸ hle transaction htransaction (List.ne_nil_of_mem hsave)
  · have hnone : ∀ transactions : List (FullTx Msg), (∀ x ∈ transactions, x ∈ chain) →
        transactions.flatMap (c.opsOf pair) = [] := by
      intro transactions hin
      refine List.flatMap_eq_nil_iff.mpr fun x hx => by_contra fun hne => ?_
      exact htouched ⟨x, hin x hx, hne⟩
    have hempty : s.feeGrantAllowance.find pair = none := by
      cases hrow : s.feeGrantAllowance.find pair with
      | none => rfl
      | some row =>
        obtain ⟨transaction, htransaction, hsave⟩ := hstored row hrow
        exact absurd ⟨transaction, htransaction, List.ne_nil_of_mem hsave⟩ htouched
    rw [find_run, find_run, opsFor_flatMap, opsFor_flatMap, hempty,
      hnone _ fun x hx => ((mem_replayed hsees).mp hx).1, hnone chain fun _ h => h]
    rfl

def mergeByHeight : HeightSort where
  sorted txs := txs.mergeSort fun a b => decide (a.height ≤ b.height)
  perm txs := List.mergeSort_perm txs _
  ascending txs := by
    let le (a b : ResultTx) : Bool := decide (a.height ≤ b.height)
    have h : (txs.mergeSort le).Pairwise fun a b => le a b = true :=
      List.pairwise_mergeSort (fun a b c hab hbc => by simp only [le, decide_eq_true_eq] at *; omega)
        (fun a b => by simp only [le, Bool.or_eq_true, decide_eq_true_eq]; omega) txs
    exact h.imp of_decide_eq_true

def granting : FullTx Msg :=
  ⟨⟨1, "grant", "", [[]], []⟩, [.grantAllowance ⟨"granter", "grantee", ⟨"basic", "{}"⟩⟩]⟩

def renewing : FullTx Msg :=
  ⟨⟨2, "renew", "", [[]], []⟩,
    [.revokeAllowance ⟨"granter", "grantee"⟩,
      .grantAllowance ⟨"granter", "grantee", ⟨"basic", "{}"⟩⟩]⟩

def renewal : Command where
  module := plain
  txSearch query :=
    if query = grantQuery then TxSearch.strictNode [granting.result, renewing.result] query
    else TxSearch.strictNode [renewing.result] query
  tx hash := if hash = "grant" then .ok granting else .ok renewing
  sort := mergeByHeight

theorem renewal_sees : renewal.Sees [granting, renewing] [granting.result, renewing.result]
    [renewing.result] where
  ascending := by decide
  knows := ⟨by decide, by simp⟩
  serves_grants _ _ hle := if_pos hle
  serves_revokes _ _ hle := if_pos hle
  grants_found := by simp
  revokes_found := by simp [granting, renewing]
  decodes := by
    simp only [List.forall_mem_cons, granting, renewing]
    simp only [List.mem_cons, Msg.grantAllowance.injEq, reduceCtorEq, false_or, List.not_mem_nil,
      or_false, forall_eq]
    exact ⟨fun _ => ⟨_, rfl⟩, fun _ => ⟨_, rfl⟩, fun _ h => nomatch h⟩

theorem allowance_replays_renewal : ∃ t, Eff.Returns (renewal.allowance 1) default (some ()) t ∧
    t.feeGrantAllowance.find ("grantee", "granter") =
      some ⟨"grantee", "granter", "{}", 2⟩ := by
  have hgrants : TxSearch.lastPage [granting.result, renewing.result].length ≤ 1 := by decide
  obtain ⟨t, hreturns, hfind⟩ := allowance_replays renewal_sees hgrants (by decide)
    (s := default) (fun _ h => nomatch h)
  refine ⟨t, hreturns, (hfind _ ?_).trans (by decide)⟩
  unfold Command.Unclashed
  decide

end SafrochainIndexer.Callisto.Feegrant
