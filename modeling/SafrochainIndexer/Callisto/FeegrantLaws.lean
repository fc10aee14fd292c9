import SafrochainIndexer.Callisto.Feegrant

/-!
# Fee grants handled in any order

For one grantee and granter the table is a register with removals
(`find_run`), whatever the handlings are and whether or not they succeed.
`run_same_iff` says which orders of handling end as the order of the chain
does.
-/

namespace SafrochainIndexer.Callisto

theorem feeGrantAllowanceConflict_guards :
    feeGrantAllowanceConflict.Guards FeeGrantAllowanceRow.height where
  set_eq stored excluded hk := by
    cases stored; cases excluded
    simpa [feeGrantAllowanceConflict, FeeGrantAllowanceRow.uniqueFeeGrantAllowance] using hk
  guard_iff _ _ := decide_eq_true_iff

/-- The accounts come first, so a grant whose allowance can be marshalled is
stored. -/
theorem saveFeeGrantAllowance_state (protoMarshalJSON : Any → Except String String)
    (allowance : FeeGrant) (s : Db) :
    (Eff.exec (saveFeeGrantAllowance protoMarshalJSON allowance) s).2.feeGrantAllowance =
      match protoMarshalJSON allowance.allowance with
      | .ok json => s.feeGrantAllowance.upsert feeGrantAllowanceConflict
          ⟨allowance.grantee, allowance.granter, json, allowance.height⟩
      | .error _ => s.feeGrantAllowance := by
  have haccounts : Eff.Returns (saveAccounts [⟨allowance.granter⟩, ⟨allowance.grantee⟩]) s ()
      (s.addAccounts [⟨allowance.granter⟩, ⟨allowance.grantee⟩]) :=
    saveAccounts_short s (by simp [maxPostgreSQLParams])
  have hgranter := (hasAccount_addAccounts s [⟨allowance.granter⟩, ⟨allowance.grantee⟩]
    allowance.granter).mpr (by simp)
  have hgrantee := (hasAccount_addAccounts s [⟨allowance.granter⟩, ⟨allowance.grantee⟩]
    allowance.grantee).mpr (by simp)
  rw [saveFeeGrantAllowance, (Eff.returns_wrap.mpr haccounts).exec_bind, Eff.exec_wrap_ofExcept_bind]
  cases protoMarshalJSON allowance.allowance with
  | error message => rfl
  | ok json =>
    have hrow : ∀ r ∈ [(⟨allowance.grantee, allowance.granter, json, allowance.height⟩ :
        FeeGrantAllowanceRow)], feeGrantAllowanceTable.violation
          (s.addAccounts [⟨allowance.granter⟩, ⟨allowance.grantee⟩]) r = none := by
      intro r hr
      have he := List.mem_singleton.mp hr
      subst he
      simp [feeGrantAllowanceTable, hgranter, hgrantee]
    have hins := feeGrantAllowanceConflict_guards.insert_ok (by simp) hrow
    simp only
    rw [(Eff.returns_wrap.mpr hins).state]
    rfl

theorem find_delete_feeGrantAllowance (allowance : GrantRemoval) (s : Db) (pair : String × String) :
    (Eff.exec (deleteFeeGrantAllowance allowance) s).2.feeGrantAllowance.find pair =
      if (allowance.grantee, allowance.granter) = pair then
        (s.feeGrantAllowance.find pair).filter fun r => !decide (r.height ≤ allowance.height)
      else s.feeGrantAllowance.find pair := by
  rw [deleteFeeGrantAllowance, Eff.exec_wrap]
  change ((s.feeGrantAllowance.delete _).find pair) = _
  rw [Table.find_delete]
  cases hf : s.feeGrantAllowance.find pair with
  | none => simp
  | some r =>
    have hk : r.uniqueFeeGrantAllowance = pair := Table.find_key hf
    subst hk
    simp only [FeeGrantAllowanceRow.uniqueFeeGrantAllowance]
    by_cases hp : (allowance.grantee, allowance.granter) = (r.granteeAddress, r.granterAddress)
    · simp only [Prod.mk.injEq] at hp
      simp [hp, Option.filter]
    · have hne : ¬ (r.granteeAddress = allowance.grantee ∧ r.granterAddress = allowance.granter) :=
        fun h => hp (by rw [h.1, h.2])
      simp only [hp, if_false, Option.filter]
      simp only [← and_assoc, hne, false_and, decide_false, Bool.not_false, if_true]

namespace Feegrant

variable (m : Module)

def applyOp (held : Option FeeGrantAllowanceRow) :
    Option (Register.Op FeeGrantAllowanceRow Int) → Option FeeGrantAllowanceRow
  | none => held
  | some op => Register.apply FeeGrantAllowanceRow.height held op

theorem handleMsgGrantAllowance_state (tx : Tx) (msg : MsgGrantAllowance) (s : Db) :
    (Eff.exec (m.handleMsgGrantAllowance tx msg) s).2.feeGrantAllowance =
      match m.grantRow tx msg with
      | .ok r => s.feeGrantAllowance.upsert feeGrantAllowanceConflict r
      | .error _ => s.feeGrantAllowance := by
  simp only [Module.handleMsgGrantAllowance, Module.grantRow, Eff.exec_wrap_ofExcept_bind]
  cases m.getFeeAllowanceI msg with
  | error _ => rfl
  | ok allowance =>
    cases m.accAddressFromBech32 msg.granter with
    | error _ => rfl
    | ok granter =>
      cases m.accAddressFromBech32 msg.grantee with
      | error _ => rfl
      | ok grantee =>
        cases hg : m.newGrant granter grantee allowance with
        | error _ => simp [hg, bind, Except.bind]
        | ok grant =>
          obtain ⟨granter', grantee', allowance'⟩ := grant
          simp only [hg, saveFeeGrantAllowance_state, bind, Except.bind]
          cases m.protoMarshalJSON allowance' with
          | error _ => rfl
          | ok json => rfl

theorem find_handleMsgGrantAllowance (tx : Tx) (msg : MsgGrantAllowance) (s : Db)
    (pair : String × String) :
    (Eff.exec (m.handleMsgGrantAllowance tx msg) s).2.feeGrantAllowance.find pair =
      applyOp (s.feeGrantAllowance.find pair)
        (match m.grantRow tx msg with
        | .ok r => if r.uniqueFeeGrantAllowance = pair then some (.save r) else none
        | .error _ => none) := by
  rw [handleMsgGrantAllowance_state]
  cases m.grantRow tx msg with
  | error _ => rfl
  | ok r =>
    simp only
    split
    · rename_i hk
      subst hk
      rw [Table.find_upsert_same,
        feeGrantAllowanceConflict_guards.resolve_eq fun o ho => Table.find_key ho]
      rfl
    · rename_i hk
      exact Table.find_upsert_ne _ _ (Ne.symm hk)

theorem deleteFeeGrantAllowance_returns (allowance : GrantRemoval) (s : Db) :
    Eff.Returns (deleteFeeGrantAllowance allowance) s ()
      (Eff.exec (deleteFeeGrantAllowance allowance) s).2 := by
  simp [deleteFeeGrantAllowance, Eff.exec_wrap, Relation.delete]

theorem removeExpired_ok {height : Int} {event : Event} {pair : String × String} (s : Db)
    (h : m.pairOf event = .ok pair) :
    Eff.Returns (m.removeExpired height event) s ()
      (Eff.exec (deleteFeeGrantAllowance ⟨pair.1, pair.2, height⟩) s).2 := by
  simp only [Module.pairOf, Eff.bind_ok, Eff.pure_ok] at h
  obtain ⟨granter, hgranter, grantee, hgrantee, rfl⟩ := h
  unfold Module.removeExpired Eff.Returns
  simp only [Eff.exec_wrap_ofExcept_bind, hgranter, hgrantee]
  exact Eff.returns_wrap.mpr (deleteFeeGrantAllowance_returns ..)

theorem removeExpired_error (height : Int) {event : Event} {message : String} (s : Db)
    (h : m.pairOf event = .error message) :
    ∃ fault, Eff.exec (m.removeExpired height event) s = (.error fault, s) := by
  unfold Module.pairOf at h
  unfold Module.removeExpired
  rw [Eff.exec_wrap_ofExcept_bind]
  cases hgranter : m.findAttributeByKey event "granter" with
  | error _ => exact ⟨_, rfl⟩
  | ok granter =>
    simp only [Eff.exec_wrap_ofExcept_bind]
    cases hgrantee : m.findAttributeByKey event "grantee" with
    | error _ => exact ⟨_, rfl⟩
    | ok grantee => simp [hgranter, hgrantee, bind, Except.bind, pure, Except.pure] at h

theorem find_removeExpired (height : Int) (events : List Event) (s : Db) (pair : String × String) :
    (Eff.exec (events.forM (m.removeExpired height)) s).2.feeGrantAllowance.find pair =
      applyOp (s.feeGrantAllowance.find pair)
        (if pair ∈ m.expiredPairs events then some (.remove height) else none) := by
  induction events generalizing s with
  | nil => rfl
  | cons event events ih =>
    cases hp : m.pairOf event with
    | error message =>
      obtain ⟨fault, hf⟩ := removeExpired_error m height s hp
      rw [Eff.exec_forM_cons_error hf]
      simp [Module.expiredPairs, hp, applyOp]
    | ok named =>
      rw [(removeExpired_ok m s hp).exec_forM_cons, ih, find_delete_feeGrantAllowance]
      simp only [Module.expiredPairs, hp, List.mem_cons]
      by_cases hn : named = pair
      · subst hn
        simp only [if_true, true_or]
        split
        · simp [applyOp, Register.apply, Option.filter_filter]
        · rfl
      · simp [hn, Ne.symm hn]

/-- A handling does to the row of a pair what `opFor` says, and nothing else. -/
theorem find_handle (handling : Handling) (s : Db) (pair : String × String) :
    (Eff.exec (m.handle handling) s).2.feeGrantAllowance.find pair =
      applyOp (s.feeGrantAllowance.find pair) (m.opFor pair handling) := by
  cases handling with
  | msg tx index msg =>
    simp only [Module.handle, Module.handleMsg, Module.opFor]
    split
    · rfl
    · cases msg with
      | grantAllowance msg => exact find_handleMsgGrantAllowance ..
      | revokeAllowance msg =>
        simp only [handleMsgRevokeAllowance, find_delete_feeGrantAllowance]
        split
        · rfl
        · rfl
      | other => rfl
  | block height events =>
    simp only [Module.handle, Module.handleBlock, Eff.exec_attempt_state, Module.opFor]
    exact find_removeExpired ..

theorem find_run (handlings : List Handling) (s : Db) (pair : String × String) :
    (m.run s handlings).feeGrantAllowance.find pair =
      Register.run FeeGrantAllowanceRow.height (s.feeGrantAllowance.find pair)
        (m.opsFor pair handlings) := by
  induction handlings generalizing s with
  | nil => rfl
  | cons handling handlings ih =>
    rw [Module.run, List.foldl_cons, ← Module.run, ih, find_handle, Module.opsFor, Module.opsFor]
    cases hop : m.opFor pair handling with
    | none => simp [hop, applyOp]
    | some op => simp [hop, applyOp, Register.run]

-- ---------------------------------------------------------------------------
-- Orders
-- ---------------------------------------------------------------------------

theorem grantRow_height {tx : Tx} {msg : MsgGrantAllowance} {r : FeeGrantAllowanceRow}
    (h : m.grantRow tx msg = .ok r) : r.height = tx.height := by
  simp only [Module.grantRow, Eff.bind_ok, Eff.pure_ok] at h
  obtain ⟨-, -, -, -, -, -, -, -, -, -, rfl⟩ := h
  rfl

theorem stampOf_opFor {handling : Handling} {pair : String × String}
    {op : Register.Op FeeGrantAllowanceRow Int} (h : m.opFor pair handling = some op) :
    op.stampOf FeeGrantAllowanceRow.height = handling.height := by
  cases handling with
  | msg tx index msg =>
    simp only [Module.opFor] at h
    split at h
    · cases h
    · cases msg with
      | grantAllowance msg =>
        cases hr : m.grantRow tx msg with
        | error _ => simp [hr] at h
        | ok r =>
          simp only [hr] at h
          split at h
          · cases h
            exact grantRow_height m hr
          · cases h
      | revokeAllowance msg =>
        simp only at h
        split at h
        · cases h
          rfl
        · cases h
      | other => cases h
  | block height events =>
    simp only [Module.opFor] at h
    split at h
    · cases h
      rfl
    · cases h

/-- An order of handling leaves the grants that the order of the chain leaves
exactly if, for each pair whose highest operation removes it, every grant is
followed by a removal that is not below it. -/
theorem run_same_iff (s : Db) {handlings chain : List Handling} (hp : handlings.Perm chain)
    (hc : chain.Pairwise fun a b => a.height < b.height) :
    (m.run s handlings).feeGrantAllowance.Same (m.run s chain).feeGrantAllowance ↔
      ∀ pair,
        Register.EndsRemoved FeeGrantAllowanceRow.height (s.feeGrantAllowance.find pair)
            (m.opsFor pair handlings) →
          Register.Covered FeeGrantAllowanceRow.height (m.opsFor pair handlings) := by
  refine forall_congr' fun pair => ?_
  have hsorted : (m.opsFor pair chain).Pairwise fun a b =>
      a.stampOf FeeGrantAllowanceRow.height < b.stampOf FeeGrantAllowanceRow.height := by
    refine hc.filterMap _ fun a b hab op hop op' hop' => ?_
    rw [stampOf_opFor m hop, stampOf_opFor m hop']
    exact hab
  rw [find_run, find_run]
  exact Register.run_eq_iff_covered hsorted (hp.filterMap _)

def plain : Module where
  getFeeAllowanceI msg := .ok msg.allowance
  accAddressFromBech32 := .ok
  newGrant granter grantee allowance := .ok (granter, grantee, allowance)
  protoMarshalJSON allowance := .ok allowance.value
  findEventsByType events type := events.filter fun event => event.type = type
  findAttributeByKey event key :=
    match event.attributes.find? fun a => a.key = key with
    | some a => .ok a
    | none => .error s!"no attribute with key {key} found inside event with type {event.type}"

def grantAt (height : Int) : Handling :=
  .msg ⟨height, "grant", "", [[]], []⟩ 0 (.grantAllowance ⟨"granter", "grantee", ⟨"basic", "{}"⟩⟩)

def revokeAt (height : Int) : Handling :=
  .msg ⟨height, "revoke", "", [[]], []⟩ 0 (.revokeAllowance ⟨"granter", "grantee"⟩)

/-- Two grants and a revocation between them, the first grant handled last. -/
theorem run_same_iff_regrant :
    (plain.run default [revokeAt 2, grantAt 3, grantAt 1]).feeGrantAllowance.Same
      (plain.run default [grantAt 1, revokeAt 2, grantAt 3]).feeGrantAllowance := by
  refine (run_same_iff plain default (by decide) (by decide)).mpr fun pair he => ?_
  obtain ⟨h, hm, hle, -⟩ := he
  by_cases hpair : pair = ("grantee", "granter")
  · subst hpair
    have hops : plain.opsFor ("grantee", "granter") [revokeAt 2, grantAt 3, grantAt 1] =
        [.remove 2, .save ⟨"grantee", "granter", "\x7b\x7d", 3⟩,
          .save ⟨"grantee", "granter", "\x7b\x7d", 1⟩] := rfl
    rw [hops] at hm hle
    have htop : h = 2 := by simpa using hm
    have h3 := hle (.save ⟨"grantee", "granter", "\x7b\x7d", 3⟩) (by simp)
    subst htop
    simp [Register.Op.stampOf] at h3
  · have hops : plain.opsFor pair [revokeAt 2, grantAt 3, grantAt 1] = [] := by
      have hne : ("grantee", "granter") ≠ pair := Ne.symm hpair
      simp [Module.opsFor, Module.opFor, revokeAt, grantAt, Module.grantRow, plain, bind,
        Except.bind, pure, Except.pure, FeeGrantAllowanceRow.uniqueFeeGrantAllowance, hne]
    simp [hops] at hm

/-- A grant handled after the revocation that follows it on the chain is stored
again. -/
theorem revoked_grant_returns :
    ¬ (plain.run default [revokeAt 2, grantAt 1]).feeGrantAllowance.Same
      (plain.run default [grantAt 1, revokeAt 2]).feeGrantAllowance := by
  intro h
  have hpair := h ("grantee", "granter")
  revert hpair
  decide

end Feegrant

end SafrochainIndexer.Callisto
