import SafrochainIndexer.Callisto.Database
import Mathlib.Order.Basic

/-!
# Transactions handled again

The commands that repair a table search the node for transactions, fetch each of
them with its messages, and handle some of the messages again. The first error
ends them.
-/

namespace SafrochainIndexer.Callisto

structure FullTx (Msg : Type) where
  tx : Tx
  msgs : List Msg
  deriving DecidableEq, Repr

/-- What the commands use of `coretypes.ResultTx`. -/
structure ResultTx where
  height : Int
  hash : String
  deriving DecidableEq, Repr

theorem ok_of_toOption {α : Type} {x : Except String α} {a : α} (h : x.toOption = some a) :
    x = .ok a := by
  cases x with
  | error message => exact nomatch h
  | ok b => exact congrArg Except.ok (Option.some.inj h)

section
variable {Msg : Type}

def FullTx.result (transaction : FullTx Msg) : ResultTx :=
  ⟨transaction.tx.height, transaction.tx.txHash⟩

section
variable (node : String → Except String (FullTx Msg)) (handle : FullTx Msg → Msg × Nat → Eff Db Unit)

def handleAgain (tx : ResultTx) : Eff Db Unit := do
  let transaction ← Eff.ofExcept (node tx.hash)
  transaction.msgs.zipIdx.forM (handle transaction)

def fetched (txs : List ResultTx) : List (FullTx Msg) :=
  txs.filterMap fun tx => (node tx.hash).toOption

def afterMsgs (transaction : FullTx Msg) (s : Db) (msgs : List (Msg × Nat)) : Db :=
  msgs.foldl (fun s msg => (Eff.exec (handle transaction msg) s).2) s

def afterTxs (s : Db) (transactions : List (FullTx Msg)) : Db :=
  transactions.foldl (fun s transaction => afterMsgs handle transaction s transaction.msgs.zipIdx) s

/-- The node knows the transactions of a chain, and the search finds some of
them. -/
structure Knows (chain : List (FullTx Msg)) (txs : List ResultTx) : Prop where
  tx : ∀ transaction ∈ chain, node transaction.tx.txHash = .ok transaction
  found : ∀ tx ∈ txs, ∃ transaction ∈ chain, transaction.result = tx

end

variable {node : String → Except String (FullTx Msg)}
  {handle : FullTx Msg → Msg × Nat → Eff Db Unit} {chain : List (FullTx Msg)} {txs : List ResultTx}

theorem forM_msgs {α : Type} {Inv : List α → Db → Prop} {rows : Msg × Nat → List α}
    {transaction : FullTx Msg} {msgs : List (Msg × Nat)}
    (h : ∀ msg ∈ msgs, ∀ done s, Inv done s →
      ∃ t, Eff.Returns (handle transaction msg) s () t ∧ Inv (done ++ rows msg) t)
    {done : List α} {s : Db} (hs : Inv done s) :
    Eff.Returns (msgs.forM (handle transaction)) s ⟨⟩ (afterMsgs handle transaction s msgs) ∧
      Inv (done ++ msgs.flatMap rows) (afterMsgs handle transaction s msgs) := by
  induction msgs generalizing done s with
  | nil => exact ⟨Eff.returns_forM_nil.mpr rfl, (List.append_nil done).symm ▸ hs⟩
  | cons msg msgs ih =>
    obtain ⟨hmsg, hmsgs⟩ := List.forall_mem_cons.mp h
    obtain ⟨t, hreturns, ht⟩ := hmsg done s hs
    obtain ⟨hrest, hinv⟩ := ih hmsgs ht
    rw [afterMsgs, List.foldl_cons, hreturns.state, ← afterMsgs, List.flatMap_cons,
      ← List.append_assoc]
    exact ⟨Eff.returns_forM_cons.mpr ⟨t, hreturns, hrest⟩, hinv⟩

theorem Knows.fetch (h : Knows node chain txs) {tx : ResultTx} (hmem : tx ∈ txs) :
    ∃ transaction ∈ chain, transaction.result = tx ∧ node tx.hash = .ok transaction := by
  obtain ⟨transaction, hchain, rfl⟩ := h.found tx hmem
  exact ⟨transaction, hchain, rfl, h.tx transaction hchain⟩

theorem forM_handleAgain {α : Type} (Inv : List α → Db → Prop)
    (rows : FullTx Msg → Msg × Nat → List α) (hknows : Knows node chain txs)
    (h : ∀ transaction ∈ chain, ∀ msg ∈ transaction.msgs.zipIdx, ∀ done s, Inv done s →
      ∃ t, Eff.Returns (handle transaction msg) s () t ∧ Inv (done ++ rows transaction msg) t)
    {results : List ResultTx} (hresults : ∀ tx ∈ results, tx ∈ txs) (done : List α) {s : Db}
    (hs : Inv done s) :
    Eff.Returns (results.forM (handleAgain node handle)) s ⟨⟩
        (afterTxs handle s (fetched node results)) ∧
      Inv (done ++ (fetched node results).flatMap fun transaction =>
        transaction.msgs.zipIdx.flatMap (rows transaction))
        (afterTxs handle s (fetched node results)) := by
  induction results generalizing done s with
  | nil => exact ⟨Eff.returns_forM_nil.mpr rfl, (List.append_nil done).symm ▸ hs⟩
  | cons tx results ih =>
    obtain ⟨htx, hresults⟩ := List.forall_mem_cons.mp hresults
    obtain ⟨transaction, hchain, -, hnode⟩ := hknows.fetch htx
    obtain ⟨hmsgs, hinv⟩ := forM_msgs (h transaction hchain) hs
    have hround : Eff.Returns (handleAgain node handle tx) s ()
        (afterMsgs handle transaction s transaction.msgs.zipIdx) :=
      Eff.returns_bind.mpr ⟨transaction, s, Eff.returns_ofExcept.mpr ⟨hnode, rfl⟩, hmsgs⟩
    obtain ⟨hrest, hinv⟩ := ih hresults _ hinv
    have hfetched : fetched node (tx :: results) = transaction :: fetched node results := by
      rw [fetched, List.filterMap_cons, hnode]
      rfl
    rw [hfetched, List.flatMap_cons, ← List.append_assoc]
    exact ⟨Eff.returns_forM_cons.mpr ⟨_, hround, hrest⟩, hinv⟩

theorem mem_fetched (hknows : Knows node chain txs) {transaction : FullTx Msg} :
    transaction ∈ fetched node txs ↔ transaction ∈ chain ∧ transaction.result ∈ txs := by
  unfold fetched
  rw [List.mem_filterMap]
  constructor
  · rintro ⟨tx, htx, hfetch⟩
    obtain ⟨found, hchain, rfl, hnode⟩ := hknows.fetch htx
    rw [hnode] at hfetch
    obtain rfl := Option.some.inj hfetch
    exact ⟨hchain, htx⟩
  · rintro ⟨hchain, htx⟩
    refine ⟨_, htx, ?_⟩
    rw [show node transaction.result.hash = .ok transaction from hknows.tx transaction hchain]
    rfl

theorem fetched_ascending (hknows : Knows node chain txs)
    (hs : txs.Pairwise fun a b => a.height ≤ b.height) :
    (fetched node txs).Pairwise fun a b => a.tx.height ≤ b.tx.height := by
  have hheight : ∀ tx ∈ txs, ∀ transaction, (node tx.hash).toOption = some transaction →
      transaction.tx.height = tx.height := by
    intro tx htx transaction hfetch
    obtain ⟨found, -, rfl, hnode⟩ := hknows.fetch htx
    rw [hnode] at hfetch
    obtain rfl := Option.some.inj hfetch
    rfl
  refine List.pairwise_filterMap.mpr (hs.imp_of_mem fun {a b} ha hb hab => ?_)
  intro transaction hfetch later hlater
  rw [hheight a ha transaction hfetch, hheight b hb later hlater]
  exact hab

theorem fetched_results {transactions : List (FullTx Msg)}
    (h : ∀ transaction ∈ transactions, node transaction.tx.txHash = .ok transaction) :
    fetched node (transactions.map FullTx.result) = transactions := by
  unfold fetched
  rw [List.filterMap_map]
  refine (List.filterMap_congr fun transaction hmem => ?_).trans (List.filterMap_some)
  show (node transaction.tx.txHash).toOption = some transaction
  rw [h transaction hmem]
  rfl

end

end SafrochainIndexer.Callisto
