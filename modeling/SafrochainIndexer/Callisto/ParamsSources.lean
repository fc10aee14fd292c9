import SafrochainIndexer.Callisto.Params

/-!
# Sources of parameters

How the remote and the local source of the slashing, staking and mint modules
ask a node for parameters. Four of the six turn the error of the query into the
zero value, which `UpdateParams` then stores as if the chain had said so.
-/

namespace SafrochainIndexer.Callisto

/-- A node as the source of one module sees it. `loadHeight` is that of a local
node, `params` the query in the context of a height. -/
structure ParamsNode where
  loadHeight : Int → Except String Unit
  params : Int → Except String String

/-- `if err != nil { return Params{}, nil }`. -/
def orZero (zero : String) : Except String String → Except String String
  | .ok params => .ok params
  | .error _ => .ok zero

/-- `ctx, err := s.LoadHeight(height)`. -/
def ParamsNode.context (node : ParamsNode) (height : Int) : Except String Unit :=
  (node.loadHeight height).mapError ("error while loading height: " ++ ·)

section
variable (zero : String) (node : ParamsNode) (height : Int)

def Slashing.remoteGetParams : Except String String := orZero zero (node.params height)

def Slashing.localGetParams : Except String String := do
  node.context height
  orZero zero (node.params height)

def Staking.remoteGetParams : Except String String := node.params height

def Staking.localGetParams : Except String String := do
  node.context height
  orZero zero (node.params height)

def Mint.remoteParams : Except String String := orZero zero (node.params height)

def Mint.localParams : Except String String := do
  node.context height
  node.params height

end

inductive SourceKind
  | remote
  | local
  deriving DecidableEq, Repr

inductive ParamsModule
  | slashing
  | staking
  | mint
  deriving DecidableEq, Repr

namespace ParamsModule

def getParams (zero : String) (node : ParamsNode) (height : Int) :
    ParamsModule → SourceKind → Except String String
  | .slashing, .remote => Slashing.remoteGetParams zero node height
  | .slashing, .local => Slashing.localGetParams zero node height
  | .staking, .remote => Staking.remoteGetParams node height
  | .staking, .local => Staking.localGetParams zero node height
  | .mint, .remote => Mint.remoteParams zero node height
  | .mint, .local => Mint.localParams node height

def table : ParamsModule → Relation Db (oneRowId (ρ := ParamsRow))
  | .slashing => slashingParamsTable
  | .staking => stakingParamsTable
  | .mint => mintParamsTable

def updateParams : ParamsModule → ParamsSource → Int → Eff Db Unit
  | .slashing => Slashing.updateParams
  | .staking => Staking.updateParams
  | .mint => Mint.updateParams

end ParamsModule

def ParamsNode.source (node : ParamsNode) (zero : String) (marshal : String → Except String String)
    (m : ParamsModule) (kind : SourceKind) : ParamsSource where
  params height := m.getParams zero node height kind
  marshal := marshal

-- ---------------------------------------------------------------------------
-- Failed queries
-- ---------------------------------------------------------------------------

/-- An RPC error, or a height that a local node does not have. -/
def ParamsNode.Fails (node : ParamsNode) (height : Int) : SourceKind → Prop
  | .remote => ∃ message, node.params height = .error message
  | .local => (∃ message, node.loadHeight height = .error message) ∨
      ∃ message, node.params height = .error message

/-- The source returns an error for the failure. -/
def ParamsNode.Reports (node : ParamsNode) (height : Int) : ParamsModule → SourceKind → Prop
  | .staking, .remote => True
  | .mint, .local => True
  | _, .remote => False
  | _, .local => ∃ message, node.loadHeight height = .error message

def FailsCleanly (call : Eff Db Unit) (s : Db) : Prop :=
  ∃ message, Eff.exec call s = (.error (.error message), s)

section
variable {zero : String} {node : ParamsNode} {height : Int} {marshal : String → Except String String}

@[simp] theorem orZero_error (zero message : String) : orZero zero (.error message) = .ok zero := rfl

theorem context_error {message : String} (h : node.loadHeight height = .error message) :
    node.context height = .error ("error while loading height: " ++ message) := by
  rw [ParamsNode.context, h]
  rfl

theorem context_ok (h : node.loadHeight height = .ok ()) : node.context height = .ok () := by
  rw [ParamsNode.context, h]
  rfl

/-- A failure that is not reported comes back as the zero value. -/
theorem getParams_of_fails {m : ParamsModule} {kind : SourceKind} (hf : node.Fails height kind) :
    (∃ message, m.getParams zero node height kind = .error message) ∧ node.Reports height m kind ∨
      m.getParams zero node height kind = .ok zero ∧ ¬ node.Reports height m kind := by
  cases kind with
  | remote =>
    obtain ⟨message, hquery⟩ := hf
    cases m with
    | slashing => exact .inr ⟨by simp [ParamsModule.getParams, Slashing.remoteGetParams, hquery], id⟩
    | staking => exact .inl ⟨⟨message, hquery⟩, trivial⟩
    | mint => exact .inr ⟨by simp [ParamsModule.getParams, Mint.remoteParams, hquery], id⟩
  | «local» =>
    cases hload : node.loadHeight height with
    | error message =>
      have hcontext := context_error hload
      cases m with
      | slashing =>
        exact .inl ⟨⟨_, by rw [ParamsModule.getParams, Slashing.localGetParams, hcontext]; rfl⟩,
          _, hload⟩
      | staking =>
        exact .inl ⟨⟨_, by rw [ParamsModule.getParams, Staking.localGetParams, hcontext]; rfl⟩,
          _, hload⟩
      | mint =>
        exact .inl ⟨⟨_, by rw [ParamsModule.getParams, Mint.localParams, hcontext]; rfl⟩, trivial⟩
    | ok _ =>
      have hcontext := context_ok hload
      obtain ⟨message, hquery⟩ : ∃ message, node.params height = .error message :=
        hf.resolve_left fun ⟨message, h⟩ => nomatch hload.symm.trans h
      have hsilent : ¬ ∃ message, node.loadHeight height = .error message :=
        fun ⟨message, h⟩ => nomatch hload.symm.trans h
      cases m with
      | slashing =>
        refine .inr ⟨?_, hsilent⟩
        rw [ParamsModule.getParams, Slashing.localGetParams, hcontext, hquery]
        rfl
      | staking =>
        refine .inr ⟨?_, hsilent⟩
        rw [ParamsModule.getParams, Staking.localGetParams, hcontext, hquery]
        rfl
      | mint =>
        refine .inl ⟨⟨message, ?_⟩, trivial⟩
        rw [ParamsModule.getParams, Mint.localParams, hcontext, hquery]
        rfl

theorem updateParamsOf_outcome (getting marshaling storing : String)
    (table : Relation Db (oneRowId (ρ := ParamsRow))) (hfree : ∀ s row, table.violation s row = none)
    (source : ParamsSource) (height : Int) (s : Db) :
    Eff.exec (updateParamsOf getting marshaling storing table source height) s =
      match source.params height with
      | .error message => (.error (.error (getting ++ message)), s)
      | .ok params =>
        match source.marshal params with
        | .error message => (.error (.error (marshaling ++ message)), s)
        | .ok paramsBz =>
          (.ok (), table.write ((table.read s).upsert paramsConflict ⟨paramsBz, height⟩) s) := by
  unfold updateParamsOf
  rw [Eff.exec_wrap_ofExcept_bind]
  cases source.params height with
  | error message => rfl
  | ok params =>
    dsimp only
    rw [Eff.exec_wrap_ofExcept_bind]
    cases source.marshal params with
    | error message => rfl
    | ok paramsBz =>
      have hinsert : Eff.Returns (table.insert paramsConflict [⟨paramsBz, height⟩]) s () _ :=
        paramsConflict_guards.insert_ok (List.nodup_singleton _) fun _ _ => hfree ..
      exact Eff.returns_wrap.mpr hinsert

theorem ParamsModule.updateParams_eq (m : ParamsModule) :
    ∃ getting marshaling storing,
      m.updateParams = updateParamsOf getting marshaling storing m.table := by
  cases m <;> exact ⟨_, _, _, rfl⟩

theorem ParamsModule.table_free (m : ParamsModule) (s : Db) (row : ParamsRow) :
    m.table.violation s row = none := by
  cases m <;> rfl

theorem ParamsModule.updateParams_fails (m : ParamsModule) {source : ParamsSource} {height : Int}
    {message : String} (h : source.params height = .error message) (s : Db) :
    FailsCleanly (m.updateParams source height) s := by
  obtain ⟨getting, marshaling, storing, heq⟩ := m.updateParams_eq
  have hexec := updateParamsOf_outcome getting marshaling storing m.table m.table_free source height s
  rw [h] at hexec
  rw [heq]
  exact ⟨_, hexec⟩

theorem ParamsModule.updateParams_returns (m : ParamsModule) {source : ParamsSource} {height : Int}
    {params paramsBz : String} (h : source.params height = .ok params)
    (hmarshal : source.marshal params = .ok paramsBz) (s : Db) :
    Eff.Returns (m.updateParams source height) s ()
      (m.table.write ((m.table.read s).upsert paramsConflict ⟨paramsBz, height⟩) s) := by
  obtain ⟨getting, marshaling, storing, heq⟩ := m.updateParams_eq
  have hexec := updateParamsOf_outcome getting marshaling storing m.table m.table_free source height s
  rw [h] at hexec
  dsimp only at hexec
  rw [hmarshal] at hexec
  rw [heq]
  exact hexec

/-- A failed query whose failure is not reported overwrites the parameters, unless
those that are stored are newer. -/
theorem failed_query_overwrites {m : ParamsModule} {kind : SourceKind}
    (hf : node.Fails height kind) (hr : ¬ node.Reports height m kind) {zeroBz : String}
    (hzero : marshal zero = .ok zeroBz) (s : Db) :
    Eff.Returns (m.updateParams (node.source zero marshal m kind) height) s ()
      (m.table.write ((m.table.read s).upsert paramsConflict ⟨zeroBz, height⟩) s) := by
  have hget : m.getParams zero node height kind = .ok zero :=
    ((getParams_of_fails hf).resolve_left fun h => hr h.2).1
  exact m.updateParams_returns hget hzero s

end

/-- `UpdateParams` answers a failed query with an error, and leaves everything as
it was, exactly if its source reports the failure. -/
theorem failed_query_iff (m : ParamsModule) (kind : SourceKind) {zero zeroBz : String}
    {marshal : String → Except String String} (hzero : marshal zero = .ok zeroBz) (node : ParamsNode)
    {height : Int} (hf : node.Fails height kind) (s : Db) :
    FailsCleanly (m.updateParams (node.source zero marshal m kind) height) s ↔
      node.Reports height m kind := by
  constructor
  · rintro ⟨message, hfail⟩
    by_contra hr
    have hret := failed_query_overwrites hf hr hzero s
    exact nomatch congrArg Prod.fst (hfail.symm.trans hret)
  · intro hr
    obtain ⟨⟨message, hget⟩, -⟩ := (getParams_of_fails hf).resolve_right fun h => h.2 hr
    exact m.updateParams_fails hget s

def deadNode : ParamsNode := ⟨fun _ => .error "version does not exist", fun _ => .error "unavailable"⟩

def storedParams : Db :=
  { (default : Db) with
    slashingParams := Table.empty.upsert .ignore ⟨"\x7b\"signed_blocks_window\":\"100\"\x7d", 5⟩ }

theorem failed_query_local_slashing :
    FailsCleanly (ParamsModule.slashing.updateParams
      (deadNode.source "\x7b\x7d" .ok .slashing .local) 7) storedParams :=
  (failed_query_iff .slashing .local rfl deadNode (.inl ⟨_, rfl⟩) storedParams).mpr ⟨_, rfl⟩

/-- The remote source loses the error, and the parameters are overwritten. -/
theorem failed_query_stores_zero :
    deadNode.Fails 7 .remote ∧
      ¬ FailsCleanly (ParamsModule.slashing.updateParams (deadNode.source "\x7b\x7d" .ok .slashing .remote) 7)
        storedParams ∧
      ((Eff.exec (ParamsModule.slashing.updateParams (deadNode.source "\x7b\x7d" .ok .slashing .remote) 7)
        storedParams).2.slashingParams.find ()) = some ⟨"\x7b\x7d", 7⟩ := by
  have hf : deadNode.Fails 7 .remote := ⟨_, rfl⟩
  refine ⟨hf, ?_, by decide⟩
  rintro ⟨message, hfail⟩
  have hret : Eff.Returns (ParamsModule.slashing.updateParams
      (deadNode.source "\x7b\x7d" .ok .slashing .remote) 7) storedParams () _ :=
    failed_query_overwrites hf id rfl storedParams
  exact nomatch congrArg Prod.fst (hfail.symm.trans hret)

end SafrochainIndexer.Callisto
