import SafrochainIndexer.Lib.Latest

/-!
# Registers of snapshots

Records are snapshots if their stamp says what they are: two of the same stamp
are equal. The newest of them is then the one with the largest stamp, however
often and in whatever order they are offered, and so is the row that a table of
the newest records holds under a key (`Latest.find_iff`).
-/

namespace SafrochainIndexer

namespace Register

variable {ρ τ : Type} [LinearOrder τ] (stamp : ρ → τ)

/-- Records of the same stamp are equal. -/
def Snapshots (rs : List ρ) : Prop := ∀ x ∈ rs, ∀ y ∈ rs, stamp x = stamp y → x = y

variable {stamp} {rs : List ρ} {r : ρ}

theorem newest_iff_of_snapshots (hs : Snapshots stamp rs) :
    Newest stamp rs r ↔ r ∈ rs ∧ ∀ x ∈ rs, stamp x ≤ stamp r := by
  refine ⟨fun h => ⟨h.mem, h.le⟩, ?_⟩
  rintro ⟨hr, hle⟩
  obtain ⟨top, htop⟩ : ∃ top, hold stamp none rs = some top :=
    exists_hold none (List.ne_nil_of_mem hr)
  have hnewest := newest_of_hold htop
  have hstamp : stamp top = stamp r := le_antisymm (hle top hnewest.mem) (hnewest.le r hr)
  exact hs top hnewest.mem r hr hstamp ▸ hnewest

end Register

section
variable {ρ κ τ : Type} [LinearOrder τ] [DecidableEq κ] {key : ρ → κ} {stamp : ρ → τ}
  {stored t : Table key} {saved : List ρ}

/-- The newest snapshots under a key are those of the largest stamp. -/
theorem Latest.find_iff (h : Latest stamp stored saved t) {k : κ}
    (hs : Register.Snapshots stamp (historyOf stored saved k)) {r : ρ} :
    t.find k = some r ↔ r ∈ historyOf stored saved k ∧
      ∀ x ∈ historyOf stored saved k, stamp x ≤ stamp r :=
  (h k r).trans (Register.newest_iff_of_snapshots hs)

end

end SafrochainIndexer
