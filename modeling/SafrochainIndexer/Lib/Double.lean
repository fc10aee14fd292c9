import Mathlib.Data.Int.Log
import Mathlib.Data.Rat.Floor
import Mathlib.Algebra.Order.Archimedean.Basic
import Mathlib.Tactic.Linarith
import Mathlib.Tactic.FieldSimp
import Mathlib.Tactic.NormNum
import Mathlib.Tactic.Positivity
import Mathlib.Tactic.Ring

/-!
# Doubles

The doubles that arise from natural numbers by division and rounding: not negative,
infinite or not a number. A result is the double nearest to the exact one, the even
one of two.

A quotient whose dividend is below `2^52` rounds to the integer that the exact one
rounds to (`round_div_ofRat`); beyond that a quotient is short of the exact one by a
part in `2^52` at most (`lt_of_round_div`).
-/

namespace SafrochainIndexer

/-- The distance of doubles at `x`: 53 binary digits, none below `2^-1074`. -/
def spacing (x : Rat) : Rat := 2 ^ max (Int.log 2 x - 52) (-1074)

/-- The integer nearest to `x`, the even one of two. -/
def roundEven (x : Rat) : Int :=
  if x - ⌊x⌋ < 1 / 2 then ⌊x⌋
  else if 1 / 2 < x - ⌊x⌋ then ⌊x⌋ + 1
  else if 2 ∣ ⌊x⌋ then ⌊x⌋
  else ⌊x⌋ + 1

def nearest (x : Rat) : Rat := roundEven (x / spacing x) * spacing x

inductive Double
  | nan
  | infinity
  | finite (x : Rat)
  deriving DecidableEq, Repr

namespace Double

def ofRat (x : Rat) : Double := if nearest x < 2 ^ 1024 then finite (nearest x) else infinity

def div : Double → Nat → Double
  | finite x, n => ofRat (x / n)
  | x, _ => x

/-- The nearest integer, the larger one of two. -/
def round : Double → Double
  | finite x => finite ⌊x + 1 / 2⌋
  | x => x

end Double

-- ---------------------------------------------------------------------------
-- Nearest doubles
-- ---------------------------------------------------------------------------

section
variable {x : Rat}

theorem abs_roundEven_sub_le (x : Rat) : |(roundEven x : Rat) - x| ≤ 1 / 2 := by
  have hlow := Int.floor_le x
  have hhigh := Int.lt_floor_add_one x
  unfold roundEven
  rw [abs_le]
  split_ifs <;> push_cast <;> constructor <;> linarith

theorem roundEven_intCast (n : Int) : roundEven (n : Rat) = n := by
  simp [roundEven]

theorem spacing_pos (x : Rat) : 0 < spacing x := zpow_pos (by norm_num) _

theorem abs_nearest_sub_le (x : Rat) : |nearest x - x| ≤ spacing x / 2 := by
  have hpos := spacing_pos x
  have hround := abs_roundEven_sub_le (x / spacing x)
  have hsplit : nearest x - x = (roundEven (x / spacing x) - x / spacing x) * spacing x := by
    unfold nearest
    field_simp
  rw [hsplit, abs_mul, abs_of_pos hpos]
  nlinarith

theorem nearest_eq_self {n : Int} (h : x = n * spacing x) : nearest x = x := by
  have hquot : x / spacing x = n := by
    rw [div_eq_iff (spacing_pos x).ne']
    exact h
  rw [nearest, hquot, roundEven_intCast]
  exact h.symm

theorem spacing_le (h : 2 ^ (-1022 : Int) ≤ x) : spacing x ≤ x / 2 ^ 52 := by
  have hpos : 0 < x := lt_of_lt_of_le (zpow_pos (by norm_num) _) h
  have hlog : -1022 ≤ Int.log 2 x :=
    (Int.zpow_le_iff_le_log (b := 2) (by norm_num) hpos).mp (by exact_mod_cast h)
  have hself : (2 : Rat) ^ Int.log 2 x ≤ x := by
    exact_mod_cast Int.zpow_log_le_self (b := 2) (by norm_num) hpos
  have hmax : max (Int.log 2 x - 52) (-1074) = Int.log 2 x - 52 := max_eq_left (by omega)
  rw [spacing, hmax, zpow_sub₀ (by norm_num)]
  exact div_le_div_of_nonneg_right hself (by positivity)

/-- The nearest double is off by a part in `2^53` at most. -/
theorem abs_nearest_sub_le_part (h : 2 ^ (-1022 : Int) ≤ x) :
    |nearest x - x| ≤ x / 2 ^ 53 := by
  have hclose := abs_nearest_sub_le x
  have hspacing := spacing_le h
  have hhalf : x / 2 ^ 52 / 2 = x / 2 ^ 53 := by ring
  linarith

/-- Halves of integers up to `2^52` are doubles. -/
theorem nearest_half {n : Nat} (h : n ≤ 2 ^ 53) : nearest ((n : Rat) / 2) = (n : Rat) / 2 := by
  rcases Nat.eq_zero_or_pos n with rfl | hn
  · exact nearest_eq_self (n := 0) (by simp)
  · have hpos : (0 : Rat) < (n : Rat) / 2 := by positivity
    have hlow : -1 ≤ Int.log 2 ((n : Rat) / 2) := by
      refine (Int.zpow_le_iff_le_log (b := 2) (by norm_num) hpos).mp ?_
      have hone : (1 : Rat) ≤ n := by exact_mod_cast hn
      norm_num
      linarith
    have hmax : max (Int.log 2 ((n : Rat) / 2) - 52) (-1074) = Int.log 2 ((n : Rat) / 2) - 52 :=
      max_eq_left (by omega)
    have hspacing : spacing ((n : Rat) / 2) = 2 ^ (Int.log 2 ((n : Rat) / 2) - 52) := by
      rw [spacing, hmax]
    rcases h.lt_or_eq with hlt | rfl
    · have hhigh : Int.log 2 ((n : Rat) / 2) < 52 := by
        refine (Int.lt_zpow_iff_log_lt (b := 2) (by norm_num) hpos).mp ?_
        have hlt' : (n : Rat) < 9007199254740992 := by exact_mod_cast hlt
        norm_num
        linarith
      obtain ⟨k, hk⟩ : ∃ k : Nat, 51 - Int.log 2 ((n : Rat) / 2) = k :=
        ⟨(51 - Int.log 2 ((n : Rat) / 2)).toNat, by omega⟩
      refine nearest_eq_self (n := n * 2 ^ k) ?_
      have hexp : Int.log 2 ((n : Rat) / 2) - 52 = -1 - k := by omega
      rw [hspacing, hexp, zpow_sub₀ (by norm_num), zpow_natCast]
      push_cast
      field_simp
    · have hlog : Int.log 2 (((2 ^ 53 : Nat) : Rat) / 2) = 52 := by
        have hpow : ((2 ^ 53 : Nat) : Rat) / 2 = ((2 : Nat) : Rat) ^ (52 : Int) := by norm_num
        rw [hpow, Int.log_zpow (by norm_num)]
      refine nearest_eq_self (n := 2 ^ 52) ?_
      rw [hspacing, hlog]
      norm_num

theorem nearest_natCast {n : Nat} (h : n ≤ 2 ^ 52) : nearest (n : Rat) = n := by
  have hhalf := nearest_half (n := 2 * n) (by omega)
  have htwo : ((2 * n : Nat) : Rat) / 2 = n := by
    push_cast
    ring
  rwa [htwo] at hhalf

end

-- ---------------------------------------------------------------------------
-- Rounded quotients
-- ---------------------------------------------------------------------------

theorem normal_div {x : Rat} {m : Nat} (hx : 1 / 2 ≤ x) (hm : 0 < m) (hm' : m ≤ 2 ^ 52) :
    (2 : Rat) ^ (-1022 : Int) ≤ x / m := by
  have hmpos : (0 : Rat) < m := by exact_mod_cast hm
  have hmle : (m : Rat) ≤ 2 ^ 52 := by exact_mod_cast hm'
  calc (2 : Rat) ^ (-1022 : Int) ≤ 2 ^ (-53 : Int) := zpow_le_zpow_right₀ (by norm_num) (by norm_num)
    _ = 1 / 2 / 2 ^ 52 := by norm_num
    _ ≤ x / m := div_le_div₀ (by linarith) hx hmpos hmle

theorem half_le_natCast {g : Nat} (hg : 0 < g) : (1 : Rat) / 2 ≤ g := by
  have hone : (1 : Rat) ≤ g := by exact_mod_cast hg
  linarith

/-- A quotient by `m` is the half of an integer, or half an `m`th away from them. -/
theorem floor_nearest_div {g m : Nat} (hg : g < 2 ^ 52) (hm : 0 < m) (hm' : m ≤ 2 ^ 52) :
    ⌊nearest ((g : Rat) / m) + 1 / 2⌋ = ⌊(g : Rat) / m + 1 / 2⌋ := by
  rcases Nat.eq_zero_or_pos g with rfl | hg'
  · have hzero : nearest (((0 : Nat) : Rat) / m) = ((0 : Nat) : Rat) / m :=
      nearest_eq_self (n := 0) (by simp)
    rw [hzero]
  have hmpos : (0 : Rat) < m := by exact_mod_cast hm
  have hclose := abs_le.mp (abs_nearest_sub_le_part (normal_div (half_le_natCast hg') hm hm'))
  have hpart : (g : Rat) / m / 2 ^ 53 < 1 / (2 * m) := by
    have hg52 : (g : Rat) < 2 ^ 52 := by exact_mod_cast hg
    rw [div_div, div_lt_div_iff₀ (by positivity) (by positivity)]
    nlinarith
  obtain ⟨k, hk⟩ : ∃ k : Int, ⌊(g : Rat) / m + 1 / 2⌋ = k := ⟨_, rfl⟩
  obtain ⟨hlow, hhigh⟩ := Int.floor_eq_iff.mp hk
  have hlow' : (2 * k - 1) * m ≤ 2 * g := by
    have hdiv : (k : Rat) - 1 / 2 ≤ (g : Rat) / m := by linarith
    rw [le_div_iff₀ hmpos] at hdiv
    have hle : (2 * (k : Rat) - 1) * m ≤ 2 * g := by linarith
    exact_mod_cast hle
  have hhigh' : 2 * (g : Int) < (2 * k + 1) * m := by
    have hdiv : (g : Rat) / m < k + 1 / 2 := by linarith
    rw [div_lt_iff₀ hmpos] at hdiv
    have hlt : 2 * (g : Rat) < (2 * k + 1) * m := by linarith
    exact_mod_cast hlt
  rw [hk, Int.floor_eq_iff]
  constructor
  · rcases hlow'.lt_or_eq with hlt | heq
    · have hle : (2 * (k : Rat) - 1) * m + 1 ≤ 2 * g := by exact_mod_cast hlt
      have hgap : (k : Rat) - 1 / 2 + 1 / (2 * m) ≤ (g : Rat) / m := by
        rw [le_div_iff₀ hmpos]
        field_simp
        linarith
      linarith [hclose.1]
    · -- the lower end of the interval is a double itself
      obtain ⟨n, hn⟩ : ∃ n : Nat, 2 * k - 1 = n := by
        refine ⟨(2 * k - 1).toNat, (Int.toNat_of_nonneg ?_).symm⟩
        have hpos : 0 < (2 * k - 1) * (m : Int) := by omega
        exact ((mul_pos_iff_of_pos_right (by exact_mod_cast hm)).mp hpos).le
      have hnm : n * m = 2 * g := by exact_mod_cast hn ▸ heq
      have hhalf : (g : Rat) / m = (n : Rat) / 2 := by
        have hnm' : (n : Rat) * m = 2 * g := by exact_mod_cast hnm
        rw [div_eq_div_iff hmpos.ne' (by norm_num)]
        linarith
      have hbound : n ≤ 2 ^ 53 := by nlinarith
      have hkn : (2 * (k : Rat) - 1) = n := by exact_mod_cast hn
      rw [hhalf, nearest_half hbound]
      linarith
  · have hle : 2 * (g : Rat) + 1 ≤ (2 * k + 1) * m := by exact_mod_cast hhigh'
    have hgap : (g : Rat) / m + 1 / (2 * m) ≤ k + 1 / 2 := by
      rw [div_add' _ _ _ hmpos.ne', div_le_iff₀ hmpos]
      field_simp
      linarith
    linarith [hclose.2]

namespace Double

variable {x y : Rat} {g m : Nat}

theorem ofRat_of_le (h : nearest x ≤ 2 ^ 100) : ofRat x = finite (nearest x) :=
  if_pos (h.trans_lt (pow_lt_pow_right₀ (by norm_num) (by norm_num)))

theorem nearest_of_ofRat (h : ofRat x = finite y) : nearest x = y := by
  unfold ofRat at h
  split at h
  · exact finite.inj h
  · cases h

theorem ofRat_natCast (h : g ≤ 2 ^ 52) : ofRat (g : Rat) = finite g := by
  have hg : (g : Rat) ≤ 2 ^ 52 := by exact_mod_cast h
  rw [ofRat_of_le, nearest_natCast h]
  rw [nearest_natCast h]
  exact hg.trans (pow_le_pow_right₀ (by norm_num) (by norm_num))

/-- Below `2^52` a quotient rounds to what the exact one rounds to. -/
theorem round_div_ofRat (hg : g < 2 ^ 52) (hm : 0 < m) (hm' : m ≤ 2 ^ 52) :
    ((ofRat (g : Rat)).div m).round = finite ⌊(g : Rat) / m + 1 / 2⌋ := by
  have hsmall : nearest ((g : Rat) / m) ≤ 2 ^ 100 := by
    rcases Nat.eq_zero_or_pos g with rfl | hg'
    · have hzero : nearest (((0 : Nat) : Rat) / m) = ((0 : Nat) : Rat) / m :=
        nearest_eq_self (n := 0) (by simp)
      rw [hzero]
      norm_num
    · have hclose := abs_le.mp (abs_nearest_sub_le_part (normal_div (half_le_natCast hg') hm hm'))
      have hone : (1 : Rat) ≤ m := by exact_mod_cast hm
      have hg52 : (g : Rat) ≤ 2 ^ 52 := by exact_mod_cast hg.le
      have hquot : (g : Rat) / m ≤ 2 ^ 52 := (div_le_self (by positivity) hone).trans hg52
      norm_num at hquot hclose ⊢
      linarith [hclose.2]
  rw [ofRat_natCast hg.le, div, ofRat_of_le hsmall, round, floor_nearest_div hg hm hm']

/-- A rounded quotient that is finite is short of the exact one by a part in `2^52`
at most, and by a half. -/
theorem lt_of_round_div (hg : 0 < g) (hm : 0 < m) (hm' : m ≤ 2 ^ 52)
    (h : ((ofRat (g : Rat)).div m).round = finite y) :
    (g : Rat) / m * (1 - 1 / 2 ^ 52) < y + 1 / 2 := by
  have hmpos : (0 : Rat) < m := by exact_mod_cast hm
  cases hdividend : ofRat (g : Rat) with
  | nan => simp [hdividend, div, round] at h
  | infinity => simp [hdividend, div, round] at h
  | finite d =>
    rw [hdividend, div] at h
    cases hquot : ofRat (d / m) with
    | nan => simp [hquot, round] at h
    | infinity => simp [hquot, round] at h
    | finite q =>
      rw [hquot, round, finite.injEq] at h
      have hd := nearest_of_ofRat hdividend
      have hq := nearest_of_ofRat hquot
      have hone : (1 : Rat) ≤ g := by exact_mod_cast hg
      have hdclose := abs_le.mp (abs_nearest_sub_le_part (x := (g : Rat))
        ((zpow_le_one_of_nonpos₀ (by norm_num) (by norm_num)).trans hone))
      rw [hd] at hdclose
      have hdhalf : (1 : Rat) / 2 ≤ d := by
        norm_num at hdclose ⊢
        linarith [hdclose.1]
      have hqclose := abs_le.mp (abs_nearest_sub_le_part (normal_div hdhalf hm hm'))
      rw [hq] at hqclose
      have hfloor := Int.lt_floor_add_one (q + 1 / 2)
      rw [h] at hfloor
      have hquotient : (g : Rat) / m * (1 - 1 / 2 ^ 53) ≤ d / m := by
        rw [div_mul_eq_mul_div, div_le_div_iff_of_pos_right hmpos]
        linarith [hdclose.1]
      have hpos : 0 ≤ (g : Rat) / m := by positivity
      norm_num at hqclose hquotient hfloor ⊢
      nlinarith [hqclose.1]

end Double

end SafrochainIndexer
