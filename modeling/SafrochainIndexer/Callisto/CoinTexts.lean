import SafrochainIndexer.Callisto.Validators
import SafrochainIndexer.Lib.Script

/-!
# Texts of coins

`coins.go`: coins are written to a column `COIN[]` or `DEC_COIN[]` as the texts of
their values, and read back from the text that Postgres prints for the array.
The reader tells the separators between coins from those inside a coin by the
parentheses around them (`scanCoins_arrayText`), so the coins that come back are
those that were written (`coins_round_trip`).
-/

namespace SafrochainIndexer.Callisto

def removeEmpty (s : List String) : List String := s.filter fun str => str ≠ ""

/-- `fmt.Sprintf("(%s,%s)", coin.Denom, coin.Amount)`. -/
def compositeText (denom amount : String) : String := "(" ++ denom ++ "," ++ amount ++ ")"

def DbCoin.value (coin : DbCoin) : String := compositeText coin.denom coin.amount

def DbDecCoin.value (coin : DbDecCoin) : String := compositeText coin.denom coin.amount

/-- What Postgres prints for an array of composite values. -/
def arrayText (values : List String) : String :=
  "\x7b" ++ ",".intercalate (values.map fun value => "\"" ++ value ++ "\"") ++ "\x7d"

/-- What `DbCoins.Scan` and `DbDecCoins.Scan` share: `coin` is the value they
build. -/
def scanCoins {ρ : Type} (coin : String → String → ρ) (src : String) : Except Fault (List ρ) :=
  let strValue := Text.replaceAll src "\"" ""
  let strValue := Text.replaceAll strValue "\x7b" ""
  let strValue := Text.replaceAll strValue "\x7d" ""
  let strValue := Text.replaceAll strValue "),(" ") ("
  let strValue := Text.replaceAll strValue "(" ""
  let strValue := Text.replaceAll strValue ")" ""
  let values := removeEmpty (Text.splitAt strValue ' ')
  values.mapM fun value =>
    match Text.splitAt value ',' with
    | denom :: amount :: _ => .ok (coin denom amount)
    | _ => .error (.panic "runtime error: index out of range [1] with length 1")

def scanDbCoins : String → Except Fault (List DbCoin) := scanCoins DbCoin.mk

def scanDbDecCoins : String → Except Fault (List DbDecCoin) := scanCoins DbDecCoin.mk

-- ---------------------------------------------------------------------------
-- Coins of the SDK
-- ---------------------------------------------------------------------------

/-- The functions of the SDK on amounts and coins. An amount that could not be
parsed is `none`. -/
structure CoinSdk where
  newIntFromString : String → Option Int
  newDecFromStr : String → Option Int
  newCoin : String → Option Int → Except Fault Coin
  newDecCoinFromDec : String → Option Int → Except Fault DecCoin

def DbCoin.toCoin (sdk : CoinSdk) (coin : DbCoin) : Except Fault Coin :=
  sdk.newCoin coin.denom (sdk.newIntFromString coin.amount)

def toCoins (sdk : CoinSdk) (coins : List DbCoin) : Except Fault (List Coin) :=
  coins.mapM (DbCoin.toCoin sdk)

def DbDecCoin.toDecCoin (sdk : CoinSdk) (coin : DbDecCoin) : Except Fault DecCoin :=
  sdk.newDecCoinFromDec coin.denom (sdk.newDecFromStr coin.amount)

def toDecCoins (sdk : CoinSdk) (coins : List DbDecCoin) : Except Fault (List DecCoin) :=
  coins.mapM (DbDecCoin.toDecCoin sdk)

/-- A character of `[a-zA-Z0-9/:._-]`. -/
def DenomChar (c : Char) : Prop := c.isAlphanum = true ∨ c ∈ ['/', ':', '.', '_', '-']

instance (c : Char) : Decidable (DenomChar c) := inferInstanceAs (Decidable (_ ∨ _))

/-- `[a-zA-Z][a-zA-Z0-9/:._-]{2,127}`. -/
structure ValidDenom (denom : String) : Prop where
  head : ∀ c ∈ denom.toList.head?, c.isAlpha = true
  chars : ∀ c ∈ denom.toList, DenomChar c
  length : 3 ≤ denom.toList.length ∧ denom.toList.length ≤ 128

instance (denom : String) : Decidable (ValidDenom denom) :=
  decidable_of_iff (denom.toList.head?.all Char.isAlpha = true ∧
      denom.toList.all (fun c => decide (DenomChar c)) = true ∧
      3 ≤ denom.toList.length ∧ denom.toList.length ≤ 128)
    ⟨fun h => ⟨by simpa [Option.all_eq_true] using h.1, by simpa using h.2.1, h.2.2⟩,
      fun h => ⟨by simpa [Option.all_eq_true] using h.head, by simpa using h.chars, h.length⟩⟩

def IntAmount (n : Int) : Prop := 0 ≤ n ∧ n < 2 ^ 256

/-- An `sdk.Dec` that is not negative has up to 315 bits, its 18 decimals
included. -/
def DecAmount (d : Int) : Prop := 0 ≤ d ∧ d < 2 ^ 315

structure ValidCoin (coin : Coin) : Prop where
  denom : ValidDenom coin.denom
  amount : IntAmount coin.amount

structure ValidDecCoin (coin : DecCoin) : Prop where
  denom : ValidDenom coin.denom
  amount : ∃ d, DecAmount d ∧ coin.amount = decString d

/-- What the SDK promises: it parses the texts of its own amounts, and builds a
coin from a valid name and an amount that is not negative. -/
structure CoinSdk.Reads (sdk : CoinSdk) : Prop where
  newIntFromString : ∀ n, IntAmount n → sdk.newIntFromString (toString n) = some n
  newDecFromStr : ∀ d, DecAmount d → sdk.newDecFromStr (decString d) = some d
  newCoin : ∀ denom n, ValidDenom denom → IntAmount n →
    sdk.newCoin denom (some n) = .ok ⟨denom, n⟩
  newDecCoinFromDec : ∀ denom d, ValidDenom denom → DecAmount d →
    sdk.newDecCoinFromDec denom (some d) = .ok ⟨denom, decString d⟩

-- ---------------------------------------------------------------------------
-- The reader
-- ---------------------------------------------------------------------------

/-- Without the characters that the reader removes or splits at. -/
def Unmarked (s : String) : Prop :=
  ∀ c ∈ s.toList, c ∉ ['"', '\x7b', '\x7d', '(', ')', ',', ' ']

theorem Unmarked.not_mem {s : String} (h : Unmarked s) {c : Char}
    (hc : c ∈ ['"', '\x7b', '\x7d', '(', ')', ',', ' ']) : c ∉ s.toList :=
  fun hmem => h c hmem hc

def pairChars (coin : String × String) : List Char := coin.1.toList ++ ',' :: coin.2.toList

theorem not_mem_pairChars {coin : String × String} (hdenom : Unmarked coin.1)
    (hamount : Unmarked coin.2) {c : Char} (hc : c ∈ ['"', '\x7b', '\x7d', '(', ')', ' ']) :
    c ∉ pairChars coin := by
  have hmark : c ∈ ['"', '\x7b', '\x7d', '(', ')', ',', ' '] := by
    revert hc
    simp only [List.mem_cons, List.not_mem_nil, or_false]
    tauto
  have hcomma : c ≠ ',' := by
    rintro rfl
    simp at hc
  simp [pairChars, hdenom.not_mem hmark, hamount.not_mem hmark, hcomma]

section
variable {coins : List (String × String)}
  (h : ∀ coin ∈ coins, Unmarked coin.1 ∧ Unmarked coin.2)
include h

theorem replaceFrom_coins :
    Text.replaceFrom [')', ',', '('] [')', ' ', '('] 0
        ([','].intercalate (coins.map fun coin => '(' :: (pairChars coin ++ [')']))) =
      [' '].intercalate (coins.map fun coin => '(' :: (pairChars coin ++ [')'])) := by
  induction coins with
  | nil => rfl
  | cons coin coins ih =>
    obtain ⟨⟨hdenom, hamount⟩, hcoins⟩ := List.forall_mem_cons.mp h
    have hclose : ')' ∉ '(' :: pairChars coin := by
      simp [not_mem_pairChars hdenom hamount (c := ')') (by simp)]
    have hpass : ∀ ds, Text.replaceFrom [')', ',', '('] [')', ' ', '('] 0
        ('(' :: (pairChars coin ++ ds)) =
          '(' :: (pairChars coin ++ Text.replaceFrom [')', ',', '('] [')', ' ', '('] 0 ds) :=
      Text.replaceFrom_append_of_not_mem rfl hclose
    cases coins with
    | nil => simpa [Text.replaceFrom, List.isPrefixOf] using hpass [')']
    | cons next coins =>
      have hrest := ih hcoins
      simp only [List.map_cons] at hrest ⊢
      rw [List.intercalate_cons_cons, List.intercalate_cons_cons, ← hrest]
      -- the text goes on with the parenthesis of the next coin
      rw [List.intercalate_cons_cons_left]
      simpa [Text.replaceFrom, List.isPrefixOf] using hpass (')' :: ',' :: '(' :: _)

theorem filter_coins {p : Char → Bool} {sep : Char} {lead trail lead' trail' : List Char}
    (hp : ∀ c, c ∉ ['"', '\x7b', '\x7d', '(', ')', ' '] → p c = true) (hsep : p sep = true)
    (hlead : lead.filter p = lead') (htrail : trail.filter p = trail') :
    ([sep].intercalate (coins.map fun coin => lead ++ (pairChars coin ++ trail))).filter p =
      [sep].intercalate (coins.map fun coin => lead' ++ (pairChars coin ++ trail')) := by
  rw [Text.filter_intercalate (by simp [hsep]), List.map_map]
  refine congrArg _ (List.map_congr_left fun coin hcoin => ?_)
  obtain ⟨hdenom, hamount⟩ := h coin hcoin
  have hpair : (pairChars coin).filter p = pairChars coin :=
    List.filter_eq_self.mpr fun c hc =>
      hp c fun hmark => not_mem_pairChars hdenom hamount hmark hc
  simp [hlead, htrail, hpair]

omit h in
theorem toList_arrayText (coins : List (String × String)) :
    (arrayText (coins.map fun coin => compositeText coin.1 coin.2)).toList =
      '\x7b' :: ([','].intercalate
        (coins.map fun coin => ['"', '('] ++ (pairChars coin ++ [')', '"'])) ++ ['\x7d']) := by
  have hvalue : ∀ coin : String × String,
      ("\"" ++ compositeText coin.1 coin.2 ++ "\"").toList =
        '"' :: '(' :: (pairChars coin ++ [')', '"']) := by
    intro coin
    simp [compositeText, pairChars]
  simp [arrayText, String.toList_intercalate, Function.comp_def, hvalue]

theorem removed_quotes :
    Text.replaceAll (Text.replaceAll (Text.replaceAll
      (arrayText (coins.map fun coin => compositeText coin.1 coin.2)) "\"" "") "\x7b" "") "\x7d" "" =
        .ofList ([','].intercalate (coins.map fun coin => ['('] ++ (pairChars coin ++ [')']))) := by
  rw [show ("\"" : String) = .singleton '"' from rfl, show "\x7b" = .singleton '\x7b' from rfl,
    show "\x7d" = .singleton '\x7d' from rfl]
  simp only [Text.replaceAll_singleton, String.toList_ofList, List.filter_filter, toList_arrayText]
  rw [List.filter_cons_of_neg (by simp), List.filter_append,
    filter_coins h (by simp +contextual) (by simp) rfl rfl]
  simp

theorem removed_parentheses :
    Text.replaceAll (Text.replaceAll
      (.ofList ([' '].intercalate (coins.map fun coin => ['('] ++ (pairChars coin ++ [')'])))) "(" "")
        ")" "" = .ofList ([' '].intercalate (coins.map pairChars)) := by
  rw [show "(" = String.singleton '(' from rfl, show ")" = String.singleton ')' from rfl]
  simp only [Text.replaceAll_singleton, String.toList_ofList, List.filter_filter]
  rw [filter_coins h (by simp +contextual) (by simp) rfl rfl]
  simp

theorem splitAt_coins :
    removeEmpty (Text.splitAt (.ofList ([' '].intercalate (coins.map pairChars))) ' ') =
      coins.map fun coin => .ofList (pairChars coin) := by
  cases coins with
  | nil => rfl
  | cons coin coins =>
    have hblank : ∀ cs ∈ (coin :: coins).map pairChars, ' ' ∉ cs := by
      intro cs hcs
      obtain ⟨pair, hpair, rfl⟩ := List.mem_map.mp hcs
      exact not_mem_pairChars (h pair hpair).1 (h pair hpair).2 (by simp)
    rw [Text.splitAt, String.toList_ofList, List.splitOn_intercalate ' ' hblank (by simp), removeEmpty,
      List.map_map, List.filter_eq_self.mpr]
    · rfl
    · rintro str hstr
      obtain ⟨pair, -, rfl⟩ := List.mem_map.mp hstr
      refine decide_eq_true fun hempty => ?_
      have hchars := congrArg String.toList hempty
      simp [pairChars] at hchars

theorem splitAt_pairChars {coin : String × String} (hcoin : coin ∈ coins) :
    Text.splitAt (.ofList (pairChars coin)) ',' = [coin.1, coin.2] := by
  obtain ⟨hdenom, hamount⟩ := h coin hcoin
  have htext : String.ofList (pairChars coin) = coin.1 ++ .singleton ',' ++ coin.2 := by
    rw [← String.toList_inj]
    simp [pairChars]
  rw [htext]
  exact Text.splitAt_pair (hdenom.not_mem (by simp)) (hamount.not_mem (by simp))

theorem scanCoins_arrayText {ρ : Type} (coin : String → String → ρ) :
    scanCoins coin (arrayText (coins.map fun pair => compositeText pair.1 pair.2)) =
      .ok (coins.map fun pair => coin pair.1 pair.2) := by
  have hseparated : Text.replaceAll
      (.ofList ([','].intercalate (coins.map fun coin => ['('] ++ (pairChars coin ++ [')'])))) "),("
        ") (" =
      .ofList ([' '].intercalate (coins.map fun coin => ['('] ++ (pairChars coin ++ [')']))) := by
    unfold Text.replaceAll
    simp only [String.toList_ofList]
    exact congrArg String.ofList (replaceFrom_coins h)
  unfold scanCoins
  simp only [removed_quotes h, hseparated, removed_parentheses h, splitAt_coins h, List.mapM_map]
  refine mapM_ok_map fun pair hpair => ?_
  simp only [Function.comp_apply, splitAt_pairChars h hpair]

end

-- ---------------------------------------------------------------------------
-- Names and amounts
-- ---------------------------------------------------------------------------

theorem DenomChar.not_mark {c : Char} (h : DenomChar c) :
    c ∉ ['"', '\x7b', '\x7d', '(', ')', ',', ' '] := by
  intro hmark
  simp only [List.mem_cons, List.not_mem_nil, or_false] at hmark
  rcases hmark with rfl | rfl | rfl | rfl | rfl | rfl | rfl <;> revert h <;> decide

theorem unmarked_of {s : String} (h : ∀ c ∈ s.toList, DenomChar c) : Unmarked s :=
  fun c hc => (h c hc).not_mark

theorem DenomChar.of_digit {c : Char} (h : c.isDigit = true) : DenomChar c :=
  .inl (by simp [Char.isAlphanum, h])

theorem unmarked_toString {n : Int} (h : 0 ≤ n) : Unmarked (toString n) := by
  obtain ⟨k, rfl⟩ := Int.eq_ofNat_of_zero_le h
  have hl : (toString (k : Int)).toList = Nat.toDigits 10 k := by
    show (toString k).toList = _
    rw [Nat.toString_eq_ofList_toDigits, String.toList_ofList]
  refine unmarked_of fun c hc => .of_digit ?_
  exact Nat.isDigit_of_mem_toDigits (by decide) (by decide) (hl ▸ hc)

theorem toList_decString {d : Int} (h : 0 ≤ d) :
    (decString d).toList = Nat.toDigits 10 (d.natAbs / 10 ^ 18) ++ '.' ::
      (List.range 18).map fun i => Nat.digitChar (d.natAbs / 10 ^ (17 - i) % 10) := by
  have hsign : ¬d < 0 := Int.not_lt.mpr h
  rw [decString, if_neg hsign, Nat.toString_eq_ofList_toDigits]
  simp

theorem isDigit_lastDigits (n : Nat) :
    ∀ c ∈ (List.range 18).map fun i => Nat.digitChar (n / 10 ^ (17 - i) % 10),
      c.isDigit = true := by
  intro c hc
  obtain ⟨i, -, rfl⟩ := List.mem_map.mp hc
  rw [Nat.isDigit_digitChar]
  exact decide_eq_true (Nat.mod_lt _ (by decide))

theorem unmarked_decString {d : Int} (h : 0 ≤ d) : Unmarked (decString d) := by
  refine unmarked_of fun c hc => ?_
  rw [toList_decString h, List.mem_append, List.mem_cons] at hc
  rcases hc with hwhole | rfl | hdecimals
  · exact .of_digit (Nat.isDigit_of_mem_toDigits (by decide) (by decide) hwhole)
  · exact .inr (by simp)
  · exact .of_digit (isDigit_lastDigits _ c hdecimals)

-- ---------------------------------------------------------------------------
-- Round trips
-- ---------------------------------------------------------------------------

theorem scanDbCoins_newDbCoins {coins : List Coin} (h : ∀ coin ∈ coins, ValidCoin coin) :
    scanDbCoins (arrayText ((newDbCoins coins).map DbCoin.value)) = .ok (newDbCoins coins) := by
  have hunmarked : ∀ pair ∈ coins.map fun coin => (coin.denom, toString coin.amount),
      Unmarked pair.1 ∧ Unmarked pair.2 := by
    rintro pair hpair
    obtain ⟨coin, hcoin, rfl⟩ := List.mem_map.mp hpair
    exact ⟨unmarked_of (h coin hcoin).denom.chars, unmarked_toString (h coin hcoin).amount.1⟩
  simpa [scanDbCoins, newDbCoins, DbCoin.value, Function.comp_def] using
    scanCoins_arrayText hunmarked DbCoin.mk

theorem scanDbDecCoins_newDbDecCoins {coins : List DecCoin}
    (h : ∀ coin ∈ coins, ValidDecCoin coin) :
    scanDbDecCoins (arrayText ((newDbDecCoins coins).map DbDecCoin.value)) =
      .ok (newDbDecCoins coins) := by
  have hunmarked : ∀ pair ∈ coins.map fun coin => (coin.denom, coin.amount),
      Unmarked pair.1 ∧ Unmarked pair.2 := by
    rintro pair hpair
    obtain ⟨coin, hcoin, rfl⟩ := List.mem_map.mp hpair
    obtain ⟨d, hd, hamount⟩ := (h coin hcoin).amount
    exact ⟨unmarked_of (h coin hcoin).denom.chars, hamount ▸ unmarked_decString hd.1⟩
  simpa [scanDbDecCoins, newDbDecCoins, DbDecCoin.value, Function.comp_def] using
    scanCoins_arrayText hunmarked DbDecCoin.mk

section
variable {sdk : CoinSdk} (hsdk : sdk.Reads)
include hsdk

theorem toCoins_newDbCoins {coins : List Coin} (h : ∀ coin ∈ coins, ValidCoin coin) :
    toCoins sdk (newDbCoins coins) = .ok coins := by
  have hcoin : ∀ coin ∈ coins,
      DbCoin.toCoin sdk ⟨coin.denom, toString coin.amount⟩ = .ok (id coin) := by
    intro coin hcoin
    obtain ⟨hdenom, hamount⟩ := h coin hcoin
    simp only [DbCoin.toCoin, hsdk.newIntFromString _ hamount, hsdk.newCoin _ _ hdenom hamount, id]
  simpa [toCoins, newDbCoins, Function.comp_def] using mapM_ok_map hcoin

theorem toDecCoins_newDbDecCoins {coins : List DecCoin} (h : ∀ coin ∈ coins, ValidDecCoin coin) :
    toDecCoins sdk (newDbDecCoins coins) = .ok coins := by
  have hcoin : ∀ coin ∈ coins,
      DbDecCoin.toDecCoin sdk ⟨coin.denom, coin.amount⟩ = .ok (id coin) := by
    rintro ⟨denom, amount⟩ hcoin
    obtain ⟨hdenom, d, hd, rfl⟩ := h _ hcoin
    simp only [DbDecCoin.toDecCoin, hsdk.newDecFromStr _ hd, hsdk.newDecCoinFromDec _ _ hdenom hd, id]
  simpa [toDecCoins, newDbDecCoins, Function.comp_def] using mapM_ok_map hcoin

end

/-- Coins are read back as they were written, and are then the coins of the
SDK again. -/
theorem coins_round_trip {sdk : CoinSdk} (hsdk : sdk.Reads) :
    (∀ coins : List Coin, (∀ coin ∈ coins, ValidCoin coin) →
      scanDbCoins (arrayText ((newDbCoins coins).map DbCoin.value)) = .ok (newDbCoins coins) ∧
        toCoins sdk (newDbCoins coins) = .ok coins) ∧
    (∀ coins : List DecCoin, (∀ coin ∈ coins, ValidDecCoin coin) →
      scanDbDecCoins (arrayText ((newDbDecCoins coins).map DbDecCoin.value)) =
          .ok (newDbDecCoins coins) ∧
        toDecCoins sdk (newDbDecCoins coins) = .ok coins) :=
  ⟨fun _ h => ⟨scanDbCoins_newDbCoins h, toCoins_newDbCoins hsdk h⟩,
    fun _ h => ⟨scanDbDecCoins_newDbDecCoins h, toDecCoins_newDbDecCoins hsdk h⟩⟩

-- ---------------------------------------------------------------------------
-- Parsers of amounts
-- ---------------------------------------------------------------------------

def parseDecimals (s : String) : Int :=
  Nat.ofDigitChars 10 (s.toList.filter fun c => c ≠ '.') 0

theorem parseDecimals_decString {d : Int} (h : 0 ≤ d) : parseDecimals (decString d) = d := by
  have hdigit : ∀ c : Char, c.isDigit = true → (decide (c ≠ '.')) = true := by
    rintro c hc
    refine decide_eq_true ?_
    rintro rfl
    exact absurd hc (by decide)
  have hwhole : (Nat.toDigits 10 (d.natAbs / 10 ^ 18)).filter (fun c => c ≠ '.') = _ :=
    List.filter_eq_self.mpr fun c hc =>
      hdigit c (Nat.isDigit_of_mem_toDigits (by decide) (by decide) hc)
  have hdecimals := List.filter_eq_self.mpr fun c hc =>
    hdigit c (isDigit_lastDigits d.natAbs c hc)
  rw [parseDecimals, toList_decString h, List.filter_append, List.filter_cons_of_neg (by simp),
    hwhole, hdecimals, Nat.ofDigitChars_append, Nat.ofDigitChars_ten_toDigits,
    Text.ofDigitChars_lastDigits d.natAbs 18, Nat.div_add_mod']
  exact Int.natAbs_of_nonneg h

def coinParsers : CoinSdk where
  newIntFromString s := some (Text.decimal s)
  newDecFromStr s := some (parseDecimals s)
  newCoin denom amount :=
    match amount with
    | some n =>
      if ValidDenom denom ∧ 0 ≤ n then .ok ⟨denom, n⟩ else .error (.panic "invalid coin")
    | none => .error (.panic "amount is nil")
  newDecCoinFromDec denom amount :=
    match amount with
    | some d =>
      if ValidDenom denom ∧ 0 ≤ d then .ok ⟨denom, decString d⟩ else .error (.panic "invalid coin")
    | none => .error (.panic "amount is nil")

theorem coinParsers_reads : coinParsers.Reads where
  newIntFromString _ h := congrArg some (Text.decimal_toString h.1)
  newDecFromStr _ h := congrArg some (parseDecimals_decString h.1)
  newCoin denom n hdenom h := by
    have hn : 0 ≤ n := h.1
    simp only [coinParsers, hdenom, hn, and_self, if_true]
  newDecCoinFromDec denom d hdenom h := by
    have hd : 0 ≤ d := h.1
    simp only [coinParsers, hdenom, hd, and_self, if_true]

theorem coins_round_trip_ibc :
    let coins : List Coin := [⟨"usaf", 0⟩, ⟨"ibc/27394FB0", 10 ^ 24⟩]
    scanDbCoins (arrayText ((newDbCoins coins).map DbCoin.value)) = .ok (newDbCoins coins) ∧
      toCoins coinParsers (newDbCoins coins) = .ok coins := by
  refine (coins_round_trip coinParsers_reads).1 _ ?_
  simp only [List.forall_mem_cons, List.not_mem_nil, false_implies, implies_true, and_true]
  exact ⟨⟨by decide, by decide, by decide⟩, ⟨by decide, by decide, by decide⟩⟩

end SafrochainIndexer.Callisto
