import Mathlib.Algebra.Group.Nat.Defs
import Mathlib.Data.List.DropRight
import Mathlib.Data.List.Infix

/-!
# Strings of the Go standard library

`strconv.ParseUint`, `strconv.ParseInt` and the functions of `strings` that a
caller uses with constant arguments, over the characters of a string.
-/

namespace SafrochainIndexer.Text

/-- `strings.Contains`. -/
def contains (s sub : String) : Bool := decide (sub.toList <:+: s.toList)

/-- `strings.TrimPrefix`. -/
def trimPrefix (s lead : String) : String :=
  match lead.toList.isPrefixOf? s.toList with
  | some rest => .ofList rest
  | none => s

/-- `unicode.IsSpace`. -/
def isSpace (c : Char) : Bool :=
  c ∈ ['\t', '\n', '\u000B', '\u000C', '\r', ' ', '\u0085', '\u00A0', '\u1680', '\u2028', '\u2029',
    '\u202F', '\u205F', '\u3000'] ∨ ('\u2000' ≤ c ∧ c ≤ '\u200A')

/-- `strings.TrimSpace`. -/
def trimSpace (s : String) : String :=
  .ofList (((s.toList.dropWhile isSpace).reverse.dropWhile isSpace).reverse)

/-- `strings.Split` at a single character. -/
def splitAt (s : String) (sep : Char) : List String := (s.toList.splitOn sep).map .ofList

/-- `skip` characters of a match are still to be dropped. -/
def replaceFrom (old new : List Char) (skip : Nat) : List Char → List Char
  | [] => []
  | c :: cs =>
    match skip with
    | skip + 1 => replaceFrom old new skip cs
    | 0 =>
      if old.isPrefixOf (c :: cs) then new ++ replaceFrom old new (old.length - 1) cs
      else c :: replaceFrom old new 0 cs

/-- `strings.ReplaceAll` of a text that is not empty. -/
def replaceAll (s old new : String) : String := .ofList (replaceFrom old.toList new.toList 0 s.toList)

/-- The digit loop of `strconv.ParseUint(s, 10, 64)`. -/
def parseDigits (s : String) : Nat → List Char → Except String Nat
  | n, [] => .ok n
  | n, c :: cs =>
    if c.isDigit then
      let n' := 10 * n + (c.toNat - '0'.toNat)
      if n' < 2 ^ 64 then parseDigits s n' cs
      else .error s!"strconv.ParseUint: parsing \"{s}\": value out of range"
    else .error s!"strconv.ParseUint: parsing \"{s}\": invalid syntax"

/-- `strconv.ParseUint(s, 10, 64)`. -/
def parseUint (s : String) : Except String Nat :=
  match s.toList with
  | [] => .error "strconv.ParseUint: parsing \"\": invalid syntax"
  | cs => parseDigits s 0 cs

/-- The `Err` of a `strconv.NumError`. -/
inductive NumError
  | invalidSyntax
  | outOfRange
  deriving DecidableEq, Repr

def NumError.text (func s : String) : NumError → String
  | .invalidSyntax => s!"strconv.{func}: parsing \"{s}\": invalid syntax"
  | .outOfRange => s!"strconv.{func}: parsing \"{s}\": value out of range"

/-- The value of the digits after `n`, within 64 bits. -/
def scanDigits : Nat → List Char → Except NumError Nat
  | n, [] => .ok n
  | n, c :: cs =>
    if c.isDigit then
      let n' := 10 * n + (c.toNat - '0'.toNat)
      if n' < 2 ^ 64 then scanDigits n' cs else .error .outOfRange
    else .error .invalidSyntax

/-- The sign of a text, whether it is negative, and what comes after it. -/
def pickSign : List Char → Bool × List Char
  | '+' :: cs => (false, cs)
  | '-' :: cs => (true, cs)
  | cs => (false, cs)

/-- `strconv.ParseInt(s, 10, 64)`. -/
def parseInt (s : String) : Except String Int :=
  match pickSign s.toList with
  | (_, []) => .error (NumError.invalidSyntax.text "ParseInt" s)
  | (neg, cs) =>
    match scanDigits 0 cs with
    | .error e => .error (e.text "ParseInt" s)
    | .ok n =>
      let limit := if neg then 2 ^ 63 else 2 ^ 63 - 1
      if limit < n then .error (NumError.outOfRange.text "ParseInt" s)
      else .ok (if neg then -(n : Int) else n)

-- ---------------------------------------------------------------------------
-- First characters
-- ---------------------------------------------------------------------------

theorem trimPrefix_ne {s lead : String} {c d : Char} (hs : s.toList.head? = some c)
    (hlead : lead.toList.head? = some d) (h : d ≠ c) : trimPrefix s lead = s := by
  obtain ⟨cs, hs⟩ := List.head?_eq_some_iff.mp hs
  obtain ⟨ds, hlead⟩ := List.head?_eq_some_iff.mp hlead
  simp [trimPrefix, hs, hlead, List.isPrefixOf?, h]

theorem splitAt_head {s : String} {c sep : Char} (hs : s.toList.head? = some c) (h : c ≠ sep) :
    ∃ piece pieces, splitAt s sep = piece :: pieces ∧ piece.toList.head? = some c := by
  obtain ⟨cs, hs⟩ := List.head?_eq_some_iff.mp hs
  unfold splitAt
  rw [hs]
  cases hsplit : cs.splitOn sep with
  | nil => exact absurd hsplit (List.splitOnP_ne_nil _ _)
  | cons first rest =>
    refine ⟨.ofList (c :: first), rest.map .ofList, ?_, by simp⟩
    have hcons : (c :: cs).splitOn sep = (c :: first) :: rest := by
      unfold List.splitOn at hsplit ⊢
      simp [List.splitOnP_cons_eq_if_modifyHead, h, hsplit]
    rw [hcons]
    rfl

-- ---------------------------------------------------------------------------
-- White space
-- ---------------------------------------------------------------------------

theorem trimSpace_parts (s : String) : ∃ lead trail, s = lead ++ trimSpace s ++ trail := by
  obtain ⟨lead, hlead⟩ := List.dropWhile_suffix (l := s.toList) isSpace
  obtain ⟨trail, htrail⟩ := List.rdropWhile_prefix (p := isSpace) (l := s.toList.dropWhile isSpace)
  refine ⟨.ofList lead, .ofList trail, ?_⟩
  have hparts : s.toList = lead ++ ((s.toList.dropWhile isSpace).rdropWhile isSpace ++ trail) := by
    rw [htrail, hlead]
  rw [← String.toList_inj, String.toList_append, String.toList_append, String.toList_ofList,
    String.toList_ofList, trimSpace, String.toList_ofList, List.append_assoc]
  exact hparts

theorem utf8ByteSize_trimSpace_le (s : String) : (trimSpace s).utf8ByteSize ≤ s.utf8ByteSize := by
  obtain ⟨lead, trail, hparts⟩ := trimSpace_parts s
  have hsize := congrArg String.utf8ByteSize hparts
  rw [String.utf8ByteSize_append, String.utf8ByteSize_append] at hsize
  omega

theorem trimSpace_trimSpace (s : String) : trimSpace (trimSpace s) = trimSpace s := by
  have hdrop : ((s.toList.dropWhile isSpace).rdropWhile isSpace).dropWhile isSpace =
      (s.toList.dropWhile isSpace).rdropWhile isSpace := by
    refine List.dropWhile_eq_self_iff.mpr fun hl => ?_
    have hprefix := List.rdropWhile_prefix (p := isSpace) (l := s.toList.dropWhile isSpace)
    have hhead := hprefix.getElem hl
    rw [hhead]
    exact List.dropWhile_get_zero_not _ _ _
  have hagain := List.rdropWhile_idempotent isSpace (s.toList.dropWhile isSpace)
  unfold trimSpace
  rw [String.toList_ofList]
  change String.ofList (List.rdropWhile isSpace (List.dropWhile isSpace (List.rdropWhile isSpace _))) = _
  rw [hdrop, hagain]
  rfl

-- ---------------------------------------------------------------------------
-- Numbers
-- ---------------------------------------------------------------------------

theorem le_ofDigitChars (cs : List Char) (n : Nat) : n ≤ Nat.ofDigitChars 10 cs n := by
  induction cs generalizing n with
  | nil => simp
  | cons c cs ih =>
    rw [Nat.ofDigitChars_cons]
    exact le_trans (by omega) (ih _)

theorem parseDigits_ok (s : String) {cs : List Char} {n : Nat} (hd : ∀ c ∈ cs, c.isDigit = true)
    (hlt : Nat.ofDigitChars 10 cs n < 2 ^ 64) :
    parseDigits s n cs = .ok (Nat.ofDigitChars 10 cs n) := by
  induction cs generalizing n with
  | nil => simp [parseDigits]
  | cons c cs ih =>
    rw [Nat.ofDigitChars_cons] at hlt ⊢
    have hn : 10 * n + (c.toNat - '0'.toNat) < 2 ^ 64 := lt_of_le_of_lt (le_ofDigitChars ..) hlt
    rw [parseDigits, if_pos (hd c (by simp))]
    simp only [if_pos hn]
    exact ih (fun d hm => hd d (List.mem_cons_of_mem _ hm)) hlt

/-- Parsing inverts `fmt.Sprintf("%d", n)` for every `uint64`. -/
theorem parseUint_toString {n : Nat} (h : n < 2 ^ 64) : parseUint (toString n) = .ok n := by
  have hl : (toString n).toList = Nat.toDigits 10 n := by
    rw [Nat.toString_eq_ofList_toDigits, String.toList_ofList]
  unfold parseUint
  split
  · rename_i hnil
    exact absurd (hl.symm.trans hnil) Nat.toDigits_ne_nil
  · rw [hl]
    have hd : ∀ c ∈ Nat.toDigits 10 n, c.isDigit = true := fun c hc =>
      Nat.isDigit_of_mem_toDigits (by decide) (by decide) hc
    rw [parseDigits_ok _ hd (by rw [Nat.ofDigitChars_toDigits (by decide) (by decide)]; exact h),
      Nat.ofDigitChars_toDigits (by decide) (by decide)]

def decimal (s : String) : Nat := Nat.ofDigitChars 10 s.toList 0

theorem decimal_toString {n : Int} (h : 0 ≤ n) : (decimal (toString n) : Int) = n := by
  obtain ⟨k, rfl⟩ := Int.eq_ofNat_of_zero_le h
  have hl : (toString (k : Int)).toList = Nat.toDigits 10 k := by
    show (toString k).toList = _
    rw [Nat.toString_eq_ofList_toDigits, String.toList_ofList]
  rw [decimal, hl, Nat.ofDigitChars_toDigits (by decide) (by decide)]

theorem toString_inj {m n : Int} (hm : 0 ≤ m) (hn : 0 ≤ n) (h : toString m = toString n) : m = n := by
  rw [← decimal_toString hm, h, decimal_toString hn]

theorem ofDigitChars_lastDigits (n k init : Nat) :
    Nat.ofDigitChars 10 ((List.range k).map fun i => Nat.digitChar (n / 10 ^ (k - 1 - i) % 10)) init =
      init * 10 ^ k + n % 10 ^ k := by
  induction k generalizing init with
  | zero => simp [Nat.mod_one]
  | succ k ih =>
    have hdigits : (List.range k).map
        ((fun i => Nat.digitChar (n / 10 ^ (k + 1 - 1 - i) % 10)) ∘ Nat.succ) =
          (List.range k).map fun i => Nat.digitChar (n / 10 ^ (k - 1 - i) % 10) := by
      refine List.map_congr_left fun i _ => ?_
      have hexp : k + 1 - 1 - (i + 1) = k - 1 - i := by omega
      simp only [Function.comp_apply, Nat.succ_eq_add_one, hexp]
    rw [List.range_succ_eq_map, List.map_cons, List.map_map, hdigits,
      Nat.ofDigitChars_cons_digitChar_of_lt_ten (Nat.mod_lt _ (by decide)), ih, Nat.mod_pow_succ,
      Nat.pow_succ]
    simp only [Nat.add_sub_cancel, Nat.sub_zero, Nat.add_mul]
    rw [Nat.mul_comm 10 init, Nat.mul_assoc, Nat.mul_comm 10, Nat.add_assoc, Nat.add_comm (n % _),
      Nat.mul_comm (10 ^ k) (_ % _)]

theorem scanDigits_error {cs : List Char} {n : Nat} {c : Char} (hc : c ∈ cs)
    (hd : c.isDigit = false) : ∃ e, scanDigits n cs = .error e := by
  induction cs generalizing n with
  | nil => cases hc
  | cons d cs ih =>
    rw [scanDigits]
    rcases List.mem_cons.mp hc with rfl | hc
    · exact ⟨_, by rw [if_neg (by simp [hd])]⟩
    · split
      · dsimp only
        split
        · exact ih hc
        · exact ⟨_, rfl⟩
      · exact ⟨_, rfl⟩

theorem mem_pickSign {cs : List Char} {c : Char} (hc : c ∈ cs) (hplus : c ≠ '+')
    (hminus : c ≠ '-') : c ∈ (pickSign cs).2 := by
  unfold pickSign
  split
  · exact (List.mem_cons.mp hc).resolve_left hplus
  · exact (List.mem_cons.mp hc).resolve_left hminus
  · exact hc

theorem parseInt_error {s : String} {c : Char} (hc : c ∈ s.toList) (hd : c.isDigit = false)
    (hplus : c ≠ '+') (hminus : c ≠ '-') : ∃ e, parseInt s = .error e := by
  have hmem := mem_pickSign hc hplus hminus
  unfold parseInt
  split
  · exact ⟨_, rfl⟩
  · rename_i hsign
    rw [hsign] at hmem
    obtain ⟨e, he⟩ := scanDigits_error (n := 0) hmem hd
    exact ⟨_, by rw [he]⟩

-- ---------------------------------------------------------------------------
-- Pieces
-- ---------------------------------------------------------------------------

theorem splitOn_append {sep : Char} {cs : List Char} (h : sep ∉ cs) (ds : List Char) :
    ∃ first rest, ds.splitOn sep = first :: rest ∧ (cs ++ ds).splitOn sep = (cs ++ first) :: rest := by
  induction cs with
  | nil =>
    cases hsplit : ds.splitOn sep with
    | nil => exact absurd hsplit (List.splitOnP_ne_nil _ _)
    | cons first rest => exact ⟨first, rest, rfl, hsplit⟩
  | cons c cs ih =>
    have hc : sep ≠ c := fun he => h (by simp [he])
    have hcs : sep ∉ cs := fun hm => h (List.mem_cons_of_mem _ hm)
    obtain ⟨first, rest, hds, happend⟩ := ih hcs
    refine ⟨first, rest, hds, ?_⟩
    unfold List.splitOn at happend ⊢
    simp [List.splitOnP_cons_eq_if_modifyHead, Ne.symm hc, happend]

theorem splitAt_append {lead : String} {sep : Char} (h : sep ∉ lead.toList) (s : String) :
    ∃ first rest, splitAt s sep = first :: rest ∧
      splitAt (lead ++ s) sep = (lead ++ first) :: rest := by
  obtain ⟨first, rest, hs, happend⟩ := splitOn_append h s.toList
  refine ⟨.ofList first, rest.map .ofList, ?_, ?_⟩
  · simp [splitAt, hs]
  · simp [splitAt, happend]

theorem length_splitAt (s : String) (sep : Char) :
    (splitAt s sep).length = s.toList.count sep + 1 := by
  unfold splitAt
  rw [List.length_map]
  induction s.toList with
  | nil => rfl
  | cons c cs ih =>
    unfold List.splitOn at ih ⊢
    rw [List.splitOnP_cons_eq_if_modifyHead]
    by_cases h : c = sep
    · simp [h, ih]
    · simp [h, ih]

theorem splitAt_pair {a b : String} {sep : Char} (ha : sep ∉ a.toList) (hb : sep ∉ b.toList) :
    splitAt (a ++ .singleton sep ++ b) sep = [a, b] := by
  have hsplit : List.splitOn sep (List.intercalate [sep] [a.toList, b.toList]) =
      [a.toList, b.toList] :=
    List.splitOn_intercalate sep (by simpa using ⟨ha, hb⟩) (by simp)
  have htext : (a ++ .singleton sep ++ b).toList = List.intercalate [sep] [a.toList, b.toList] := by
    simp [List.intercalate]
  rw [splitAt, htext, hsplit]
  simp

theorem filter_intercalate {p : Char → Bool} {sep : List Char} (hsep : sep.filter p = sep)
    (texts : List (List Char)) :
    (sep.intercalate texts).filter p = sep.intercalate (texts.map (List.filter p)) := by
  induction texts with
  | nil => simp
  | cons cs texts ih =>
    cases texts with
    | nil => simp
    | cons ds texts =>
      rw [List.intercalate_cons_cons, List.filter_append, List.filter_append, ih, hsep]
      simp [List.intercalate_cons_cons]

theorem not_mem_intercalate {c : Char} {sep : String} {texts : List String}
    (hsep : c ∉ sep.toList) (h : ∀ s ∈ texts, c ∉ s.toList) :
    c ∉ (sep.intercalate texts).toList := by
  induction texts with
  | nil => simp
  | cons s texts ih =>
    obtain ⟨hs, htexts⟩ := List.forall_mem_cons.mp h
    cases texts with
    | nil => simpa using hs
    | cons u texts =>
      rw [String.intercalate_cons_cons, String.toList_append, String.toList_append,
        List.mem_append, List.mem_append]
      rintro ((hmem | hmem) | hmem)
      · exact hs hmem
      · exact hsep hmem
      · exact ih htexts hmem

-- ---------------------------------------------------------------------------
-- Removed texts
-- ---------------------------------------------------------------------------

theorem replaceFrom_of_not_mem {c : Char} {old new : List Char} (hold : old.head? = some c)
    {cs : List Char} (h : c ∉ cs) : replaceFrom old new 0 cs = cs := by
  obtain ⟨ds, rfl⟩ := List.head?_eq_some_iff.mp hold
  induction cs with
  | nil => rfl
  | cons d cs ih =>
    obtain ⟨hne, hcs⟩ := not_or.mp (mt List.mem_cons.mpr h)
    have hprefix : (c :: ds).isPrefixOf (d :: cs) = false := by simp [List.isPrefixOf, hne]
    rw [replaceFrom, hprefix, if_neg Bool.false_ne_true, ih hcs]

theorem replaceFrom_skip (old new : List Char) {skip : Nat} {cs : List Char}
    (h : skip ≤ cs.length) : replaceFrom old new skip cs = replaceFrom old new 0 (cs.drop skip) := by
  induction cs generalizing skip with
  | nil =>
    obtain rfl := Nat.le_zero.mp h
    rfl
  | cons c cs ih =>
    cases skip with
    | zero => rfl
    | succ skip =>
      rw [replaceFrom, List.drop_succ_cons]
      exact ih (Nat.le_of_succ_le_succ h)

theorem replaceAll_append {old : String} (hold : old ≠ "") (s : String) :
    replaceAll (old ++ s) old "" = replaceAll s old "" := by
  have hne : old.toList ≠ [] := fun h => hold (String.toList_inj.mp h)
  unfold replaceAll
  rw [String.toList_append]
  cases hchars : old.toList with
  | nil => exact absurd hchars hne
  | cons c cs =>
    have hprefix : (c :: cs).isPrefixOf ((c :: cs) ++ s.toList) = true := by simp
    rw [List.cons_append, replaceFrom, ← List.cons_append, hprefix, if_pos rfl,
      replaceFrom_skip _ _ (by simp)]
    simp

theorem replaceFrom_append_of_not_mem {c : Char} {old new : List Char} (hold : old.head? = some c)
    {cs : List Char} (h : c ∉ cs) (ds : List Char) :
    replaceFrom old new 0 (cs ++ ds) = cs ++ replaceFrom old new 0 ds := by
  obtain ⟨olds, rfl⟩ := List.head?_eq_some_iff.mp hold
  induction cs with
  | nil => rfl
  | cons d cs ih =>
    obtain ⟨hne, hcs⟩ := not_or.mp (mt List.mem_cons.mpr h)
    have hprefix : (c :: olds).isPrefixOf (d :: (cs ++ ds)) = false := by
      simp [List.isPrefixOf, hne]
    rw [List.cons_append, replaceFrom, hprefix, if_neg Bool.false_ne_true, ih hcs,
      List.cons_append]

theorem replaceAll_of_not_mem {c : Char} {s old new : String} (hold : old.toList.head? = some c)
    (h : c ∉ s.toList) : replaceAll s old new = s := by
  rw [replaceAll, replaceFrom_of_not_mem hold h, String.ofList_toList]

theorem replaceAll_singleton (s : String) (c : Char) :
    replaceAll s (.singleton c) "" = .ofList (s.toList.filter fun d => d ≠ c) := by
  have hfrom : ∀ cs : List Char, replaceFrom [c] [] 0 cs = cs.filter fun d => d ≠ c := by
    intro cs
    induction cs with
    | nil => rfl
    | cons d cs ih =>
      by_cases h : d = c
      · simp [replaceFrom, List.isPrefixOf, h, ih]
      · simp [replaceFrom, List.isPrefixOf, h, Ne.symm h, ih]
  rw [replaceAll, String.toList_singleton]
  exact congrArg _ (hfrom s.toList)

end SafrochainIndexer.Text
