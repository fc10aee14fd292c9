import SafrochainIndexer.Callisto.Gov

/-!
# Texts of votes

What `parseWeightVoteOption` makes of an option as the chain renders it: the
option and its weight (`parse_renderedOption`).
-/

namespace SafrochainIndexer.Callisto.Gov

/-- `proto.CompactTextString` of an option, without its last blank. -/
def renderedOption (option : WeightedVoteOption) : String :=
  "option:" ++ option.option.string ++ " " ++ ("weight:" ++ ("\"" ++ option.weight ++ "\""))

def DecimalText (s : String) : Prop := ∀ c ∈ s.toList, c.isDigit = true ∨ c = '.'

instance (s : String) : Decidable (DecimalText s) := List.decidableBAll _ _

structure ValidOption (option : WeightedVoteOption) : Prop where
  specified : option.option ≠ .unspecified
  weight : DecimalText option.weight

/-- What Go's JSON decoder and the SDK do: no object starts with `o` or `[`, and
the name of an option is its text. -/
structure Module.Parses (m : Module) : Prop where
  unmarshal : ∀ text c, text.toList.head? = some c → c = 'o' ∨ c = '[' →
    ∃ message, m.unmarshalOption text = .error message
  fromString : ∀ option : VoteOption, option ≠ .unspecified →
    m.voteOptionFromString option.string = .ok option

def wholeVote : String := "1.000000000000000000"

variable {m : Module}

theorem DecimalText.not_mem {s : String} (h : DecimalText s) {c : Char} (hdigit : c.isDigit = false)
    (hdot : c ≠ '.') : c ∉ s.toList := by
  intro hc
  rcases h c hc with hd | rfl
  · rw [hdigit] at hd
    cases hd
  · exact hdot rfl

theorem VoteOption.blank_not_mem (option : VoteOption) : ' ' ∉ option.string.toList := by
  cases option <;> decide

theorem VoteOption.lowercase_not_mem (option : VoteOption) : 'o' ∉ option.string.toList := by
  cases option <;> decide

theorem removed_option (option : VoteOption) :
    Text.replaceAll ("option:" ++ option.string) "option:" "" = option.string := by
  rw [Text.replaceAll_append (by decide)]
  exact Text.replaceAll_of_not_mem (c := 'o') rfl (VoteOption.lowercase_not_mem option)

section
variable {option : WeightedVoteOption} (h : ValidOption option)
include h

/-- A line has a blank between the option and its weight, and nowhere else. -/
theorem splitAt_renderedOption : Text.splitAt (renderedOption option) ' ' =
    ["option:" ++ option.option.string, "weight:" ++ ("\"" ++ option.weight ++ "\"")] := by
  have hweight := h.weight.not_mem (c := ' ') rfl (by decide)
  have hname := VoteOption.blank_not_mem option.option
  exact Text.splitAt_pair (by simp [hname]) (by simp [hweight])

theorem removed_weight :
    Text.replaceAll (Text.replaceAll ("weight:" ++ ("\"" ++ option.weight ++ "\"")) "weight:" "")
      "\"" "" = option.weight := by
  have hw := h.weight.not_mem (c := 'w') rfl (by decide)
  have hquote := h.weight.not_mem (c := '"') rfl (by decide)
  have hlead : Text.replaceAll ("weight:" ++ ("\"" ++ option.weight ++ "\"")) "weight:" "" =
      "\"" ++ option.weight ++ "\"" := by
    rw [Text.replaceAll_append (by decide)]
    exact Text.replaceAll_of_not_mem (c := 'w') rfl (by simp [hw])
  rw [hlead, show ("\"" : String) = .singleton '"' from rfl, Text.replaceAll_singleton]
  have hfilter : (option.weight.toList.filter fun d => d ≠ '"') = option.weight.toList :=
    List.filter_eq_self.mpr fun d hd => decide_eq_true fun heq => hquote (heq ▸ hd)
  rw [String.toList_append, String.toList_append, List.filter_append, List.filter_append, hfilter]
  simp

theorem parse_renderedOption (hm : m.Parses) :
    m.parseWeightVoteOption (renderedOption option) = .ok option := by
  obtain ⟨message, hmessage⟩ := hm.unmarshal (renderedOption option) 'o'
    (by simp [renderedOption]) (.inl rfl)
  rw [Module.parseWeightVoteOption, hmessage, splitAt_renderedOption h]
  simp only [removed_option, removed_weight h, hm.fromString option.option h.specified]

end

theorem renderedOption_wholeVote (option : VoteOption) : renderedOption ⟨option, wholeVote⟩ =
    "option:" ++ option.string ++ " weight:\"1.000000000000000000\"" := by
  rw [renderedOption, String.append_assoc]
  rfl

theorem wholeVote_decimal : DecimalText wholeVote := by decide

theorem parse_wholeVote {option : VoteOption} (h : option ≠ .unspecified) (hm : m.Parses) :
    m.parseWeightVoteOption ("option:" ++ option.string ++ " weight:\"1.000000000000000000\"") =
      .ok ⟨option, wholeVote⟩ := by
  rw [← renderedOption_wholeVote]
  exact parse_renderedOption ⟨h, wholeVote_decimal⟩ hm

theorem plain_parses : plain.Parses where
  unmarshal _ _ _ _ := ⟨_, rfl⟩
  fromString option h := by
    cases option with
    | unspecified => exact absurd rfl h
    | yes => rfl
    | abstain => rfl
    | no => rfl
    | noWithVeto => rfl

end SafrochainIndexer.Callisto.Gov
