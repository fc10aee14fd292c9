import SafrochainIndexer.Callisto.WeightedVotes

/-!
# Options of votes

An option of a vote comes in two renderings, JSON and text, and
`parseWeightVoteOption` tries them in this order. It reads each of them back
(`option_read_back`) and rejects whatever is neither JSON nor two fields.
-/

namespace SafrochainIndexer.Callisto.Gov

variable {m : Module}

/-- In addition, Go's JSON decoder fills the option from its number and the
weight from its string. -/
structure Module.Decodes (m : Module) : Prop extends m.Parses where
  object : ∀ option, ValidOption option → m.unmarshalOption (jsonOption option) = .ok option

-- ---------------------------------------------------------------------------
-- Events
-- ---------------------------------------------------------------------------

/-- Of all attributes under the key, in the order of the events, the first has
this value. -/
def FirstAttribute (key : String) (events : List Event) (value : String) : Prop :=
  ∃ before after, events.flatMap Event.attributes = before ++ ⟨key, value⟩ :: after ∧
    ∀ attr ∈ before, attr.key ≠ key

theorem attributeFromEvents_flatMap (key : String) (events : List Event) :
    attributeFromEvents key events =
      ((events.flatMap Event.attributes).find? fun attr => attr.key = key).map Attribute.value := by
  rw [attributeFromEvents, List.find?_flatMap]
  rfl

theorem attributeFromEvents_first {key value : String} {events : List Event}
    (h : FirstAttribute key events value) : attributeFromEvents key events = some value := by
  obtain ⟨before, after, hattributes, hbefore⟩ := h
  have hnone : before.find? (fun attr => attr.key = key) = none := by
    simpa using hbefore
  rw [attributeFromEvents_flatMap, hattributes, List.find?_append, hnone]
  simp

-- ---------------------------------------------------------------------------
-- Renderings
-- ---------------------------------------------------------------------------

def renderings (option : WeightedVoteOption) : List String :=
  [jsonOption option, renderedOption option]

theorem parse_jsonOption (hm : m.Decodes) {option : WeightedVoteOption} (h : ValidOption option) :
    m.parseWeightVoteOption (jsonOption option) = .ok option := by
  rw [Module.parseWeightVoteOption, hm.object option h]

theorem parse_rendering (hm : m.Decodes) {option : WeightedVoteOption} (h : ValidOption option)
    {text : String} (htext : text ∈ renderings option) :
    m.parseWeightVoteOption text = .ok option := by
  simp only [renderings, List.mem_cons, List.not_mem_nil, or_false] at htext
  rcases htext with rfl | rfl
  · exact parse_jsonOption hm h
  · exact parse_renderedOption h hm.toParses

theorem parse_rejects {text message : String} (hjson : m.unmarshalOption text = .error message)
    (hfields : (Text.splitAt text ' ').length ≠ 2) :
    ∃ error, m.parseWeightVoteOption text = .error error := by
  cases hparse : m.parseWeightVoteOption text with
  | error error => exact ⟨error, rfl⟩
  | ok option => exact absurd hparse (parse_ne_ok hjson hfields option)

/-- Both renderings of an option are read back, alone or as the first `option`
attribute of events, and a text that the decoder refuses is rejected unless it
has two fields. -/
theorem option_read_back (hm : m.Decodes) :
    (∀ option text, ValidOption option → text ∈ renderings option →
      m.parseWeightVoteOption text = .ok option ∧
        ∀ events, FirstAttribute "option" events text →
          m.weightVoteOptionFromEvents events = .ok option) ∧
    ∀ text message, m.unmarshalOption text = .error message →
      (Text.splitAt text ' ').length ≠ 2 →
        ∃ error, m.parseWeightVoteOption text = .error error := by
  constructor
  · intro option text h htext
    have hparse := parse_rendering hm h htext
    refine ⟨hparse, fun events hfirst => ?_⟩
    rw [Module.weightVoteOptionFromEvents, attributeFromEvents_first hfirst]
    exact hparse
  · intro text message hjson hfields
    exact parse_rejects hjson hfields

-- ---------------------------------------------------------------------------
-- A decoder
-- ---------------------------------------------------------------------------

/-- The decoder on objects of an option: the weight is what stands between the
22 characters before it and the two after it. -/
def decodeOption (text : String) : Except String WeightedVoteOption :=
  let weight := String.ofList (text.toList.drop 22).dropLast.dropLast
  match [VoteOption.yes, .abstain, .no, .noWithVeto].find? fun option =>
      jsonOption ⟨option, weight⟩ = text with
  | some option => .ok ⟨option, weight⟩
  | none => .error "invalid character"

def jsonVotes : Module := { plain with unmarshalOption := decodeOption }

theorem jsonOption_inj {a b : VoteOption} {weight : String} :
    jsonOption ⟨a, weight⟩ = jsonOption ⟨b, weight⟩ ↔ a = b := by
  constructor
  · intro h
    simp only [jsonOption, String.append_left_inj, String.append_right_inj] at h
    cases a <;> cases b <;> first | rfl | exact absurd h (by decide)
  · rintro rfl
    rfl

theorem jsonOption_head (option : WeightedVoteOption) :
    (jsonOption option).toList.head? = some '\x7b' := by
  simp [jsonOption]

theorem decodeOption_error {text : String} {c : Char} (hhead : text.toList.head? = some c)
    (hc : c ≠ '\x7b') : ∃ message, decodeOption text = .error message := by
  unfold decodeOption
  cases hfind : [VoteOption.yes, .abstain, .no, .noWithVeto].find? (fun option =>
      jsonOption ⟨option, String.ofList (text.toList.drop 22).dropLast.dropLast⟩ = text) with
  | none =>
    simp only [hfind]
    exact ⟨_, rfl⟩
  | some option =>
    have hrendered := List.find?_some hfind
    rw [← of_decide_eq_true hrendered, jsonOption_head] at hhead
    exact absurd (Option.some.inj hhead).symm hc

theorem decodeOption_object {option : WeightedVoteOption} (h : option.option ≠ .unspecified) :
    decodeOption (jsonOption option) = .ok option := by
  obtain ⟨option, weight⟩ := option
  have hlead : ("\x7b\"option\":" ++ toString option.number ++
      ",\"weight\":\"").toList.length = 22 := by
    cases option <;> decide
  have hweight : String.ofList ((jsonOption ⟨option, weight⟩).toList.drop 22).dropLast.dropLast =
      weight := by
    rw [jsonOption, String.append_assoc, String.toList_append, List.drop_left' hlead]
    simp
  simp only [decodeOption, hweight, jsonOption_inj]
  cases option with
  | unspecified => exact absurd rfl h
  | yes => rfl
  | abstain => rfl
  | no => rfl
  | noWithVeto => rfl

theorem jsonVotes_decodes : jsonVotes.Decodes where
  unmarshal text c hhead hc := decodeOption_error hhead (by rcases hc with rfl | rfl <;> decide)
  fromString := plain_parses.fromString
  object option h := decodeOption_object h.specified

theorem half_no : ValidOption ⟨.no, "0.500000000000000000"⟩ := ⟨by decide, by decide⟩

/-- Half a vote in JSON, half a vote in events, and a text without fields. -/
theorem option_read_back_half :
    jsonVotes.parseWeightVoteOption "\x7b\"option\":3,\"weight\":\"0.500000000000000000\"\x7d" =
        .ok ⟨.no, "0.500000000000000000"⟩ ∧
      jsonVotes.weightVoteOptionFromEvents
          [⟨"proposal_vote", [⟨"voter", "safro1"⟩,
            ⟨"option", "option:VOTE_OPTION_NO weight:\"0.500000000000000000\""⟩]⟩] =
        .ok ⟨.no, "0.500000000000000000"⟩ ∧
      ∃ error, jsonVotes.parseWeightVoteOption "VOTE_OPTION_NO" = .error error := by
  obtain ⟨hread, hrejected⟩ := option_read_back jsonVotes_decodes
  refine ⟨?_, ?_, ?_⟩
  · have hjson : jsonOption ⟨.no, "0.500000000000000000"⟩ ∈
        renderings ⟨.no, "0.500000000000000000"⟩ := List.mem_cons_self
    exact (hread _ _ half_no hjson).1
  · have htext : "option:VOTE_OPTION_NO weight:\"0.500000000000000000\"" ∈
        renderings ⟨.no, "0.500000000000000000"⟩ := List.mem_cons_of_mem _ List.mem_cons_self
    exact (hread _ _ half_no htext).2 _ ⟨[⟨"voter", "safro1"⟩], [], rfl, by decide⟩
  · exact hrejected "VOTE_OPTION_NO" "invalid character" (by decide) (by decide)

end SafrochainIndexer.Callisto.Gov
