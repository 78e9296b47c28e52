import Schemata.Proofs.DocComment.Additions
import Schemata.Proofs.TypeScript.NumericLiteral

/-! The numbers that tags give. A bound is the first word of its tag and a default value the whole
text, both as they are, wherever they are numerals. But not each numeral is a literal: the words for
infinity and for no number are names, and no digit may follow a zero in front. -/
namespace Schemata.DocComment

open Refinement Text TypeScript

/-- The word that a bound is read from. -/
def Tag.word (tag : Tag) : List Char := firstWord tag.value.toList

/-- The text is a literal, and it stands for the number of the numeral. -/
def WritesNumber (text numeral : List Char) : Prop :=
  ∃ v, signedLiteral? text = some v ∧ numeralValue? numeral = some v

/-- Bounds, and a default value that was taken for a number, are literals for the numbers of their
tags. -/
structure NumbersExact (tags : List Tag) : Prop where
  bounds : ∀ a ∈ additions tags, a.method ∈ ["min", "max"] →
    ∃ text, a.args = [.number (String.ofList text)] ∧ WritesNumber text a.tag.word
  default : ∀ text, lastDefault tags = some (.raw text) → isNumeral text.toList = true →
    WritesNumber text.toList text.toList

/-- A numeral that is no word, and in which no digit follows a zero in front. -/
def isPlainNumeral (cs : List Char) : Bool :=
  isDecimal (dropSign cs) && !isZeroLed (dropSign cs)

variable {tag : Tag} {tags : List Tag} {method : String} {args : List Expr} {cs : List Char}

theorem writesNumber_self_iff : WritesNumber cs cs ↔ isPlainNumeral cs = true := by
  rw [WritesNumber, signedLiteral?_eq_numeralValue?_iff, isPlainNumeral, Bool.and_eq_true,
    Bool.not_eq_true']

/-- A bound comes from a tag for bounds whose first word is a numeral. -/
theorem bound_of_asks (asks : Asks tag (.call method args)) (bound : method ∈ ["min", "max"]) :
    tag.name ∈ minimumTags ++ maximumTags ∧ isNumeral tag.word = true ∧
      args = [.number (String.ofList tag.word)] := by
  cases asks with
  | minimum named read =>
    obtain ⟨numeral, rfl⟩ := numeral?_eq_some.mp read
    exact ⟨List.mem_append_left _ named, numeral, rfl⟩
  | maximum named read =>
    obtain ⟨numeral, rfl⟩ := numeral?_eq_some.mp read
    exact ⟨List.mem_append_right _ named, numeral, rfl⟩
  | format named read =>
    have apart : ∀ method ∈ ["email", "uuid", "url", "datetime"], method ∉ ["min", "max"] := by decide
    exact absurd bound (apart method (formatMethod?_mem read))
  | pattern => exact absurd bound (by decide)

theorem asks_bound (named : tag.name ∈ minimumTags ++ maximumTags)
    (numeral : isNumeral tag.word = true) : ∃ method ∈ ["min", "max"],
      Asks tag (.call method [.number (String.ofList tag.word)]) := by
  have read : numeral? tag.value = some (.number (String.ofList tag.word)) :=
    numeral?_eq_some.mpr ⟨numeral, rfl⟩
  rcases List.mem_append.mp named with least | greatest
  · exact ⟨"min", by decide, .minimum least read⟩
  · exact ⟨"max", by decide, .maximum greatest read⟩

theorem NumbersExact.plain (exactly : NumbersExact tags) (member : tag ∈ tags)
    (named : tag.name ∈ minimumTags ++ maximumTags) (numeral : isNumeral tag.word = true) :
    isPlainNumeral tag.word = true := by
  obtain ⟨method, bound, asks⟩ := asks_bound named numeral
  obtain ⟨text, same, writes⟩ :=
    exactly.bounds ⟨tag, method, _⟩ (mem_additions.mpr ⟨member, asks⟩) bound
  rw [List.singleton_inj, Expr.number.injEq, String.ofList_inj] at same
  exact writesNumber_self_iff.mp (same ▸ writes)

/-- Tags whose first words are no numerals add no bounds. The others add numbers exactly if each of
their numerals is plain. -/
theorem numbers_exact_iff (e : Expr) (comment : String) :
    Refined.ofComment e comment =
        ⟨chain e (additions (Tag.ofComment comment)), lastDefault (Tag.ofComment comment)⟩ ∧
      (∀ a ∈ additions (Tag.ofComment comment), a.method ∈ ["min", "max"] →
        isNumeral a.tag.word = true) ∧
      (NumbersExact (Tag.ofComment comment) ↔
        (∀ tag ∈ Tag.ofComment comment, tag.name ∈ minimumTags ++ maximumTags →
          isNumeral tag.word = true → isPlainNumeral tag.word = true) ∧
        ∀ text, lastDefault (Tag.ofComment comment) = some (.raw text) →
          isNumeral text.toList = true → isPlainNumeral text.toList = true) := by
  refine ⟨ofTags_eq e _, fun a added bound => ?_, ?_, ?_⟩
  · exact (bound_of_asks (mem_additions.mp added).2 bound).2.1
  · intro exactly
    refine ⟨fun tag member => exactly.plain member, fun text last numeral => ?_⟩
    exact writesNumber_self_iff.mp (exactly.default text last numeral)
  · rintro ⟨bounds, default⟩
    refine ⟨fun a added bound => ?_, fun text last numeral => ?_⟩
    · obtain ⟨member, asks⟩ := mem_additions.mp added
      obtain ⟨named, numeral, args⟩ := bound_of_asks asks bound
      exact ⟨a.tag.word, args, writesNumber_self_iff.mpr (bounds a.tag member named numeral)⟩
    · exact writesNumber_self_iff.mpr (default text last numeral)

/-- A bound by a word for infinity. -/
def boundComment : String := "/** @minimum inf */"

/-- The word is taken for a number, and is none where it is written. -/
theorem not_numbersExact_inf : ¬ NumbersExact (Tag.ofComment boundComment) := by
  have tags : Tag.ofComment boundComment = [⟨"minimum", "inf"⟩] := by decide +kernel
  rw [tags]
  intro exactly
  exact absurd (exactly.plain (List.mem_singleton_self _) (by decide) (by decide)) (by decide)

end Schemata.DocComment
