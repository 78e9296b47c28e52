import Mathlib.Data.List.Basic
import Schemata.DocComment.Refinement

/-! What the tags of a comment add to a validator: a chain of calls, one for each tag that asks for
one, in the order of the tags, and the default value of the last tag that gives one. -/
namespace Schemata.DocComment

open Refinement

/-- What a tag asks for. Tags with other names, and those whose values are not of use, ask for
nothing. -/
inductive Asks (tag : Tag) : Refinement → Prop
  | minimum {n : Expr} : tag.name ∈ minimumTags → numeral? tag.value = some n →
    Asks tag (.call "min" [n])
  | maximum {n : Expr} : tag.name ∈ maximumTags → numeral? tag.value = some n →
    Asks tag (.call "max" [n])
  | format {method : String} : tag.name = "format" → formatMethod? tag.value = some method →
    Asks tag (.call method [])
  | pattern : tag.name = "pattern" → tag.value ≠ "" → Asks tag (.call "regex" [regex tag.value])
  | default : tag.name = "default" → tag.value ≠ "" → Asks tag (.default (defaultValue tag.value))

/-- A call that a tag adds to a validator. -/
structure Addition where
  tag : Tag
  method : String
  args : List Expr

def Addition.onto (e : Expr) (a : Addition) : Expr := .call e a.method a.args

def addition? (tag : Tag) : Option Addition :=
  match ofTag? tag with
  | some (.call method args) => some ⟨tag, method, args⟩
  | _ => none

def default? (tag : Tag) : Option Expr :=
  match ofTag? tag with
  | some (.default value) => some value
  | _ => none

/-- The calls that tags add, from the inside to the outside. -/
def additions (tags : List Tag) : List Addition := tags.filterMap addition?

def chain (e : Expr) (calls : List Addition) : Expr := calls.foldl Addition.onto e

/-- The methods that tags call. -/
def refinementMethods : List String := ["min", "max", "email", "uuid", "url", "datetime", "regex"]

/-- What tags write down. -/
inductive Literal : Expr → Prop
  | str (value : String) : Literal (.str value)
  | number (text : String) : Literal (.number text)
  | raw (text : String) : Literal (.raw text)

def lastDefault (tags : List Tag) : Option Expr := (tags.filterMap default?).getLast?

variable {tag : Tag} {tags : List Tag} {a : Addition} {r : Refinement} {e : Expr}

theorem formatMethod?_mem {value method : String} (found : formatMethod? value = some method) :
    method ∈ ["email", "uuid", "url", "datetime"] := by
  unfold formatMethod? at found
  split at found
  case h_6 => contradiction
  all_goals
    obtain rfl := Option.some.inj found
    decide

/-- The first word of a value is taken as it is. -/
theorem numeral?_eq_some {value : String} {n : Expr} : numeral? value = some n ↔
    Text.isNumeral (Text.firstWord value.toList) = true ∧
      n = .number (String.ofList (Text.firstWord value.toList)) := by
  rw [numeral?]
  split
  · rename_i numeral
    rw [Option.some.injEq, and_iff_right numeral, eq_comm]
  · rename_i other
    exact iff_of_false (fun found => nomatch found) fun both => other both.1

theorem asks_of_ofTag? (found : ofTag? tag = some r) : Asks tag r := by
  unfold ofTag? at found
  split at found
  · rename_i named
    obtain ⟨n, read, rfl⟩ := Option.map_eq_some_iff.mp found
    exact .minimum named read
  · split at found
    · rename_i named
      obtain ⟨n, read, rfl⟩ := Option.map_eq_some_iff.mp found
      exact .maximum named read
    · split at found
      · rename_i named
        obtain ⟨method, read, rfl⟩ := Option.map_eq_some_iff.mp found
        exact .format named read
      · split at found
        · rename_i named
          split at found
          · contradiction
          · rename_i full
            obtain rfl := Option.some.inj found
            exact .pattern named fun empty => full (String.isEmpty_iff.mpr empty)
        · split at found
          · rename_i named
            split at found
            · contradiction
            · rename_i full
              obtain rfl := Option.some.inj found
              exact .default named fun empty => full (String.isEmpty_iff.mpr empty)
          · contradiction

/-- No two kinds of tags have a name in common. -/
theorem ofTag?_of_asks (asks : Asks tag r) : ofTag? tag = some r := by
  have nonempty {value : String} (full : value ≠ "") : ¬ value.isEmpty = true :=
    fun empty => full (String.isEmpty_iff.mp empty)
  cases asks with
  | minimum named read => rw [ofTag?, if_pos named, read, Option.map_some]
  | maximum named read =>
    have apart : ∀ name ∈ maximumTags, name ∉ minimumTags := by decide
    rw [ofTag?, if_neg (apart _ named), if_pos named, read, Option.map_some]
  | format named read =>
    have minimum : tag.name ∉ minimumTags := named ▸ by decide
    have maximum : tag.name ∉ maximumTags := named ▸ by decide
    rw [ofTag?, if_neg minimum, if_neg maximum, if_pos named, read, Option.map_some]
  | pattern named full =>
    have minimum : tag.name ∉ minimumTags := named ▸ by decide
    have maximum : tag.name ∉ maximumTags := named ▸ by decide
    have format : tag.name ≠ "format" := named ▸ by decide
    rw [ofTag?, if_neg minimum, if_neg maximum, if_neg format, if_pos named,
      if_neg (nonempty full)]
  | default named full =>
    have minimum : tag.name ∉ minimumTags := named ▸ by decide
    have maximum : tag.name ∉ maximumTags := named ▸ by decide
    have format : tag.name ≠ "format" := named ▸ by decide
    have pattern : tag.name ≠ "pattern" := named ▸ by decide
    rw [ofTag?, if_neg minimum, if_neg maximum, if_neg format, if_neg pattern, if_pos named,
      if_neg (nonempty full)]

theorem ofTag?_eq_some : ofTag? tag = some r ↔ Asks tag r := ⟨asks_of_ofTag?, ofTag?_of_asks⟩

theorem addition?_eq_some :
    addition? tag = some a ↔ a.tag = tag ∧ Asks tag (.call a.method a.args) := by
  constructor
  · intro found
    unfold addition? at found
    split at found
    · rename_i method args asked
      obtain rfl := Option.some.inj found
      exact ⟨rfl, asks_of_ofTag? asked⟩
    · contradiction
  · rintro ⟨rfl, asks⟩
    rw [addition?, ofTag?_of_asks asks]

theorem default?_eq_some {value : Expr} : default? tag = some value ↔ Asks tag (.default value) := by
  rw [← ofTag?_eq_some, default?]
  split <;> simp_all

theorem mem_additions :
    a ∈ additions tags ↔ a.tag ∈ tags ∧ Asks a.tag (.call a.method a.args) := by
  rw [additions, List.mem_filterMap]
  constructor
  · rintro ⟨tag, member, found⟩
    obtain ⟨rfl, asks⟩ := addition?_eq_some.mp found
    exact ⟨member, asks⟩
  · rintro ⟨member, asks⟩
    exact ⟨a.tag, member, addition?_eq_some.mpr ⟨rfl, asks⟩⟩

/-- Tags call refinements, with literals as arguments. -/
theorem refines_of_mem_additions (added : a ∈ additions tags) :
    a.method ∈ refinementMethods ∧ ∀ e ∈ a.args, Literal e := by
  have numeral {value : String} {n : Expr} (read : numeral? value = some n) : Literal n := by
    obtain ⟨-, rfl⟩ := numeral?_eq_some.mp read
    exact .number _
  obtain ⟨tag, method, args⟩ := a
  obtain ⟨-, asks⟩ := mem_additions.mp added
  dsimp only at asks ⊢
  cases asks with
  | minimum _ read | maximum _ read =>
    exact ⟨by decide, List.forall_mem_singleton.mpr (numeral read)⟩
  | format _ read =>
    have formats : ["email", "uuid", "url", "datetime"] ⊆ refinementMethods := by decide
    exact ⟨formats (formatMethod?_mem read), List.forall_mem_nil _⟩
  | pattern _ _ => exact ⟨by decide, List.forall_mem_singleton.mpr (.raw _)⟩

theorem literal_of_lastDefault {value : Expr} (last : lastDefault tags = some value) :
    Literal value := by
  obtain ⟨tag, -, found⟩ := List.mem_filterMap.mp (List.mem_of_getLast? last)
  cases default?_eq_some.mp found with
  | default _ _ =>
    unfold defaultValue
    split
    · exact .raw _
    · exact .str _

theorem chain_cons (e : Expr) (a : Addition) (calls : List Addition) :
    chain e (a :: calls) = chain (a.onto e) calls := rfl

/-- The same calls tell validators apart. -/
theorem chain_inj {e e' : Expr} (calls : List Addition) : chain e' calls = chain e calls ↔ e' = e := by
  induction calls generalizing e e' with
  | nil => exact Iff.rfl
  | cons a rest ih =>
    rw [chain_cons, chain_cons, ih, Addition.onto, Addition.onto, Expr.call.injEq, and_iff_left]
    exact ⟨rfl, rfl⟩

theorem ofTags_eq (e : Expr) (tags : List Tag) :
    Refined.ofTags e tags = ⟨chain e (additions tags), lastDefault tags⟩ := by
  have fold (r : Refined) : tags.foldl Refined.addTag r =
      ⟨chain r.expr (additions tags), (lastDefault tags).or r.default⟩ := by
    induction tags generalizing r with
    | nil => rfl
    | cons tag rest ih =>
      rw [List.foldl_cons, ih, Refined.addTag, additions, additions, lastDefault, lastDefault,
        List.filterMap_cons, List.filterMap_cons, addition?, default?]
      cases ofTag? tag with
      | none => rfl
      | some refinement =>
        cases refinement with
        | call method args => rfl
        | default value =>
          rw [List.getLast?_cons]
          cases (rest.filterMap default?).getLast? <;> rfl
  rw [Refined.ofTags, fold, Option.or_none]

end Schemata.DocComment
