import Schemata.Proofs.Naming.Words
import Schemata.Proofs.Text.Delimited

/-! Names of validators as identifiers. All that a validator's name takes over from an identifier
may stand in one; but the separators in front are dropped, and then a digit can come first. -/
namespace Schemata.Naming

open Text

variable {name : List Char} {c : Char}

@[simp]
theorem isAlphanum_toLower (c : Char) : c.toLower.isAlphanum = c.isAlphanum := by
  simp [Char.isAlphanum]

theorem isAscii_of_isNamePart (part : isNamePart c = true) : Casing.isAscii c = true := by
  simp only [isNamePart, isNameStart, Bool.or_eq_true, beq_iff_eq] at part
  rw [Casing.isAscii, decide_eq_true_eq]
  rcases part with ((alpha | rfl) | rfl) | digit
  · have := isAlpha_bounds alpha
    omega
  · decide
  · decide
  · have := isDigit_bounds digit
    omega

theorem isNameStart_of_isAlphanum (alphanum : c.isAlphanum = true) :
    isNameStart c = !c.isDigit := by
  rw [Char.isAlphanum, Bool.or_eq_true] at alphanum
  cases digit : c.isDigit with
  | false =>
    rw [digit] at alphanum
    simp [isNameStart, alphanum.resolve_right Bool.false_ne_true]
  | true =>
    obtain ⟨low, high⟩ := isDigit_bounds digit
    have alpha : c.isAlpha = false := by
      rw [Bool.eq_false_iff]
      intro alpha
      have := isAlpha_bounds alpha
      omega
    have underscore : c ≠ '_' := by
      rintro rfl
      contradiction
    have dollar : c ≠ '$' := by
      rintro rfl
      contradiction
    simp [isNameStart, alpha, underscore, dollar]

theorem isNamePart_of_isAlphanum (alphanum : c.isAlphanum = true) : isNamePart c = true := by
  rw [Char.isAlphanum, Bool.or_eq_true] at alphanum
  rcases alphanum with alpha | digit
  · simp [isNamePart, isNameStart, alpha]
  · simp [isNamePart, digit]

theorem isAlphanum_of_mem_unseparated (identifier : isName name = true)
    (member : c ∈ unseparated name) : c.isAlphanum = true := by
  obtain ⟨inside, kept⟩ := List.mem_filter.mp member
  have part := isName_parts identifier c inside
  simp only [isNamePart, isNameStart, Bool.or_eq_true, beq_iff_eq] at part
  simp only [isSeparator, Bool.not_eq_true', Bool.or_eq_false_iff, beq_eq_false_iff_ne] at kept
  obtain ⟨⟨⟨underscore, -⟩, dollar⟩, -⟩ := kept
  have alphanum : c.isAlpha = true ∨ c.isDigit = true := by tauto
  simpa [Char.isAlphanum] using alphanum

theorem map_toLower_camel_of_isName (identifier : isName name = true) :
    (camel name).map Char.toLower = (unseparated name).map Char.toLower :=
  map_toLower_camel fun c member => isAscii_of_isNamePart (isName_parts identifier c member)

/-- Camel case is made of letters and digits alone. -/
theorem isAlphanum_of_mem_camel (identifier : isName name = true) (member : c ∈ camel name) :
    c.isAlphanum = true := by
  have lowered : c.toLower ∈ (camel name).map Char.toLower := List.mem_map_of_mem member
  rw [map_toLower_camel_of_isName identifier] at lowered
  obtain ⟨d, inside, same⟩ := List.mem_map.mp lowered
  have alphanum := isAlphanum_of_mem_unseparated identifier inside
  rwa [← isAlphanum_toLower, same, isAlphanum_toLower] at alphanum

theorem head?_camel_isDigit (identifier : isName name = true) :
    (camel name).head?.map Char.isDigit = (unseparated name).head?.map Char.isDigit := by
  have heads := congrArg (fun cs => cs.head?.map Char.isDigit)
    (map_toLower_camel_of_isName identifier)
  simpa [Function.comp_def] using heads

/-- The standard name of a validator is an identifier exactly if no digit comes first where the
separators are dropped. -/
theorem standard_isIdentifier_iff {type : String} (identifier : isIdentifier type = true) :
    isIdentifier (standard type) = true ↔
      ∀ c ∈ (unseparated type.toList).head?, c.isDigit = false := by
  have whole : (standard type).toList = camel type.toList ++ "Schema".toList := by
    simp [standard, Scheme.name, camelCase]
  have heads := head?_camel_isDigit identifier
  rw [isIdentifier, whole]
  cases camelled : camel type.toList with
  | nil =>
    rw [camelled, List.head?_nil, Option.map_none, eq_comm, Option.map_eq_none_iff] at heads
    simp only [heads, Option.mem_def, reduceCtorEq, false_imp_iff, forall_true_iff, iff_true]
    decide
  | cons c cs =>
    have alphanum (d : Char) (member : d ∈ c :: cs) : d.isAlphanum = true :=
      isAlphanum_of_mem_camel identifier (camelled ▸ member)
    have rest : (cs ++ "Schema".toList).all isNamePart = true := by
      rw [List.all_append, Bool.and_eq_true]
      refine ⟨List.all_eq_true.mpr fun d member => ?_, by decide⟩
      exact isNamePart_of_isAlphanum (alphanum d (List.mem_cons_of_mem c member))
    rw [camelled, List.head?_cons, Option.map_some, eq_comm, Option.map_eq_some_iff] at heads
    obtain ⟨d, first, same⟩ := heads
    rw [List.cons_append, isName, rest, Bool.and_true,
      isNameStart_of_isAlphanum (alphanum c List.mem_cons_self), first, ← same]
    simp

theorem standard_isIdentifier_api :
    isIdentifier "_API_2" = true ∧ isIdentifier (standard "_API_2") = true := by
  have identifier : isIdentifier "_API_2" = true := by decide
  have first : (unseparated "_API_2".toList).head? = some 'A' := by decide
  refine ⟨identifier, (standard_isIdentifier_iff identifier).mpr ?_⟩
  rw [first]
  rintro c ⟨⟩
  decide

/-- A separator is dropped in front of a digit. -/
theorem not_isIdentifier_standard :
    ¬ ∀ type, isIdentifier type = true → isIdentifier (standard type) = true := by
  intro all
  have accepted : isIdentifier "_1" = true := by decide
  have named : standard "_1" = "1Schema" := by decide +kernel
  have identifier := all "_1" accepted
  rw [named] at identifier
  contradiction

end Schemata.Naming
