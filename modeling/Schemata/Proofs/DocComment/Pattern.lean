import Schemata.Proofs.DocComment.Additions
import Schemata.Proofs.TypeScript.RegexLiteral

/-! The literals of patterns. A tag may bring the slashes of a literal with its pattern or leave them
out, so all slashes at both ends of the value give way to those of the literal. Nothing is escaped:
what stands between the slashes is the pattern exactly if it may stand there as it is, and if no slash
at its end is one of its own. -/
namespace Schemata.DocComment

open Text TypeScript

/-- The pattern that a value gives: what stands between slashes around it, or else all of it. -/
def patternText : List Char → List Char
  | '/' :: rest => if rest.getLast? = some '/' then rest.dropLast else '/' :: rest
  | value => value

/-- Each literal that `regex` is called with is well-formed, and its body is the pattern of the tag. -/
def PatternsExact (calls : List Addition) : Prop :=
  ∀ a ∈ calls, a.method = "regex" → ∃ body, a.args = [.raw (String.ofList (regexLiteral body))] ∧
    isRegexBody body = true ∧ SamePattern body (patternText a.tag.value.toList)

/-- The pattern of a value is the body of a literal as it is, without a slash at its end. -/
structure Transcribable (value : List Char) : Prop where
  body : isRegexBody (patternText value) = true
  last : (patternText value).getLast? ≠ some '/'

/-- What the literal for a value has between its slashes. -/
def trimSlashes (value : List Char) : List Char :=
  dropRight (· == '/') (value.dropWhile (· == '/'))

variable {cs body : List Char}

theorem regex_eq (value : String) :
    Refinement.regex value = .raw (String.ofList (regexLiteral (trimSlashes value.toList))) := rfl

/-! ## Slashes at the ends -/

theorem dropWhile_slash_eq_self (other : cs.head? ≠ some '/') : cs.dropWhile (· == '/') = cs := by
  cases cs with
  | nil => rfl
  | cons c rest =>
    refine List.dropWhile_cons_of_neg fun slash => other ?_
    rw [List.head?_cons, eq_of_beq slash]

theorem trimSlashes_eq_self (first : cs.head? ≠ some '/') (last : cs.getLast? ≠ some '/') :
    trimSlashes cs = cs := by
  rw [← List.head?_reverse] at last
  rw [trimSlashes, dropRight, dropWhile_slash_eq_self first, dropWhile_slash_eq_self last,
    List.reverse_reverse]

theorem dropWhile_slash_cons (rest : List Char) :
    ('/' :: rest).dropWhile (· == '/') = rest.dropWhile (· == '/') :=
  List.dropWhile_cons_of_pos rfl

theorem head?_dropWhile_slash (cs : List Char) : (cs.dropWhile (· == '/')).head? ≠ some '/' := by
  intro slash
  have outside := List.head?_dropWhile_not (· == '/') cs
  rw [slash] at outside
  contradiction

theorem getLast?_trimSlashes (cs : List Char) : (trimSlashes cs).getLast? ≠ some '/' := by
  rw [trimSlashes, dropRight, List.getLast?_reverse]
  exact head?_dropWhile_slash _

/-- Slashes can be counted to know whether one is dropped. -/
theorem dropWhile_slash_eq_self_of_count
    (same : (cs.dropWhile (· == '/')).count '/' = cs.count '/') : cs.dropWhile (· == '/') = cs := by
  refine dropWhile_slash_eq_self fun slash => ?_
  obtain ⟨rest, rfl⟩ := List.head?_eq_some_iff.mp slash
  rw [dropWhile_slash_cons, List.count_cons_self] at same
  have fewer : (rest.dropWhile (· == '/')).count '/' ≤ rest.count '/' :=
    (List.dropWhile_sublist _).count_le _
  omega

theorem trimSlashes_eq_self_of_count (same : (trimSlashes cs).count '/' = cs.count '/') :
    trimSlashes cs = cs := by
  rw [trimSlashes, dropRight, List.count_reverse] at same
  have right : ((cs.dropWhile (· == '/')).reverse.dropWhile (· == '/')).count '/' ≤
      (cs.dropWhile (· == '/')).reverse.count '/' := (List.dropWhile_sublist _).count_le _
  have left : (cs.dropWhile (· == '/')).count '/' ≤ cs.count '/' :=
    (List.dropWhile_sublist _).count_le _
  rw [List.count_reverse] at right
  have front : cs.dropWhile (· == '/') = cs := dropWhile_slash_eq_self_of_count (by omega)
  have back : cs.reverse.dropWhile (· == '/') = cs.reverse := by
    apply dropWhile_slash_eq_self_of_count
    rw [front] at same
    rw [same, List.count_reverse]
  rw [trimSlashes, dropRight, front, back, List.reverse_reverse]

theorem trimSlashes_concat (cs : List Char) : trimSlashes (cs ++ ['/']) = trimSlashes cs := by
  rw [trimSlashes, trimSlashes, List.dropWhile_append]
  split
  · rename_i empty
    rw [List.isEmpty_iff.mp empty]
    rfl
  · rw [dropRight, dropRight, List.reverse_concat, dropWhile_slash_cons]

/-- Slashes around a pattern go with those that are dropped. -/
theorem trimSlashes_patternText (cs : List Char) : trimSlashes (patternText cs) = trimSlashes cs := by
  unfold patternText
  split
  · rename_i rest
    split
    · rename_i closed
      obtain ⟨inner, rfl⟩ := List.getLast?_eq_some_iff.mp closed
      have opened : trimSlashes ('/' :: (inner ++ ['/'])) = trimSlashes (inner ++ ['/']) := by
        rw [trimSlashes, trimSlashes, dropWhile_slash_cons]
      rw [opened, trimSlashes_concat, List.dropLast_concat]
    · rfl
  · rfl

/-! ## Literals -/

theorem transcribable_iff (value : List Char) : Transcribable value ↔
    isRegexBody (trimSlashes value) = true ∧ SamePattern (trimSlashes value) (patternText value) := by
  rw [← trimSlashes_patternText]
  constructor
  · rintro ⟨body, last⟩
    have first : (patternText value).head? ≠ some '/' := by
      intro slash
      obtain ⟨rest, same⟩ := List.head?_eq_some_iff.mp slash
      rw [same, isRegexBody_slash] at body
      contradiction
    rw [trimSlashes_eq_self first last]
    exact ⟨body, rfl⟩
  · rintro ⟨body, same⟩
    have whole := trimSlashes_eq_self_of_count same.count_slashes
    exact ⟨whole ▸ body, whole ▸ getLast?_trimSlashes _⟩

/-- No other tag asks for a pattern. -/
theorem pattern_of_regex {tag : Tag} {method : String} {args : List Expr}
    (asks : Asks tag (.call method args)) (named : method = "regex") :
    tag.name = "pattern" ∧ tag.value ≠ "" ∧ args = [Refinement.regex tag.value] := by
  cases asks with
  | minimum | maximum => exact absurd named (by decide)
  | format _ read =>
    subst named
    exact absurd (formatMethod?_mem read) (by decide)
  | pattern called full => exact ⟨called, full, rfl⟩

theorem PatternsExact.transcribable {tags : List Tag} {tag : Tag}
    (exactly : PatternsExact (additions tags)) (member : tag ∈ tags) (named : tag.name = "pattern")
    (full : tag.value ≠ "") : Transcribable tag.value.toList := by
  obtain ⟨body, args, valid, same⟩ := exactly ⟨tag, "regex", [Refinement.regex tag.value]⟩
    (mem_additions.mpr ⟨member, .pattern named full⟩) rfl
  rw [regex_eq, List.singleton_inj, Expr.raw.injEq, String.ofList_inj, regexLiteral_inj] at args
  exact (transcribable_iff _).mpr ⟨args ▸ valid, args ▸ same⟩

/-- The literals that a comment adds are exact exactly if each of its patterns may stand between
slashes as it is and has none at its end. -/
theorem patterns_exact_iff (e : Expr) (comment : String) :
    (Refined.ofComment e comment).expr = chain e (additions (Tag.ofComment comment)) ∧
      (PatternsExact (additions (Tag.ofComment comment)) ↔
        ∀ tag ∈ Tag.ofComment comment, tag.name = "pattern" → tag.value ≠ "" →
          Transcribable tag.value.toList) := by
  refine ⟨by rw [Refined.ofComment, ofTags_eq], ?_, ?_⟩
  · exact fun exactly tag member => exactly.transcribable member
  · intro all a added named
    obtain ⟨member, asks⟩ := mem_additions.mp added
    obtain ⟨pattern, full, args⟩ := pattern_of_regex asks named
    exact ⟨_, args, (transcribable_iff _).mp (all a.tag member pattern full)⟩

/-- A pattern with a slash in it. -/
def routeComment : String := "/** @pattern ^a/b$ */"

/-- The slash in the pattern closes the literal. -/
theorem not_patternsExact_route :
    ¬ PatternsExact (additions (Tag.ofComment routeComment)) := by
  have tags : Tag.ofComment routeComment = [⟨"pattern", "^a/b$"⟩] := by decide +kernel
  rw [tags]
  intro exactly
  have transcribable := exactly.transcribable (List.mem_singleton_self _) rfl (by decide)
  exact absurd transcribable.body (by decide)

end Schemata.DocComment
