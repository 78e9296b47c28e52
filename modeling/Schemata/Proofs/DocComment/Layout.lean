import Schemata.DocComment.Tag
import Schemata.Proofs.Text.Blank

/-! The layout of comments. Tags and prose have lines of their own between the opening and the
closing of a comment, each behind a gutter of blanks and stars. However they are laid out, what is
read from the comment are its tags as they were, in their order. -/
namespace Schemata.DocComment

open Text

/-- Blanks within a line. -/
structure Gap where
  chars : List Char
  blank : ∀ c ∈ chars, isBlank c = true
  inline : '\n' ∉ chars

def Gap.none : Gap := ⟨[], List.forall_mem_nil _, List.not_mem_nil⟩

def Gap.space : Gap := ⟨[' '], List.forall_mem_singleton.mpr rfl, by decide⟩

/-- What stands in front of the text of a line. -/
structure Gutter where
  indent : Gap
  stars : Nat
  gap : Gap

def Gutter.chars (g : Gutter) : List Char :=
  g.indent.chars ++ List.replicate g.stars '*' ++ g.gap.chars

/-- A tag that fits on a line and that blanks around it do not change. -/
structure Tag.Writable (tag : Tag) : Prop where
  name : ∀ c ∈ tag.name.toList, isBlank c = false
  value : Trimmed tag.value.toList
  inline : '\n' ∉ tag.value.toList

instance (tag : Tag) : Decidable tag.Writable :=
  decidable_of_iff (tag.name.toList.all (!isBlank ·) = true ∧ Trimmed tag.value.toList ∧
      '\n' ∉ tag.value.toList)
    ⟨fun all => ⟨by simpa using all.1, all.2.1, all.2.2⟩,
      fun all => ⟨by simpa using all.name, all.value, all.inline⟩⟩

/-- A line without its end. -/
inductive Line where
  /-- A tag, whose value, if it has one, is set apart from its name. -/
  | tag (gutter : Gutter) (tag : Tag) (writable : tag.Writable) (between behind : Gap)
    (apart : between.chars = [] → tag.value = "")
  /-- Any text but an `@` behind a gutter. -/
  | prose (text : List Char) (inline : '\n' ∉ text)
    (untagged : ∀ (g : Gutter) (rest : List Char), text ≠ g.chars ++ '@' :: rest)

namespace Line

def chars : Line → List Char
  | tag gutter t _ between behind _ =>
    gutter.chars ++ '@' :: (t.name.toList ++ (between.chars ++ t.value.toList)) ++ behind.chars
  | prose text _ _ => text

def tag? : Line → Option Tag
  | tag _ t _ _ _ _ => some t
  | prose _ _ _ => none

end Line

/-- What ends a line. -/
inductive Ending where
  | lineFeed
  | returnLineFeed

/-- What stands in front of the line feed. -/
def Ending.returns : Ending → List Char
  | lineFeed => []
  | returnLineFeed => ['\r']

/-- Lines of a text with what ends them. -/
def rowsText (rows : List (List Char × Ending)) : List Char :=
  rows.flatMap fun row => row.1 ++ row.2.returns ++ ['\n']

/-- A comment with blanks around it. Its opening and its closing have lines of their own. -/
structure Layout where
  before : List Char
  opening : Gap × Ending
  lines : List (Line × Ending)
  closing : Gutter
  behind : List Char
  before_blank : ∀ c ∈ before, isBlank c = true
  behind_blank : ∀ c ∈ behind, isBlank c = true

namespace Layout

def rows (l : Layout) : List (List Char × Ending) :=
  (l.opening.1.chars, l.opening.2) :: l.lines.map fun line => (line.1.chars, line.2)

def inside (l : Layout) : List Char := rowsText l.rows ++ l.closing.chars

def text (l : Layout) : String :=
  String.ofList (l.before ++ ("/**".toList ++ l.inside ++ "*/".toList) ++ l.behind)

def tags (l : Layout) : List Tag := l.lines.filterMap fun line => line.1.tag?

end Layout

variable {cs line rest behind : List Char} {tag : Tag}

/-! ## Gutters -/

theorem Gutter.mem_chars {g : Gutter} {c : Char} (member : c ∈ g.chars) :
    isBlank c = true ∨ c = '*' := by
  simp only [chars, List.mem_append, List.mem_replicate] at member
  rcases member with (blank | star) | blank
  · exact .inl (g.indent.blank c blank)
  · exact .inr star.2
  · exact .inl (g.gap.blank c blank)

theorem Gutter.inline (g : Gutter) : '\n' ∉ g.chars := by
  simp [chars, g.indent.inline, g.gap.inline, List.mem_replicate]

theorem beq_of_isBlank {d : Char} (solid : isBlank d = false) (c : Char)
    (blank : isBlank c = true) : (c == d) = false := by
  refine beq_false_of_ne fun same => ?_
  rw [same, solid] at blank
  contradiction

theorem Gap.ends {p : Char → Bool} (apart : ∀ c, isBlank c = true → p c = false) (g : Gap) :
    Ends p g.chars :=
  fun c first => apart c (g.blank c (List.mem_of_mem_head? first))

/-- A gutter is dropped up to an `@`, and so are the blanks at the end. -/
theorem dropGutter_chars (g : Gutter) (trimmed : Trimmed ('@' :: cs))
    (blank : ∀ c ∈ behind, isBlank c = true) :
    Tag.dropGutter (g.chars ++ '@' :: cs ++ behind) = '@' :: cs := by
  obtain ⟨indent, stars, gap⟩ := g
  rw [Tag.dropGutter, Gutter.chars]
  cases stars with
  | zero =>
    have front : ∀ c ∈ indent.chars ++ gap.chars, isBlank c = true := by
      simp only [List.mem_append]
      exact fun c member => member.elim (indent.blank c) (gap.blank c)
    rw [List.replicate_zero, List.append_nil, trim_append front blank, trim_eq_self trimmed,
      List.dropWhile_cons_of_neg (by decide), trim_eq_self trimmed]
  | succ n =>
    -- From the first star on, the line has no blanks at its ends.
    have whole : Trimmed (List.replicate (n + 1) '*' ++ (gap.chars ++ '@' :: cs)) := by
      constructor
      · exact ends_cons (by decide)
      · simp only [List.reverse_append, List.append_assoc]
        exact ends_append trimmed.back (by simp)
    have stars : ∀ c ∈ List.replicate (n + 1) '*', (c == '*') = true := by simp
    have outside : Ends (· == '*') (gap.chars ++ '@' :: cs) := by
      have solid : isBlank '*' = false := by decide
      exact ends_append (gap.ends (beq_of_isBlank solid)) fun _ => ends_cons (by decide)
    have inner := trim_append gap.blank (List.forall_mem_nil _) ('@' :: cs)
    rw [List.append_nil] at inner
    have grouped : indent.chars ++ List.replicate (n + 1) '*' ++ gap.chars ++ '@' :: cs ++ behind =
        indent.chars ++ (List.replicate (n + 1) '*' ++ (gap.chars ++ '@' :: cs)) ++ behind := by
      simp only [List.append_assoc]
    rw [grouped, trim_append indent.blank blank, trim_eq_self whole, dropWhile_run stars outside,
      inner, trim_eq_self trimmed]

/-- An `@` that a gutter is dropped in front of stands behind a gutter. -/
theorem exists_gutter (inline : '\n' ∉ line) (dropped : Tag.dropGutter line = '@' :: rest) :
    ∃ (g : Gutter) (tail : List Char), line = g.chars ++ '@' :: tail := by
  obtain ⟨indent, behind, indentBlank, -, outer⟩ := exists_trim line
  obtain ⟨gap, trailing, gapBlank, -, inner⟩ := exists_trim ((trim line).dropWhile (· == '*'))
  rw [← Tag.dropGutter, dropped] at inner
  have stars : (trim line).takeWhile (· == '*') =
      List.replicate ((trim line).takeWhile (· == '*')).length '*' := by
    apply List.eq_replicate_of_mem
    intro c member
    have star := List.mem_takeWhile_imp member
    exact eq_of_beq star
  have whole : line = indent ++ List.replicate ((trim line).takeWhile (· == '*')).length '*' ++
      gap ++ '@' :: (rest ++ trailing ++ behind) := by
    rw [← stars]
    conv_lhs => rw [← outer, ← List.takeWhile_append_dropWhile (p := (· == '*')) (l := trim line),
      ← inner]
    simp
  rw [whole] at inline
  simp only [List.mem_append, not_or] at inline
  obtain ⟨⟨⟨first, -⟩, second⟩, -⟩ := inline
  exact ⟨⟨⟨indent, indentBlank, first⟩, _, ⟨gap, gapBlank, second⟩⟩, _, whole⟩

/-- The lines that are tags. -/
theorem untagged_iff (inline : '\n' ∉ line) :
    (∀ (g : Gutter) (rest : List Char), line ≠ g.chars ++ '@' :: rest) ↔
      Tag.ofLine? line = none := by
  constructor
  · intro untagged
    rw [Tag.ofLine?]
    split
    · rename_i rest dropped
      obtain ⟨g, tail, whole⟩ := exists_gutter inline dropped
      exact absurd whole (untagged g tail)
    · rfl
  · rintro none g rest rfl
    obtain ⟨behind, blank, whole⟩ := exists_dropRight isBlank rest
    have trimmed : Trimmed ('@' :: dropRight isBlank rest) := by
      refine ⟨ends_cons (by decide), ?_⟩
      rw [List.reverse_cons, dropRight, List.reverse_reverse]
      exact ends_append (ends_dropWhile _ _) fun _ => ends_cons (by decide)
    have dropped := dropGutter_chars g trimmed blank
    rw [List.append_assoc, List.cons_append, whole] at dropped
    rw [Tag.ofLine?, dropped] at none
    contradiction

/-! ## Lines -/

theorem ofText_chars (writable : tag.Writable) (between : Gap)
    (apart : between.chars = [] → tag.value = "") :
    Tag.ofText (tag.name.toList ++ (between.chars ++ tag.value.toList)) = tag := by
  have named : ∀ c ∈ tag.name.toList, (!isBlank c) = true := by simpa using writable.name
  have ends : Ends (!isBlank ·) (between.chars ++ tag.value.toList) := by
    refine ends_append (between.ends (by simp)) fun none => ?_
    rw [apart none]
    intro c first
    contradiction
  have value : trim ((between.chars ++ tag.value.toList).drop 1) = tag.value.toList := by
    cases blanks : between.chars with
    | nil =>
      simp [apart blanks, trim, trimLeft, dropRight]
    | cons c cs =>
      have blank : ∀ d ∈ cs, isBlank d = true := by
        intro d member
        exact between.blank d (blanks ▸ List.mem_cons_of_mem c member)
      have set := trim_append blank (List.forall_mem_nil _) tag.value.toList
      rw [List.append_nil] at set
      rw [List.cons_append, List.drop_succ_cons, List.drop_zero, set, trim_eq_self writable.value]
  rw [Tag.ofText, takeWhile_run named ends, dropWhile_run named ends, value, String.ofList_toList,
    String.ofList_toList]

theorem ofLine?_of_dropGutter (dropped : Tag.dropGutter line = '@' :: rest) :
    Tag.ofLine? line = some (Tag.ofText rest) := by
  rw [Tag.ofLine?, dropped]
  rfl

theorem ofLine?_append (blank : ∀ c ∈ behind, isBlank c = true) (line : List Char) :
    Tag.ofLine? (line ++ behind) = Tag.ofLine? line := by
  have trimmed := trim_append (List.forall_mem_nil _) blank line
  rw [List.nil_append] at trimmed
  rw [Tag.ofLine?, Tag.ofLine?, Tag.dropGutter, Tag.dropGutter, trimmed]

theorem Line.inline (l : Line) : '\n' ∉ l.chars := by
  cases l with
  | prose text inline untagged => exact inline
  | tag g t writable between behind apart =>
    have name : '\n' ∉ t.name.toList := fun member => absurd (writable.name _ member) (by decide)
    simp [chars, g.inline, name, between.inline, writable.inline, behind.inline]

/-- A line that is laid out is read as it was. -/
theorem ofLine?_chars (l : Line) : Tag.ofLine? l.chars = l.tag? := by
  cases l with
  | prose text inline untagged => exact (untagged_iff inline).mp untagged
  | tag g t writable between behind apart =>
    have name : Ends isBlank t.name.toList.reverse := by
      intro c first
      exact writable.name c (List.mem_reverse.mp (List.mem_of_mem_head? first))
    rw [Line.chars, Line.tag?]
    by_cases empty : t.value = ""
    · -- Blanks behind the name are blanks at the end of the line.
      have trimmed : Trimmed ('@' :: t.name.toList) := by
        refine ⟨ends_cons (by decide), ?_⟩
        rw [List.reverse_cons]
        exact ends_append name fun _ => ends_cons (by decide)
      have blank : ∀ c ∈ between.chars ++ behind.chars, isBlank c = true := by
        simp only [List.mem_append]
        exact fun c member => member.elim (between.blank c) (behind.blank c)
      have dropped := dropGutter_chars g trimmed blank
      have read := ofText_chars writable .none fun _ => empty
      simp only [empty, String.toList_empty, List.append_nil, Gap.none] at read ⊢
      simp only [List.append_assoc, List.cons_append] at dropped ⊢
      rw [ofLine?_of_dropGutter dropped, read]
    · have trimmed :
          Trimmed ('@' :: (t.name.toList ++ (between.chars ++ t.value.toList))) := by
        refine ⟨ends_cons (by decide), ?_⟩
        simp only [List.reverse_cons, List.reverse_append, List.append_assoc]
        refine ends_append writable.value.back fun none => absurd ?_ empty
        simpa using none
      have dropped := dropGutter_chars g trimmed behind.blank
      rw [ofLine?_of_dropGutter dropped, ofText_chars writable between apart]

/-- Only an `@` makes a tag. -/
theorem ofLine?_of_not_mem (inline : '\n' ∉ line) (plain : '@' ∉ line) :
    Tag.ofLine? line = none := by
  refine (untagged_iff inline).mp fun g rest whole => plain ?_
  rw [whole]
  simp

/-! ## Texts -/

theorem returns_blank (e : Ending) : ∀ c ∈ e.returns, isBlank c = true := by
  cases e with
  | lineFeed => exact List.forall_mem_nil _
  | returnLineFeed => exact List.forall_mem_singleton.mpr rfl

theorem returns_inline (e : Ending) : '\n' ∉ e.returns := by
  cases e <;> decide

/-- Neither the ends of lines nor an empty last line count for the tags. -/
theorem filterMap_lines (cs : List Char) :
    (lines cs).filterMap Tag.ofLine? = (splitLines cs).filterMap Tag.ofLine? := by
  have returned (line : List Char) : Tag.ofLine? (dropReturn line) = Tag.ofLine? line := by
    obtain ⟨behind, blank, whole⟩ := exists_dropReturn line
    conv_rhs => rw [← whole, ofLine?_append blank]
  obtain ⟨front, last, pieces⟩ :=
    (splitLines cs).eq_nil_or_concat'.resolve_left (splitLines_ne_nil cs)
  have closed : (front.map dropReturn).filterMap Tag.ofLine? = front.filterMap Tag.ofLine? := by
    rw [List.filterMap_map]
    exact List.filterMap_congr fun line _ => returned line
  simp only [lines, pieces, List.dropLast_concat, List.getLast?_concat]
  split
  · rename_i empty
    have none : Tag.ofLine? [] = none := rfl
    rw [closed, List.isEmpty_iff.mp empty, List.filterMap_append,
      List.filterMap_cons_none none, List.filterMap_nil, List.append_nil]
  · rw [List.filterMap_append, List.filterMap_append, closed]

theorem splitLines_rows {rows : List (List Char × Ending)} {last : List Char}
    (inline : ∀ row ∈ rows, '\n' ∉ row.1) (rest : '\n' ∉ last) :
    splitLines (rowsText rows ++ last) =
      rows.map (fun row => row.1 ++ row.2.returns) ++ [last] := by
  induction rows with
  | nil => exact splitLines_of_not_mem rest
  | cons row rows ih =>
    have first : '\n' ∉ row.1 ++ row.2.returns := by
      simp [inline row List.mem_cons_self, returns_inline]
    have cut := splitLines_append first (rowsText rows ++ last)
    rw [ih fun other member => inline other (List.mem_cons_of_mem row member)] at cut
    simpa [rowsText] using cut

theorem rowsText_ends {rows : List (List Char × Ending)} (some : rows ≠ []) :
    Ends (· == '/') (rowsText rows).reverse := by
  obtain ⟨front, last, rfl⟩ := rows.eq_nil_or_concat'.resolve_left some
  simp only [rowsText, List.flatMap_append, List.flatMap_singleton, List.reverse_append,
    List.reverse_singleton, List.append_assoc, List.singleton_append]
  exact ends_cons (by decide)

namespace Layout

theorem rows_inline (l : Layout) : ∀ row ∈ l.rows, '\n' ∉ row.1 := by
  intro row member
  rcases List.mem_cons.mp member with rfl | later
  · exact l.opening.1.inline
  · obtain ⟨line, -, rfl⟩ := List.mem_map.mp later
    exact line.1.inline

/-- Between the opening and the closing of a comment stand its lines. -/
theorem body_text (l : Layout) : Tag.body l.text.toList = l.inside := by
  have trimmed : Trimmed ("/**".toList ++ l.inside ++ "*/".toList) := by
    constructor
    · exact ends_cons (by decide)
    · rw [List.reverse_append]
      exact ends_cons (by decide)
  have solid : isBlank '/' = false := by decide
  have front : ¬ "/**".toList <+: l.inside ++ "*/".toList := by
    rintro ⟨rest, opened⟩
    have ends : Ends (· == '/') (l.inside ++ "*/".toList) := by
      simp only [inside, rows, rowsText, List.flatMap_cons, List.append_assoc]
      refine ends_append (l.opening.1.ends (beq_of_isBlank solid)) fun _ => ?_
      refine ends_append (fun c first => ?_) fun _ => ends_cons (by decide)
      exact beq_of_isBlank solid c (returns_blank _ c (List.mem_of_mem_head? first))
    rw [← opened] at ends
    exact absurd (ends '/' rfl) (by decide)
  have back : ¬ "*/".toList <:+ l.inside := by
    rintro ⟨rest, closed⟩
    have ends : Ends (· == '/') l.inside.reverse := by
      rw [inside, List.reverse_append]
      refine ends_append (fun c first => ?_) fun _ => rowsText_ends (List.cons_ne_nil _ _)
      rcases Gutter.mem_chars (List.mem_reverse.mp (List.mem_of_mem_head? first)) with blank | rfl
      · exact beq_of_isBlank solid c blank
      · decide
    rw [← closed, List.reverse_append] at ends
    exact absurd (ends '/' rfl) (by decide)
  have whole : l.text.toList =
      l.before ++ ("/**".toList ++ l.inside ++ "*/".toList) ++ l.behind := String.toList_ofList
  rw [Tag.body, whole, trim_append l.before_blank l.behind_blank, trim_eq_self trimmed,
    List.append_assoc, stripAll_append (by decide) front, stripAllRight_append (by decide) back]

/-- Of all lines only those of tags are read, and they as they were. -/
theorem filterMap_splitLines_inside (l : Layout) :
    (splitLines l.inside).filterMap Tag.ofLine? = l.tags := by
  have opening : Tag.ofLine? l.opening.1.chars = none := by
    refine ofLine?_of_not_mem l.opening.1.inline fun at' => ?_
    exact absurd (l.opening.1.blank _ at') (by decide)
  have closing : Tag.ofLine? l.closing.chars = none := by
    refine ofLine?_of_not_mem l.closing.inline fun at' => ?_
    exact absurd (Gutter.mem_chars at') (by decide)
  have row (r : List Char × Ending) : Tag.ofLine? (r.1 ++ r.2.returns) = Tag.ofLine? r.1 :=
    ofLine?_append (returns_blank r.2) r.1
  rw [inside, splitLines_rows l.rows_inline l.closing.inline, List.filterMap_append,
    List.filterMap_map, List.filterMap_cons_none closing, List.filterMap_nil, List.append_nil]
  simp only [Function.comp_def, row, rows, List.filterMap_cons, opening, List.filterMap_map, tags]
  exact List.filterMap_congr fun line _ => ofLine?_chars line.1

end Layout

/-! ## All tags that comments have -/

theorem trim_subset (cs : List Char) : trim cs ⊆ cs := by
  obtain ⟨front, back, -, -, whole⟩ := exists_trim cs
  intro c member
  rw [← whole]
  simp [member]

theorem dropGutter_subset (line : List Char) : Tag.dropGutter line ⊆ line := by
  intro c member
  have starred := (List.dropWhile_sublist _).subset (trim_subset _ member)
  exact trim_subset _ starred

theorem writable_ofText (inline : '\n' ∉ cs) : (Tag.ofText cs).Writable := by
  simp only [Tag.ofText]
  refine ⟨fun c member => ?_, ?_, fun member => inline ?_⟩
  · rw [String.toList_ofList] at member
    have inside := List.mem_takeWhile_imp member
    simpa using inside
  · rw [String.toList_ofList]
    exact trimmed_trim _
  · rw [String.toList_ofList] at member
    exact (List.dropWhile_sublist _).subset (List.mem_of_mem_drop (trim_subset _ member))

theorem writable_of_mem {comment : String} (member : tag ∈ Tag.ofComment comment) :
    tag.Writable := by
  rw [Tag.ofComment, filterMap_lines] at member
  obtain ⟨line, listed, read⟩ := List.mem_filterMap.mp member
  have inline := newline_not_mem_splitLines _ line listed
  unfold Tag.ofLine? at read
  split at read
  · rename_i rest dropped
    obtain rfl := Option.some.inj read
    refine writable_ofText fun newline => inline (dropGutter_subset line ?_)
    rw [dropped]
    exact List.mem_cons_of_mem _ newline
  · contradiction

/-- Tags below each other, the stars of all lines in one column. -/
def Layout.ofTags (tags : List Tag) (writable : ∀ tag ∈ tags, tag.Writable) : Layout where
  before := []
  opening := (.none, .lineFeed)
  lines := tags.attach.map fun t =>
    (.tag ⟨.space, 1, .space⟩ t.1 (writable t.1 t.2) .space .none
      fun empty => absurd empty (List.cons_ne_nil _ _), .lineFeed)
  closing := ⟨.space, 0, .none⟩
  behind := []
  before_blank := List.forall_mem_nil _
  behind_blank := List.forall_mem_nil _

theorem Layout.tags_ofTags {tags : List Tag} (writable : ∀ tag ∈ tags, tag.Writable) :
    (ofTags tags writable).tags = tags := by
  simp [ofTags, Layout.tags, List.filterMap_map, Line.tag?]

/-- Whatever the layout of a comment, its tags are read back as they were; and nothing is read from
any text but tags that can be laid out. -/
theorem layout_read_back : (∀ l : Layout, Tag.ofComment l.text = l.tags) ∧
    ∀ tags, (∃ comment, Tag.ofComment comment = tags) ↔ ∀ tag ∈ tags, tag.Writable := by
  have read (l : Layout) : Tag.ofComment l.text = l.tags := by
    rw [Tag.ofComment, l.body_text, filterMap_lines, l.filterMap_splitLines_inside]
  refine ⟨read, fun tags => ⟨?_, fun writable => ?_⟩⟩
  · rintro ⟨comment, rfl⟩ tag member
    exact writable_of_mem member
  · exact ⟨_, (read _).trans (Layout.tags_ofTags writable)⟩

example : (Layout.ofTags [⟨"minimum", "0"⟩, ⟨"pattern", "*/ @ /**"⟩] (by decide)).text =
    "/**\n * @minimum 0\n * @pattern */ @ /**\n */" := by decide

end Schemata.DocComment
