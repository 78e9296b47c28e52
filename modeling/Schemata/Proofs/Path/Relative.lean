import Schemata.Proofs.Path.Specifier

/-! How specifiers begin. The mark of a relative specifier is left out in front of two dots, whether
or not they are a whole step up with a slash behind it; so one step up alone and a name that begins
with two dots are left as they are. -/
namespace Schemata.Path

/-- Beginning with a step, so that no reader takes the text for the name of a package. -/
def IsRelative (text : List Char) : Prop := ['.', '/'] <+: text ∨ ['.', '.', '/'] <+: text

instance (text : List Char) : Decidable (IsRelative text) := inferInstanceAs (Decidable (_ ∨ _))

/-- The way from one path to another is one step up, or begins with a name that begins with two
dots. -/
def Unmarked (source goal : List Component) : Prop :=
  (∃ last, source = goal ++ [last]) ∨ goal = source ++ [.parent] ∨
    ∃ name below, ['.', '.'] <+: name ∧ goal = source ++ .name name :: below

variable {path : List Component} {c : Component}

/-! ## Components without `.` -/

theorem mem_step {stack : List Component} {d : Component} (member : c ∈ step stack d) :
    c ∈ stack ∨ c = .parent ∨ c = d ∧ d ≠ .current := by
  cases d with
  | root => exact .inr (.inr ⟨List.mem_singleton.mp member, nofun⟩)
  | current => exact .inl member
  | name text => exact (List.mem_cons.mp member).symm.imp_right fun same => .inr ⟨same, nofun⟩
  | parent =>
    cases stack with
    | nil => exact .inr (.inl (List.mem_singleton.mp member))
    | cons top rest =>
      cases top with
      | root => exact (List.mem_cons.mp member).symm.imp_right .inl
      | current | parent | name => exact .inl (List.mem_cons_of_mem _ member)

theorem mem_foldl_step {stack : List Component} (member : c ∈ path.foldl step stack) :
    c ∈ stack ∨ c = .parent ∨ c ∈ path ∧ c ≠ .current := by
  induction path generalizing stack with
  | nil => exact .inl member
  | cons d rest ih =>
    rcases ih member with before | parent | ⟨later, notCurrent⟩
    · refine (mem_step before).imp_right (Or.imp_right ?_)
      rintro ⟨rfl, notCurrent⟩
      exact ⟨List.mem_cons_self, notCurrent⟩
    · exact .inr (.inl parent)
    · exact .inr (.inr ⟨List.mem_cons_of_mem d later, notCurrent⟩)

theorem mem_lexical (member : c ∈ lexical path) : c = .parent ∨ c ∈ path ∧ c ≠ .current :=
  (mem_foldl_step (List.mem_reverse.mp member)).resolve_left List.not_mem_nil

theorem isStep_of_mem_lexical {text : List Char} (member : c ∈ lexical (components text)) :
    c = .root ∨ IsStep c := by
  rcases mem_lexical member with rfl | ⟨inside, notCurrent⟩
  · exact .inr trivial
  · cases c with
    | root => exact .inl rfl
    | current => contradiction
    | parent => exact .inr trivial
    | name name => exact .inr (components_name inside)

/-! ## The beginning of a way -/

theorem isRelative_markRelative (text : List Char) :
    IsRelative (markRelative text) ↔ (['.', '.'] <+: text → ['.', '.', '/'] <+: text) := by
  unfold markRelative
  split
  · rename_i dots
    obtain ⟨rest, rfl⟩ := List.isPrefixOf_iff_prefix.mp dots
    simp [IsRelative]
  · rename_i plain
    rw [List.isPrefixOf_iff_prefix] at plain
    exact iff_of_true (.inl ⟨text, rfl⟩) fun dots => absurd dots plain

/-- Two paths part behind what they share, and the way goes up one and down the other. -/
theorem exists_shared (source goal : List Component) :
    ∃ shared up down, source = shared ++ up ∧ goal = shared ++ down ∧
      (∀ c ∈ up.head?, c ∉ down.head?) ∧
      stepsBetween source goal = (List.replicate up.length Component.parent ++ down).map Component.text := by
  have text (up down : List Component) :
      List.replicate up.length ['.', '.'] ++ down.map Component.text =
        (List.replicate up.length Component.parent ++ down).map Component.text := by
    rw [List.map_append, List.map_replicate]
    rfl
  induction source generalizing goal with
  | nil => exact ⟨[], [], goal, rfl, rfl, nofun, by cases goal <;> rfl⟩
  | cons a as ih =>
    cases goal with
    | nil => exact ⟨[], a :: as, [], rfl, rfl, nofun, text (a :: as) []⟩
    | cons b bs =>
      by_cases same : a = b
      · subst same
        obtain ⟨shared, up, down, source, goal, parted, way⟩ := ih bs
        refine ⟨a :: shared, up, down, by rw [source, List.cons_append],
          by rw [goal, List.cons_append], parted, ?_⟩
        rw [← way, stepsBetween, stepsBetween, commonLength, if_pos rfl, List.length_cons,
          Nat.add_sub_add_right, List.drop_succ_cons]
      · refine ⟨[], a :: as, b :: bs, rfl, rfl, ?_, ?_⟩
        · rintro c ⟨⟩ ⟨⟩
          exact same rfl
        · rw [stepsBetween, commonLength, if_neg same]
          exact text (a :: as) (b :: bs)

/-- Two dots in front of more text are no step up if they belong to a name. -/
theorem dots_name {name : List Char} (valid : IsName name) (tail : List Char) :
    (['.', '.'] <+: name ++ tail ↔ ['.', '.'] <+: name) ∧ ¬ ['.', '.', '/'] <+: name ++ tail := by
  match name, valid with
  | [], valid => exact absurd rfl valid.nonempty
  | [x], valid =>
    have plain : '.' ≠ x := fun dot => valid.not_current (dot ▸ rfl)
    simp [plain]
  | [x, y], valid =>
    have plain : ¬ ('.' = x ∧ '.' = y) := by
      rintro ⟨rfl, rfl⟩
      exact valid.not_parent rfl
    simp only [List.cons_append, List.nil_append, List.cons_prefix_cons, ← and_assoc, plain,
      false_and, not_false_eq_true, and_true]
  | x :: y :: z :: rest, valid =>
    have plain : '/' ≠ z := by
      rintro rfl
      exact valid.no_slash (by simp)
    simp [plain]

theorem exists_tail (part : List Char) (parts : List (List Char)) :
    ∃ tail, joinSlashes (part :: parts) = part ++ tail ∧
      (parts = [] ∧ tail = [] ∨ parts ≠ [] ∧ ∃ more, tail = '/' :: more) := by
  cases parts with
  | nil => exact ⟨[], (List.append_nil part).symm, .inl ⟨rfl, rfl⟩⟩
  | cons next rest =>
    exact ⟨_, joinSlashes_cons part (List.cons_ne_nil next rest),
      .inr ⟨List.cons_ne_nil next rest, _, rfl⟩⟩

/-- Where the text of a way begins with two dots, they are a whole step that others follow, but for
one step up alone and for a name that begins with two dots. -/
theorem dots_joinSlashes {way : List Component} (valid : ∀ c ∈ way.head?, c = .root ∨ IsStep c) :
    (['.', '.'] <+: joinSlashes (way.map Component.text) →
        ['.', '.', '/'] <+: joinSlashes (way.map Component.text)) ↔
      ¬ (way = [.parent] ∨ ∃ name below, ['.', '.'] <+: name ∧ way = .name name :: below) := by
  cases way with
  | nil => simp [joinSlashes]
  | cons c rest =>
    obtain ⟨tail, text, form⟩ := exists_tail c.text (rest.map Component.text)
    rw [List.map_cons, text]
    simp only [List.map_eq_nil_iff, ne_eq] at form
    cases c with
    | root => simp [Component.text]
    | current => simp [IsStep] at valid
    | parent =>
      rcases form with ⟨rfl, rfl⟩ | ⟨others, more, rfl⟩
      · simp [Component.text]
      · simp [Component.text, others]
    | name name =>
      have isName : IsName name := by simpa [IsStep] using valid
      obtain ⟨dots, notUp⟩ := dots_name isName tail
      simp [Component.text, dots, notUp]

/-- A specifier begins with `./` or `../` unless it is one step up alone or begins with a name that
begins with two dots. -/
theorem specifier_isRelative_iff (directory target : List Char) :
    IsRelative (specifier directory target) ↔
      ¬ Unmarked (lexical (components directory)) (lexical (components target)) := by
  obtain ⟨shared, up, down, source, goal, parted, way⟩ :=
    exists_shared (lexical (components directory)) (lexical (components target))
  have valid : ∀ c ∈ (List.replicate up.length Component.parent ++ down).head?,
      c = .root ∨ IsStep c := by
    intro c first
    rcases List.mem_append.mp (List.mem_of_mem_head? first) with above | below
    · exact .inr (List.eq_of_mem_replicate above ▸ trivial)
    · exact isStep_of_mem_lexical (goal ▸ List.mem_append_right shared below)
  rw [specifier, isRelative_markRelative, way, dots_joinSlashes valid, Unmarked, source, goal]
  refine not_congr ?_
  cases up with
  | nil => simp
  | cons c up =>
    cases down with
    | nil => simp [List.replicate_succ]
    | cons d down =>
      -- Both paths go on and differ at once, so neither is the beginning of the other.
      have differs : d ≠ c := by simpa using parted
      simp [List.replicate_succ, differs, differs.symm]

/-- A name that begins with two dots is taken for a step up. -/
theorem not_specifier_isRelative :
    ¬ ∀ directory target, IsRelative (specifier directory target) := by
  intro all
  have text : specifier "/p".toList "/p/..types.ts".toList = "..types.ts".toList := by decide
  have relative := all "/p".toList "/p/..types.ts".toList
  rw [text] at relative
  revert relative
  decide

end Schemata.Path
