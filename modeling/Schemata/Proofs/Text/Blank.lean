import Mathlib.Data.List.Basic
import Mathlib.Data.List.TakeWhile
import Schemata.Proofs.Text.Delimited
import Schemata.Text.Blank

/-! Trimmed texts, and texts in lines. Trimming drops nothing but blanks from the ends, so what has
no blank there stays whatever blanks are set around it. A text is cut at its line feeds and nowhere
else. -/
namespace Schemata.Text

/-- A text with a blank at neither end. -/
structure Trimmed (cs : List Char) : Prop where
  front : Ends isBlank cs
  back : Ends isBlank cs.reverse

instance (inside : Char → Bool) (cs : List Char) : Decidable (Ends inside cs) :=
  decidable_of_iff (cs.head?.all (!inside ·) = true) (by
    cases cs <;> simp [Ends])

instance (cs : List Char) : Decidable (Trimmed cs) :=
  decidable_of_iff (Ends isBlank cs ∧ Ends isBlank cs.reverse)
    ⟨fun both => ⟨both.1, both.2⟩, fun trimmed => ⟨trimmed.front, trimmed.back⟩⟩

variable {p : Char → Bool} {cs front back line rest : List Char}

/-! ## Trimming -/

theorem dropWhile_run (all : ∀ c ∈ front, p c = true) (ends : Ends p rest) :
    (front ++ rest).dropWhile p = rest := by
  rw [List.dropWhile_append_of_pos all]
  cases rest with
  | nil => rfl
  | cons c rest => exact List.dropWhile_cons_of_neg (Bool.eq_false_iff.mp (ends c rfl))

theorem dropRight_append (all : ∀ c ∈ back, p c = true) (cs : List Char) :
    dropRight p (cs ++ back) = dropRight p cs := by
  have reversed : ∀ c ∈ back.reverse, p c = true := by simpa using all
  rw [dropRight, dropRight, List.reverse_append, List.dropWhile_append_of_pos reversed]

theorem exists_dropRight (p : Char → Bool) (cs : List Char) :
    ∃ back, (∀ c ∈ back, p c = true) ∧ dropRight p cs ++ back = cs := by
  refine ⟨(cs.reverse.takeWhile p).reverse, fun c member => ?_, ?_⟩
  · exact List.mem_takeWhile_imp (List.mem_reverse.mp member)
  · rw [dropRight, ← List.reverse_append, List.takeWhile_append_dropWhile, List.reverse_reverse]

/-- Blanks around a text do not count. -/
theorem trim_append (before : ∀ c ∈ front, isBlank c = true)
    (behind : ∀ c ∈ back, isBlank c = true) (cs : List Char) :
    trim (front ++ cs ++ back) = trim cs := by
  rw [trim, trim, trimLeft, trimLeft, List.append_assoc, List.dropWhile_append_of_pos before,
    List.dropWhile_append]
  split
  · rename_i blank
    have none : back.dropWhile isBlank = [] := List.dropWhile_eq_nil_iff.mpr behind
    rw [none, List.isEmpty_iff.mp blank]
  · exact dropRight_append behind _

theorem trim_eq_self (trimmed : Trimmed cs) : trim cs = cs := by
  have front : cs.dropWhile isBlank = cs := dropWhile_run (List.forall_mem_nil _) trimmed.front
  have back : cs.reverse.dropWhile isBlank = cs.reverse :=
    dropWhile_run (List.forall_mem_nil _) trimmed.back
  rw [trim, trimLeft, front, dropRight, back, List.reverse_reverse]

/-- What trimming drops. -/
theorem exists_trim (cs : List Char) : ∃ front back, (∀ c ∈ front, isBlank c = true) ∧
    (∀ c ∈ back, isBlank c = true) ∧ front ++ trim cs ++ back = cs := by
  obtain ⟨back, blank, whole⟩ := exists_dropRight isBlank (trimLeft cs)
  refine ⟨cs.takeWhile isBlank, back, fun c => List.mem_takeWhile_imp, blank, ?_⟩
  rw [trim, List.append_assoc, whole]
  exact List.takeWhile_append_dropWhile

theorem ends_dropWhile (p : Char → Bool) (cs : List Char) : Ends p (cs.dropWhile p) := by
  intro c first
  have outside := List.head?_dropWhile_not p cs
  rw [Option.mem_def.mp first] at outside
  exact outside

theorem ends_append (first : Ends p cs) (second : cs = [] → Ends p rest) :
    Ends p (cs ++ rest) := by
  cases cs with
  | nil => exact second rfl
  | cons c cs => exact first

theorem trimmed_trim (cs : List Char) : Trimmed (trim cs) := by
  obtain ⟨back, -, whole⟩ := exists_dropRight isBlank (trimLeft cs)
  constructor
  · intro c first
    apply ends_dropWhile isBlank cs c
    rw [← trimLeft, ← whole]
    exact List.mem_head?_append_of_mem_head? first
  · rw [trim, dropRight, List.reverse_reverse]
    exact ends_dropWhile _ _

/-! ## Ends that are dropped -/

theorem stripAll_of_not_prefix (apart : ¬ front <+: cs) : stripAll front cs = cs := by
  rw [stripAll, if_neg (c := front.isPrefixOf cs = true) (by simpa using apart), ite_self]

/-- What stands behind a start that does not stand there again. -/
theorem stripAll_append (some : front ≠ []) (apart : ¬ front <+: cs) :
    stripAll front (front ++ cs) = cs := by
  have starts : front.isPrefixOf (front ++ cs) = true := by simp
  rw [stripAll, if_neg (by simpa using some), if_pos starts, List.drop_left,
    stripAll_of_not_prefix apart]

theorem stripAllRight_append (some : back ≠ []) (apart : ¬ back <:+ cs) :
    stripAllRight back (cs ++ back) = cs := by
  rw [stripAllRight, List.reverse_append, stripAll_append (by simpa using some),
    List.reverse_reverse]
  rwa [List.reverse_prefix]

/-! ## Lines -/

theorem splitLines_of_not_mem (inline : '\n' ∉ line) : splitLines line = [line] := by
  induction line with
  | nil => rfl
  | cons c line ih =>
    obtain ⟨other, within⟩ := not_or.mp (mt List.mem_cons.mpr inline)
    rw [splitLines, if_neg (Ne.symm other), ih within]

theorem splitLines_append (inline : '\n' ∉ line) (rest : List Char) :
    splitLines (line ++ '\n' :: rest) = line :: splitLines rest := by
  induction line with
  | nil => rfl
  | cons c line ih =>
    obtain ⟨other, within⟩ := not_or.mp (mt List.mem_cons.mpr inline)
    rw [List.cons_append, splitLines, if_neg (Ne.symm other), ih within]

theorem splitLines_ne_nil (cs : List Char) : splitLines cs ≠ [] := by
  cases cs with
  | nil => exact List.cons_ne_nil _ _
  | cons c cs =>
    rw [splitLines]
    split
    · exact List.cons_ne_nil _ _
    · split <;> exact List.cons_ne_nil _ _

theorem newline_not_mem_splitLines (cs : List Char) : ∀ line ∈ splitLines cs, '\n' ∉ line := by
  induction cs with
  | nil => simp [splitLines]
  | cons c cs ih =>
    rw [splitLines]
    split
    · simpa using ih
    · rename_i other
      split
      · simpa using Ne.symm other
      · rename_i split
        rw [split] at ih
        simpa [Ne.symm other] using ih

/-- The return in front of a line feed is a blank as well. -/
theorem exists_dropReturn (line : List Char) :
    ∃ back, (∀ c ∈ back, isBlank c = true) ∧ dropReturn line ++ back = line := by
  rw [dropReturn]
  split
  · rename_i returned
    refine ⟨['\r'], List.forall_mem_singleton.mpr rfl, ?_⟩
    exact List.dropLast_append_getLast? _ returned
  · exact ⟨[], List.forall_mem_nil _, List.append_nil _⟩

end Schemata.Text
