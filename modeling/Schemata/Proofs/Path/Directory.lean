import Schemata.Proofs.Path.Location

/-! The directory that holds what a path names. As text it is a front part of the path, which makes
all steps but the last; it does not end in slashes or `.` components. -/
namespace Schemata.Path

variable {path : List Char}

/-- A path that ends in its last step, if it makes any. -/
def EndsInStep (path : List Char) : Prop :=
  steps path = [] ∨ ∃ front piece c, path = front ++ '/' :: piece ∧ '/' ∉ piece ∧
    ofPiece? piece = some c

/-! ## Cutting off an end -/

/-- Paths are given from their end here. -/
theorem steps_trimEnd (kept : Nat) (cs : List Char) :
    steps (trimEnd kept cs).reverse = steps cs.reverse := by
  fun_induction trimEnd kept cs with
  | case1 => rfl
  | case2 => rfl
  | case3 rest _ ih =>
    rw [ih, List.reverse_cons, steps_append]
    exact (List.append_nil _).symm
  | case4 => rfl
  | case5 rest _ ih =>
    rw [ih, List.reverse_cons, List.reverse_cons, List.reverse_cons, List.append_assoc,
      steps_append, List.singleton_append, steps_append]
    rfl
  | case6 => rfl

theorem trimEnd_suffix (kept : Nat) (cs : List Char) : trimEnd kept cs <:+ cs := by
  fun_induction trimEnd kept cs with
  | case1 => exact List.suffix_rfl
  | case2 => exact List.suffix_rfl
  | case3 rest _ ih => exact ih.trans (List.suffix_cons _ rest)
  | case4 => exact List.suffix_rfl
  | case5 rest _ ih => exact ih.trans (List.suffix_cons _ _)
  | case6 => exact List.suffix_rfl

theorem trimEnd_slash {kept : Nat} {cs rest : List Char} (form : trimEnd kept cs = '/' :: rest) :
    rest.length < kept := by
  fun_induction trimEnd kept cs with
  | case1 => contradiction
  | case2 => simp_all
  | case3 _ _ ih => exact ih form
  | case4 => simp_all
  | case5 _ _ ih => exact ih form
  | case6 => simp_all

theorem trimEnd_dot {kept : Nat} {cs rest : List Char} (form : trimEnd kept cs = '.' :: '/' :: rest) :
    rest.length < kept := by
  fun_induction trimEnd kept cs with
  | case1 => contradiction
  | case2 => simp_all
  | case3 _ _ ih => exact ih form
  | case4 => simp_all
  | case5 _ _ ih => exact ih form
  | case6 => simp_all

theorem trimEnd_ne_nil {cs : List Char} (nonempty : cs ≠ []) : trimEnd 1 cs ≠ [] := by
  fun_induction trimEnd 1 cs with
  | case1 => contradiction
  | case2 => exact List.cons_ne_nil _ _
  | case3 rest long ih =>
    refine ih fun none => ?_
    rw [none] at long
    exact long (by decide)
  | case4 => exact List.cons_ne_nil _ _
  | case5 rest long ih => exact ih (List.cons_ne_nil _ _)
  | case6 => exact nonempty

theorem ofPiece?_text {piece : List Char} {c : Component} (found : ofPiece? piece = some c) :
    c.text = piece ∧ c ≠ .root := by
  rcases ofPiece?_eq_some found with ⟨rfl, parent⟩ | ⟨rfl, _⟩
  · exact ⟨parent.symm, nofun⟩
  · exact ⟨rfl, nofun⟩

theorem exists_slash_free_front (cs : List Char) :
    ∃ last rest, cs = last ++ rest ∧ '/' ∉ last ∧ (rest = [] ∨ ∃ more, rest = '/' :: more) := by
  induction cs with
  | nil => exact ⟨[], [], rfl, List.not_mem_nil, .inl rfl⟩
  | cons c cs ih =>
    by_cases slash : c = '/'
    · exact ⟨[], c :: cs, rfl, List.not_mem_nil, .inr ⟨cs, slash ▸ rfl⟩⟩
    · obtain ⟨last, rest, rfl, free, form⟩ := ih
      refine ⟨c :: last, rest, rfl, fun found => ?_, form⟩
      exact (List.mem_cons.mp found).elim (fun same => slash same.symm) free

/-- The last step of a path whose end is cut off. -/
theorem trimEnd_last {cs : List Char} (moves : steps cs.reverse ≠ []) :
    ∃ piece c front, trimEnd 1 cs = piece.reverse ++ front ∧ '/' ∉ piece ∧
      ofPiece? piece = some c ∧ (front = [] ∨ ∃ rest, front = '/' :: rest) := by
  rw [← steps_trimEnd 1 cs] at moves
  obtain ⟨last, front, divided, free, form⟩ := exists_slash_free_front (trimEnd 1 cs)
  have plain : '/' ∉ last.reverse := fun found => free (List.mem_reverse.mp found)
  have whole : trimEnd 1 cs = last.reverse.reverse ++ front := by rw [divided, List.reverse_reverse]
  cases found : ofPiece? last.reverse with
  | some c => exact ⟨last.reverse, c, front, whole, plain, found, form⟩
  | none =>
    refine absurd ?_ moves
    have empty : steps last.reverse = [] := by rw [steps_plain plain, found]; rfl
    rcases form with rfl | ⟨rest, rfl⟩
    · rw [whole, List.append_nil, List.reverse_reverse, empty]
    -- Nothing but the root is left where the end of a path is no step.
    · have short : rest = [] := by
        refine List.length_eq_zero_iff.mp (Nat.lt_one_iff.mp ?_)
        rcases ofPiece?_eq_none found with none | dot
        · rw [List.reverse_eq_nil_iff.mp none] at divided
          exact trimEnd_slash divided
        · rw [List.reverse_eq_iff.mp dot] at divided
          exact trimEnd_dot divided
      rw [divided, short, List.reverse_append, List.reverse_singleton, List.singleton_append]
      exact (steps_append [] last.reverse).trans empty

/-! ## The directory -/

/-- What the directory of a path has in common with the path. -/
structure Holds (above path : List Char) : Prop where
  steps_eq : steps above = (steps path).dropLast
  isPrefix : above <+: path
  shorter : above.length < path.length
  absolute : isAbsolute above = true
  endsInStep : EndsInStep above

theorem absolute_front {front : List Char} (absolute : isAbsolute path = true)
    (isFront : front <+: path) (nonempty : front ≠ []) : isAbsolute front = true := by
  obtain ⟨rest, rfl⟩ := isFront
  cases front with
  | nil => contradiction
  | cons c cs => exact absolute

theorem absolute_join {directory : List Char} (absolute : isAbsolute directory = true)
    (path : List Char) : isAbsolute (join directory path) = true := by
  unfold join
  split
  · assumption
  · cases directory with
    | nil => cases absolute
    | cons c cs => split <;> exact absolute

theorem slash_mem_of_absolute (absolute : isAbsolute path = true) : '/' ∈ path := by
  cases path with
  | nil => contradiction
  | cons c rest =>
    rw [isAbsolute, List.head?_cons, beq_iff_eq] at absolute
    exact Option.some.inj absolute ▸ List.mem_cons_self

theorem trimEnd_isPrefix (cs : List Char) : (trimEnd 1 cs).reverse <+: cs.reverse :=
  List.reverse_prefix.mpr (trimEnd_suffix 1 cs)

/-- A path whose end is cut off, with its last step apart. -/
theorem trimEnd_absolute (absolute : isAbsolute path = true) (moves : steps path ≠ []) :
    ∃ (front piece : List Char) (c : Component),
      trimEnd 1 path.reverse = piece.reverse ++ '/' :: front.reverse ∧ '/' ∉ piece ∧
        ofPiece? piece = some c := by
  obtain ⟨piece, c, front, trimmed, plain, found, form⟩ :=
    trimEnd_last (by rwa [List.reverse_reverse])
  rcases form with rfl | ⟨rest, rfl⟩
  · have isFront := trimEnd_isPrefix path.reverse
    rw [trimmed, List.append_nil, List.reverse_reverse, List.reverse_reverse] at isFront
    have nonempty : piece ≠ [] := by
      rintro rfl
      cases found
    exact absurd (slash_mem_of_absolute (absolute_front absolute isFront nonempty)) plain
  · exact ⟨rest.reverse, piece, c, by rw [trimmed, List.reverse_reverse], plain, found⟩

theorem endsInStep_trimEnd {cs : List Char} (absolute : isAbsolute (trimEnd 1 cs).reverse = true) :
    EndsInStep (trimEnd 1 cs).reverse := by
  by_cases rests : steps cs.reverse = []
  · exact .inl ((steps_trimEnd 1 cs).trans rests)
  · obtain ⟨piece, c, front, trimmed, plain, found, form⟩ := trimEnd_last rests
    right
    rcases form with rfl | ⟨rest, rfl⟩
    · rw [trimmed, List.append_nil, List.reverse_reverse] at absolute
      exact absurd (slash_mem_of_absolute absolute) plain
    · refine ⟨rest.reverse, piece, c, ?_, plain, found⟩
      rw [trimmed, List.reverse_append, List.reverse_cons, List.reverse_reverse, List.append_assoc]
      rfl

theorem directory?_eq_none (absolute : isAbsolute path = true) (rests : steps path = []) :
    directory? path = none := by
  rw [directory?, components_absolute absolute, rests]
  rfl

theorem directory?_eq_some (absolute : isAbsolute path = true) (moves : steps path ≠ []) :
    ∃ above, directory? path = some above ∧ Holds above path := by
  obtain ⟨front, piece, c, trimmed, plain, found⟩ := trimEnd_absolute absolute moves
  have split : steps path = steps front ++ [c] := by
    have same := steps_trimEnd 1 path.reverse
    rw [List.reverse_reverse, trimmed, List.reverse_append, List.reverse_cons,
      List.reverse_reverse, List.reverse_reverse, List.append_assoc, List.singleton_append,
      steps_append, steps_plain plain, found] at same
    exact same.symm
  have last : (components path).getLast? = some c := by
    rw [components_absolute absolute, split, ← List.cons_append, List.getLast?_concat]
  obtain ⟨text, notRoot⟩ := ofPiece?_text found
  have isFront : (trimEnd 1 ('/' :: front.reverse)).reverse <+: path := by
    have inner := trimEnd_isPrefix ('/' :: front.reverse)
    have outer := trimEnd_isPrefix path.reverse
    rw [trimmed, List.reverse_append, List.reverse_reverse, List.reverse_reverse] at outer
    exact inner.trans ((List.prefix_append _ _).trans outer)
  have nonempty : (trimEnd 1 ('/' :: front.reverse)).reverse ≠ [] :=
    fun none => trimEnd_ne_nil (List.cons_ne_nil _ _) (List.reverse_eq_nil_iff.mp none)
  have above := absolute_front absolute isFront nonempty
  refine ⟨(trimEnd 1 ('/' :: front.reverse)).reverse, ?_, ?_, isFront, ?_, above,
    endsInStep_trimEnd above⟩
  · have cut : directory? path =
        some (trimEnd 1 ((trimEnd 1 path.reverse).drop c.text.length)).reverse := by
      rw [directory?, last, absolute]
      cases c <;> first | rfl | contradiction
    rw [cut, trimmed, text, ← List.length_reverse, List.drop_left]
  · rw [steps_trimEnd, List.reverse_cons, List.reverse_reverse, steps_append, split,
      List.dropLast_concat]
    exact List.append_nil _
  · have shorter := (trimEnd_suffix 1 ('/' :: front.reverse)).length_le
    have within := (trimEnd_suffix 1 path.reverse).length_le
    have something : piece ≠ [] := by
      rintro rfl
      cases found
    have positive := List.length_pos_iff.mpr something
    rw [trimmed] at within
    simp only [List.length_append, List.length_reverse, List.length_cons] at shorter within ⊢
    omega

end Schemata.Path
