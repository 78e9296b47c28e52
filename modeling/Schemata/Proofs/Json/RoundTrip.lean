import Schemata.Proofs.Json.Scalars

/-! Reading back the text of a JSON value that is spread over lines. Only blanks stand between its
parts, so each part is read as it was written, and what stands behind a value is left to read. -/
namespace Schemata.Json

open Text Value

variable {depth fuel level outer : Nat} {c : Char} {cs rest : List Char}

namespace Value

/-- Values that are read back: numbers are whole and have up to 64 bits, and arrays and objects are
nested less deep than `depth`. -/
def Readable : Nat → Value → Prop
  | 0, _ => False
  | _ + 1, .number text => ∃ n < UInt64.size, text = toString n
  | depth + 1, .array items => depth ≠ 0 ∧ ∀ v ∈ items, v.Readable depth
  | depth + 1, .object members => depth ≠ 0 ∧ ∀ m ∈ members, m.2.Readable depth
  | _ + 1, .null => True
  | _ + 1, .bool _ => True
  | _ + 1, .string _ => True

/-- What parts an item or a member from the one in front of it. -/
def separator (first : Bool) : List Char := if first then [] else [',']

def listedItems (first : Bool) (level : Nat) : List Value → List Char
  | [] => []
  | v :: vs => separator first ++ prettyItems level (v :: vs)

theorem prettyItems_cons (level : Nat) (v : Value) (vs : List Value) :
    prettyItems level (v :: vs) =
      newline level ++ (prettyChars level v ++ listedItems false level vs) := by
  cases vs with
  | nil => rw [prettyItems, listedItems, List.append_nil]
  | cons w ws =>
    rw [prettyItems, listedItems, List.append_assoc]
    · rfl
    · rintro ⟨⟩

def listedMembers (first : Bool) (level : Nat) : List (String × Value) → List Char
  | [] => []
  | m :: ms => separator first ++ prettyMembers level (m :: ms)

theorem prettyMembers_cons (level : Nat) (m : String × Value) (ms : List (String × Value)) :
    prettyMembers level (m :: ms) = newline level ++ ('"' :: (m.1.toList.flatMap Quoted.escape ++
      '"' :: ':' :: ' ' :: (prettyChars level m.2 ++ listedMembers false level ms))) := by
  obtain ⟨key, v⟩ := m
  cases ms with
  | nil => simp [prettyMembers, listedMembers, Quoted.encode]
  | cons w ws => simp [prettyMembers, listedMembers, separator, Quoted.encode]

theorem toDigits_start (n : Nat) :
    ∃ d ds, Nat.toDigits 10 n = d :: ds ∧ d.isDigit = true := by
  obtain ⟨d, ds, form⟩ := List.exists_cons_of_ne_nil (Nat.toDigits_ne_nil (n := n) (b := 10))
  exact ⟨d, ds, form, isDigit_of_mem (form ▸ List.mem_cons_self)⟩

theorem prettyChars_start {v : Value} (readable : v.Readable depth) (level : Nat) :
    ∃ c cs, prettyChars level v = c :: cs ∧ isSpace c = false ∧ c ≠ ']' := by
  cases depth with
  | zero => cases readable
  | succ depth =>
    cases v with
    | null => exact ⟨_, _, rfl, by decide, by decide⟩
    | bool value => cases value <;> exact ⟨_, _, rfl, by decide, by decide⟩
    | number text =>
      obtain ⟨n, _, rfl⟩ := readable
      obtain ⟨d, ds, form, digit⟩ := toDigits_start n
      refine ⟨d, ds, ?_, ?_, ?_⟩
      · rw [prettyChars, Nat.toString_eq_ofList_toDigits, String.toList_ofList, form]
      · refine Bool.eq_false_iff.mpr fun space => ?_
        simp only [isSpace, Bool.or_eq_true, beq_iff_eq] at space
        rcases space with ((rfl | rfl) | rfl) | rfl <;> cases digit
      · rintro rfl
        cases digit
    | string value => exact ⟨_, _, rfl, by decide, by decide⟩
    | array items => cases items <;> exact ⟨_, _, by rw [prettyChars], by decide, by decide⟩
    | object members => cases members <;> exact ⟨_, _, by rw [prettyChars], by decide, by decide⟩

end Value

/-! ## Blanks -/

theorem skipSpaces_newline (solid : isSpace c = false) (level : Nat) (cs : List Char) :
    skipSpaces (newline level ++ c :: cs) = c :: cs := by
  have blank : ∀ b ∈ newline level, isSpace b = true := by
    intro b member
    rcases List.mem_cons.mp member with rfl | later
    · decide
    · rw [List.eq_of_mem_replicate later]
      decide
  rw [skipSpaces, List.dropWhile_append_of_pos blank,
    List.dropWhile_cons_of_neg (Bool.eq_false_iff.mp solid)]

theorem skipSpaces_solid (solid : isSpace c = false) (cs : List Char) :
    skipSpaces (c :: cs) = c :: cs :=
  List.dropWhile_cons_of_neg (Bool.eq_false_iff.mp solid)

/-! ## Items and members -/

section

variable {item : List Char → Except Failure (Value × List Char)}

theorem readItems_close (first : Bool) (level : Nat) (rest : List Char) :
    readItems item (fuel + 1) first (newline level ++ ']' :: rest) = .ok ([], rest) := by
  rw [readItems, skipSpaces_newline (by decide)]
  rfl

/-- An item with what stands in front of it: nothing for the first, a comma for the others. -/
theorem readItems_next {v : Value} {vs : List Value} {behind : List Char} (first : Bool)
    (solid : isSpace c = false) (notClosed : c ≠ ']') (level : Nat)
    (read : item (c :: cs) = .ok (v, behind))
    (others : readItems item fuel false behind = .ok (vs, rest)) :
    readItems item (fuel + 1) first
      (separator first ++ (newline level ++ c :: cs)) = .ok (v :: vs, rest) := by
  cases first with
  | true =>
    rw [separator, if_pos rfl, List.nil_append, readItems, skipSpaces_newline solid]
    dsimp only
    rw [if_neg notClosed, if_pos rfl]
    simp only [bind, Except.bind, read, others]
  | false =>
    have comma := skipSpaces_solid (c := ',') (by decide) (newline level ++ c :: cs)
    rw [separator, if_neg Bool.false_ne_true, List.singleton_append, readItems, comma]
    dsimp only
    rw [if_neg (by decide), if_neg Bool.false_ne_true, if_pos rfl, skipSpaces_newline solid]
    split
    · rename_i none
      cases none
    · rename_i closed
      cases closed
      exact absurd rfl notClosed
    · simp only [bind, Except.bind, read, others]

theorem readMembers_close (first : Bool) (level : Nat) (rest : List Char) :
    readMembers item (fuel + 1) first (newline level ++ '}' :: rest) = .ok ([], rest) := by
  rw [readMembers, skipSpaces_newline (by decide)]
  rfl

theorem readMembers_next {key : String} {v : Value} {ms : List (String × Value)}
    {behind : List Char} (first : Bool) (level : Nat) (read : item (' ' :: cs) = .ok (v, behind))
    (others : readMembers item fuel false behind = .ok (ms, rest)) :
    readMembers item (fuel + 1) first (separator first ++ (newline level ++
      ('"' :: (key.toList.flatMap Quoted.escape ++ '"' :: ':' :: ' ' :: cs)))) =
        .ok ((key, v) :: ms, rest) := by
  have quote : isSpace '"' = false := by decide
  have colon (cs : List Char) : readColon (':' :: cs) = .ok cs := rfl
  cases first with
  | true =>
    rw [separator, if_pos rfl, List.nil_append, readMembers, skipSpaces_newline quote]
    dsimp only
    rw [if_neg (by decide), if_pos rfl]
    simp only [bind, Except.bind, readString_escapes, colon, read, others]
  | false =>
    rw [separator, if_neg Bool.false_ne_true, List.singleton_append, readMembers,
      skipSpaces_solid (by decide)]
    dsimp only
    rw [if_neg (by decide), if_neg Bool.false_ne_true, if_pos rfl, skipSpaces_newline quote]
    split
    · rename_i none
      cases none
    · rename_i closed
      cases closed
    · simp only [bind, Except.bind, readString_escapes, colon, read, others]

end

/-! ## Values -/

theorem readValue_space (depth : Nat) (cs : List Char) :
    readValue (depth + 1) (' ' :: cs) = readValue (depth + 1) cs := by
  rw [readValue, readValue]
  rfl

theorem ends_newline (level : Nat) (cs : List Char) :
    Ends continuesNumeral (newline level ++ cs) := ends_cons (by decide)

theorem ends_items (level : Nat) (vs : List Value) (outer : Nat) (rest : List Char) :
    Ends continuesNumeral (listedItems false level vs ++ (newline outer ++ rest)) := by
  cases vs with
  | nil => exact ends_newline outer rest
  | cons v vs => exact ends_cons (by decide)

theorem ends_members (level : Nat) (ms : List (String × Value)) (outer : Nat)
    (rest : List Char) :
    Ends continuesNumeral (listedMembers false level ms ++ (newline outer ++ rest)) := by
  cases ms with
  | nil => exact ends_newline outer rest
  | cons m ms => exact ends_cons (by decide)

/-- A value is read back where it stands in front of something else. -/
def ReadsBack (depth level : Nat) (v : Value) : Prop :=
  ∀ behind, Ends continuesNumeral behind →
    readValue depth (prettyChars level v ++ behind) = .ok (v, behind)

theorem readItems_listed {vs : List Value} (readable : ∀ v ∈ vs, v.Readable depth)
    (reads : ∀ v ∈ vs, ReadsBack depth level v) (enough : vs.length < fuel) (first : Bool)
    (outer : Nat) (rest : List Char) :
    readItems (readValue depth) fuel first
      (listedItems first level vs ++ (newline outer ++ ']' :: rest)) = .ok (vs, rest) := by
  induction vs generalizing fuel first with
  | nil =>
    obtain ⟨fuel, rfl⟩ := Nat.exists_eq_add_one_of_ne_zero (Nat.ne_of_gt enough)
    exact readItems_close first outer rest
  | cons v vs ih =>
    obtain ⟨fuel, rfl⟩ := Nat.exists_eq_add_one_of_ne_zero (Nat.ne_of_gt (Nat.zero_lt_of_lt enough))
    have others := ih (fun w member => readable w (List.mem_cons_of_mem _ member))
      (fun w member => reads w (List.mem_cons_of_mem _ member)) (Nat.lt_of_succ_lt_succ enough)
      false
    have read := reads v List.mem_cons_self _ (ends_items level vs outer (']' :: rest))
    obtain ⟨c, cs, start, solid, notClosed⟩ :=
      prettyChars_start (readable v List.mem_cons_self) level
    rw [listedItems, prettyItems_cons, start]
    rw [start] at read
    simp only [List.append_assoc, List.cons_append] at read ⊢
    exact readItems_next first solid notClosed level read others

theorem readMembers_listed {ms : List (String × Value)}
    (reads : ∀ m ∈ ms, ReadsBack (depth + 1) level m.2) (enough : ms.length < fuel) (first : Bool)
    (outer : Nat) (rest : List Char) :
    readMembers (readValue (depth + 1)) fuel first
      (listedMembers first level ms ++ (newline outer ++ '}' :: rest)) = .ok (ms, rest) := by
  induction ms generalizing fuel first with
  | nil =>
    obtain ⟨fuel, rfl⟩ := Nat.exists_eq_add_one_of_ne_zero (Nat.ne_of_gt enough)
    exact readMembers_close first outer rest
  | cons m ms ih =>
    obtain ⟨fuel, rfl⟩ := Nat.exists_eq_add_one_of_ne_zero (Nat.ne_of_gt (Nat.zero_lt_of_lt enough))
    have others := ih (fun w member => reads w (List.mem_cons_of_mem _ member))
      (Nat.lt_of_succ_lt_succ enough) false
    have read := reads m List.mem_cons_self _ (ends_members level ms outer ('}' :: rest))
    rw [← readValue_space] at read
    rw [listedMembers, prettyMembers_cons]
    simp only [List.append_assoc, List.cons_append] at read ⊢
    exact readMembers_next first level read others

theorem length_le_items (first : Bool) (level : Nat) (vs : List Value) :
    vs.length ≤ (listedItems first level vs).length := by
  induction vs generalizing first with
  | nil => exact Nat.le_refl _
  | cons v vs ih =>
    have others := ih false
    rw [listedItems, prettyItems_cons, newline]
    simp only [List.length_cons, List.length_append]
    omega

theorem length_le_members (first : Bool) (level : Nat) (ms : List (String × Value)) :
    ms.length ≤ (listedMembers first level ms).length := by
  induction ms generalizing first with
  | nil => exact Nat.le_refl _
  | cons m ms ih =>
    have others := ih false
    rw [listedMembers, prettyMembers_cons, newline]
    simp only [List.length_cons, List.length_append]
    omega

theorem readValue_digits {n : Nat} (fits : n < UInt64.size) (depth : Nat)
    (ends : Ends continuesNumeral rest) :
    readValue (depth + 1) (Nat.toDigits 10 n ++ rest) = .ok (.ofNat n, rest) := by
  obtain ⟨d, ds, form, digit⟩ := toDigits_start n
  have read := readUnsigned_digits fits ends
  rw [form] at read ⊢
  have other (c : Char) (letter : c.isDigit = false) : d ≠ c := by
    rintro rfl
    rw [digit] at letter
    cases letter
  have solid : isSpace d = false := by
    rw [isSpace, beq_false_of_ne (other _ rfl), beq_false_of_ne (other _ rfl),
      beq_false_of_ne (other _ rfl), beq_false_of_ne (other _ rfl)]
    rfl
  rw [List.cons_append, readValue, skipSpaces_solid solid]
  dsimp only
  rw [if_neg (other _ rfl), if_neg (other _ rfl), if_neg (other _ rfl), if_neg (other _ rfl),
    if_pos digit]
  exact read

theorem readValue_array {items : List Value} (depth : Nat)
    (read : readItems (readValue (depth + 1)) (cs.length + 1) true cs = .ok (items, rest)) :
    readValue (depth + 2) ('[' :: cs) = .ok (.array items, rest) := by
  change (readItems _ _ _ _ >>= _) = _
  rw [read]
  rfl

theorem readValue_object {members : List (String × Value)} (depth : Nat)
    (read : readMembers (readValue (depth + 1)) (cs.length + 1) true cs = .ok (members, rest)) :
    readValue (depth + 2) ('{' :: cs) = .ok (.object members, rest) := by
  change (readMembers _ _ _ _ >>= _) = _
  rw [read]
  rfl

/-- The text of a value is read back, and what stands behind it is left. -/
theorem readValue_pretty {v : Value} (readable : v.Readable depth) (level : Nat) :
    ReadsBack depth level v := by
  -- The reader recurses on the depth that is left, so the induction does; the value goes along.
  induction depth generalizing v level with
  | zero => cases readable
  | succ depth ih =>
    intro behind ends
    cases v with
    | null => rfl
    | bool value => cases value <;> rfl
    | number text =>
      obtain ⟨n, fits, rfl⟩ := readable
      rw [prettyChars, Nat.toString_eq_ofList_toDigits, String.toList_ofList,
        readValue_digits fits depth ends, Value.ofNat, Nat.toString_eq_ofList_toDigits]
    | string value =>
      have read := readString_escapes value behind
      rw [prettyChars, Quoted.encode, List.cons_append, List.append_assoc, List.singleton_append]
      change (readString _ >>= _) = _
      rw [read]
      rfl
    | array items =>
      obtain ⟨nested, within⟩ := readable
      obtain ⟨depth, rfl⟩ := Nat.exists_eq_add_one_of_ne_zero nested
      have reads (w : Value) (member : w ∈ items) := ih (within w member) (level + 1)
      cases items with
      | nil => rw [prettyChars]; rfl
      | cons v vs =>
        have shape : prettyChars level (.array (v :: vs)) ++ behind = '[' :: (listedItems true
            (level + 1) (v :: vs) ++ (newline level ++ ']' :: behind)) := by
          rw [prettyChars, listedItems, separator, if_pos rfl]
          simp only [List.cons_append, List.append_assoc, List.nil_append]
        rw [shape]
        refine readValue_array depth (readItems_listed within reads ?_ true level behind)
        rw [List.length_append]
        have many := length_le_items true (level + 1) (v :: vs)
        omega
    | object members =>
      obtain ⟨nested, within⟩ := readable
      obtain ⟨depth, rfl⟩ := Nat.exists_eq_add_one_of_ne_zero nested
      have reads (m : String × Value) (member : m ∈ members) := ih (within m member) (level + 1)
      cases members with
      | nil => rw [prettyChars]; rfl
      | cons m ms =>
        have shape : prettyChars level (.object (m :: ms)) ++ behind = '{' :: (listedMembers true
            (level + 1) (m :: ms) ++ (newline level ++ '}' :: behind)) := by
          rw [prettyChars, listedMembers, separator, if_pos rfl]
          simp only [List.cons_append, List.append_assoc, List.nil_append]
        rw [shape]
        refine readValue_object depth (readMembers_listed reads ?_ true level behind)
        rw [List.length_append]
        have many := length_le_members true (level + 1) (m :: ms)
        omega

end Schemata.Json
