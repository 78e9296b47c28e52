import Mathlib.Data.List.GetD
import Mathlib.Data.Nat.Digits.Lemmas
import Schemata.Fingerprint

/-! Words in base 62 as numerals. Eleven digits are enough for every word, whose digits are those of
its number with zeros in front; so the text can be read back, and since the alphabet is in the order
of its characters, texts stand in the order of the words. -/
namespace Schemata.Fingerprint.Base62

/-- The number that a text stands for as a numeral, the highest digit first. -/
def value (text : List Char) : Nat := Nat.ofDigits 62 (text.reverse.map alphabet.idxOf)

/-- The bytes of a text as numbers. -/
def bytes (text : List Char) : List Nat :=
  (String.ofList text).toUTF8.data.toList.map UInt8.toNat

/-! ## The alphabet -/

theorem length_alphabet : alphabet.length = 62 := by decide

theorem alphabet_increasing : (alphabet.map Char.toNat).Pairwise (· < ·) := by decide

theorem alphabet_ascii {c : Char} (member : c ∈ alphabet) : c.toNat < 128 := by
  have ascii : alphabet.all fun c => c.toNat < 128 := by decide
  exact of_decide_eq_true (List.all_eq_true.mp ascii c member)

variable {i j : Nat}

theorem digit_eq_getElem (small : i < 62) : ∃ inside : i < alphabet.length, digit i = alphabet[i] :=
  have inside : i < alphabet.length := length_alphabet ▸ small
  ⟨inside, List.getD_eq_getElem _ _ inside⟩

theorem digit_mem (small : i < 62) : digit i ∈ alphabet := by
  obtain ⟨inside, same⟩ := digit_eq_getElem small
  rw [same]
  exact List.getElem_mem inside

theorem idxOf_digit (small : i < 62) : alphabet.idxOf (digit i) = i := by
  have distinct : alphabet.Nodup := by
    refine List.Pairwise.imp ?_ (List.pairwise_map.mp alphabet_increasing)
    rintro a b below rfl
    exact Nat.lt_irrefl _ below
  obtain ⟨inside, same⟩ := digit_eq_getElem small
  rw [same]
  exact distinct.idxOf_getElem i inside

theorem digit_lt_digit (below : i < j) (small : j < 62) : (digit i).toNat < (digit j).toNat := by
  obtain ⟨inside, first⟩ := digit_eq_getElem (below.trans small)
  obtain ⟨inside', second⟩ := digit_eq_getElem small
  rw [first, second]
  have increasing := List.pairwise_iff_getElem.mp (List.pairwise_map.mp alphabet_increasing)
  exact increasing i j inside inside' below

/-- Digits stand in the order of their values. -/
theorem compare_digit (small : i < 62) (small' : j < 62) :
    compare (digit i).toNat (digit j).toNat = compare i j := by
  rcases Nat.lt_trichotomy i j with below | rfl | above
  · rw [Nat.compare_eq_lt.mpr below, Nat.compare_eq_lt.mpr (digit_lt_digit below small')]
  · rw [Nat.compare_eq_eq.mpr rfl, Nat.compare_eq_eq.mpr rfl]
  · rw [Nat.compare_eq_gt.mpr above, Nat.compare_eq_gt.mpr (digit_lt_digit above small)]

/-! ## The digits of a word -/

/-- The values of the digits of a word, zeros in front included, the highest first. -/
def numeral (word : UInt64) : List Nat := (Nat.digitsAppend 62 width word.toNat).reverse

theorem toNat_lt_pow_width (word : UInt64) : word.toNat < 62 ^ width :=
  word.toNat_lt.trans (by decide)

/-- The digits that are split off are those of the number. -/
theorem digits_eq (word : UInt64) : digits word = (Nat.digits 62 word.toNat).map digit := by
  fun_induction digits word with
  | case1 => rfl
  | case2 word rest ih =>
    rw [Nat.digits_def' (by decide) (toNat_pos rest), List.map_cons, ih, UInt64.toNat_mod,
      UInt64.toNat_div]
    rfl

theorem encode_eq (word : UInt64) : encode word = (numeral word).map digit := by
  have zero : '0' = digit 0 := rfl
  rw [encode, List.rightpad, digits_eq, numeral, List.map_reverse, Nat.digitsAppend,
    List.map_append, List.map_replicate, List.length_map, zero]

theorem length_numeral (word : UInt64) : (numeral word).length = width := by
  rw [numeral, List.length_reverse,
    Nat.length_digitsAppend (by decide) width (toNat_lt_pow_width word)]

theorem numeral_lt {word : UInt64} (member : i ∈ numeral word) : i < 62 :=
  Nat.lt_of_mem_digitsAppend (by decide) width i (List.mem_reverse.mp member)

theorem encode_mem {word : UInt64} {c : Char} (member : c ∈ encode word) : c ∈ alphabet := by
  rw [encode_eq] at member
  obtain ⟨i, inside, rfl⟩ := List.mem_map.mp member
  exact digit_mem (numeral_lt inside)

theorem ofDigits_numeral (word : UInt64) : Nat.ofDigits 62 (numeral word).reverse = word.toNat := by
  rw [numeral, List.reverse_reverse, Nat.digitsAppend, Nat.ofDigits_append_replicate_zero,
    Nat.ofDigits_digits]

theorem value_encode (word : UInt64) : value (encode word) = word.toNat := by
  have read : (numeral word).reverse.map (alphabet.idxOf ∘ digit) = (numeral word).reverse := by
    refine (List.map_congr_left fun i member => ?_).trans (List.map_id _)
    exact idxOf_digit (numeral_lt (List.mem_reverse.mp member))
  rw [value, encode_eq, ← List.map_reverse, List.map_map, read, ofDigits_numeral]

/-! ## Order -/

variable {as bs : List Nat}

/-- What stands behind a digit is less than one unit of it. -/
theorem lt_of_digit_lt {unit low : Nat} (small : low < unit) (below : i < j) (low' : Nat) :
    low + unit * i < low' + unit * j := by
  have step := Nat.mul_le_mul_left unit (Nat.succ_le_of_lt below)
  rw [Nat.mul_succ] at step
  omega

theorem compare_then {unit low low' : Nat} (small : low < unit) (small' : low' < unit) :
    (compare i j).then (compare low low') = compare (low + unit * i) (low' + unit * j) := by
  rcases Nat.lt_trichotomy i j with below | rfl | above
  · rw [Nat.compare_eq_lt.mpr below, Nat.compare_eq_lt.mpr (lt_of_digit_lt small below low')]
    rfl
  · simp only [Nat.compare_eq_ite_lt, Nat.lt_irrefl, if_false, Nat.add_lt_add_iff_right]
    rfl
  · rw [Nat.compare_eq_gt.mpr above, Nat.compare_eq_gt.mpr (lt_of_digit_lt small' above low)]
    rfl

theorem ofDigits_reverse_lt {base : Nat} (wide : 1 < base) (small : ∀ a ∈ as, a < base) :
    Nat.ofDigits base as.reverse < base ^ as.length := by
  rw [← List.length_reverse]
  exact Nat.ofDigits_lt_base_pow_length wide fun a member => small a (List.mem_reverse.mp member)

/-- Numerals of one length are ordered by the first digit in which they differ. -/
theorem compareLex_eq_compare_ofDigits {base : Nat} (wide : 1 < base) (same : as.length = bs.length)
    (small : ∀ a ∈ as, a < base) (small' : ∀ b ∈ bs, b < base) :
    as.compareLex compare bs =
      compare (Nat.ofDigits base as.reverse) (Nat.ofDigits base bs.reverse) := by
  induction as generalizing bs with
  | nil =>
    rw [List.length_eq_zero_iff.mp same.symm]
    rfl
  | cons a as ih =>
    cases bs with
    | nil => cases same
    | cons b bs =>
      obtain ⟨_, smallRest⟩ := List.forall_mem_cons.mp small
      obtain ⟨_, smallRest'⟩ := List.forall_mem_cons.mp small'
      have lengths : as.length = bs.length := Nat.succ.inj same
      have bound : Nat.ofDigits base as.reverse < base ^ bs.length :=
        lengths ▸ ofDigits_reverse_lt wide smallRest
      rw [List.compareLex_cons_cons, ih lengths smallRest smallRest', Nat.ofDigits_reverse_cons,
        Nat.ofDigits_reverse_cons, lengths]
      exact compare_then bound (ofDigits_reverse_lt wide smallRest')

theorem compareLex_map {f : Nat → Nat}
    (same : ∀ a ∈ as, ∀ b ∈ bs, compare (f a) (f b) = compare a b) :
    (as.map f).compareLex compare (bs.map f) = as.compareLex compare bs := by
  induction as generalizing bs with
  | nil => cases bs <;> rfl
  | cons a as ih =>
    cases bs with
    | nil => rfl
    | cons b bs =>
      rw [List.map_cons, List.map_cons, List.compareLex_cons_cons, List.compareLex_cons_cons,
        same a List.mem_cons_self b List.mem_cons_self,
        ih fun a member b member' =>
          same a (List.mem_cons_of_mem _ member) b (List.mem_cons_of_mem _ member')]

theorem bytes_ascii {text : List Char} (ascii : ∀ c ∈ text, c.toNat < 128) :
    bytes text = text.map Char.toNat := by
  have single : text.flatMap String.utf8EncodeChar = text.map fun c => c.val.toUInt8 := by
    rw [List.map_eq_flatMap]
    refine List.flatMap_congr fun c member => String.utf8EncodeChar_eq_singleton ?_
    exact Char.utf8Size_eq_one_iff.mpr
      (UInt32.le_iff_toNat_le.mpr (Nat.le_of_lt_succ (ascii c member)))
  rw [bytes, String.toUTF8_eq_toByteArray, String.toByteArray_ofList, List.utf8Encode, single,
    List.data_toByteArray, List.map_map]
  exact List.map_congr_left fun c member => Nat.mod_eq_of_lt ((ascii c member).trans (by decide))

theorem compare_encode (word other : UInt64) :
    (bytes (encode word)).compareLex compare (bytes (encode other)) =
      compare word.toNat other.toNat := by
  have lengths : (numeral word).length = (numeral other).length := by
    rw [length_numeral, length_numeral]
  have digits : ∀ i ∈ numeral word, ∀ j ∈ numeral other,
      compare ((Char.toNat ∘ digit) i) ((Char.toNat ∘ digit) j) = compare i j :=
    fun i member j member' => compare_digit (numeral_lt member) (numeral_lt member')
  rw [bytes_ascii fun c member => alphabet_ascii (encode_mem member),
    bytes_ascii fun c member => alphabet_ascii (encode_mem member), encode_eq, encode_eq,
    List.map_map, List.map_map, compareLex_map digits,
    compareLex_eq_compare_ofDigits (by decide) lengths (fun _ => numeral_lt) fun _ => numeral_lt,
    ofDigits_numeral, ofDigits_numeral]

theorem encode_inj {word other : UInt64} : encode word = encode other ↔ word = other := by
  refine ⟨fun same => UInt64.toNat_inj.mp ?_, congrArg encode⟩
  rw [← value_encode, same, value_encode]

/-! ## Fingerprints -/

theorem content_inj {text other : String} : content text = content other ↔
    Digest.xxh64 0 text.toUTF8 = Digest.xxh64 0 other.toUTF8 := by
  rw [content, content, String.ofList_inj, encode_inj]

/-- A word is written with eleven digits that can be read back, in an order of texts that is the
order of words; so fingerprints tell apart what the hash tells apart. -/
theorem encode_faithful (word other : UInt64) :
    (encode word).length = 11 ∧ (∀ c ∈ encode word, c ∈ alphabet) ∧
      value (encode word) = word.toNat ∧
      (bytes (encode word)).compareLex compare (bytes (encode other)) =
        compare word.toNat other.toNat ∧
      (∀ text text', content text = content text' ↔
        Digest.xxh64 0 text.toUTF8 = Digest.xxh64 0 text'.toUTF8) ∧
      ∀ text options text' options', generation text options = generation text' options' ↔
        Digest.xxh64 0 (text ++ "\x00" ++ options).toUTF8 =
          Digest.xxh64 0 (text' ++ "\x00" ++ options').toUTF8 := by
  refine ⟨?_, fun _ => encode_mem, value_encode word, compare_encode word other,
    fun _ _ => content_inj, fun _ _ _ _ => content_inj⟩
  rw [encode_eq, List.length_map, length_numeral]
  rfl

end Schemata.Fingerprint.Base62
