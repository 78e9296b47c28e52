import Schemata.Naming
import Schemata.Proofs.Text.Casing

/-! The words of names. A name is cut in front of its words and at its separators, and joining
changes nothing but the case of letters; so names of which the same validator name is made have the
same letters and digits, in the same order. -/
namespace Schemata.Naming

open Text

def unseparated (name : List Char) : List Char := name.filter fun c => !isSeparator c

/-- What two names have in common if they differ in case and separators only. -/
def letters (name : List Char) : List Char := (unseparated name).map Char.toLower

variable {name word : List Char}

theorem flatten_flush (word : List Char) (words : List (List Char)) :
    (flush word words).flatten = word ++ words.flatten := by
  rw [flush]
  split
  · rename_i empty
    rw [List.isEmpty_iff.mp empty, List.nil_append]
  · rw [List.flatten_cons]

/-- The open word is the start of what is cut. -/
theorem flatten_wordsFrom (word : List Char) (before : Option Char) (name : List Char) :
    (wordsFrom word before name).flatten = word ++ unseparated name := by
  induction name generalizing word before with
  | nil => simp [wordsFrom, flatten_flush, unseparated]
  | cons c name ih =>
    rw [wordsFrom]
    split
    · rename_i separator
      simp [flatten_flush, ih, unseparated, separator]
    · rename_i part
      split <;> simp [ih, unseparated, part]

theorem flatten_words (name : List Char) : (words name).flatten = unseparated name := by
  simp [words, flatten_wordsFrom]

theorem map_toLower_word (ascii : IsAscii word) :
    (toLower word).map Char.toLower = word.map Char.toLower ∧
      (capitalize (toLower word)).map Char.toLower = word.map Char.toLower := by
  have small : (toLower word).map Char.toLower = word.map Char.toLower := by
    simp [toLower_ascii ascii]
  have lowered : IsAscii (toLower word) := toLower_ascii ascii ▸ isAscii_map_toLower.mpr ascii
  exact ⟨small, (map_toLower_capitalize lowered).trans small⟩

/-- Of the words nothing but the case of letters is changed. -/
theorem map_toLower_joinWords {words : List (List Char)} (ascii : IsAscii words.flatten) :
    (joinWords words).map Char.toLower = words.flatten.map Char.toLower := by
  cases words with
  | nil => rfl
  | cons first rest =>
    simp only [List.flatten_cons, IsAscii, List.mem_append] at ascii
    have small : (toLower first).map Char.toLower = first.map Char.toLower :=
      (map_toLower_word fun c member => ascii c (.inl member)).1
    have later : ∀ word ∈ rest,
        (capitalize (toLower word)).map Char.toLower = word.map Char.toLower := by
      intro word member
      refine (map_toLower_word fun c inside => ascii c (.inr ?_)).2
      exact List.mem_flatten_of_mem member inside
    rw [joinWords, List.map_append, small, List.map_flatMap, List.flatMap_congr later,
      List.flatten_cons, List.map_append, List.map_flatten, List.flatMap_def]

theorem map_toLower_camel (ascii : IsAscii name) :
    (camel name).map Char.toLower = letters name := by
  have kept : IsAscii (words name).flatten := by
    rw [flatten_words]
    exact fun c member => ascii c (List.mem_of_mem_filter member)
  rw [camel, map_toLower_joinWords kept, flatten_words, letters]

theorem isAscii_camel (ascii : IsAscii name) : IsAscii (camel name) := by
  rw [← isAscii_map_toLower, map_toLower_camel ascii, letters, isAscii_map_toLower]
  exact fun c member => ascii c (List.mem_of_mem_filter member)

/-- The letters of the part of a validator's name that comes from the type. -/
theorem Scheme.exists_name (scheme : Scheme) {type : String} (ascii : IsAscii type.toList) :
    ∃ middle, (scheme.name type).toList = scheme.before.toList ++ middle ++ scheme.after.toList ∧
      middle.map Char.toLower = letters type.toList := by
  rw [Scheme.name]
  split
  · rename_i empty
    refine ⟨camel type.toList, ?_, map_toLower_camel ascii⟩
    rw [String.isEmpty_iff.mp empty]
    simp [camelCase]
  · refine ⟨capitalize (camel type.toList), ?_, ?_⟩
    · simp
    · rw [map_toLower_capitalize (isAscii_camel ascii), map_toLower_camel ascii]

/-- The words of a name hold all of it but the separators. In camel case an ASCII name is the same
in small letters, so no scheme gives one name to two that differ in more than case and
separators. -/
theorem letters_kept {type : String} (ascii : IsAscii type.toList) :
    (words type.toList).flatten = unseparated type.toList ∧
      (camelCase type).toList.map Char.toLower = letters type.toList ∧
      ∀ (scheme : Scheme) (other : String), IsAscii other.toList →
        scheme.name type = scheme.name other → letters type.toList = letters other.toList := by
  refine ⟨flatten_words _, ?_, fun scheme other otherAscii same => ?_⟩
  · rw [camelCase, String.toList_ofList]
    exact map_toLower_camel ascii
  · obtain ⟨middle, whole, kept⟩ := scheme.exists_name ascii
    obtain ⟨middle', whole', kept'⟩ := scheme.exists_name otherAscii
    rw [same, whole'] at whole
    have middles := List.append_cancel_left (List.append_cancel_right whole)
    rw [← kept, ← kept', middles]

theorem letters_kept_key : standard "API_key" = standard "apiKey" ∧
    (camelCase "API_key").toList.map Char.toLower = "apikey".toList ∧
    letters "API_key".toList = letters "apiKey".toList := by
  have same : standard "API_key" = standard "apiKey" := by decide +kernel
  have small : letters "API_key".toList = "apikey".toList := by decide
  have ascii : IsAscii "API_key".toList ∧ IsAscii "apiKey".toList := by decide +kernel
  obtain ⟨-, kept, apart⟩ := letters_kept ascii.1
  exact ⟨same, kept.trans small, apart standard "apiKey" ascii.2 same⟩

end Schemata.Naming
