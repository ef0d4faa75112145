import Pocl.CommentSyntax

/-!
# Programs created from source

`clCreateProgramWithSource` concatenates the strings, copies the text up to its first NUL into
an array of 65536 characters, and removes the comments with a machine of five states.

The allocations of the call succeed.  A string is the memory from its pointer on; an access
outside of it or of the arrays of the call has no defined result.
-/

namespace Pocl.ProgramSources

open Pocl.CommentSyntax

inductive Failure
  | undefined
  | invalidValue
  deriving DecidableEq

/-- The values 0 to 4 of `status`. -/
inductive Status
  | readCharacter
  | commentMode
  | singleLine
  | multiLine
  | multiLineStar
  deriving DecidableEq

/-- The characters before the first NUL. -/
def cString (memory : Text) : Text :=
  memory.takeWhile (· ≠ 0)

section Assembly

def strlen (string : Text) : Except Failure ℕ :=
  if 0 ∈ string then .ok (cString string).length else .error .undefined

/-- The number of characters taken from a string. -/
def stringLength (lengths : Option (List ℕ)) (i : ℕ) (string : Text) : Except Failure ℕ :=
  match lengths with
  | none => strlen string
  | some lengths =>
      match lengths[i]? with
      | none => .error .undefined
      | some 0 => strlen string
      | some (length + 1) => .ok (length + 1)

/-- The loop that checks the strings and computes `size`, an `unsigned`. -/
def sumLengths (lengths : Option (List ℕ)) :
    ℕ → List (Option Text) → ℕ → Except Failure ℕ
  | _, [], size => .ok size
  | _, none :: _, _ => .error .invalidValue
  | i, some string :: strings, size => do
      let length ← stringLength lengths i string
      sumLengths lengths (i + 1) strings ((size + length) % 2 ^ 32)

/-- The loop that copies the strings to an array with the given number of characters. -/
def copyStrings (lengths : Option (List ℕ)) (capacity : ℕ) :
    ℕ → List (Option Text) → Text → Except Failure Text
  | _, [], source => .ok source
  | _, none :: _, _ => .error .undefined
  | i, some string :: strings, source => do
      let length ← stringLength lengths i string
      if length ≤ string.length ∧ source.length + length ≤ capacity then
        copyStrings lengths capacity (i + 1) strings (source ++ string.take length)
      else .error .undefined

end Assembly

section Removal

/-- One step of the machine: the next state, and the characters that are stored. -/
def transition (status : Status) (character : UInt8) : Status × Text :=
  match status with
  | .readCharacter =>
      if character = slash then (.commentMode, []) else (.readCharacter, [character])
  | .commentMode =>
      if character = slash then (.singleLine, [])
      else if character = asterisk then (.multiLine, [])
      else (.readCharacter, [slash, character])
  | .singleLine =>
      if character = newline then (.readCharacter, [newline]) else (.singleLine, [])
  | .multiLine => if character = asterisk then (.multiLineStar, []) else (.multiLine, [])
  | .multiLineStar =>
      if character = slash then (.readCharacter, [])
      else if character = asterisk then (.multiLineStar, [])
      else (.multiLine, [])

/-- The loop over the characters, which stores them in an array and closes it with a NUL. -/
def removeComments (capacity : ℕ) : Status → Text → Text → Except Failure Text
  | _, [], stored =>
      if stored.length < capacity then .ok stored else .error .undefined
  | status, character :: source, stored =>
      let step := transition status character
      if (stored ++ step.2).length ≤ capacity then
        removeComments capacity step.1 source (stored ++ step.2)
      else .error .undefined

/-- The source that the program stores. -/
def clCreateProgramWithSource (strings : List (Option Text)) (lengths : Option (List ℕ)) :
    Except Failure Text :=
  if strings = [] then .error .invalidValue
  else do
    let size ← sumLengths lengths 0 strings 0
    let source ← copyStrings lengths (size + 1) 0 strings []
    if source.length ≤ size then
      let sourceCopy := cString (source ++ [0])
      if sourceCopy.length < 65536 then
        removeComments (size + 1) .readCharacter sourceCopy []
      else .error .undefined
    else .error .undefined

end Removal

/-! ## The concatenation -/

/-- The text of a string: up to its NUL, or of the given length. -/
def stringText (length : ℕ) (string : Text) : Option Text :=
  if length = 0 then
    if 0 ∈ string then some (cString string) else none
  else if length ≤ string.length then some (string.take length)
  else none

/-- The concatenation of strings with an array of lengths, or of strings with a NUL each. -/
def concatenation : Option (List ℕ) → List Text → Option Text
  | _, [] => some []
  | some [], _ :: _ => none
  | none, string :: strings => do
      let text ← stringText 0 string
      let texts ← concatenation none strings
      return text ++ texts
  | some (length :: lengths), string :: strings => do
      let text ← stringText length string
      let texts ← concatenation (some lengths) strings
      return text ++ texts

section Copies

variable {lengths : Option (List ℕ)} {string text : Text} {strings : List Text}

theorem take_cString (string : Text) : string.take (cString string).length = cString string :=
  List.prefix_iff_eq_take.mp (List.takeWhile_prefix _) |>.symm

theorem strlen_eq (hnul : 0 ∈ string) : strlen string = .ok (cString string).length :=
  if_pos hnul

/-- The first of the remaining lengths. -/
theorem stringLength_of_stringText (lengths : Option (List ℕ)) {length i : ℕ}
    (htext : stringText length string = some text)
    (hlength : ∀ list, lengths = some list → list[i]? = some length)
    (hnone : lengths = none → length = 0) :
    stringLength lengths i string = .ok text.length ∧ text.length ≤ string.length ∧
      string.take text.length = text := by
  rw [stringText] at htext
  have hcString : length = 0 → stringLength lengths i string = strlen string := by
    rintro rfl
    cases lengths with
    | none => rfl
    | some list => rw [stringLength, hlength list rfl]
  split at htext
  next hzero =>
    split at htext
    next hnul =>
      obtain rfl := Option.some.inj htext
      refine ⟨(hcString hzero).trans (strlen_eq hnul), ?_, take_cString string⟩
      exact (List.takeWhile_sublist _).length_le
    next => cases htext
  next hne =>
    split at htext
    next hle =>
      obtain rfl := Option.some.inj htext
      have hlen := List.length_take_of_le hle
      rw [hlen]
      refine ⟨?_, hle, rfl⟩
      cases lengths with
      | none => exact absurd (hnone rfl) hne
      | some list =>
          rw [stringLength, hlength list rfl]
          cases length with
          | zero => exact absurd rfl hne
          | succ length => rfl
    next => cases htext

/-- The text of the first string, and the one of the others. -/
theorem concatenation_cons {i : ℕ}
    (hconcat : concatenation (lengths.map (List.drop i)) (string :: strings) = some text) :
    ∃ first rest, text = first ++ rest ∧
      stringLength lengths i string = .ok first.length ∧ first.length ≤ string.length ∧
        string.take first.length = first ∧
          concatenation (lengths.map (List.drop (i + 1))) strings = some rest := by
  cases lengths with
  | none =>
      obtain ⟨first, hfirst, hconcat⟩ := Option.bind_eq_some_iff.mp hconcat
      obtain ⟨rest, hrest, hconcat⟩ := Option.bind_eq_some_iff.mp hconcat
      obtain ⟨hlength, hle, htake⟩ := stringLength_of_stringText none (i := i) hfirst
        (by simp) (by simp)
      exact ⟨first, rest, (Option.some.inj hconcat).symm, hlength, hle, htake, hrest⟩
  | some lengths =>
      rw [Option.map_some] at hconcat
      cases hdrop : lengths.drop i with
      | nil => rw [hdrop] at hconcat; cases hconcat
      | cons length others =>
          rw [hdrop] at hconcat
          obtain ⟨first, hfirst, hconcat⟩ := Option.bind_eq_some_iff.mp hconcat
          obtain ⟨rest, hrest, hconcat⟩ := Option.bind_eq_some_iff.mp hconcat
          have hget : lengths[i]? = some length := by
            rw [← List.head?_drop, hdrop, List.head?_cons]
          have hothers : lengths.drop (i + 1) = others := by
            rw [← List.tail_drop, hdrop, List.tail_cons]
          obtain ⟨hlength, hle, htake⟩ := stringLength_of_stringText (some lengths)
            hfirst (by simpa using hget) (by simp)
          refine ⟨first, rest, (Option.some.inj hconcat).symm, hlength, hle, htake, ?_⟩
          rw [Option.map_some, hothers]
          exact hrest

theorem sumLengths_eq {i size : ℕ} (hsize : size < 2 ^ 32)
    (hconcat : concatenation (lengths.map (List.drop i)) strings = some text) :
    sumLengths lengths i (strings.map some) size = .ok ((size + text.length) % 2 ^ 32) := by
  induction strings generalizing i size text with
  | nil =>
      have hnil : text = [] := by
        cases lengths <;> exact (Option.some.inj hconcat).symm
      rw [hnil, List.length_nil, Nat.add_zero, Nat.mod_eq_of_lt hsize]
      rfl
  | cons string strings ih =>
      obtain ⟨first, rest, rfl, hlength, -, -, hrest⟩ := concatenation_cons hconcat
      rw [List.map_cons, sumLengths, hlength]
      change sumLengths lengths (i + 1) (strings.map some) ((size + first.length) % 2 ^ 32) = _
      rw [ih (Nat.mod_lt _ (by decide)) hrest, List.length_append, Nat.mod_add_mod, Nat.add_assoc]

theorem copyStrings_eq {i capacity : ℕ} {source : Text} (hsource : source.length ≤ capacity)
    (hconcat : concatenation (lengths.map (List.drop i)) strings = some text) :
    copyStrings lengths capacity i (strings.map some) source =
      if source.length + text.length ≤ capacity then .ok (source ++ text)
      else .error .undefined := by
  induction strings generalizing i source text with
  | nil =>
      have hnil : text = [] := by
        cases lengths <;> exact (Option.some.inj hconcat).symm
      rw [hnil, List.append_nil, List.length_nil, Nat.add_zero, if_pos hsource]
      rfl
  | cons string strings ih =>
      obtain ⟨first, rest, rfl, hlength, hle, htake, hrest⟩ := concatenation_cons hconcat
      rw [List.map_cons, copyStrings, hlength]
      change (if _ then _ else _) = _
      rw [List.length_append]
      by_cases hfits : source.length + first.length ≤ capacity
      · rw [if_pos ⟨hle, hfits⟩, htake, ih (by rwa [List.length_append]) hrest,
          List.length_append, List.append_assoc, Nat.add_assoc]
      · rw [if_neg fun hboth => hfits hboth.2, if_neg (by omega)]

end Copies

/-! ## The machine -/

section Machine

/-- What the machine stores on its way through a text. -/
def emitted : Status → Text → Text
  | _, [] => []
  | status, character :: source =>
      (transition status character).2 ++ emitted (transition status character).1 source

theorem removeComments_eq {capacity : ℕ} (status : Status) (source stored : Text)
    (hfits : stored.length + (emitted status source).length < capacity) :
    removeComments capacity status source stored = .ok (stored ++ emitted status source) := by
  induction source generalizing status stored with
  | nil => rw [removeComments, if_pos (by simpa [emitted] using hfits), emitted, List.append_nil]
  | cons character source ih =>
      rw [emitted, List.length_append] at hfits
      simp only [removeComments]
      rw [if_pos (by rw [List.length_append]; omega), ih _ _ (by rw [List.length_append]; omega),
        emitted, List.append_assoc]

theorem emitted_readCharacter_cons {character : UInt8} (hne : character ≠ slash) (rest : Text) :
    emitted .readCharacter (character :: rest) = character :: emitted .readCharacter rest := by
  simp only [emitted, transition, if_neg hne, List.singleton_append]

theorem emitted_singleLine (text : Text) :
    emitted .singleLine text = emitted .readCharacter (dropLine text) := by
  induction text with
  | nil => rfl
  | cons character text ih =>
      rw [dropLine, List.dropWhile_cons]
      by_cases hnewline : character = newline
      · subst hnewline
        rw [if_neg (by simp), emitted_readCharacter_cons (by decide)]
        rfl
      · rw [if_pos (by simp [hnewline])]
        simp only [emitted, transition, if_neg hnewline, List.nil_append]
        exact ih

/-- Neither does the other kind of comment, before or behind an asterisk. -/
theorem emitted_multiLine (text : Text) :
    emitted .multiLine text = emitted .readCharacter (dropBlock text) ∧
      emitted .multiLineStar text = emitted .readCharacter (dropBlock (asterisk :: text)) := by
  induction text with
  | nil => exact ⟨rfl, rfl⟩
  | cons character text ih =>
      obtain ⟨hmultiLine, hmultiLineStar⟩ := ih
      have hfirst : emitted .multiLine (character :: text) =
          emitted .readCharacter (dropBlock (character :: text)) := by
        by_cases hstar : character = asterisk
        · rw [hstar, ← hmultiLineStar]
          rfl
        · simp only [emitted, transition, if_neg hstar, List.nil_append, hmultiLine]
          cases text with
          | nil => rfl
          | cons second rest => rw [dropBlock, if_neg fun hend => hstar hend.1]
      refine ⟨hfirst, ?_⟩
      rw [dropBlock]
      by_cases hslash : character = slash
      · rw [if_pos ⟨rfl, hslash⟩]
        simp only [emitted, transition, if_pos hslash, List.nil_append]
      · rw [if_neg fun hend => hslash hend.2, ← hfirst]
        by_cases hstar : character = asterisk
        · simp only [emitted, transition, if_neg hslash, if_pos hstar, List.nil_append]
        · simp only [emitted, transition, if_neg hslash, if_neg hstar, List.nil_append]

theorem emitted_deletes : Deletes (emitted .readCharacter) where
  nil := rfl
  single _ hne := emitted_readCharacter_cons hne []
  alone := .inr rfl
  line := emitted_singleLine
  block rest := (emitted_multiLine rest).1
  kept first second rest hopener := by
    by_cases hfirst : first = slash
    · have hsecond : second ≠ slash := fun heq => hopener ⟨hfirst, .inl heq⟩
      have hstar : second ≠ asterisk := fun heq => hopener ⟨hfirst, .inr heq⟩
      rw [emitted_readCharacter_cons hsecond, hfirst]
      simp only [emitted, transition, if_pos, if_neg hsecond, if_neg hstar, List.nil_append,
        List.cons_append]
    · exact emitted_readCharacter_cons hfirst _

theorem length_emitted_le (status : Status) (source : Text) :
    (emitted status source).length ≤ source.length + (if status = .commentMode then 1 else 0) := by
  induction source generalizing status with
  | nil => exact Nat.zero_le _
  | cons character source ih =>
      have hrest := ih (transition status character).1
      have hstep : (transition status character).2.length +
          (if (transition status character).1 = .commentMode then 1 else 0) ≤
            1 + (if status = .commentMode then 1 else 0) := by
        cases status <;> simp only [transition] <;> split <;> simp <;> split <;> simp
      rw [emitted, List.length_append, List.length_cons]
      omega

end Machine

/-! ## The stored source -/

section Stored

variable {text : Text}

theorem cString_append_nul (text : Text) : cString (text ++ [0]) = cString text := by
  induction text with
  | nil => rfl
  | cons character text ih =>
      by_cases hnul : character = 0
      · simp [cString, hnul]
      · simpa [cString, hnul] using ih

theorem length_cString_le (text : Text) : (cString text).length ≤ text.length :=
  (List.takeWhile_sublist _).length_le

theorem removeComments_readCharacter {capacity : ℕ} (hcapacity : text.length < capacity) :
    removeComments capacity .readCharacter text [] = .ok (emitted .readCharacter text) := by
  have hle := length_emitted_le .readCharacter text
  rw [if_neg (by decide), Nat.add_zero] at hle
  rw [removeComments_eq, List.nil_append]
  rw [List.length_nil, Nat.zero_add]
  exact hle.trans_lt hcapacity

/-- The arrays are large enough for fewer than 65536 characters, as long as `size` is exact. -/
theorem clCreateProgramWithSource_eq {strings : List Text} {lengths : Option (List ℕ)}
    (hne : strings ≠ []) (hconcat : concatenation lengths strings = some text) :
    clCreateProgramWithSource (strings.map some) lengths =
      if text.length < 2 ^ 32 ∧ (cString text).length < 65536 then
        .ok (emitted .readCharacter (cString text))
      else .error .undefined := by
  have hmap : lengths.map (List.drop 0) = lengths := by cases lengths <;> rfl
  rw [← hmap] at hconcat
  have hsize := sumLengths_eq (by decide : 0 < 2 ^ 32) hconcat
  rw [Nat.zero_add] at hsize
  have hempty : ([] : Text).length ≤ text.length % 2 ^ 32 + 1 := Nat.zero_le _
  have hcopy := copyStrings_eq hempty hconcat
  rw [List.length_nil, Nat.zero_add, List.nil_append] at hcopy
  rw [clCreateProgramWithSource, if_neg (by simpa using hne), hsize]
  simp only [bind, Except.bind, hcopy]
  by_cases hlength : text.length < 2 ^ 32
  · have hshort := length_cString_le text
    rw [Nat.mod_eq_of_lt hlength, if_pos (Nat.le_succ _)]
    simp only [cString_append_nul, if_pos le_rfl, hlength, true_and]
    by_cases hfits : (cString text).length < 65536
    · rw [if_pos hfits, if_pos hfits, removeComments_readCharacter (by omega)]
    · rw [if_neg hfits, if_neg hfits]
  · have hmod := Nat.mod_lt text.length (by decide : 2 ^ 32 > 0)
    rw [if_neg (by omega), if_neg fun hboth => hlength hboth.1]

end Stored

/-- What is stored for a text: the text without its comments, which has none left, is not
longer, and is not changed when it is stripped again. -/
structure Strips (text stored : Text) : Prop where
  eq : stored = stripComments text
  no_line : ¬ [slash, slash] <:+: stored
  no_block : ¬ [slash, asterisk] <:+: stored
  length_le : stored.length ≤ text.length
  again : ∀ capacity, stored.length < capacity →
    removeComments capacity .readCharacter stored [] = .ok stored

theorem stripComments_strips {text : Text} (hslash : endsInLoneSlash text = false) :
    Strips text (stripComments text) := by
  have hfree := commentFree_stripComments text
  obtain ⟨hline, hblock⟩ := hfree.no_opener
  refine ⟨rfl, hline, hblock, length_stripComments_le text, fun capacity hcapacity => ?_⟩
  rw [removeComments_readCharacter hcapacity,
    emitted_deletes.eq_stripComments (by rw [endsInLoneSlash_stripComments, hslash]),
    hfree.stripComments_eq]

/-- The stored source is the text of the concatenation without its comments. -/
theorem clCreateProgramWithSource_strips (strings : List Text) (lengths : Option (List ℕ))
    (text : Text) (hne : strings ≠ []) (hconcat : concatenation lengths strings = some text)
    (hlength : text.length < 65536) (hslash : endsInLoneSlash (cString text) = false) :
    ∃ stored, clCreateProgramWithSource (strings.map some) lengths = .ok stored ∧
      Strips (cString text) stored := by
  have hshort := length_cString_le text
  refine ⟨_, ?_, stripComments_strips hslash⟩
  rw [clCreateProgramWithSource_eq hne hconcat, if_pos ⟨by omega, by omega⟩,
    emitted_deletes.eq_stripComments hslash]

/-- A line comment in a string with a length, and a string with a NUL. -/
theorem twoStrings_strips :
    ∃ stored, clCreateProgramWithSource (List.map some [[97, 47, 47, 98, 10], [99, 0]])
        (some [5, 0]) = .ok stored ∧ Strips [97, 47, 47, 98, 10, 99] stored :=
  clCreateProgramWithSource_strips [[97, 47, 47, 98, 10], [99, 0]] (some [5, 0])
    [97, 47, 47, 98, 10, 99] (by decide) rfl (by decide) (by
      simp [cString, endsInLoneSlash, dropLine, CommentSyntax.slash, CommentSyntax.asterisk,
        CommentSyntax.newline])

/-- A NUL inside of the given length ends the text. -/
theorem not_strips_nul :
    concatenation (some [3]) [[97, 0, 98]] = some [97, 0, 98] ∧
      endsInLoneSlash [97, 0, 98] = false ∧
      clCreateProgramWithSource [some [97, 0, 98]] (some [3]) = .ok [97] ∧
        ¬ Strips [97, 0, 98] [97] := by
  refine ⟨rfl, ?_, rfl, fun hstrips => ?_⟩
  · simp [endsInLoneSlash, CommentSyntax.slash]
  have heq := hstrips.eq
  simp [stripComments, CommentSyntax.slash, CommentSyntax.asterisk] at heq

end Pocl.ProgramSources
