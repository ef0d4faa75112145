import Pocl.CommentTokens

/-!
# The preprocessing tokens of C

The longest token in front of a text, in the grammar of C99 after line splicing: literals that
are closed on their line, numbers, identifiers, punctuators, and any other character.

Header names and universal character names are not tokens of their own here.
-/

namespace Pocl.PreprocessingTokens

open Pocl.CommentSyntax Pocl.CommentTokens

section Characters

def backslash : UInt8 := 92

def dot : UInt8 := 46

def isWhite (character : UInt8) : Bool :=
  character = 32 || (9 ≤ character && character ≤ 13)

def isDigit (character : UInt8) : Bool :=
  48 ≤ character && character ≤ 57

def isNondigit (character : UInt8) : Bool :=
  character = 95 || (65 ≤ character && character ≤ 90) || (97 ≤ character && character ≤ 122)

def isQuote (character : UInt8) : Bool :=
  character = 34 || character = 39

def isExponent (character : UInt8) : Bool :=
  character = 69 || character = 80 || character = 101 || character = 112

def isSign (character : UInt8) : Bool :=
  character = 43 || character = 45

def isNumber (character : UInt8) : Bool :=
  isDigit character || isNondigit character || character = dot

end Characters

section Longest

/-- The length of the rest of a literal, where it is closed on its line. -/
def literalRest (quote : UInt8) : Text → Option ℕ
  | [] => none
  | [last] => if last = quote then some 1 else none
  | first :: second :: rest =>
      if first = quote then some 1
      else if first = newline then none
      else if first = backslash then
        if second = newline then none else (literalRest quote rest).map (· + 2)
      else (literalRest quote (second :: rest)).map (· + 1)

/-- A literal, which may be a wide one. -/
def literal : Text → Option ℕ
  | [] => none
  | [_] => none
  | first :: second :: rest =>
      if isQuote first then (literalRest first (second :: rest)).map (· + 1)
      else if first = 76 ∧ isQuote second = true then (literalRest second rest).map (· + 2)
      else none

def numberRest : Text → ℕ
  | [] => 0
  | [last] => if isNumber last then 1 else 0
  | first :: second :: rest =>
      if isExponent first && isSign second then numberRest rest + 2
      else if isNumber first then numberRest (second :: rest) + 1
      else 0

def number : Text → Option ℕ
  | [] => none
  | first :: rest =>
      if isDigit first then some (numberRest rest + 1)
      else if first = dot ∧ rest.head?.any isDigit = true then some (numberRest rest + 1)
      else none

def identifier : Text → Option ℕ
  | [] => none
  | first :: rest =>
      if isNondigit first then
        some ((rest.takeWhile fun next => isDigit next || isNondigit next).length + 1)
      else none

/-- The punctuators, each one behind the longer ones. -/
def punctuators : List (List Char) :=
  [['%', ':', '%', ':'],
    ['.', '.', '.'], ['<', '<', '='], ['>', '>', '='],
    ['-', '>'], ['+', '+'], ['-', '-'], ['<', '<'], ['>', '>'], ['<', '='], ['>', '='],
    ['=', '='], ['!', '='], ['&', '&'], ['|', '|'], ['*', '='], ['/', '='], ['%', '='],
    ['+', '='], ['-', '='], ['&', '='], ['^', '='], ['|', '='], ['#', '#'],
    ['<', ':'], [':', '>'], ['<', '%'], ['%', '>'], ['%', ':'],
    ['['], [']'], ['('], [')'], ['{'], ['}'], ['.'], ['&'], ['*'], ['+'], ['-'], ['~'], ['!'],
    ['/'], ['%'], ['<'], ['>'], ['^'], ['|'], ['?'], [':'], [';'], ['='], [','], ['#']]

def bytes (characters : List Char) : Text :=
  characters.map Char.toUInt8

def punctuator (text : Text) : Option ℕ :=
  (punctuators.find? fun characters => (bytes characters).isPrefixOf text).map List.length

def munch : Text → ℕ
  | [] => 0
  | first :: rest =>
      let text := first :: rest
      ((literal text).or ((number text).or ((identifier text).or (punctuator text)))).getD 1

end Longest

/-! ## The grammar -/

/-- A number of characters that may be a token in front of a text. -/
structure Fits (text : Text) (length : ℕ) : Prop where
  pos : 0 < length
  le_length : length ≤ text.length
  last_slash : (text.take length).getLast? = some slash → text.take length = [slash]

section Fits

variable {text : Text} {length : ℕ}

theorem getLast?_take_cons {first : UInt8} (hpos : 0 < length) (hle : length ≤ text.length) :
    ((first :: text).take (length + 1)).getLast? = (text.take length).getLast? := by
  have hne : text.take length ≠ [] := by
    intro hnil
    have hlength := List.length_take_of_le hle
    rw [hnil, List.length_nil] at hlength
    omega
  rw [List.take_succ_cons, List.getLast?_cons_of_ne_nil hne]

/-- A literal ends with its quote. -/
theorem literalRest_spec {quote : UInt8} (hliteral : literalRest quote text = some length) :
    0 < length ∧ length ≤ text.length ∧ (text.take length).getLast? = some quote := by
  induction text using literalRest.induct quote generalizing length with
  | case1 => cases hliteral
  | case2 =>
      rw [literalRest, if_pos rfl] at hliteral
      obtain rfl := Option.some.inj hliteral
      exact ⟨Nat.one_pos, le_rfl, rfl⟩
  | case3 last hquote =>
      rw [literalRest, if_neg hquote] at hliteral
      cases hliteral
  | case4 second rest =>
      rw [literalRest, if_pos rfl] at hliteral
      obtain rfl := Option.some.inj hliteral
      exact ⟨Nat.one_pos, Nat.succ_le_succ (Nat.zero_le _), rfl⟩
  | case5 second rest hquote =>
      rw [literalRest, if_neg hquote, if_pos rfl] at hliteral
      cases hliteral
  | case6 rest hquote hnewline =>
      rw [literalRest, if_neg hquote, if_neg hnewline, if_pos rfl, if_pos rfl] at hliteral
      cases hliteral
  | case7 second rest hnext hquote hnewline ih =>
      rw [literalRest, if_neg hquote, if_neg hnewline, if_pos rfl, if_neg hnext] at hliteral
      obtain ⟨inner, hinner, rfl⟩ := Option.map_eq_some_iff.mp hliteral
      obtain ⟨hpos, hle, hlast⟩ := ih hinner
      refine ⟨Nat.succ_pos _, Nat.add_le_add_right hle 2, ?_⟩
      rw [getLast?_take_cons (Nat.succ_pos _) (Nat.succ_le_succ hle),
        getLast?_take_cons hpos hle, hlast]
  | case8 first second rest hquote hnewline hbackslash ih =>
      rw [literalRest, if_neg hquote, if_neg hnewline, if_neg hbackslash] at hliteral
      obtain ⟨inner, hinner, rfl⟩ := Option.map_eq_some_iff.mp hliteral
      obtain ⟨hpos, hle, hlast⟩ := ih hinner
      refine ⟨Nat.succ_pos _, Nat.succ_le_succ hle, ?_⟩
      rw [getLast?_take_cons hpos hle, hlast]

theorem isQuote_ne_slash {quote : UInt8} (hquote : isQuote quote = true) : quote ≠ slash := by
  rintro rfl
  exact absurd hquote (by decide)

theorem literal_fits (hliteral : literal text = some length) : Fits text length := by
  match text with
  | [] => cases hliteral
  | [_] => cases hliteral
  | first :: second :: rest =>
      rw [literal] at hliteral
      split at hliteral
      next hquote =>
        obtain ⟨inner, hinner, rfl⟩ := Option.map_eq_some_iff.mp hliteral
        obtain ⟨hpos, hle, hlast⟩ := literalRest_spec hinner
        refine ⟨Nat.succ_pos _, Nat.succ_le_succ hle, fun hslash => ?_⟩
        rw [getLast?_take_cons hpos hle, hlast] at hslash
        exact absurd (Option.some.inj hslash) (isQuote_ne_slash hquote)
      next =>
        split at hliteral
        next hwide =>
          obtain ⟨inner, hinner, rfl⟩ := Option.map_eq_some_iff.mp hliteral
          obtain ⟨hpos, hle, hlast⟩ := literalRest_spec hinner
          refine ⟨Nat.succ_pos _, Nat.add_le_add_right hle 2, fun hslash => ?_⟩
          rw [getLast?_take_cons (Nat.succ_pos _) (Nat.succ_le_succ hle),
            getLast?_take_cons hpos hle, hlast] at hslash
          exact absurd (Option.some.inj hslash) (isQuote_ne_slash hwide.2)
        next => cases hliteral

theorem fits_of_forall_ne (hpos : 0 < length) (hle : length ≤ text.length)
    (hne : ∀ character ∈ text.take length, character ≠ slash) : Fits text length :=
  ⟨hpos, hle, fun hslash => absurd rfl (hne slash (List.mem_of_getLast? hslash))⟩

theorem isNumber_of_isExponent {character : UInt8} (hexponent : isExponent character = true) :
    isNumber character = true := by
  simp only [isExponent, Bool.or_eq_true, decide_eq_true_eq] at hexponent
  obtain ((rfl | rfl) | rfl) | rfl := hexponent <;> decide

theorem numberRest_spec (text : Text) :
    numberRest text ≤ text.length ∧ ∀ character ∈ text.take (numberRest text),
      isNumber character = true ∨ isSign character = true := by
  induction text using numberRest.induct with
  | case1 => simp [numberRest]
  | case2 last hnumber => simp [numberRest, hnumber]
  | case3 last hnumber => simp [numberRest, hnumber]
  | case4 first second rest hexponent ih =>
      obtain ⟨hle, hrest⟩ := ih
      rw [numberRest, if_pos hexponent]
      refine ⟨Nat.add_le_add_right hle 2, ?_⟩
      rw [Bool.and_eq_true] at hexponent
      have hnumber := isNumber_of_isExponent hexponent.1
      simp only [List.take_succ_cons, List.mem_cons]
      rintro character (rfl | rfl | hcharacter)
      · exact .inl hnumber
      · exact .inr hexponent.2
      · exact hrest character hcharacter
  | case5 first second rest hexponent hnumber ih =>
      obtain ⟨hle, hrest⟩ := ih
      rw [numberRest, if_neg hexponent, if_pos hnumber]
      refine ⟨Nat.succ_le_succ hle, ?_⟩
      simp only [List.take_succ_cons, List.mem_cons]
      rintro character (rfl | hcharacter)
      · exact .inl hnumber
      · exact hrest character hcharacter
  | case6 first second rest hexponent hnumber =>
      rw [numberRest, if_neg hexponent, if_neg hnumber]
      simp

theorem ne_slash_of_number {character : UInt8}
    (hcharacter : isNumber character = true ∨ isSign character = true) : character ≠ slash := by
  rintro rfl
  exact absurd hcharacter (by decide)

theorem number_fits (hnumber : number text = some length) : Fits text length := by
  cases text with
  | nil => cases hnumber
  | cons first rest =>
      obtain ⟨hle, hrest⟩ := numberRest_spec rest
      have hfirst : isNumber first = true ∧ length = numberRest rest + 1 := by
        rw [number] at hnumber
        split at hnumber
        next hdigit => simp [isNumber, hdigit, Option.some.inj hnumber]
        next =>
          split at hnumber
          next hdot => simp [isNumber, hdot.1, Option.some.inj hnumber]
          next => cases hnumber
      rw [hfirst.2]
      refine fits_of_forall_ne (Nat.succ_pos _) (Nat.succ_le_succ hle) fun character hmem => ?_
      rw [List.take_succ_cons] at hmem
      obtain rfl | hmem := List.mem_cons.mp hmem
      · exact ne_slash_of_number (.inl hfirst.1)
      · exact ne_slash_of_number (hrest character hmem)

theorem identifier_fits (hidentifier : identifier text = some length) : Fits text length := by
  cases text with
  | nil => cases hidentifier
  | cons first rest =>
      rw [identifier] at hidentifier
      split at hidentifier
      next hnondigit =>
        obtain rfl := Option.some.inj hidentifier
        have hle := (List.takeWhile_sublist (l := rest)
          fun next => isDigit next || isNondigit next).length_le
        refine fits_of_forall_ne (Nat.succ_pos _) (Nat.succ_le_succ hle) fun character hmem => ?_
        rw [List.take_succ_cons] at hmem
        obtain rfl | hmem := List.mem_cons.mp hmem
        · exact ne_slash_of_number (.inl (by simp [isNumber, hnondigit]))
        · rw [← List.prefix_iff_eq_take.mp (List.takeWhile_prefix _)] at hmem
          have hcharacter : (isDigit character || isNondigit character) = true :=
            List.all_eq_true.mp List.all_takeWhile character hmem
          exact ne_slash_of_number (.inl (by simp [isNumber, hcharacter]))
      next => cases hidentifier

theorem punctuators_spec : ∀ characters ∈ punctuators, 0 < characters.length ∧
    ((bytes characters).getLast? = some slash → bytes characters = [slash]) := by
  decide

theorem punctuator_fits (hpunctuator : punctuator text = some length) : Fits text length := by
  obtain ⟨characters, hfind, rfl⟩ := Option.map_eq_some_iff.mp hpunctuator
  obtain ⟨hpos, hlast⟩ := punctuators_spec characters (List.mem_of_find?_eq_some hfind)
  have hfront : bytes characters <+: text := by
    simpa using List.find?_some hfind
  have hlength : (bytes characters).length = characters.length := List.length_map _
  have htake := List.prefix_iff_eq_take.mp hfront
  rw [hlength] at htake
  refine ⟨hpos, hlength ▸ hfront.length_le, ?_⟩
  rwa [← htake]

theorem single_fits {first : UInt8} {rest : Text} : Fits (first :: rest) 1 := by
  refine ⟨Nat.one_pos, Nat.succ_le_succ (Nat.zero_le _), fun hslash => ?_⟩
  rw [List.take_succ_cons, List.take_zero] at hslash ⊢
  obtain rfl : first = slash := Option.some.inj hslash
  rfl

theorem munch_fits (first : UInt8) (rest : Text) :
    Fits (first :: rest) (munch (first :: rest)) := by
  rw [munch]
  cases hliteral : literal (first :: rest) with
  | some length => exact literal_fits hliteral
  | none =>
      cases hnumber : number (first :: rest) with
      | some length => exact number_fits hnumber
      | none =>
          cases hidentifier : identifier (first :: rest) with
          | some length => exact identifier_fits hidentifier
          | none =>
              cases hpunctuator : punctuator (first :: rest) with
              | some length => exact punctuator_fits hpunctuator
              | none => exact single_fits

end Fits

def grammar : Grammar where
  white := isWhite
  munch := munch
  white_slash := by decide
  munch_pos first rest := (munch_fits first rest).pos
  munch_le text := by
    cases text with
    | nil => exact le_rfl
    | cons first rest => exact (munch_fits first rest).le_length
  last_slash text hslash := by
    cases text with
    | nil => cases hslash
    | cons first rest => exact (munch_fits first rest).last_slash hslash

end Pocl.PreprocessingTokens
