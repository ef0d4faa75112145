import Mathlib.Data.List.Infix
import Mathlib.Data.List.TakeWhile
import Mathlib.Tactic

/-!
# Searches in texts

`strstr` finds the first occurrence of a pattern, and `strtok` takes the next piece of a text
that a character separates into pieces.
-/

namespace Pocl.TextSearches

variable {α : Type}

variable [DecidableEq α]

/-- The text from the first occurrence of the pattern on. -/
def strstr (pattern : List α) : List α → Option (List α)
  | [] => if pattern = [] then some [] else none
  | first :: rest =>
      if pattern <+: first :: rest then some (first :: rest) else strstr pattern rest

/-- The next piece that is not empty, and what follows its separator. -/
def strtok (separator : α) (saved : List α) : Option (List α × List α) :=
  let saved := saved.dropWhile (· = separator)
  if saved = [] then none
  else some (saved.takeWhile (· ≠ separator), (saved.dropWhile (· ≠ separator)).tail)

section Occurrences

variable {pattern text before after : List α}

theorem strstr_of_isPrefix (hfront : pattern <+: text) : strstr pattern text = some text := by
  cases text with
  | nil => rw [strstr, if_pos (List.prefix_nil.mp hfront)]
  | cons first rest => rw [strstr, if_pos hfront]

theorem strstr_cons {first : α} {rest : List α} (hfront : ¬ pattern <+: first :: rest) :
    strstr pattern (first :: rest) = strstr pattern rest := by
  rw [strstr, if_neg hfront]

theorem isSome_strstr_iff : (strstr pattern text).isSome = true ↔ pattern <:+: text := by
  induction text with
  | nil => by_cases hnil : pattern = [] <;> simp [strstr, hnil]
  | cons first rest ih =>
      rw [List.infix_cons_iff, ← ih]
      by_cases hfront : pattern <+: first :: rest
      · simp [strstr_of_isPrefix hfront, hfront]
      · simp [strstr_cons hfront, hfront]

/-- What is found begins with the pattern and is the end of the text. -/
theorem strstr_spec {found : List α} (hfound : strstr pattern text = some found) :
    pattern <+: found ∧ found <:+ text := by
  induction text with
  | nil =>
      rw [strstr] at hfound
      split at hfound
      next hnil =>
        obtain rfl := Option.some.inj hfound
        exact ⟨hnil ▸ List.prefix_rfl, List.suffix_rfl⟩
      next => cases hfound
  | cons first rest ih =>
      by_cases hfront : pattern <+: first :: rest
      · rw [strstr_of_isPrefix hfront] at hfound
        obtain rfl := Option.some.inj hfound
        exact ⟨hfront, List.suffix_rfl⟩
      · rw [strstr_cons hfront] at hfound
        exact ⟨(ih hfound).1, (ih hfound).2.trans (List.suffix_cons first rest)⟩

/-- An occurrence is also found where more text follows. -/
theorem strstr_append {found : List α} (hfound : strstr pattern before = some found)
    (after : List α) : strstr pattern (before ++ after) = some (found ++ after) := by
  induction before with
  | nil =>
      rw [strstr] at hfound
      split at hfound
      next hnil =>
        rw [← Option.some.inj hfound, hnil]
        exact strstr_of_isPrefix List.nil_prefix
      next => cases hfound
  | cons first rest ih =>
      by_cases hfront : pattern <+: first :: rest
      · rw [strstr_of_isPrefix hfront] at hfound
        rw [← Option.some.inj hfound]
        exact strstr_of_isPrefix (hfront.trans (List.prefix_append _ _))
      · rw [strstr_cons hfront] at hfound
        rw [List.cons_append, strstr_cons fun hlong => hfront ?_, ih hfound]
        -- The pattern is found behind the first character, so that it is not longer than the rest.
        obtain ⟨hpattern, hsuffix⟩ := strstr_spec hfound
        have hlength := hpattern.length_le.trans hsuffix.length_le
        rw [← List.cons_append] at hlong
        exact List.prefix_of_prefix_length_le hlong (List.prefix_append _ _)
          (hlength.trans (Nat.le_succ _))

end Occurrences

section Pieces

variable {separator : α} {piece : List α}

theorem dropWhile_eq_self (hpiece : separator ∉ piece) (rest : List α) (hne : piece ≠ []) :
    (piece ++ rest).dropWhile (· = separator) = piece ++ rest := by
  cases piece with
  | nil => exact absurd rfl hne
  | cons first piece =>
      have hfirst : first ≠ separator := fun heq => hpiece (heq ▸ List.mem_cons_self)
      rw [List.cons_append, List.dropWhile_cons_of_neg (by simpa using hfirst)]

theorem forall_ne_of_not_mem (hpiece : separator ∉ piece) :
    ∀ character ∈ piece, decide (character ≠ separator) = true := by
  intro character hmem
  exact decide_eq_true fun heq => hpiece (heq ▸ hmem)

theorem strtok_append (hne : piece ≠ []) (hpiece : separator ∉ piece) (rest : List α) :
    strtok separator (piece ++ separator :: rest) = some (piece, rest) := by
  rw [strtok, dropWhile_eq_self hpiece _ hne, if_neg (by simp [hne]),
    List.takeWhile_append_of_pos (forall_ne_of_not_mem hpiece),
    List.dropWhile_append_of_pos (forall_ne_of_not_mem hpiece)]
  simp

theorem strtok_last (hne : piece ≠ []) (hpiece : separator ∉ piece) :
    strtok separator piece = some (piece, []) := by
  have hall := forall_ne_of_not_mem hpiece
  have hdrop := dropWhile_eq_self hpiece [] hne
  rw [List.append_nil] at hdrop
  rw [strtok, hdrop, if_neg hne, List.takeWhile_eq_self_iff.mpr hall,
    List.dropWhile_eq_nil_iff.mpr hall, List.tail_nil]

end Pieces

end Pocl.TextSearches
