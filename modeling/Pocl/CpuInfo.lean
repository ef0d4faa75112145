import Pocl.TextSearches

/-!
# The number of compute units

The processors are counted in the text of `/proc/cpuinfo`: from each occurrence of `rocessor` the
search goes on behind the next line break, and in a last line without one at the next character.
The ratio of siblings to cores is read at the key and not behind the colon, so it never matters.

The text is a string: it ends at the first null character or at the size of the buffer.  Numbers
are taken without the overflow of `int`.
-/

namespace Pocl.CpuInfo

open TextSearches

abbrev Text := List Char

section Source

def maxCpuinfoSize : ℕ :=
  64 * 1024

/-- What `fread` leaves in the buffer, as a string. -/
def contents (file : Text) : Text :=
  (file.take (maxCpuinfoSize - 1)).takeWhile (· ≠ '\x00')

def processor : Text :=
  ['r', 'o', 'c', 'e', 's', 's', 'o', 'r']

def cpuCores : Text :=
  ['c', 'p', 'u', ' ', 'c', 'o', 'r', 'e', 's']

def siblings : Text :=
  ['s', 'i', 'b', 'l', 'i', 'n', 'g', 's']

/-- The pointer moves to the end of the line, if there is one, and one character further. -/
def skipLine (p : Text) : Text :=
  ((strstr ['\n'] p).getD p).tail

theorem length_skipLine_lt {p found : Text} (hfound : strstr processor p = some found) :
    (skipLine found).length < p.length := by
  obtain ⟨hfront, hsuffix⟩ := strstr_spec hfound
  have hpositive : 0 < found.length := Nat.lt_of_lt_of_le (by decide) hfront.length_le
  refine Nat.lt_of_lt_of_le ?_ hsuffix.length_le
  rw [skipLine, List.length_tail]
  cases heol : strstr ['\n'] found with
  | none =>
      rw [Option.getD_none]
      omega
  | some eol =>
      have hle := (strstr_spec heol).2.length_le
      rw [Option.getD_some]
      omega

/-- The loop over the occurrences. -/
def countCores (p : Text) : ℕ :=
  match hfound : strstr processor p with
  | none => 0
  | some found =>
      have := length_skipLine_lt hfound
      countCores (skipLine found) + 1
termination_by p.length

/-- The digits of a number, with a sign. -/
def scanInt (p : Text) : Option ℤ :=
  let negative := p.head? = some '-'
  let unsigned := if p.head? = some '-' ∨ p.head? = some '+' then p.tail else p
  let digits := unsigned.takeWhile Char.isDigit
  if digits = [] then none
  else
    let value : ℤ := Nat.ofDigitChars 10 digits 0
    some (if negative then -value else value)

/-- `sscanf` with the format `: %d\n`: the colon must be the first character. -/
def sscanfColon (p : Text) : Option ℤ :=
  match p with
  | ':' :: rest => scanInt (rest.dropWhile Char.isWhitespace)
  | _ => none

/-- `pocl_cpuinfo_detect_compute_unit_count`, for a file that may not be readable. -/
def detectComputeUnitCount (file : Option Text) : ℤ :=
  match file with
  | none => -1
  | some file =>
      let contents := contents file
      let cores := countCores contents
      if cores = 0 then
        -1
      else
        let coresPerCpu : ℤ := ((strstr cpuCores contents).bind sscanfColon).getD 1
        let siblings : ℤ :=
          match strstr siblings contents with
          | none => 1
          | some p => (sscanfColon p).getD coresPerCpu
        if coresPerCpu < siblings then
          (cores : ℤ) * (siblings.tdiv coresPerCpu)
        else
          cores

/-- The count that the device gets, which is 0 if there is none. -/
def maxComputeUnits (file : Option Text) : ℤ :=
  let count := detectComputeUnitCount file
  if count = -1 then 0 else count

end Source

section Lines

/-- The lines that end with a line break, and what follows the last one. -/
def splitLines : Text → List Text × Text
  | [] => ([], [])
  | character :: rest =>
      let split := splitLines rest
      if character = '\n' then
        ([] :: split.1, split.2)
      else
        match split.1 with
        | [] => ([], character :: split.2)
        | line :: lines => ((character :: line) :: lines, split.2)

theorem splitLines_spec (text : Text) :
    text = (splitLines text).1.flatMap (· ++ ['\n']) ++ (splitLines text).2 ∧
      (∀ line ∈ (splitLines text).1, '\n' ∉ line) ∧ '\n' ∉ (splitLines text).2 := by
  induction text with
  | nil => simp [splitLines]
  | cons character rest ih =>
      obtain ⟨hrest, hlines, hlast⟩ := ih
      rw [splitLines]
      split
      · rename_i hbreak
        refine ⟨?_, ?_, hlast⟩
        · conv_lhs => rw [hrest]
          simp [hbreak]
        · simpa using hlines
      · rename_i hbreak
        split
        · rename_i hnil
          rw [hnil] at hrest
          refine ⟨?_, by simp, ?_⟩
          · conv_lhs => rw [hrest]
            simp
          · simp [hlast, Ne.symm hbreak]
        · rename_i line lines hcons
          rw [hcons] at hrest hlines
          refine ⟨?_, ?_, hlast⟩
          · conv_lhs => rw [hrest]
            simp
          · intro other hother
            rcases List.mem_cons.mp hother with rfl | hother
            · simp [hlines line (by simp), Ne.symm hbreak]
            · exact hlines other (by simp [hother])

variable {line last rest : Text}

theorem countCores_none (hnone : strstr processor rest = none) : countCores rest = 0 := by
  rw [countCores]
  split
  · rfl
  · rename_i hfound
    rw [hnone] at hfound
    cases hfound

theorem countCores_some {found : Text} (hfound : strstr processor rest = some found) :
    countCores rest = countCores (skipLine found) + 1 := by
  rw [countCores]
  split
  · rename_i hnone
    rw [hnone] at hfound
    cases hfound
  · rename_i other hother
    obtain rfl : other = found := Option.some.inj (hother.symm.trans hfound)
    rfl

/-- The count depends on what is found first only. -/
theorem countCores_congr {text : Text} (heq : strstr processor text = strstr processor rest) :
    countCores text = countCores rest := by
  cases hfound : strstr processor rest with
  | none => rw [countCores_none hfound, countCores_none (heq.trans hfound)]
  | some found => rw [countCores_some hfound, countCores_some (heq.trans hfound)]

theorem prefix_of_append {pattern : Text} (hpattern : '\n' ∉ pattern)
    (hfront : pattern <+: line ++ '\n' :: rest) : pattern <+: line := by
  refine List.prefix_of_prefix_length_le hfront (List.prefix_append line _) ?_
  by_contra hlong
  have hbreak : line ++ ['\n'] <+: pattern := by
    refine List.prefix_of_prefix_length_le ⟨rest, by simp⟩ hfront ?_
    simpa using hlong
  exact hpattern (hbreak.subset (by simp))

theorem strstr_break (pattern : Text) (hpattern : '\n' ∉ pattern) (hne : pattern ≠ [])
    (hline : ¬pattern <:+: line) :
    strstr pattern (line ++ '\n' :: rest) = strstr pattern rest := by
  induction line with
  | nil =>
      apply strstr_cons
      intro hfront
      have hempty : pattern <+: [] := prefix_of_append hpattern hfront
      exact hne (List.prefix_nil.mp hempty)
  | cons first line ih =>
      rw [List.infix_cons_iff, not_or] at hline
      rw [List.cons_append, strstr_cons, ih hline.2]
      intro hfront
      exact hline.1 (prefix_of_append hpattern hfront)

theorem skipLine_break (hline : '\n' ∉ line) : skipLine (line ++ '\n' :: rest) = rest := by
  have hfound : strstr ['\n'] (line ++ '\n' :: rest) = some ('\n' :: rest) := by
    induction line with
    | nil => exact strstr_of_isPrefix (List.prefix_append ['\n'] rest)
    | cons first line ih =>
        rw [List.mem_cons, not_or] at hline
        rw [List.cons_append, strstr_cons, ih hline.2]
        intro hfront
        exact hline.1 (List.cons_prefix_cons.mp hfront).1
  rw [skipLine, hfound, Option.getD_some, List.tail_cons]

theorem skipLine_last (hlast : '\n' ∉ last) : skipLine last = last.tail := by
  have hnone : strstr ['\n'] last = none := by
    rw [← Option.not_isSome_iff_eq_none, isSome_strstr_iff]
    exact fun hwithin => hlast (hwithin.subset (by simp))
  rw [skipLine, hnone, Option.getD_none]

/-- A line counts once if the key occurs in it. -/
theorem countCores_line (hline : '\n' ∉ line) :
    countCores (line ++ '\n' :: rest) =
      (if processor <:+: line then 1 else 0) + countCores rest := by
  by_cases hwithin : processor <:+: line
  · obtain ⟨found, hfound⟩ := Option.isSome_iff_exists.mp (isSome_strstr_iff.mpr hwithin)
    have hmem : '\n' ∉ found := fun hmem => hline ((strstr_spec hfound).2.subset hmem)
    rw [countCores_some (strstr_append hfound _), skipLine_break hmem, if_pos hwithin, add_comm]
  · rw [if_neg hwithin, zero_add]
    exact countCores_congr (strstr_break processor (by decide) (by decide) hwithin)

/-- In the last line each place where the key occurs counts. -/
theorem countCores_last (hlast : '\n' ∉ last) :
    countCores last = last.tails.countP (processor <+: ·) := by
  induction last with
  | nil =>
      rw [countCores_none rfl]
      decide
  | cons first rest ih =>
      rw [List.mem_cons, not_or] at hlast
      rw [List.tails_cons, List.countP_cons, ← ih hlast.2]
      by_cases hfront : processor <+: first :: rest
      · have hskip : skipLine (first :: rest) = rest := by
          rw [skipLine_last (by simp [hlast.1, hlast.2]), List.tail_cons]
        rw [countCores_some (strstr_of_isPrefix hfront), hskip, if_pos (by simpa using hfront)]
      · rw [countCores_congr (strstr_cons hfront), if_neg (by simpa using hfront), add_zero]

theorem countCores_lines {lines : List Text} (hlines : ∀ line ∈ lines, '\n' ∉ line)
    (hlast : '\n' ∉ last) :
    countCores (lines.flatMap (· ++ ['\n']) ++ last) =
      lines.countP (processor <:+: ·) + last.tails.countP (processor <+: ·) := by
  induction lines with
  | nil => simpa using countCores_last hlast
  | cons line lines ih =>
      rw [List.flatMap_cons, List.append_assoc, List.append_assoc, List.singleton_append,
        countCores_line (hlines line (by simp)),
        ih fun other hother => hlines other (by simp [hother]), List.countP_cons]
      simp only [decide_eq_true_eq]
      omega

end Lines

section Counts

/-- The key is no colon, so nothing is read behind it. -/
theorem sscanfColon_of_prefix {key p : Text} {first : Char} {rest : Text}
    (hkey : key = first :: rest) (hfirst : first ≠ ':') (hfront : key <+: p) :
    sscanfColon p = none := by
  subst hkey
  cases p with
  | nil => rfl
  | cons head p =>
      have hhead := (List.cons_prefix_cons.mp hfront).1
      unfold sscanfColon
      split
      · rename_i heq
        exact (hfirst (hhead.trans (List.cons.inj heq).1)).elim
      · rfl

theorem detectComputeUnitCount_some (file : Text) :
    detectComputeUnitCount (some file) =
      if countCores (contents file) = 0 then -1 else (countCores (contents file) : ℤ) := by
  have hcores : ((strstr cpuCores (contents file)).bind sscanfColon).getD 1 = 1 := by
    cases hfound : strstr cpuCores (contents file) with
    | none => rfl
    | some p =>
        rw [Option.bind_some,
          sscanfColon_of_prefix rfl (by decide) (strstr_spec hfound).1, Option.getD_none]
  unfold detectComputeUnitCount
  simp only [hcores]
  split
  · rfl
  · cases hfound : strstr siblings (contents file) with
    | none => rfl
    | some p =>
        have hkey : sscanfColon p = none :=
          sscanfColon_of_prefix rfl (by decide) (strstr_spec hfound).1
        simp [hkey]

/-- The device gets the number of complete lines with the key, and one for each place of it in a
last line without a line break. -/
theorem maxComputeUnits_eq (file : Text) :
    maxComputeUnits (some file) =
      (splitLines (contents file)).1.countP (processor <:+: ·) +
        (splitLines (contents file)).2.tails.countP (processor <+: ·) := by
  obtain ⟨htext, hlines, hlast⟩ := splitLines_spec (contents file)
  have hcount := countCores_lines hlines hlast
  rw [← htext] at hcount
  rw [maxComputeUnits, detectComputeUnitCount_some]
  split
  · rename_i hzero
    rw [hcount] at hzero
    rw [if_pos rfl]
    exact_mod_cast hzero.symm
  · rw [if_neg (by omega)]
    exact_mod_cast hcount

end Counts

end Pocl.CpuInfo
