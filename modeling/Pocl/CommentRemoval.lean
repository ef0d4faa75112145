import Mathlib.Data.List.TakeWhile
import Pocl.PreprocessingTokens
import Pocl.ProgramSources

/-!
# The tokens of the stored source

The tokens of a text are those behind the phases that replace trigraphs and delete every
backslash with a newline.  The machine of `clCreateProgramWithSource` works on the text before
these phases, and knows no literals.
-/

namespace Pocl.CommentRemoval

open Pocl.CommentSyntax Pocl.CommentTokens Pocl.PreprocessingTokens Pocl.ProgramSources

/-- The characters that follow two question marks, and what the three of them stand for. -/
def trigraphs : List (UInt8 × UInt8) :=
  [(61, 35), (40, 91), (47, 92), (41, 93), (39, 94), (60, 123), (33, 124), (62, 125), (45, 126)]

def question : UInt8 := 63

/-- The text with its trigraphs replaced. -/
def replaceTrigraphs : Text → Text
  | [] => []
  | [last] => [last]
  | [first, last] => [first, last]
  | first :: second :: third :: rest =>
      match if first = question ∧ second = question then trigraphs.lookup third else none with
      | some single => single :: replaceTrigraphs rest
      | none => first :: replaceTrigraphs (second :: third :: rest)

/-- The text with its lines spliced. -/
def splice : Text → Text
  | [] => []
  | [last] => [last]
  | first :: second :: rest =>
      if first = backslash ∧ second = newline then splice rest
      else first :: splice (second :: rest)

/-- The text behind the first two phases of translation. -/
def translated (text : Text) : Text :=
  splice (replaceTrigraphs text)

def preprocessingTokens (text : Text) : List Text :=
  grammar.tokens (translated text)

def TrigraphFree (text : Text) : Prop :=
  replaceTrigraphs text = text

/-- No backslash splices the line to the next one. -/
def LineSafe (text : Text) : Prop :=
  newline ∈ text → (text.takeWhile (· ≠ newline)).getLast? ≠ some backslash

/-- Up to the end of a comment, no line splicing makes another end. -/
def BlockSafe : Text → Prop
  | [] => True
  | [_] => True
  | first :: second :: rest =>
      first = asterisk ∧ second = slash ∨
        (first = asterisk → (splice (second :: rest)).head? ≠ some slash) ∧
          BlockSafe (second :: rest)

/-- A text in which line splicing neither makes nor ends nor prolongs a comment, and in which
no deleted comment leaves a backslash before a newline. -/
inductive SpliceSafe : Text → Prop
  | nil : SpliceSafe []
  | single (last : UInt8) : SpliceSafe [last]
  | line {rest : Text} (hline : LineSafe rest) (hrest : SpliceSafe (dropLine rest)) :
      SpliceSafe (slash :: slash :: rest)
  | block {rest : Text} (hblock : BlockSafe rest) (hrest : SpliceSafe (dropBlock rest)) :
      SpliceSafe (slash :: asterisk :: rest)
  | kept {first second : UInt8} {rest : Text} (hopener : NoOpener first second)
      (hspliced : ∀ next ∈ (splice (second :: rest)).head?, NoOpener first next)
      (hbackslash : first = backslash → second ≠ newline →
        (stripComments (second :: rest)).head? ≠ some newline)
      (hrest : SpliceSafe (second :: rest)) : SpliceSafe (first :: second :: rest)

/-- The stored source has the tokens of the text. -/
def Preserves (strings : List Text) (lengths : Option (List ℕ)) (text : Text) : Prop :=
  ∃ stored, clCreateProgramWithSource (strings.map some) lengths = .ok stored ∧
    preprocessingTokens stored = preprocessingTokens text

/-- Where the comments of the untranslated text are deleted, comments of the translated text
are left out, and nothing else. -/
def LeavesOutComments (demand : Text → Text → Prop) (text : Text) : Prop :=
  grammar.LeavesOut demand (translated text) (translated (stripComments text))

/-- A text with comments that the machine can remove. -/
structure Removable (text : Text) : Prop where
  short : text.length < 65536
  closed : endsInLoneSlash text = false
  leavesOut : LeavesOutComments grammar.Apart text

section Splice

variable {first : UInt8} {text rest : Text}

theorem splice_cons_of_head?_ne (hnewline : first = backslash → rest.head? ≠ some newline) :
    splice (first :: rest) = first :: splice rest := by
  cases rest with
  | nil => rfl
  | cons second rest =>
      rw [splice, if_neg fun hboth => hnewline hboth.1 (congrArg some hboth.2)]

theorem splice_cons (hne : first ≠ backslash) (rest : Text) :
    splice (first :: rest) = first :: splice rest :=
  splice_cons_of_head?_ne fun heq => absurd heq hne

theorem splice_append_slash (text : Text) : splice (text ++ [slash]) = splice text ++ [slash] := by
  induction text using splice.induct with
  | case1 => rfl
  | case2 last => exact splice_cons_of_head?_ne fun _ => by decide
  | case3 first second rest hsplice ih =>
      rw [List.cons_append, List.cons_append, splice, if_pos hsplice, splice, if_pos hsplice, ih]
  | case4 first second rest hkeeps ih =>
      rw [List.cons_append, List.cons_append, splice, if_neg hkeeps, splice, if_neg hkeeps,
        ← List.cons_append, ih, List.cons_append]

theorem dropLine_cons (hne : first ≠ newline) (rest : Text) :
    dropLine (first :: rest) = dropLine rest := by
  rw [dropLine, List.dropWhile_cons_of_pos (by simpa using hne)]
  rfl

theorem dropLine_newline (rest : Text) : dropLine (newline :: rest) = newline :: rest := by
  rw [dropLine, List.dropWhile_cons_of_neg (by simp)]

theorem dropBlock_cons (hnext : first = asterisk → rest.head? ≠ some slash) :
    dropBlock (first :: rest) = dropBlock rest := by
  cases rest with
  | nil => rfl
  | cons second rest =>
      rw [dropBlock, if_neg fun hboth => hnext hboth.1 (congrArg some hboth.2)]

/-- The line ends at the same newline when it is spliced. -/
theorem splice_dropLine (hline : LineSafe text) :
    splice (dropLine text) = dropLine (splice text) := by
  induction text using splice.induct with
  | case1 => rfl
  | case2 last =>
      by_cases hnewline : last = newline
      · rw [hnewline]; rfl
      · rw [dropLine_cons hnewline, splice, dropLine_cons hnewline]; rfl
  | case3 first second rest hsplice =>
      obtain ⟨rfl, rfl⟩ := hsplice
      exact absurd rfl (hline (by simp))
  | case4 first second rest hkeeps ih =>
      rw [splice, if_neg hkeeps]
      by_cases hnewline : first = newline
      · subst hnewline
        rw [dropLine_newline, dropLine_newline, splice, if_neg hkeeps]
      · rw [dropLine_cons hnewline, dropLine_cons hnewline, ih]
        intro hmem hlast
        refine hline (List.mem_cons_of_mem _ hmem) ?_
        rw [List.takeWhile_cons_of_pos (by simpa using hnewline),
          List.getLast?_cons_of_ne_nil fun hnil => by rw [hnil] at hlast; cases hlast]
        exact hlast

theorem BlockSafe.tail (hblock : BlockSafe (first :: rest)) (hne : first ≠ asterisk) :
    BlockSafe rest := by
  cases rest with
  | nil => trivial
  | cons second rest => exact (hblock.resolve_left fun hend => hne hend.1).2

/-- The comment ends at the same slash when it is spliced. -/
theorem splice_dropBlock (hblock : BlockSafe text) :
    splice (dropBlock text) = dropBlock (splice text) := by
  induction text using splice.induct with
  | case1 => rfl
  | case2 last => rfl
  | case3 first second rest hsplice ih =>
      obtain ⟨rfl, rfl⟩ := hsplice
      rw [splice, if_pos ⟨rfl, rfl⟩, dropBlock_cons fun heq => absurd heq (by decide),
        dropBlock_cons fun heq => absurd heq (by decide)]
      exact ih ((hblock.tail (by decide)).tail (by decide))
  | case4 first second rest hkeeps ih =>
      rw [splice, if_neg hkeeps]
      obtain ⟨rfl, rfl⟩ | ⟨hnext, hrest⟩ := hblock
      · rw [dropBlock, if_pos ⟨rfl, rfl⟩, splice_cons (by decide), dropBlock, if_pos ⟨rfl, rfl⟩]
      · rw [dropBlock_cons hnext, ← ih hrest, dropBlock_cons]
        intro hasterisk hslash
        obtain rfl : second = slash := Option.some.inj hslash
        refine hnext hasterisk ?_
        rw [splice_cons (by decide), List.head?_cons]

/-- Line splicing and the deletion of comments commute. -/
theorem splice_stripComments (hsafe : SpliceSafe text) :
    splice (stripComments text) = stripComments (splice text) := by
  induction hsafe with
  | nil => simp [stripComments, splice]
  | single last => simp [stripComments, splice]
  | line hline _ ih =>
      rw [stripComments_line, splice_cons (by decide), splice_cons (by decide),
        stripComments_line, ih, splice_dropLine hline]
  | block hblock _ ih =>
      rw [stripComments_block, splice_cons (by decide), splice_cons (by decide),
        stripComments_block, ih, splice_dropBlock hblock]
  | @kept first second rest hopener hspliced hbackslash _ ih =>
      rw [stripComments_cons hopener]
      by_cases hsplice : first = backslash ∧ second = newline
      · obtain ⟨rfl, rfl⟩ := hsplice
        rw [stripComments_deletes.head (by decide), splice_cons (by decide),
          splice_cons (by decide), stripComments_deletes.head (by decide)] at ih
        rw [stripComments_deletes.head (by decide), splice, if_pos ⟨rfl, rfl⟩, splice,
          if_pos ⟨rfl, rfl⟩]
        exact List.tail_eq_of_cons_eq ih
      · rw [splice, if_neg hsplice, splice_cons_of_head?_ne fun heq =>
          hbackslash heq fun hnewline => hsplice ⟨heq, hnewline⟩, ih]
        cases hrest : splice (second :: rest) with
        | nil => rw [stripComments, stripComments]
        | cons next spliced =>
            rw [hrest] at hspliced
            rw [stripComments_cons (hspliced next rfl)]

/-- A lone slash at the end of a text is one of the spliced text. -/
theorem endsInLoneSlash_splice (hsafe : SpliceSafe text) (hslash : endsInLoneSlash text = true) :
    endsInLoneSlash (splice text) = true := by
  induction hsafe with
  | nil => exact hslash
  | single last => exact hslash
  | line hline _ ih =>
      rw [endsInLoneSlash, if_pos ⟨rfl, rfl⟩] at hslash
      rw [splice_cons (by decide), splice_cons (by decide), endsInLoneSlash, if_pos ⟨rfl, rfl⟩,
        ← splice_dropLine hline, ih hslash]
  | block hblock _ ih =>
      rw [endsInLoneSlash, if_neg (by decide), if_pos ⟨rfl, rfl⟩] at hslash
      rw [splice_cons (by decide), splice_cons (by decide), endsInLoneSlash,
        if_neg (by decide), if_pos ⟨rfl, rfl⟩, ← splice_dropBlock hblock, ih hslash]
  | @kept first second rest hopener hspliced hbackslash _ ih =>
      rw [endsInLoneSlash_cons hopener] at hslash
      by_cases hsplice : first = backslash ∧ second = newline
      · obtain ⟨rfl, rfl⟩ := hsplice
        have hrest := ih hslash
        rw [splice_cons (by decide), endsInLoneSlash_cons_of_ne (by decide)] at hrest
        rwa [splice, if_pos ⟨rfl, rfl⟩]
      · rw [splice, if_neg hsplice]
        have hrest := ih hslash
        cases hspliced' : splice (second :: rest) with
        | nil => rw [hspliced', endsInLoneSlash] at hrest; cases hrest
        | cons next spliced =>
            rw [hspliced'] at hspliced hrest
            rwa [endsInLoneSlash_cons (hspliced next rfl)]

end Splice

section Removal

variable {text : Text}

theorem cString_eq_self (hnul : 0 ∉ text) : cString text = text := by
  refine List.takeWhile_eq_self_iff.mpr fun character hmem => ?_
  have hne : character ≠ 0 := fun heq => hnul (heq ▸ hmem)
  simpa using hne

theorem preprocessingTokens_of_trigraphFree (hfree : TrigraphFree text) :
    preprocessingTokens text = grammar.tokens (splice text) := by
  rw [preprocessingTokens, translated, hfree]

theorem length_replaceTrigraphs_le (text : Text) :
    (replaceTrigraphs text).length ≤ text.length := by
  induction text using replaceTrigraphs.induct with
  | case1 => exact le_rfl
  | case2 last => exact le_rfl
  | case3 first last => exact le_rfl
  | case4 first second third rest single hsingle ih =>
      rw [replaceTrigraphs, hsingle]
      simp only [List.length_cons]
      omega
  | case5 first second third rest hnone ih =>
      rw [replaceTrigraphs, hnone]
      exact Nat.succ_le_succ ih

/-- The front of a text without trigraphs has none. -/
theorem TrigraphFree.of_append {last : UInt8} (hfree : TrigraphFree (text ++ [last])) :
    TrigraphFree text := by
  induction text using replaceTrigraphs.induct with
  | case1 => rfl
  | case2 last => rfl
  | case3 first last => rfl
  | case4 first second third rest single hsingle ih =>
      have hle := length_replaceTrigraphs_le (rest ++ [last])
      have hlength := congrArg List.length hfree
      rw [List.cons_append, List.cons_append, List.cons_append, replaceTrigraphs, hsingle]
        at hlength
      simp only [List.length_cons] at hlength
      omega
  | case5 first second third rest hnone ih =>
      rw [TrigraphFree, List.cons_append, List.cons_append, List.cons_append, replaceTrigraphs,
        hnone] at hfree
      rw [TrigraphFree, replaceTrigraphs, hnone, ih (List.tail_eq_of_cons_eq hfree)]

/-- The tokens of what the machine stores. -/
theorem separable_of_emitted (hsafe : SpliceSafe text) (hfree : TrigraphFree text)
    (hstripped : TrigraphFree (stripComments text))
    (htokens : preprocessingTokens (emitted .readCharacter text) = preprocessingTokens text) :
    endsInLoneSlash text = false ∧ grammar.Separable (splice text) := by
  have hsplice := splice_stripComments hsafe
  rw [preprocessingTokens_of_trigraphFree hfree] at htokens
  cases hslash : endsInLoneSlash text with
  | false =>
      rw [emitted_deletes.eq_stripComments hslash, preprocessingTokens_of_trigraphFree hstripped,
        hsplice] at htokens
      exact ⟨rfl, separable_of_tokens_eq htokens⟩
  | true =>
      -- The machine stores the same for the spliced text.
      have happend := emitted_deletes.append_slash rfl hslash
      rw [happend] at hstripped
      rw [preprocessingTokens_of_trigraphFree hstripped.of_append] at htokens
      have hspliced := endsInLoneSlash_splice hsafe hslash
      rw [emitted_deletes.append_slash rfl hslash, splice_append_slash,
        emitted_deletes.append_slash rfl hspliced] at hsplice
      rw [List.append_cancel_right hsplice] at htokens
      rw [endsInLoneSlash_of_tokens_eq emitted_deletes rfl htokens] at hspliced
      cases hspliced

/-- Without trigraphs and splicing the text behind the deletion leaves out its comments. -/
theorem leavesOutComments_of_separable (hsafe : SpliceSafe text) (hfree : TrigraphFree text)
    (hstripped : TrigraphFree (stripComments text)) (hseparable : grammar.Separable (splice text)) :
    LeavesOutComments grammar.Apart text := by
  rw [LeavesOutComments, translated, translated, hfree, hstripped, splice_stripComments hsafe]
  exact hseparable.leavesOut

/-- A text with no comment to delete is removable, whatever its phases make of it. -/
theorem removable_of_commentFree (hshort : text.length < 65536) (hfree : CommentFree text)
    (hclosed : endsInLoneSlash text = false) : Removable text := by
  refine ⟨hshort, hclosed, ?_⟩
  rw [LeavesOutComments, hfree.stripComments_eq]
  exact leavesOut_refl grammar _

/-- The comment in `a/\*b*/c`, with a newline behind the backslash, stays in the text. -/
example : Removable [97, 47, 92, 10, 42, 98, 42, 47, 99] :=
  removable_of_commentFree (by decide) (by simp [CommentFree, NoOpener, slash, asterisk])
    (by simp [endsInLoneSlash, slash, asterisk])

end Removal

/-- The text `a/**/+/\*b*/c` with a newline behind the backslash is removable.  The machine
leaves its second comment in the text. -/
theorem sum_removable : Removable [97, 47, 42, 42, 47, 43, 47, 92, 10, 42, 98, 42, 47, 99] where
  short := by decide
  closed := by simp [endsInLoneSlash, dropBlock, CommentSyntax.slash, asterisk]
  leavesOut := by
    have hfirst : grammar.Front [97] [47, 42, 42, 47, 43, 47, 42, 98, 42, 47, 99] :=
      front_of_ne_slash (by decide) (by decide) (by decide)
    have hplus : grammar.Front [43] [47, 42, 98, 42, 47, 99] :=
      front_of_ne_slash (by decide) (by decide) (by decide)
    have hlast : grammar.Front [99] [] := front_of_ne_slash (by decide) (by decide) (by decide)
    have hstrip : stripComments [97, 47, 42, 42, 47, 43, 47, 92, 10, 42, 98, 42, 47, 99] =
        [97, 43, 47, 92, 10, 42, 98, 42, 47, 99] := by
      simp [stripComments, dropBlock, CommentSyntax.slash, asterisk]
    have hrest : grammar.LeavesOut grammar.Apart ([43] ++ [47, 42, 98, 42, 47, 99])
        ([43] ++ [47, 42, 98, 42, 47, 99]) := by
      refine .token hplus (by decide) ?_
      have hcomment : grammar.LeavesOut grammar.Apart [99] [99] :=
        .token hlast (by decide) .nil
      exact .keptBlock hcomment
    rw [LeavesOutComments, hstrip]
    exact .token hfirst (by decide) (.block hrest)

end Pocl.CommentRemoval
