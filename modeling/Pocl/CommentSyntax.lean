import Mathlib.Data.List.Chain
import Mathlib.Data.List.Infix
import Mathlib.Tactic

/-!
# The comments of C in a text without literals

A comment starts at two slashes and ends before the next newline, or it starts at a slash and
an asterisk and ends behind the next asterisk and slash.  A comment without an end reaches to
the end of the text.
-/

namespace Pocl.CommentSyntax

abbrev Text := List UInt8

def slash : UInt8 := 47
def asterisk : UInt8 := 42
def newline : UInt8 := 10

/-- What follows the inside of a comment that ends before a newline. -/
def dropLine (text : Text) : Text :=
  text.dropWhile (· ≠ newline)

/-- What follows the inside of a comment that ends behind an asterisk and a slash. -/
def dropBlock : Text → Text
  | [] => []
  | [_] => []
  | first :: second :: rest =>
      if first = asterisk ∧ second = slash then rest else dropBlock (second :: rest)

theorem length_dropLine_le (text : Text) : (dropLine text).length ≤ text.length :=
  (List.dropWhile_sublist _).length_le

theorem length_dropBlock_le (text : Text) : (dropBlock text).length ≤ text.length := by
  induction text using dropBlock.induct with
  | case1 => exact le_rfl
  | case2 => exact Nat.zero_le _
  | case3 first second rest hend =>
      rw [dropBlock, if_pos hend]
      exact Nat.le_add_right _ 2
  | case4 first second rest hgoes ih =>
      rw [dropBlock, if_neg hgoes]
      exact ih.trans (Nat.le_succ _)

/-- The text with every comment deleted. -/
def stripComments : Text → Text
  | [] => []
  | [last] => [last]
  | first :: second :: rest =>
      if first = slash ∧ second = slash then stripComments (dropLine rest)
      else if first = slash ∧ second = asterisk then stripComments (dropBlock rest)
      else first :: stripComments (second :: rest)
termination_by text => text.length
decreasing_by
  · have hle := length_dropLine_le rest
    simp only [List.length_cons]
    omega
  · have hle := length_dropBlock_le rest
    simp only [List.length_cons]
    omega
  · simp only [List.length_cons]
    omega

/-- Whether the text ends in a slash that belongs to no comment. -/
def endsInLoneSlash : Text → Bool
  | [] => false
  | [last] => last == slash
  | first :: second :: rest =>
      if first = slash ∧ second = slash then endsInLoneSlash (dropLine rest)
      else if first = slash ∧ second = asterisk then endsInLoneSlash (dropBlock rest)
      else endsInLoneSlash (second :: rest)
termination_by text => text.length
decreasing_by
  · have hle := length_dropLine_le rest
    simp only [List.length_cons]
    omega
  · have hle := length_dropBlock_le rest
    simp only [List.length_cons]
    omega
  · simp only [List.length_cons]
    omega

/-- Two characters that do not start a comment. -/
def NoOpener (first second : UInt8) : Prop :=
  ¬ (first = slash ∧ (second = slash ∨ second = asterisk))

instance (first second : UInt8) : Decidable (NoOpener first second) :=
  inferInstanceAs (Decidable (¬ _))

/-- No two characters of the text start a comment. -/
def CommentFree (text : Text) : Prop :=
  text.IsChain NoOpener

section Strip

variable {text : Text} {first second : UInt8} {rest : Text}

theorem stripComments_line (rest : Text) :
    stripComments (slash :: slash :: rest) = stripComments (dropLine rest) := by
  rw [stripComments, if_pos ⟨rfl, rfl⟩]

theorem stripComments_block (rest : Text) :
    stripComments (slash :: asterisk :: rest) = stripComments (dropBlock rest) := by
  rw [stripComments, if_neg (by decide), if_pos ⟨rfl, rfl⟩]

theorem stripComments_cons (hopener : NoOpener first second) :
    stripComments (first :: second :: rest) = first :: stripComments (second :: rest) := by
  rw [stripComments, if_neg fun hline => hopener ⟨hline.1, .inl hline.2⟩,
    if_neg fun hblock => hopener ⟨hblock.1, .inr hblock.2⟩]

theorem endsInLoneSlash_cons (hopener : NoOpener first second) :
    endsInLoneSlash (first :: second :: rest) = endsInLoneSlash (second :: rest) := by
  rw [endsInLoneSlash, if_neg fun hline => hopener ⟨hline.1, .inl hline.2⟩,
    if_neg fun hblock => hopener ⟨hblock.1, .inr hblock.2⟩]

theorem endsInLoneSlash_cons_of_ne (hne : first ≠ slash) (text : Text) :
    endsInLoneSlash (first :: text) = endsInLoneSlash text := by
  cases text with
  | nil => simp [endsInLoneSlash, hne]
  | cons second rest => exact endsInLoneSlash_cons fun hopener => hne hopener.1

/-- A text is empty, has a comment in front, or starts with a character that is kept. -/
theorem comment_cases {motive : Text → Prop} (nil : motive [])
    (single : ∀ last, motive [last])
    (line : ∀ rest, motive (dropLine rest) → motive (slash :: slash :: rest))
    (block : ∀ rest, motive (dropBlock rest) → motive (slash :: asterisk :: rest))
    (kept : ∀ first second rest, NoOpener first second → motive (second :: rest) →
      motive (first :: second :: rest)) (text : Text) : motive text := by
  induction text using stripComments.induct with
  | case1 => exact nil
  | case2 last => exact single last
  | case3 first second rest hline ih =>
      obtain ⟨rfl, rfl⟩ := hline
      exact line rest ih
  | case4 first second rest _ hblock ih =>
      obtain ⟨rfl, rfl⟩ := hblock
      exact block rest ih
  | case5 first second rest hline hblock ih =>
      refine kept first second rest (fun hopener => ?_) ih
      obtain ⟨rfl, rfl | rfl⟩ := hopener
      · exact hline ⟨rfl, rfl⟩
      · exact hblock ⟨rfl, rfl⟩

theorem length_stripComments_le (text : Text) : (stripComments text).length ≤ text.length := by
  induction text using comment_cases with
  | nil => rw [stripComments]
  | single last => rw [stripComments]
  | line rest ih =>
      rw [stripComments_line]
      exact ih.trans ((length_dropLine_le rest).trans (Nat.le_add_right _ 2))
  | block rest ih =>
      rw [stripComments_block]
      exact ih.trans ((length_dropBlock_le rest).trans (Nat.le_add_right _ 2))
  | kept first second rest hopener ih =>
      rw [stripComments_cons hopener]
      exact Nat.succ_le_succ ih

end Strip

/-! ## Functions that delete the comments -/

/-- A function that deletes the comments, and perhaps a lone slash at the end. -/
structure Deletes (delete : Text → Text) : Prop where
  nil : delete [] = []
  single : ∀ last, last ≠ slash → delete [last] = [last]
  alone : delete [slash] = [slash] ∨ delete [slash] = []
  line : ∀ rest, delete (slash :: slash :: rest) = delete (dropLine rest)
  block : ∀ rest, delete (slash :: asterisk :: rest) = delete (dropBlock rest)
  kept : ∀ first second rest, NoOpener first second →
    delete (first :: second :: rest) = first :: delete (second :: rest)

theorem stripComments_deletes : Deletes stripComments where
  nil := by rw [stripComments]
  single last _ := by rw [stripComments]
  alone := .inl (by rw [stripComments])
  line := stripComments_line
  block := stripComments_block
  kept _ _ _ hopener := stripComments_cons hopener

section Deletion

variable {delete : Text → Text} {text : Text} {first : UInt8}

theorem Deletes.head (hdeletes : Deletes delete) (hne : first ≠ slash) (rest : Text) :
    delete (first :: rest) = first :: delete rest := by
  cases rest with
  | nil => rw [hdeletes.single first hne, hdeletes.nil]
  | cons second rest => exact hdeletes.kept first second rest fun hopener => hne hopener.1

/-- Deletion leaves no comment, since a slash that is kept keeps what follows it. -/
theorem Deletes.commentFree (hdeletes : Deletes delete) (text : Text) :
    CommentFree (delete text) := by
  induction text using comment_cases with
  | nil => rw [hdeletes.nil]; exact List.isChain_nil
  | single last =>
      by_cases hlast : last = slash
      · subst hlast
        obtain hslash | hslash := hdeletes.alone
        · rw [hslash]; exact List.isChain_singleton _
        · rw [hslash]; exact List.isChain_nil
      · rw [hdeletes.single last hlast]
        exact List.isChain_singleton last
  | line rest ih => rwa [hdeletes.line]
  | block rest ih => rwa [hdeletes.block]
  | kept first second rest hopener ih =>
      rw [hdeletes.kept first second rest hopener]
      by_cases hslash : first = slash
      · have hsecond : second ≠ slash := fun heq => hopener ⟨hslash, .inl heq⟩
        rw [hdeletes.head hsecond] at ih ⊢
        exact List.isChain_cons_cons.mpr ⟨hopener, ih⟩
      · exact ih.cons fun _ _ hopens => hslash hopens.1

/-- Without a lone slash at the end there is one way to delete the comments. -/
theorem Deletes.eq_stripComments (hdeletes : Deletes delete)
    (hslash : endsInLoneSlash text = false) : delete text = stripComments text := by
  induction text using comment_cases with
  | nil => rw [hdeletes.nil, stripComments]
  | single last =>
      rw [endsInLoneSlash, beq_eq_false_iff_ne] at hslash
      rw [hdeletes.single last hslash, stripComments]
  | line rest ih =>
      rw [endsInLoneSlash, if_pos ⟨rfl, rfl⟩] at hslash
      rw [hdeletes.line, stripComments_line, ih hslash]
  | block rest ih =>
      rw [endsInLoneSlash, if_neg (by decide), if_pos ⟨rfl, rfl⟩] at hslash
      rw [hdeletes.block, stripComments_block, ih hslash]
  | kept first second rest hopener ih =>
      rw [endsInLoneSlash_cons hopener] at hslash
      rw [hdeletes.kept first second rest hopener, stripComments_cons hopener, ih hslash]

/-- A lone slash at the end is all that another function may delete. -/
theorem Deletes.append_slash (hdeletes : Deletes delete) (hnil : delete [slash] = [])
    (hslash : endsInLoneSlash text = true) : stripComments text = delete text ++ [slash] := by
  induction text using comment_cases with
  | nil => simp [endsInLoneSlash] at hslash
  | single last =>
      rw [endsInLoneSlash, beq_iff_eq] at hslash
      rw [hslash, hnil, stripComments]
      rfl
  | line rest ih =>
      rw [endsInLoneSlash, if_pos ⟨rfl, rfl⟩] at hslash
      rw [hdeletes.line, stripComments_line, ih hslash]
  | block rest ih =>
      rw [endsInLoneSlash, if_neg (by decide), if_pos ⟨rfl, rfl⟩] at hslash
      rw [hdeletes.block, stripComments_block, ih hslash]
  | kept first second rest hopener ih =>
      rw [endsInLoneSlash_cons hopener] at hslash
      rw [hdeletes.kept first second rest hopener, stripComments_cons hopener, ih hslash]
      rfl

/-- A text without comments is kept in front of another one. -/
theorem Deletes.append (hdeletes : Deletes delete) {token rest : Text}
    (hfree : CommentFree (token ++ rest.take 1)) (hrest : rest ≠ [] ∨ token.getLast? ≠ some slash) :
    delete (token ++ rest) = token ++ delete rest := by
  induction token with
  | nil => rfl
  | cons first token ih =>
      cases token with
      | nil =>
          cases rest with
          | nil =>
              have hne : first ≠ slash := fun heq => hrest.elim (· rfl) (· (congrArg some heq))
              rw [List.append_nil, hdeletes.single first hne, hdeletes.nil, List.append_nil]
          | cons second rest =>
              exact hdeletes.kept first second rest (List.isChain_cons_cons.mp hfree).1
      | cons second token =>
          obtain ⟨hopener, hfree⟩ := List.isChain_cons_cons.mp hfree
          rw [List.getLast?_cons_cons] at hrest
          rw [List.cons_append, List.cons_append, hdeletes.kept first second _ hopener,
            ← List.cons_append, ih hfree hrest]
          rfl

end Deletion

section Free

variable {text : Text}

theorem commentFree_stripComments (text : Text) : CommentFree (stripComments text) :=
  stripComments_deletes.commentFree text

theorem CommentFree.stripComments_eq (hfree : CommentFree text) : stripComments text = text := by
  induction text with
  | nil => rw [stripComments]
  | cons first rest ih =>
      cases rest with
      | nil => rw [stripComments]
      | cons second rest =>
          obtain ⟨hopener, hrest⟩ := List.isChain_cons_cons.mp hfree
          rw [stripComments_cons hopener, ih hrest]

theorem endsInLoneSlash_stripComments (text : Text) :
    endsInLoneSlash (stripComments text) = endsInLoneSlash text := by
  induction text using comment_cases with
  | nil => rw [stripComments]
  | single last => rw [stripComments]
  | line rest ih => rw [stripComments_line, ih, endsInLoneSlash, if_pos ⟨rfl, rfl⟩]
  | block rest ih =>
      rw [stripComments_block, ih, endsInLoneSlash, if_neg (by decide), if_pos ⟨rfl, rfl⟩]
  | kept first second rest hopener ih =>
      rw [stripComments_cons hopener, endsInLoneSlash_cons hopener, ← ih]
      by_cases hslash : first = slash
      · have hsecond : second ≠ slash := fun heq => hopener ⟨hslash, .inl heq⟩
        rw [stripComments_deletes.head hsecond]
        exact endsInLoneSlash_cons hopener
      · exact endsInLoneSlash_cons_of_ne hslash _

theorem CommentFree.no_opener (hfree : CommentFree text) :
    ¬ [slash, slash] <:+: text ∧ ¬ [slash, asterisk] <:+: text := by
  constructor
  · rintro ⟨before, after, rfl⟩
    have hopener := (List.isChain_append.mp (List.isChain_append.mp hfree).1).2.1
    exact (List.isChain_cons_cons.mp hopener).1 ⟨rfl, .inl rfl⟩
  · rintro ⟨before, after, rfl⟩
    have hopener := (List.isChain_append.mp (List.isChain_append.mp hfree).1).2.1
    exact (List.isChain_cons_cons.mp hopener).1 ⟨rfl, .inr rfl⟩

end Free

end Pocl.CommentSyntax
