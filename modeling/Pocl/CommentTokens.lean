import Pocl.CommentSyntax

/-!
# The tokens of a text with comments

A grammar says which characters are white space, and how long the token in front of a text is.
Between tokens a comment is one space.

The deletion of the comments preserves the tokens exactly where no token has a comment inside,
and none becomes another one when what follows its comments is written next to it.  The same
holds where some of the comments are left in the text.
-/

namespace Pocl.CommentTokens

open Pocl.CommentSyntax

structure Grammar where
  white : UInt8 → Bool
  munch : Text → ℕ
  white_slash : white slash = false
  munch_pos : ∀ first rest, 0 < munch (first :: rest)
  munch_le : ∀ text : Text, munch text ≤ text.length
  last_slash : ∀ text : Text, (text.take (munch text)).getLast? = some slash →
    text.take (munch text) = [slash]

variable {G : Grammar}

def Grammar.tokens (G : Grammar) : Text → List Text
  | [] => []
  | first :: rest =>
      if first = slash ∧ rest.head? = some slash then G.tokens (dropLine rest.tail)
      else if first = slash ∧ rest.head? = some asterisk then G.tokens (dropBlock rest.tail)
      else if G.white first then G.tokens rest
      else
        (first :: rest).take (G.munch (first :: rest)) ::
          G.tokens ((first :: rest).drop (G.munch (first :: rest)))
termination_by text => text.length
decreasing_by
  · have hle := length_dropLine_le rest.tail
    have htail := rest.length_tail
    simp only [List.length_cons]
    omega
  · have hle := length_dropBlock_le rest.tail
    have htail := rest.length_tail
    simp only [List.length_cons]
    omega
  · simp only [List.length_cons]
    omega
  · have hpos := G.munch_pos first rest
    rw [List.length_drop, List.length_cons]
    omega

/-- A token in front of the rest of a text. -/
structure Grammar.Front (G : Grammar) (token rest : Text) : Prop where
  ne_nil : token ≠ []
  munch_eq : G.munch (token ++ rest) = token.length
  not_white : ∀ first ∈ token.head?, G.white first = false
  no_opener : ∀ second ∈ (token.tail ++ rest).head?, ∀ first ∈ token.head?, NoOpener first second

/-- A text whose tokens remain when its comments are deleted. -/
inductive Grammar.Separable (G : Grammar) : Text → Prop
  | nil : G.Separable []
  | white {first : UInt8} {rest : Text} (hwhite : G.white first = true)
      (hrest : G.Separable rest) : G.Separable (first :: rest)
  | line {rest : Text} (hrest : G.Separable (dropLine rest)) :
      G.Separable (slash :: slash :: rest)
  | block {rest : Text} (hrest : G.Separable (dropBlock rest)) :
      G.Separable (slash :: asterisk :: rest)
  | token {token rest : Text} (hfront : G.Front token rest) (hfree : CommentFree token)
      (hmunch : G.munch (token ++ stripComments rest) = token.length)
      (hrest : G.Separable rest) : G.Separable (token ++ rest)

/-- Two texts of which the second one leaves out comments of the first one, and nothing else.
White space or another comment may stand in the place of a comment.  What is left behind a
token is as demanded. -/
inductive Grammar.LeavesOut (G : Grammar) (demand : Text → Text → Prop) : Text → Text → Prop
  | nil : G.LeavesOut demand [] []
  | white {first : UInt8} {rest left : Text} (hwhite : G.white first = true)
      (hrest : G.LeavesOut demand rest left) : G.LeavesOut demand (first :: rest) (first :: left)
  | line {rest left : Text} (hrest : G.LeavesOut demand (dropLine rest) left) :
      G.LeavesOut demand (slash :: slash :: rest) left
  | block {rest left : Text} (hrest : G.LeavesOut demand (dropBlock rest) left) :
      G.LeavesOut demand (slash :: asterisk :: rest) left
  | blankLine {first : UInt8} {rest left : Text} (hwhite : G.white first = true)
      (hrest : G.LeavesOut demand (slash :: slash :: rest) left) :
      G.LeavesOut demand (slash :: slash :: rest) (first :: left)
  | blankBlock {first : UInt8} {rest left : Text} (hwhite : G.white first = true)
      (hrest : G.LeavesOut demand (slash :: asterisk :: rest) left) :
      G.LeavesOut demand (slash :: asterisk :: rest) (first :: left)
  | keptLine {rest left : Text} (hrest : G.LeavesOut demand (dropLine rest) (dropLine left)) :
      G.LeavesOut demand (slash :: slash :: rest) (slash :: slash :: left)
  | keptBlock {rest left : Text} (hrest : G.LeavesOut demand (dropBlock rest) (dropBlock left)) :
      G.LeavesOut demand (slash :: asterisk :: rest) (slash :: asterisk :: left)
  | token {token rest left : Text} (hfront : G.Front token rest) (hdemand : demand token left)
      (hrest : G.LeavesOut demand rest left) : G.LeavesOut demand (token ++ rest) (token ++ left)

/-- The token does not become another one in front of the rest of a text. -/
def Grammar.Apart (G : Grammar) (token left : Text) : Prop :=
  G.munch (token ++ left) = token.length

instance (token left : Text) : Decidable (G.Apart token left) :=
  inferInstanceAs (Decidable (_ = _))

section Tokens

variable {first : UInt8} {token rest : Text}

theorem Grammar.ne_slash_of_white (hwhite : G.white first = true) : first ≠ slash := by
  rintro rfl
  rw [G.white_slash] at hwhite
  cases hwhite

theorem tokens_line (rest : Text) :
    G.tokens (slash :: slash :: rest) = G.tokens (dropLine rest) := by
  rw [Grammar.tokens, if_pos ⟨rfl, rfl⟩, List.tail_cons]

theorem tokens_block (rest : Text) :
    G.tokens (slash :: asterisk :: rest) = G.tokens (dropBlock rest) := by
  rw [Grammar.tokens, if_neg (by simp [asterisk, slash]), if_pos ⟨rfl, rfl⟩, List.tail_cons]

theorem tokens_white (hwhite : G.white first = true) (rest : Text) :
    G.tokens (first :: rest) = G.tokens rest := by
  have hne := Grammar.ne_slash_of_white hwhite
  rw [Grammar.tokens, if_neg fun hline => hne hline.1, if_neg fun hblock => hne hblock.1,
    if_pos hwhite]

theorem tokens_front (hfront : G.Front token rest) :
    G.tokens (token ++ rest) = token :: G.tokens rest := by
  cases token with
  | nil => exact absurd rfl hfront.ne_nil
  | cons first token =>
      have hwhite := hfront.not_white first rfl
      have hopener : ∀ second, (token ++ rest).head? = some second → NoOpener first second :=
        fun second hsecond => hfront.no_opener second hsecond first rfl
      rw [List.cons_append, Grammar.tokens,
        if_neg fun hline => hopener slash hline.2 ⟨hline.1, .inl rfl⟩,
        if_neg fun hblock => hopener asterisk hblock.2 ⟨hblock.1, .inr rfl⟩,
        if_neg (by simp [hwhite]), ← List.cons_append, hfront.munch_eq, List.take_left,
        List.drop_left]

theorem front_of_ne_slash (hne : first ≠ slash) (hwhite : G.white first = false)
    (hmunch : G.munch (first :: token ++ rest) = (first :: token).length) :
    G.Front (first :: token) rest := by
  refine ⟨List.cons_ne_nil _ _, hmunch, fun head hhead => ?_, fun second _ head hhead => ?_⟩
  · rwa [← Option.some.inj hhead]
  · rw [← Option.some.inj hhead]
    exact fun hopener => hne hopener.1

/-- A character that is neither white nor starts a comment starts a token. -/
theorem front_take (hwhite : G.white first = false)
    (hopener : ∀ second ∈ rest.head?, NoOpener first second) :
    G.Front ((first :: rest).take (G.munch (first :: rest)))
      ((first :: rest).drop (G.munch (first :: rest))) := by
  obtain ⟨count, hcount⟩ := Nat.exists_eq_succ_of_ne_zero (G.munch_pos first rest).ne'
  have hle := G.munch_le (first :: rest)
  refine ⟨?_, ?_, ?_, ?_⟩
  · rw [hcount, List.take_succ_cons]
    exact List.cons_ne_nil _ _
  · rw [List.take_append_drop, List.length_take_of_le hle]
  · rw [hcount, List.take_succ_cons]
    intro head hhead
    rwa [← Option.some.inj hhead]
  · rw [hcount, List.take_succ_cons, List.drop_succ_cons, List.tail_cons,
      List.take_append_drop]
    intro second hsecond head hhead
    rw [← Option.some.inj hhead]
    exact hopener second hsecond

/-- A text is empty, or it begins with white space, a comment or a token. -/
theorem token_cases {motive : Text → Prop} (nil : motive [])
    (white : ∀ first rest, G.white first = true → motive rest → motive (first :: rest))
    (line : ∀ rest, motive (dropLine rest) → motive (slash :: slash :: rest))
    (block : ∀ rest, motive (dropBlock rest) → motive (slash :: asterisk :: rest))
    (token : ∀ token rest, G.Front token rest → motive rest → motive (token ++ rest))
    (text : Text) : motive text := by
  induction hlength : text.length using Nat.strong_induction_on generalizing text with
  | _ length ih =>
      subst hlength
      cases text with
      | nil => exact nil
      | cons first rest =>
          by_cases hwhite : G.white first = true
          · exact white first rest hwhite (ih rest.length (Nat.lt_succ_self _) rest rfl)
          · by_cases hopener : ∀ second ∈ rest.head?, NoOpener first second
            · have hfront := front_take (Bool.not_eq_true _ ▸ hwhite) hopener
              rw [← List.take_append_drop (G.munch (first :: rest)) (first :: rest)]
              refine token _ _ hfront (ih _ ?_ _ rfl)
              have hpos := G.munch_pos first rest
              rw [List.length_drop, List.length_cons]
              omega
            · cases rest with
              | nil => exact absurd (by simp) hopener
              | cons second rest =>
                  have hopens : first = slash ∧ (second = slash ∨ second = asterisk) := by
                    by_contra hnot
                    exact hopener fun next hnext => Option.some.inj hnext ▸ hnot
                  obtain ⟨rfl, rfl | rfl⟩ := hopens
                  · refine line rest (ih _ ?_ _ rfl)
                    exact (length_dropLine_le rest).trans_lt (by simp)
                  · refine block rest (ih _ ?_ _ rfl)
                    exact (length_dropBlock_le rest).trans_lt (by simp)

end Tokens

section LeftOut

variable {demand : Text → Text → Prop} {token rest left text : Text}

/-- Only a comment can be missing in front. -/
theorem Grammar.LeavesOut.head?_eq (hleaves : G.LeavesOut demand rest left)
    (hslash : rest.head? ≠ some slash) : left.head? = rest.head? := by
  cases hleaves with
  | nil => rfl
  | white => rfl
  | line => exact absurd rfl hslash
  | block => exact absurd rfl hslash
  | blankLine => exact absurd rfl hslash
  | blankBlock => exact absurd rfl hslash
  | keptLine => rfl
  | keptBlock => rfl
  | @token token rest left hfront =>
      cases token with
      | nil => exact absurd rfl hfront.ne_nil
      | cons first token => rfl

theorem Grammar.LeavesOut.no_opener (hleaves : G.LeavesOut demand rest left)
    (hfront : G.Front token rest) :
    ∀ second ∈ (token.tail ++ left).head?, ∀ first ∈ token.head?, NoOpener first second := by
  intro second hsecond first hfirst
  cases token with
  | nil => cases hfirst
  | cons head token =>
      obtain rfl : head = first := Option.some.inj hfirst
      cases token with
      | nil =>
          intro hopener
          have hrest : ∀ next ∈ rest.head?, NoOpener head next :=
            fun next hnext => hfront.no_opener next hnext head rfl
          have hslash : rest.head? ≠ some slash :=
            fun hhead => hrest slash hhead ⟨hopener.1, .inl rfl⟩
          have hleft : left.head? = some second := hsecond
          rw [hleaves.head?_eq hslash] at hleft
          exact hrest second hleft hopener
      | cons next token => exact hfront.no_opener second hsecond head rfl

/-- Comments can be left out where the tokens stay apart. -/
theorem Grammar.LeavesOut.tokens_eq (hleaves : G.LeavesOut G.Apart text left) :
    G.tokens left = G.tokens text := by
  induction hleaves with
  | nil => rfl
  | white hwhite _ ih => rw [tokens_white hwhite, tokens_white hwhite, ih]
  | line _ ih => rw [tokens_line, ih]
  | block _ ih => rw [tokens_block, ih]
  | blankLine hwhite _ ih => rw [tokens_white hwhite, ih]
  | blankBlock hwhite _ ih => rw [tokens_white hwhite, ih]
  | keptLine _ ih => rw [tokens_line, tokens_line, ih]
  | keptBlock _ ih => rw [tokens_block, tokens_block, ih]
  | @token token rest left hfront hapart hrest ih =>
      have hkept : G.Front token left :=
        ⟨hfront.ne_nil, hapart, hfront.not_white, hrest.no_opener hfront⟩
      rw [tokens_front hkept, tokens_front hfront, ih]

/-- The first token of two texts that both begin with a token of the one. -/
theorem Grammar.Front.apart_of_tokens_eq (hfront : G.Front token rest)
    (hopener : ∀ second ∈ (token.tail ++ left).head?, ∀ first ∈ token.head?,
      NoOpener first second)
    (htokens : G.tokens (token ++ left) = G.tokens (token ++ rest)) :
    G.Apart token left ∧ G.tokens left = G.tokens rest := by
  cases token with
  | nil => exact absurd rfl hfront.ne_nil
  | cons first tail =>
      rw [List.tail_cons] at hopener
      have hfirst := front_take (hfront.not_white first rfl)
        fun second hsecond => hopener second hsecond first rfl
      rw [tokens_front hfront, List.cons_append,
        ← List.take_append_drop (G.munch (first :: (tail ++ left))) (first :: (tail ++ left)),
        tokens_front hfirst] at htokens
      obtain ⟨htake, hdrop⟩ := List.cons.inj htokens
      have hlength := congrArg List.length htake
      rw [List.length_take_of_le (G.munch_le _)] at hlength
      rw [hlength, ← List.cons_append, List.drop_left] at hdrop
      exact ⟨hlength, hdrop⟩

/-- Where only comments are left out and the tokens remain, they stay apart. -/
theorem Grammar.LeavesOut.apart_of_tokens_eq (hleaves : G.LeavesOut demand text left)
    (htokens : G.tokens left = G.tokens text) : G.LeavesOut G.Apart text left := by
  induction hleaves with
  | nil => exact .nil
  | white hwhite _ ih =>
      rw [tokens_white hwhite, tokens_white hwhite] at htokens
      exact .white hwhite (ih htokens)
  | line _ ih =>
      rw [tokens_line] at htokens
      exact .line (ih htokens)
  | block _ ih =>
      rw [tokens_block] at htokens
      exact .block (ih htokens)
  | blankLine hwhite _ ih =>
      rw [tokens_white hwhite] at htokens
      exact .blankLine hwhite (ih htokens)
  | blankBlock hwhite _ ih =>
      rw [tokens_white hwhite] at htokens
      exact .blankBlock hwhite (ih htokens)
  | keptLine _ ih =>
      rw [tokens_line, tokens_line] at htokens
      exact .keptLine (ih htokens)
  | keptBlock _ ih =>
      rw [tokens_block, tokens_block] at htokens
      exact .keptBlock (ih htokens)
  | token hfront _ hrest ih =>
      obtain ⟨hapart, hrests⟩ := hfront.apart_of_tokens_eq (hrest.no_opener hfront) htokens
      exact .token hfront hapart (ih hrests)

/-- A text leaves out nothing of itself. -/
theorem leavesOut_refl (G : Grammar) (text : Text) : G.LeavesOut G.Apart text text := by
  induction text using token_cases (G := G) with
  | nil => exact .nil
  | white first rest hwhite ih => exact .white hwhite ih
  | line rest ih => exact .keptLine ih
  | block rest ih => exact .keptBlock ih
  | token token rest hfront ih => exact .token hfront hfront.munch_eq ih

end LeftOut

section Deletion

variable {delete : Text → Text} {token rest text : Text}

/-- Only the token of a lone slash ends in a slash, and then no comment starts with it. -/
theorem Grammar.Front.commentFree_append (hfront : G.Front token rest)
    (hfree : CommentFree token) : CommentFree (token ++ rest.take 1) := by
  refine List.isChain_append.mpr ⟨hfree, ?_, fun last hlast next hnext hopener => ?_⟩
  · cases rest with
    | nil => exact List.isChain_nil
    | cons next rest => exact List.isChain_singleton next
  · have halone := G.last_slash (token ++ rest)
    rw [hfront.munch_eq, List.take_left, ← hopener.1] at halone
    have htoken := halone hlast
    rw [htoken] at hfront
    have hsecond : next ∈ ([last].tail ++ rest).head? := by
      cases rest with
      | nil => cases hnext
      | cons second rest => exact hnext
    exact hfront.no_opener next hsecond last rfl hopener

theorem Grammar.Front.delete_append (hfront : G.Front token rest) (hfree : CommentFree token)
    (hdeletes : Deletes delete) (hrest : rest ≠ [] ∨ token ≠ [slash]) :
    delete (token ++ rest) = token ++ delete rest := by
  refine hdeletes.append (hfront.commentFree_append hfree) (hrest.imp_right fun hne hlast => ?_)
  have halone := G.last_slash (token ++ rest)
  rw [hfront.munch_eq, List.take_left] at halone
  exact hne (halone hlast)

/-- Deletion leaves out the comments of a separable text. -/
theorem Grammar.Separable.leavesOut (hseparable : G.Separable text) :
    G.LeavesOut G.Apart text (stripComments text) := by
  induction hseparable with
  | nil =>
      rw [stripComments]
      exact .nil
  | white hwhite _ ih =>
      rw [stripComments_deletes.head (Grammar.ne_slash_of_white hwhite)]
      exact .white hwhite ih
  | line _ ih =>
      rw [stripComments_line]
      exact .line ih
  | block _ ih =>
      rw [stripComments_block]
      exact .block ih
  | @token token rest hfront hfree hmunch _ ih =>
      have happend : stripComments (token ++ rest) = token ++ stripComments rest := by
        by_cases hrest : rest ≠ [] ∨ token ≠ [slash]
        · exact hfront.delete_append hfree stripComments_deletes hrest
        · obtain ⟨rfl, rfl⟩ := not_or.mp hrest |>.imp not_not.mp not_not.mp
          simp [stripComments]
      rw [happend]
      exact .token hfront hmunch ih

/-- Deletion keeps the first character of a token, unless the text is a lone slash. -/
theorem Grammar.Front.delete_cons {first : UInt8} (hfront : G.Front (first :: token) rest)
    (hdeletes : Deletes delete) (hne : delete (first :: token ++ rest) ≠ []) :
    ∃ kept, delete (first :: token ++ rest) = first :: kept := by
  have hopener : ∀ second ∈ (token ++ rest).head?, NoOpener first second :=
    fun second hsecond => hfront.no_opener second hsecond first rfl
  rw [List.cons_append] at hne ⊢
  cases htail : token ++ rest with
  | nil =>
      rw [htail] at hne
      by_cases hslash : first = slash
      · subst hslash
        exact ⟨[], hdeletes.alone.resolve_right hne⟩
      · exact ⟨[], hdeletes.single first hslash⟩
  | cons second tail =>
      rw [htail] at hopener
      exact ⟨_, hdeletes.kept first second tail (hopener second rfl)⟩

/-- What follows for a token, when deletion preserves the tokens of a text that begins with it. -/
theorem Grammar.Front.of_tokens_eq (hfront : G.Front token rest) (hdeletes : Deletes delete)
    (htokens : G.tokens (delete (token ++ rest)) = G.tokens (token ++ rest)) :
    CommentFree token ∧ delete (token ++ rest) = token ++ delete rest ∧
      G.munch (token ++ delete rest) = token.length ∧ G.tokens (delete rest) = G.tokens rest := by
  rw [tokens_front hfront] at htokens
  have hne : delete (token ++ rest) ≠ [] := by
    intro hnil
    rw [hnil, Grammar.tokens] at htokens
    cases htokens
  cases token with
  | nil => exact absurd rfl hfront.ne_nil
  | cons first tail =>
      obtain ⟨kept, hkept⟩ := hfront.delete_cons hdeletes hne
      have hstripped := hdeletes.commentFree (first :: tail ++ rest)
      rw [hkept] at hstripped
      have hfirst := front_take (hfront.not_white first rfl) (List.isChain_cons.mp hstripped).1
      -- The first token of what is left is the token, which has no comment inside for that.
      rw [hkept, ← List.take_append_drop (G.munch (first :: kept)) (first :: kept),
        tokens_front hfirst] at htokens
      obtain ⟨htake, hdrop⟩ := List.cons.inj htokens
      rw [← List.take_append_drop (G.munch (first :: kept)) (first :: kept), htake] at hstripped
      have hfree := (List.isChain_append.mp hstripped).1
      have happend : delete (first :: tail ++ rest) = first :: tail ++ delete rest := by
        by_cases hrest : rest ≠ [] ∨ first :: tail ≠ [slash]
        · exact hfront.delete_append hfree hdeletes hrest
        · obtain ⟨rfl, hslash⟩ := not_or.mp hrest |>.imp not_not.mp not_not.mp
          rw [hslash, List.append_nil] at hne ⊢
          rw [hdeletes.alone.resolve_right hne, hdeletes.nil, List.append_nil]
      rw [← hkept, happend] at htake hdrop
      have hlength := congrArg List.length htake
      rw [List.length_take_of_le (G.munch_le _)] at hlength
      rw [hlength, List.drop_left] at hdrop
      exact ⟨hfree, happend, hlength, hdrop⟩

/-- A text whose tokens are preserved is separable. -/
theorem separable_of_tokens_eq (htokens : G.tokens (stripComments text) = G.tokens text) :
    G.Separable text := by
  induction text using token_cases (G := G) with
  | nil => exact .nil
  | white first rest hwhite ih =>
      rw [stripComments_deletes.head (Grammar.ne_slash_of_white hwhite), tokens_white hwhite,
        tokens_white hwhite] at htokens
      exact .white hwhite (ih htokens)
  | line rest ih =>
      rw [stripComments_line, tokens_line] at htokens
      exact .line (ih htokens)
  | block rest ih =>
      rw [stripComments_block, tokens_block] at htokens
      exact .block (ih htokens)
  | token token rest hfront ih =>
      obtain ⟨hfree, -, hmunch, hrest⟩ := hfront.of_tokens_eq stripComments_deletes htokens
      exact .token hfront hfree hmunch (ih hrest)

/-- Where a lone slash at the end is deleted, a token is missing. -/
theorem endsInLoneSlash_of_tokens_eq (hdeletes : Deletes delete) (hnil : delete [slash] = [])
    (htokens : G.tokens (delete text) = G.tokens text) : endsInLoneSlash text = false := by
  induction text using token_cases (G := G) with
  | nil => rw [endsInLoneSlash]
  | white first rest hwhite ih =>
      have hne := Grammar.ne_slash_of_white hwhite
      rw [hdeletes.head hne, tokens_white hwhite, tokens_white hwhite] at htokens
      rw [endsInLoneSlash_cons_of_ne hne, ih htokens]
  | line rest ih =>
      rw [hdeletes.line, tokens_line] at htokens
      rw [endsInLoneSlash, if_pos ⟨rfl, rfl⟩, ih htokens]
  | block rest ih =>
      rw [hdeletes.block, tokens_block] at htokens
      rw [endsInLoneSlash, if_neg (by decide), if_pos ⟨rfl, rfl⟩, ih htokens]
  | token token rest hfront ih =>
      obtain ⟨hfree, happend, -, hrest⟩ := hfront.of_tokens_eq hdeletes htokens
      have halone : rest ≠ [] ∨ token ≠ [slash] := by
        by_contra hnot
        obtain ⟨rfl, rfl⟩ := not_or.mp hnot |>.imp not_not.mp not_not.mp
        rw [List.append_nil, hnil] at happend
        cases happend
      by_contra hslash
      have hmissing := hdeletes.append_slash hnil (Bool.not_eq_false _ ▸ hslash)
      rw [happend, hfront.delete_append hfree stripComments_deletes halone,
        ← hdeletes.eq_stripComments (ih hrest)] at hmissing
      have hlength := congrArg List.length hmissing
      simp at hlength

end Deletion

end Pocl.CommentTokens
