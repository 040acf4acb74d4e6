/-
Comments of a pattern match nothing.

A search passes over the comments of a pattern, and so does a wildcard that looks for its target.
Comments are no literals and no wildcards, so a pattern is found as it is found without them:

* `alike_comment`, `alike_withoutComments` — a comment in front of tokens, and comments anywhere;
* `withoutComments_shape` — the shapes that need no search have no comments;
* `comments_transparent` — a whole search, and the text that a comment is taken out of.
-/
import Graft.Proofs.Lexing.Comments
import Graft.Proofs.Search.Outcome

namespace Graft

namespace Pattern

theorem kinds_withoutComments (pattern : Pattern) :
    pattern.withoutComments.kinds = pattern.kinds.filter (· != .comment) := by
  rw [kinds, kinds, List.filter_map]
  rfl

theorem wildcardCount_withoutComments (pattern : Pattern) :
    pattern.withoutComments.wildcardCount = pattern.wildcardCount := by
  rw [wildcardCount, kinds_withoutComments, List.count_filter rfl, wildcardCount]

/-- A comment is no literal. -/
theorem literals_withoutComments (pattern : Pattern) :
    pattern.withoutComments.literals = pattern.literals := by
  rw [literals, withoutComments, List.filter_filter, literals]
  refine List.filter_congr fun token _ => ?_
  cases hkind : token.kind <;> simp [Token.isMeta, Kind.isMeta, Token.isComment, hkind]

/-- The shapes that need no search have no comments. -/
theorem withoutComments_shape {pattern : Pattern}
    (hall : pattern.withoutComments.isReplaceAll = false)
    (happ : pattern.withoutComments.isAppend = false) :
    pattern.isReplaceAll = false ∧ pattern.isAppend = false := by
  have hshape : ∀ kinds, Kind.comment ∉ kinds → (pattern.withoutComments.kinds == kinds) = false →
      (pattern.kinds == kinds) = false := by
    intro kinds hcomment h
    rw [beq_eq_false_iff_ne] at h ⊢
    rintro rfl
    refine h ?_
    rw [kinds_withoutComments, List.filter_eq_self]
    intro kind hkind
    rw [bne_iff_ne]
    rintro rfl
    exact hcomment hkind
  exact ⟨hshape _ (by decide) hall, hshape _ (by decide) happ⟩

end Pattern

namespace Search

variable {length : Int}

theorem alike_comment {token : Token} (h : token.kind = .comment) (tokens : List Token) :
    Alike length (token :: tokens) tokens := by
  refine ⟨nextTarget?_cons_meta (congrArg Kind.isMeta h), fun cursor => ?_⟩
  simp only [outcome, h]

theorem alike_withoutComments (tokens : List Token) :
    Alike length tokens (tokens.filter (!·.isComment)) := by
  induction tokens with
  | nil => exact .refl []
  | cons token tokens ih =>
    cases h : token.isComment with
    | true =>
      rw [List.filter_cons_of_neg (by simp [h])]
      exact (alike_comment (beq_iff_eq.mp h) tokens).trans ih
    | false =>
      rw [List.filter_cons_of_pos (by simp [h])]
      exact ih.cons token

open Lexeme in
/-- **Comments are transparent.**  A pattern is found as it is found without its comments, unless
that is a shape that needs no search or a search is cut off.  And a newline in place of a comment
takes the token of that comment out of the pattern, and leaves all the others as they are. -/
theorem comments_transparent :
    (∀ (settings : Settings) (source : List Token) (length : Int) (pattern : Pattern)
      (effort effort' : Effort),
      pattern.withoutComments.isReplaceAll = false → pattern.withoutComments.isAppend = false →
      (find settings source length pattern effort).1
        ≠ .error (.overCeiling stepLimit settings.maxSteps) →
      (find settings source length pattern.withoutComments effort').1
        ≠ .error (.overCeiling stepLimit settings.maxSteps) →
      (find settings source length pattern effort).1
        = (find settings source length pattern.withoutComments effort').1)
    ∧ ∀ (t x : Text) (before after : List Lexeme),
      lexemes .pattern t = before ++ token .comment x :: after →
      t = textOf before ++ (x ++ textOf after)
      ∧ ∃ depth,
        (Pattern.ofText t).tokens
          = tokens .pattern 0 depth before ++ ⟨.comment, x, depth + balance before, none⟩
            :: tokens .pattern 0 (depth + balance before) after
        ∧ (Pattern.ofText (textOf before ++ '\n' :: textOf after)).tokens
          = tokens .pattern 0 depth before ++ tokens .pattern 0 (depth + balance before) after := by
  refine ⟨?_, ?_⟩
  · intro settings source length pattern effort effort' hall happ hcut hcut'
    obtain ⟨hall', happ'⟩ := Pattern.withoutComments_shape hall happ
    refine find_alike rfl rfl hall' happ' hall happ ?_ ?_ (alike_withoutComments _) hcut hcut'
    · rw [Pattern.wildcardCount_withoutComments]
    · rw [Pattern.literals_withoutComments]
  · intro t x before after h
    refine ⟨?_, ofText_replace_comment h⟩
    rw [← textOf_lexemes .pattern t, h, textOf_append, textOf_cons, text]

/-- The tokens of `{a}return b`. -/
def returnTokens : List Token :=
  [⟨.bracket, ['\x7b'], 0, some 0⟩, ⟨.identifier, ['a'], 1, some 1⟩,
    ⟨.bracket, ['\x7d'], 1, some 2⟩, ⟨.identifier, ['r', 'e', 't', 'u', 'r', 'n'], 0, some 3⟩,
    ⟨.identifier, ['b'], 0, some 10⟩]

/-- The snippet `... // end` with `}return/**/b >>>` on its second line. -/
def returnSnippet : Text := "... // end\n\x7dreturn/**/b >>>".toList

def returnPattern : Pattern :=
  ⟨[⟨.wildcard, ['.', '.', '.'], 1, none⟩, ⟨.comment, ['/', '/', ' ', 'e', 'n', 'd'], 1, none⟩,
    ⟨.bracket, ['\x7d'], 1, none⟩, ⟨.identifier, ['r', 'e', 't', 'u', 'r', 'n'], 0, none⟩,
    ⟨.comment, ['/', '*', '*', '/'], 0, none⟩, ⟨.identifier, ['b'], 0, none⟩,
    ⟨.inserter, ['>', '>', '>'], 0, none⟩]⟩

open Lexeme in
theorem comments_transparent_return :
    Pattern.ofText returnSnippet = returnPattern
      ∧ (find {} returnTokens 11 returnPattern {}).1 = .ok ⟨11, none⟩
      ∧ (find {} returnTokens 11 returnPattern.withoutComments {}).1 = .ok ⟨11, none⟩
      ∧ ∃ before after depth,
        lexemes .pattern returnSnippet = before ++ token .comment ['/', '*', '*', '/'] :: after
        ∧ returnSnippet = textOf before ++ (['/', '*', '*', '/'] ++ textOf after)
        ∧ (Pattern.ofText (textOf before ++ '\n' :: textOf after)).tokens
          = tokens .pattern 0 depth before ++ tokens .pattern 0 (depth + balance before) after := by
  obtain ⟨hfind, hreplace⟩ := comments_transparent
  have hfound : (find {} returnTokens 11 returnPattern {}).1 = .ok ⟨11, none⟩ := rfl
  have hplain : (find {} returnTokens 11 returnPattern.withoutComments {}).1 = .ok ⟨11, none⟩ := rfl
  have hsame := hfind {} returnTokens 11 returnPattern {} {} rfl rfl (by rw [hfound]; simp)
    (by rw [hplain]; simp)
  have hlexemes : lexemes .pattern returnSnippet = (lexemes .pattern returnSnippet).take 6
      ++ token .comment ['/', '*', '*', '/'] :: (lexemes .pattern returnSnippet).drop 7 := by
    decide +kernel
  obtain ⟨htext, depth, -, htokens⟩ := hreplace _ _ _ _ hlexemes
  exact ⟨by decide +kernel, hfound, hsame.symm.trans hfound, _, _, depth, hlexemes, htext, htokens⟩

end Search

end Graft
