/-
One text read in two modes.

A pattern keeps the comments of a text, and source text gives its tokens offsets.  All else that
is read is read in either mode: the lexemes that are neither blank nor comments, which are the
spoken ones here.  Neither blanks nor comments change the depth, so spoken lexemes make the same
tokens with and without them:

* `unplaced_tokens` — source tokens without their offsets;
* `uncommented_tokens` — tokens of a pattern without its comments;
* `withoutComments_ofText` — a text without markers, as a pattern and as source text.
-/
import Graft.Proofs.Lexing.Comments

namespace Graft

/-- The token without its offset. -/
def Token.unplaced (token : Token) : Token := { token with offset := none }

namespace Lexeme

/-- The lexemes that are neither blank nor comments. -/
def spoken (ls : List Lexeme) : List Lexeme := ls.filter (!·.isQuiet)

@[simp] theorem spoken_nil : spoken [] = [] := rfl

theorem spoken_of_isQuiet {l : Lexeme} (h : l.isQuiet = true) (ls : List Lexeme) :
    spoken (l :: ls) = spoken ls :=
  List.filter_cons_of_neg (by simp [h])

theorem spoken_token {kind : Kind} (hkind : kind ≠ .comment) (x : Text) (ls : List Lexeme) :
    spoken (token kind x :: ls) = token kind x :: spoken ls :=
  List.filter_cons_of_pos (by simpa [isQuiet] using hkind)

/-- A lexeme is quiet, or it is a token and no comment. -/
theorem isQuiet_or_token (l : Lexeme) :
    l.isQuiet = true ∨ ∃ kind x, kind ≠ .comment ∧ l = token kind x := by
  cases l with
  | blank run => exact .inl rfl
  | token kind x =>
    by_cases hkind : kind = .comment
    · exact .inl (by simp [isQuiet, hkind])
    · exact .inr ⟨kind, x, hkind, rfl⟩

theorem balance_spoken (ls : List Lexeme) : balance (spoken ls) = balance ls := by
  induction ls with
  | nil => rfl
  | cons l ls ih =>
    rcases isQuiet_or_token l with hl | ⟨kind, x, hkind, rfl⟩
    · rw [spoken_of_isQuiet hl, ih, balance_cons, lift_of_isQuiet hl, Int.zero_add]
    · rw [spoken_token hkind, balance_cons, balance_cons, ih]

/-! ### Tokens of spoken lexemes -/

/-- Source tokens without their offsets are those of the spoken lexemes. -/
theorem unplaced_tokens (ls : List Lexeme) : ∀ (offset : Nat) (depth : Int),
    (tokens .source offset depth ls).map Token.unplaced = tokens .pattern 0 depth (spoken ls) := by
  induction ls with
  | nil => exact fun _ _ => rfl
  | cons l ls ih =>
    intro offset depth
    rcases isQuiet_or_token l with hl | ⟨kind, x, hkind, rfl⟩
    · rw [spoken_of_isQuiet hl, tokens, token?_of_isQuiet hl, lift_of_isQuiet hl, Int.add_zero]
      exact ih _ depth
    · rw [spoken_token hkind, tokens_source_cons hkind, List.map_cons, ih, tokens_pattern_cons,
        tokens_pattern_offset _ (0 + x.length) 0]
      rfl

/-- The tokens of a pattern without its comments are those of the spoken lexemes. -/
theorem uncommented_tokens (ls : List Lexeme) : ∀ (offset : Nat) (depth : Int),
    (tokens .pattern offset depth ls).filter (!·.isComment)
      = tokens .pattern 0 depth (spoken ls) := by
  induction ls with
  | nil => exact fun _ _ => rfl
  | cons l ls ih =>
    intro offset depth
    rcases isQuiet_or_token l with hl | ⟨kind, x, hkind, rfl⟩
    · rw [spoken_of_isQuiet hl, tokens, List.filter_append, ih, lift_of_isQuiet hl, Int.add_zero]
      cases l with
      | blank run => rfl
      | token kind x =>
        obtain rfl : kind = .comment := by simpa [isQuiet] using hl
        rfl
    · rw [spoken_token hkind, tokens_pattern_cons,
        List.filter_cons_of_pos (by simpa [Token.isComment] using hkind), ih, tokens_pattern_cons,
        tokens_pattern_offset _ (0 + x.length) 0]

end Lexeme

open Lexeme

/-- A text without markers has the same tokens as a pattern, its comments left out, and as source
text, by kind, text and depth. -/
theorem withoutComments_ofText {t : Text}
    (hfree : ∀ marker ∈ ["...".toList, ">>>".toList, "<<<".toList],
      Text.hasInfix marker t = false) :
    ∃ tokens, Tokenizer.builtin.tokenize t = (.ok tokens, [])
      ∧ (Pattern.ofText t).withoutComments.tokens = tokens.map Token.unplaced := by
  have hunits : units .pattern t = units .source t := units_pattern_eq (markerFree_iff.mpr
    ⟨hfree _ (by decide), hfree _ (by decide), hfree _ (by decide)⟩)
  refine ⟨builtinTokens t, tokenize_builtin t, ?_⟩
  rw [builtinTokens_eq, unplaced_tokens, Pattern.withoutComments, Pattern.ofText, levelled_ofText,
    uncommented_tokens, hunits]

/-- A brace that nothing opens, one that nothing closes, two comments and an open literal. -/
def raggedText : Text := "a /* \x7b */ \x7d \"b // c\" \x7b // d\n'e".toList

theorem withoutComments_ofText_ragged :
    (Pattern.ofText raggedText).tokens.map (·.depth) = [1, 1, 1, 0, 0, 1, 1]
      ∧ ∃ tokens, Tokenizer.builtin.tokenize raggedText = (.ok tokens, [])
        ∧ (Pattern.ofText raggedText).withoutComments.tokens = tokens.map Token.unplaced :=
  ⟨by decide +kernel, withoutComments_ofText (by decide +kernel)⟩

end Graft
