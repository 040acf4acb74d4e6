/-
Source tokens written out again.

The texts of the tokens of a source text, with a space between each two, are read as the same
tokens.  A token sees one character behind it at most, and a space ends every token that is closed.
What is left open runs to the end of its text, so it is the last token, and no space follows it.
Comments are gone, and with them the line comments that no space would end.

* `Spells.before_space` — a token in front of the next one;
* `spoken_printed` — the lexemes of the written text;
* `ofText_printed` — its tokens.
-/
import Graft.Proofs.Lexing.Modes

namespace Graft

/-- The texts of the tokens with a space between each two of them. -/
def printed (tokens : List Token) : Text := Text.join [' '] (tokens.map (·.text))

namespace Lexeme

variable {kind : Kind} {x rest : Text}

/-- A token that is no comment and that something follows may stand in front of a space. -/
theorem Spells.before_space (h : Spells kind x rest) (hkind : kind ≠ .comment) (hrest : rest ≠ [])
    (cs : Text) : Spells kind x (' ' :: cs) := by
  obtain ⟨hliteral, hcomment⟩ := h.closed_of_ne_nil hrest
  refine h.before_blank rfl hliteral hcomment fun hline => ?_
  unfold isLineComment at hline
  split at hline
  · exact absurd (token.inj ‹_›).1 hkind
  · simp at hline

/-- The spoken lexemes of a text, from its first token on. -/
theorem spoken_spells (h : Spells kind x rest) (hkind : kind ≠ .comment) :
    spoken (units .source (x ++ rest)) = token kind x :: spoken (units .source rest) := by
  rw [units_spells h, spoken_token hkind]

/-- The texts of spoken lexemes with a space between each two are read as these lexemes. -/
theorem spoken_printed (t : Text) :
    spoken (units .source (Text.join [' '] ((spoken (units .source t)).map text)))
      = spoken (units .source t) := by
  induction t using text_induction with
  | nil => simp [Text.join]
  | blank c cs hc ih => rwa [units_blank _ hc, spoken_of_isQuiet rfl]
  | token kind x rest hx ih =>
    by_cases hkind : kind = .comment
    · rwa [units_spells hx, spoken_of_isQuiet (by simp [isQuiet, hkind])]
    rw [spoken_spells hx hkind, List.map_cons]
    cases hspoken : spoken (units .source rest) with
    | nil =>
      -- the last token ends the written text
      have hlast := spoken_spells hx.at_end hkind
      rw [units_nil, spoken_nil] at hlast
      simpa [Text.join, List.intercalate, text] using hlast
    | cons l ls =>
      have hrest : rest ≠ [] := by
        rintro rfl
        simp at hspoken
      rw [hspoken] at ih
      have hjoin : Text.join [' '] ((token kind x).text :: (l :: ls).map text)
          = x ++ ' ' :: Text.join [' '] ((l :: ls).map text) := by
        simp [Text.join, List.intercalate, text]
      rw [hjoin, spoken_spells (hx.before_space hkind hrest _) hkind, units_blank _ rfl,
        spoken_of_isQuiet rfl, ih]

theorem map_text_tokens (ls : List Lexeme) : ∀ (offset : Nat) (depth : Int),
    (tokens .source offset depth ls).map (·.text) = (spoken ls).map text := by
  induction ls with
  | nil => exact fun _ _ => rfl
  | cons l ls ih =>
    intro offset depth
    rw [tokens, List.map_append, ih]
    rcases isQuiet_or_token l with hl | ⟨kind, x, hkind, rfl⟩
    · rw [spoken_of_isQuiet hl, token?_of_isQuiet hl]
      rfl
    · rw [spoken_token hkind]
      simp [token?, hkind, text]

end Lexeme

open Lexeme

/-- The tokens of a source text, written out with a space between each two of them, are read back
by kind, text and depth, and the depth behind them is the same. -/
theorem ofText_printed (t : Text) :
    (Reading.ofText .source (printed (Reading.ofText .source t).tokens)).tokens.map Token.unplaced
        = (Reading.ofText .source t).tokens.map Token.unplaced
      ∧ (Reading.ofText .source (printed (Reading.ofText .source t).tokens)).depth
        = (Reading.ofText .source t).depth := by
  have hspoken := spoken_printed t
  rw [← map_text_tokens _ 0 0] at hspoken
  simp only [ofText_eq, unplaced_tokens, printed]
  rw [hspoken, ← balance_spoken (units .source t), ← balance_spoken, hspoken]
  exact ⟨rfl, rfl⟩

end Graft
