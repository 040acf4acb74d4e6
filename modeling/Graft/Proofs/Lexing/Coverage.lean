/-
The tokens of a text cover it.

A text is the texts of its tokens, one after the other, with gaps between them.  In a
pattern a gap is blank.  In source text it may also hold comments: whole ones, but for a
block comment that runs into the end of the text.

* `Filler`, `Gap` — what may stand between tokens;
* `Laid` — tokens laid out in a text, with the gaps and the offsets;
* `InOrder` — the same of the offsets alone, as it is asked of source tokens;
* `ofText_covers` — reading a text ends behind its last character, and lays its tokens out
  in it.

None of these mentions how a text is read.
-/
import Graft.Proofs.Lexing.Depth
import Graft.Proofs.Lexing.Written

namespace Graft

open Lexeme

/-- Blanks and comments in front of the text `rest`.  A line comment goes on to the end
of its line.  A block comment goes on to the first sign that closes it, and without one
to the end of the text. -/
inductive Filler : Text → Text → Prop where
  | nil {rest : Text} : Filler [] rest
  | blank {c : Char} {gap rest : Text} (hc : Text.isBlank c = true) (h : Filler gap rest) :
      Filler (c :: gap) rest
  | lineComment {cs gap rest : Text} (hcs : '\n' ∉ cs)
      (hend : gap ++ rest = [] ∨ (gap ++ rest).head? = some '\n') (h : Filler gap rest) :
      Filler ('/' :: '/' :: (cs ++ gap)) rest
  | blockComment {cs gap rest : Text} (hcs : ¬ ['*', '/'] <:+: cs ++ ['*']) (h : Filler gap rest) :
      Filler ('/' :: '*' :: (cs ++ '*' :: '/' :: gap)) rest
  | openComment {cs : Text} (hcs : ¬ ['*', '/'] <:+: cs) : Filler ('/' :: '*' :: cs) []

/-- What may stand between the tokens of a text, in front of its part `rest`. -/
def Gap : Mode → Text → Text → Prop
  | .pattern, gap, _ => ∀ c ∈ gap, Text.isBlank c = true
  | .source, gap, rest => Filler gap rest

/-- The offset of a token that starts at a place. -/
def Mode.offsetAt : Mode → Nat → Option Int
  | .pattern, _ => none
  | .source, place => some place

/-- The tokens are laid out in the text, which starts at the place `offset`. -/
inductive Laid (mode : Mode) : Nat → List Token → Text → Prop where
  | last {offset : Nat} {gap : Text} (hgap : Gap mode gap []) : Laid mode offset [] gap
  | token {offset start : Nat} {gap rest : Text} {token : Token} {tokens : List Token}
      (hgap : Gap mode gap (token.text ++ rest)) (hstart : start = offset + gap.length)
      (hne : token.text ≠ []) (hoffset : token.offset = mode.offsetAt start)
      (h : Laid mode (start + token.text.length) tokens rest) :
      Laid mode offset (token :: tokens) (gap ++ (token.text ++ rest))

/-- Tokens that lie one behind the other in a text of `length` characters. -/
structure InOrder (source : List Token) (length : Nat) : Prop where
  within : ∀ token ∈ source, ∃ k ∈ token.offset, 0 ≤ k ∧ k + token.text.length ≤ length
  apart : source.Pairwise fun a b => ∀ k ∈ a.offset, ∀ n ∈ b.offset,
    k + (a.text.length : Int) ≤ n

/-! ### Comments -/

theorem closeComment?_eq_none {t : Text} (h : closeComment? t = none) : ¬ ['*', '/'] <:+: t := by
  fun_induction closeComment? t with
  | case1 => simp
  | case2 cs => simp at h
  | case3 c cs hne ih =>
    rw [List.infix_cons_iff]
    rintro (⟨r, hr⟩ | hinfix)
    · simp only [List.cons_append, List.nil_append, List.cons.injEq] at hr
      exact hne r hr.1.symm hr.2.symm
    · exact ih (Option.map_eq_none_iff.mp h) hinfix

/-- The sign that closes a comment stands at its end, and nowhere before. -/
theorem closeComment?_eq_some {t body rest : Text} (h : closeComment? t = some (body, rest)) :
    ∃ cs, body = cs ++ ['*', '/'] ∧ ¬ ['*', '/'] <:+: cs ++ ['*'] := by
  fun_induction closeComment? t generalizing body with
  | case1 => simp at h
  | case2 cs =>
    simp only [Option.some.injEq, Prod.mk.injEq] at h
    exact ⟨[], h.1.symm, by decide⟩
  | case3 c t hne ih =>
    obtain ⟨⟨b, r⟩, hb, heq⟩ := Option.map_eq_some_iff.mp h
    obtain ⟨rfl, rfl⟩ := Prod.mk.inj heq
    obtain ⟨cs, rfl, hcs⟩ := ih hb
    refine ⟨c :: cs, rfl, ?_⟩
    rw [List.cons_append, List.infix_cons_iff]
    rintro (⟨z, hz⟩ | hinfix)
    · -- then `c` would have been the start of the sign
      have htext := (closeComment?_closed hb).1
      cases cs with
      | nil => simp at hz
      | cons d cs =>
        simp only [List.cons_append, List.nil_append, List.cons.injEq] at hz
        exact hne (cs ++ ['*', '/'] ++ r) hz.1.symm (by rw [htext, ← hz.2.1]; rfl)
    · exact hcs hinfix

/-- A comment that is read in front of a gap is part of the gap. -/
theorem Filler.comment {kind : Kind} {x gap rest : Text} (hx : Spells kind x (gap ++ rest))
    (hkind : kind = .comment) (h : Filler gap rest) : Filler (x ++ gap) rest := by
  generalize hrest : gap ++ rest = t at hx
  cases hx with
  | lineComment hcs hstop =>
    refine .lineComment hcs ?_ h
    rw [hrest]
    cases t with
    | nil => exact .inl rfl
    | cons c cs => exact .inr (by simpa using hstop c rfl)
  | blockComment hcs =>
    obtain ⟨cs, rfl, hsign⟩ := closeComment?_eq_some hcs
    have hgap := Filler.blockComment hsign h
    simpa using hgap
  | openComment hcs =>
    obtain ⟨rfl, rfl⟩ := List.append_eq_nil_iff.mp hrest
    rw [List.append_nil]
    exact .openComment (closeComment?_eq_none hcs)
  | @single c => cases hb : isBracket c <;> simp [hb] at hkind
  | directive | literal | openLiteral | operator | identifier | number => cases hkind

/-! ### Gaps grow at the front -/

section Laid

variable {mode : Mode} {offset : Nat} {tokens : List Token} {t w : Text}

/-- What may stand in front of every gap may stand in front of the first one. -/
theorem Laid.behind (hw : ∀ gap rest, t = gap ++ rest → Gap mode gap rest →
      Gap mode (w ++ gap) rest) (h : Laid mode (offset + w.length) tokens t) :
    Laid mode offset tokens (w ++ t) := by
  cases h with
  | last hgap => exact .last (hw t [] (by simp) hgap)
  | token hgap hstart hne hoffset h =>
    rw [← List.append_assoc]
    refine .token (hw _ _ rfl hgap) ?_ hne hoffset h
    rw [hstart, List.length_append, Nat.add_assoc]

theorem Filler.blanks {gap rest : Text} (hw : ∀ c ∈ w, Text.isBlank c = true)
    (h : Filler gap rest) : Filler (w ++ gap) rest := by
  induction w with
  | nil => exact h
  | cons c w ih => exact .blank (hw c (by simp)) (ih fun d hd => hw d (by simp [hd]))

theorem Laid.behind_blanks (hw : ∀ c ∈ w, Text.isBlank c = true)
    (h : Laid mode (offset + w.length) tokens t) : Laid mode offset tokens (w ++ t) := by
  refine h.behind fun gap rest _ hgap => ?_
  cases mode with
  | pattern =>
    intro c hc
    exact (List.mem_append.mp hc).elim (hw c) (hgap c)
  | source => exact hgap.blanks hw

theorem Laid.behind_comment (hw : Spells .comment w t)
    (h : Laid .source (offset + w.length) tokens t) : Laid .source offset tokens (w ++ t) := by
  refine h.behind fun gap rest ht hgap => ?_
  rw [ht] at hw
  exact hgap.comment hw rfl

/-- A token may stand right at the front. -/
theorem Laid.cons (token : Token) (hne : token.text ≠ [])
    (hoffset : token.offset = mode.offsetAt offset)
    (h : Laid mode (offset + token.text.length) tokens t) :
    Laid mode offset (token :: tokens) (token.text ++ t) := by
  have hgap : Gap mode [] (token.text ++ t) := by
    cases mode with
    | pattern => simp [Gap]
    | source => exact .nil
  exact .token hgap rfl hne hoffset h

end Laid

/-! ### Reading a text -/

/-- The tokens of a pattern are laid out in it. -/
theorem laid_pattern (ls : List Lexeme) : (∀ l ∈ ls, Written l) → ∀ (offset : Nat) (depth : Int),
    Laid .pattern offset (tokens .pattern offset depth ls) (textOf ls) := by
  induction ls with
  | nil =>
    intro _ offset depth
    exact .last (by simp [Gap])
  | cons l ls ih =>
    intro hwritten offset depth
    have hl := hwritten l (by simp)
    have hrest := ih (fun k hk => hwritten k (by simp [hk])) (offset + l.text.length)
      (depth + l.lift)
    cases l with
    | blank run =>
      cases hl with
      | blank _ hrun => exact hrest.behind_blanks hrun
    | token kind x => exact hrest.cons ⟨kind, x, depth, none⟩ hl.text_ne_nil rfl

/-- The tokens of a source text are laid out in it. -/
theorem laid_source (t : Text) : ∀ (offset : Nat) (depth : Int),
    Laid .source offset (tokens .source offset depth (units .source t)) t := by
  induction t using text_induction with
  | nil =>
    intro offset depth
    rw [units_nil]
    exact .last .nil
  | blank c cs hc ih =>
    intro offset depth
    rw [units_blank _ hc]
    exact (ih (offset + 1) (depth + 0)).behind_blanks (w := [c]) (by simpa using hc)
  | token kind x rest hx ih =>
    intro offset depth
    rw [units_spells hx]
    by_cases hkind : kind = .comment
    · subst hkind
      rw [tokens_source_comment]
      exact (ih _ _).behind_comment hx
    · rw [tokens_source_cons hkind]
      exact (ih _ _).cons ⟨kind, x, depth, some offset⟩ hx.ne_nil rfl

theorem kind_ne_comment {ls : List Lexeme} {token : Token} : ∀ {offset : Nat} {depth : Int},
    token ∈ tokens .source offset depth ls → token.kind ≠ .comment := by
  induction ls with
  | nil =>
    intro offset depth h
    simp [tokens] at h
  | cons l ls ih =>
    intro offset depth h
    rcases List.mem_append.mp h with h | h
    · cases l with
      | blank run => simp [token?] at h
      | token kind x =>
        by_cases hkind : kind = .comment
        · simp [token?, hkind] at h
        · obtain rfl : token = _ := by simpa [token?, hkind] using h
          exact hkind
    · exact ih h

/-- Source text has no markers and no pieces of literals, and its comments make no
tokens. -/
theorem kind_of_mem_tokens {t : Text} {token : Token} {offset : Nat} {depth : Int}
    (h : token ∈ tokens .source offset depth (units .source t)) :
    token.kind ∉ [Kind.wildcard, .inserter, .folder, .stringFragment, .comment] := by
  have hplain : token.kind.isPlain = true := isPlain_of_mem_units (mem_of_mem_tokens h)
  have hcomment : token.kind ≠ .comment := kind_ne_comment h
  cases hk : token.kind <;> simp_all [Kind.isPlain, Kind.marker]

/-- A text is read to its end and no further.  It consists of the texts of the tokens, in
order, and of gaps between them, and source tokens have the offsets and kinds that
source text has. -/
theorem ofText_covers (mode : Mode) (t : Text) :
    (Reading.ofText mode t).past = false
      ∧ textOf (scan mode (.whole t)).lexemes = t
      ∧ Laid mode 0 (Reading.ofText mode t).tokens t
      ∧ (mode = .source → ∀ token ∈ (Reading.ofText mode t).tokens,
          token.kind ∉ [Kind.wildcard, .inserter, .folder, .stringFragment, .comment]) := by
  refine ⟨?_, textOf_lexemes mode t, ?_, ?_⟩
  · rw [ofText_eq]
    exact past_scanFrom t
  · rw [ofText_eq]
    cases mode with
    | source => exact laid_source t 0 0
    | pattern =>
      have hlaid := laid_pattern (lexemes .pattern t) (fun _ => written_of_mem_lexemes) 0 0
      rw [textOf_lexemes, ← tokens_units] at hlaid
      exact hlaid
  · rintro rfl token htoken
    rw [ofText_eq] at htoken
    exact kind_of_mem_tokens htoken

end Graft
