/-
Patterns that mirror the source.

A pattern made of source text has a token for each source token, at the same depth, and
tokens for comments besides.  Where the two stand side by side, a search takes one after
the other and never looks back:

* `search_mirror` — a stretch of the pattern against the same stretch of the source;
* `search_framed` — three such stretches with the markers between them.
-/
import Graft.Proofs.Lexing.Depth
import Graft.Search.Basic

namespace Graft

open Lexeme

namespace Search

variable {length ceiling : Int} {marks : Marks}

theorem not_exceeds {effort : Effort} (h : (effort.steps : Int) + 1 ≤ ceiling) :
    effort.visit.exceeds ceiling = false := by
  rw [Effort.exceeds, decide_eq_false_iff_not]
  show ¬ ceiling < ((effort.steps + 1 : Nat) : Int)
  omega

/-- A comment is visited and nothing else happens. -/
theorem search_comment {token : Token} {tokens : List Token} {cursor : Cursor} {effort : Effort}
    (hkind : token.kind = .comment) (heffort : effort.visit.exceeds ceiling = false) :
    search length ceiling (token :: tokens) cursor effort
      = search length ceiling tokens cursor effort.visit := by
  rw [search, if_neg (by simp [heffort]), hkind]

theorem search_inserter {token : Token} {tokens : List Token} {cursor : Cursor} {effort : Effort}
    (hkind : token.kind = .inserter) (heffort : effort.visit.exceeds ceiling = false) :
    search length ceiling (token :: tokens) cursor effort
      = search length ceiling tokens (cursor.markInsertion length) effort.visit := by
  rw [search, if_neg (by simp [heffort]), hkind]

theorem search_folder {token : Token} {tokens : List Token} {cursor : Cursor} {effort : Effort}
    (hkind : token.kind = .folder) (heffort : effort.visit.exceeds ceiling = false) :
    search length ceiling (token :: tokens) cursor effort
      = search length ceiling tokens (cursor.markDeletion length) effort.visit := by
  rw [search, if_neg (by simp [heffort]), hkind]

/-- A token is taken that is the next of the source. -/
theorem search_literal {token candidate : Token} {tokens rest : List Token} {effort : Effort}
    (hkind : token.kind.isPlain = true) (hcomment : token.kind ≠ .comment)
    (htext : candidate.text = token.text) (hdepth : candidate.depth = token.depth)
    (heffort : effort.visit.exceeds ceiling = false) :
    search length ceiling (token :: tokens) ⟨candidate :: rest, 0, marks, some 0⟩ effort
      = search length ceiling tokens ⟨rest, 0, marks, some 0⟩ effort.visit := by
  have htake : Cursor.takeLiteral? ⟨candidate :: rest, 0, marks, some 0⟩ token
      = some ⟨rest, 0, marks, some 0⟩ := by
    simp [Cursor.takeLiteral?, htext, agree?, hdepth]
  rw [search, if_neg (by simp [heffort])]
  cases hk : token.kind with
  | wildcard | inserter | folder | stringFragment | comment => simp_all [Kind.isPlain, Kind.marker]
  | _ => simp only [htake]

/-- A stretch of the pattern is taken against the same stretch of the source. -/
theorem search_mirror {more rest : List Token} (us : List Lexeme) :
    ∀ (offset offset' : Nat) (depth : Int) (effort : Effort),
      (∀ l ∈ us, l.isPlain = true) →
      (effort.steps : Int) + (tokens .pattern offset depth us).length ≤ ceiling →
      search length ceiling (tokens .pattern offset depth us ++ more)
          ⟨tokens .source offset' depth us ++ rest, 0, marks, some 0⟩ effort
        = search length ceiling more ⟨rest, 0, marks, some 0⟩
          ⟨effort.steps + (tokens .pattern offset depth us).length, effort.branches⟩ := by
  induction us with
  | nil => exact fun _ _ _ _ _ _ => rfl
  | cons l us ih =>
    intro offset offset' depth effort hplain hsteps
    have hrest : ∀ l ∈ us, l.isPlain = true := fun l hl => hplain l (by simp [hl])
    cases l with
    | blank run => exact ih _ _ _ effort hrest hsteps
    | token kind x =>
      have hkind : kind.isPlain = true := hplain _ List.mem_cons_self
      rw [tokens_pattern_cons] at hsteps ⊢
      rw [List.length_cons] at hsteps ⊢
      have heffort : effort.visit.exceeds ceiling = false := not_exceeds (by omega)
      have htail := ih (offset + x.length) (offset' + x.length) (depth + (token kind x).lift)
        effort.visit hrest (by simp only [Effort.visit]; omega)
      have hvisit : effort.visit.steps
          + (tokens .pattern (offset + x.length) (depth + (token kind x).lift) us).length
            = effort.steps + ((tokens .pattern (offset + x.length)
              (depth + (token kind x).lift) us).length + 1) := by
        simp only [Effort.visit]
        omega
      rw [hvisit] at htail
      by_cases hcomment : kind = .comment
      · -- a comment is a token of the pattern alone
        subst hcomment
        rw [tokens_source_comment, List.cons_append, search_comment rfl heffort]
        exact htail
      · rw [tokens_source_cons hcomment, List.cons_append, List.cons_append]
        refine Eq.trans ?_ htail
        exact search_literal hkind hcomment rfl rfl heffort

/-- The source offset of the first of the tokens, the end of the text behind the last. -/
def offsetOf (length : Int) (rest : List Token) : Int := Cursor.offset length ⟨rest, 0, {}, some 0⟩

theorem markInsertion_front (rest : List Token) : Cursor.markInsertion length
    ⟨rest, 0, marks, some 0⟩
      = ⟨rest, 0, ⟨some (offsetOf length rest), marks.deletion⟩, some 0⟩ := rfl

theorem markDeletion_front (rest : List Token) : Cursor.markDeletion length
    ⟨rest, 0, marks, some 0⟩
      = ⟨rest, 0, ⟨marks.insertion, some (offsetOf length rest)⟩, some 0⟩ := rfl

/-- The last stretch of a pattern is found with what the markers recorded. -/
theorem search_mirror_last {us : List Lexeme} {offset offset' : Nat} {depth : Int} {effort : Effort}
    (hplain : ∀ l ∈ us, l.isPlain = true)
    (hsteps : (effort.steps : Int) + (tokens .pattern offset depth us).length ≤ ceiling) :
    (search length ceiling (tokens .pattern offset depth us)
      ⟨tokens .source offset' depth us, 0, marks, some 0⟩ effort).1 = .found marks := by
  have h := @search_mirror length ceiling marks [] [] us offset offset' depth effort hplain hsteps
  rw [List.append_nil, List.append_nil] at h
  rw [h]
  rfl

/-- Three stretches of the source, the middle one between the two markers, are found
where they stand. -/
theorem search_framed {us₁ us₂ us₃ : List Lexeme} {o₁ o₂ o₃ p₁ p₂ p₃ : Nat} {d₁ d₂ d₃ : Int}
    {inserter folder : Token} (hinserter : inserter.kind = .inserter)
    (hfolder : folder.kind = .folder)
    (hplain₁ : ∀ l ∈ us₁, l.isPlain = true)
    (hplain₂ : ∀ l ∈ us₂, l.isPlain = true)
    (hplain₃ : ∀ l ∈ us₃, l.isPlain = true)
    (hsteps : ((tokens .pattern p₁ d₁ us₁).length : Int) + (tokens .pattern p₂ d₂ us₂).length
      + (tokens .pattern p₃ d₃ us₃).length + 2 ≤ ceiling) :
    (search length ceiling
        (tokens .pattern p₁ d₁ us₁
          ++ inserter :: (tokens .pattern p₂ d₂ us₂ ++ folder :: tokens .pattern p₃ d₃ us₃))
        ⟨tokens .source o₁ d₁ us₁ ++ (tokens .source o₂ d₂ us₂ ++ tokens .source o₃ d₃ us₃), 0, {},
          some 0⟩ {}).1
      = .found ⟨some (offsetOf length (tokens .source o₂ d₂ us₂ ++ tokens .source o₃ d₃ us₃)),
        some (offsetOf length (tokens .source o₃ d₃ us₃))⟩ := by
  rw [search_mirror us₁ p₁ o₁ d₁ {} hplain₁ (by simp only; omega),
    search_inserter hinserter (not_exceeds (by simp only; omega)), markInsertion_front,
    search_mirror us₂ p₂ o₂ d₂ _ hplain₂ (by simp only [Effort.visit]; omega),
    search_folder hfolder (not_exceeds (by simp only [Effort.visit]; omega)), markDeletion_front]
  exact search_mirror_last hplain₃ (by simp only [Effort.visit]; omega)

/-! ### The whole search -/

/-- A token that is no comment occurs in the source where its text does. -/
theorem exists_source_token {ls : List Lexeme} {kind : Kind} {x : Text} (hkind : kind ≠ .comment)
    (h : Lexeme.token kind x ∈ ls) : ∀ (offset : Nat) (depth : Int),
      ∃ t ∈ tokens .source offset depth ls, t.text = x := by
  induction ls with
  | nil => simp at h
  | cons l ls ih =>
    intro offset depth
    rcases List.mem_cons.mp h with rfl | h
    · exact ⟨_, by rw [tokens_source_cons hkind]; exact List.mem_cons_self, rfl⟩
    · obtain ⟨t, ht, hx⟩ := ih h (offset + l.text.length) (depth + l.lift)
      exact ⟨t, List.mem_append_right _ ht, hx⟩

/-- Without wildcards a search is not spared, and none is too many. -/
theorem find_of_search {source : List Token} {pattern : Pattern} {effort : Effort} {insertion : Int}
    {deletion : Option Int} (hwildcard : ∀ token ∈ pattern.tokens, token.kind ≠ .wildcard)
    (habsent : absent? source pattern = none)
    (hsearch : (search length ({} : Settings).maxSteps.bound pattern.tokens
      ⟨source, 0, {}, some 0⟩ effort).1 = .found ⟨some insertion, deletion⟩) :
    (find {} source length pattern effort).1 = .ok ⟨insertion, deletion⟩ := by
  have hkinds : Kind.wildcard ∉ pattern.kinds := by
    intro h
    obtain ⟨token, htoken, hkind⟩ := List.mem_map.mp h
    exact hwildcard token htoken hkind
  -- the shapes that are not searched for have wildcards
  have hall : pattern.isReplaceAll = false := by
    refine Bool.eq_false_iff.mpr fun h => hkinds ?_
    rw [beq_iff_eq.mp h]
    decide
  have happ : pattern.isAppend = false := by
    refine Bool.eq_false_iff.mpr fun h => hkinds ?_
    rw [beq_iff_eq.mp h]
    decide
  have hcount : pattern.wildcardCount = 0 := List.count_eq_zero.mpr hkinds
  have hstart : start {} source = ⟨source, 0, {}, some 0⟩ := rfl
  simp only [find, hall, happ, hcount, habsent, Bool.false_eq_true, if_false]
  rw [if_neg (by decide), hstart]
  simp only [hsearch, Verdict.result]

end Search

end Graft
