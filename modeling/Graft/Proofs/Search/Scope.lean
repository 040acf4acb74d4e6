/-
Wildcards stay in their scope.

Depths follow the braces: from one token of a text to the next the depth changes by what
the first of them opens or closes (`Nested`).  Once a pattern token has taken a source
token, source and pattern go up and down together, so that wherever the search stands the
next source token is as much deeper than the next pattern token as it was there
(`Level`).  A wildcard lands before anything closes the scope that it stands in, so
nothing that it skips lies outside:

* `Spelt.lift_eq` — the texts of tokens tell the braces;
* `Moves.level`, `Passes.level` — source and pattern stay level;
* `depth_ge_of_open` — tokens in front of which no scope is closed;
* `search_in_scope` — what a wildcard skips.
-/
import Graft.Proofs.Lexing.Depth
import Graft.Proofs.Lexing.Written
import Graft.Proofs.Search.Path

namespace Graft

namespace Search

open Lexeme

/-- The token may stand as it is in source text. -/
def Spelt (token : Token) : Prop := ∃ rest, Spells token.kind token.text rest

/-! ### Braces -/

theorem lift_of_kind_ne {token : Token} (h : token.kind ≠ .bracket) : token.lift = 0 := by
  unfold Token.lift Lexeme.lift
  split <;> simp_all

theorem lift_of_isMeta {token : Token} (h : token.isMeta = true) : token.lift = 0 := by
  refine lift_of_kind_ne fun hkind => ?_
  simp [Token.isMeta, Kind.isMeta, hkind] at h

/-- Only a closing brace leads out of a scope. -/
theorem lift_cases (token : Token) :
    0 ≤ token.lift ∨ token.lift = -1 ∧ token.kind = .bracket ∧ token.text = ['\x7d'] := by
  unfold Token.lift Lexeme.lift
  split <;> simp_all

/-- The text of a token tells whether it is a brace. -/
theorem Spelt.lift_eq_ite {token : Token} (h : Spelt token) :
    token.lift = if token.text = ['\x7b'] then 1 else if token.text = ['\x7d'] then -1 else 0 := by
  obtain ⟨kind, x, depth, offset⟩ := token
  obtain ⟨rest, h⟩ := h
  dsimp only at h ⊢
  -- apart from single characters nothing is spelt as a brace is
  have hother : kind ≠ .bracket → x ≠ ['\x7b'] → x ≠ ['\x7d'] → Token.lift ⟨kind, x, depth, offset⟩
      = if x = ['\x7b'] then 1 else if x = ['\x7d'] then -1 else 0 := by
    intro hkind hopen hclose
    rw [if_neg hopen, if_neg hclose]
    exact lift_of_kind_ne hkind
  cases h with
  | literal hc | openLiteral hc | identifier hc | number hc =>
    -- these start with a character of a class that no brace is in
    refine hother (by simp) ?_ ?_
    · rintro ⟨⟩
      exact absurd hc (by decide)
    · rintro ⟨⟩
      exact absurd hc (by decide)
  | directive | lineComment | blockComment | openComment | operator =>
    exact hother (by simp) (by simp) (by simp)
  | @single c =>
    by_cases hopen : c = '\x7b'
    · subst hopen
      rfl
    · by_cases hclose : c = '\x7d'
      · subst hclose
        rfl
      · have hopens : [c] ≠ ['\x7b'] := by simpa using hopen
        have hcloses : [c] ≠ ['\x7d'] := by simpa using hclose
        rw [if_neg hopens, if_neg hcloses]
        unfold Token.lift Lexeme.lift
        split <;> simp_all

theorem Spelt.lift_eq {a b : Token} (ha : Spelt a) (hb : Spelt b) (htext : a.text = b.text) :
    a.lift = b.lift := by
  rw [ha.lift_eq_ite, hb.lift_eq_ite, htext]

/-! ### Source and pattern -/

/-- Tokens as they are read: nested, and spelt unless they are markers, comments or pieces
of literals. -/
structure Lexed (tokens : List Token) : Prop where
  nested : Nested tokens
  spelt : ∀ token ∈ tokens, token.isMeta = false → token.kind ≠ .stringFragment → Spelt token

theorem Lexed.tail {token : Token} {tokens : List Token} (h : Lexed (token :: tokens)) :
    Lexed tokens :=
  ⟨h.nested.tail, fun t ht => h.spelt t (by simp [ht])⟩

theorem lexed_pattern (snippet : Text) : Lexed (Pattern.ofText snippet).tokens := by
  rw [Pattern.ofText, levelled_ofText]
  refine ⟨nested_tokens _ _ _ _, fun token htoken hmeta hkind => ?_⟩
  have hwritten := written_of_mem_lexemes (mem_units.mp (mem_of_mem_tokens htoken))
  refine hwritten.spells ?_ hkind
  cases hk : token.kind <;> simp_all [Kind.marker, Token.isMeta, Kind.isMeta]

theorem spelt_builtinTokens {t : Text} {token : Token} (h : token ∈ builtinTokens t) :
    Spelt token := by
  rw [builtinTokens_eq] at h
  obtain ⟨xs, ys, hunits⟩ := List.append_of_mem (mem_of_mem_tokens h)
  exact ⟨_, spells_of_units hunits⟩

/-- The shift is known, and the next source token is that much deeper than the next pattern
token. -/
def Level (source ahead : List Token) (s : Standing) : Prop :=
  ∃ shift, s.shift = some shift ∧ ∀ candidate token, source[s.index]? = some candidate →
    ahead.head? = some token → candidate.depth = token.depth + shift

/-- What a wildcard has to reach lies as deep as the wildcard does. -/
theorem depth_nextTarget {target : Token} {tokens : List Token} : ∀ {token : Token},
    token.isMeta = true → Nested (token :: tokens) → nextTarget? tokens = some target →
      target.depth = token.depth := by
  induction tokens with
  | nil =>
    intro token _ _ h
    simp [nextTarget?] at h
  | cons next tokens ih =>
    intro token hmeta hnested h
    have hnext : next.depth = token.depth := by
      rw [hnested.head rfl, lift_of_isMeta hmeta, Int.add_zero]
    by_cases hn : next.isMeta = true
    · rw [nextTarget?, List.find?_cons_of_neg (by simp [hn])] at h
      rw [ih hn hnested.tail h, hnext]
    · rw [nextTarget?, List.find?_cons_of_pos (by simpa using hn)] at h
      rw [← Option.some.inj h, hnext]

section Moves

variable {source : List Token} {length : Int} {token : Token} {tokens : List Token}
  {s s' : Standing}

/-- A pattern token behind which source and pattern are as level as in front of it. -/
theorem Level.next {shift : Int} (hpattern : Nested (token :: tokens)) (hlift : token.lift = 0)
    (hshift : s.shift = some shift)
    (h : ∀ candidate, source[s.index]? = some candidate → candidate.depth = token.depth + shift) :
    Level source tokens s := by
  refine ⟨shift, hshift, fun candidate next hget hnext => ?_⟩
  rw [h candidate hget, hpattern.head hnext, hlift, Int.add_zero]

/-- Markers, comments and wildcards keep source and pattern level. -/
theorem Moves.level_of_isMeta (hpattern : Lexed (token :: tokens))
    (hmeta : token.isMeta = true) (h : Moves source length token tokens s s')
    (hs : Level source (token :: tokens) s) : Level source tokens s' := by
  obtain ⟨shift, hshift, hdepth⟩ := hs
  have hlift := lift_of_isMeta hmeta
  have hhere : ∀ candidate, source[s.index]? = some candidate →
      candidate.depth = token.depth + shift := fun candidate hget => hdepth candidate token hget rfl
  cases h with
  | comment | inserter | folder => exact Level.next hpattern.nested hlift hshift hhere
  | trailing hk h0 ht =>
    refine Level.next hpattern.nested hlift hshift fun candidate hget => ?_
    simp at hget
  | wildcard hk h0 ht hl =>
    refine Level.next hpattern.nested hlift hshift fun candidate hget => ?_
    -- where the wildcard lands its target comes next
    obtain ⟨landed, hlanded, -, hfits⟩ := hl.lands
    obtain rfl := Option.some.inj (hlanded.symm.trans hget)
    rw [hfits shift hshift, depth_nextTarget hmeta hpattern.nested ht]
  | fragment hk ht => simp [Token.isMeta, Kind.isMeta, hk] at hmeta
  | literal hm hk ht => simp [hm] at hmeta

/-- A token that takes what stands in front of it makes source and pattern level. -/
theorem Moves.level_of_not_isMeta (hnested : Nested source) (hspelt : ∀ t ∈ source, Spelt t)
    (hpattern : Lexed (token :: tokens)) (hmeta : token.isMeta = false)
    (h : Moves source length token tokens s s')
    (hs : s.taken = 0 ∨ Level source (token :: tokens) s) : Level source tokens s' := by
  cases h with
  | comment hk | inserter hk | folder hk | trailing hk | wildcard hk =>
    simp [Token.isMeta, Kind.isMeta, hk] at hmeta
  | fragment hk ht =>
    obtain ⟨candidate, shift?, hget, hkind, -, hshift, rfl⟩ := ht
    have hlift : token.lift = 0 := lift_of_kind_ne (by simp [hk])
    have hlift' : candidate.lift = 0 := lift_of_kind_ne (by simp [hkind])
    obtain ⟨shift, rfl, hdepth⟩ : ∃ shift, shift? = some shift
        ∧ candidate.depth = token.depth + shift := by
      rw [FragmentShift] at hshift
      split at hshift
      · obtain ⟨d, hagree, rfl⟩ := hshift
        exact ⟨d, rfl, hagree.1⟩
      · -- inside a literal the depths were compared before
        rename_i htaken
        obtain ⟨d, hd, hlevel⟩ := hs.resolve_left htaken
        exact ⟨d, hshift.trans hd, hlevel candidate token hget rfl⟩
    rw [Standing.behind]
    split
    · refine Level.next hpattern.nested hlift rfl fun next hnext => ?_
      rw [hnested _ candidate next hget hnext, hlift', Int.add_zero, hdepth]
    · refine Level.next hpattern.nested hlift rfl fun next hnext => ?_
      obtain rfl := Option.some.inj (hget.symm.trans hnext)
      exact hdepth
  | literal hm hk ht =>
    obtain ⟨candidate, shift, hget, h0, htext, hagree, rfl⟩ := ht
    refine ⟨shift, rfl, fun next next' hnext hnext' => ?_⟩
    have hlift : candidate.lift = token.lift :=
      (hspelt candidate (List.mem_of_getElem? hget)).lift_eq (hpattern.spelt token (by simp) hm hk)
        htext
    rw [hnested _ candidate next hget hnext, hpattern.nested.head hnext', hagree.1, hlift]
    omega

theorem Moves.level (hnested : Nested source) (hspelt : ∀ t ∈ source, Spelt t)
    (hpattern : Lexed (token :: tokens)) (h : Moves source length token tokens s s')
    (hs : Level source (token :: tokens) s) : Level source tokens s' := by
  cases hmeta : token.isMeta with
  | true => exact h.level_of_isMeta hpattern hmeta hs
  | false => exact h.level_of_not_isMeta hnested hspelt hpattern hmeta (.inr hs)

/-- In front of the first token that takes something no part of a literal is taken. -/
theorem Moves.taken_or_level (hnested : Nested source) (hspelt : ∀ t ∈ source, Spelt t)
    (hpattern : Lexed (token :: tokens)) (h : Moves source length token tokens s s')
    (hs : s.taken = 0 ∨ Level source (token :: tokens) s) :
    s'.taken = 0 ∨ Level source tokens s' := by
  cases hmeta : token.isMeta with
  | false => exact .inr (h.level_of_not_isMeta hnested hspelt hpattern hmeta hs)
  | true =>
    refine hs.imp (fun h0 => ?_) (h.level_of_isMeta hpattern hmeta)
    cases h with
    | fragment hk ht => simp [Token.isMeta, Kind.isMeta, hk] at hmeta
    | literal hm hk ht => simp [hm] at hmeta
    | _ => exact h0

/-- Behind a token that took something source and pattern are level. -/
theorem Passes.level {before after : List Token} (hnested : Nested source)
    (hspelt : ∀ t ∈ source, Spelt t) (hpattern : Lexed (before ++ after))
    (h : Passes source length after before s s') (hs : s.taken = 0)
    (hsome : ∃ t ∈ before, t.isMeta = false) : Level source after s' := by
  obtain ⟨token, htoken, hmeta⟩ := hsome
  obtain ⟨front, back, rfl⟩ := List.append_of_mem htoken
  obtain ⟨s₁, hfront, hback⟩ := passes_append h
  rw [List.append_assoc] at hpattern
  obtain ⟨hpattern₁, hs₁⟩ := hfront.preserves
    (P := fun ahead s => Lexed ahead ∧ (s.taken = 0 ∨ Level source ahead s))
    (fun hmove hs => ⟨hs.1.tail, hmove.taken_or_level hnested hspelt hs.1 hs.2⟩)
    ⟨hpattern, .inl hs⟩
  cases hback with
  | cons hmove hback =>
    have hs₂ := hmove.level_of_not_isMeta hnested hspelt hpattern₁ hmeta hs₁
    exact (hback.preserves (P := fun ahead s => Lexed ahead ∧ Level source ahead s)
      (fun hmove hs => ⟨hs.1.tail, hmove.level hnested hspelt hs.1 hs.2⟩)
      ⟨hpattern₁.tail, hs₂⟩).2

end Moves

/-! ### Scopes -/

/-- As long as no scope is closed the tokens stay as deep as the first one. -/
theorem depth_ge_of_open {source : List Token} (hnested : Nested source) {depth : Int}
    {start stop : Nat}
    (hstart : ∀ token, source[start]? = some token → depth ≤ token.depth)
    (hopen : ∀ i token, start ≤ i → i < stop → source[i]? = some token → ¬ Closes depth token) :
    ∀ i token, start ≤ i → i ≤ stop → source[i]? = some token → depth ≤ token.depth := by
  intro i
  induction i with
  | zero =>
    intro token hle _ hget
    obtain rfl : start = 0 := by omega
    exact hstart token hget
  | succ i ih =>
    intro token hle hstop hget
    rcases Nat.eq_or_lt_of_le hle with rfl | hlt
    · exact hstart token hget
    · obtain ⟨hi, -⟩ := List.getElem?_eq_some_iff.mp hget
      have hprevious : source[i]? = some source[i] := List.getElem?_eq_getElem (by omega)
      have hge := ih _ (by omega) (by omega) hprevious
      rw [hnested i _ token hprevious hget]
      rcases lift_cases source[i] with hlift | ⟨hlift, hkind, htext⟩
      · omega
      · -- a brace that closes a scope at this depth is not skipped
        have hne : source[i].depth ≠ depth := fun hdepth =>
          hopen i _ (by omega) (by omega) hprevious ⟨by simp [hkind], htext, hdepth⟩
        omega

theorem nextTarget?_ne_none {tokens : List Token} (h : ∃ token ∈ tokens, token.isMeta = false) :
    nextTarget? tokens ≠ none := by
  obtain ⟨token, htoken, hmeta⟩ := h
  intro hnone
  have hall := List.find?_eq_none.mp hnone token htoken
  simp [hmeta] at hall

/-- What a wildcard skips, and where it lands, is no less deep than the wildcard. -/
theorem Moves.in_scope {source : List Token} {length : Int} {wildcard : Token} {after : List Token}
    {s s' : Standing} (hnested : Nested source) (hk : wildcard.kind = .wildcard)
    (hafter : ∃ token ∈ after, token.isMeta = false)
    (h : Moves source length wildcard after s s') (hs : Level source (wildcard :: after) s) :
    ∃ shift, s.shift = some shift ∧ s.index ≤ s'.index
      ∧ ∀ i token, s.index ≤ i → i ≤ s'.index → source[i]? = some token →
        wildcard.depth + shift ≤ token.depth := by
  obtain ⟨shift, hshift, hdepth⟩ := hs
  cases h with
  | wildcard _ h0 ht hl =>
    refine ⟨shift, hshift, hl.ahead, ?_⟩
    refine depth_ge_of_open hnested (fun token hget => ?_) (hl.within shift hshift)
    exact Int.le_of_eq (hdepth token wildcard hget rfl).symm
  | trailing _ _ ht => exact absurd ht (nextTarget?_ne_none hafter)
  | comment h | inserter h | folder h | fragment h => simp [hk] at h
  | literal hm => simp [Token.isMeta, Kind.isMeta, hk] at hm

/-- A wildcard between two tokens that take something is met where the shift is known, and
on the way on which the search succeeds, as on any other, nothing from where it is met up
to where it lands lies outside of its scope. -/
theorem search_in_scope {settings : Settings} {source snippet : Text} {ceiling : Int}
    {effort : Effort} {marks : Marks} {before after : List Token} {wildcard : Token}
    (h : (search source.length ceiling (Pattern.ofText snippet).tokens
      (start settings (builtinTokens source)) effort).1 = .found marks)
    (hsplit : (Pattern.ofText snippet).tokens = before ++ wildcard :: after)
    (hk : wildcard.kind = .wildcard) (hbefore : ∃ token ∈ before, token.isMeta = false)
    (hafter : ∃ token ∈ after, token.isMeta = false) :
    (∃ s s' spent,
        Passes (builtinTokens source) source.length (wildcard :: after) before (.start settings) s
          ∧ Moves (builtinTokens source) source.length wildcard after s s'
          ∧ (search source.length ceiling after (s'.cursor (builtinTokens source)) spent).1
            = .found marks)
      ∧ ∀ s s',
        Passes (builtinTokens source) source.length (wildcard :: after) before (.start settings) s →
        Moves (builtinTokens source) source.length wildcard after s s' →
        ∃ shift, s.shift = some shift ∧ s.index ≤ s'.index
          ∧ ∀ i token, s.index ≤ i → i ≤ s'.index → (builtinTokens source)[i]? = some token →
            wildcard.depth + shift ≤ token.depth := by
  constructor
  · rw [hsplit] at h
    obtain ⟨s, spent, hpasses, h⟩ := search_passes (s := .start settings) h
    obtain ⟨s', spent', hmove, h⟩ := search_moves h
    exact ⟨s, s', spent', hpasses, hmove, h⟩
  · intro s s' hpasses hmove
    have hpattern := lexed_pattern snippet
    rw [hsplit] at hpattern
    have hlevel := hpasses.level (nested_builtinTokens source) (fun _ => spelt_builtinTokens)
      hpattern rfl hbefore
    exact hmove.in_scope (nested_builtinTokens source) hk hafter hlevel

/-- The text `m { f { a { b } c } }`. -/
def blockSource : Text := "m \x7b f \x7b a \x7b b \x7d c \x7d \x7d".toList

/-- The snippet `... f { ... >>> c`.  Its second wildcard has a block to skip, and stands one
deeper in the text than in the snippet. -/
def blockSnippet : Text := "... f \x7b ... >>> c".toList

theorem search_in_scope_block :
    (search blockSource.length 100 (Pattern.ofText blockSnippet).tokens
        (start { relativeDepth := .bool true } (builtinTokens blockSource)) {}).1
        = .found ⟨some 16, none⟩
      ∧ ∃ s s' : Standing, ∃ shift, s.shift = some shift ∧ s.index ≤ s'.index
        ∧ ∀ i token, s.index ≤ i → i ≤ s'.index → (builtinTokens blockSource)[i]? = some token →
          1 + shift ≤ token.depth := by
  have hfound : (search blockSource.length 100 (Pattern.ofText blockSnippet).tokens
      (start { relativeDepth := .bool true } (builtinTokens blockSource)) {}).1
        = .found ⟨some 16, none⟩ := by decide +kernel
  have hsplit : (Pattern.ofText blockSnippet).tokens
      = [⟨.wildcard, ['.', '.', '.'], 0, none⟩, ⟨.identifier, ['f'], 0, none⟩,
          ⟨.bracket, ['\x7b'], 0, none⟩]
        ++ ⟨.wildcard, ['.', '.', '.'], 1, none⟩
          :: [⟨.inserter, ['>', '>', '>'], 1, none⟩, ⟨.identifier, ['c'], 1, none⟩] := by
    decide +kernel
  obtain ⟨⟨s, s', spent, hpasses, hmove, -⟩, hscope⟩ :=
    search_in_scope hfound hsplit rfl (by simp [Token.isMeta, Kind.isMeta])
      (by simp [Token.isMeta, Kind.isMeta])
  exact ⟨hfound, s, s', hscope s s' hpasses hmove⟩

end Search

end Graft
