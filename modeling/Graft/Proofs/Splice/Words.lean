/-
The words of a spliced text.

A block that is spliced into a text at the start of a token stands on lines of its own,
so no token runs from the text into the block or back.  The tokens of the result, by
kind and text, are those in front of the block, those of the block, and those behind it:

* `words_blockHead_append` — in front of the block;
* `words_reindent_append` — the block, whose indentation and line ends change;
* `exists_cut_at_token` — a text is cut where a token starts;
* `words_splice_block` — the whole.
-/
import Graft.Proofs.Lexing.Depth
import Graft.Proofs.Text.Lines

namespace Graft

/-- The tokens of a source text by kind and text. -/
def words (t : Text) : List (Kind × Text) :=
  (builtinTokens t).map fun token => (token.kind, token.text)

open Lexeme

/-! ### Words of units -/

/-- The word that a lexeme is, unless it is blank or a comment. -/
def Lexeme.word? : Lexeme → Option (Kind × Text)
  | blank _ => none
  | token kind x => if kind = .comment then none else some (kind, x)

theorem map_tokens_word (ls : List Lexeme) : ∀ (offset : Nat) (depth : Int),
    (tokens .source offset depth ls).map (fun token => (token.kind, token.text))
      = ls.filterMap word? := by
  induction ls with
  | nil => exact fun _ _ => rfl
  | cons l ls ih =>
    intro offset depth
    rw [tokens, List.map_append, ih]
    cases l with
    | blank run => rfl
    | token kind x =>
      by_cases hk : kind = .comment
      · simp [token?, word?, hk]
      · simp [token?, word?, hk]

theorem words_eq (t : Text) : words t = (units .source t).filterMap word? := by
  rw [words, builtinTokens_eq, map_tokens_word]

theorem words_append {a b : Text}
    (h : units .source (a ++ b) = units .source a ++ units .source b) :
    words (a ++ b) = words a ++ words b := by
  simp only [words_eq, h, List.filterMap_append]

@[simp] theorem words_nil : words [] = [] := by
  rw [words_eq, units_nil]
  rfl

theorem words_blank {c : Char} (hc : Text.isBlank c = true) (t : Text) :
    words (c :: t) = words t := by
  rw [words_eq, words_eq, units_blank _ hc]
  rfl

theorem words_blanks {w : Text} (hw : ∀ c ∈ w, Text.isBlank c = true) (t : Text) :
    words (w ++ t) = words t := by
  induction w with
  | nil => rfl
  | cons c w ih =>
    rw [List.cons_append, words_blank (hw c (by simp)), ih fun d hd => hw d (by simp [hd])]

/-- Blanks behind a text are no words. -/
theorem words_append_blanks {a w : Text}
    (h : units .source (a ++ w) = units .source a ++ units .source w)
    (hw : ∀ c ∈ w, Text.isBlank c = true) : words (a ++ w) = words a := by
  have hnone := words_blanks hw []
  rw [List.append_nil, words_nil] at hnone
  rw [words_append h, hnone, List.append_nil]

theorem words_spells {kind : Kind} {x rest : Text} (h : Spells kind x rest) :
    words (x ++ rest) = (word? (token kind x)).toList ++ words rest := by
  rw [words_eq, words_eq, units_spells h, List.filterMap_cons]
  cases word? (token kind x) <;> rfl

/-! ### In front of the block -/

/-- The blanks that go at the end of the text were no word, and leave nothing open. -/
theorem words_kept {a : Text} (ha : Closed a) :
    Closed (Splice.kept a) ∧ words (Splice.kept a) = words a := by
  rw [Splice.kept]
  split
  · rename_i hblank
    have hsplit := Text.withoutLastLine_append_lastLine a
    have hlast := Text.isAllBlank_iff.mp hblank
    rw [← hsplit] at ha
    have hunits := units_append_blanks ha (Text.endsLine_withoutLastLine a) hlast
    refine ⟨((closed_append hunits).mp ha).1, ?_⟩
    rw [← words_append_blanks hunits hlast, hsplit]
  · exact ⟨ha, rfl⟩

/-- The head ends its line, so what follows it has its own words. -/
theorem words_blockHead_append {a : Text} (ha : Closed a) (b : Text) :
    words (Splice.blockHead a.length a ++ b) = words a ++ words b := by
  obtain ⟨hkept, hwords⟩ := words_kept ha
  rw [Splice.blockHead, ← hwords]
  split
  · rw [List.append_assoc, List.singleton_append, words_append (units_append_newline hkept b),
      words_blank rfl]
  · rename_i hend
    refine words_append (units_append_of_newline hkept ?_ b)
    by_cases hnil : a = []
    · -- an empty text is kept as it is
      exact .inl (by rw [hnil]; rfl)
    · have hnewline : Text.endsWithNewline (Splice.kept a) = true := by simpa [hnil] using hend
      exact .inr (by simpa [Text.endsWithNewline] using hnewline)

/-! ### The block -/

/-- What reindenting leaves in front of the next token starts as it did, or with a
newline. -/
theorem head?_reindent (indent rest : Text) :
    (Text.reindent indent rest).head? = rest.head?
      ∨ (Text.reindent indent rest).head? = some '\n' := by
  fun_cases Text.reindent indent rest with
  | case1 => exact .inl rfl
  | case2 => exact .inr rfl
  | case3 => exact .inr rfl
  | case4 => exact .inl rfl

/-- A token that text follows is the same when that text is reindented. -/
theorem Lexeme.Spells.before_reindent {kind : Kind} {x rest : Text} (hx : Spells kind x rest)
    (hne : rest ≠ []) (indent z : Text) : Spells kind x (Text.reindent indent rest ++ z) := by
  have happend : ∀ {c}, (Text.reindent indent rest).head? = some c →
      (Text.reindent indent rest ++ z).head? = some c := by
    intro c hc
    rw [List.head?_append, hc]
    rfl
  rcases head?_reindent indent rest with hhead | hhead
  · obtain ⟨c, cs, rfl⟩ := List.exists_cons_of_ne_nil hne
    exact hx.congr_head (happend hhead)
  · obtain ⟨ds, hds⟩ := List.head?_eq_some_iff.mp (happend hhead)
    rw [hds]
    exact hx.before_newline hne ds

/-- Of the tokens that text follows only line comments end with a blank. -/
theorem Lexeme.Spells.isLineComment_of_getLast {kind : Kind} {x rest : Text} {c : Char}
    (hx : Spells kind x rest) (hne : rest ≠ []) (hlast : x.getLast? = some c)
    (hc : Text.isBlank c = true) : kind = .comment ∧ (token kind x).isLineComment = true := by
  obtain ⟨hliteral, hcomment⟩ := hx.closed_of_ne_nil hne
  have hline : (token kind x).isLineComment = true := by
    cases hline : (token kind x).isLineComment with
    | true => rfl
    | false =>
      rw [hx.getLast_not_blank hliteral hcomment hline _ hlast] at hc
      exact absurd hc (by decide)
  refine ⟨?_, hline⟩
  cases kind <;> first | rfl | simp [isLineComment] at hline

/-- Of a line comment only a carriage return at its end can go, and no comment is a
word. -/
theorem words_lineComment {x rest indent z : Text}
    (hx : Spells .comment (x ++ ['\r']) ('\n' :: rest))
    (hline : (token .comment (x ++ ['\r'])).isLineComment = true) :
    words (x ++ (Text.reindent indent ('\n' :: rest) ++ z))
      = words (Text.reindent indent ('\n' :: rest) ++ z) := by
  obtain ⟨cs, rfl, hcs⟩ : ∃ cs, x = '/' :: '/' :: cs ∧ '\n' ∉ cs := by
    have hnewline := hx.newline_not_mem hline
    match x, hline with
    | [], hline | [_], hline => simp [isLineComment] at hline
    | c :: d :: cs, hline =>
      have hslash : c = '/' ∧ d = '/' := by
        simp only [isLineComment, List.cons_append] at hline
        split at hline
        · simp_all
        · simp at hline
      obtain ⟨rfl, rfl⟩ := hslash
      exact ⟨cs, rfl, fun hn => hnewline (by simp [hn])⟩
  have hspelt : Spells .comment ('/' :: '/' :: cs) (Text.reindent indent ('\n' :: rest) ++ z) := by
    refine .lineComment hcs ?_
    rw [Text.reindent_newline]
    rintro y ⟨⟩
    rfl
  rw [words_spells hspelt]
  rfl

/-- Reindenting a block keeps its words, and the words behind it. -/
theorem words_reindent_append {indent : Text} (hindent : ∀ c ∈ indent, Text.isBlank c = true)
    (z : Text) (patch : Text) : Text.EndsLine patch →
      (∀ kind x, token kind x ∈ units .source patch → '\n' ∉ x) →
      words (Text.reindent indent patch ++ z) = words patch ++ words z := by
  induction patch using text_induction with
  | nil => simp [Text.reindent]
  | blank c cs hc ih =>
    intro hend hlines
    rw [units_blank _ hc] at hlines
    have hrest := ih (Text.EndsLine.right (a := [c]) hend)
      fun kind x hx => hlines kind x (by simp [hx])
    rw [words_blank hc, ← hrest]
    by_cases hnewline : c = '\n'
    · rw [hnewline, Text.reindent_newline, List.cons_append, List.append_assoc, words_blank rfl,
        words_blanks hindent]
    by_cases hreturn : c = '\r' ∧ cs.head? = some '\n'
    · obtain ⟨rfl, hhead⟩ := hreturn
      obtain ⟨ds, rfl⟩ : ∃ ds, cs = '\n' :: ds := List.head?_eq_some_iff.mp hhead
      rw [Text.reindent_return]
    · rw [Text.reindent_cons hnewline hreturn, List.cons_append, words_blank hc]
  | token kind x rest hx ih =>
    intro hend hlines
    rw [units_spells hx] at hlines
    have hnewline : '\n' ∉ x := hlines kind x (by simp)
    -- the block ends with a newline, so it goes on behind the token
    have hne : rest ≠ [] := by
      rintro rfl
      rw [List.append_nil] at hend
      rcases hend with hnil | hlast
      · exact hx.ne_nil hnil
      · exact hnewline (List.mem_of_getLast? hlast)
    have htail := ih hend.right fun kind x hx => hlines kind x (by simp [hx])
    rw [words_spells hx, List.append_assoc, ← htail]
    by_cases hreturn : x.getLast? = some '\r' ∧ rest.head? = some '\n'
    · -- the carriage return that goes ends a comment
      obtain ⟨hlast, hhead⟩ := hreturn
      obtain ⟨rfl, hline⟩ := hx.isLineComment_of_getLast hne hlast (by decide)
      obtain ⟨y, rfl⟩ := List.getLast?_eq_some_iff.mp hlast
      obtain ⟨ds, rfl⟩ : ∃ ds, rest = '\n' :: ds := List.head?_eq_some_iff.mp hhead
      have hy : Text.reindent indent (y ++ '\r' :: '\n' :: ds)
          = y ++ Text.reindent indent ('\n' :: ds) := by
        rw [Text.reindent_append (fun hn => hnewline (by simp [hn])) (by simp),
          Text.reindent_return]
      rw [List.append_assoc, List.singleton_append, hy, List.append_assoc,
        words_lineComment hx hline]
      rfl
    · rw [Text.reindent_append hnewline hreturn, List.append_assoc,
        words_spells (hx.before_reindent hne indent z)]

/-! ### Cutting where a token starts -/

/-- The token with index `k` starts at the offset; behind the last token it is the end
of the text. -/
def StartsAt (t : Text) (k : Nat) (offset : Int) : Prop :=
  (∃ token, (builtinTokens t)[k]? = some token ∧ token.offset = some offset)
    ∨ (k = (builtinTokens t).length ∧ offset = t.length)

theorem exists_split_of_getElem? (ls : List Lexeme) :
    ∀ {offset : Nat} {depth : Int} {k : Nat} {t : Token},
      (tokens .source offset depth ls)[k]? = some t →
      ∃ xs ys, ls = xs ++ ys ∧ t.offset = some ((offset + (textOf xs).length : Nat) : Int)
        ∧ (tokens .source offset depth xs).length = k := by
  induction ls with
  | nil =>
    intro offset depth k t h
    simp [tokens] at h
  | cons l ls ih =>
    intro offset depth k t h
    rw [tokens] at h
    -- a token that the lexemes behind `l` make, counted from `l` on
    have hlater : ∀ {j},
        (tokens .source (offset + l.text.length) (depth + l.lift) ls)[j]? = some t →
        ∃ xs ys, l :: ls = xs ++ ys ∧ t.offset = some ((offset + (textOf xs).length : Nat) : Int)
          ∧ (tokens .source offset depth xs).length
            = (token? .source offset depth l).toList.length + j := by
      intro j hj
      obtain ⟨xs, ys, rfl, hoffset, hlength⟩ := ih hj
      refine ⟨l :: xs, ys, rfl, ?_, by rw [tokens, List.length_append, hlength]⟩
      rw [hoffset, textOf_cons, List.length_append, Nat.add_assoc]
    cases hl : token? .source offset depth l with
    | none =>
      rw [hl, Option.toList_none, List.nil_append] at h
      obtain ⟨xs, ys, hls, hoffset, hlength⟩ := hlater h
      exact ⟨xs, ys, hls, hoffset, by simpa [hl] using hlength⟩
    | some first =>
      rw [hl, Option.toList_some, List.singleton_append] at h
      cases k with
      | zero =>
        obtain rfl : first = t := by simpa using h
        refine ⟨[], l :: ls, rfl, ?_, rfl⟩
        obtain ⟨kind, x, -, rfl⟩ := token?_source hl
        rfl
      | succ k =>
        obtain ⟨xs, ys, hls, hoffset, hlength⟩ := hlater (j := k) (by simpa using h)
        exact ⟨xs, ys, hls, hoffset, by rw [hlength, hl]; simp; omega⟩

/-- A text is cut where a token starts: the words in front of the cut and those behind
it. -/
theorem exists_cut_at_token {t : Text} {k : Nat} {offset : Int} (h : StartsAt t k offset) :
    ∃ a b, t = a ++ b ∧ offset = a.length
      ∧ units .source (a ++ b) = units .source a ++ units .source b
      ∧ (words a).length = k := by
  have hlength : ∀ s, (words s).length = (builtinTokens s).length := fun s => List.length_map _
  rcases h with ⟨first, hget, hoffset⟩ | ⟨rfl, rfl⟩
  · rw [builtinTokens_eq] at hget
    obtain ⟨xs, ys, hunits, hstart, hcount⟩ := exists_split_of_getElem? _ hget
    have htext : t = textOf xs ++ textOf ys := by rw [← textOf_append, ← hunits, textOf_units]
    obtain ⟨hxs, hys⟩ := units_cut hunits
    refine ⟨textOf xs, textOf ys, htext, ?_, by rw [← htext, hxs, hys, hunits], ?_⟩
    · rw [hoffset, Nat.zero_add] at hstart
      exact Option.some.inj hstart
    · rw [words_eq, hxs, ← map_tokens_word xs 0 (-lowest 0 (units .source t)), List.length_map,
        hcount]
  · exact ⟨t, [], by simp, rfl, by simp, hlength t⟩

/-- A longer part of a text has no fewer words. -/
theorem length_words_le {a b a' b' : Text} (htext : a ++ b = a' ++ b')
    (hcut : units .source (a ++ b) = units .source a ++ units .source b)
    (hcut' : units .source (a' ++ b') = units .source a' ++ units .source b')
    (hle : a'.length ≤ a.length) : (words a').length ≤ (words a).length := by
  have hunits : units .source a ++ units .source b = units .source a' ++ units .source b' := by
    rw [← hcut, htext, hcut']
  rw [words_eq, words_eq]
  rcases List.append_eq_append_iff.mp hunits with ⟨z, ha', -⟩ | ⟨z, ha, -⟩
  · -- `a'` has all units of `a` and is no longer, so there is nothing in `z`
    have hz : textOf z = [] := by
      have h := congrArg (fun ls => (textOf ls).length) ha'
      simp only [textOf_units, textOf_append, List.length_append] at h
      exact List.length_eq_zero_iff.mp (by omega)
    have hnil : z = [] := by
      have h := (units_cut ha').2
      rwa [hz, units_nil, eq_comm] at h
    exact Nat.le_of_eq (by rw [ha', hnil, List.append_nil])
  · rw [ha, List.filterMap_append, List.length_append]
    exact Nat.le_add_right _ _

theorem StartsAt.words_startingAt {t : Text} {k : Nat} {offset : Int} (h : StartsAt t k offset) :
    words (Text.startingAt t offset) = (words t).drop k := by
  obtain ⟨a, b, rfl, rfl, hcut, hk⟩ := exists_cut_at_token h
  rw [Text.startingAt_natCast, List.drop_left, words_append hcut, List.drop_left' hk]

/-- A token that starts no later than another is no later one. -/
theorem StartsAt.index_le {t : Text} {k m : Nat} {offset offset' : Int} (h : StartsAt t k offset)
    (h' : StartsAt t m offset') (hle : offset' ≤ offset) : m ≤ k := by
  obtain ⟨a, b, rfl, rfl, hcut, rfl⟩ := exists_cut_at_token h
  obtain ⟨a', b', htext, rfl, hcut', rfl⟩ := exists_cut_at_token h'
  exact length_words_le htext hcut hcut' (by omega)

/-- Behind the patch the text goes on with the words from token `m` on. -/
theorem words_startingAt_resume {source : Text} {found : Match} {k m : Nat}
    (hinsertion : StartsAt source k found.insertion)
    (hdeletion : found.deletion = none ∧ m = k
      ∨ ∃ stop, found.deletion = some stop ∧ k ≤ m ∧ StartsAt source m stop) :
    words (Text.startingAt source (Splice.resume found)) = (words source).drop m := by
  rcases hdeletion with ⟨hnone, rfl⟩ | ⟨stop, hstop, hle, hstart⟩
  · rw [Splice.resume_of_le (by simp [hnone])]
    exact hinsertion.words_startingAt
  by_cases hlt : found.insertion < stop
  · rw [Splice.resume_of_lt hstop hlt]
    exact hstart.words_startingAt
  · -- nothing is deleted, so the two tokens are the same
    obtain rfl : m = k := Nat.le_antisymm (hinsertion.index_le hstart (by omega)) hle
    rw [Splice.resume_of_le fun other hother => by
      rw [hstop, Option.some.injEq] at hother
      omega]
    exact hinsertion.words_startingAt

/-! ### The whole -/

theorem isBlank_of_mem_indent {a : Text} {c : Char} (hc : c ∈ Splice.indent a) :
    Text.isBlank c = true :=
  forall_mem_takeWhile c hc

/-- **Splicing a block is a homomorphism on words.**  Where the patch is inserted in front
of token `k` and the text goes on with token `m`, the words of the result are the first
`k` words of the source, the words of the patch, and the words of the source from `m`
on. -/
theorem words_splice_block {source patch : Text} {found : Match} {k m : Nat}
    (hsource : Closed source) (hinsertion : StartsAt source k found.insertion)
    (hdeletion : found.deletion = none ∧ m = k
      ∨ ∃ stop, found.deletion = some stop ∧ k ≤ m ∧ StartsAt source m stop)
    (hend : Text.endsWithNewline patch = true)
    (hlines : ∀ kind x, token kind x ∈ lexemes .source patch → '\n' ∉ x) :
    words (splice source found patch .block).text
      = (words source).take k ++ words patch ++ (words source).drop m := by
  have htail := words_startingAt_resume hinsertion hdeletion
  obtain ⟨a, b, rfl, hoffset, hcut, hk⟩ := exists_cut_at_token hinsertion
  have hclosed := (closed_append hcut).mp hsource
  have hbody : words (Splice.indented (Splice.indent a) patch
      ++ Text.startingAt (a ++ b) (Splice.resume found))
        = words patch ++ (words (a ++ b)).drop m := by
    rw [Text.indented_eq, List.append_assoc, words_blanks fun c => isBlank_of_mem_indent,
      words_reindent_append (fun c => isBlank_of_mem_indent), htail]
    · exact .inr (by simpa [Text.endsWithNewline] using hend)
    · exact fun kind x hx => hlines kind x (mem_units.mp hx)
  have hbefore : Text.upTo (a ++ b) found.insertion = a := by
    rw [hoffset, Text.upTo_natCast, List.take_left]
  simp only [splice, Splice.head, Splice.body]
  rw [hbefore, hoffset, List.append_assoc, words_blockHead_append hclosed.1, hbody,
    words_append hcut, List.take_left' hk, List.append_assoc]

/-- A token is replaced by two lines behind a comment; the patch has a line end of its own
kind. -/
theorem words_splice_block_two_lines :
    StartsAt "a // x\n\tb c".toList 1 8 ∧ StartsAt "a // x\n\tb c".toList 2 10
      ∧ words (splice "a // x\n\tb c".toList ⟨8, some 10⟩ "d // y\r\ne\n".toList .block).text
        = [(.identifier, ['a']), (.identifier, ['d']), (.identifier, ['e']),
          (.identifier, ['c'])] := by
  have hclosed : Closed "a // x\n\tb c".toList := ⟨by decide +kernel, by decide +kernel⟩
  have hstart : StartsAt "a // x\n\tb c".toList 1 8 :=
    .inl ⟨⟨.identifier, ['b'], 0, some 8⟩, by decide +kernel, rfl⟩
  have hstop : StartsAt "a // x\n\tb c".toList 2 10 :=
    .inl ⟨⟨.identifier, ['c'], 0, some 10⟩, by decide +kernel, rfl⟩
  have hlines : ∀ kind x, token kind x ∈ lexemes .source "d // y\r\ne\n".toList → '\n' ∉ x := by
    intro kind x hx
    have hlexemes : lexemes .source "d // y\r\ne\n".toList
        = [token .identifier ['d'], blank [' '], token .comment "// y\r".toList, blank ['\n'],
          token .identifier ['e'], blank ['\n']] := by decide +kernel
    rw [hlexemes] at hx
    simp only [List.mem_cons, token.injEq, List.not_mem_nil, or_false, reduceCtorEq, false_or] at hx
    rcases hx with ⟨-, rfl⟩ | ⟨-, rfl⟩ | ⟨-, rfl⟩ <;> decide
  have hwords : (words "a // x\n\tb c".toList).take 1 ++ words "d // y\r\ne\n".toList
      ++ (words "a // x\n\tb c".toList).drop 2
        = [(.identifier, ['a']), (.identifier, ['d']), (.identifier, ['e']),
          (.identifier, ['c'])] := by
    decide +kernel
  refine ⟨hstart, hstop, ?_⟩
  rw [← hwords]
  exact words_splice_block hclosed hstart (.inr ⟨10, rfl, by decide, hstop⟩) (by decide) hlines

end Graft
