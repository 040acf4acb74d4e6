/-
Replacing lines of a text by themselves.

The snippet is the text itself with the two markers around some of its lines, and the
patch is these lines without their indentation.  The search walks through the whole text
side by side with the snippet, and the splice puts the indentation back:

* `units_framed`, `pattern_framed` — the snippet as a pattern;
* `find_framed` — where the lines are found;
* `splice_slice` — what they are replaced by;
* `ofSnippet_framed` — the style;
* `apply_slice` — the text is what it was.
-/
import Graft.Patch
import Graft.Proofs.Lexing.Markers
import Graft.Proofs.Search.Exactness
import Graft.Proofs.Search.Mirror
import Graft.Proofs.Text.Lines

namespace Graft

open Lexeme

/-- The text with the markers on lines of their own around its middle part. -/
def framed (pre mid post : Text) : Text :=
  pre ++ ">>>\n".toList ++ mid ++ "<<<\n".toList ++ post

/-- The offset of the first token of a text. -/
def firstOffset (t : Text) : Option Int := (builtinTokens t).head?.bind (·.offset)

/-- The middle part of a source text is whole lines, at an indentation that they share
with the line behind them. -/
structure Slice (pre mid post indent : Text) (ls : List Text) : Prop where
  noMarker : ∀ marker ∈ ["...".toList, ">>>".toList, "<<<".toList],
    Text.hasInfix marker (pre ++ mid ++ post) = false
  /-- No literal and no comment of the text is left open. -/
  closed : Closed (pre ++ mid ++ post)
  indent_blank : ∀ c ∈ indent, Text.isBlank c = true ∧ c ≠ '\n'
  ls_ne_nil : ls ≠ []
  ls_unbroken : ∀ l ∈ ls, '\n' ∉ l ∧ '\r' ∉ l
  mid_eq : mid = Text.unlines (ls.map (indent ++ ·))
  pre_ends : pre.getLast? = some '\n' ∨ pre = [] ∧ indent = []
  /-- The first of the lines starts with a token behind the indentation. -/
  mid_starts : firstOffset mid = some (indent.length : Int)
  /-- So does the text behind the lines, unless there is none. -/
  post_starts : indent <+: post ∧ firstOffset post = some (indent.length : Int)
    ∨ post = [] ∧ indent = []
  start_clear : ¬ Inside (pre ++ mid ++ post) pre.length
  stop_clear : ¬ Inside (pre ++ mid ++ post) (pre.length + mid.length)

/-! ### The snippet as a pattern -/

section Framed

variable {pre mid post : Text}

theorem framed_eq (pre mid post : Text) : framed pre mid post
    = pre ++ (Kind.inserter.marker ++ '\n' :: (mid ++ (Kind.folder.marker ++ '\n' :: post))) := by
  have hinserter : ">>>\n".toList = Kind.inserter.marker ++ ['\n'] := by decide
  have hfolder : "<<<\n".toList = Kind.folder.marker ++ ['\n'] := by decide
  rw [framed, hinserter, hfolder]
  simp

/-- The snippet is read as the three parts of the text and the markers between them. -/
theorem units_framed (hpre : MarkerFree pre ∧ Closed pre ∧ Text.EndsLine pre)
    (hmid : MarkerFree mid ∧ Closed mid ∧ Text.EndsLine mid)
    (hpost : MarkerFree post ∧ Closed post) :
    units .pattern (framed pre mid post) = units .source pre
      ++ token .inserter Kind.inserter.marker :: blank ['\n'] :: (units .source mid
        ++ token .folder Kind.folder.marker :: blank ['\n'] :: units .source post) := by
  rw [framed_eq, units_pattern_append pre hpre.1 hpre.2.1 hpre.2.2,
    units_pattern_marker (by decide), units_blank _ rfl,
    units_pattern_append mid hmid.1 hmid.2.1 hmid.2.2, units_pattern_marker (by decide),
    units_blank _ rfl, units_pattern_eq hpost.1]

/-- The parts of a text that holds a slice are closed, and have the units that they have
together. -/
theorem Slice.parts {indent : Text} {ls : List Text} (h : Slice pre mid post indent ls) :
    (Closed pre ∧ Text.EndsLine pre) ∧ (Closed mid ∧ Text.EndsLine mid) ∧ Closed post
      ∧ units .source (pre ++ mid ++ post)
        = units .source pre ++ (units .source mid ++ units .source post) := by
  have hpre : Text.EndsLine pre := h.pre_ends.elim .inr fun hnil => .inl hnil.1
  have hmid : Text.EndsLine mid := h.mid_eq ▸ Text.endsLine_unlines _
  have hstart : Closed pre := by
    have hcut := h.start_clear
    rw [List.append_assoc] at hcut
    have hclosed := h.closed
    rw [List.append_assoc] at hclosed
    exact ((closed_append (units_of_not_inside hcut)).mp hclosed).1
  have hcut := h.stop_clear
  rw [← List.length_append] at hcut
  obtain ⟨hfront, hpost⟩ := (closed_append (units_of_not_inside hcut)).mp h.closed
  have hmid' : Closed mid :=
    ((closed_append (units_append_of_newline hstart hpre mid)).mp hfront).2
  refine ⟨⟨hstart, hpre⟩, ⟨hmid', hmid⟩, hpost, ?_⟩
  rw [List.append_assoc, units_append_of_newline hstart hpre, units_append_of_newline hmid' hmid]

theorem Slice.markerFree {indent : Text} {ls : List Text} (h : Slice pre mid post indent ls) :
    MarkerFree (pre ++ mid ++ post) ∧ MarkerFree pre ∧ MarkerFree mid ∧ MarkerFree post := by
  have hfree : MarkerFree (pre ++ mid ++ post) := markerFree_iff.mpr
    ⟨h.noMarker _ (by decide), h.noMarker _ (by decide), h.noMarker _ (by decide)⟩
  exact ⟨hfree, hfree.left.left, hfree.left.right, hfree.right⟩

/-- A marker on a line of its own changes no depth. -/
theorem lowest_marker (kind : Kind) (depth : Int) (us : List Lexeme) :
    lowest depth (token kind kind.marker :: blank ['\n'] :: us) = lowest depth us := by
  have hflat : (token kind kind.marker).isFlat = true := by cases kind <;> rfl
  rw [lowest_cons_flat hflat, lowest_cons_flat (isFlat_blank _)]

/-- The tokens of the snippet are those of the three parts, at the depths that they have in
the text, and the markers. -/
theorem pattern_framed {us₁ us₂ us₃ : List Lexeme} {depth : Int}
    (hunits : units .pattern (framed pre mid post) = us₁
      ++ token .inserter Kind.inserter.marker :: blank ['\n'] :: (us₂
        ++ token .folder Kind.folder.marker :: blank ['\n'] :: us₃))
    (hdepth : depth = -lowest 0 (us₁ ++ (us₂ ++ us₃))) :
    (Pattern.ofText (framed pre mid post)).tokens
      = tokens .pattern 0 depth us₁
        ++ ⟨.inserter, Kind.inserter.marker, depth + balance us₁, none⟩
          :: (tokens .pattern 0 (depth + balance us₁) us₂
            ++ ⟨.folder, Kind.folder.marker, depth + balance us₁ + balance us₂, none⟩
              :: tokens .pattern 0 (depth + balance us₁ + balance us₂) us₃) := by
  have hlowest : lowest 0 (units .pattern (framed pre mid post))
      = lowest 0 (us₁ ++ (us₂ ++ us₃)) := by
    rw [hunits, lowest_append, lowest_marker, lowest_append, lowest_marker, lowest_append,
      lowest_append]
  rw [Pattern.ofText, levelled_ofText, hlowest, ← hdepth, hunits, tokens_pattern_append,
    tokens_marker, tokens_pattern_append, tokens_marker]

end Framed

/-! ### Where the lines are found -/

/-- The first token of a text keeps its place in it when the text stands in another. -/
theorem offsetOf_tokens {t : Text} {k : Nat} (h : firstOffset t = some (k : Int)) (length : Int)
    (n : Nat) (depth : Int) (more : List Token) :
    Search.offsetOf length (tokens .source n depth (units .source t) ++ more) = n + k := by
  rw [firstOffset, builtinTokens_eq] at h
  generalize -lowest 0 (units .source t) = base at h
  have hmoved := tokens_add .source n (depth - base) (units .source t) 0 base
  rw [Nat.zero_add, Int.add_comm base, Int.sub_add_cancel] at hmoved
  cases hfirst : tokens .source 0 base (units .source t) with
  | nil => simp [hfirst] at h
  | cons first rest =>
    rw [hfirst] at h hmoved
    have hoffset : first.offset = some (k : Int) := h
    rw [hmoved]
    simp only [List.map_cons, List.cons_append, Search.offsetOf, Search.Cursor.offset, hoffset,
      Option.map_some, Option.getD_some]
    omega

section Slice

variable {pre mid post indent : Text} {ls : List Text}

/-- The tokens of the snippet and those of the text stand side by side, part by part and
at the same depths. -/
theorem Slice.tokens_eq (h : Slice pre mid post indent ls) : ∃ d₁ d₂ d₃ : Int,
    (Pattern.ofText (framed pre mid post)).tokens
        = tokens .pattern 0 d₁ (units .source pre)
          ++ ⟨.inserter, Kind.inserter.marker, d₂, none⟩
            :: (tokens .pattern 0 d₂ (units .source mid)
              ++ ⟨.folder, Kind.folder.marker, d₃, none⟩
                :: tokens .pattern 0 d₃ (units .source post))
      ∧ (Pattern.ofText (pre ++ mid ++ post)).tokens
        = tokens .pattern 0 d₁ (units .source pre)
          ++ (tokens .pattern 0 d₂ (units .source mid) ++ tokens .pattern 0 d₃ (units .source post))
      ∧ builtinTokens (pre ++ mid ++ post)
        = tokens .source 0 d₁ (units .source pre)
          ++ (tokens .source pre.length d₂ (units .source mid)
            ++ tokens .source (pre.length + mid.length) d₃ (units .source post)) := by
  obtain ⟨⟨hpre, hpreEnds⟩, ⟨hmid, hmidEnds⟩, hpost, hunits⟩ := h.parts
  obtain ⟨hfree, hpreFree, hmidFree, hpostFree⟩ := h.markerFree
  refine ⟨_, _, _, pattern_framed (units_framed ⟨hpreFree, hpre, hpreEnds⟩
    ⟨hmidFree, hmid, hmidEnds⟩ ⟨hpostFree, hpost⟩) rfl, ?_, ?_⟩
  · rw [Pattern.ofText, levelled_ofText, units_pattern_eq hfree, hunits,
      tokens_pattern_append, tokens_pattern_append]
  · rw [builtinTokens_eq, hunits, tokens_append, tokens_append, textOf_units, textOf_units,
      Nat.zero_add]

/-- Every token of the snippet is a marker, or one of the text. -/
theorem Slice.mem_framed (h : Slice pre mid post indent ls) {t : Token}
    (ht : t ∈ (Pattern.ofText (framed pre mid post)).tokens) :
    t.kind = .inserter ∨ t.kind = .folder
      ∨ token t.kind t.text ∈ units .source (pre ++ mid ++ post) := by
  obtain ⟨-, -, -, hunits⟩ := h.parts
  obtain ⟨d₁, d₂, d₃, hpattern, -⟩ := h.tokens_eq
  rw [hpattern] at ht
  simp only [List.mem_append, List.mem_cons] at ht
  rw [hunits]
  rcases ht with ht | rfl | ht | rfl | ht
  · exact .inr (.inr (by simp [mem_of_mem_tokens ht]))
  · exact .inl rfl
  · exact .inr (.inr (by simp [mem_of_mem_tokens ht]))
  · exact .inr (.inl rfl)
  · exact .inr (.inr (by simp [mem_of_mem_tokens ht]))

/-- Behind the lines the text goes on with a token behind the indentation, or ends. -/
theorem Slice.offsetOf_post (h : Slice pre mid post indent ls) (depth : Int) :
    Search.offsetOf (pre ++ mid ++ post).length
        (tokens .source (pre.length + mid.length) depth (units .source post))
      = pre.length + mid.length + indent.length := by
  rcases h.post_starts with ⟨-, hfirst⟩ | ⟨hpost, hindent⟩
  · have hoffset := offsetOf_tokens hfirst (pre ++ mid ++ post).length
      (pre.length + mid.length) depth []
    rwa [List.append_nil, Int.natCast_add] at hoffset
  · rw [hpost, hindent, units_nil]
    simp [tokens, Search.offsetOf, Search.Cursor.offset]

/-- The lines are found where they stand, from their first token on to the first token
behind them. -/
theorem find_framed (h : Slice pre mid post indent ls)
    (hsteps : ((Pattern.ofText (pre ++ mid ++ post)).tokens.length : Int) + 2
      ≤ ({} : Settings).maxSteps.bound) :
    (Search.find {} (builtinTokens (pre ++ mid ++ post)) (pre ++ mid ++ post).length
        (Pattern.ofText (framed pre mid post)) {}).1
      = .ok ⟨pre.length + indent.length, some (pre.length + mid.length + indent.length)⟩ := by
  refine Search.find_of_search ?_ (Search.absent?_eq_none.mpr ?_) ?_
  · -- no token of the snippet is a wildcard
    intro t ht hkind
    rcases h.mem_framed ht with hmarker | hmarker | hunit
    · exact absurd (hkind.symm.trans hmarker) (by decide)
    · exact absurd (hkind.symm.trans hmarker) (by decide)
    · have hplain : t.kind.isPlain = true := isPlain_of_mem_units hunit
      rw [hkind] at hplain
      exact absurd hplain (by decide)
  · -- every literal of it occurs in the text
    intro t ht
    obtain ⟨ht, hmeta, -⟩ := Search.mem_literals.mp ht
    have hne : ∀ kind : Kind, kind.isMeta = true → t.kind ≠ kind := by
      rintro kind hkind rfl
      exact absurd (hmeta.symm.trans hkind) (by decide)
    rcases h.mem_framed ht with hmarker | hmarker | hunit
    · exact absurd hmarker (hne _ rfl)
    · exact absurd hmarker (hne _ rfl)
    · rw [builtinTokens_eq]
      exact Search.exists_source_token (hne _ rfl) hunit _ _
  · obtain ⟨d₁, d₂, d₃, hpattern, hwhole, hsource⟩ := h.tokens_eq
    rw [hwhole, List.length_append, List.length_append] at hsteps
    rw [hpattern, hsource, Search.search_framed rfl rfl (fun _ => isPlain_of_mem_units)
      (fun _ => isPlain_of_mem_units) (fun _ => isPlain_of_mem_units) (by omega),
      offsetOf_tokens h.mid_starts, h.offsetOf_post]

/-! ### What they are replaced by -/

/-- The lines go back to where they stood, behind the indentation that they had. -/
theorem splice_slice (h : Slice pre mid post indent ls) :
    (splice (pre ++ mid ++ post)
      ⟨pre.length + indent.length, some (pre.length + mid.length + indent.length)⟩
      (Text.unlines ls) .block).text = pre ++ mid ++ post := by
  obtain ⟨⟨-, hpreEnds⟩, -, -, -⟩ := h.parts
  obtain ⟨⟨rest, hmid⟩, hne⟩ : indent <+: mid ∧ mid ≠ [] := by
    obtain ⟨l, ls', hls⟩ := List.exists_cons_of_ne_nil h.ls_ne_nil
    rw [h.mid_eq, hls, List.map_cons, Text.unlines_cons, List.append_assoc]
    exact ⟨List.prefix_append _ _, by simp⟩
  obtain ⟨post', hpost⟩ : indent <+: post := by
    rcases h.post_starts with ⟨hfront, -⟩ | ⟨-, hnil⟩
    · exact hfront
    · exact hnil ▸ List.nil_prefix
  have hbefore : Text.upTo (pre ++ mid ++ post) (pre.length + indent.length) = pre ++ indent := by
    have htext : pre ++ mid ++ post = pre ++ indent ++ (rest ++ post) := by simp [← hmid]
    rw [← Int.natCast_add, ← List.length_append, Text.upTo_natCast, htext, List.take_left]
  have hhead : Splice.blockHead (pre.length + indent.length) (pre ++ indent) = pre := by
    rw [Splice.blockHead, Splice.kept_append hpreEnds h.indent_blank]
    rcases h.pre_ends with hend | ⟨hpre, hnil⟩
    · rw [if_neg (by simp [Text.endsWithNewline, hend])]
    · rw [hpre, hnil]
      rfl
  have hresume : Splice.resume ⟨pre.length + indent.length,
      some (pre.length + mid.length + indent.length)⟩ = (pre ++ mid ++ indent).length := by
    have hpos : 0 < mid.length := List.length_pos_iff.mpr hne
    rw [Splice.resume_of_lt rfl (by simp only; omega), List.length_append, List.length_append,
      Int.natCast_add, Int.natCast_add]
  simp only [splice, Splice.head, Splice.body, hbefore, hhead, hresume,
    Splice.indent_append hpreEnds h.indent_blank]
  have htext : pre ++ mid ++ post = pre ++ mid ++ indent ++ post' := by simp [← hpost]
  rw [Text.indented_eq, Text.reindent_unlines h.ls_unbroken, ← h.mid_eq, Text.startingAt_natCast,
    htext, List.drop_left, List.append_assoc pre mid indent]

/-! ### The style -/

/-- A marker on a line of its own asks for a block. -/
theorem ofSnippet_framed (hends : Text.EndsLine pre) (hfree : MarkerFree pre) :
    Style.ofSnippet (framed pre mid post) = .block := by
  rw [framed_eq, Style.ofSnippet]
  obtain ⟨front, hfront, -, hwithin, -⟩ := Text.exists_lines_append
    (Kind.inserter.marker ++ '\n' :: (mid ++ (Kind.folder.marker ++ '\n' :: post))) hends
  have hmarker : ∀ t, Text.lines (Kind.inserter.marker ++ '\n' :: t)
      = Kind.inserter.marker :: Text.lines t := by
    intro t
    exact Text.lines_cons (by decide) (by simp) (Text.lines_cons (by decide) (by simp)
      (Text.lines_cons (by decide) (by simp) (Text.lines_newline t)))
  -- the lines in front of it have no marker
  have hnone : front.find? (Text.hasInfix Kind.inserter.marker) = none := by
    rw [List.find?_eq_none]
    intro l hl hmark
    have hpre := (markerFree_iff.mp hfree).2.1
    rw [Bool.eq_false_iff] at hpre
    exact hpre (Text.hasInfix_iff.mpr ((Text.hasInfix_iff.mp hmark).trans (hwithin l hl)))
  rw [hfront, hmarker, List.find?_append, hnone, Option.none_or, List.find?_cons_of_pos (by decide)]
  rfl

/-! ### The whole -/

/-- What is found is spliced. -/
theorem result_applyWith {settings : Settings} {source snippet patch : Text} {found : Match}
    (hfound : (Search.find settings (builtinTokens source) source.length (Pattern.ofText snippet)
      {}).1 = .ok found) :
    (Patch.applyWith settings .builtin source snippet patch).result
      = .ok ⟨(splice source found patch (Style.ofSnippet snippet)).text, found,
        Style.ofSnippet snippet,
        (splice source found patch (Style.ofSnippet snippet)).inserted⟩ := by
  have hread : (Patch.readSource .builtin source).result = .ok (builtinTokens source) := by
    rw [Patch.readSource, tokenize_builtin]
  rw [Patch.applyWith, Outcome.result_andThen hread, Outcome.result_andThen hfound]
  rfl

/-- **Replacing lines by themselves changes nothing.**  With the built-in tokenizer and the
settings that a run starts with, the snippet is found, the patch is laid out as a block,
and the text is what it was. -/
theorem apply_slice (h : Slice pre mid post indent ls)
    (hsteps : ((Pattern.ofText (pre ++ mid ++ post)).tokens.length : Int) + 2
      ≤ ({} : Settings).maxSteps.bound)
    (parser : Option Parser) (tokenizer : Option Tokenizer)
    (htokenizer : tokenizer = none ∨ tokenizer = some .builtin) :
    ∃ patched, (Patch.apply { parser } {} tokenizer (pre ++ mid ++ post) (framed pre mid post)
        (Text.unlines ls)).result = .ok patched
      ∧ patched.style = .block ∧ patched.text = pre ++ mid ++ post := by
  obtain ⟨⟨-, hpreEnds⟩, -, -, -⟩ := h.parts
  obtain ⟨-, hpreFree, -, -⟩ := h.markerFree
  have hstyle : Style.ofSnippet (framed pre mid post) = .block :=
    ofSnippet_framed hpreEnds hpreFree
  have happlied : (Patch.applyWith {} .builtin (pre ++ mid ++ post) (framed pre mid post)
      (Text.unlines ls)).result = _ := result_applyWith (find_framed h hsteps)
  have hbuiltin : (Patch.apply { parser } {} tokenizer (pre ++ mid ++ post) (framed pre mid post)
      (Text.unlines ls)).result = (Patch.applyWith {} .builtin (pre ++ mid ++ post)
        (framed pre mid post) (Text.unlines ls)).result := by
    rcases htokenizer with rfl | rfl
    · -- the settings name the built-in tokenizer
      have hchosen : (Outcome.of (Registry.initial.choose parser ({} : Settings).tokenizer)).result
          = .ok .builtin := rfl
      rw [Patch.apply, Outcome.result_andThen hchosen]
    · rfl
  rw [hstyle] at happlied
  exact ⟨_, hbuiltin.trans happlied, rfl, splice_slice h⟩

end Slice

/-- Two lines in braces, a comment behind the first of them. -/
theorem apply_slice_in_braces :
    Slice "f \x7b\n".toList "\ta(1); // x\n\tb;\n".toList "\tc;\n\x7d\n".toList "\t".toList
        ["a(1); // x".toList, "b;".toList]
      ∧ ∃ patched, (Patch.apply {} {} none "f \x7b\n\ta(1); // x\n\tb;\n\tc;\n\x7d\n".toList
          "f \x7b\n>>>\n\ta(1); // x\n\tb;\n<<<\n\tc;\n\x7d\n".toList
          "a(1); // x\nb;\n".toList).result = .ok patched
        ∧ patched.style = .block
        ∧ patched.text = "f \x7b\n\ta(1); // x\n\tb;\n\tc;\n\x7d\n".toList := by
  have hslice : Slice "f \x7b\n".toList "\ta(1); // x\n\tb;\n".toList "\tc;\n\x7d\n".toList
      "\t".toList ["a(1); // x".toList, "b;".toList] :=
    { noMarker := by decide +kernel
      closed := ⟨by decide +kernel, by decide +kernel⟩
      indent_blank := by
        intro c hc
        obtain rfl : c = '\t' := by simpa using hc
        decide
      ls_ne_nil := by decide
      ls_unbroken := by decide
      mid_eq := by decide
      pre_ends := .inl (by decide)
      mid_starts := by decide +kernel
      post_starts := .inl ⟨⟨"c;\n\x7d\n".toList, by decide⟩, by decide +kernel⟩
      start_clear := by decide +kernel
      stop_clear := by decide +kernel }
  have happlied := apply_slice hslice (by decide +kernel) none none (.inl rfl)
  have hsource : "f \x7b\n".toList ++ "\ta(1); // x\n\tb;\n".toList ++ "\tc;\n\x7d\n".toList
      = "f \x7b\n\ta(1); // x\n\tb;\n\tc;\n\x7d\n".toList := by decide
  have hsnippet : framed "f \x7b\n".toList "\ta(1); // x\n\tb;\n".toList "\tc;\n\x7d\n".toList
      = "f \x7b\n>>>\n\ta(1); // x\n\tb;\n<<<\n\tc;\n\x7d\n".toList := by decide
  have hpatch : Text.unlines ["a(1); // x".toList, "b;".toList] = "a(1); // x\nb;\n".toList := by
    decide
  rw [hsource, hsnippet, hpatch] at happlied
  exact ⟨hslice, happlied⟩

end Graft
