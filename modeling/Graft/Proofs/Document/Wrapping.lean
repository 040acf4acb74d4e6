/-
Wrapping fragments in a document.

Two texts that stand in fenced blocks under the headings of their sections are read back
from the document, whatever they hold, as long as the fences are longer than any run of
their character in the texts.  Each comes back in its normal form, without the blank lines
in front of it and without its margin:

* `normalized_fragment` — a fragment is in normal form;
* `outline_wrapped` — reading the lines of one wrapped section;
* `isNormal_outline` — whatever is read from a document is in normal form;
* `fragments_wrapped` — reading two wrapped sections.
-/
import Graft.Document.Basic
import Graft.Proofs.Lexing.Markers
import Graft.Proofs.Text.Margin
import Graft.Proofs.Text.PhysicalLines

namespace Graft.Document

open Text

/-! ### The normal form of a fragment -/

/-- The text as the fragment that it is in a document. -/
def normalized (t : Text) : Text := fragment (physicalLines t)

/-- The first line of the text is not blank. -/
def Opens (t : Text) : Prop :=
  ∃ w c rest, t = w ++ c :: rest ∧ (∀ d ∈ w, isLineBreak d = false) ∧ isBlank c = false

theorem isLineBreak_of_not_isBlank {c : Char} (h : isBlank c = false) : isLineBreak c = false := by
  refine Bool.eq_false_iff.mpr fun hbreak => ?_
  rw [isBlank_of_isLineBreak hbreak] at h
  exact absurd h (by decide)

/-- A line that is not blank opens whatever starts with it. -/
theorem opens_of_isLine {l : Text} (hl : IsLine l) (hblank : isAllBlank l = false) (rest : Text) :
    Opens (l ++ rest) := by
  have hsplit : l.takeWhile isBlank ++ l.dropWhile isBlank = l := List.takeWhile_append_dropWhile
  cases hdrop : l.dropWhile isBlank with
  | nil =>
    rw [hdrop, List.append_nil] at hsplit
    have hall : isAllBlank l = true := by
      rw [← hsplit]
      exact List.all_takeWhile
    rw [hall] at hblank
    exact absurd hblank (by decide)
  | cons c back =>
    have hc : isBlank c = false := by
      have h := List.head?_dropWhile_not isBlank l
      rw [hdrop] at h
      simpa using h
    refine ⟨l.takeWhile isBlank, c, back ++ rest, ?_, fun d hd => ?_, hc⟩
    · rw [← List.cons_append, ← List.append_assoc, ← hdrop, hsplit]
    · -- a line break in front of `c` would leave only blanks behind it
      refine Bool.eq_false_iff.mpr fun hbreak => ?_
      obtain ⟨front, middle, hmiddle⟩ := List.append_of_mem hd
      have hback : isAllBlank (middle ++ c :: back) = true := by
        refine hl front d (middle ++ c :: back) ?_ hbreak
        rw [← List.cons_append, ← List.append_assoc, ← hmiddle, ← hdrop, hsplit]
      rw [List.all_eq_true.mp hback c (by simp)] at hc
      exact absurd hc (by decide)

/-- A fragment is a text that is not blank at its start, or empty, without its margin. -/
theorem exists_fragment_eq {ls : List Text} (h : ∀ l ∈ ls, IsLine l) :
    ∃ t, fragment ls = withoutMargin t ∧ (t = [] ∨ Opens t) := by
  refine ⟨(ls.dropWhile isAllBlank).flatten, rfl, ?_⟩
  cases hdrop : ls.dropWhile isAllBlank with
  | nil => exact .inl rfl
  | cons l rest =>
    have hl : isAllBlank l = false := by
      have h := List.head?_dropWhile_not isAllBlank ls
      rw [hdrop] at h
      simpa using h
    have hmem : l ∈ ls := (List.dropWhile_suffix isAllBlank).subset (hdrop ▸ List.mem_cons_self)
    exact .inr (opens_of_isLine (h l hmem) hl rest.flatten)

theorem Opens.withoutMargin {t : Text} (h : Opens t) : Opens (withoutMargin t) := by
  obtain ⟨w, c, rest, rfl, hw, hc⟩ := h
  have hnewline : '\n' ∉ w := fun hmem => absurd (hw _ hmem) (by decide)
  have hne : c ≠ '\n' := by
    rintro rfl
    exact absurd hc (by decide)
  have hindent : isIndentChar c = false := by
    refine Bool.eq_false_iff.mpr fun hindent => ?_
    rcases (Bool.or_eq_true _ _).mp hindent with h | h
    · rw [beq_iff_eq.mp h] at hc
      exact absurd hc (by decide)
    · rw [beq_iff_eq.mp h] at hc
      exact absurd hc (by decide)
  obtain ⟨n, rest', heq⟩ := exists_withoutMargin hnewline hne hindent rest
  exact ⟨w.drop n, c, rest', heq, fun d hd => hw d (List.mem_of_mem_drop hd), hc⟩

/-- A text whose first line is not blank loses its margin only. -/
theorem normalized_of_opens {t : Text} (h : Opens t) : normalized t = Text.withoutMargin t := by
  obtain ⟨w, c, rest, rfl, hw, hc⟩ := h
  have hx : ∀ d ∈ w ++ [c], isLineBreak d = false := by
    intro d hd
    rcases List.mem_append.mp hd with hd | hd
    · exact hw d hd
    · rw [List.mem_singleton.mp hd]
      exact isLineBreak_of_not_isBlank hc
  obtain ⟨line, others, hlines⟩ := exists_physicalLines_append hx (by simp) rest
  rw [List.append_assoc, List.singleton_append] at hlines
  have hfirst : isAllBlank (w ++ [c] ++ line) = false := by
    refine Bool.eq_false_iff.mpr fun hall => ?_
    rw [List.all_eq_true.mp hall c (by simp)] at hc
    exact absurd hc (by decide)
  rw [normalized, fragment, hlines,
    List.dropWhile_cons_of_neg (Bool.not_eq_true _ ▸ hfirst), ← hlines, flatten_physicalLines]

/-- A fragment is in normal form. -/
theorem normalized_fragment {ls : List Text} (h : ∀ l ∈ ls, IsLine l) :
    normalized (fragment ls) = fragment ls := by
  obtain ⟨t, heq, rfl | hopens⟩ := exists_fragment_eq h
  · rw [heq]
    decide
  · rw [heq, normalized_of_opens hopens.withoutMargin, withoutMargin_withoutMargin]

theorem normalized_normalized (t : Text) : normalized (normalized t) = normalized t :=
  normalized_fragment isLine_of_mem_physicalLines

/-! ### Reading line by line -/

theorem outline_heading {state : Outline} {line title : Text} (lines : List Text)
    (h : heading? line = some title) :
    outline state (line :: lines) = outline (state.heading title) lines := by
  rw [outline, h]

theorem outline_block {state : Outline} {line : Text} {fence : Fence} (lines : List Text)
    (hheading : heading? line = none) (hfence : Fence.ofLine? line = some fence) :
    outline state (line :: lines)
      = outline (state.block (fragment (blockLines fence lines))) (afterBlock fence lines) := by
  rw [outline, hheading, hfence]

/-! ### What is read from a document -/

/-- All fragments found so far are in normal form. -/
def Outline.IsNormal (state : Outline) : Prop :=
  ∀ s body, state.fragment? s = some body → normalized body = body

theorem fragment?_put (body : Text) (state : Outline) (s s' : Section) :
    (state.put body s).fragment? s' = if s' = s then some body else state.fragment? s' := by
  cases s <;> cases s' <;> rfl

theorem isNormal_foldl_put {body : Text} (hbody : normalized body = body) (wanted : List Section) :
    ∀ state : Outline, state.IsNormal → (wanted.foldl (Outline.put body) state).IsNormal := by
  induction wanted with
  | nil => exact fun _ h => h
  | cons s wanted ih =>
    intro state h
    refine ih _ fun s' found hfound => ?_
    rw [fragment?_put] at hfound
    split at hfound
    · rw [← Option.some.inj hfound, hbody]
    · exact h s' found hfound

theorem Outline.IsNormal.block {state : Outline} (h : state.IsNormal) {body : Text}
    (hbody : normalized body = body) : (state.block body).IsNormal := by
  intro s found hfound
  refine isNormal_foldl_put hbody state.wanted state h s found ?_
  rw [← hfound]
  cases s <;> rfl

theorem Outline.IsNormal.heading {state : Outline} (h : state.IsNormal) (title : Text) :
    (state.heading title).IsNormal := by
  intro s found hfound
  refine h s found ?_
  rw [← hfound]
  cases s <;> rfl

theorem dropSpaces_suffix (n : Nat) (l : Text) : dropSpaces n l <:+ l := by
  fun_induction dropSpaces n l with
  | case1 n cs ih => exact ih.trans (List.suffix_cons ' ' cs)
  | case2 => exact List.suffix_refl _

theorem isLine_of_mem_blockLines {fence : Fence} {lines : List Text} (h : ∀ l ∈ lines, IsLine l) :
    ∀ l ∈ blockLines fence lines, IsLine l := by
  intro l hl
  obtain ⟨line, hline, rfl⟩ := List.mem_map.mp hl
  exact (h line ((List.takeWhile_prefix _).subset hline)).suffix (dropSpaces_suffix _ _)

theorem afterBlock_suffix (fence : Fence) (lines : List Text) : afterBlock fence lines <:+ lines :=
  (List.drop_suffix _ _).trans (List.dropWhile_suffix _)

/-- Whatever is read from lines is in normal form. -/
theorem isNormal_outline (state : Outline) (lines : List Text) : state.IsNormal →
    (∀ l ∈ lines, IsLine l) → (outline state lines).IsNormal := by
  induction state, lines using outline.induct with
  | case1 state =>
    intro h _
    rwa [outline]
  | case2 state line lines title hheading ih =>
    intro h hlines
    rw [outline_heading lines hheading]
    exact ih (h.heading title) fun l hl => hlines l (List.mem_cons_of_mem _ hl)
  | case3 state line lines hheading fence hfence _ ih =>
    intro h hlines
    have hrest : ∀ l ∈ lines, IsLine l := fun l hl => hlines l (List.mem_cons_of_mem _ hl)
    rw [outline_block lines hheading hfence]
    exact ih (h.block (normalized_fragment (isLine_of_mem_blockLines hrest)))
      fun l hl => hrest l ((afterBlock_suffix fence lines).subset hl)
  | case4 state line lines hheading hfence ih =>
    intro h hlines
    rw [outline, hheading, hfence]
    exact ih h fun l hl => hlines l (List.mem_cons_of_mem _ hl)

/-- The fragments of a document are in normal form. -/
theorem normalized_fragments {document : Text} {file : Option Text} {found : Fragments}
    (h : fragments document file = .ok found) :
    normalized found.snippet = found.snippet ∧ normalized found.patch = found.patch := by
  have hnormal : (outline {} (physicalLines document)).IsNormal := by
    refine isNormal_outline {} _ ?_ isLine_of_mem_physicalLines
    intro s body hbody
    cases s <;> exact absurd hbody (by simp [Outline.fragment?])
  simp only [fragments] at h
  split at h
  · rename_i snippet patch hsnippet hpatch
    rw [← Except.ok.inj h]
    exact ⟨hnormal .snippet snippet hsnippet, hnormal .patch patch hpatch⟩
  · simp at h

/-! ### Wrapping -/

/-- The line that a fence of a mark and a length is. -/
def fenceLine (mark : Char) (count : Nat) : Text := List.replicate count mark ++ ['\n']

/-- The line of the heading that names a section. -/
def Section.headingLine (s : Section) : Text := "### ".toList ++ s.word ++ ['\n']

/-- The heading of a section, and a text in a fenced block. -/
def Section.wrapped (s : Section) (mark : Char) (count : Nat) (body : Text) : Text :=
  s.headingLine ++ fenceLine mark count ++ body ++ fenceLine mark count

/-- The text can stand between two fences: its last line is complete, and the fence is
longer than every run of its mark in the text. -/
structure Fits (mark : Char) (count : Nat) (t : Text) : Prop where
  ends : EndsAtBreak t
  runs : ∀ k, List.replicate k mark <:+: t → k < count

theorem fits_iff {mark : Char} {count : Nat} {t : Text} :
    Fits mark count t ↔ t.getLast?.all isLineBreak = true
      ∧ hasInfix (List.replicate count mark) t = false := by
  rw [Bool.eq_false_iff, ne_eq, hasInfix_iff, Option.all_eq_true]
  constructor
  · intro h
    exact ⟨h.ends, fun hrun => Nat.lt_irrefl _ (h.runs count hrun)⟩
  · rintro ⟨hends, hrun⟩
    refine ⟨hends, fun k hk => Nat.lt_of_not_le fun hle => hrun ?_⟩
    -- a longer run holds one of this length
    obtain ⟨n, rfl⟩ := Nat.exists_eq_add_of_le hle
    rw [← List.replicate_append_replicate] at hk
    exact (List.prefix_append _ _).isInfix.trans hk

instance (mark : Char) (count : Nat) (t : Text) : Decidable (Fits mark count t) :=
  decidable_of_iff _ fits_iff.symm

/-- The marks of fences. -/
def IsMark (mark : Char) : Prop := mark = backtick ∨ mark = '~'

theorem splitIndent_suffix (column : Nat) (l : Text) : (splitIndent column l).2 <:+ l := by
  fun_induction splitIndent column l with
  | case1 column cs ih => exact ih.trans (List.suffix_cons ' ' cs)
  | case2 column cs ih => exact ih.trans (List.suffix_cons '\t' cs)
  | case3 => exact List.suffix_refl _

section Wrapped

variable {mark : Char} {count : Nat} {body : Text}

theorem exists_fenceLine_eq (mark : Char) (hcount : 3 ≤ count) :
    ∃ cs, fenceLine mark count = mark :: cs := by
  obtain ⟨k, rfl⟩ : ∃ k, count = k + 1 := ⟨count - 1, by omega⟩
  exact ⟨List.replicate k mark ++ ['\n'], rfl⟩

theorem splitIndent_fenceLine (hmark : IsMark mark) (hcount : 3 ≤ count) :
    splitIndent 0 (fenceLine mark count) = (0, fenceLine mark count) := by
  obtain ⟨cs, hcs⟩ := exists_fenceLine_eq mark hcount
  rw [hcs]
  rcases hmark with rfl | rfl <;> rfl

theorem IsMark.ne_newline (hmark : IsMark mark) : '\n' ≠ mark := by
  rcases hmark with rfl | rfl <;> decide

theorem takeWhile_fenceLine (hmark : IsMark mark) (count : Nat) :
    (fenceLine mark count).takeWhile (· == mark) = List.replicate count mark
      ∧ (fenceLine mark count).dropWhile (· == mark) = ['\n'] := by
  have hall : ∀ c ∈ List.replicate count mark, (c == mark) = true := by
    intro c hc
    simp [List.eq_of_mem_replicate hc]
  have hstop : Lexeme.StopsAt (· == mark) ['\n'] := by
    intro c hc
    rw [← Option.some.inj hc]
    simp [hmark.ne_newline]
  exact ⟨Lexeme.takeWhile_stops hall hstop, Lexeme.dropWhile_stops hall hstop⟩

/-- The line of a fence is no heading. -/
theorem heading?_fenceLine (hmark : IsMark mark) (hcount : 3 ≤ count) :
    heading? (fenceLine mark count) = none := by
  have hlevel : (fenceLine mark count).takeWhile (· == '#') = [] := by
    obtain ⟨cs, hcs⟩ := exists_fenceLine_eq mark hcount
    rw [hcs, List.takeWhile_cons_of_neg]
    rcases hmark with rfl | rfl <;> decide
  simp [heading?, splitIndent_fenceLine hmark hcount, title?, hlevel]

/-- The line of a fence starts a block, -/
theorem ofLine?_fenceLine (hmark : IsMark mark) (hcount : 3 ≤ count) :
    Fence.ofLine? (fenceLine mark count) = some ⟨mark, count, 0⟩ := by
  obtain ⟨htake, hdrop⟩ := takeWhile_fenceLine hmark count
  obtain ⟨cs, hcs⟩ := exists_fenceLine_eq mark hcount
  have hindent := splitIndent_fenceLine hmark hcount
  rw [hcs] at htake hdrop hindent ⊢
  simp only [Fence.ofLine?, hindent, htake, hdrop, List.length_replicate]
  rw [if_neg (by decide), if_neg (by rcases hmark with rfl | rfl <;> decide), if_neg (by omega),
    if_neg]
  rintro ⟨-, h⟩
  exact absurd h (by decide)

/-- and ends the block of the same fence. -/
theorem closes_fenceLine (hmark : IsMark mark) (hcount : 3 ≤ count) :
    Fence.closes ⟨mark, count, 0⟩ (fenceLine mark count) = true := by
  obtain ⟨htake, hdrop⟩ := takeWhile_fenceLine hmark count
  simp only [Fence.closes, splitIndent_fenceLine hmark hcount, htake, hdrop, List.length_replicate]
  simp [tabWidth, isAllBlank, isBlank]

/-- No line of a text that fits between fences ends the block. -/
theorem Fits.not_closes (h : Fits mark count body) {indent : Nat} {l : Text}
    (hl : l ∈ physicalLines body) : Fence.closes ⟨mark, count, indent⟩ l = false := by
  have hwithin : l <:+: body := by
    have hflat := List.infix_of_mem_flatten hl
    rwa [flatten_physicalLines] at hflat
  have hcontent := (splitIndent_suffix 0 l).isInfix.trans hwithin
  simp only [Fence.closes]
  generalize splitIndent 0 l = parts at hcontent
  obtain ⟨column, content⟩ := parts
  have hrun : content.takeWhile (· == mark)
      = List.replicate (content.takeWhile (· == mark)).length mark := by
    refine List.eq_replicate_iff.mpr ⟨rfl, fun c hc => ?_⟩
    exact beq_iff_eq.mp (List.all_eq_true.mp List.all_takeWhile c hc)
  have hshort : (content.takeWhile (· == mark)).length < count := by
    refine h.runs _ ?_
    rw [← hrun]
    exact (List.takeWhile_prefix _).isInfix.trans hcontent
  simp [Nat.not_le.mpr hshort]

theorem dropSpaces_zero (l : Text) : dropSpaces 0 l = l := by
  unfold dropSpaces
  rfl

/-- The block of a fence is what stands in front of the line that ends it. -/
theorem block_eq (fence : Fence) {ls : List Text} {last : Text}
    (hls : ∀ l ∈ ls, fence.closes l = false) (hlast : fence.closes last = true)
    (more : List Text) :
    blockLines fence (ls ++ last :: more) = ls.map (dropSpaces fence.indent)
      ∧ afterBlock fence (ls ++ last :: more) = more := by
  have hopen : ∀ l ∈ ls, (!fence.closes l) = true := fun l hl => by rw [hls l hl]; rfl
  have htake : (ls ++ last :: more).takeWhile (!fence.closes ·) = ls := by
    rw [List.takeWhile_append_of_pos hopen]
    simp [hlast]
  have hdrop : (ls ++ last :: more).dropWhile (!fence.closes ·) = last :: more := by
    rw [List.dropWhile_append_of_pos hopen]
    simp [hlast]
  constructor
  · rw [blockLines, htake]
  · rw [afterBlock, hdrop]
    rfl

theorem physicalLines_fenceLine (hmark : IsMark mark) (rest : Text) :
    physicalLines (fenceLine mark count ++ rest) = fenceLine mark count :: physicalLines rest := by
  have hmarks : ∀ c ∈ List.replicate count mark, isLineBreak c = false := by
    intro c hc
    rw [List.eq_of_mem_replicate hc]
    rcases hmark with rfl | rfl <;> decide
  rw [fenceLine, List.append_assoc]
  exact physicalLines_line hmarks rest

theorem physicalLines_headingLine (s : Section) (rest : Text) :
    physicalLines (s.headingLine ++ rest) = s.headingLine :: physicalLines rest := by
  have hunbroken : ("### ".toList ++ s.word).all (! isLineBreak ·) = true := by
    cases s <;> decide
  have htitle : ∀ c ∈ "### ".toList ++ s.word, isLineBreak c = false := by
    intro c hc
    simpa using List.all_eq_true.mp hunbroken c hc
  rw [Section.headingLine, List.append_assoc]
  exact physicalLines_line htitle rest

/-- The lines of a wrapped section. -/
theorem physicalLines_wrapped (s : Section) (hmark : IsMark mark) (hcount : 3 ≤ count)
    (h : Fits mark count body) (rest : Text) :
    physicalLines (s.wrapped mark count body ++ rest)
      = s.headingLine :: fenceLine mark count
        :: (physicalLines body ++ fenceLine mark count :: physicalLines rest) := by
  -- the text may end with a carriage return, but it stands in front of a mark
  have hbody : physicalLines (body ++ (fenceLine mark count ++ rest))
      = physicalLines body ++ physicalLines (fenceLine mark count ++ rest) := by
    obtain ⟨cs, hcs⟩ := exists_fenceLine_eq mark hcount
    refine physicalLines_append h.ends fun hseam => hmark.ne_newline ?_
    rw [hcs] at hseam
    exact (Option.some.inj hseam.2).symm
  rw [Section.wrapped, List.append_assoc, List.append_assoc, List.append_assoc,
    physicalLines_headingLine, physicalLines_fenceLine hmark, hbody, physicalLines_fenceLine hmark]

/-- A section is read from its wrapped form. -/
theorem outline_wrapped (s : Section) (hmark : IsMark mark) (hcount : 3 ≤ count)
    (h : Fits mark count body) (state : Outline) (rest : Text) :
    outline state (physicalLines (s.wrapped mark count body ++ rest))
      = outline ((state.heading s.word).block (normalized body)) (physicalLines rest) := by
  have hheading : heading? s.headingLine = some s.word := by cases s <;> decide
  obtain ⟨hlines, hafter⟩ := block_eq ⟨mark, count, 0⟩ (fun l hl => h.not_closes hl)
    (closes_fenceLine hmark hcount) (physicalLines rest)
  rw [physicalLines_wrapped s hmark hcount h, outline_heading _ hheading,
    outline_block _ (heading?_fenceLine hmark hcount) (ofLine?_fenceLine hmark hcount), hlines,
    hafter, List.map_congr_left fun l _ => dropSpaces_zero l, List.map_id', normalized]

end Wrapped

/-- The two texts of a patch in a document. -/
def wrapped (mark : Char) (count : Nat) (snippet patch : Text) : Text :=
  Section.snippet.wrapped mark count snippet ++ Section.patch.wrapped mark count patch

example : wrapped '~' 3 "a\n".toList "b\n".toList
    = "### match\n~~~\na\n~~~\n### patch\n~~~\nb\n~~~\n".toList := by decide

/-- Two texts are read back from the document that they are wrapped in, in normal form. -/
theorem fragments_eq {mark : Char} {count : Nat} {snippet patch : Text} (hmark : IsMark mark)
    (hcount : 3 ≤ count) (hsnippet : Fits mark count snippet) (hpatch : Fits mark count patch)
    (file : Option Text) :
    fragments (wrapped mark count snippet patch) file
      = .ok ⟨normalized snippet, normalized patch⟩ := by
  have hfirst : (Outline.heading {} Section.snippet.word).block (normalized snippet)
      = ⟨some (normalized snippet), none, []⟩ := by
    have hheading : Outline.heading {} Section.snippet.word = ⟨none, none, [.snippet]⟩ := by decide
    rw [hheading]
    rfl
  have hsecond : (Outline.heading ⟨some (normalized snippet), none, []⟩ Section.patch.word).block
      (normalized patch) = ⟨some (normalized snippet), some (normalized patch), []⟩ := by
    have hword : hasWord Section.patch.word Section.patch.word = true := by decide
    simp [Outline.heading, Outline.fragment?, hword, Outline.block, Outline.put]
  have houtline : outline {} (physicalLines (wrapped mark count snippet patch))
      = ⟨some (normalized snippet), some (normalized patch), []⟩ := by
    rw [wrapped, outline_wrapped .snippet hmark hcount hsnippet, hfirst,
      ← List.append_nil (Section.patch.wrapped mark count patch),
      outline_wrapped .patch hmark hcount hpatch, hsecond, physicalLines, outline]
  simp only [fragments, houtline]

/-- **Fragments survive a document.**  Two texts that are wrapped in a document are read
back in normal form, and what is in normal form stays as it is.  So fragments that were read from
a document are read back unchanged from the document that they are wrapped in. -/
theorem fragments_wrapped {mark : Char} {count : Nat} (hmark : mark = '\x60' ∨ mark = '~')
    (hcount : 3 ≤ count) :
    (∀ snippet patch file, Fits mark count snippet → Fits mark count patch →
        fragments (wrapped mark count snippet patch) file
          = .ok ⟨normalized snippet, normalized patch⟩)
      ∧ (∀ t, normalized (normalized t) = normalized t)
      ∧ ∀ document file file' found, fragments document file = .ok found →
        Fits mark count found.snippet → Fits mark count found.patch →
          fragments (wrapped mark count found.snippet found.patch) file' = .ok found := by
  refine ⟨fun snippet patch file hsnippet hpatch =>
    fragments_eq hmark hcount hsnippet hpatch file, normalized_normalized, ?_⟩
  intro document file file' found hfound hsnippet hpatch
  obtain ⟨hsnippet', hpatch'⟩ := normalized_fragments hfound
  rw [fragments_eq hmark hcount hsnippet hpatch, hsnippet', hpatch']

/-- Between fences of four backticks: blank lines, a heading of the other section, a shorter
fence, a form feed and a carriage return. -/
theorem fragments_wrapped_heading_and_fence :
    Fits '\x60' 4 " \n  ### patch\n  \x60\x60\x60\n\n    a\x0Cb\r\n".toList
      ∧ Fits '\x60' 4 "~~~\n".toList
      ∧ fragments (wrapped '\x60' 4 " \n  ### patch\n  \x60\x60\x60\n\n    a\x0Cb\r\n".toList
          "~~~\n".toList) none
        = .ok ⟨"### patch\n\x60\x60\x60\n\n  a\x0Cb\r\n".toList, "~~~\n".toList⟩ := by
  have hsnippet : Fits '\x60' 4 " \n  ### patch\n  \x60\x60\x60\n\n    a\x0Cb\r\n".toList := by
    decide +kernel
  have hpatch : Fits '\x60' 4 "~~~\n".toList := by decide +kernel
  have hnormal : normalized " \n  ### patch\n  \x60\x60\x60\n\n    a\x0Cb\r\n".toList
      = "### patch\n\x60\x60\x60\n\n  a\x0Cb\r\n".toList := by decide +kernel
  have hnormal' : normalized "~~~\n".toList = "~~~\n".toList := by decide +kernel
  have hread := (fragments_wrapped (.inl rfl) (by decide)).1 _ _ none hsnippet hpatch
  rw [hnormal, hnormal'] at hread
  exact ⟨hsnippet, hpatch, hread⟩

end Graft.Document
