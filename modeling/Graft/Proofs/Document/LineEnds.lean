/-
Documents with the other line end.

A document whose lines end with newlines and the same document with carriage returns in
front of them make the same headings and the same blocks, up to the line ends of the
blocks.  So they lack the same sections.  The fragments are the same up to their line ends
as long as the margins of the blocks are:

* `heading?_crlf`, `ofLine?_crlf`, `closes_crlf` — a line is the same with either line end;
* `events_crlf` — and so are the events of the lines;
* `fragment_crlf` — the fragment of a block with either line end;
* `fragments_crlf` — the fragments of a document with either line end.
-/
import Graft.Proofs.Document.Sections
import Graft.Proofs.Text.Returns

namespace Graft

namespace Text

/-- No newline stands in front of the end of the line. -/
def NewlineLast (l : Text) : Prop := ∀ front back, l = front ++ '\n' :: back → back = []

theorem NewlineLast.suffix {l s : Text} (h : NewlineLast l) (hs : s <:+ l) : NewlineLast s := by
  obtain ⟨r, rfl⟩ := hs
  rintro front back rfl
  exact h (r ++ front) back (List.append_assoc ..).symm

theorem NewlineLast.cons {c : Char} {l : Text} (hc : c ≠ '\n') (h : NewlineLast l) :
    NewlineLast (c :: l) := by
  intro front back heq
  cases front with
  | nil => exact absurd (List.cons.inj heq).1 hc
  | cons d front => exact h front back (List.cons.inj heq).2

theorem newlineLast_of_mem_physicalLines {t : Text} : ∀ l ∈ physicalLines t, NewlineLast l := by
  have hnil : NewlineLast [] := by
    intro front back heq
    simp at heq
  have hnewline : NewlineLast ['\n'] := by
    intro front back heq
    cases front with
    | nil => exact (List.cons.inj heq).2.symm
    | cons d front => simp at heq
  fun_induction physicalLines t with
  | case1 => simp
  | case2 cs ih =>
    rintro l (_ | ⟨_, hl⟩)
    · exact .cons (by decide) hnewline
    · exact ih l hl
  | case3 c cs _ _ ih =>
    rintro l (_ | ⟨_, hl⟩)
    · by_cases hc : c = '\n'
      · exact hc ▸ hnewline
      · exact .cons hc hnil
    · exact ih l hl
  | case4 c cs _ hc _ _ =>
    rintro l (_ | ⟨_, ⟨⟩⟩)
    exact .cons (by rintro rfl; exact hc rfl) hnil
  | case5 c cs _ hc line rest heq ih =>
    rw [heq] at ih
    rintro l (_ | ⟨_, hl⟩)
    · exact .cons (by rintro rfl; exact hc rfl) (ih line List.mem_cons_self)
    · exact ih l (List.mem_cons_of_mem _ hl)

theorem trim_append_blanks {w : Text} (hw : ∀ c ∈ w, isBlank c = true) (a : Text) :
    trim (a ++ w) = trim a := by
  have hright : ∀ b, trimRight (b ++ w) = trimRight b := by
    intro b
    rw [trimRight, List.reverse_append, List.dropWhile_append_of_pos (by simpa using hw), trimRight]
  have hleft : trimLeft w = [] := by
    have h := @List.dropWhile_append_of_pos _ _ w [] hw
    rwa [List.append_nil] at h
  rw [trim, trimLeft, List.dropWhile_append]
  split
  · rename_i hnil
    rw [← trimLeft, hleft, trim, trimLeft, List.isEmpty_iff.mp hnil]
  · exact hright _

/-- The line end is blank, whichever it is. -/
theorem trim_crlf {l : Text} (h : NewlineLast l) : trim (crlf l) = trim l := by
  by_cases hmem : '\n' ∈ l
  · obtain ⟨front, back, rfl⟩ := List.append_of_mem hmem
    obtain rfl := h front back rfl
    have hfront : '\n' ∉ front := by
      intro hmem
      obtain ⟨f, b, rfl⟩ := List.append_of_mem hmem
      exact absurd (h f (b ++ ['\n']) (by simp)) (by simp)
    rw [crlf_append, crlf_eq_self hfront, trim_append_blanks, trim_append_blanks]
    · simp [isBlank]
    · simp [crlf, isBlank]
  · rw [crlf_eq_self hmem]

/-- The run of a character that a text starts with, and what stands behind it. -/
theorem run_crlf (mark : Char) (hnewline : mark ≠ '\n') (hreturn : mark ≠ '\r') (t : Text) :
    (crlf t).takeWhile (· == mark) = t.takeWhile (· == mark)
      ∧ (crlf t).dropWhile (· == mark) = crlf (t.dropWhile (· == mark)) := by
  induction t with
  | nil => exact ⟨rfl, rfl⟩
  | cons c t ih =>
    by_cases hc : c = '\n'
    · subst hc
      simp [crlf_newline, hnewline.symm, hreturn.symm]
    · by_cases hmark : c = mark
      · subst hmark
        simp [crlf_cons hc, ih]
      · simp [crlf_cons hc, hmark]

theorem mem_crlf {c : Char} (hnewline : c ≠ '\n') (hreturn : c ≠ '\r') {t : Text} :
    c ∈ crlf t ↔ c ∈ t := by
  induction t with
  | nil => rfl
  | cons d t ih =>
    by_cases hd : d = '\n'
    · simp [hd, crlf_newline, hnewline, hreturn, ih]
    · rw [crlf_cons hd, List.mem_cons, List.mem_cons, ih]

end Text

namespace Document

open Text

/-! ### Lines -/

theorem splitIndent_crlf (column : Nat) (l : Text) : splitIndent column (crlf l)
    = ((splitIndent column l).1, crlf (splitIndent column l).2) := by
  fun_induction splitIndent column l with
  | case1 column cs ih => rw [crlf_cons (by decide), splitIndent, ih]
  | case2 column cs ih => rw [crlf_cons (by decide), splitIndent, ih]
  | case3 column cs hspace htab =>
    have hhead : ∀ d, d ≠ '\r' → ∀ ds, crlf cs = d :: ds → ∃ ds', cs = d :: ds' := by
      intro d hd ds heq
      cases cs with
      | nil => simp at heq
      | cons c cs =>
        by_cases hc : c = '\n'
        · rw [hc, crlf_newline] at heq
          exact absurd (List.cons.inj heq).1.symm hd
        · rw [crlf_cons hc] at heq
          exact ⟨cs, by rw [(List.cons.inj heq).1]⟩
    rw [splitIndent.eq_3]
    · intro ds heq
      obtain ⟨ds', h⟩ := hhead ' ' (by decide) ds heq
      exact hspace ds' h
    · intro ds heq
      obtain ⟨ds', h⟩ := hhead '\t' (by decide) ds heq
      exact htab ds' h

theorem title?_crlf {content : Text} (h : NewlineLast content) :
    title? (crlf content) = title? content := by
  obtain ⟨htake, hdrop⟩ := run_crlf '#' (by decide) (by decide) content
  have hrest : NewlineLast (content.dropWhile (· == '#')) := h.suffix (List.dropWhile_suffix _)
  rw [title?, title?, htake, hdrop, trim_crlf hrest]
  cases content.dropWhile (· == '#') with
  | nil => rfl
  | cons c rest =>
    by_cases hc : c = '\n'
    · rw [hc, crlf_newline]
      rfl
    · rw [crlf_cons hc]
      rfl

/-- A line is a heading with either line end. -/
theorem heading?_crlf {line : Text} (h : NewlineLast line) :
    heading? (crlf line) = heading? line := by
  rw [heading?, heading?, splitIndent_crlf]
  dsimp only
  rw [title?_crlf (h.suffix (splitIndent_suffix 0 line))]

/-- A line whose content starts with no mark starts no block. -/
theorem ofLine?_eq_none_of_head {line : Text}
    (h : ∀ c, (splitIndent 0 line).2.head? = some c → ¬ IsMark c) : Fence.ofLine? line = none := by
  rw [Fence.ofLine?]
  cases hsplit : splitIndent 0 line with
  | mk column content =>
    rw [hsplit] at h
    cases content with
    | nil => rfl
    | cons mark cs =>
      have hmark := mt Decidable.or_iff_not_not_and_not.mpr (h mark rfl)
      dsimp only
      rw [if_pos (Decidable.not_not.mp hmark), ite_self]

/-- A line starts a block with either line end, -/
theorem ofLine?_crlf (line : Text) : Fence.ofLine? (crlf line) = Fence.ofLine? line := by
  have hsplit := splitIndent_crlf 0 line
  by_cases hmark : ∃ mark, (splitIndent 0 line).2.head? = some mark ∧ IsMark mark
  · obtain ⟨mark, hhead, hmark⟩ := hmark
    obtain ⟨cs, hcs⟩ := List.head?_eq_some_iff.mp hhead
    have hnewline : mark ≠ '\n' := by rcases hmark with rfl | rfl <;> decide
    have hreturn : mark ≠ '\r' := by rcases hmark with rfl | rfl <;> decide
    obtain ⟨htake, hdrop⟩ := run_crlf mark hnewline hreturn (mark :: cs)
    have hcontains : ∀ note, (crlf note).contains backtick = note.contains backtick := by
      intro note
      rw [Bool.eq_iff_iff, List.contains_iff_mem, List.contains_iff_mem,
        mem_crlf (by decide) (by decide)]
    rw [hcs, crlf_cons hnewline] at hsplit
    rw [crlf_cons hnewline] at htake hdrop
    rw [Fence.ofLine?, Fence.ofLine?, hsplit]
    cases hline : splitIndent 0 line with
    | mk column content =>
      rw [hline] at hcs
      obtain rfl : content = mark :: cs := hcs
      dsimp only
      rw [htake, hdrop, hcontains]
  · have hnone : ∀ c, (splitIndent 0 line).2.head? = some c → ¬ IsMark c :=
      fun c hc hmark' => hmark ⟨c, hc, hmark'⟩
    rw [ofLine?_eq_none_of_head hnone]
    refine ofLine?_eq_none_of_head fun c hc => ?_
    rw [hsplit] at hc
    cases hcontent : (splitIndent 0 line).2 with
    | nil => simp [hcontent] at hc
    | cons d ds =>
      rw [hcontent] at hc hnone
      by_cases hd : d = '\n'
      · rw [hd, crlf_newline] at hc
        obtain rfl : '\r' = c := Option.some.inj hc
        rintro (h | h) <;> exact absurd h (by decide)
      · rw [crlf_cons hd] at hc
        exact hnone c hc

/-- and ends a block with either line end. -/
theorem closes_crlf {fence : Fence} (hmark : IsMark fence.mark) (line : Text) :
    fence.closes (crlf line) = fence.closes line := by
  obtain ⟨htake, hdrop⟩ := run_crlf fence.mark
    (by rcases hmark with h | h <;> rw [h] <;> decide)
    (by rcases hmark with h | h <;> rw [h] <;> decide) (splitIndent 0 line).2
  rw [Fence.closes, Fence.closes, splitIndent_crlf]
  dsimp only
  rw [htake, hdrop, isAllBlank_crlf]

theorem dropSpaces_crlf (n : Nat) (l : Text) : dropSpaces n (crlf l) = crlf (dropSpaces n l) := by
  fun_induction dropSpaces n l with
  | case1 n cs ih => rw [crlf_cons (by decide), dropSpaces, ih]
  | case2 n cs hspace =>
    rw [dropSpaces.eq_2]
    intro m ds hn heq
    cases cs with
    | nil => simp at heq
    | cons c cs =>
      by_cases hc : c = '\n'
      · rw [hc, crlf_newline] at heq
        exact absurd (List.cons.inj heq).1 (by decide)
      · rw [crlf_cons hc] at heq
        exact hspace m cs hn (by rw [(List.cons.inj heq).1])

/-! ### Events -/

/-- The event with the other line end in the lines of a block. -/
def Event.crlf : Event → Event
  | heading title => heading title
  | block lines => block (lines.map Text.crlf)

theorem block_crlf {fence : Fence} (hmark : IsMark fence.mark) (lines : List Text) :
    blockLines fence (lines.map crlf) = (blockLines fence lines).map crlf
      ∧ afterBlock fence (lines.map crlf) = (afterBlock fence lines).map crlf := by
  have hcloses : ((!fence.closes ·) ∘ crlf) = (!fence.closes ·) :=
    funext fun l => by rw [Function.comp_apply, closes_crlf hmark]
  constructor
  · rw [blockLines, List.takeWhile_map, hcloses, blockLines, List.map_map, List.map_map]
    exact List.map_congr_left fun l _ => dropSpaces_crlf fence.indent l
  · rw [afterBlock, List.dropWhile_map, hcloses, afterBlock, List.map_drop]

/-- Lines make the same events with either line end. -/
theorem events_crlf {lines : List Text} (h : ∀ l ∈ lines, NewlineLast l) :
    events (lines.map crlf) = (events lines).map Event.crlf := by
  fun_induction events lines with
  | case1 => rw [List.map_nil, events, List.map_nil]
  | case2 line lines title hheading ih =>
    have htitle := hheading
    rw [← heading?_crlf (h line (by simp))] at htitle
    rw [List.map_cons, events, htitle]
    dsimp only
    rw [ih fun l hl => h l (by simp [hl])]
    rfl
  | case3 line lines hheading fence hfence _ ih =>
    rw [← heading?_crlf (h line (by simp))] at hheading
    obtain ⟨_, -, -, -, hmark, -⟩ := ofLine?_eq_some.mp hfence
    rw [← ofLine?_crlf] at hfence
    obtain ⟨hlines, hafter⟩ := block_crlf hmark lines
    rw [List.map_cons, events, hheading, hfence]
    dsimp only
    rw [hlines, hafter, ih fun l hl => h l (by simp [(afterBlock_suffix fence lines).subset hl])]
    rfl
  | case4 line lines hheading hfence ih =>
    rw [← heading?_crlf (h line (by simp))] at hheading
    rw [← ofLine?_crlf] at hfence
    rw [List.map_cons, events, hheading, hfence]
    exact ih fun l hl => h l (by simp [hl])

theorem pick?_crlf (s : Section) (es : List Event) : ∀ named : Bool,
    pick? s named (es.map Event.crlf) = (pick? s named es).map (·.map crlf) := by
  induction es with
  | nil => exact fun _ => rfl
  | cons event es ih =>
    intro named
    cases event with
    | heading title => exact ih _
    | block lines =>
      cases named with
      | true => rfl
      | false => exact ih false

/-! ### Fragments -/

/-- The blank lines of a block reach as far as its margin, those in front apart. -/
def BlanksAligned (lines : List Text) : Prop := BlanksAtMargin (lines.dropWhile isAllBlank).flatten

instance (lines : List Text) : Decidable (BlanksAligned lines) :=
  inferInstanceAs (Decidable (BlanksAtMargin _))

/-- A block that does not start with a blank line is empty or has more than blanks. -/
theorem exists_solid (lines : List Text) : (lines.dropWhile isAllBlank).flatten = []
    ∨ ∃ c ∈ (lines.dropWhile isAllBlank).flatten, isIndentChar c = false ∧ c ≠ '\n' := by
  have hhead := List.head?_dropWhile_not isAllBlank lines
  cases hlines : lines.dropWhile isAllBlank with
  | nil => exact .inl rfl
  | cons l ls =>
    rw [hlines] at hhead
    have hsolid : isAllBlank l = false := by simpa using hhead
    obtain ⟨c, hc, hblank⟩ := List.all_eq_false.mp hsolid
    refine .inr ⟨c, by simp [hc], ?_, ?_⟩
    · rw [Bool.eq_false_iff]
      intro hindent
      have hc : c = ' ' ∨ c = '\t' := by simpa [isIndentChar] using hindent
      rcases hc with rfl | rfl <;> exact hblank (by decide)
    · rintro rfl
      exact hblank (by decide)

theorem fragment_crlf (lines : List Text) :
    fragment (lines.map crlf) = crlf (fragment lines) ↔ BlanksAligned lines := by
  have hblank : isAllBlank ∘ crlf = isAllBlank := funext isAllBlank_crlf
  rw [fragment, List.dropWhile_map, hblank, ← crlf_flatten, fragment, BlanksAligned,
    withoutMargin_crlf (exists_solid lines)]

/-- The section has the block with the lines in the document. -/
def BlockOf (document : Text) (s : Section) (lines : List Text) : Prop :=
  ∃ events, Reads (physicalLines document) events ∧ Chosen events s lines

theorem blockOf_iff {document : Text} {s : Section} {lines : List Text} : BlockOf document s lines
    ↔ pick? s false (events (physicalLines document)) = some lines := by
  simp [BlockOf, reads_iff, pick?_false_eq_some]

theorem blockOf_crlf {document : Text} (h : '\r' ∉ document) (s : Section) :
    pick? s false (events (physicalLines (crlf document)))
      = (pick? s false (events (physicalLines document))).map (·.map crlf) := by
  rw [physicalLines_crlf h, events_crlf newlineLast_of_mem_physicalLines, pick?_crlf]

/-- The same sections are missing. -/
theorem missing_crlf {document : Text} (h : '\r' ∉ document) :
    (outline {} (physicalLines (crlf document))).missing
      = (outline {} (physicalLines document)).missing := by
  refine List.filter_congr fun s _ => ?_
  rw [fragment?_outline, fragment?_outline, blockOf_crlf h]
  simp

/-- **Documents with the other line end.**  A document without carriage returns lacks the same
sections when its lines end with carriage returns and newlines.  Otherwise the blocks are the
same up to their line ends; the fragments are the same up to theirs exactly if the blank lines
of the blocks reach as far as their margins. -/
theorem fragments_crlf {document : Text} (h : '\r' ∉ document) (file : Option Text) :
    (∀ fault, fragments (crlf document) file = .error fault
      ↔ fragments document file = .error fault)
    ∧ ∀ found, fragments document file = .ok found →
      ∃ snippet patch, BlockOf document .snippet snippet ∧ BlockOf document .patch patch
        ∧ fragments (crlf document) file
          = .ok ⟨fragment (snippet.map crlf), fragment (patch.map crlf)⟩
        ∧ (fragments (crlf document) file = .ok ⟨crlf found.snippet, crlf found.patch⟩
          ↔ BlanksAligned snippet ∧ BlanksAligned patch) := by
  constructor
  · intro fault
    rw [fragments_eq_error, fragments_eq_error, missing_crlf h]
  · rintro ⟨body, body'⟩ hok
    rw [fragments_eq_ok, fragment?_outline, fragment?_outline] at hok
    obtain ⟨snippet, hsnippet, rfl⟩ := Option.map_eq_some_iff.mp hok.1
    obtain ⟨patch, hpatch, rfl⟩ := Option.map_eq_some_iff.mp hok.2
    have hcrlf : fragments (crlf document) file
        = .ok ⟨fragment (snippet.map crlf), fragment (patch.map crlf)⟩ := by
      rw [fragments_eq_ok, fragment?_outline, fragment?_outline, blockOf_crlf h, blockOf_crlf h,
        hsnippet, hpatch]
      exact ⟨rfl, rfl⟩
    refine ⟨snippet, patch, blockOf_iff.mpr hsnippet, blockOf_iff.mpr hpatch, hcrlf, ?_⟩
    rw [hcrlf, Except.ok.injEq, Fragments.mk.injEq, fragment_crlf, fragment_crlf]

/-- A blank line as long as the margin: the fragments are the same up to their line ends. -/
theorem fragments_crlf_blank_at_margin :
    fragments (crlf "# match\n~~~\n a\n \n b\n~~~\n# patch\n~~~\n~~~\n".toList) none
      = .ok ⟨crlf "a\n\nb\n".toList, []⟩ := by
  have hok : fragments "# match\n~~~\n a\n \n b\n~~~\n# patch\n~~~\n~~~\n".toList none
      = .ok ⟨"a\n\nb\n".toList, []⟩ := by
    rw [fragments_eq_ok]
    decide +kernel
  obtain ⟨snippet, patch, hsnippet, hpatch, -, hiff⟩ :=
    (fragments_crlf (by decide +kernel) none).2 _ hok
  have hlines : some snippet = some [" a\n".toList, " \n".toList, " b\n".toList] :=
    (blockOf_iff.mp hsnippet).symm.trans (by decide +kernel)
  have hnone : some patch = some [] := (blockOf_iff.mp hpatch).symm.trans (by decide +kernel)
  obtain rfl := Option.some.inj hlines
  obtain rfl := Option.some.inj hnone
  exact hiff.mpr (by decide +kernel)

/-- An empty line inside an indented block keeps the margin there. -/
theorem fragments_crlf_empty_line :
    '\r' ∉ "# match\n~~~\n  a\n\n  b\n~~~\n# patch\n~~~\n~~~\n".toList
    ∧ fragments "# match\n~~~\n  a\n\n  b\n~~~\n# patch\n~~~\n~~~\n".toList none
      = .ok ⟨"a\n\nb\n".toList, []⟩
    ∧ fragments (crlf "# match\n~~~\n  a\n\n  b\n~~~\n# patch\n~~~\n~~~\n".toList) none
      = .ok ⟨"  a\r\n\r\n  b\r\n".toList, []⟩ := by
  rw [fragments_eq_ok, fragments_eq_ok]
  decide +kernel

end Document

end Graft
