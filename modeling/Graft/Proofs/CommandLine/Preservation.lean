/-
What a command line preserves of its source file.

The source is read with all line ends as newlines and written as it was read.  So in front of the
patch and behind it the output has the source with newlines for line ends, but for a newline that
a block may need in front of it.  These are the bytes of the file exactly where it has no carriage
return:

* `Text.isPrefix_iff`, `Text.isSuffix_iff` — where unifying line ends changes nothing;
* `exists_splice_of_applyDocument` — a patched text is a splice of the source;
* `splice_front`, `splice_behind` — the parts of the source around a patch;
* `run_preserves` — the bytes around the patch after a command line.
-/
import Graft.Proofs.CommandLine.Effects
import Graft.Proofs.Splice.Conservation
import Graft.Proofs.Text.Encoding

namespace Graft

namespace Text

/-! ### Unified line ends -/

theorem unifyLineEnds_cons {c : Char} (hc : c ≠ '\r') (cs : Text) :
    unifyLineEnds (c :: cs) = c :: unifyLineEnds cs := by
  rw [unifyLineEnds.eq_3 _ _ fun _ h _ => hc h, if_neg hc]

theorem return_not_mem_unifyLineEnds (t : Text) : '\r' ∉ unifyLineEnds t := by
  fun_induction unifyLineEnds t with
  | case1 => simp
  | case2 cs ih => simpa using ih
  | case3 c cs _ ih =>
    rw [List.mem_cons, not_or]
    refine ⟨?_, ih⟩
    split
    · decide
    · exact Ne.symm ‹_›

theorem length_unifyLineEnds_le (t : Text) : (unifyLineEnds t).length ≤ t.length := by
  fun_induction unifyLineEnds t with
  | case1 => exact Nat.le_refl _
  | case2 cs ih =>
    simp only [List.length_cons]
    omega
  | case3 c cs _ ih => exact Nat.succ_le_succ ih

/-- A part without carriage returns stays as it is. -/
theorem unifyLineEnds_append {a : Text} (ha : '\r' ∉ a) (b : Text) :
    unifyLineEnds (a ++ b) = a ++ unifyLineEnds b := by
  induction a with
  | nil => rfl
  | cons c a ih =>
    obtain ⟨hc, ha⟩ : '\r' ≠ c ∧ '\r' ∉ a := by simpa using ha
    rw [List.cons_append, unifyLineEnds_cons hc.symm, ih ha, List.cons_append]

/-- A character in front of a text changes nothing in the text. -/
theorem unifyLineEnds_isSuffix (c : Char) (cs : Text) :
    unifyLineEnds cs <:+ unifyLineEnds (c :: cs) := by
  generalize ht : c :: cs = t
  fun_cases unifyLineEnds t with
  | case1 => simp at ht
  | case2 rest =>
    -- the carriage return is part of the line end behind it
    obtain ⟨rfl, rfl⟩ := List.cons.inj ht
    exact ⟨[], by rw [List.nil_append, unifyLineEnds_cons (by decide)]⟩
  | case3 d rest =>
    obtain ⟨rfl, rfl⟩ := List.cons.inj ht
    exact List.suffix_cons _ _

/-- What ends a text and has no carriage return stays at its end. -/
theorem isSuffix_unifyLineEnds_append {b : Text} (hb : '\r' ∉ b) (a : Text) :
    b <:+ unifyLineEnds (a ++ b) := by
  induction a with
  | nil =>
    have hself := unifyLineEnds_append hb []
    rw [unifyLineEnds, List.append_nil] at hself
    exact ⟨[], by rw [List.nil_append, hself]⟩
  | cons c a ih => exact ih.trans (unifyLineEnds_isSuffix c (a ++ b))

/-- The start of a text with unified line ends is that of the text if no carriage return stands
there. -/
theorem isPrefix_iff {p s : Text} (h : p <+: unifyLineEnds s) :
    p <+: s ↔ '\r' ∉ s.take p.length := by
  constructor
  · intro hp hreturn
    rw [← List.prefix_iff_eq_take.mp hp] at hreturn
    exact return_not_mem_unifyLineEnds s (h.subset hreturn)
  · intro hreturn
    have hlength := Nat.le_trans h.length_le (length_unifyLineEnds_le s)
    have hunified := unifyLineEnds_append hreturn (s.drop p.length)
    rw [List.take_append_drop] at hunified
    rw [hunified] at h
    have htake : s.take p.length <+: s.take p.length ++ unifyLineEnds (s.drop p.length) :=
      List.prefix_append _ _
    exact (List.prefix_of_prefix_length_le h htake (by simp [hlength])).trans
      (List.take_prefix _ s)

/-- The end of a text with unified line ends is that of the text if no carriage return stands
there. -/
theorem isSuffix_iff {q s : Text} (h : q <:+ unifyLineEnds s) :
    q <:+ s ↔ '\r' ∉ s.drop (s.length - q.length) := by
  constructor
  · intro hq hreturn
    rw [← List.suffix_iff_eq_drop.mp hq] at hreturn
    exact return_not_mem_unifyLineEnds s (h.subset hreturn)
  · intro hreturn
    have hlength := Nat.le_trans h.length_le (length_unifyLineEnds_le s)
    have hend := isSuffix_unifyLineEnds_append hreturn (s.take (s.length - q.length))
    rw [List.take_append_drop] at hend
    exact (List.suffix_of_suffix_length_le h hend (by simp; omega)).trans (List.drop_suffix _ s)

/-- The text without a newline at its end. -/
def withoutNewline (t : Text) : Text := if endsWithNewline t then t.dropLast else t

theorem eq_withoutNewline (t : Text) : t = withoutNewline t ∨ t = withoutNewline t ++ ['\n'] := by
  rw [withoutNewline]
  split
  · exact .inr (Splice.dropLast_append_newline ‹_›).symm
  · exact .inl rfl

theorem withoutNewline_append (t : Text) : withoutNewline (t ++ ['\n']) = t := by
  rw [withoutNewline, if_pos (by simp [endsWithNewline]), List.dropLast_concat]

theorem withoutNewline_isPrefix (t : Text) : withoutNewline t <+: t := by
  rw [withoutNewline]
  split
  · exact List.dropLast_prefix t
  · exact List.prefix_refl t

end Text

open Text

/-! ### The parts of a patched text -/

/-- The text in front of the patch. -/
def Patched.front (patched : Patched) : Text := patched.text.upTo patched.inserted.offset

/-- The text behind the patch. -/
def Patched.behind (patched : Patched) : Text := patched.text.startingAt patched.inserted.endOffset

/-- A text is the start of a source, but for one newline at its end. -/
def StartsSource (source front : Text) : Prop :=
  ∃ start, start <+: source ∧ (front = start ∨ front = start ++ ['\n'])

theorem splice_front (source patch : Text) (found : Match) (style : Style) :
    StartsSource source ((splice source found patch style).text.upTo
      (splice source found patch style).inserted.offset) := by
  obtain ⟨start, cut, hbefore, -, hhead⟩ :=
    Splice.exists_head_eq style found.insertion (source.upTo found.insertion)
  have hstart : start <+: source :=
    (List.prefix_append start cut).trans (hbefore ▸ List.take_prefix _ source)
  refine ⟨start, hstart, ?_⟩
  have hfront : (splice source found patch style).text.upTo
      (splice source found patch style).inserted.offset
        = Splice.head style found.insertion (source.upTo found.insertion) := by
    show upTo (_ ++ _ ++ _) ((Splice.head _ _ _).length : Nat) = _
    rw [upTo_natCast, List.append_assoc, List.take_left]
  rwa [hfront]

theorem splice_behind (source patch : Text) (found : Match) (style : Style) :
    (splice source found patch style).text.startingAt
      (splice source found patch style).inserted.endOffset <:+ source := by
  have hbehind : (splice source found patch style).text.startingAt
      (splice source found patch style).inserted.endOffset
        = source.startingAt (Splice.resume found) := by
    show startingAt (_ ++ _ ++ _) (((Splice.head _ _ _).length + (Splice.body _ _ _).length : Nat) :
      Int) = _
    rw [startingAt_natCast, ← List.length_append, List.drop_left]
  rw [hbehind]
  exact List.drop_suffix _ source

/-- A patched text is a splice of the source. -/
theorem exists_splice_of_applyDocument {surroundings : Surroundings} {settings : Settings}
    {tokenizer : Option Tokenizer} {source document : Text} {file : Option Text}
    {patched : Patched} (h : (Patch.applyDocument surroundings settings tokenizer source document
      file).result = .ok patched) :
    ∃ found patch style, patched.text = (splice source found patch style).text
      ∧ patched.inserted = (splice source found patch style).inserted := by
  have happlied : ∀ {tokenizer : Tokenizer} {snippet patch : Text},
      (Patch.applyWith settings tokenizer source snippet patch).result = .ok patched →
      ∃ found patch style, patched.text = (splice source found patch style).text
        ∧ patched.inserted = (splice source found patch style).inserted := by
    intro tokenizer snippet patch h
    obtain ⟨tokens, -, h⟩ := Outcome.exists_of_andThen h
    obtain ⟨found, -, h⟩ := Outcome.exists_of_andThen h
    obtain rfl := Except.ok.inj h
    exact ⟨found, patch, Style.ofSnippet snippet, rfl, rfl⟩
  obtain ⟨fragments, -, h⟩ := Outcome.exists_of_andThen h
  cases tokenizer with
  | some tokenizer => exact happlied h
  | none =>
    obtain ⟨tokenizer, -, h⟩ := Outcome.exists_of_andThen h
    exact happlied h

/-! ### The bytes around a patch -/

/-- The bytes of a text are the first ones of a file, but for one newline at the end of the
text. -/
def StartsBytes (bytes : List UInt8) (front : Text) : Prop :=
  ∃ start, Utf8.encode start <+: bytes ∧ (front = start ∨ front = start ++ ['\n'])

/-- The front is that of the file's bytes if no carriage return stands there. -/
theorem startsBytes_iff {s front : Text} (h : StartsSource (unifyLineEnds s) front) :
    StartsBytes (Utf8.encode s) front ↔ '\r' ∉ s.take (withoutNewline front).length := by
  obtain ⟨start, hstart, hfront⟩ := h
  have hunified : withoutNewline front <+: unifyLineEnds s := by
    rcases hfront with rfl | rfl
    · exact (withoutNewline_isPrefix _).trans hstart
    · rwa [withoutNewline_append]
  rw [← isPrefix_iff hunified]
  constructor
  · rintro ⟨start', hbytes, hfront'⟩
    have hstart' := Utf8.encode_isPrefix_iff.mp hbytes
    rcases hfront' with rfl | rfl
    · exact (withoutNewline_isPrefix _).trans hstart'
    · rwa [withoutNewline_append]
  · intro hprefix
    exact ⟨withoutNewline front, Utf8.encode_isPrefix_iff.mpr hprefix, eq_withoutNewline front⟩

theorem endsBytes_iff {s behind : Text} (h : behind <:+ unifyLineEnds s) :
    Utf8.encode behind <:+ Utf8.encode s ↔ '\r' ∉ s.drop (s.length - behind.length) := by
  rw [Utf8.encode_isSuffix_iff, isSuffix_iff h]

namespace CommandLine

variable {surroundings : Surroundings} {tree : FileTree} {resolve : Editor.Resolver}
  {arguments : List Text} {endings : List Editor.Ending}

/-- **What a command line preserves.**  A run that returns zero leaves the output with a patched
text.  In front of the patch this is the start of the source with unified line ends, up to one
newline, and behind the patch it is the end of that source.  Both are parts of the file, byte for
byte, exactly if the file has no carriage return in the part of that length. -/
theorem run_preserves
    (hexit : (run surroundings resolve tree arguments endings).exit = .returned 0) :
    ∃ request source output s patched,
      Request.ofWords surroundings.registry.names arguments = .ok request
      ∧ request.source = some source ∧ tree.read (.ofText source) = .ok (Utf8.encode s)
      ∧ request.Yields surroundings tree patched
      ∧ request.output = some output
      ∧ OnlyChanges tree (run surroundings resolve tree arguments endings).tree output
        patched.text
      ∧ StartsSource (unifyLineEnds s) patched.front ∧ patched.behind <:+ unifyLineEnds s
      ∧ (StartsBytes (Utf8.encode s) patched.front
        ↔ '\r' ∉ s.take (withoutNewline patched.front).length)
      ∧ (Utf8.encode patched.behind <:+ Utf8.encode s
        ↔ '\r' ∉ s.drop (s.length - patched.behind.length)) := by
  obtain ⟨request, patched, hrequest, hexecute, htree⟩ := exists_execute_of_returned hexit
  obtain ⟨hyields, output, houtput, hchanges⟩ := execute_done hexecute
  obtain ⟨source, document, s, d, hsource, hdocument, hread, hreadDocument, happly⟩ := hyields
  obtain ⟨found, patch, style, htext, hinserted⟩ := exists_splice_of_applyDocument happly
  have hfront : StartsSource (unifyLineEnds s) patched.front := by
    rw [Patched.front, htext, hinserted]
    exact splice_front _ _ _ _
  have hbehind : patched.behind <:+ unifyLineEnds s := by
    rw [Patched.behind, htext, hinserted]
    exact splice_behind _ _ _ _
  refine ⟨request, source, output, s, patched, hrequest, hsource, hread,
    ⟨source, document, s, d, hsource, hdocument, hread, hreadDocument, happly⟩, houtput, ?_,
    hfront, hbehind, startsBytes_iff hfront, endsBytes_iff hbehind⟩
  rw [htree]
  exact hchanges

/-- A source, and a document that puts a line in front of its last one. -/
def shelfTree (source : Text) : FileTree :=
  { entries := [(["a".toList], .file (Utf8.encode source)),
      (["m".toList], .file (Utf8.encode
        "### match\n```\na;\nb;\n>>>\nc;\n```\n### patch\n```\nd;\n```\n".toList))] }

/-- Patching that source. -/
def shelfRequest : Request :=
  { source := some "a".toList, document := some "m".toList, output := some "o".toList }

/-- A file with newlines keeps its bytes around the patch. -/
theorem run_preserves_newlines :
    let tree := shelfTree "a;\nb; /* é */\nc;\n".toList
    let report := run {} (Editor.bySpelling none) tree
      ["-sa".toList, "-mm".toList, "-oo".toList] []
    report.exit = .returned 0 ∧ ∃ (bytes : List UInt8) (patched : Patched),
      tree.read (.ofText "a".toList) = .ok bytes
      ∧ OnlyChanges tree report.tree "o".toList patched.text
      ∧ StartsBytes bytes patched.front ∧ Utf8.encode patched.behind <:+ bytes := by
  intro tree report
  have hexit : report.exit = .returned 0 := by decide +kernel
  have hwords : (Request.ofWords Registry.initial.names
      ["-sa".toList, "-mm".toList, "-oo".toList]).toOption = some shelfRequest := by decide +kernel
  have hread : tree.read (.ofText "a".toList)
      = .ok (Utf8.encode "a;\nb; /* é */\nc;\n".toList) := by rfl
  obtain ⟨request, source, output, s, patched, hrequest, hsource, hbytes, -, houtput, hchanges, -,
    -, hfront, hbehind⟩ := run_preserves hexit
  rw [hrequest] at hwords
  obtain rfl := Option.some.inj hwords
  obtain rfl := Option.some.inj hsource
  obtain rfl := Option.some.inj houtput
  obtain rfl : _ = s := Utf8.encode_inj (Except.ok.inj (hread.symm.trans hbytes))
  have hreturn : '\r' ∉ "a;\nb; /* é */\nc;\n".toList := by decide
  exact ⟨hexit, _, patched, hread, hchanges, hfront.mpr fun h => hreturn (List.mem_of_mem_take h),
    hbehind.mpr fun h => hreturn (List.mem_of_mem_drop h)⟩

/-- In a file with carriage returns the bytes around the patch are lost. -/
theorem run_loses_returns :
    let source := "a;\r\nb;\r\nc;\r\n".toList
    let report := run {} (Editor.bySpelling none) (shelfTree source)
      ["-sa".toList, "-mm".toList, "-oo".toList] []
    report.exit = .returned 0 ∧ ∃ patched : Patched,
      (patch {} (shelfTree source) shelfRequest).result = .ok patched
      ∧ (report.tree.read (.ofText "o".toList)).toOption = some (Utf8.encode patched.text)
      ∧ ¬ StartsBytes (Utf8.encode source) patched.front
      ∧ ¬ Utf8.encode patched.behind <:+ Utf8.encode source := by
  intro source report
  have hfront : StartsSource (unifyLineEnds source) "a;\nb;\n".toList :=
    ⟨"a;\nb;\n".toList, by decide, .inl rfl⟩
  have hbehind : "c;\n".toList <:+ unifyLineEnds source := by decide
  refine ⟨by decide +kernel, ⟨"a;\nb;\nd;\nc;\n".toList, ⟨6, none⟩, .block,
    ⟨3, 1, 6, 9, some 4, some 1, none⟩⟩, ok_of_toOption (by decide +kernel), by decide +kernel,
    ?_, ?_⟩
  · exact fun h => absurd ((startsBytes_iff hfront).mp h) (by decide)
  · exact fun h => absurd ((endsBytes_iff hbehind).mp h) (by decide)

end CommandLine

end Graft
