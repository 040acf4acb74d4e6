/-
Lines of a text and their indentation.

The lines of a patch are taken apart, indented and put together again.  Character by
character this is one pass over the text: an indentation is put behind every newline,
and a carriage return in front of one goes (`reindent`).

* `between_append` — the middle one of three parts of a text;
* `withoutLastLine_append_lastLine`, `lastLine_append` — a text is cut at its last newline;
* `indented_eq` — indenting line by line is reindenting;
* `reindent_append`, `reindent_unlines` — reindenting in parts, and line by line;
* `splitAtChar_unlines`, `exists_unlines` — the lines of a text that ends a line;
* `kept_append`, `indent_append` — the indentation in front of an insertion.
-/
import Graft.Proofs.Lexing.Seams
import Graft.Splice

namespace Graft.Text

open Lexeme (StopsAt)

theorem upTo_natCast (t : Text) (n : Nat) : t.upTo n = t.take n := by
  rw [upTo, cutPoint, if_neg (by omega), Int.toNat_natCast]

theorem startingAt_natCast (t : Text) (n : Nat) : t.startingAt n = t.drop n := by
  rw [startingAt, cutPoint, if_neg (by omega), Int.toNat_natCast]

theorem between_natCast (t : Text) (start stop : Nat) :
    t.between start stop = (t.take stop).drop start := by
  rw [between, upTo_natCast, cutPoint, if_neg (by omega), Int.toNat_natCast]

/-- The middle one of three parts lies between the ends of the other two. -/
theorem between_append (a b c : Text) :
    between (a ++ b ++ c) a.length (a.length + b.length) = b := by
  have hlength : (a.length + b.length : Int) = ((a ++ b).length : Nat) := by simp
  rw [between, hlength, upTo_natCast, List.take_left]
  show (a ++ b).drop (cutPoint _ (a.length : Nat)) = b
  rw [cutPoint, if_neg (by omega), Int.toNat_natCast, List.drop_left]

/-! ### The last line -/

theorem withoutLastLine_append_lastLine (t : Text) : withoutLastLine t ++ lastLine t = t := by
  rw [withoutLastLine, lastLine, ← List.reverse_append, List.takeWhile_append_dropWhile,
    List.reverse_reverse]

theorem endsLine_iff_stopsAt {t : Text} : EndsLine t ↔ StopsAt (· != '\n') t.reverse := by
  rw [EndsLine, StopsAt, List.head?_reverse, ← List.getLast?_eq_none_iff]
  cases t.getLast? <;> simp

theorem endsLine_withoutLastLine (t : Text) : EndsLine (withoutLastLine t) := by
  rw [endsLine_iff_stopsAt, withoutLastLine, List.reverse_reverse]
  exact Lexeme.stopsAt_dropWhile

theorem newline_not_mem_lastLine (t : Text) : '\n' ∉ lastLine t := by
  intro h
  have hne := Lexeme.forall_mem_takeWhile _ (List.mem_reverse.mp h)
  simp at hne

/-- Behind the end of a line the last line starts. -/
theorem lastLine_append {a b : Text} (ha : EndsLine a) (hb : '\n' ∉ b) :
    lastLine (a ++ b) = b ∧ withoutLastLine (a ++ b) = a := by
  have hb' : ∀ c ∈ b.reverse, (c != '\n') = true := by
    intro c hc
    have hne : c ≠ '\n' := fun h => hb (h ▸ List.mem_reverse.mp hc)
    simpa using hne
  have ha' := endsLine_iff_stopsAt.mp ha
  constructor
  · rw [lastLine, List.reverse_append, Lexeme.takeWhile_stops hb' ha', List.reverse_reverse]
  · rw [withoutLastLine, List.reverse_append, Lexeme.dropWhile_stops hb' ha', List.reverse_reverse]

/-! ### Indenting character by character -/

/-- The text with an indentation behind every newline; a carriage return in front of a
newline goes. -/
def reindent (indent : Text) : Text → Text
  | [] => []
  | '\r' :: '\n' :: cs => '\n' :: (indent ++ reindent indent cs)
  | c :: cs => if c = '\n' then '\n' :: (indent ++ reindent indent cs) else c :: reindent indent cs

variable {indent : Text}

theorem reindent_newline (cs : Text) :
    reindent indent ('\n' :: cs) = '\n' :: (indent ++ reindent indent cs) := by
  rw [reindent.eq_3 _ _ _ (by simp), if_pos rfl]

theorem reindent_return (cs : Text) :
    reindent indent ('\r' :: '\n' :: cs) = reindent indent ('\n' :: cs) := by
  rw [reindent, reindent_newline]

theorem reindent_cons {c : Char} {cs : Text} (hc : c ≠ '\n')
    (hreturn : ¬ (c = '\r' ∧ cs.head? = some '\n')) :
    reindent indent (c :: cs) = c :: reindent indent cs := by
  rw [reindent.eq_3, if_neg hc]
  rintro ds rfl rfl
  exact hreturn ⟨rfl, rfl⟩

/-- Text without a newline is left alone, but for a carriage return at its end. -/
theorem reindent_append {x rest : Text} (hx : '\n' ∉ x)
    (hreturn : ¬ (x.getLast? = some '\r' ∧ rest.head? = some '\n')) :
    reindent indent (x ++ rest) = x ++ reindent indent rest := by
  induction x with
  | nil => rfl
  | cons c x ih =>
    have hmem : '\n' ≠ c ∧ '\n' ∉ x := by simpa using hx
    rw [List.cons_append, reindent_cons hmem.1.symm, ih hmem.2, List.cons_append]
    · rintro ⟨hlast, hhead⟩
      refine hreturn ⟨?_, hhead⟩
      rw [List.getLast?_cons, hlast]
      rfl
    · rintro ⟨rfl, hhead⟩
      cases x with
      | nil => exact hreturn ⟨rfl, by simpa using hhead⟩
      | cons d x => exact hmem.2 (by simp_all)

/-! ### Indenting line by line -/

theorem join_append_head (x y : Text) (rest : List Text) :
    join ['\n'] ((x ++ y) :: rest) = x ++ join ['\n'] (y :: rest) := by
  cases rest <;> simp [join, List.intercalate]

theorem join_cons {rest : List Text} (hrest : rest ≠ []) (line : Text) :
    join ['\n'] (line :: rest) = line ++ '\n' :: join ['\n'] rest := by
  cases rest with
  | nil => exact absurd rfl hrest
  | cons next rest => simp [join, List.intercalate]

theorem lines_ne_nil (t : Text) : lines t ≠ [] := by
  fun_cases lines t <;> simp_all

/-- Indenting line by line is reindenting. -/
theorem indented_eq (indent t : Text) : Splice.indented indent t = indent ++ reindent indent t := by
  rw [Splice.indented]
  fun_induction lines t with
  | case1 => simp [join, List.intercalate, reindent]
  | case2 cs ih =>
    rw [List.map_cons, join_cons (by simpa using lines_ne_nil cs), ih, reindent, List.append_nil]
  | case3 cs _ ih =>
    rw [List.map_cons, join_cons (by simpa using lines_ne_nil cs), ih, reindent_newline,
      List.append_nil]
  | case4 c cs _ _ hnil _ => exact absurd hnil (lines_ne_nil cs)
  | case5 c cs hreturn hc line rest hlines ih =>
    have hcons : reindent indent (c :: cs) = c :: reindent indent cs := by
      refine reindent_cons hc ?_
      rintro ⟨rfl, hhead⟩
      cases cs with
      | nil => simp at hhead
      | cons d cs => exact hreturn cs rfl (by simp_all)
    have hrest : join ['\n'] (line :: rest.map (indent ++ ·)) = reindent indent cs := by
      rw [hlines, List.map_cons, join_append_head] at ih
      exact List.append_cancel_left ih
    rw [List.map_cons, join_append_head, hcons, ← hrest]
    congr 1
    exact join_append_head [c] line _

/-! ### Texts made of lines -/

/-- The lines with a newline behind each of them. -/
def unlines (ls : List Text) : Text := ls.flatMap (· ++ ['\n'])

theorem unlines_cons (l : Text) (ls : List Text) : unlines (l :: ls) = l ++ '\n' :: unlines ls := by
  simp [unlines]

theorem endsLine_unlines (ls : List Text) : EndsLine (unlines ls) := by
  induction ls with
  | nil => exact .inl rfl
  | cons l ls ih =>
    rw [unlines_cons]
    rcases ih with hnil | hlast
    · exact .inr (by simp [hnil])
    · exact .inr (by simp [hlast, List.getLast?_cons])

theorem splitAtChar_append_sep {c : Char} {x : Text} (hx : c ∉ x) (t : Text) :
    splitAtChar c (x ++ c :: t) = x :: splitAtChar c t := by
  induction x with
  | nil => simp [splitAtChar]
  | cons d x ih =>
    obtain ⟨hd, hx⟩ : c ≠ d ∧ c ∉ x := by simpa using hx
    rw [List.cons_append, splitAtChar, if_neg (Ne.symm hd), ih hx]

/-- Lines in front of a text are its first lines. -/
theorem splitAtChar_unlines {ls : List Text} (hls : ∀ l ∈ ls, '\n' ∉ l) (t : Text) :
    splitAtChar '\n' (unlines ls ++ t) = ls ++ splitAtChar '\n' t := by
  induction ls with
  | nil => rfl
  | cons l ls ih =>
    rw [unlines_cons, List.append_assoc, List.cons_append, splitAtChar_append_sep (hls l (by simp)),
      ih fun k hk => hls k (by simp [hk]), List.cons_append]

/-- A text that ends a line is made of lines. -/
theorem exists_unlines {t : Text} (h : EndsLine t) :
    ∃ ls, (∀ l ∈ ls, '\n' ∉ l) ∧ t = unlines ls := by
  induction t with
  | nil => exact ⟨[], by simp, rfl⟩
  | cons c t ih =>
    obtain ⟨ls, hls, rfl⟩ := ih (EndsLine.right (a := [c]) h)
    by_cases hc : c = '\n'
    · exact ⟨[] :: ls, by simpa using hls, by rw [unlines_cons, hc, List.nil_append]⟩
    · cases ls with
      | nil => exact absurd (by simpa [EndsLine, unlines] using h) hc
      | cons l ls =>
        refine ⟨(c :: l) :: ls, ?_, by rw [unlines_cons, unlines_cons, List.cons_append]⟩
        simpa [Ne.symm hc] using hls

/-- Reindenting lines puts the indentation in front of each of them, and behind the
last. -/
theorem reindent_unlines {ls : List Text} (hls : ∀ l ∈ ls, '\n' ∉ l ∧ '\r' ∉ l) :
    indent ++ reindent indent (unlines ls) = unlines (ls.map (indent ++ ·)) ++ indent := by
  induction ls with
  | nil => simp [unlines, reindent]
  | cons l ls ih =>
    obtain ⟨hnewline, hreturn⟩ := hls l (by simp)
    have hrest := ih fun k hk => hls k (by simp [hk])
    rw [unlines_cons, reindent_append hnewline fun h => hreturn (List.mem_of_getLast? h.1),
      reindent_newline, hrest, List.map_cons, unlines_cons]
    simp

theorem lines_newline (cs : Text) : lines ('\n' :: cs) = [] :: lines cs := by
  rw [lines.eq_3 _ _ (by simp), if_pos rfl]

theorem lines_cons {c : Char} {cs line : Text} {rest : List Text} (hc : c ≠ '\n')
    (hreturn : ¬ (c = '\r' ∧ cs.head? = some '\n')) (hlines : lines cs = line :: rest) :
    lines (c :: cs) = (c :: line) :: rest := by
  rw [lines.eq_3, if_neg hc, hlines]
  rintro ds rfl rfl
  exact hreturn ⟨rfl, rfl⟩

/-- The lines of a text whose first part ends a line are those of that part, which stand
in it, and those behind it. -/
theorem exists_lines_append {a : Text} (b : Text) (ha : EndsLine a) :
    ∃ ls, lines (a ++ b) = ls ++ lines b ∧ (a ≠ [] → ls ≠ [])
      ∧ (∀ l ∈ ls, l <:+: a) ∧ ∀ l, ls.head? = some l → l <+: a := by
  -- an empty line in front of the lines behind a line end
  have hbreak : ∀ (sign : Text) {cs : Text} {ls : List Text}, (∀ l ∈ ls, l <:+: cs) →
      (∀ l ∈ [] :: ls, l <:+: sign ++ cs) ∧ ∀ l, ([] :: ls).head? = some l → l <+: sign ++ cs := by
    intro sign cs ls hls
    constructor
    · intro l hl
      rcases List.mem_cons.mp hl with rfl | hl
      · exact List.nil_infix
      · exact (hls l hl).trans (List.suffix_append sign cs).isInfix
    · rintro l ⟨⟩
      exact List.nil_prefix
  fun_induction lines a with
  | case1 => exact ⟨[], rfl, fun h => absurd rfl h, by simp, by simp⟩
  | case2 cs ih =>
    obtain ⟨ls, hls, -, hwithin, -⟩ := ih (EndsLine.right (a := ['\r', '\n']) ha)
    refine ⟨[] :: ls, ?_, by simp, hbreak ['\r', '\n'] hwithin⟩
    rw [List.cons_append, List.cons_append, lines, hls]
    rfl
  | case3 cs _ ih =>
    obtain ⟨ls, hls, -, hwithin, -⟩ := ih (EndsLine.right (a := ['\n']) ha)
    refine ⟨[] :: ls, ?_, by simp, hbreak ['\n'] hwithin⟩
    rw [List.cons_append, lines_newline, hls]
    rfl
  | case4 c cs _ _ hnil _ => exact absurd hnil (lines_ne_nil cs)
  | case5 c cs hreturn hc line rest hlines ih =>
    obtain ⟨d, ds, rfl⟩ : ∃ d ds, cs = d :: ds := by
      cases cs with
      | nil => exact absurd (by simpa [EndsLine] using ha) hc
      | cons d ds => exact ⟨d, ds, rfl⟩
    obtain ⟨ls, hls, hne, hwithin, hfirst⟩ := ih (EndsLine.right (a := [c]) ha)
    obtain ⟨l, ls, rfl⟩ := List.exists_cons_of_ne_nil (hne (by simp))
    have hl : c :: l <+: c :: d :: ds := (List.prefix_cons_inj c).mpr (hfirst l rfl)
    refine ⟨(c :: l) :: ls, ?_, by simp, ?_, ?_⟩
    · refine lines_cons hc ?_ hls
      rintro ⟨rfl, hhead⟩
      exact hreturn ds rfl (by simp_all)
    · intro k hk
      rcases List.mem_cons.mp hk with rfl | hk
      · exact hl.isInfix
      · exact (hwithin k (by simp [hk])).trans (List.suffix_cons c _).isInfix
    · rintro k ⟨⟩
      exact hl

end Graft.Text

namespace Graft.Splice

/-! ### Around an insertion -/

section Indented

variable {a indent : Text} (ha : Text.EndsLine a)
  (hindent : ∀ c ∈ indent, Text.isBlank c = true ∧ c ≠ '\n')

include ha hindent

/-- The indentation in front of an insertion is no part of what is kept. -/
theorem kept_append : kept (a ++ indent) = a := by
  obtain ⟨hlast, hwithout⟩ := Text.lastLine_append ha fun hn => (hindent _ hn).2 rfl
  rw [kept, hlast, hwithout, if_pos (Text.isAllBlank_iff.mpr fun c hc => (hindent c hc).1)]

theorem indent_append : Splice.indent (a ++ indent) = indent := by
  obtain ⟨hlast, -⟩ := Text.lastLine_append ha fun hn => (hindent _ hn).2 rfl
  have hall := Lexeme.takeWhile_stops (fun c hc => (hindent c hc).1)
    (show Lexeme.StopsAt Text.isBlank [] by simp [Lexeme.StopsAt])
  rw [Splice.indent, hlast]
  rwa [List.append_nil] at hall

end Indented

/-- Behind a deletion the text goes on where the deletion stops. -/
theorem resume_of_lt {found : Match} {stop : Int} (hstop : found.deletion = some stop)
    (hlt : found.insertion < stop) : resume found = stop := by
  simp [resume, Match.deletes, hstop, hlt]

/-- A deletion that stops no later than the insertion deletes nothing. -/
theorem resume_of_le {found : Match} (hle : ∀ stop, found.deletion = some stop →
    stop ≤ found.insertion) : resume found = found.insertion := by
  cases hstop : found.deletion with
  | none => simp [resume, Match.deletes, hstop]
  | some stop =>
    have hlt : ¬ found.insertion < stop := Int.not_lt.mpr (hle stop hstop)
    simp [resume, Match.deletes, hstop, hlt]

end Graft.Splice
