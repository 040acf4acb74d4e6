/-
The shapes of the lines of a document.

What a line is can be read off its spelling.  Headings and fences are indented by at most
three spaces, for a tab reaches the fourth column; behind the spaces stands a run of one
character, and what follows the run decides.  A heading names a section if the section's
word occurs in its title in any case, with no word character on either side.

* `IsHeading`, `StartsBlock`, `EndsBlock` — the three shapes;
* `heading?_eq_some`, `ofLine?_eq_some`, `closes_iff` — they are what the lines are taken for;
* `hasWord_iff` — whole words of a title.
-/
import Graft.Proofs.Document.Wrapping

namespace Graft

namespace Text

open Lexeme (StopsAt)

/-! ### Words of a title -/

/-- The word, spelt in small letters, occurs in the text in any case and is not a part of a
longer word. -/
def HasWholeWord (word t : Text) : Prop :=
  ∃ front w back, t = front ++ (w ++ back) ∧ w.map Char.toLower = word
    ∧ (∀ c, front.getLast? = some c → isWordChar c = false) ∧ StopsAt isWordChar back

theorem startsWithWord_iff {word t : Text} :
    startsWithWord word t = true ↔ ∃ w back, t = w ++ back ∧ w.map Char.toLower = word
      ∧ StopsAt isWordChar back := by
  have hstop : ∀ back : Text, (!(back.head?.any isWordChar)) = true ↔ StopsAt isWordChar back := by
    intro back
    cases back <;> simp [StopsAt]
  rw [startsWithWord, Bool.and_eq_true, beq_iff_eq, hstop]
  constructor
  · rintro ⟨hword, hback⟩
    exact ⟨t.take word.length, t.drop word.length, (List.take_append_drop _ _).symm, hword, hback⟩
  · rintro ⟨w, back, rfl, rfl, hback⟩
    rw [List.length_map, List.take_left, List.drop_left]
    exact ⟨rfl, hback⟩

/-- In front of the word stands the end of `front`, or what stands in front of the text. -/
theorem hasWordAfter_iff {word : Text} (hword : word ≠ []) (t : Text) : ∀ before : Option Char,
    hasWordAfter word before t = true ↔ ∃ front w back, t = front ++ (w ++ back)
      ∧ w.map Char.toLower = word ∧ (∀ c, front.getLast?.or before = some c → isWordChar c = false)
      ∧ StopsAt isWordChar back := by
  induction t with
  | nil =>
    intro before
    refine ⟨fun h => absurd h (by simp [hasWordAfter]), ?_⟩
    rintro ⟨front, w, back, hnil, rfl, -⟩
    have hw : w = [] := by simp_all
    exact absurd (by rw [hw]; rfl) hword
  | cons d t ih =>
    intro before
    have hbefore : (!before.any isWordChar) = true
        ↔ ∀ c, before = some c → isWordChar c = false := by
      cases before <;> simp
    rw [hasWordAfter, Bool.or_eq_true, Bool.and_eq_true, hbefore, startsWithWord_iff, ih]
    constructor
    · rintro (⟨hfront, w, back, ht, hw, hback⟩ | ⟨front, w, back, ht, hw, hfront, hback⟩)
      · exact ⟨[], w, back, ht, hw, by simpa using hfront, hback⟩
      · refine ⟨d :: front, w, back, by rw [ht]; rfl, hw, ?_, hback⟩
        rw [List.getLast?_cons]
        cases hlast : front.getLast? <;> simp_all
    · rintro ⟨front, w, back, ht, hw, hfront, hback⟩
      cases front with
      | nil => exact .inl ⟨by simpa using hfront, w, back, ht, hw, hback⟩
      | cons e front =>
        obtain ⟨rfl, rfl⟩ := List.cons.inj ht
        refine .inr ⟨front, w, back, rfl, hw, ?_, hback⟩
        rw [List.getLast?_cons] at hfront
        cases hlast : front.getLast? <;> simp_all

theorem hasWord_iff {word t : Text} (hword : word ≠ []) :
    hasWord word t = true ↔ HasWholeWord word t := by
  rw [hasWord, hasWordAfter_iff hword, HasWholeWord]
  simp only [Option.or_none]

end Text

namespace Document

open Text Lexeme

/-! ### Indentation below the fourth column -/

theorem le_splitIndent (column : Nat) (l : Text) : column ≤ (splitIndent column l).1 := by
  fun_induction splitIndent column l with
  | case1 column cs ih => omega
  | case2 column cs ih => omega
  | case3 => exact Nat.le_refl _

theorem splitIndent_spaces {content : Text} (hcontent : StopsAt isIndentChar content) (n : Nat) :
    ∀ column, splitIndent column (List.replicate n ' ' ++ content) = (column + n, content) := by
  induction n with
  | zero =>
    intro column
    rw [List.replicate_zero, List.nil_append, splitIndent.eq_3, Nat.add_zero]
    · rintro cs rfl
      exact absurd (hcontent ' ' rfl) (by decide)
    · rintro cs rfl
      exact absurd (hcontent '\t' rfl) (by decide)
  | succ n ih =>
    intro column
    rw [List.replicate_succ, List.cons_append, splitIndent, ih]
    congr 1
    omega

/-- Below the fourth column a line is indented with spaces only. -/
theorem eq_spaces_of_splitIndent {column k : Nat} {l content : Text}
    (h : splitIndent column l = (k, content)) (hk : k < tabWidth) :
    ∃ n, k = column + n ∧ l = List.replicate n ' ' ++ content ∧ StopsAt isIndentChar content := by
  fun_induction splitIndent column l with
  | case1 column cs ih =>
    obtain ⟨n, rfl, rfl, hstop⟩ := ih h
    exact ⟨n + 1, by omega, by rw [List.replicate_succ]; rfl, hstop⟩
  | case2 column cs ih =>
    -- the tab stop behind any column is the fourth column or a later one
    have hle := le_splitIndent (column + (tabWidth - column % tabWidth)) cs
    rw [h] at hle
    simp only [tabWidth] at hle hk
    omega
  | case3 column cs hspace htab =>
    obtain ⟨rfl, rfl⟩ := Prod.mk.inj h
    refine ⟨0, rfl, rfl, fun c hc => ?_⟩
    obtain ⟨ds, rfl⟩ := List.head?_eq_some_iff.mp hc
    have hne : c ≠ ' ' ∧ c ≠ '\t' := ⟨fun h => hspace ds (h ▸ rfl), fun h => htab ds (h ▸ rfl)⟩
    simp [isIndentChar, hne]

theorem splitIndent_eq {k : Nat} {l content : Text} (hk : k < tabWidth) :
    splitIndent 0 l = (k, content)
      ↔ l = List.replicate k ' ' ++ content ∧ StopsAt isIndentChar content := by
  constructor
  · intro h
    obtain ⟨n, rfl, hl, hstop⟩ := eq_spaces_of_splitIndent h hk
    exact ⟨by rw [Nat.zero_add]; exact hl, hstop⟩
  · rintro ⟨rfl, hstop⟩
    rw [splitIndent_spaces hstop, Nat.zero_add]

/-! ### Runs of one character -/

section Run

variable {mark : Char} {rest : Text}

/-- A text is the run of a character that it starts with, and what follows the run. -/
theorem eq_replicate_append (mark : Char) (t : Text) :
    t = List.replicate (t.takeWhile (· == mark)).length mark ++ t.dropWhile (· == mark) := by
  have hrun : t.takeWhile (· == mark) = List.replicate (t.takeWhile (· == mark)).length mark :=
    List.eq_replicate_iff.mpr ⟨rfl, fun c hc => beq_iff_eq.mp (forall_mem_takeWhile c hc)⟩
  rw [← hrun, List.takeWhile_append_dropWhile]

theorem stopsAt_beq : StopsAt (· == mark) rest ↔ rest.head? ≠ some mark := by
  cases rest <;> simp [StopsAt]

theorem run_replicate (hrest : rest.head? ≠ some mark) (n : Nat) :
    (List.replicate n mark ++ rest).takeWhile (· == mark) = List.replicate n mark
      ∧ (List.replicate n mark ++ rest).dropWhile (· == mark) = rest := by
  have hall : ∀ c ∈ List.replicate n mark, (c == mark) = true := by
    intro c hc
    simp [List.eq_of_mem_replicate hc]
  exact ⟨takeWhile_stops hall (stopsAt_beq.mpr hrest), dropWhile_stops hall (stopsAt_beq.mpr hrest)⟩

theorem stopsAt_replicate (hmark : isIndentChar mark = false) {n : Nat} (hn : 0 < n) :
    StopsAt isIndentChar (List.replicate n mark ++ rest) := by
  obtain ⟨m, rfl⟩ : ∃ m, n = m + 1 := ⟨n - 1, by omega⟩
  rintro c ⟨⟩
  exact hmark

end Run

/-! ### Headings and fences -/

/-- A heading with a title: up to three spaces, one to six `#`, and a space, a tab or the end
of the line.  Blanks around the title and `#` at its end do not belong to it. -/
def IsHeading (line title : Text) : Prop :=
  ∃ indent level rest, line = List.replicate indent ' ' ++ (List.replicate level '#' ++ rest)
    ∧ indent < tabWidth ∧ 1 ≤ level ∧ level ≤ 6
    ∧ (∀ c, rest.head? = some c → c ∈ [' ', '\t', '\r', '\n'])
    ∧ title = trim (trimRightChar '#' (trim rest))

/-- A line that starts the block of a fence: up to three spaces, at least three backticks or
tildes, and a note, which holds no backtick behind backticks. -/
def StartsBlock (line : Text) (fence : Fence) : Prop :=
  ∃ note, line = List.replicate fence.indent ' ' ++ (List.replicate fence.count fence.mark ++ note)
    ∧ fence.indent < tabWidth ∧ 3 ≤ fence.count ∧ IsMark fence.mark ∧ note.head? ≠ some fence.mark
    ∧ (fence.mark = backtick → backtick ∉ note)

/-- A line that ends the block of a fence: up to three spaces, at least as many marks as the
fence has, and blanks. -/
def EndsBlock (fence : Fence) (line : Text) : Prop :=
  ∃ indent count rest, line = List.replicate indent ' ' ++ (List.replicate count fence.mark ++ rest)
    ∧ indent < tabWidth ∧ fence.count ≤ count ∧ ∀ c ∈ rest, isBlank c = true

theorem title?_eq_some {content title : Text} :
    title? content = some title ↔ ∃ level rest, content = List.replicate level '#' ++ rest
      ∧ 1 ≤ level ∧ level ≤ 6 ∧ (∀ c, rest.head? = some c → c ∈ [' ', '\t', '\r', '\n'])
      ∧ title = trim (trimRightChar '#' (trim rest)) := by
  have hblank : ∀ rest : Text,
      ¬ (rest.head?.any fun c => !([' ', '\t', '\r', '\n'].contains c)) = true
        ↔ ∀ c, rest.head? = some c → c ∈ [' ', '\t', '\r', '\n'] := by
    intro rest
    cases rest with
    | nil => simp
    | cons d rest =>
      simp only [List.head?_cons, Option.any_some, Bool.not_eq_true', Bool.not_eq_false,
        List.contains_iff_mem, Option.some.injEq, forall_eq']
  rw [title?]
  constructor
  · intro h
    split at h
    · simp at h
    rename_i hlevel
    split at h
    · simp at h
    rename_i hrest
    exact ⟨_, _, eq_replicate_append '#' content, by omega, by omega, (hblank _).mp hrest,
      (Option.some.inj h).symm⟩
  · rintro ⟨level, rest, rfl, hlow, hhigh, hrest, rfl⟩
    obtain ⟨htake, hdrop⟩ := run_replicate
      (fun h => absurd (hrest '#' h) (by decide) : rest.head? ≠ some '#') level
    rw [htake, hdrop, List.length_replicate, if_neg (by omega), if_neg ((hblank rest).mpr hrest)]

theorem heading?_eq_some {line title : Text} :
    heading? line = some title ↔ IsHeading line title := by
  rw [heading?]
  constructor
  · intro h
    cases hsplit : splitIndent 0 line with
    | mk k content =>
      rw [hsplit] at h
      dsimp only at h
      split at h
      · simp at h
      rename_i hk
      obtain ⟨rfl, -⟩ := (splitIndent_eq (Nat.lt_of_not_le hk)).mp hsplit
      obtain ⟨level, rest, rfl, htitle⟩ := title?_eq_some.mp h
      exact ⟨k, level, rest, rfl, Nat.lt_of_not_le hk, htitle⟩
  · rintro ⟨k, level, rest, rfl, hk, hlow, htitle⟩
    have hstop : StopsAt isIndentChar (List.replicate level '#' ++ rest) :=
      stopsAt_replicate (by decide) hlow
    rw [(splitIndent_eq hk).mpr ⟨rfl, hstop⟩]
    dsimp only
    rw [if_neg (Nat.not_le.mpr hk)]
    exact title?_eq_some.mpr ⟨level, rest, rfl, hlow, htitle⟩

theorem IsMark.not_isIndentChar {mark : Char} (h : IsMark mark) : isIndentChar mark = false := by
  rcases h with rfl | rfl <;> decide

theorem IsMark.not_isBlank {mark : Char} (h : IsMark mark) : isBlank mark = false := by
  rcases h with rfl | rfl <;> decide

theorem ofLine?_eq_some {line : Text} {fence : Fence} :
    Fence.ofLine? line = some fence ↔ StartsBlock line fence := by
  rw [Fence.ofLine?]
  constructor
  · intro h
    cases hsplit : splitIndent 0 line with
    | mk k content =>
      rw [hsplit] at h
      cases content with
      | nil => simp at h
      | cons mark cs =>
        dsimp only at h
        split at h
        · simp at h
        rename_i hk
        split at h
        · simp at h
        rename_i hmark
        split at h
        · simp at h
        rename_i hcount
        split at h
        · simp at h
        rename_i hnote
        obtain ⟨rfl, -⟩ := (splitIndent_eq (Nat.lt_of_not_le hk)).mp hsplit
        rw [← Option.some.inj h]
        refine ⟨(mark :: cs).dropWhile (· == mark), ?_, Nat.lt_of_not_le hk,
          Nat.le_of_not_lt hcount, ?_, stopsAt_beq.mp stopsAt_dropWhile, ?_⟩
        · rw [← eq_replicate_append]
        · exact Decidable.or_iff_not_not_and_not.mpr hmark
        · intro hback hmem
          exact hnote ⟨hback, List.contains_iff_mem.mpr hmem⟩
  · obtain ⟨mark, count, k⟩ := fence
    rintro ⟨note, rfl, hk, hcount, hmark, hhead, hnote⟩
    dsimp only at hk hcount hmark hhead hnote ⊢
    have hstop : StopsAt isIndentChar (List.replicate count mark ++ note) :=
      stopsAt_replicate hmark.not_isIndentChar (by omega)
    obtain ⟨htake, hdrop⟩ := run_replicate hhead count
    have hcons : List.replicate count mark ++ note
        = mark :: (List.replicate (count - 1) mark ++ note) := by
      rw [← List.cons_append, ← List.replicate_succ, Nat.sub_add_cancel (by omega)]
    rw [(splitIndent_eq hk).mpr ⟨rfl, hstop⟩]
    rw [hcons] at htake hdrop ⊢
    dsimp only
    rw [htake, hdrop, List.length_replicate, if_neg (Nat.not_le.mpr hk),
      if_neg (Decidable.or_iff_not_not_and_not.mp hmark), if_neg (by omega), if_neg]
    exact fun h => hnote h.1 (List.contains_iff_mem.mp h.2)

/-- Behind a run of marks a blank tells that the run has ended. -/
theorem closes_iff {fence : Fence} (hmark : IsMark fence.mark) (hcount : 3 ≤ fence.count)
    {line : Text} : fence.closes line = true ↔ EndsBlock fence line := by
  rw [Fence.closes]
  constructor
  · intro h
    cases hsplit : splitIndent 0 line with
    | mk k content =>
      rw [hsplit] at h
      simp only [Bool.and_eq_true, decide_eq_true_eq] at h
      obtain ⟨⟨hk, hle⟩, hblank⟩ := h
      obtain ⟨rfl, -⟩ := (splitIndent_eq hk).mp hsplit
      refine ⟨k, _, content.dropWhile (· == fence.mark), ?_, hk, hle, isAllBlank_iff.mp hblank⟩
      rw [← eq_replicate_append]
  · rintro ⟨k, count, rest, rfl, hk, hle, hblank⟩
    have hhead : rest.head? ≠ some fence.mark := by
      intro h
      have hmem := hblank fence.mark (List.mem_of_mem_head? h)
      rw [hmark.not_isBlank] at hmem
      exact absurd hmem (by decide)
    have hstop : StopsAt isIndentChar (List.replicate count fence.mark ++ rest) :=
      stopsAt_replicate hmark.not_isIndentChar (by omega)
    obtain ⟨htake, hdrop⟩ := run_replicate hhead count
    rw [(splitIndent_eq hk).mpr ⟨rfl, hstop⟩]
    dsimp only
    rw [htake, hdrop, List.length_replicate, isAllBlank_iff.mpr hblank, Bool.and_true,
      Bool.and_eq_true, decide_eq_true_eq, decide_eq_true_eq]
    exact ⟨hk, hle⟩

/-- A heading is no fence. -/
theorem IsHeading.not_startsBlock {line title : Text} (h : IsHeading line title) (fence : Fence) :
    ¬ StartsBlock line fence := by
  obtain ⟨k, level, rest, rfl, hk, hlow, -⟩ := h
  rintro ⟨note, hline, hk', hcount, hmark, -⟩
  have hstop : StopsAt isIndentChar (List.replicate level '#' ++ rest) :=
    stopsAt_replicate (by decide) hlow
  have hstop' : StopsAt isIndentChar (List.replicate fence.count fence.mark ++ note) :=
    stopsAt_replicate hmark.not_isIndentChar (by omega)
  have hsplit := (splitIndent_eq hk).mpr ⟨rfl, hstop⟩
  have hsplit' := (splitIndent_eq hk').mpr ⟨hline, hstop'⟩
  -- one content cannot start with two characters
  have hcontent := congrArg (·.2.head?) (hsplit.symm.trans hsplit')
  obtain ⟨m, rfl⟩ : ∃ m, level = m + 1 := ⟨level - 1, by omega⟩
  obtain ⟨n, hn⟩ : ∃ n, fence.count = n + 1 := ⟨fence.count - 1, by omega⟩
  have hhash : '#' = fence.mark := by simpa [hn, List.replicate_succ] using hcontent
  rcases hmark with h | h <;> rw [h] at hhash <;> exact absurd hhash (by decide)

end Document

end Graft
