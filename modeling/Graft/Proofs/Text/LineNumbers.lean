/-
Lines by their number.

A text breaks into lines at its newlines, and a carriage return in front of one belongs to the
break.  So the number of a line is the number of newlines in front of it, and what has no line end
in it stands on the line whose number its place has:

* `LineAt` — a line at its place in a text;
* `lineAt_of_getElem?` — where the line of a number stands;
* `exists_line_of_infix` — the line that a part of a text stands on.
-/
import Graft.Proofs.Text.Lines

namespace Graft.Text

/-- Behind `number` newlines, the last of which ends a line, the text goes on with this line. -/
def LineAt (t : Text) (number : Nat) (line : Text) : Prop :=
  ∃ a b, t = a ++ (line ++ b) ∧ EndsLine a ∧ a.count '\n' = number ∧ '\n' ∉ line

variable {t line x rest needle : Text} {number : Nat}

/-- A text that ends a line and has no newline is empty. -/
theorem EndsLine.eq_nil (h : EndsLine t) (hcount : t.count '\n' = 0) : t = [] := by
  rcases h with rfl | hlast
  · rfl
  · exact absurd (List.mem_of_getLast? hlast) (List.count_eq_zero.mp hcount)

theorem EndsLine.append {a b : Text} (ha : EndsLine a) (hb : EndsLine b) : EndsLine (a ++ b) := by
  rcases hb with rfl | hb
  · rwa [List.append_nil]
  · exact .inr (by rw [List.getLast?_append, hb, Option.some_or])

theorem LineAt.first {line : Text} (hline : '\n' ∉ line) (b : Text) : LineAt (line ++ b) 0 line :=
  ⟨[], b, rfl, .inl rfl, rfl, hline⟩

/-- In front of the text there may be a line end. -/
theorem LineAt.behind {sign : Text} (hsign : EndsLine sign) (hcount : sign.count '\n' = 1)
    (h : LineAt t number line) : LineAt (sign ++ t) (number + 1) line := by
  obtain ⟨a, b, rfl, ha, rfl, hline⟩ := h
  refine ⟨sign ++ a, b, (List.append_assoc _ _ _).symm, hsign.append ha, ?_, hline⟩
  rw [List.count_append, hcount, Nat.add_comm]

/-- A character in front of the text belongs to the first line, and not to a later one. -/
theorem LineAt.cons_succ {c : Char} (hc : c ≠ '\n') (h : LineAt t (number + 1) line) :
    LineAt (c :: t) (number + 1) line := by
  obtain ⟨a, b, rfl, ha, hcount, hline⟩ := h
  refine ⟨c :: a, b, rfl, ?_, by rwa [List.count_cons_of_ne hc], hline⟩
  rcases ha with rfl | hlast
  · simp at hcount
  · exact .inr (by rw [List.getLast?_cons, hlast, Option.getD_some])

theorem LineAt.cons_zero {c : Char} (hc : c ≠ '\n') (h : LineAt t 0 line) :
    LineAt (c :: t) 0 (c :: line) := by
  obtain ⟨a, b, rfl, ha, hcount, hline⟩ := h
  obtain rfl := ha.eq_nil hcount
  have hline' : '\n' ∉ c :: line := by simp [hline, hc.symm]
  exact .first hline' b

/-- The line of a number stands behind that many newlines. -/
theorem lineAt_of_getElem? : ∀ {number : Nat} {line : Text}, (lines t)[number]? = some line →
    LineAt t number line := by
  -- behind a line end the lines are those of the rest
  have hbreak : ∀ (sign : Text) {cs : Text}, EndsLine sign → sign.count '\n' = 1 →
      (∀ {number : Nat} {line : Text}, (lines cs)[number]? = some line → LineAt cs number line) →
      ∀ {number : Nat} {line : Text}, ([] :: lines cs)[number]? = some line →
        LineAt (sign ++ cs) number line := by
    intro sign cs hsign hcount ih number line h
    cases number with
    | zero =>
      obtain rfl : [] = line := by simpa using h
      exact .first List.not_mem_nil (sign ++ cs)
    | succ number => exact (ih h).behind hsign hcount
  fun_induction lines t with
  | case1 =>
    intro number line h
    obtain ⟨rfl, rfl⟩ : number = 0 ∧ [] = line := by simpa [List.getElem?_singleton] using h
    exact .first List.not_mem_nil []
  | case2 cs ih => exact hbreak ['\r', '\n'] (.inr rfl) rfl ih
  | case3 cs _ ih => exact hbreak ['\n'] (.inr rfl) rfl ih
  | case4 c cs _ _ hnil _ => exact absurd hnil (lines_ne_nil cs)
  | case5 c cs hreturn hc first others hlines ih =>
    intro number line h
    rw [hlines] at ih
    cases number with
    | zero =>
      obtain rfl : c :: first = line := by simpa using h
      exact (ih rfl).cons_zero hc
    | succ number => exact (ih h).cons_succ hc

/-- A part without line ends continues the first line of what is behind it. -/
theorem lines_append {others : List Text} (hnewline : '\n' ∉ x) (hreturn : '\r' ∉ x)
    (h : lines rest = line :: others) : lines (x ++ rest) = (x ++ line) :: others := by
  induction x with
  | nil => exact h
  | cons c x ih =>
    simp only [List.mem_cons, not_or] at hnewline hreturn
    exact lines_cons (Ne.symm hnewline.1) (fun hc => hreturn.1 hc.1.symm) (ih hnewline.2 hreturn.2)

theorem lines_return (cs : Text) : lines ('\r' :: '\n' :: cs) = lines ('\n' :: cs) := by
  rw [lines, lines_newline]

/-- A part without line ends stands on the line that its place is on. -/
theorem exists_line_of_infix (hnewline : '\n' ∉ needle) (hreturn : '\r' ∉ needle)
    (rest p : Text) :
    ∃ line, (lines (p ++ (needle ++ rest)))[p.count '\n']? = some line ∧ needle <:+: line := by
  induction p with
  | nil =>
    obtain ⟨line, others, hlines⟩ := List.exists_cons_of_ne_nil (lines_ne_nil rest)
    rw [List.nil_append, lines_append hnewline hreturn hlines]
    exact ⟨needle ++ line, rfl, (List.prefix_append _ _).isInfix⟩
  | cons c p ih =>
    obtain ⟨line, hline, hinfix⟩ := ih
    rw [List.cons_append]
    by_cases hc : c = '\n'
    · subst hc
      rw [lines_newline, List.count_cons_self]
      exact ⟨line, hline, hinfix⟩
    rw [List.count_cons_of_ne hc]
    by_cases hbreak : c = '\r' ∧ (p ++ (needle ++ rest)).head? = some '\n'
    · -- the carriage return is part of the line end behind it
      obtain ⟨rfl, hhead⟩ := hbreak
      obtain ⟨cs, hcs⟩ := List.head?_eq_some_iff.mp hhead
      rw [hcs, lines_return, ← hcs]
      exact ⟨line, hline, hinfix⟩
    obtain ⟨first, others, hlines⟩ :=
      List.exists_cons_of_ne_nil (lines_ne_nil (p ++ (needle ++ rest)))
    rw [lines_cons hc hbreak hlines]
    rw [hlines] at hline
    cases hnumber : p.count '\n' with
    | zero =>
      rw [hnumber] at hline
      obtain rfl : first = line := by simpa using hline
      exact ⟨c :: first, rfl, hinfix.trans (List.suffix_cons c first).isInfix⟩
    | succ number =>
      rw [hnumber] at hline
      exact ⟨line, hline, hinfix⟩

end Graft.Text
