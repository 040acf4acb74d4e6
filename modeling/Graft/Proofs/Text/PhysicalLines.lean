/-
Physical lines of a text.

A physical line ends with the first line break in it.  So lines can be read off part by
part, as long as no part ends inside a line or between a carriage return and its newline:

* `flatten_physicalLines` — the lines are the text;
* `physicalLines_append` — the lines of two texts one after the other;
* `isLine_of_mem_physicalLines` — behind the line break of a line there are blanks at most;
* `exists_physicalLines_append` — what stands in front of the first line break belongs to
  the first line.
-/
import Graft.Proofs.Text.Lines

namespace Graft.Text

/-- The text is empty or ends with a line break. -/
def EndsAtBreak (t : Text) : Prop := ∀ c, t.getLast? = some c → isLineBreak c = true

theorem isBlank_of_isLineBreak {c : Char} (h : isLineBreak c = true) : isBlank c = true := by
  simp only [isLineBreak, isBlank, Bool.or_eq_true, Bool.and_eq_true, decide_eq_true_eq,
    beq_iff_eq] at h ⊢
  omega

theorem EndsAtBreak.tail {c : Char} {cs : Text} (h : EndsAtBreak (c :: cs)) : EndsAtBreak cs := by
  intro d hd
  refine h d ?_
  rw [List.getLast?_cons, hd]
  rfl

/-! ### From the first character on -/

theorem physicalLines_return (cs : Text) :
    physicalLines ('\r' :: '\n' :: cs) = ['\r', '\n'] :: physicalLines cs := by
  rw [physicalLines]

theorem physicalLines_break {c : Char} {cs : Text} (hc : isLineBreak c = true)
    (hreturn : ¬ (c = '\r' ∧ cs.head? = some '\n')) :
    physicalLines (c :: cs) = [c] :: physicalLines cs := by
  rw [physicalLines.eq_3, if_pos hc]
  rintro ds rfl rfl
  exact hreturn ⟨rfl, rfl⟩

/-- A character that breaks no line stands in front of the first line. -/
theorem physicalLines_cons {c : Char} (hc : isLineBreak c = false) (cs : Text) :
    physicalLines (c :: cs)
      = (c :: (physicalLines cs).headD []) :: (physicalLines cs).tail := by
  rw [physicalLines.eq_3, if_neg (by simp [hc])]
  · cases physicalLines cs <;> rfl
  · rintro ds rfl rfl
    exact absurd hc (by decide)

/-- The lines are the text. -/
theorem flatten_physicalLines (t : Text) : (physicalLines t).flatten = t := by
  fun_induction physicalLines t with
  | case1 => rfl
  | case2 cs ih => rw [List.flatten_cons, ih]; rfl
  | case3 c cs _ _ ih => rw [List.flatten_cons, ih]; rfl
  | case4 c cs _ _ hnil ih =>
    rw [hnil] at ih
    rw [← ih]
    rfl
  | case5 c cs _ _ line rest heq ih =>
    rw [heq] at ih
    rw [← ih]
    rfl

/-- The lines of two texts, where the first ends with a line end. -/
theorem physicalLines_append {a b : Text} (ha : EndsAtBreak a)
    (hseam : ¬ (a.getLast? = some '\r' ∧ b.head? = some '\n')) :
    physicalLines (a ++ b) = physicalLines a ++ physicalLines b := by
  fun_induction physicalLines a with
  | case1 => rfl
  | case2 cs ih =>
    rw [List.cons_append, List.cons_append, physicalLines_return, ih ha.tail.tail, List.cons_append]
    rintro ⟨hlast, hhead⟩
    exact hseam ⟨by simp [List.getLast?_cons, hlast], hhead⟩
  | case3 c cs hreturn hc ih =>
    rw [List.cons_append, physicalLines_break hc, ih ha.tail, List.cons_append]
    · rintro ⟨hlast, hhead⟩
      exact hseam ⟨by simp [List.getLast?_cons, hlast], hhead⟩
    · -- a newline behind a carriage return is in `cs`, or at the seam
      rintro ⟨rfl, hhead⟩
      cases cs with
      | nil => exact hseam ⟨rfl, hhead⟩
      | cons d cs =>
        obtain rfl : d = '\n' := by simpa using hhead
        exact hreturn cs rfl rfl
  | case4 c cs _ hc hnil ih =>
    -- a last line without a line end
    obtain rfl : cs = [] := by
      rw [← flatten_physicalLines cs, hnil]
      rfl
    exact absurd (ha c rfl) hc
  | case5 c cs _ hc line rest heq ih =>
    have hlines : physicalLines (cs ++ b) = line :: rest ++ physicalLines b := by
      rw [ih ha.tail, heq]
      rintro ⟨hlast, hhead⟩
      exact hseam ⟨by simp [List.getLast?_cons, hlast], hhead⟩
    rw [List.cons_append, physicalLines_cons (by simpa using hc), hlines]
    rfl

/-- A text without a line break makes a line together with the newline behind it. -/
theorem physicalLines_line {x : Text} (hx : ∀ c ∈ x, isLineBreak c = false) (t : Text) :
    physicalLines (x ++ '\n' :: t) = (x ++ ['\n']) :: physicalLines t := by
  induction x with
  | nil => exact physicalLines_break rfl (by simp)
  | cons c x ih =>
    rw [List.cons_append, physicalLines_cons (hx c (by simp)), ih fun d hd => hx d (by simp [hd])]
    rfl

/-- What stands in front of the first line break belongs to the first line. -/
theorem exists_physicalLines_append {x : Text} (hx : ∀ c ∈ x, isLineBreak c = false) (hne : x ≠ [])
    (t : Text) : ∃ line rest, physicalLines (x ++ t) = (x ++ line) :: rest := by
  induction x with
  | nil => exact absurd rfl hne
  | cons c x ih =>
    rw [List.cons_append, physicalLines_cons (hx c (by simp))]
    by_cases hx' : x = []
    · subst hx'
      exact ⟨_, _, rfl⟩
    · obtain ⟨line, rest, hlines⟩ := ih (fun d hd => hx d (by simp [hd])) hx'
      rw [hlines]
      exact ⟨line, rest, rfl⟩

/-! ### One line -/

/-- Behind a line break there are blanks at most. -/
def IsLine (l : Text) : Prop :=
  ∀ front c back, l = front ++ c :: back → isLineBreak c = true → isAllBlank back = true

theorem IsLine.suffix {l s : Text} (h : IsLine l) (hs : s <:+ l) : IsLine s := by
  obtain ⟨r, rfl⟩ := hs
  rintro front c back rfl hc
  exact h (r ++ front) c back (by rw [List.append_assoc]) hc

theorem isLine_nil : IsLine [] := by
  intro front c back heq
  simp at heq

theorem isLine_cons {c : Char} {l : Text} (hc : isLineBreak c = true → isAllBlank l = true)
    (h : IsLine l) : IsLine (c :: l) := by
  intro front d back heq hd
  cases front with
  | nil =>
    obtain ⟨rfl, rfl⟩ := List.cons.inj heq
    exact hc hd
  | cons e front =>
    obtain ⟨rfl, rfl⟩ := List.cons.inj heq
    exact h front d back rfl hd

/-- The physical lines of a text are lines. -/
theorem isLine_of_mem_physicalLines {t : Text} : ∀ l ∈ physicalLines t, IsLine l := by
  fun_induction physicalLines t with
  | case1 => simp
  | case2 cs ih =>
    rintro l (_ | ⟨_, hl⟩)
    · exact isLine_cons (fun _ => rfl) (isLine_cons (fun _ => rfl) isLine_nil)
    · exact ih l hl
  | case3 c cs _ _ ih =>
    rintro l (_ | ⟨_, hl⟩)
    · exact isLine_cons (fun _ => rfl) isLine_nil
    · exact ih l hl
  | case4 c cs _ hc _ _ =>
    rintro l (_ | ⟨_, ⟨⟩⟩)
    exact isLine_cons (fun _ => rfl) isLine_nil
  | case5 c cs _ hc line rest heq ih =>
    rw [heq] at ih
    rintro l (_ | ⟨_, hl⟩)
    · exact isLine_cons (fun hbreak => absurd hbreak hc) (ih line List.mem_cons_self)
    · exact ih l (List.mem_cons_of_mem _ hl)

end Graft.Text
