/-
Cutting and joining texts.

A text may be cut wherever no token and no comment is cut with it, and two texts may
be joined where the last token of the one may stand in front of the other:

* `isPlain_of_mem_units` — the kinds that source text has;
* `units_cut`, `units_of_not_inside` — the two sides of a cut have the units they have together;
* `not_inside_of_units` — and only they do;
* `units_between` — a part between two places where nothing is cut has its units to
  itself;
* `units_append` — two texts have the units they have apart, if the seam allows it;
* `units_append_newline`, `units_append_of_newline` — a newline on either side of the
  seam allows it, unless something is left open;
* `units_append_blanks` — blanks behind a line may be cut off.
-/
import Graft.Proofs.Lexing.Spelling

namespace Graft

/-- The text is empty or ends with a newline, so that a line starts behind it. -/
def Text.EndsLine (t : Text) : Prop := t = [] ∨ t.getLast? = some '\n'

theorem Text.EndsLine.right {a b : Text} (h : EndsLine (a ++ b)) : EndsLine b := by
  rcases h with hnil | hlast
  · exact .inl (List.append_eq_nil_iff.mp hnil).2
  · rw [List.getLast?_append] at hlast
    cases hb : b.getLast? with
    | none => exact .inl (List.getLast?_eq_none_iff.mp hb)
    | some c =>
      rw [hb, Option.some_or] at hlast
      exact .inr (hb.trans hlast)

/-- A kind that tokens and comments of source text have. -/
def Kind.isPlain (kind : Kind) : Bool := kind.marker.isEmpty && kind != .stringFragment

namespace Lexeme

/-- The offset lies strictly inside a token or a comment of the text. -/
def Inside (t : Text) (p : Nat) : Prop :=
  ∃ before kind x after, lexemes .source t = before ++ token kind x :: after
    ∧ (textOf before).length < p ∧ p < (textOf before).length + x.length

/-- Every string literal of the text is closed. -/
def ClosesLiterals (t : Text) : Prop := ∀ l ∈ lexemes .source t, l.isOpenLiteral = false

/-- Every block comment of the text is closed. -/
def ClosesComments (t : Text) : Prop := ∀ l ∈ lexemes .source t, l.isOpenComment = false

/-- The lexemes, read from an offset of zero on, have a token around the given one. -/
def isInside (p : Nat) : List Lexeme → Bool
  | [] => false
  | blank run :: ls => run.length ≤ p && isInside (p - run.length) ls
  | token _ x :: ls => (0 < p && p < x.length) || (x.length ≤ p && isInside (p - x.length) ls)

theorem isInside_iff {ls : List Lexeme} : ∀ {p : Nat}, isInside p ls = true ↔
    ∃ before kind x after, ls = before ++ token kind x :: after
      ∧ (textOf before).length < p ∧ p < (textOf before).length + x.length := by
  induction ls with
  | nil => simp [isInside]
  | cons l ls ih =>
    intro p
    -- a token further on lies around the offset if it does so counted from here
    have hlater : (l.text.length ≤ p ∧ isInside (p - l.text.length) ls = true) ↔
        ∃ before kind x after, ls = before ++ token kind x :: after
          ∧ (textOf (l :: before)).length < p
          ∧ p < (textOf (l :: before)).length + x.length := by
      simp only [ih, textOf_cons, List.length_append]
      constructor
      · rintro ⟨hle, before, kind, x, after, rfl, hlt, hgt⟩
        exact ⟨before, kind, x, after, rfl, by omega, by omega⟩
      · rintro ⟨before, kind, x, after, rfl, hlt, hgt⟩
        exact ⟨by omega, before, kind, x, after, rfl, by omega, by omega⟩
    cases l with
    | blank run =>
      simp only [isInside, Bool.and_eq_true, decide_eq_true_eq]
      rw [show run = (blank run).text from rfl, hlater]
      constructor
      · rintro ⟨before, kind, x, after, rfl, h⟩
        exact ⟨blank run :: before, kind, x, after, rfl, h⟩
      · rintro ⟨before, kind, x, after, hls, h⟩
        cases before with
        | nil => simp at hls
        | cons l before =>
          obtain ⟨rfl, rfl⟩ := List.cons.inj hls
          exact ⟨before, kind, x, after, rfl, h⟩
    | token kind y =>
      simp only [isInside, Bool.or_eq_true, Bool.and_eq_true, decide_eq_true_eq]
      rw [show y = (token kind y).text from rfl, hlater]
      constructor
      · rintro (h | ⟨before, kind', x, after, rfl, h⟩)
        · exact ⟨[], kind, y, ls, rfl, by simpa [text] using h⟩
        · exact ⟨token kind y :: before, kind', x, after, rfl, h⟩
      · rintro ⟨before, kind', x, after, hls, h⟩
        cases before with
        | nil =>
          obtain ⟨hl, -⟩ := List.cons.inj hls
          obtain ⟨rfl, rfl⟩ := token.inj hl
          exact .inl (by simpa [text] using h)
        | cons l before =>
          obtain ⟨rfl, rfl⟩ := List.cons.inj hls
          exact .inr ⟨before, kind', x, after, rfl, h⟩

instance (t : Text) (p : Nat) : Decidable (Inside t p) := decidable_of_iff _ isInside_iff

instance (t : Text) : Decidable (ClosesLiterals t) :=
  inferInstanceAs (Decidable (∀ l ∈ lexemes .source t, l.isOpenLiteral = false))

instance (t : Text) : Decidable (ClosesComments t) :=
  inferInstanceAs (Decidable (∀ l ∈ lexemes .source t, l.isOpenComment = false))

theorem mem_flatMap_loosen {ls : List Lexeme} {kind : Kind} {x : Text} :
    token kind x ∈ ls.flatMap loosen ↔ token kind x ∈ ls := by
  rw [List.mem_flatMap]
  constructor
  · rintro ⟨l, hl, hx⟩
    cases l with
    | blank run => simp [loosen] at hx
    | token kind' x' =>
      rw [loosen, List.mem_singleton] at hx
      exact hx ▸ hl
  · intro h
    exact ⟨_, h, by simp [loosen]⟩

theorem mem_units {mode : Mode} {t : Text} {kind : Kind} {x : Text} :
    token kind x ∈ units mode t ↔ token kind x ∈ lexemes mode t := mem_flatMap_loosen

/-! ### Cutting -/

/-- A unit of a text is spelt in front of the units behind it. -/
theorem spells_of_units {t : Text} {xs ys : List Lexeme} {kind : Kind} {x : Text}
    (h : units .source t = xs ++ token kind x :: ys) : Spells kind x (textOf ys) := by
  induction t using text_induction generalizing xs with
  | nil => simp at h
  | blank c cs hc ih =>
    rw [units_blank _ hc] at h
    cases xs with
    | nil => simp at h
    | cons l xs =>
      simp only [List.cons_append, List.cons.injEq] at h
      exact ih h.2
  | token kind' x' rest hx ih =>
    rw [units_spells hx] at h
    cases xs with
    | nil =>
      simp only [List.nil_append, List.cons.injEq, token.injEq] at h
      obtain ⟨⟨rfl, rfl⟩, rfl⟩ := h
      rwa [textOf_units]
    | cons l xs =>
      simp only [List.cons_append, List.cons.injEq] at h
      exact ih h.2

theorem Spells.isPlain {kind : Kind} {x rest : Text} (h : Spells kind x rest) :
    kind.isPlain = true := by
  cases h with
  | @single c => cases isBracket c <;> rfl
  | _ => rfl

/-- A lexeme of source text: blank, or of a kind that source text has. -/
def isPlain : Lexeme → Bool
  | blank _ => true
  | token kind _ => kind.isPlain

theorem isPlain_of_mem_units {t : Text} {l : Lexeme} (h : l ∈ units .source t) :
    l.isPlain = true := by
  cases l with
  | blank run => rfl
  | token kind x =>
    obtain ⟨xs, ys, hunits⟩ := List.append_of_mem h
    exact (spells_of_units hunits).isPlain

/-- A token may stand in front of any part of what it stands in front of. -/
theorem Spells.in_front {kind : Kind} {x a b : Text} (h : Spells kind x (a ++ b)) :
    Spells kind x a := by
  cases a with
  | nil => exact h.at_end
  | cons c a => exact h.congr_head rfl

/-- The two sides of a cut have the units that they have together. -/
theorem units_cut {t : Text} {xs ys : List Lexeme} (h : units .source t = xs ++ ys) :
    units .source (textOf xs) = xs ∧ units .source (textOf ys) = ys := by
  induction t using text_induction generalizing xs with
  | nil =>
    obtain ⟨rfl, rfl⟩ := List.append_eq_nil_iff.mp (h.symm.trans (units_nil _))
    exact ⟨units_nil _, units_nil _⟩
  | blank c cs hc ih =>
    cases xs with
    | nil => exact ⟨units_nil _, by rw [← List.nil_append ys, ← h, textOf_units]⟩
    | cons l xs =>
      rw [units_blank _ hc, List.cons_append, List.cons.injEq] at h
      obtain ⟨rfl, h⟩ := h
      obtain ⟨hxs, hys⟩ := ih h
      exact ⟨by rw [textOf_cons, text, List.singleton_append, units_blank _ hc, hxs], hys⟩
  | token kind x rest hx ih =>
    cases xs with
    | nil => exact ⟨units_nil _, by rw [← List.nil_append ys, ← h, textOf_units]⟩
    | cons l xs =>
      rw [units_spells hx, List.cons_append, List.cons.injEq] at h
      obtain ⟨rfl, h⟩ := h
      obtain ⟨hxs, hys⟩ := ih h
      have hrest : rest = textOf xs ++ textOf ys := by rw [← textOf_append, ← h, textOf_units]
      rw [hrest] at hx
      exact ⟨by rw [textOf_cons, text, units_spells hx.in_front, hxs], hys⟩

theorem exists_cut (ls : List Lexeme) : ∀ p ≤ (textOf ls).length, isInside p ls = false →
    ∃ xs ys, ls.flatMap loosen = xs ++ ys ∧ (textOf xs).length = p := by
  induction ls with
  | nil =>
    intro p hp _
    exact ⟨[], [], rfl, (Nat.le_zero.mp hp).symm⟩
  | cons l ls ih =>
    intro p hp hinside
    rw [textOf_cons, List.length_append] at hp
    by_cases hl : l.text.length ≤ p
    · have hlater : isInside (p - l.text.length) ls = false := by
        cases l <;> simp_all [isInside, text]
      obtain ⟨xs, ys, hls, hxs⟩ := ih (p - l.text.length) (by omega) hlater
      refine ⟨l.loosen ++ xs, ys, ?_, ?_⟩
      · rw [List.flatMap_cons, hls, List.append_assoc]
      · rw [textOf_append, textOf_loosen, List.length_append]
        omega
    · -- the offset lies in the first lexeme: a run of blanks can be cut anywhere
      cases l with
      | blank run =>
        refine ⟨(blank (run.take p)).loosen, (blank (run.drop p)).loosen ++ ls.flatMap loosen,
          ?_, ?_⟩
        · simp only [List.flatMap_cons, loosen]
          rw [← List.append_assoc, ← List.map_append, List.take_append_drop]
        · rw [textOf_loosen, text, List.length_take]
          simp only [text] at hl
          omega
      | token kind x =>
        simp only [text] at hl
        obtain rfl : p = 0 := by
          simp only [isInside, Bool.or_eq_false_iff, Bool.and_eq_false_iff, decide_eq_false_iff_not]
            at hinside
          omega
        exact ⟨[], _, rfl, rfl⟩

/-- Where no token and no comment is cut, the units are not. -/
theorem units_of_not_inside {a b : Text} (h : ¬ Inside (a ++ b) a.length) :
    units .source (a ++ b) = units .source a ++ units .source b := by
  have htext : textOf (lexemes .source (a ++ b)) = a ++ b := by
    rw [← textOf_flatMap_loosen]
    exact textOf_units _
  obtain ⟨xs, ys, hls, hxs⟩ := exists_cut (lexemes .source (a ++ b)) a.length (by simp [htext])
    (Bool.eq_false_iff.mpr fun hinside => h (isInside_iff.mp hinside))
  have hsplit : textOf xs ++ textOf ys = a ++ b := by
    rw [← textOf_append, ← hls, textOf_flatMap_loosen, htext]
  obtain ⟨rfl, rfl⟩ := List.append_inj hsplit hxs
  obtain ⟨hxs, hys⟩ := units_cut (show units .source (textOf xs ++ textOf ys) = xs ++ ys from hls)
  rw [hxs, hys]
  exact hls

/-- Where the units are not cut, no token and no comment is. -/
theorem not_inside_of_units {a b : Text}
    (h : units .source (a ++ b) = units .source a ++ units .source b) :
    ¬ Inside (a ++ b) a.length := by
  rintro ⟨before, kind, x, after, hls, hlt, hgt⟩
  have hunits : before.flatMap loosen ++ token kind x :: after.flatMap loosen
      = units .source a ++ units .source b := by
    rw [← h, units, hls, List.flatMap_append, List.flatMap_cons]
    rfl
  -- the units of `a` end in front of the token or behind it
  have hlength : ∀ {ls}, units .source a = before.flatMap loosen ++ ls →
      a.length = (textOf before).length + (textOf ls).length := by
    intro ls ha
    rw [← textOf_units a, ha, textOf_append, textOf_flatMap_loosen, List.length_append]
  rcases List.append_eq_append_iff.mp hunits with ⟨zs, ha, hzs⟩ | ⟨zs, hbefore, -⟩
  · have hlen := hlength ha
    cases zs with
    | nil =>
      simp only [textOf_nil, List.length_nil] at hlen
      omega
    | cons l zs =>
      obtain ⟨rfl, -⟩ := List.cons.inj hzs
      simp only [textOf_cons, text, List.length_append] at hlen
      omega
  · have htext := congrArg textOf hbefore
    rw [textOf_flatMap_loosen, textOf_append, textOf_units] at htext
    rw [htext, List.length_append] at hlt
    omega

/-- If a text may be cut at two places, the part behind the first may be cut at the
second. -/
theorem units_between {a b c : Text}
    (hfirst : units .source (a ++ (b ++ c)) = units .source a ++ units .source (b ++ c))
    (hsecond : units .source (a ++ b ++ c) = units .source (a ++ b) ++ units .source c) :
    units .source (b ++ c) = units .source b ++ units .source c := by
  have hboth := hfirst.symm.trans (List.append_assoc a b c ▸ hsecond)
  rcases List.append_eq_append_iff.mp hboth with ⟨zs, hleft, hright⟩ | ⟨zs, hleft, hright⟩
  · have hzs : textOf zs = b := by
      have htext := congrArg textOf hleft
      rw [textOf_append, textOf_units, textOf_units] at htext
      exact (List.append_cancel_left htext).symm
    rw [hright, ← (units_cut hright).1, hzs]
  · -- the second place would lie before the first: nothing stands between them
    have hb : b = [] := by
      have htext := congrArg (List.length ∘ textOf) hleft
      simp only [Function.comp_apply, textOf_append, textOf_units, List.length_append] at htext
      exact List.length_eq_zero_iff.mp (by omega)
    rw [hb, units_nil, List.nil_append, List.nil_append]

/-! ### Joining -/

/-- Two texts can be joined where the last token of the first may stand in front of the
second. -/
theorem units_append {a b : Text} (h : ∀ kind x,
      (units .source a).getLast? = some (token kind x) → Spells kind x b) :
    units .source (a ++ b) = units .source a ++ units .source b := by
  induction a using text_induction with
  | nil => simp
  | blank c cs hc ih =>
    rw [List.cons_append, units_blank _ hc, units_blank _ hc, List.cons_append, ih]
    intro kind x hlast
    refine h kind x ?_
    rw [units_blank _ hc, List.getLast?_cons, hlast]
    rfl
  | token kind x rest hx ih =>
    have hrest : units .source (rest ++ b) = units .source rest ++ units .source b := by
      refine ih fun kind' x' hlast => h kind' x' ?_
      rw [units_spells hx, List.getLast?_cons, hlast]
      rfl
    -- only the last token of the first text sees the second
    have hjoined : Spells kind x (rest ++ b) := by
      cases rest with
      | nil => exact h kind x (by rw [units_spells hx]; simp)
      | cons c rest => exact hx.congr_head rfl
    rw [List.append_assoc, units_spells hjoined, hrest, units_spells hx, List.cons_append]

/-- The last unit of a text is spelt at its end. -/
theorem spells_of_getLast {a : Text} {kind : Kind} {x : Text}
    (h : (units .source a).getLast? = some (token kind x)) : Spells kind x [] := by
  obtain ⟨xs, hxs⟩ := List.getLast?_eq_some_iff.mp h
  exact spells_of_units hxs

/-- A text is closed if none of its literals and comments is left open. -/
structure Closed (t : Text) : Prop where
  literals : ClosesLiterals t
  comments : ClosesComments t

/-- What blanks have is asked of lexemes as it is of units. -/
theorem forall_lexemes {p : Lexeme → Bool} (hp : ∀ run, p (blank run) = false) {t : Text} :
    (∀ l ∈ lexemes .source t, p l = false) ↔ ∀ l ∈ units .source t, p l = false := by
  constructor
  · intro h l hl
    cases l with
    | blank run => exact hp run
    | token kind x => exact h _ (mem_units.mp hl)
  · intro h l hl
    cases l with
    | blank run => exact hp run
    | token kind x => exact h _ (mem_units.mpr hl)

theorem closesLiterals_iff {t : Text} :
    ClosesLiterals t ↔ ∀ l ∈ units .source t, l.isOpenLiteral = false :=
  forall_lexemes fun _ => rfl

theorem closesComments_iff {t : Text} :
    ClosesComments t ↔ ∀ l ∈ units .source t, l.isOpenComment = false :=
  forall_lexemes fun _ => rfl

theorem closed_iff {t : Text} : Closed t
    ↔ ∀ l ∈ units .source t, l.isOpenLiteral = false ∧ l.isOpenComment = false := by
  constructor
  · intro h l hl
    exact ⟨closesLiterals_iff.mp h.literals l hl, closesComments_iff.mp h.comments l hl⟩
  · intro h
    exact ⟨closesLiterals_iff.mpr fun l hl => (h l hl).1,
      closesComments_iff.mpr fun l hl => (h l hl).2⟩

theorem closed_append {a b : Text}
    (h : units .source (a ++ b) = units .source a ++ units .source b) :
    Closed (a ++ b) ↔ Closed a ∧ Closed b := by
  simp only [closed_iff, h, List.forall_mem_append]

/-- A newline may follow a closed text. -/
theorem units_append_newline {a : Text} (ha : Closed a) (b : Text) :
    units .source (a ++ '\n' :: b) = units .source a ++ units .source ('\n' :: b) := by
  refine units_append fun kind x hlast => ?_
  obtain ⟨hliteral, hcomment⟩ := closed_iff.mp ha _ (List.mem_of_getLast? hlast)
  exact (spells_of_getLast hlast).before_blank rfl hliteral hcomment fun _ => rfl

theorem Spells.newline_not_mem {kind : Kind} {x rest : Text} (h : Spells kind x rest)
    (hline : (token kind x).isLineComment = true) : '\n' ∉ x := by
  cases h <;> simp_all [isLineComment]

/-- The last token of a closed text does not end with a newline. -/
theorem Spells.getLast_ne_newline {kind : Kind} {x rest : Text} (h : Spells kind x rest)
    (hliteral : (token kind x).isOpenLiteral = false)
    (hcomment : (token kind x).isOpenComment = false) : x.getLast? ≠ some '\n' := by
  intro hlast
  cases hline : (token kind x).isLineComment with
  | true => exact h.newline_not_mem hline (List.mem_of_getLast? hlast)
  | false => exact absurd (h.getLast_not_blank hliteral hcomment hline _ hlast) (by decide)

/-- Anything may follow a closed text that ends with a newline. -/
theorem units_append_of_newline {a : Text} (ha : Closed a)
    (hend : Text.EndsLine a) (b : Text) :
    units .source (a ++ b) = units .source a ++ units .source b := by
  refine units_append fun kind x hlast => ?_
  obtain ⟨xs, hxs⟩ := List.getLast?_eq_some_iff.mp hlast
  have hspelt := spells_of_getLast hlast
  have htext : a = textOf xs ++ x := by rw [← textOf_units a, hxs]; simp [text]
  -- a last token would end with the newline, and no token of a closed text does
  obtain ⟨hliteral, hcomment⟩ := closed_iff.mp ha _ (List.mem_of_getLast? hlast)
  refine absurd ?_ (hspelt.getLast_ne_newline hliteral hcomment)
  obtain ⟨c, cs, rfl⟩ := List.exists_cons_of_ne_nil hspelt.ne_nil
  rcases hend with rfl | hend
  · simp at htext
  · rw [htext, List.getLast?_append] at hend
    simpa using hend

/-- An offset inside a token cuts it into two parts, one on either side. -/
theorem Inside.straddles {a b : Text} (h : Inside (a ++ b) a.length) :
    ∃ kind x₁ x₂, token kind (x₁ ++ x₂) ∈ units .source (a ++ b) ∧ x₁ ≠ [] ∧ x₂ ≠ []
      ∧ x₁ <:+ a ∧ x₂ <+: b := by
  obtain ⟨before, kind, x, after, hls, hlt, hgt⟩ := h
  have htext : textOf before ++ (x ++ textOf after) = a ++ b := by
    rw [← textOf_units (a ++ b), units, textOf_flatMap_loosen, hls, textOf_append, textOf_cons,
      text]
  have hmem : token kind x ∈ units .source (a ++ b) := mem_units.mpr (by simp [hls])
  rcases List.append_eq_append_iff.mp htext with ⟨x₁, rfl, htail⟩ | ⟨z, hz, -⟩
  · rcases List.append_eq_append_iff.mp htail with ⟨z, rfl, -⟩ | ⟨x₂, rfl, rfl⟩
    · simp only [List.length_append] at hgt
      omega
    · refine ⟨kind, x₁, x₂, hmem, ?_, ?_, List.suffix_append _ _, List.prefix_append _ _⟩
      · rintro rfl
        simp at hlt
      · rintro rfl
        simp at hgt
  · rw [hz, List.length_append] at hlt
    omega

/-- Blanks behind a line of a closed text may be cut off. -/
theorem units_append_blanks {a b : Text} (hclosed : Closed (a ++ b))
    (ha : Text.EndsLine a) (hb : ∀ c ∈ b, Text.isBlank c = true) :
    units .source (a ++ b) = units .source a ++ units .source b := by
  refine units_of_not_inside fun hinside => ?_
  -- a token that is cut here holds a newline and ends with a blank
  obtain ⟨kind, x₁, x₂, hmem, hx₁, hx₂, hsuffix, hfront⟩ := hinside.straddles
  obtain ⟨xs, ys, hunits⟩ := List.append_of_mem hmem
  have hspelt := spells_of_units hunits
  have hnewline : '\n' ∈ x₁ ++ x₂ := by
    have hc := List.getLast?_eq_some_getLast hx₁
    obtain ⟨z, rfl⟩ := hsuffix
    have hlast : (z ++ x₁).getLast? = some '\n' := ha.resolve_left (by simp [hx₁])
    rw [List.getLast?_append, hc, Option.some_or] at hlast
    exact List.mem_append_left _ (List.mem_of_getLast? (hc.trans hlast))
  have hblank : ∃ c, (x₁ ++ x₂).getLast? = some c ∧ Text.isBlank c = true := by
    have hc := List.getLast?_eq_some_getLast hx₂
    exact ⟨_, by simp [List.getLast?_append, hc],
      hb _ (hfront.subset (List.mem_of_getLast? hc))⟩
  obtain ⟨c, hlast, hc⟩ := hblank
  obtain ⟨hliteral, hcomment⟩ := closed_iff.mp hclosed _ hmem
  cases hline : (token kind (x₁ ++ x₂)).isLineComment with
  | true => exact hspelt.newline_not_mem hline hnewline
  | false =>
    rw [hspelt.getLast_not_blank hliteral hcomment hline c hlast] at hc
    exact absurd hc (by simp)

end Lexeme

end Graft
