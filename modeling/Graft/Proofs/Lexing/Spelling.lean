/-
The spelling of tokens.

`Spells kind x rest` says that the characters `x` are a token of the kind, or a
comment, where `rest` follows them.  It depends on what follows by one character at
most, and on more only where something is left open, which happens at the end of a
text alone.  Source text is read by these rules and no others:

* `advance_spells` — where a token is spelt, that token is read;
* `exists_spells` — at every character that is not blank some token is spelt;
* `text_induction` — so a text is empty, or starts with a blank or with a token;
* `Spells.congr_head`, `Spells.at_end`, `Spells.before_break`, `Spells.before_newline` — what
  may take the place of the text behind a token;
* `Spells.kind_of_blank` — the tokens that have blanks in them.
-/
import Graft.Proofs.Lexing.Units

namespace Graft.Lexeme

/-- The first character of the text, if there is one, is not of the class. -/
def StopsAt (p : Char → Bool) (rest : Text) : Prop := ∀ x, rest.head? = some x → p x = false

/-- The characters are a token of the kind in front of the given text. -/
inductive Spells : Kind → Text → Text → Prop where
  | directive {c : Char} {cs rest : Text} (hc : isWordStart c = true)
      (hcs : ∀ x ∈ cs, Text.isWordChar x = true) (hrest : StopsAt Text.isWordChar rest) :
      Spells .directive ('#' :: c :: cs) rest
  | literal {q : Char} {cs rest : Text} (hq : isQuote q = true)
      (hcs : literalTail q cs = ⟨cs, [], .closed⟩) : Spells .stringLiteral (q :: cs) rest
  | openLiteral {q : Char} {cs : Text} (hq : isQuote q = true)
      (hcs : (literalTail q cs).ending ≠ .closed) : Spells .stringLiteral (q :: cs) []
  | lineComment {cs rest : Text} (hcs : '\n' ∉ cs) (hrest : StopsAt (· != '\n') rest) :
      Spells .comment ('/' :: '/' :: cs) rest
  | blockComment {cs rest : Text} (hcs : closeComment? cs = some (cs, [])) :
      Spells .comment ('/' :: '*' :: cs) rest
  | openComment {cs : Text} (hcs : closeComment? cs = none) :
      Spells .comment ('/' :: '*' :: cs) []
  | operator {c d : Char} {rest : Text} (h : isOperatorPair c d = true) :
      Spells .operator [c, d] rest
  | identifier {c : Char} {cs rest : Text} (hc : isWordStart c = true)
      (hcs : ∀ x ∈ cs, Text.isWordChar x = true) (hrest : StopsAt Text.isWordChar rest) :
      Spells .identifier (c :: cs) rest
  | number {c : Char} {cs rest : Text} (hc : c.isDigit = true)
      (hcs : ∀ x ∈ cs, x.isDigit = true) (hrest : StopsAt Char.isDigit rest) :
      Spells .number (c :: cs) rest
  | single {c : Char} {rest : Text} (hblank : Text.isBlank c = false)
      (hquote : isQuote c = false) (hword : isWordStart c = false) (hdigit : c.isDigit = false)
      (hhash : c = '#' → StopsAt isWordStart rest)
      (hslash : c = '/' → StopsAt (fun x => x == '/' || x == '*') rest)
      (hpair : StopsAt (isOperatorPair c) rest) :
      Spells (if isBracket c then .bracket else .symbol) [c] rest

/-! ### Literals and block comments -/

theorem literalTail_quote {q : Char} (hq : q ≠ '\\') (cs : Text) :
    literalTail q (q :: cs) = ⟨[q], cs, .closed⟩ := by
  rw [literalTail.eq_4 q q cs (fun h _ => hq h) (fun _ _ h _ => hq h), if_pos rfl]

theorem literalTail_other {q c : Char} (hc : c ≠ '\\') (hq : c ≠ q) (cs : Text) :
    literalTail q (c :: cs) = (literalTail q cs).after [c] := by
  rw [literalTail.eq_4 q c cs (fun h _ => hc h) (fun _ _ h _ => hc h), if_neg hq]

theorem after_eq {cs body rest : Text} {tail : LiteralTail} {ending : Ending} :
    tail.after cs = ⟨cs ++ body, rest, ending⟩ ↔ tail = ⟨body, rest, ending⟩ := by
  obtain ⟨body', rest', ending'⟩ := tail
  simp [LiteralTail.after]

/-- A character that no pattern with a backslash takes is no backslash. -/
theorem ne_backslash {c : Char} {cs : Text} (hend : c = '\\' → cs = [] → False)
    (hpair : ∀ d ds, c = '\\' → cs = d :: ds → False) : c ≠ '\\' := by
  intro hc
  cases cs with
  | nil => exact hend hc rfl
  | cons d ds => exact hpair d ds hc rfl

/-- A closed literal is closed whatever follows it. -/
theorem literalTail_append {q : Char} {cs : Text} (h : literalTail q cs = ⟨cs, [], .closed⟩)
    (rest : Text) : literalTail q (cs ++ rest) = ⟨cs, rest, .closed⟩ := by
  fun_induction literalTail q cs with
  | case1 => simp at h
  | case2 => simp at h
  | case3 c cs ih =>
    have hcs := ih (after_eq.mp h)
    rw [List.cons_append, List.cons_append, literalTail, hcs]
    rfl
  | case4 cs hend hpair =>
    obtain rfl : cs = [] := by simpa using h
    exact literalTail_quote (ne_backslash hend hpair) rest
  | case5 c cs hend hpair hc ih =>
    have hcs := ih (after_eq.mp h)
    rw [List.cons_append, literalTail_other (ne_backslash hend hpair) hc, hcs]
    rfl

/-- What is read of a closed literal is closed by itself. -/
theorem literalTail_closed {q : Char} {t body rest : Text}
    (h : literalTail q t = ⟨body, rest, .closed⟩) :
    t = body ++ rest ∧ literalTail q body = ⟨body, [], .closed⟩ := by
  fun_induction literalTail q t generalizing body with
  | case1 => simp at h
  | case2 => simp at h
  | case3 c cs ih =>
    obtain ⟨body, rfl⟩ : ∃ b, body = ['\\', c] ++ b :=
      ⟨_, (congrArg LiteralTail.body h).symm⟩
    obtain ⟨rfl, hbody⟩ := ih (after_eq.mp h)
    refine ⟨rfl, ?_⟩
    rw [List.cons_append, List.cons_append, literalTail, List.nil_append, hbody]
    rfl
  | case4 cs hend hpair =>
    simp only [LiteralTail.mk.injEq, and_true] at h
    obtain ⟨rfl, rfl⟩ := h
    exact ⟨rfl, literalTail_quote (ne_backslash hend hpair) []⟩
  | case5 c cs hend hpair hc ih =>
    obtain ⟨body, rfl⟩ : ∃ b, body = [c] ++ b := ⟨_, (congrArg LiteralTail.body h).symm⟩
    obtain ⟨rfl, hbody⟩ := ih (after_eq.mp h)
    refine ⟨rfl, ?_⟩
    rw [List.singleton_append, literalTail_other (ne_backslash hend hpair) hc, hbody]
    rfl

/-- A literal that is not closed takes all there is. -/
theorem literalTail_open {q : Char} {t : Text} (h : (literalTail q t).ending ≠ .closed) :
    (literalTail q t).body = t := by
  fun_induction literalTail q t with
  | case1 => rfl
  | case2 => rfl
  | case3 c cs ih => rw [LiteralTail.after, ih h]; rfl
  | case4 cs => simp at h
  | case5 c cs _ _ _ ih => rw [LiteralTail.after, ih h]; rfl

theorem closeComment?_cons {c : Char} {cs : Text} (h : ¬ (c = '*' ∧ cs.head? = some '/')) :
    closeComment? (c :: cs) = (closeComment? cs).map fun (body, rest) => (c :: body, rest) := by
  rw [closeComment?.eq_3]
  rintro ds rfl rfl
  exact h ⟨rfl, rfl⟩

/-- What is read of a closed comment is closed, whatever follows it. -/
theorem closeComment?_closed {t body rest : Text} (h : closeComment? t = some (body, rest)) :
    t = body ++ rest ∧ ∀ rest', closeComment? (body ++ rest') = some (body, rest') := by
  fun_induction closeComment? t generalizing body with
  | case1 => simp at h
  | case2 cs =>
    simp only [Option.some.injEq, Prod.mk.injEq] at h
    obtain ⟨rfl, rfl⟩ := h
    exact ⟨rfl, fun rest' => rfl⟩
  | case3 c cs hne ih =>
    obtain ⟨⟨b, r⟩, hb, heq⟩ := Option.map_eq_some_iff.mp h
    obtain ⟨rfl, rfl⟩ := Prod.mk.inj heq
    obtain ⟨rfl, hclosed⟩ := ih hb
    refine ⟨rfl, fun rest' => ?_⟩
    -- the comment does not close at `c`, whatever stands behind its end
    have hstar : ¬ (c = '*' ∧ (b ++ rest').head? = some '/') := by
      rintro ⟨hc, hhead⟩
      cases b with
      | nil => exact absurd (hclosed []) (by simp [closeComment?])
      | cons d b =>
        obtain rfl : d = '/' := by simpa using hhead
        exact hne (b ++ r) hc rfl
    rw [List.cons_append, closeComment?_cons hstar, hclosed]
    rfl

/-! ### Where a token is spelt it is read -/

/-- The characters that a rule before those for words and numbers looks for. -/
def signs : List Char :=
  ['#', Text.doubleQuote, Text.singleQuote, '/', '=', '!', '<', '>', '+', '-', '&', '|']

theorem signs_plain : ∀ c ∈ signs,
    Text.isBlank c = false ∧ isWordStart c = false ∧ c.isDigit = false := by
  have hall : signs.all fun c => !Text.isBlank c && !isWordStart c && !c.isDigit := by decide
  intro c hc
  simpa [and_assoc] using List.all_eq_true.mp hall c hc

theorem mem_signs_of_isQuote {c : Char} (h : isQuote c = true) : c ∈ signs := by
  simp only [isQuote, Bool.or_eq_true, beq_iff_eq] at h
  rcases h with rfl | rfl <;> decide

theorem mem_signs_of_isOperatorPair {c d : Char} (h : isOperatorPair c d = true) : c ∈ signs := by
  simp only [isOperatorPair, List.contains_iff_mem, List.mem_cons, Prod.mk.injEq,
    List.not_mem_nil, or_false] at h
  rcases h with h | h | h | h | h | h | h | h | h | h | h <;> rw [h.1] <;> decide

theorem slash_not_operator (d : Char) : isOperatorPair '/' d = false := by
  simp [isOperatorPair]

theorem not_mem_signs_of_isWordStart {c : Char} (h : isWordStart c = true) : c ∉ signs := by
  intro hc
  rw [(signs_plain c hc).2.1] at h
  exact absurd h (by simp)

theorem not_mem_signs_of_isDigit {c : Char} (h : c.isDigit = true) : c ∉ signs := by
  intro hc
  rw [(signs_plain c hc).2.2] at h
  exact absurd h (by simp)

theorem isBlank_of_isWordStart {c : Char} (h : isWordStart c = true) : Text.isBlank c = false := by
  refine Bool.eq_false_iff.mpr fun hb => ?_
  rw [isWordStart_of_isBlank hb] at h
  exact absurd h (by simp)

theorem isBlank_of_isDigit {c : Char} (h : c.isDigit = true) : Text.isBlank c = false := by
  refine Bool.eq_false_iff.mpr fun hb => ?_
  rw [isDigit_of_isBlank hb] at h
  exact absurd h (by simp)

theorem isWordStart_of_isDigit {c : Char} (h : c.isDigit = true) : isWordStart c = false := by
  have hne : c ≠ '_' := by
    rintro rfl
    exact absurd h (by decide)
  have halpha : c.isAlpha
      = (decide (c.val ≥ 'A'.val ∧ c.val ≤ 'Z'.val) || (c.val ≥ 'a'.val && c.val ≤ 'z'.val)) := rfl
  rw [isWordStart, halpha]
  simp only [Char.isDigit] at h ⊢
  grind

section Runs

variable {p : Char → Bool} {cs rest : Text}

theorem takeWhile_stops (hcs : ∀ x ∈ cs, p x = true) (hrest : StopsAt p rest) :
    (cs ++ rest).takeWhile p = cs := by
  rw [List.takeWhile_append_of_pos hcs]
  cases rest with
  | nil => simp
  | cons x rest => simp [hrest x rfl]

theorem dropWhile_stops (hcs : ∀ x ∈ cs, p x = true) (hrest : StopsAt p rest) :
    (cs ++ rest).dropWhile p = rest := by
  rw [List.dropWhile_append_of_pos hcs]
  cases rest with
  | nil => simp
  | cons x rest => simp [hrest x rfl]

theorem runStep_stops {make : Text → Lexeme} {start : Text} (hcs : ∀ x ∈ cs, p x = true)
    (hrest : StopsAt p rest) :
    runStep 0 make start p (cs ++ rest) = .next [make (start ++ cs)] rest := by
  unfold runStep
  rw [takeWhile_stops hcs hrest, dropWhile_stops hcs hrest]
  simp

theorem stopsAt_dropWhile : StopsAt p (cs.dropWhile p) := by
  intro x hx
  have h := List.head?_dropWhile_not p cs
  rw [hx] at h
  simpa using h

end Runs

theorem step_source {c : Char} (hc : Text.isBlank c = false) (cs : Text) :
    step .source [] 0 c cs = if c = '#' then hashStep 0 cs
      else if isQuote c then literalStep .source [] 0 c cs else pairStep 0 c cs := by
  unfold step
  rw [if_neg (by simp [hc])]
  rfl

/-- A character that no rule for a pair of characters takes is left to the plain rules. -/
theorem pairStep_plain {c : Char} {cs : Text}
    (hslash : c = '/' → StopsAt (fun x => x == '/' || x == '*') cs)
    (hpair : StopsAt (isOperatorPair c) cs) : pairStep 0 c cs = plainStep 0 c cs := by
  cases cs with
  | nil => rfl
  | cons d cs =>
    have hd : c = '/' → d ≠ '/' ∧ d ≠ '*' := by
      intro hc
      simpa using hslash hc d rfl
    unfold pairStep
    dsimp only
    rw [if_neg (by simpa using fun hc => (hd hc).1), if_neg (by simpa using fun hc => (hd hc).2),
      if_neg (by simp [hpair d rfl])]

/-- Outside of the signs the plain rules decide. -/
theorem step_plain {c : Char} (hblank : Text.isBlank c = false) (hc : c ∉ signs) (cs : Text) :
    step .source [] 0 c cs = plainStep 0 c cs := by
  have hquote : ¬ isQuote c = true := fun h => hc (mem_signs_of_isQuote h)
  have hpair : ∀ d, isOperatorPair c d = false := by
    intro d
    exact Bool.eq_false_iff.mpr fun h => hc (mem_signs_of_isOperatorPair h)
  rw [step_source hblank, if_neg (by rintro rfl; exact hc (by decide)), if_neg hquote,
    pairStep_plain (by rintro rfl; exact absurd (by decide) hc) fun d _ => hpair d]

theorem hash_not_operator (d : Char) : isOperatorPair '#' d = false := by
  simp [isOperatorPair]

theorem quote_not_operator {q : Char} (hq : isQuote q = true) (d : Char) :
    isOperatorPair q d = false := by
  simp only [isQuote, Text.doubleQuote, Text.singleQuote, Bool.or_eq_true, beq_iff_eq] at hq
  rcases hq with rfl | rfl <;> simp [isOperatorPair]

theorem modeMarker?_quote {q : Char} (hq : isQuote q = true) (mode : Mode) (cs : Text) :
    modeMarker? mode (q :: cs) = none := by
  cases mode with
  | source => rfl
  | pattern =>
    simp only [isQuote, Text.doubleQuote, Text.singleQuote, Bool.or_eq_true, beq_iff_eq] at hq
    rcases hq with rfl | rfl <;> rfl

/-- A quote starts a literal in either mode. -/
theorem step_quote {mode : Mode} {beyond : Text} {q : Char} (hq : isQuote q = true) (cs : Text) :
    step mode beyond 0 q cs = literalStep mode beyond 0 q cs := by
  have hhash : q ≠ '#' := by
    rintro rfl
    exact absurd hq (by decide)
  unfold step
  rw [if_neg (by simp [(signs_plain q (mem_signs_of_isQuote hq)).1]), modeMarker?_quote hq]
  exact (if_neg hhash).trans (if_pos hq)

theorem step_operator {c d : Char} (h : isOperatorPair c d = true) (rest : Text) :
    step .source [] 0 c (d :: rest) = .next [.token .operator [c, d]] rest := by
  have hhash : c ≠ '#' := by
    rintro rfl
    rw [hash_not_operator] at h
    exact absurd h (by simp)
  have hslash : c ≠ '/' := by
    rintro rfl
    rw [slash_not_operator] at h
    exact absurd h (by simp)
  have hquote : ¬ isQuote c = true := by
    intro hq
    rw [quote_not_operator hq] at h
    exact absurd h (by simp)
  rw [step_source (signs_plain c (mem_signs_of_isOperatorPair h)).1, if_neg hhash, if_neg hquote,
    pairStep, if_neg (by simp [hslash]), if_neg (by simp [hslash]), if_pos h]

theorem lineCommentStep_stops {cs rest : Text} (hcs : '\n' ∉ cs)
    (hrest : StopsAt (· != '\n') rest) :
    lineCommentStep (cs ++ rest)
      = if rest = [] then .last [.token .comment ('/' :: cs)]
        else .next [.token .comment ('/' :: cs)] rest := by
  have hne : ∀ x ∈ cs, (x != '\n') = true := by
    intro x hx
    simp only [bne_iff_ne]
    rintro rfl
    exact hcs hx
  unfold lineCommentStep
  rw [takeWhile_stops hne hrest, dropWhile_stops hne hrest]
  cases rest <;> rfl

theorem step_single {c : Char} {rest : Text} (hblank : Text.isBlank c = false)
    (hquote : isQuote c = false) (hword : isWordStart c = false) (hdigit : c.isDigit = false)
    (hhash : c = '#' → StopsAt isWordStart rest)
    (hslash : c = '/' → StopsAt (fun x => x == '/' || x == '*') rest)
    (hpair : StopsAt (isOperatorPair c) rest) : step .source [] 0 c rest = charStep c rest := by
  rw [step_source hblank, if_neg (show ¬ isQuote c = true by simp [hquote])]
  by_cases hc : c = '#'
  · subst hc
    rw [if_pos rfl]
    cases rest with
    | nil => rfl
    | cons d rest => rw [hashStep, if_neg (by simp [hhash rfl d rfl])]
  · rw [if_neg hc, pairStep_plain hslash hpair, plainStep, if_neg (by simp [hword]),
      if_neg (by simp [hdigit])]

/-- Where a token is spelt, that token is read. -/
theorem advance_spells {kind : Kind} {c : Char} {cs rest : Text} (h : Spells kind (c :: cs) rest) :
    advance .source c (cs ++ rest) = ([.token kind (c :: cs)], rest) := by
  unfold advance
  cases h with
  | directive hc hcs hrest =>
    rename_i d ds
    have hds : ∀ x ∈ d :: ds, Text.isWordChar x = true := by
      simpa [isWordChar_of_isWordStart hc] using hcs
    have hstep : step .source [] 0 '#' (d :: ds ++ rest)
        = runStep 0 (.token .directive) ['#'] Text.isWordChar (d :: ds ++ rest) := by
      rw [step_source (by decide), if_pos rfl, List.cons_append, hashStep, if_pos hc]
    rw [hstep, runStep_stops hds hrest]
    rfl
  | literal hq hcs =>
    rw [step_quote hq, literalStep, literalTail_append hcs]
    rfl
  | openLiteral hq hcs =>
    rw [List.append_nil, step_quote hq, literalStep]
    dsimp only
    rw [literalTail_open hcs]
    cases hend : (literalTail c cs).ending with
    | closed => exact absurd hend hcs
    | unclosed => rfl
    | dangling => rfl
  | lineComment hcs hrest =>
    rename_i cs
    have hstep : step .source [] 0 '/' ('/' :: cs ++ rest)
        = lineCommentStep ('/' :: cs ++ rest) := rfl
    rw [hstep, lineCommentStep_stops (by simpa using hcs) hrest]
    cases rest <;> rfl
  | blockComment hcs =>
    rename_i cs
    have hstep : step .source [] 0 '/' ('*' :: cs ++ rest) = blockCommentStep (cs ++ rest) := rfl
    rw [hstep, blockCommentStep, (closeComment?_closed hcs).2]
  | openComment hcs =>
    rename_i cs
    have hstep : step .source [] 0 '/' ('*' :: cs ++ []) = blockCommentStep (cs ++ []) := rfl
    rw [hstep, List.append_nil, blockCommentStep, hcs]
  | operator hop =>
    rw [List.singleton_append, step_operator hop]
  | identifier hc hcs hrest =>
    rw [step_plain (isBlank_of_isWordStart hc) (not_mem_signs_of_isWordStart hc), plainStep,
      if_pos hc, runStep_stops hcs hrest]
    rfl
  | number hc hcs hrest =>
    rw [step_plain (isBlank_of_isDigit hc) (not_mem_signs_of_isDigit hc), plainStep,
      if_neg (by simp [isWordStart_of_isDigit hc]), if_pos hc, runStep_stops hcs hrest]
    rfl
  | single hblank hquote hword hdigit hhash hslash hpair =>
    rw [List.nil_append, step_single hblank hquote hword hdigit hhash hslash hpair]
    rfl

/-! ### Everywhere a token is spelt -/

theorem forall_mem_takeWhile {p : Char → Bool} {cs : Text} :
    ∀ x ∈ cs.takeWhile p, p x = true := by
  intro x hx
  exact List.all_eq_true.mp List.all_takeWhile x hx

/-- At every character that is not blank some token is spelt. -/
theorem exists_spells {c : Char} (hblank : Text.isBlank c = false) (cs : Text) :
    ∃ kind x rest, cs = x ++ rest ∧ Spells kind (c :: x) rest := by
  by_cases hquote : isQuote c = true
  · cases hend : (literalTail c cs).ending with
    | closed =>
      have hparts : literalTail c cs
          = ⟨(literalTail c cs).body, (literalTail c cs).rest, .closed⟩ := by rw [← hend]
      obtain ⟨hcs, hbody⟩ := literalTail_closed hparts
      exact ⟨_, _, _, hcs, .literal hquote hbody⟩
    | unclosed => exact ⟨_, cs, [], by simp, .openLiteral hquote (by simp [hend])⟩
    | dangling => exact ⟨_, cs, [], by simp, .openLiteral hquote (by simp [hend])⟩
  by_cases hword : isWordStart c = true
  · exact ⟨_, _, _, List.takeWhile_append_dropWhile.symm,
      .identifier hword forall_mem_takeWhile stopsAt_dropWhile⟩
  by_cases hdigit : c.isDigit = true
  · exact ⟨_, _, _, List.takeWhile_append_dropWhile.symm,
      .number hdigit forall_mem_takeWhile stopsAt_dropWhile⟩
  -- what is left is told by the character behind `c`
  cases cs with
  | nil =>
    refine ⟨_, [], [], rfl, .single hblank ?_ ?_ ?_ ?_ ?_ ?_⟩ <;> simp_all [StopsAt]
  | cons d ds =>
    by_cases hhash : c = '#' ∧ isWordStart d = true
    · obtain ⟨rfl, hd⟩ := hhash
      exact ⟨_, d :: ds.takeWhile Text.isWordChar, ds.dropWhile Text.isWordChar, by simp,
        .directive hd forall_mem_takeWhile stopsAt_dropWhile⟩
    by_cases hline : c = '/' ∧ d = '/'
    · obtain ⟨rfl, rfl⟩ := hline
      refine ⟨_, '/' :: ds.takeWhile (· != '\n'), ds.dropWhile (· != '\n'), by simp,
        .lineComment (fun hn => ?_) stopsAt_dropWhile⟩
      exact absurd (forall_mem_takeWhile _ hn) (by simp)
    by_cases hblock : c = '/' ∧ d = '*'
    · obtain ⟨rfl, rfl⟩ := hblock
      cases hclose : closeComment? ds with
      | none => exact ⟨_, '*' :: ds, [], by simp, .openComment hclose⟩
      | some parts =>
        obtain ⟨hds, hbody⟩ := closeComment?_closed
          (show closeComment? ds = some (parts.1, parts.2) from hclose)
        have hbody := hbody []
        rw [List.append_nil] at hbody
        exact ⟨_, '*' :: parts.1, parts.2, by rw [hds]; rfl, .blockComment hbody⟩
    by_cases hpair : isOperatorPair c d = true
    · exact ⟨_, [d], ds, rfl, .operator hpair⟩
    · refine ⟨_, [], d :: ds, rfl, .single hblank ?_ ?_ ?_ ?_ ?_ ?_⟩ <;> simp_all [StopsAt]

/-- A text is empty, or starts with a blank or with a token. -/
theorem text_induction {P : Text → Prop} (nil : P [])
    (blank : ∀ c cs, Text.isBlank c = true → P cs → P (c :: cs))
    (token : ∀ kind x rest, Spells kind x rest → P rest → P (x ++ rest)) : ∀ t, P t := by
  -- by the length of the text: a token leaves a shorter text behind it
  suffices H : ∀ n t, t.length = n → P t from fun t => H _ t rfl
  intro n
  induction n using Nat.strongRecOn with
  | ind n ih =>
    intro t ht
    cases t with
    | nil => exact nil
    | cons c cs =>
      by_cases hc : Text.isBlank c = true
      · exact blank c cs hc (ih _ (ht ▸ Nat.lt_succ_self _) cs rfl)
      · obtain ⟨kind, x, rest, rfl, hx⟩ := exists_spells (by simpa using hc) cs
        refine token kind (c :: x) rest hx (ih _ ?_ rest rfl)
        rw [← ht, List.length_cons, List.length_append]
        omega

theorem Spells.ne_nil {kind : Kind} {x rest : Text} (h : Spells kind x rest) : x ≠ [] := by
  cases h <;> simp

/-- The first unit of a text that starts with a token is that token. -/
theorem units_spells {kind : Kind} {x rest : Text} (h : Spells kind x rest) :
    units .source (x ++ rest) = token kind x :: units .source rest := by
  obtain ⟨c, cs, rfl⟩ := List.exists_cons_of_ne_nil h.ne_nil
  exact units_advance (advance_spells h)

/-- No character of a text is lost. -/
theorem textOf_units (t : Text) : textOf (units .source t) = t := by
  induction t using text_induction with
  | nil => simp
  | blank c cs hc ih => rw [units_blank _ hc, textOf_cons, ih]; rfl
  | token kind x rest hx ih => rw [units_spells hx, textOf_cons, ih]; rfl

/-! ### What may follow a token -/

/-- A string literal that no quote closes. -/
def isOpenLiteral : Lexeme → Bool
  | token .stringLiteral (q :: cs) => (literalTail q cs).ending != .closed
  | _ => false

/-- A block comment that nothing closes. -/
def isOpenComment : Lexeme → Bool
  | token .comment ('/' :: '*' :: cs) => (closeComment? cs).isNone
  | _ => false

/-- A comment up to the end of its line. -/
def isLineComment : Lexeme → Bool
  | token .comment ('/' :: '/' :: _) => true
  | _ => false

section Follow

variable {kind : Kind} {x rest rest' : Text}

/-- A token sees one character behind it at most. -/
theorem Spells.congr_head (h : Spells kind x rest) (hhead : rest'.head? = rest.head?) :
    Spells kind x rest' := by
  have hstop : ∀ {p : Char → Bool}, StopsAt p rest → StopsAt p rest' := by
    intro p hp y hy
    exact hp y (hhead ▸ hy)
  cases h with
  | directive hc hcs hrest => exact .directive hc hcs (hstop hrest)
  | literal hq hcs => exact .literal hq hcs
  | openLiteral hq hcs =>
    obtain rfl : rest' = [] := List.head?_eq_none_iff.mp hhead
    exact .openLiteral hq hcs
  | lineComment hcs hrest => exact .lineComment hcs (hstop hrest)
  | blockComment hcs => exact .blockComment hcs
  | openComment hcs =>
    obtain rfl : rest' = [] := List.head?_eq_none_iff.mp hhead
    exact .openComment hcs
  | operator hop => exact .operator hop
  | identifier hc hcs hrest => exact .identifier hc hcs (hstop hrest)
  | number hc hcs hrest => exact .number hc hcs (hstop hrest)
  | single hblank hquote hword hdigit hhash hslash hpair =>
    exact .single hblank hquote hword hdigit (fun h => hstop (hhash h)) (fun h => hstop (hslash h))
      (hstop hpair)

/-- The text may end behind a token. -/
theorem Spells.at_end (h : Spells kind x rest) : Spells kind x [] := by
  have hstop : ∀ {p : Char → Bool}, StopsAt p [] := by
    intro p y hy
    simp at hy
  cases h with
  | directive hc hcs _ => exact .directive hc hcs hstop
  | literal hq hcs => exact .literal hq hcs
  | openLiteral hq hcs => exact .openLiteral hq hcs
  | lineComment hcs _ => exact .lineComment hcs hstop
  | blockComment hcs => exact .blockComment hcs
  | openComment hcs => exact .openComment hcs
  | operator hop => exact .operator hop
  | identifier hc hcs _ => exact .identifier hc hcs hstop
  | number hc hcs _ => exact .number hc hcs hstop
  | single hblank hquote hword hdigit _ _ _ =>
    exact .single hblank hquote hword hdigit (fun _ => hstop) (fun _ => hstop) hstop

/-- No token goes on with the character, unless it is a comment or left open. -/
structure Breaks (c : Char) : Prop where
  word : Text.isWordChar c = false
  digit : c.isDigit = false
  slash : c ≠ '/'
  star : c ≠ '*'
  pair : ∀ d, isOperatorPair d c = false

theorem breaks_of_isBlank {c : Char} (hc : Text.isBlank c = true) : Breaks c :=
  ⟨Text.isWordChar_of_isBlank hc, isDigit_of_isBlank hc, (ne_of_isBlank hc).1,
    (ne_of_isBlank hc).2.1, fun _ => isOperatorPair_of_isBlank hc⟩

/-- Such a character may follow a token that is closed.  Behind a line comment it has to be
a newline, for other characters would belong to the comment. -/
theorem Spells.before_break {c : Char} {cs : Text} (h : Spells kind x rest) (hc : Breaks c)
    (hliteral : (token kind x).isOpenLiteral = false)
    (hcomment : (token kind x).isOpenComment = false)
    (hline : (token kind x).isLineComment = true → c = '\n') : Spells kind x (c :: cs) := by
  have hstop : ∀ {p : Char → Bool}, p c = false → StopsAt p (c :: cs) := by
    rintro p hp y ⟨⟩
    exact hp
  have hstart : isWordStart c = false := by
    refine Bool.eq_false_iff.mpr fun hstart => ?_
    exact absurd (isWordChar_of_isWordStart hstart) (by simp [hc.word])
  cases h with
  | directive hd hds _ => exact .directive hd hds (hstop hc.word)
  | literal hq hds => exact .literal hq hds
  | openLiteral hq hds => exact absurd hliteral (by simpa [isOpenLiteral] using hds)
  | lineComment hds _ => exact .lineComment hds (hstop (by simp [hline rfl]))
  | blockComment hds => exact .blockComment hds
  | openComment hds => exact absurd hcomment (by simp [isOpenComment, hds])
  | operator hop => exact .operator hop
  | identifier hd hds _ => exact .identifier hd hds (hstop hc.word)
  | number hd hds _ => exact .number hd hds (hstop hc.digit)
  | single hblank hquote hword hdigit _ _ _ =>
    refine .single hblank hquote hword hdigit (fun _ => hstop hstart) (fun _ => hstop ?_)
      (hstop (hc.pair _))
    simp [hc.slash, hc.star]

theorem Spells.before_blank {c : Char} {cs : Text} (h : Spells kind x rest)
    (hc : Text.isBlank c = true) (hliteral : (token kind x).isOpenLiteral = false)
    (hcomment : (token kind x).isOpenComment = false)
    (hline : (token kind x).isLineComment = true → c = '\n') : Spells kind x (c :: cs) :=
  h.before_break (breaks_of_isBlank hc) hliteral hcomment hline

/-- A token is closed, unless the text ends with it. -/
theorem Spells.closed_of_ne_nil (h : Spells kind x rest) (hrest : rest ≠ []) :
    (token kind x).isOpenLiteral = false ∧ (token kind x).isOpenComment = false := by
  cases h with
  | literal hq hcs => simp [isOpenLiteral, isOpenComment, hcs]
  | blockComment hcs => simp [isOpenLiteral, isOpenComment, hcs]
  | openLiteral | openComment => exact absurd rfl hrest
  | directive | lineComment | operator | identifier | number => exact ⟨rfl, rfl⟩
  | @single c _ _ _ _ _ _ _ _ => cases isBracket c <;> exact ⟨rfl, rfl⟩

/-- A newline may take the place of the text behind a token. -/
theorem Spells.before_newline (h : Spells kind x rest) (hrest : rest ≠ []) (cs : Text) :
    Spells kind x ('\n' :: cs) := by
  obtain ⟨hliteral, hcomment⟩ := h.closed_of_ne_nil hrest
  exact h.before_blank rfl hliteral hcomment fun _ => rfl

theorem literalTail_getLast {q : Char} {t body rest : Text}
    (h : literalTail q t = ⟨body, rest, .closed⟩) : body.getLast? = some q := by
  have hgrow : ∀ {cs b : Text}, b.getLast? = some q → (cs ++ b).getLast? = some q := by
    intro cs b hb
    rw [List.getLast?_append, hb]
    rfl
  fun_induction literalTail q t generalizing body with
  | case1 => simp at h
  | case2 => simp at h
  | case3 c cs ih =>
    obtain rfl : _ = body := congrArg LiteralTail.body h
    exact hgrow (ih (after_eq.mp h))
  | case4 cs _ _ =>
    obtain rfl : [q] = body := congrArg LiteralTail.body h
    rfl
  | case5 c cs _ _ _ ih =>
    obtain rfl : _ = body := congrArg LiteralTail.body h
    exact hgrow (ih (after_eq.mp h))

theorem closeComment?_getLast {t body rest : Text} (h : closeComment? t = some (body, rest)) :
    body.getLast? = some '/' := by
  fun_induction closeComment? t generalizing body with
  | case1 => simp at h
  | case2 cs =>
    simp only [Option.some.injEq, Prod.mk.injEq] at h
    obtain ⟨rfl, -⟩ := h
    rfl
  | case3 c cs _ ih =>
    obtain ⟨⟨b, r⟩, hb, heq⟩ := Option.map_eq_some_iff.mp h
    obtain ⟨rfl, rfl⟩ := Prod.mk.inj heq
    rw [List.getLast?_cons, ih hb]
    rfl

/-- Only comments and literals have blanks in them. -/
theorem Spells.kind_of_blank {c : Char} (h : Spells kind x rest) (hc : c ∈ x)
    (hblank : Text.isBlank c = true) : kind = .comment ∨ kind = .stringLiteral := by
  -- words are made of characters that are no blanks
  have hword : ∀ {d : Char} {ds : Text}, isWordStart d = true →
      (∀ y ∈ ds, Text.isWordChar y = true) → c ∉ d :: ds := by
    intro d ds hd hds hmem
    have hchar : Text.isWordChar c = true := by
      rcases List.mem_cons.mp hmem with rfl | hmem
      · exact isWordChar_of_isWordStart hd
      · exact hds c hmem
    simp [Text.isWordChar_of_isBlank hblank] at hchar
  cases h with
  | literal | openLiteral => exact .inr rfl
  | lineComment | blockComment | openComment => exact .inl rfl
  | directive hd hds _ =>
    rcases List.mem_cons.mp hc with rfl | hc
    · exact absurd hblank (by decide)
    · exact absurd hc (hword hd hds)
  | identifier hd hds _ => exact absurd hc (hword hd hds)
  | number hd hds _ =>
    have hdigit : c.isDigit = true := by
      rcases List.mem_cons.mp hc with rfl | hc
      · exact hd
      · exact hds c hc
    simp [isDigit_of_isBlank hblank] at hdigit
  | @operator d e _ hpair =>
    have hd := (signs_plain d (mem_signs_of_isOperatorPair hpair)).1
    rcases List.mem_cons.mp hc with rfl | hc
    · simp [hd] at hblank
    · rw [List.mem_singleton.mp hc] at hblank
      simp [isOperatorPair_of_isBlank hblank] at hpair
  | single hplain =>
    rw [List.mem_singleton.mp hc, hplain] at hblank
    simp at hblank

/-- A token that ends with a blank is a line comment, or left open. -/
theorem Spells.getLast_not_blank (h : Spells kind x rest)
    (hliteral : (token kind x).isOpenLiteral = false)
    (hcomment : (token kind x).isOpenComment = false)
    (hline : (token kind x).isLineComment = false) :
    ∀ c, x.getLast? = some c → Text.isBlank c = false := by
  intro c hlast
  refine Bool.eq_false_iff.mpr fun hc => ?_
  have hkind := h.kind_of_blank (List.mem_of_getLast? hlast) hc
  cases h with
  | @literal q cs _ hq hcs =>
    have hend := literalTail_getLast hcs
    rw [List.getLast?_cons, hend] at hlast
    obtain rfl : q = c := by simpa using hlast
    rw [isQuote_of_isBlank hc] at hq
    exact absurd hq (by simp)
  | openLiteral hq hds => exact absurd hliteral (by simpa [isOpenLiteral] using hds)
  | lineComment _ _ => exact absurd hline (by simp [isLineComment])
  | @blockComment cs _ hcs =>
    have hend := closeComment?_getLast hcs
    rw [List.getLast?_cons_cons, List.getLast?_cons, hend] at hlast
    exact (ne_of_isBlank hc).1 (by simpa using hlast.symm)
  | openComment hds => exact absurd hcomment (by simp [isOpenComment, hds])
  | single =>
    split at hkind
    · simp at hkind
    · simp at hkind
  | _ => simp at hkind

end Follow

end Graft.Lexeme
