/-
What is read in either mode.

In a pattern the markers are tokens, and a literal is cut where one of them stands
inside it; all else is read as in source text.  So a lexeme is a run of blanks, a
marker, a piece of a literal, or a token that is spelt where it stands (`Written`):

* `literalPieces_text` — the pieces of a literal and the markers between them are the
  literal;
* `advance_written` — what one step reads;
* `written_of_mem_lexemes`, `textOf_lexemes` — what is read of a whole text: every lexeme
  is written, and no character is lost or read twice;
* `past_scanFrom` — no step looks behind the end of the text.
-/
import Graft.Proofs.Lexing.Markers

namespace Graft.Lexeme

/-- What a lexeme can be. -/
inductive Written : Lexeme → Prop where
  | blank {run : Text} (hne : run ≠ []) (hrun : ∀ c ∈ run, Text.isBlank c = true) :
      Written (.blank run)
  | marker {kind : Kind} (hkind : kind.marker ≠ []) : Written (.token kind kind.marker)
  | fragment {x : Text} (hx : x ≠ []) : Written (.token .stringFragment x)
  | spelt {kind : Kind} {x rest : Text} (h : Spells kind x rest) : Written (.token kind x)

theorem Written.text_ne_nil {l : Lexeme} (h : Written l) : l.text ≠ [] := by
  cases h with
  | blank hne _ => exact hne
  | marker hkind => exact hkind
  | fragment hx => exact hx
  | spelt h => exact h.ne_nil

/-- What is no marker and no piece of a literal is spelt as in source text. -/
theorem Written.spells {kind : Kind} {x : Text} (h : Written (.token kind x))
    (hmarker : kind.marker = []) (hkind : kind ≠ .stringFragment) : ∃ rest, Spells kind x rest := by
  generalize hl : Lexeme.token kind x = l at h
  cases h with
  | blank => simp at hl
  | marker hne =>
    obtain ⟨rfl, -⟩ := token.inj hl
    exact absurd hmarker hne
  | fragment => exact absurd (token.inj hl).1 hkind
  | @spelt kind' x' rest h =>
    obtain ⟨rfl, rfl⟩ := token.inj hl
    exact ⟨rest, h⟩

/-- A marker is spelt in one way. -/
theorem Written.marker_eq {kind : Kind} {x : Text} (h : Written (.token kind x))
    (hmarker : kind.marker ≠ []) : x = kind.marker := by
  generalize hl : Lexeme.token kind x = l at h
  cases h with
  | blank => simp at hl
  | marker =>
    obtain ⟨rfl, rfl⟩ := token.inj hl
    rfl
  | fragment =>
    obtain ⟨rfl, -⟩ := token.inj hl
    exact absurd rfl hmarker
  | spelt h =>
    obtain ⟨rfl, -⟩ := token.inj hl
    have hplain := h.isPlain
    simp [Kind.isPlain, hmarker] at hplain

/-! ### Pieces of a literal -/

/-- The pieces of a literal with the markers between them. -/
def Pieces.text (pieces : Pieces) : Text :=
  pieces.first ++ pieces.others.flatMap fun (kind, piece) => kind.marker ++ piece

/-- Cutting a literal loses nothing. -/
theorem literalPieces_text (t : Text) : (literalPieces [] t).text = t := by
  fun_induction literalPieces [] t with
  | case1 => rfl
  | case2 c cs ih =>
    show ['\\', c] ++ (literalPieces [] cs).first ++ _ = _
    rw [List.append_assoc]
    exact congrArg (['\\', c] ++ ·) ih
  | case3 c cs _ kind hkind ih =>
    -- the marker takes `c` and the two characters behind it
    rw [List.append_nil] at hkind
    have hsplit := (marker?_eq_some (literalMarker?_eq_some hkind)).2
    show [] ++ ((kind.marker ++ (literalPieces [] (cs.drop 2)).first) ++ _) = _
    rw [List.nil_append, List.append_assoc, hsplit, List.drop_succ_cons]
    exact congrArg (kind.marker ++ ·) ih
  | case4 c cs _ _ ih =>
    show [c] ++ (literalPieces [] cs).first ++ _ = _
    rw [List.append_assoc]
    exact congrArg ([c] ++ ·) ih

/-- The markers that cut a literal. -/
theorem literalPieces_kinds (beyond t : Text) : ∀ p ∈ (literalPieces beyond t).others,
    p.1 = .inserter ∨ p.1 = .folder := by
  fun_induction literalPieces beyond t with
  | case1 => simp
  | case2 c cs ih => exact ih
  | case3 c cs _ kind hkind ih =>
    intro p hp
    rcases List.mem_cons.mp hp with rfl | hp
    · unfold literalMarker? at hkind
      split at hkind <;> simp_all
    · exact ih p hp
  | case4 c cs _ _ ih => exact ih

theorem literalPieces_markers (beyond t : Text) :
    ∀ p ∈ (literalPieces beyond t).others, p.1.marker ≠ [] := by
  intro p hp
  rcases literalPieces_kinds beyond t p hp with hkind | hkind
  · simp [hkind, Kind.marker]
  · simp [hkind, Kind.marker]

theorem textOf_fragment (piece : Text) : textOf (fragment piece) = piece := by
  cases piece with
  | nil => rfl
  | cons c cs => simp [fragment, text]

theorem textOf_fragments (others : List (Kind × Text)) : ∀ piece : Text,
    textOf (fragments true piece others) = Pieces.text ⟨piece, others⟩ := by
  induction others with
  | nil =>
    intro piece
    rw [fragments, if_pos rfl, textOf_fragment]
    simp [Pieces.text]
  | cons p others ih =>
    intro piece
    rw [fragments, textOf_append, textOf_cons, ih, textOf_fragment]
    simp [Pieces.text, text]

theorem written_fragment (piece : Text) : ∀ l ∈ fragment piece, Written l := by
  intro l hl
  cases piece with
  | nil => simp [fragment] at hl
  | cons c cs =>
    obtain rfl : l = _ := by simpa [fragment] using hl
    exact .fragment (by simp)

theorem written_fragments (others : List (Kind × Text)) :
    (∀ p ∈ others, p.1.marker ≠ []) → ∀ piece : Text,
      ∀ l ∈ fragments true piece others, Written l := by
  induction others with
  | nil => exact fun _ piece => written_fragment piece
  | cons p others ih =>
    intro hmarkers piece l hl
    rcases List.mem_append.mp hl with hl | hl
    · exact written_fragment piece l hl
    rcases List.mem_cons.mp hl with rfl | hl
    · exact .marker (hmarkers p (by simp))
    · exact ih (fun q hq => hmarkers q (by simp [hq])) p.2 l hl

/-- A literal is read whole, or in pieces that make it up. -/
theorem literalLexemes_written {x rest : Text} (h : Spells .stringLiteral x rest) (mode : Mode) :
    (∀ l ∈ literalLexemes mode [] true x, Written l)
      ∧ textOf (literalLexemes mode [] true x) = x := by
  have hwhole : (∀ l ∈ [token .stringLiteral x], Written l)
      ∧ textOf [token .stringLiteral x] = x := by
    refine ⟨fun l hl => ?_, by simp [text]⟩
    rw [List.mem_singleton.mp hl]
    exact .spelt h
  cases mode with
  | source => exact hwhole
  | pattern =>
    have htext := literalPieces_text x
    have hmarkers := literalPieces_markers [] x
    unfold literalLexemes
    generalize literalPieces [] x = pieces at htext hmarkers
    obtain ⟨first, others⟩ := pieces
    cases others with
    | nil => exact hwhole
    | cons p others =>
      exact ⟨written_fragments _ hmarkers first, (textOf_fragments _ first).trans htext⟩

/-! ### One step -/

/-- Behind blanks and markers the two modes differ in what they make of literals. -/
theorem step_unmarked {mode : Mode} {c : Char} {cs : Text} (hc : Text.isBlank c = false)
    (hmarker : modeMarker? mode (c :: cs) = none) :
    step mode [] 0 c cs = if c = '#' then hashStep 0 cs
      else if isQuote c then literalStep mode [] 0 c cs else pairStep 0 c cs := by
  unfold step
  rw [if_neg (by simp [hc]), hmarker]

theorem advance_literal {q : Char} (hq : isQuote q = true) (mode : Mode) (cs : Text) :
    ∃ x rest, cs = x ++ rest ∧ Spells .stringLiteral (q :: x) rest
      ∧ advance mode q cs = (literalLexemes mode [] true (q :: x), rest) := by
  unfold advance
  rw [step_quote hq, literalStep]
  dsimp only
  cases hend : (literalTail q cs).ending with
  | closed =>
    have hparts : literalTail q cs
        = ⟨(literalTail q cs).body, (literalTail q cs).rest, .closed⟩ := by rw [← hend]
    obtain ⟨hcs, hbody⟩ := literalTail_closed hparts
    exact ⟨_, _, hcs, .literal hq hbody, rfl⟩
  | unclosed =>
    have hopen : (literalTail q cs).ending ≠ .closed := by simp [hend]
    refine ⟨cs, [], by simp, .openLiteral hq hopen, ?_⟩
    rw [literalTail_open hopen]
    rfl
  | dangling =>
    have hopen : (literalTail q cs).ending ≠ .closed := by simp [hend]
    refine ⟨cs, [], by simp, .openLiteral hq hopen, ?_⟩
    rw [literalTail_open hopen]
    rfl

theorem advance_marker {mode : Mode} {c : Char} {cs : Text} {kind : Kind}
    (hc : Text.isBlank c = false) (hmarker : modeMarker? mode (c :: cs) = some kind) :
    advance mode c cs = ([token kind kind.marker], cs.drop 2) := by
  unfold advance step
  rw [if_neg (by simp [hc]), hmarker]

theorem modeMarker?_eq_some {mode : Mode} {t : Text} {kind : Kind}
    (h : modeMarker? mode t = some kind) : marker? t = some kind := by
  cases mode with
  | pattern => exact h
  | source => simp [modeMarker?] at h

/-- Behind blanks, markers and literals the two modes agree. -/
theorem advance_unmarked {mode : Mode} {c : Char} {cs : Text} (hc : Text.isBlank c = false)
    (hmarker : modeMarker? mode (c :: cs) = none) (hquote : ¬ isQuote c = true) :
    advance mode c cs = advance .source c cs := by
  unfold advance
  rw [step_unmarked hc hmarker, @step_unmarked .source c cs hc rfl, if_neg hquote,
    if_neg hquote]

/-- One step reads lexemes that are written, and leaves the characters behind them. -/
theorem advance_written (mode : Mode) (c : Char) (cs : Text) :
    (∀ l ∈ (advance mode c cs).1, Written l)
      ∧ textOf (advance mode c cs).1 ++ (advance mode c cs).2 = c :: cs := by
  by_cases hblank : Text.isBlank c = true
  · rw [advance_blank hblank]
    refine ⟨fun l hl => ?_, by simp [text]⟩
    rw [List.mem_singleton.mp hl]
    refine .blank (by simp) fun d hd => ?_
    rcases List.mem_cons.mp hd with rfl | hd
    · exact hblank
    · exact forall_mem_takeWhile d hd
  have hc : Text.isBlank c = false := by simpa using hblank
  cases hmarker : modeMarker? mode (c :: cs) with
  | some kind =>
    obtain ⟨hkind, hsplit⟩ := marker?_eq_some (modeMarker?_eq_some hmarker)
    rw [advance_marker hc hmarker]
    refine ⟨fun l hl => ?_, ?_⟩
    · rw [List.mem_singleton.mp hl]
      exact .marker hkind
    · rw [List.drop_succ_cons] at hsplit
      simpa [text] using hsplit.symm
  | none =>
    by_cases hquote : isQuote c = true
    · obtain ⟨x, rest, rfl, hx, hadvance⟩ := advance_literal hquote mode cs
      obtain ⟨hwritten, htext⟩ := literalLexemes_written hx mode
      rw [hadvance]
      exact ⟨hwritten, by rw [htext]; rfl⟩
    · obtain ⟨kind, x, rest, rfl, hx⟩ := exists_spells hc cs
      rw [advance_unmarked hc hmarker hquote, advance_spells hx]
      refine ⟨fun l hl => ?_, by simp [text]⟩
      rw [List.mem_singleton.mp hl]
      exact .spelt hx

/-! ### A whole text -/

/-- A step takes at least one character. -/
theorem advance_shorter (mode : Mode) (c : Char) (cs : Text) :
    (advance mode c cs).2.length < (c :: cs).length := by
  unfold advance
  split
  · exact step_shorter ‹_›
  · simp
  · simp

/-- A text is empty, or what a step leaves of it is shorter. -/
theorem advance_induction {P : Text → Prop} (mode : Mode) (nil : P [])
    (cons : ∀ c cs, P (advance mode c cs).2 → P (c :: cs)) : ∀ t, P t := by
  suffices H : ∀ n t, t.length = n → P t from fun t => H _ t rfl
  intro n
  induction n using Nat.strongRecOn with
  | ind n ih =>
    intro t ht
    cases t with
    | nil => exact nil
    | cons c cs =>
      refine cons c cs (ih _ ?_ _ rfl)
      rw [← ht]
      exact advance_shorter mode c cs

theorem written_of_mem_lexemes {mode : Mode} {t : Text} {l : Lexeme} (h : l ∈ lexemes mode t) :
    Written l := by
  induction t using advance_induction mode with
  | nil => simp [lexemes_nil] at h
  | cons c cs ih =>
    rw [lexemes_cons] at h
    rcases List.mem_append.mp h with h | h
    · exact (advance_written mode c cs).1 l h
    · exact ih h

/-- The lexemes of a text are the text. -/
theorem textOf_lexemes (mode : Mode) (t : Text) : textOf (lexemes mode t) = t := by
  induction t using advance_induction mode with
  | nil => simp [lexemes_nil]
  | cons c cs ih => rw [lexemes_cons, textOf_append, ih, (advance_written mode c cs).2]

/-! ### The end of the text -/

section Past

variable {mode : Mode} {beyond : Text}

theorem runStep_ne_past (make : Text → Lexeme) (start : Text) (p : Char → Bool) (cs : Text)
    (ls : List Lexeme) : runStep 0 make start p cs ≠ .past ls := by
  simp [runStep]

theorem plainStep_ne_past (c : Char) (cs : Text) (ls : List Lexeme) :
    plainStep 0 c cs ≠ .past ls := by
  unfold plainStep
  split
  · exact runStep_ne_past _ _ _ cs ls
  split
  · exact runStep_ne_past _ _ _ cs ls
  · simp [charStep]

theorem pairStep_ne_past (c : Char) (cs : Text) (ls : List Lexeme) :
    pairStep 0 c cs ≠ .past ls := by
  unfold pairStep
  split
  · exact plainStep_ne_past _ _ ls
  · split
    · unfold lineCommentStep
      simp only
      split <;> simp
    · split
      · unfold blockCommentStep
        split <;> simp
      · split
        · simp
        · exact plainStep_ne_past _ _ ls

theorem literalStep_ne_past (q : Char) (cs : Text) (ls : List Lexeme) :
    literalStep mode beyond 0 q cs ≠ .past ls := by
  unfold literalStep
  dsimp only
  cases (literalTail q cs).ending <;> simp

theorem hashStep_ne_past (cs : Text) (ls : List Lexeme) : hashStep 0 cs ≠ .past ls := by
  cases cs with
  | nil => simp [hashStep, charStep]
  | cons c cs =>
    rw [hashStep]
    split
    · exact runStep_ne_past _ _ _ _ ls
    · simp [charStep]

/-- A step that misses no character does not look for one. -/
theorem step_ne_past (c : Char) (cs : Text) (ls : List Lexeme) :
    step mode beyond 0 c cs ≠ .past ls := by
  unfold step
  split
  · exact runStep_ne_past _ _ _ cs ls
  split
  · simp
  split
  · exact hashStep_ne_past cs ls
  split
  · exact literalStep_ne_past c cs ls
  · exact pairStep_ne_past c cs ls

theorem past_scanFrom (t : Text) : (scanFrom mode beyond 0 t).past = false := by
  fun_induction scanFrom mode beyond 0 t with
  | case1 => rfl
  | case2 c cs ls rest _ scan ih => exact ih
  | case3 c cs ls _ => rfl
  | case4 c cs ls h => exact absurd h (step_ne_past c cs ls)

end Past

end Graft.Lexeme
