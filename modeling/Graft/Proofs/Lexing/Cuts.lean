/-
Literals of a pattern, in pieces and whole.

A pattern's literal is cut where a marker stands inside it.  Read step by step, the tokens of
a pattern fall into groups, and the pieces of one literal with the markers between them are a
group (`Pattern.groups`).  In its place `Pattern.uncut` has the literal itself, without the
markers.  A closed literal stays closed when its markers are taken out, and of two closed
literals none goes on where the other ends:

* `literalTail_joined` — the pieces of a closed literal make a closed literal;
* `Spells.eq_of_closed_start` — what starts with a closed literal is that literal;
* `closed_or_last` — in source text only the last token can be a literal that is not closed;
* `uncuts_ofText` — where each cut literal is closed, the two patterns differ in their
  literals and in nothing else.
-/
import Graft.Pattern
import Graft.Proofs.Lexing.Depth
import Graft.Proofs.Lexing.Written

namespace Graft

/-- The literal ends with the quote that closes it. -/
def isClosedLiteral : Text → Bool
  | [] => false
  | q :: cs => Lexeme.isQuote q && Lexeme.literalTail q cs == ⟨cs, [], .closed⟩

/-- The token is a piece of a literal. -/
def Token.isPiece (token : Token) : Bool := token.kind == .stringFragment

/-- The pieces of literals among the tokens, one after the other. -/
def pieces (tokens : List Token) : Text := (tokens.filter (·.isPiece)).flatMap (·.text)

/-- The literal that the group is cut from, without the markers inside it; other groups stay
as they are. -/
def uncut (group : List Token) : List Token :=
  match group.find? (·.isPiece) with
  | none => group
  | some first => [{ first with kind := .stringLiteral, text := pieces group }]

namespace Lexeme

/-- The lexemes of a text, those of one step together. -/
def strides (mode : Mode) : Text → List (List Lexeme)
  | [] => []
  | c :: cs => (advance mode c cs).1 :: strides mode (advance mode c cs).2
termination_by t => t.length
decreasing_by exact advance_shorter mode c cs

/-- The tokens of a pattern from a depth on, those of one step together. -/
def groupsFrom (depth : Int) : List (List Lexeme) → List (List Token)
  | [] => []
  | ls :: rest => tokens .pattern 0 depth ls :: groupsFrom (depth + balance ls) rest

end Lexeme

/-- The tokens of a pattern, those of one step together. -/
def Pattern.groups (t : Text) : List (List Token) :=
  Lexeme.groupsFrom (-Lexeme.lowest 0 (Lexeme.units .pattern t)) (Lexeme.strides .pattern t)

/-- The pattern in which no literal is cut: each one stands whole and without the markers
inside it. -/
def Pattern.uncut (t : Text) : Pattern := ⟨(Pattern.groups t).flatMap Graft.uncut⟩

/-- Each literal that is cut ends with the quote that closes it. -/
def Pattern.ClosesCuts (t : Text) : Prop :=
  ∀ group ∈ Pattern.groups t, group.any (·.isPiece) = true →
    isClosedLiteral (group.flatMap (·.text)) = true

instance (t : Text) : Decidable (Pattern.ClosesCuts t) :=
  inferInstanceAs (Decidable (∀ group ∈ Pattern.groups t, _))

/-! ### Groups -/

theorem Lexeme.flatten_strides (mode : Mode) (t : Text) :
    (strides mode t).flatten = lexemes mode t := by
  induction t using advance_induction mode with
  | nil => rw [strides, lexemes_nil]; rfl
  | cons c cs ih => rw [strides, List.flatten_cons, ih, lexemes_cons]

theorem Lexeme.flatten_groupsFrom (lss : List (List Lexeme)) : ∀ depth : Int,
    (groupsFrom depth lss).flatten = tokens .pattern 0 depth lss.flatten := by
  induction lss with
  | nil => exact fun _ => rfl
  | cons ls lss ih =>
    intro depth
    rw [groupsFrom, List.flatten_cons, List.flatten_cons, tokens_pattern_append, ih]

/-- The groups of a pattern are its tokens. -/
theorem Pattern.flatten_groups (t : Text) :
    (Pattern.groups t).flatten = (Pattern.ofText t).tokens := by
  rw [Pattern.groups, Lexeme.flatten_groupsFrom, Lexeme.flatten_strides, Pattern.ofText,
    Lexeme.levelled_ofText, Lexeme.tokens_units]

/-! ### Closed literals -/

theorem isClosedLiteral_cons {q : Char} {cs : Text} : isClosedLiteral (q :: cs) = true
    ↔ Lexeme.isQuote q = true ∧ Lexeme.literalTail q cs = ⟨cs, [], .closed⟩ := by
  simp [isClosedLiteral]

namespace Lexeme

/-- What starts with a closed literal is that literal. -/
theorem Spells.eq_of_closed_start {kind : Kind} {a x rest : Text} (h : Spells kind x rest)
    (ha : isClosedLiteral a = true) (hstart : a <+: x) : a = x := by
  obtain ⟨r, rfl⟩ := hstart
  cases a with
  | nil => simp [isClosedLiteral] at ha
  | cons q cs =>
    obtain ⟨hq, hcs⟩ := isClosedLiteral_cons.mp ha
    -- the literal is read up to its quote, whatever is said to follow it
    have htail := literalTail_append hcs r
    rw [List.cons_append] at h
    obtain ⟨-, hclosed | ⟨hopen, -⟩⟩ := h.literal_cases (h.kind_of_quote hq)
    · rw [htail, LiteralTail.mk.injEq] at hclosed
      rw [hclosed.2.1, List.append_nil]
    · rw [htail] at hopen
      exact absurd rfl hopen

/-- Of two closed literals none starts with the other. -/
theorem eq_of_closed_start {a x : Text} (ha : isClosedLiteral a = true)
    (hx : isClosedLiteral x = true) (hstart : a <+: x) : a = x := by
  cases x with
  | nil => simp [isClosedLiteral] at hx
  | cons q cs =>
    obtain ⟨hq, hcs⟩ := isClosedLiteral_cons.mp hx
    have hspells : Spells .stringLiteral (q :: cs) [] := .literal hq hcs
    exact hspells.eq_of_closed_start ha hstart

/-- In source text a literal is closed, or it is the last token. -/
theorem closed_or_last {t : Text} : ∀ {offset : Nat} {depth : Int} {i : Nat} {token : Token},
    (tokens .source offset depth (units .source t))[i]? = some token →
    token.kind = .stringLiteral → isClosedLiteral token.text = true
      ∨ i + 1 = (tokens .source offset depth (units .source t)).length := by
  induction t using text_induction with
  | nil =>
    intro offset depth i token h
    simp [tokens] at h
  | blank c cs hc ih =>
    intro offset depth i token h hkind
    rw [units_blank _ hc] at h ⊢
    exact ih h hkind
  | token kind x rest hx ih =>
    intro offset depth i token h hkind
    rw [units_spells hx] at h ⊢
    by_cases hcomment : kind = .comment
    · subst hcomment
      rw [tokens_source_comment] at h ⊢
      exact ih h hkind
    rw [tokens_source_cons hcomment] at h ⊢
    cases i with
    | zero =>
      obtain rfl := Option.some.inj h
      obtain ⟨q, cs, rfl⟩ := List.exists_cons_of_ne_nil hx.ne_nil
      obtain ⟨hq, hcases⟩ := hx.literal_cases hkind
      refine hcases.imp (fun hclosed => isClosedLiteral_cons.mpr ⟨hq, hclosed⟩) fun hopen => ?_
      simp [hopen.2, tokens]
    | succ i => exact (ih h hkind).imp_right (congrArg (· + 1))

/-! ### The pieces of a closed literal -/

/-- The pieces of a literal without the markers between them. -/
def Pieces.joined (pieces : Pieces) : Text := pieces.first ++ pieces.others.flatMap (·.2)

/-- The piece behind the last marker. -/
def lastPiece : Text → List (Kind × Text) → Text
  | piece, [] => piece
  | _, (_, next) :: others => lastPiece next others

theorem lastPiece_after {piece : Text} {others : List (Kind × Text)} (cs : Text)
    (h : lastPiece piece others ≠ []) : lastPiece (cs ++ piece) others ≠ [] := by
  cases others with
  | nil => exact List.append_ne_nil_of_right_ne_nil cs h
  | cons p others => exact h

/-- A marker is read as plain characters of the literal. -/
theorem literalTail_marker {q : Char} (hq : isQuote q = true) {t : Text} {kind : Kind}
    (hkind : literalMarker? t = some kind) :
    literalTail q t = (literalTail q (t.drop 3)).after kind.marker := by
  have hquotes : q = Text.doubleQuote ∨ q = Text.singleQuote := by simpa [isQuote] using hq
  -- neither bracket of a marker is a quote or hides what follows it
  have hplain : ∀ c cs, c = '>' ∨ c = '<' →
      literalTail q (c :: cs) = (literalTail q cs).after [c] := by
    intro c cs hc
    refine literalTail_other ?_ ?_ cs
    · rintro rfl
      simp at hc
    · rintro rfl
      rcases hquotes with rfl | rfl <;> simp [Text.doubleQuote, Text.singleQuote] at hc
  unfold literalMarker? at hkind
  split at hkind
  · rename_i hmarker
    obtain rfl : Kind.inserter = kind := Option.some.inj hkind
    rw [(marker?_eq_some hmarker).2]
    show literalTail q ('>' :: '>' :: '>' :: t.drop 3) = _
    rw [hplain _ _ (.inl rfl), hplain _ _ (.inl rfl), hplain _ _ (.inl rfl)]
    rfl
  · rename_i hmarker
    obtain rfl : Kind.folder = kind := Option.some.inj hkind
    rw [(marker?_eq_some hmarker).2]
    show literalTail q ('<' :: '<' :: '<' :: t.drop 3) = _
    rw [hplain _ _ (.inr rfl), hplain _ _ (.inr rfl), hplain _ _ (.inr rfl)]
    rfl
  · simp at hkind

/-- Without its markers a closed literal is closed, and it does not end with a marker. -/
theorem literalTail_joined {q : Char} (hq : isQuote q = true) {x : Text}
    (h : literalTail q x = ⟨x, [], .closed⟩) :
    literalTail q (literalPieces [] x).joined = ⟨(literalPieces [] x).joined, [], .closed⟩
      ∧ lastPiece (literalPieces [] x).first (literalPieces [] x).others ≠ [] := by
  fun_induction literalPieces [] x with
  | case1 => simp [literalTail] at h
  | case2 c cs ih =>
    rw [literalTail] at h
    obtain ⟨hjoined, hlast⟩ := ih (after_eq.mp h)
    refine ⟨?_, lastPiece_after _ hlast⟩
    show literalTail q ('\\' :: c :: (literalPieces [] cs).joined) = _
    rw [literalTail, hjoined]
    rfl
  | case3 c cs hpair kind hkind ih =>
    rw [List.append_nil] at hkind
    have hsplit := (marker?_eq_some (literalMarker?_eq_some hkind)).2
    rw [literalTail_marker hq hkind] at h
    rw [List.drop_succ_cons] at h hsplit
    rw [hsplit] at h
    exact ih (after_eq.mp h)
  | case4 c cs hpair _ ih =>
    by_cases hc : c = '\\'
    · -- a backslash that hides nothing leaves the literal open
      subst hc
      cases cs with
      | nil => simp [literalTail] at h
      | cons d ds => exact absurd rfl (hpair d ds rfl)
    by_cases hquote : c = q
    · subst hquote
      rw [literalTail_quote hc, LiteralTail.mk.injEq] at h
      obtain rfl := h.2.1
      refine ⟨?_, ?_⟩
      · rw [literalPieces]
        exact literalTail_quote hc []
      · rw [literalPieces]
        simp [lastPiece, Pieces.after]
    · rw [literalTail_other hc hquote] at h
      obtain ⟨hjoined, hlast⟩ := ih (after_eq.mp h)
      refine ⟨?_, lastPiece_after _ hlast⟩
      show literalTail q (c :: (literalPieces [] cs).joined) = _
      rw [literalTail_other hc hquote, hjoined]
      rfl

/-- The quote that opens a literal belongs to its first piece. -/
theorem literalPieces_quote {q : Char} (hq : isQuote q = true) (x : Text) :
    literalPieces [] (q :: x) = (literalPieces [] x).after [q] := by
  have hbackslash : q ≠ '\\' := by
    rintro rfl
    exact absurd hq (by decide)
  have hmarker : literalMarker? (q :: x ++ []) = none := by
    have hnone : marker? (q :: x) = none := modeMarker?_quote hq .pattern x
    rw [List.append_nil, literalMarker?, hnone]
  rw [literalPieces.eq_3 [] q x (fun c cs h _ => hbackslash h), hmarker]

/-! ### Steps of a pattern -/

/-- What one step reads of a pattern. -/
inductive Stride : List Lexeme → Prop where
  | blank (run : Text) : Stride [.blank run]
  | token {kind : Kind} (hkind : kind ≠ .stringFragment) (x : Text) : Stride [.token kind x]
  | cut {q : Char} (hq : isQuote q = true) (x : Text) :
      Stride (fragments true (literalPieces [] (q :: x)).first (literalPieces [] (q :: x)).others)

theorem stride_literal {q : Char} (hq : isQuote q = true) (x : Text) :
    Stride (literalLexemes .pattern [] true (q :: x)) := by
  have hcut := Stride.cut hq x
  unfold literalLexemes
  generalize literalPieces [] (q :: x) = pieces at hcut
  obtain ⟨first, others⟩ := pieces
  cases others with
  | nil => exact .token (by simp) _
  | cons p others => exact hcut

theorem stride_advance (c : Char) (cs : Text) : Stride (advance .pattern c cs).1 := by
  by_cases hblank : Text.isBlank c = true
  · rw [advance_blank hblank]
    exact .blank _
  have hc : Text.isBlank c = false := by simpa using hblank
  cases hmarker : modeMarker? .pattern (c :: cs) with
  | some kind =>
    rw [advance_marker hc hmarker]
    refine .token ?_ _
    rintro rfl
    exact (marker?_eq_some (modeMarker?_eq_some hmarker)).1 rfl
  | none =>
    by_cases hquote : isQuote c = true
    · obtain ⟨x, rest, rfl, -, hadvance⟩ := advance_literal hquote .pattern cs
      rw [hadvance]
      exact stride_literal hquote x
    · obtain ⟨kind, x, rest, rfl, hx⟩ := exists_spells hc cs
      rw [advance_unmarked hc hmarker hquote, advance_spells hx]
      refine .token ?_ _
      rintro rfl
      generalize hkind : Kind.stringFragment = kind at hx
      cases hx with
      | single => split at hkind <;> simp at hkind
      | _ => simp at hkind

theorem stride_of_mem (t : Text) : ∀ ls ∈ strides .pattern t, Stride ls := by
  induction t using advance_induction .pattern with
  | nil => simp [strides]
  | cons c cs ih =>
    intro ls hls
    rw [strides] at hls
    rcases List.mem_cons.mp hls with rfl | hls
    · exact stride_advance c cs
    · exact ih ls hls

end Lexeme

/-! ### Cut literals among tokens -/

/-- Pieces and markers of a literal, up to its last piece. -/
inductive CutRest (depth : Int) : List Token → Prop where
  | last {x : Text} (hx : x ≠ []) : CutRest depth [⟨.stringFragment, x, depth, none⟩]
  | piece {x : Text} {rest : List Token} (hx : x ≠ []) (h : CutRest depth rest) :
      CutRest depth (⟨.stringFragment, x, depth, none⟩ :: rest)
  | marker {kind : Kind} {rest : List Token} (hkind : kind = .inserter ∨ kind = .folder)
      (h : CutRest depth rest) : CutRest depth (⟨kind, kind.marker, depth, none⟩ :: rest)

/-- The tokens of a closed literal that is cut. -/
structure CutLiteral (depth : Int) (cut : List Token) : Prop where
  rest : CutRest depth cut
  first : ∃ x rest, cut = ⟨.stringFragment, x, depth, none⟩ :: rest
  closed : isClosedLiteral (pieces cut) = true

/-- The tokens of one step at a depth, and how much deeper the next ones lie. -/
inductive Group (depth : Int) : List Token → Int → Prop where
  | none : Group depth [] 0
  | token {token : Token} {lift : Int} (hpiece : token.isPiece = false)
      (hdepth : token.depth = depth) (hlift : token.isMeta = true → lift = 0) :
      Group depth [token] lift
  | cut {cut : List Token} (hcut : CutLiteral depth cut) : Group depth cut 0

/-- The same tokens from a depth on, with literals in pieces and with these literals whole. -/
inductive Uncuts : Int → List Token → List Token → Prop where
  | nil {depth : Int} : Uncuts depth [] []
  | token {depth next : Int} {token : Token} {tokens tokens' : List Token}
      (hpiece : token.isPiece = false) (hdepth : token.depth = depth)
      (hnext : token.isMeta = true → next = depth) (h : Uncuts next tokens tokens') :
      Uncuts depth (token :: tokens) (token :: tokens')
  | cut {depth : Int} {cut tokens tokens' : List Token} (hcut : CutLiteral depth cut)
      (h : Uncuts depth tokens tokens') :
      Uncuts depth (cut ++ tokens) (⟨.stringLiteral, pieces cut, depth, none⟩ :: tokens')

@[simp] theorem pieces_nil : pieces [] = [] := rfl

theorem pieces_append (a b : List Token) : pieces (a ++ b) = pieces a ++ pieces b := by
  simp [pieces]

theorem pieces_cons_piece (x : Text) (depth : Int) (offset : Option Int) (rest : List Token) :
    pieces (⟨.stringFragment, x, depth, offset⟩ :: rest) = x ++ pieces rest := rfl

theorem pieces_cons_other {token : Token} (h : token.isPiece = false) (rest : List Token) :
    pieces (token :: rest) = pieces rest := by
  simp [pieces, h]

theorem isPiece_marker {kind : Kind} (hkind : kind = .inserter ∨ kind = .folder) (x : Text)
    (depth : Int) (offset : Option Int) : Token.isPiece ⟨kind, x, depth, offset⟩ = false := by
  rcases hkind with rfl | rfl <;> rfl

/-- There is something left to take of what is left of a literal. -/
theorem CutRest.pieces_ne_nil {depth : Int} {rest : List Token} (h : CutRest depth rest) :
    pieces rest ≠ [] := by
  induction h with
  | last hx =>
    rw [pieces_cons_piece]
    exact List.append_ne_nil_of_left_ne_nil hx _
  | piece hx _ _ =>
    rw [pieces_cons_piece]
    exact List.append_ne_nil_of_left_ne_nil hx _
  | marker hkind _ ih => rwa [pieces_cons_other (isPiece_marker hkind ..)]

theorem CutRest.tail {depth : Int} {token : Token} {rest : List Token}
    (h : CutRest depth (token :: rest)) (hne : rest ≠ []) : CutRest depth rest := by
  cases h with
  | last => exact absurd rfl hne
  | piece _ h => exact h
  | marker _ h => exact h

theorem CutRest.exists_last {depth : Int} {rest : List Token} (h : CutRest depth rest) :
    ∃ front x, rest = front ++ [⟨.stringFragment, x, depth, none⟩] := by
  induction h with
  | @last x hx => exact ⟨[], x, rfl⟩
  | piece _ _ ih | marker _ _ ih =>
    obtain ⟨front, x, rfl⟩ := ih
    exact ⟨_ :: front, x, rfl⟩

theorem CutLiteral.uncut_eq {depth : Int} {cut : List Token} (h : CutLiteral depth cut) :
    uncut cut = [⟨.stringLiteral, pieces cut, depth, none⟩] := by
  obtain ⟨x, rest, rfl⟩ := h.first
  rfl

namespace Lexeme

variable {depth : Int}

theorem tokens_fragment (piece : Text) : tokens .pattern 0 depth (fragment piece)
    = if piece = [] then [] else [⟨.stringFragment, piece, depth, none⟩] := by
  cases piece with
  | nil => rfl
  | cons c cs => rfl

theorem balance_fragment (piece : Text) : balance (fragment piece) = 0 := by
  cases piece with
  | nil => rfl
  | cons c cs => rfl

theorem lift_marker (kind : Kind) : (token kind kind.marker).lift = 0 := by
  cases kind <;> rfl

theorem balance_fragments (others : List (Kind × Text)) : ∀ piece : Text,
    balance (fragments true piece others) = 0 := by
  induction others with
  | nil => exact balance_fragment
  | cons p others ih =>
    intro piece
    rw [fragments, balance_append, balance_cons, balance_fragment, lift_marker, ih]
    rfl

/-- The tokens of a cut literal, piece by piece. -/
theorem tokens_fragments (piece : Text) (p : Kind × Text) (others : List (Kind × Text)) :
    tokens .pattern 0 depth (fragments true piece (p :: others))
      = tokens .pattern 0 depth (fragment piece)
        ++ ⟨p.1, p.1.marker, depth, none⟩
          :: tokens .pattern 0 depth (fragments true p.2 others) := by
  rw [fragments, tokens_pattern_append, balance_fragment, Int.add_zero, tokens_pattern_cons,
    lift_marker, Int.add_zero, tokens_pattern_offset (fragments true p.2 others) _ 0]

theorem cutRest_fragments {others : List (Kind × Text)}
    (hkinds : ∀ p ∈ others, p.1 = .inserter ∨ p.1 = .folder) : ∀ {piece : Text},
    lastPiece piece others ≠ [] →
      CutRest depth (tokens .pattern 0 depth (fragments true piece others)) := by
  induction others with
  | nil =>
    intro piece hlast
    have hpiece : piece ≠ [] := hlast
    rw [fragments, if_pos rfl, tokens_fragment, if_neg hpiece]
    exact .last hpiece
  | cons p others ih =>
    intro piece hlast
    have hrest := CutRest.marker (hkinds p (by simp))
      (ih (fun r hr => hkinds r (by simp [hr])) hlast)
    rw [tokens_fragments, tokens_fragment]
    split
    · exact hrest
    · exact .piece ‹_› hrest

theorem pieces_fragments {others : List (Kind × Text)}
    (hkinds : ∀ p ∈ others, p.1 = .inserter ∨ p.1 = .folder) : ∀ piece : Text,
    pieces (tokens .pattern 0 depth (fragments true piece others))
      = Pieces.joined ⟨piece, others⟩ := by
  have hfragment : ∀ piece, pieces (tokens .pattern 0 depth (fragment piece)) = piece := by
    intro piece
    rw [tokens_fragment]
    split
    · rename_i hnil
      rw [hnil, pieces_nil]
    · rw [pieces_cons_piece, pieces_nil, List.append_nil]
  induction others with
  | nil =>
    intro piece
    rw [fragments, if_pos rfl, hfragment]
    simp [Pieces.joined]
  | cons p others ih =>
    intro piece
    rw [tokens_fragments, pieces_append, hfragment,
      pieces_cons_other (isPiece_marker (hkinds p (by simp)) ..),
      ih fun r hr => hkinds r (by simp [hr])]
    simp [Pieces.joined]

/-- A literal as the pattern writes it, with its markers. -/
theorem flatMap_text_tokens {ls : List Lexeme} (h : ∀ run, blank run ∉ ls) :
    ∀ (offset : Nat) (depth : Int), (tokens .pattern offset depth ls).flatMap (·.text)
      = textOf ls := by
  induction ls with
  | nil => exact fun _ _ => rfl
  | cons l ls ih =>
    intro offset depth
    cases l with
    | blank run => exact absurd List.mem_cons_self (h run)
    | token kind x =>
      rw [tokens_pattern_cons, List.flatMap_cons, ih fun run hrun => h run (by simp [hrun])]
      rfl

theorem blank_not_mem_fragments (others : List (Kind × Text)) : ∀ (piece run : Text),
    blank run ∉ fragments true piece others := by
  have hfragment : ∀ piece run, blank run ∉ fragment piece := by
    intro piece run
    cases piece <;> simp [fragment]
  induction others with
  | nil => exact hfragment
  | cons p others ih =>
    intro piece run
    simp [fragments, hfragment, ih]

/-- A cut literal starts with a piece, since it starts with a quote. -/
theorem exists_first_piece (depth : Int) {q : Char} (hq : isQuote q = true) (x : Text) :
    ∃ y rest, tokens .pattern 0 depth
        (fragments true (literalPieces [] (q :: x)).first (literalPieces [] (q :: x)).others)
      = ⟨.stringFragment, y, depth, none⟩ :: rest := by
  have hfirst : (literalPieces [] (q :: x)).first = q :: (literalPieces [] x).first := by
    rw [literalPieces_quote hq]
    rfl
  rw [hfirst]
  cases (literalPieces [] (q :: x)).others with
  | nil => exact ⟨_, [], rfl⟩
  | cons p others =>
    rw [tokens_fragments]
    exact ⟨_, _, rfl⟩

/-- A cut literal that is closed as it is written is closed without its markers. -/
theorem cutLiteral_fragments (depth : Int) {q : Char} (hq : isQuote q = true) {x : Text}
    (hx : literalTail q x = ⟨x, [], .closed⟩) :
    CutLiteral depth (tokens .pattern 0 depth
      (fragments true (literalPieces [] (q :: x)).first (literalPieces [] (q :: x)).others)) := by
  have hkinds := literalPieces_kinds [] (q :: x)
  have hfirst := exists_first_piece depth hq x
  obtain ⟨hjoined, hlast⟩ := literalTail_joined hq hx
  rw [literalPieces_quote hq] at hkinds hfirst ⊢
  refine ⟨cutRest_fragments hkinds (lastPiece_after [q] hlast), hfirst, ?_⟩
  rw [pieces_fragments hkinds]
  exact isClosedLiteral_cons.mpr ⟨hq, hjoined⟩

/-- The tokens of one step, if they are closed where they are cut. -/
theorem Stride.group {ls : List Lexeme} (h : Stride ls)
    (hclosed : (tokens .pattern 0 depth ls).any (·.isPiece) = true →
      isClosedLiteral ((tokens .pattern 0 depth ls).flatMap (·.text)) = true) :
    Group depth (tokens .pattern 0 depth ls) (balance ls) := by
  cases h with
  | blank run => exact .none
  | @token kind hkind x =>
    refine .token ?_ rfl fun hmeta => ?_
    · simpa [Token.isPiece] using hkind
    · have hlift : (Lexeme.token kind x).lift = 0 := by
        unfold lift
        split <;> simp_all [Token.isMeta, Kind.isMeta]
      rw [balance_cons, balance_nil, hlift, Int.add_zero]
  | @cut q hq x =>
    -- the tokens are the literal as it is written, so that the literal is closed
    obtain ⟨y, rest, hfirst⟩ := exists_first_piece depth hq x
    have hwritten := hclosed (by rw [hfirst]; rfl)
    rw [flatMap_text_tokens (blank_not_mem_fragments _ _), textOf_fragments] at hwritten
    have hliteral := literalPieces_text (q :: x)
    rw [hliteral] at hwritten
    rw [balance_fragments]
    exact .cut (cutLiteral_fragments depth hq (isClosedLiteral_cons.mp hwritten).2)

theorem uncuts_groupsFrom {lss : List (List Lexeme)} (hstrides : ∀ ls ∈ lss, Stride ls) :
    ∀ {depth : Int}, (∀ group ∈ groupsFrom depth lss, group.any (·.isPiece) = true →
      isClosedLiteral (group.flatMap (·.text)) = true) →
    Uncuts depth (groupsFrom depth lss).flatten ((groupsFrom depth lss).flatMap uncut) := by
  induction lss with
  | nil => exact fun _ => .nil
  | cons ls lss ih =>
    intro depth hclosed
    have hrest := ih (fun ls' hls' => hstrides ls' (by simp [hls']))
      (fun group hgroup => hclosed group (List.mem_cons_of_mem _ hgroup))
    have hgroup := (hstrides ls (by simp)).group (hclosed _ List.mem_cons_self)
    rw [groupsFrom, List.flatten_cons, List.flatMap_cons]
    generalize tokens .pattern 0 depth ls = group at hgroup
    generalize balance ls = lift at hgroup hrest
    cases hgroup with
    | none => rwa [Int.add_zero] at hrest ⊢
    | @token token _ hpiece hdepth hlift =>
      have huncut : uncut [token] = [token] := by simp [uncut, hpiece]
      rw [huncut]
      exact .token hpiece hdepth (fun hmeta => by rw [hlift hmeta, Int.add_zero]) hrest
    | cut hcut =>
      rw [hcut.uncut_eq]
      rw [Int.add_zero] at hrest ⊢
      exact .cut hcut hrest

theorem group_of_mem {lss : List (List Lexeme)} (hstrides : ∀ ls ∈ lss, Stride ls)
    {group : List Token} : ∀ {depth : Int}, group ∈ groupsFrom depth lss →
    (group.any (·.isPiece) = true → isClosedLiteral (group.flatMap (·.text)) = true) →
    ∃ depth lift, Group depth group lift := by
  induction lss with
  | nil =>
    intro depth h
    simp [groupsFrom] at h
  | cons ls lss ih =>
    intro depth h hclosed
    rcases List.mem_cons.mp h with rfl | h
    · exact ⟨_, _, (hstrides ls (by simp)).group hclosed⟩
    · exact ih (fun ls' hls' => hstrides ls' (by simp [hls'])) h hclosed

end Lexeme

/-- Where each cut literal is closed, the pattern without cuts has the literals whole. -/
theorem uncuts_ofText {t : Text} (h : Pattern.ClosesCuts t) :
    ∃ depth, Uncuts depth (Pattern.ofText t).tokens (Pattern.uncut t).tokens := by
  rw [← Pattern.flatten_groups]
  exact ⟨_, Lexeme.uncuts_groupsFrom (Lexeme.stride_of_mem t) h⟩

/-- Where each cut literal is closed, the groups are tokens and closed literals. -/
theorem group_of_mem_groups {t : Text} (h : Pattern.ClosesCuts t) {group : List Token}
    (hgroup : group ∈ Pattern.groups t) : ∃ depth lift, Group depth group lift :=
  Lexeme.group_of_mem (Lexeme.stride_of_mem t) hgroup (h group hgroup)

theorem Group.cutLiteral {depth lift : Int} {group : List Token} (h : Group depth group lift)
    (hpiece : group.any (·.isPiece) = true) : CutLiteral depth group := by
  cases h with
  | none => simp at hpiece
  | token hother => simp [hother] at hpiece
  | cut hcut => exact hcut

end Graft
