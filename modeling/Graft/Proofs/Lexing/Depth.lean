/-
Depths of tokens.

Depths are levelled once all tokens of a text are known: the shallowest depth, the
one behind the last token included, becomes zero.  Lexemes that make no token do not
change the depth, so the shallowest depth is that over all lexemes (`lowest`), in
whichever mode they are read, and levelling is the same as starting that much deeper:

* `levelled_ofText`, `builtinTokens_eq` — the levelled tokens of a text, read off from its
  units;
* `lowest_append`, `lowest_flat` — the shallowest depth over parts, and over lexemes that
  do not change it;
* `tokens_quiet` — blanks and comments, which make no token of a source text;
* `nested_tokens` — from one token to the next the depth follows the braces.
-/
import Graft.Proofs.Lexing.Seams
import Graft.Tokenizer

namespace Graft

namespace Lexeme

/-- The shallowest depth in front of a lexeme or behind all of them. -/
def lowest (depth : Int) : List Lexeme → Int
  | [] => depth
  | l :: ls => min depth (lowest (depth + l.lift) ls)

theorem lowest_le (depth : Int) (ls : List Lexeme) : lowest depth ls ≤ depth := by
  cases ls with
  | nil => exact Int.le_refl _
  | cons l ls => exact Int.min_le_left _ _

theorem lowest_append (xs ys : List Lexeme) : ∀ depth : Int,
    lowest depth (xs ++ ys) = min (lowest depth xs) (lowest (depth + balance xs) ys) := by
  induction xs with
  | nil =>
    intro depth
    have hle := lowest_le depth ys
    simp only [List.nil_append, lowest, balance_nil, Int.add_zero]
    omega
  | cons l xs ih =>
    intro depth
    rw [List.cons_append, lowest, ih, lowest, balance_cons, Int.add_assoc, Int.min_assoc]

/-! ### Lexemes that do not change the depth -/

/-- Blanks, comments and markers change no depth. -/
def isFlat (l : Lexeme) : Bool := l.lift == 0

theorem balance_flat {ls : List Lexeme} (h : ∀ l ∈ ls, l.isFlat = true) : balance ls = 0 := by
  induction ls with
  | nil => rfl
  | cons l ls ih =>
    have hl : l.lift = 0 := by simpa [isFlat] using h l (by simp)
    rw [balance_cons, hl, ih fun k hk => h k (by simp [hk])]
    rfl

theorem lowest_flat {ls : List Lexeme} (h : ∀ l ∈ ls, l.isFlat = true) (depth : Int) :
    lowest depth ls = depth := by
  induction ls with
  | nil => rfl
  | cons l ls ih =>
    have hl : l.lift = 0 := by simpa [isFlat] using h l (by simp)
    rw [lowest, hl, Int.add_zero, ih fun k hk => h k (by simp [hk]), Int.min_self]

theorem lowest_cons_flat {l : Lexeme} (h : l.isFlat = true) (depth : Int) (ls : List Lexeme) :
    lowest depth (l :: ls) = lowest depth ls := by
  have hl : l.lift = 0 := by simpa [isFlat] using h
  have hle := lowest_le depth ls
  rw [lowest, hl, Int.add_zero]
  omega

theorem isFlat_blank (run : Text) : (blank run).isFlat = true := rfl

theorem lift_of_token?_eq_none {mode : Mode} {offset depth : Int} {l : Lexeme}
    (h : token? mode offset depth l = none) : l.lift = 0 := by
  cases l with
  | blank run => rfl
  | token kind x =>
    cases mode with
    | pattern => simp [token?] at h
    | source =>
      obtain rfl : kind = .comment := by simpa [token?] using h
      rfl

theorem depth_of_token?_eq_some {mode : Mode} {offset depth : Int} {l : Lexeme} {t : Token}
    (h : token? mode offset depth l = some t) : t.depth = depth := by
  cases l with
  | blank run => simp [token?] at h
  | token kind x =>
    cases mode with
    | pattern =>
      simp only [token?, Option.some.injEq] at h
      rw [← h]
    | source =>
      simp only [token?] at h
      split at h
      · simp at h
      · rw [← Option.some.inj h]

/-- Blanks and comments make no token of a source text. -/
def isQuiet : Lexeme → Bool
  | blank _ => true
  | token kind _ => kind == .comment

theorem isFlat_of_isQuiet {l : Lexeme} (h : l.isQuiet = true) : l.isFlat = true := by
  cases l with
  | blank run => rfl
  | token kind x =>
    obtain rfl : kind = .comment := by simpa [isQuiet] using h
    rfl

theorem lift_of_isQuiet {l : Lexeme} (h : l.isQuiet = true) : l.lift = 0 := by
  simpa [isFlat] using isFlat_of_isQuiet h

theorem token?_of_isQuiet {l : Lexeme} (h : l.isQuiet = true) (offset depth : Int) :
    token? .source offset depth l = none := by
  cases l with
  | blank run => rfl
  | token kind x =>
    obtain rfl : kind = .comment := by simpa [isQuiet] using h
    rfl

theorem tokens_quiet {ls : List Lexeme} (h : ∀ l ∈ ls, l.isQuiet = true) :
    ∀ (offset : Nat) (depth : Int), tokens .source offset depth ls = [] := by
  induction ls with
  | nil => exact fun _ _ => rfl
  | cons l ls ih =>
    intro offset depth
    rw [tokens, ih fun k hk => h k (by simp [hk]), token?_of_isQuiet (h l (by simp))]
    rfl

/-- The shallowest depth of tokens, and of the depth behind them, is that of the
lexemes. -/
theorem foldr_min_tokens (mode : Mode) (ls : List Lexeme) : ∀ (offset : Nat) (depth : Int),
    ((tokens mode offset depth ls).map (·.depth)).foldr min (depth + balance ls)
      = lowest depth ls := by
  induction ls with
  | nil =>
    intro offset depth
    simp [tokens, lowest]
  | cons l ls ih =>
    intro offset depth
    rw [tokens, lowest, balance_cons, ← Int.add_assoc]
    cases hl : token? mode offset depth l with
    | none =>
      have hlift := lift_of_token?_eq_none hl
      have hle := lowest_le depth ls
      simp only [hlift, Int.add_zero, Option.toList_none, List.nil_append, ih]
      omega
    | some t =>
      simp only [Option.toList_some, List.singleton_append, List.map_cons, List.foldr_cons, ih,
        depth_of_token?_eq_some hl]

end Lexeme

/-! ### Levelling -/

theorem Token.foldl_min (depths : List Int) : ∀ depth final : Int,
    min (depths.foldl min depth) final = min depth (depths.foldr min final) := by
  induction depths with
  | nil =>
    intro depth final
    rfl
  | cons d depths ih =>
    intro depth final
    rw [List.foldl_cons, ih, List.foldr_cons, Int.min_assoc]

theorem Token.foldr_min_le {depths : List Int} {depth : Int} (h : depth ∈ depths) (final : Int) :
    depths.foldr min final ≤ depth := by
  induction depths with
  | nil => simp at h
  | cons d depths ih =>
    rcases List.mem_cons.mp h with rfl | h
    · exact Int.min_le_left _ _
    · exact Int.le_trans (Int.min_le_right _ _) (ih h)

/-- Levelling moves the shallowest depth to zero, if it is negative. -/
theorem Token.level_eq (tokens : List Token) (final : Int) :
    Token.level tokens final = tokens.map fun token =>
      { token with depth := token.depth - min 0 ((tokens.map (·.depth)).foldr min final) } := by
  -- the floor is folded in two ways, and either of them makes the same move
  have hmove : ∀ floor floor', min 0 floor = floor' → (if 0 ≤ floor then tokens
      else tokens.map fun token => { token with depth := token.depth - floor })
        = tokens.map fun token => { token with depth := token.depth - floor' } := by
    rintro floor _ rfl
    split
    · rw [Int.min_eq_left ‹_›]
      simp
    · rw [Int.min_eq_right (by omega)]
  unfold Token.level
  cases htokens : tokens.map (·.depth) with
  | nil => exact hmove (min 0 final) _ (by rw [List.foldr_nil]; omega)
  | cons depth depths =>
    exact hmove (min (depths.foldl min depth) final) _ (by rw [Token.foldl_min, List.foldr_cons])

/-- No depth is negative once all of them are levelled. -/
theorem Token.level_nonneg {tokens : List Token} {final : Int} :
    ∀ token ∈ Token.level tokens final, 0 ≤ token.depth := by
  rw [Token.level_eq]
  refine List.forall_mem_map.mpr fun token htoken => ?_
  have hle := Token.foldr_min_le (List.mem_map_of_mem (f := (·.depth)) htoken) final
  dsimp only
  omega

namespace Lexeme

theorem ofText_eq (mode : Mode) (t : Text) : Reading.ofText mode t
    = ⟨tokens mode 0 0 (units mode t), balance (units mode t), (scan mode (.whole t)).past⟩ := by
  have hwindow : Window.ofSpan t 0 t.length = .whole t := by simp [Window.ofSpan, Window.whole]
  rw [Reading.ofText, Reading.ofSpan, hwindow, tokens_units, balance_units, Int.zero_add]
  rfl

/-- The tokens of a text lie as much deeper as its shallowest place lies below zero. -/
theorem levelled_ofText (mode : Mode) (t : Text) : (Reading.ofText mode t).levelled
    = tokens mode 0 (-lowest 0 (units mode t)) (units mode t) := by
  have hfloor := foldr_min_tokens mode (units mode t) 0 0
  rw [Int.zero_add] at hfloor
  rw [Reading.levelled, ofText_eq, Token.level_eq, hfloor, Int.min_eq_right (lowest_le _ _),
    ← Int.zero_add (-lowest _ _), tokens_add_depth]
  rfl

end Lexeme

/-- The tokens that the built-in tokenizer makes of a source text. -/
def builtinTokens (t : Text) : List Token := (Reading.ofText .source t).levelled

theorem tokenize_builtin (t : Text) : Tokenizer.builtin.tokenize t = (.ok (builtinTokens t), []) :=
  rfl

theorem builtinTokens_eq (t : Text) : builtinTokens t
    = Lexeme.tokens .source 0 (-Lexeme.lowest 0 (Lexeme.units .source t))
      (Lexeme.units .source t) :=
  Lexeme.levelled_ofText .source t

/-! ### Depths follow the braces -/

/-- How much a token changes the depth of the tokens behind it. -/
def Token.lift (token : Token) : Int := (Lexeme.token token.kind token.text).lift

/-- From each token to the next the depth changes by what the first one opens or closes. -/
def Nested (tokens : List Token) : Prop :=
  ∀ i a b, tokens[i]? = some a → tokens[i + 1]? = some b → b.depth = a.depth + a.lift

open Lexeme

theorem Nested.tail {a : Token} {tokens : List Token} (h : Nested (a :: tokens)) :
    Nested tokens := fun i b c hb hc => h (i + 1) b c hb hc

theorem Nested.head {a b : Token} {tokens : List Token} (h : Nested (a :: tokens))
    (hb : tokens.head? = some b) : b.depth = a.depth + a.lift :=
  h 0 a b rfl (by rwa [List.getElem?_cons_succ, ← List.head?_eq_getElem?])

theorem Nested.of_append {tokens : List Token} (before : List Token)
    (h : Nested (before ++ tokens)) : Nested tokens := by
  induction before with
  | nil => exact h
  | cons token before ih => exact ih h.tail

theorem nested_cons {a : Token} {tokens : List Token} (htokens : Nested tokens)
    (hhead : ∀ b, tokens.head? = some b → b.depth = a.depth + a.lift) : Nested (a :: tokens) := by
  intro i b c hb hc
  cases i with
  | zero =>
    obtain rfl : a = b := Option.some.inj hb
    exact hhead c (by rwa [List.getElem?_cons_succ, ← List.head?_eq_getElem?] at hc)
  | succ i => exact htokens i b c hb hc

theorem depth_of_head {mode : Mode} {ls : List Lexeme} {t : Token} :
    ∀ {offset : Nat} {depth : Int}, (tokens mode offset depth ls).head? = some t →
      t.depth = depth := by
  induction ls with
  | nil =>
    intro offset depth h
    simp [tokens] at h
  | cons l ls ih =>
    intro offset depth h
    rw [tokens] at h
    cases hl : token? mode offset depth l with
    | none =>
      rw [hl, Option.toList_none, List.nil_append] at h
      rw [ih h, lift_of_token?_eq_none hl, Int.add_zero]
    | some t' =>
      rw [hl] at h
      obtain rfl : t' = t := by simpa using h
      exact depth_of_token?_eq_some hl

theorem lift_of_token?_eq_some {mode : Mode} {offset depth : Int} {l : Lexeme} {t : Token}
    (h : token? mode offset depth l = some t) : t.lift = l.lift := by
  cases l with
  | blank run => simp [token?] at h
  | token kind x =>
    cases mode with
    | pattern => rw [← Option.some.inj h]; rfl
    | source =>
      obtain ⟨kind', x', hl, rfl⟩ := token?_source h
      rw [hl]
      rfl

theorem nested_tokens (mode : Mode) (ls : List Lexeme) : ∀ (offset : Nat) (depth : Int),
    Nested (tokens mode offset depth ls) := by
  induction ls with
  | nil =>
    intro offset depth i a b h
    simp [tokens] at h
  | cons l ls ih =>
    intro offset depth
    rw [tokens]
    cases hl : token? mode offset depth l with
    | none => exact ih _ _
    | some t =>
      refine nested_cons (ih _ _) fun b hb => ?_
      rw [depth_of_head hb, depth_of_token?_eq_some hl, lift_of_token?_eq_some hl]

theorem nested_builtinTokens (t : Text) : Nested (builtinTokens t) := by
  rw [builtinTokens_eq]
  exact nested_tokens _ _ _ _

end Graft
