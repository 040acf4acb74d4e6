/-
Depth is the balance of braces.

The depth of a token is read off from the braces among the tokens themselves: as many as
are opened in front of it, less those that are closed, counted from the lowest balance
that there is anywhere between two tokens.  It does not matter how the text is read, since
what makes no token is no brace:

* `braces`, `floor` — the balance of tokens, and its lowest value;
* `Balanced` — tokens among which every brace has its partner;
* `lowest_le_braces`, `exists_braces_eq_lowest` — the lowest balance of tokens is that of
  their lexemes;
* `braceDepths_ofText` — the depths of the tokens of a pattern, and of a source text.
-/
import Graft.Pattern
import Graft.Proofs.Lexing.Depth

namespace Graft

/-- The token is the brace of the given sign. -/
def Token.isBrace (sign : Char) (token : Token) : Bool :=
  token.kind == .bracket && token.text == [sign]

/-- The number of opening braces less that of closing braces. -/
def braces (tokens : List Token) : Int :=
  tokens.countP (·.isBrace '\x7b') - tokens.countP (·.isBrace '\x7d')

/-- The balance in front of each token, and behind the last one. -/
def balances (tokens : List Token) : List Int :=
  (List.range (tokens.length + 1)).map fun i => braces (tokens.take i)

/-- The lowest balance. -/
def floor (tokens : List Token) : Int := (balances tokens).min?.getD 0

/-- Tokens among which every brace has its partner. -/
inductive Balanced : List Token → Prop where
  | nil : Balanced []
  | other {token : Token} {tokens : List Token} (hopen : token.isBrace '\x7b' = false)
      (hclose : token.isBrace '\x7d' = false) (h : Balanced tokens) : Balanced (token :: tokens)
  | block {opening closing : Token} {inner tokens : List Token}
      (hopen : opening.isBrace '\x7b' = true) (hclose : closing.isBrace '\x7d' = true)
      (hinner : Balanced inner) (h : Balanced tokens) :
      Balanced (opening :: (inner ++ closing :: tokens))

/-- The depths of the tokens are those that their braces give them. -/
structure BraceDepths (tokens : List Token) : Prop where
  /-- A token is as deep as the balance in front of it is above the lowest one. -/
  depth_eq : ∀ i token, tokens[i]? = some token →
    token.depth = braces (tokens.take i) - floor tokens
  nonneg : ∀ token ∈ tokens, 0 ≤ token.depth
  /-- A brace that closes another one is one deeper. -/
  partner : ∀ before opening inner closing after,
    tokens = before ++ opening :: (inner ++ closing :: after) →
    opening.isBrace '\x7b' = true → closing.isBrace '\x7d' = true → Balanced inner →
    closing.depth = opening.depth + 1

/-! ### Balances -/

theorem Token.lift_eq (token : Token) : token.lift
    = (if token.isBrace '\x7b' then 1 else 0) - if token.isBrace '\x7d' then 1 else 0 := by
  obtain ⟨kind, x, depth, offset⟩ := token
  unfold Token.lift Lexeme.lift Token.isBrace
  split <;> grind

theorem braces_nil : braces [] = 0 := rfl

theorem braces_cons (token : Token) (tokens : List Token) :
    braces (token :: tokens) = token.lift + braces tokens := by
  rw [braces, braces, List.countP_cons, List.countP_cons, token.lift_eq]
  split <;> split <;> omega

theorem braces_append (xs ys : List Token) : braces (xs ++ ys) = braces xs + braces ys := by
  rw [braces, braces, braces, List.countP_append, List.countP_append]
  omega

theorem lift_opening {token : Token} (h : token.isBrace '\x7b' = true) : token.lift = 1 := by
  have htext : token.text = ['\x7b'] := by
    simp only [Token.isBrace, Bool.and_eq_true, beq_iff_eq] at h
    exact h.2
  rw [token.lift_eq, if_pos h, if_neg (by simp [Token.isBrace, htext])]
  rfl

theorem lift_closing {token : Token} (h : token.isBrace '\x7d' = true) : token.lift = -1 := by
  have htext : token.text = ['\x7d'] := by
    simp only [Token.isBrace, Bool.and_eq_true, beq_iff_eq] at h
    exact h.2
  rw [token.lift_eq, if_pos h, if_neg (by simp [Token.isBrace, htext])]
  rfl

theorem Balanced.braces_eq_zero {tokens : List Token} (h : Balanced tokens) :
    braces tokens = 0 := by
  induction h with
  | nil => exact braces_nil
  | other hopen hclose _ ih =>
    rw [braces_cons, ih, Token.lift_eq, if_neg (by simp [hopen]), if_neg (by simp [hclose])]
    rfl
  | block hopen hclose _ _ hinner hrest =>
    rw [braces_cons, braces_append, braces_cons, hinner, hrest, lift_opening hopen,
      lift_closing hclose]
    rfl

/-- The lowest balance is the one that all others are at least as high as. -/
theorem floor_eq {tokens : List Token} {low : Int}
    (hle : ∀ k, low ≤ braces (tokens.take k))
    (hmem : ∃ k ≤ tokens.length, braces (tokens.take k) = low) : floor tokens = low := by
  have hmin : (balances tokens).min? = some low := by
    refine List.min?_eq_some_iff.mpr ⟨?_, fun b hb => ?_⟩
    · obtain ⟨k, hk, hlow⟩ := hmem
      exact List.mem_map.mpr ⟨k, List.mem_range.mpr (by omega), hlow⟩
    · obtain ⟨k, -, rfl⟩ := List.mem_map.mp hb
      exact hle k
  rw [floor, hmin]
  rfl

/-- If depths are balances above the lowest one, none is negative, and a brace that closes
another one is one deeper. -/
theorem BraceDepths.of_depth_eq {tokens : List Token} {low : Int}
    (hle : ∀ k, low ≤ braces (tokens.take k))
    (hmem : ∃ k ≤ tokens.length, braces (tokens.take k) = low)
    (hdepth : ∀ i token, tokens[i]? = some token → token.depth = braces (tokens.take i) - low) :
    BraceDepths tokens := by
  refine ⟨?_, ?_, ?_⟩
  · rw [floor_eq hle hmem]
    exact hdepth
  · intro token htoken
    obtain ⟨i, hi⟩ := List.mem_iff_getElem?.mp htoken
    have hlow := hle i
    rw [hdepth i token hi]
    omega
  · intro before opening inner closing after htokens hopen hclose hinner
    have hfirst := hdepth before.length opening (by simp [htokens])
    -- the balance in front of the closing brace counts the opening one, and nothing else
    have hsecond := hdepth (before.length + (1 + inner.length)) closing (by
      rw [htokens, List.getElem?_append_right (by omega), Nat.add_sub_cancel_left, Nat.add_comm 1,
        List.getElem?_cons_succ, List.getElem?_append_right (Nat.le_refl _), Nat.sub_self]
      rfl)
    have htake : tokens.take before.length = before := by
      rw [htokens, List.take_left]
    have htake' : tokens.take (before.length + (1 + inner.length))
        = before ++ opening :: inner := by
      have hsplit : tokens = (before ++ opening :: inner) ++ closing :: after := by simp [htokens]
      rw [hsplit]
      exact List.take_left' (by simp; omega)
    rw [htake] at hfirst
    rw [htake', braces_append, braces_cons, hinner.braces_eq_zero, lift_opening hopen] at hsecond
    omega

/-! ### Tokens of lexemes -/

namespace Lexeme

theorem lowest_le_braces (mode : Mode) (ls : List Lexeme) :
    ∀ (offset : Nat) (depth : Int) (k : Nat),
    lowest depth ls ≤ depth + braces ((tokens mode offset depth ls).take k) := by
  induction ls with
  | nil =>
    intro offset depth k
    simp [tokens, lowest, braces_nil]
  | cons l ls ih =>
    intro offset depth k
    have hnext := ih (offset + l.text.length) (depth + l.lift)
    rw [tokens, lowest]
    cases hl : token? mode offset depth l with
    | none =>
      -- what makes no token is passed over
      have hbalance := hnext k
      rw [lift_of_token?_eq_none hl] at hbalance ⊢
      simp only [Int.add_zero, Option.toList_none, List.nil_append] at hbalance ⊢
      omega
    | some token =>
      simp only [Option.toList_some, List.singleton_append]
      cases k with
      | zero =>
        rw [List.take_zero, braces_nil]
        omega
      | succ k =>
        have hbalance := hnext k
        rw [List.take_succ_cons, braces_cons, lift_of_token?_eq_some hl]
        omega

theorem exists_braces_eq_lowest (mode : Mode) (ls : List Lexeme) : ∀ (offset : Nat) (depth : Int),
    ∃ k ≤ (tokens mode offset depth ls).length,
      depth + braces ((tokens mode offset depth ls).take k) = lowest depth ls := by
  induction ls with
  | nil =>
    intro offset depth
    exact ⟨0, Nat.le_refl _, by simp [tokens, lowest, braces_nil]⟩
  | cons l ls ih =>
    intro offset depth
    obtain ⟨k, hk, hlowest⟩ := ih (offset + l.text.length) (depth + l.lift)
    have hstart := lowest_le depth ls
    rw [tokens, lowest]
    cases hl : token? mode offset depth l with
    | none =>
      rw [lift_of_token?_eq_none hl] at hk hlowest ⊢
      simp only [Int.add_zero, Option.toList_none, List.nil_append] at hk hlowest ⊢
      exact ⟨k, hk, by omega⟩
    | some token =>
      simp only [Option.toList_some, List.singleton_append]
      by_cases hle : depth ≤ lowest (depth + l.lift) ls
      · -- nowhere is it lower than here
        refine ⟨0, Nat.zero_le _, ?_⟩
        rw [List.take_zero, braces_nil]
        omega
      · refine ⟨k + 1, by simpa using hk, ?_⟩
        rw [List.take_succ_cons, braces_cons, lift_of_token?_eq_some hl]
        omega

theorem depth_eq_braces (mode : Mode) (ls : List Lexeme) (offset : Nat) (depth : Int) :
    ∀ i token, (tokens mode offset depth ls)[i]? = some token →
      token.depth = depth + braces ((tokens mode offset depth ls).take i) := by
  have hnested := nested_tokens mode ls offset depth
  have hhead : ∀ token, (tokens mode offset depth ls).head? = some token → token.depth = depth :=
    fun token h => depth_of_head h
  generalize tokens mode offset depth ls = ts at hnested hhead
  induction ts generalizing depth with
  | nil =>
    intro i token h
    simp at h
  | cons first ts ih =>
    intro i token h
    have hfirst := hhead first rfl
    cases i with
    | zero =>
      obtain rfl : first = token := Option.some.inj h
      rw [hfirst, List.take_zero, braces_nil, Int.add_zero]
    | succ i =>
      have hrest := ih (depth + first.lift) hnested.tail
        (fun next hnext => by rw [hnested.head hnext, hfirst]) i token h
      rw [List.take_succ_cons, braces_cons, ← Int.add_assoc]
      exact hrest

end Lexeme

/-! ### Texts -/

theorem braceDepths_levelled (mode : Mode) (t : Text) :
    BraceDepths (Reading.ofText mode t).levelled := by
  rw [Lexeme.levelled_ofText]
  generalize Lexeme.units mode t = us
  -- levelled tokens start as far above zero as the lowest balance is below it
  have hshift := Lexeme.tokens_add_depth mode (-Lexeme.lowest 0 us) us 0 0
  rw [Int.zero_add] at hshift
  have hbraces : ∀ k, braces ((Lexeme.tokens mode 0 (-Lexeme.lowest 0 us) us).take k)
      = braces ((Lexeme.tokens mode 0 0 us).take k) := by
    intro k
    rw [hshift, ← List.map_take, braces, braces, List.countP_map, List.countP_map]
    rfl
  refine @BraceDepths.of_depth_eq _ (Lexeme.lowest 0 us) ?_ ?_ ?_
  · intro k
    have hle := Lexeme.lowest_le_braces mode us 0 0 k
    rw [hbraces]
    omega
  · obtain ⟨k, hk, hlowest⟩ := Lexeme.exists_braces_eq_lowest mode us 0 0
    refine ⟨k, by rwa [hshift, List.length_map], ?_⟩
    rw [hbraces]
    omega
  · intro i token h
    rw [Lexeme.depth_eq_braces mode us 0 _ i token h]
    omega

/-- **Depth is the balance of braces.**  In a pattern and in a source text alike, a token is
as deep as the balance of the braces in front of it is above the lowest one, so no depth is
negative, and a brace that closes another one is one deeper. -/
theorem braceDepths_ofText (t : Text) :
    BraceDepths (Pattern.ofText t).tokens
      ∧ ∃ tokens, Tokenizer.builtin.tokenize t = (.ok tokens, []) ∧ BraceDepths tokens :=
  ⟨braceDepths_levelled .pattern t,
    builtinTokens t, tokenize_builtin t, braceDepths_levelled .source t⟩

-- the brace that nothing opens lifts what stands in front of it, also behind a comment
example : (builtinTokens "a /* \x7b */ \x7d b \x7b c \x7d".toList).map (·.depth)
    = [1, 1, 0, 0, 1, 1] := by decide +kernel

end Graft
