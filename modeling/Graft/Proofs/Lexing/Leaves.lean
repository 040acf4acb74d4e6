/-
Reading at the leaves of a syntax tree.

A tree cuts a source text into the spans of its leaves.  Reading them one after the
other, the depth carried on, makes the tokens that reading the whole text makes, if the
spans cut no token and no comment and leave no token out:

* `leafSpans_eq_unstack` — the leaves are found by a loop over a stack of trees;
* `Placed` — the leaves by their places in the text instead of their bytes;
* `Cuts`, `Holds` — what is asked of these places;
* `readSpans_eq` — the reading of the spans from a place on;
* `tokenize_leaves` — both tokenizers make the same tokens.
-/
import Graft.Proofs.Lexing.Depth
import Graft.Proofs.Lexing.Written

namespace Graft

open Lexeme SyntaxTree

/-! ### Leaves by a stack -/

namespace SyntaxTree

theorem sizeOf_append (trees others : List SyntaxTree) :
    sizeOf (trees ++ others) + 1 = sizeOf trees + sizeOf others := by
  induction trees with
  | nil =>
    simp only [List.nil_append, List.nil.sizeOf_spec]
    omega
  | cons tree trees ih =>
    simp only [List.cons_append, List.cons.sizeOf_spec]
    omega

/-- The spans of the leaves of the trees on a stack, behind those found before.  The topmost tree
is taken off; unless it is a leaf or a comment, its children take its place. -/
def unstack (spans : List (Int × Int)) : List SyntaxTree → List (Int × Int)
  | [] => spans
  | node type start stop children _ :: stack =>
    if type == commentType then unstack spans stack
    else if children.isEmpty || atomicTypes.contains type then
      unstack (spans ++ if start < stop then [(start, stop)] else []) stack
    else unstack spans (children ++ stack)
termination_by stack => sizeOf stack
decreasing_by
  all_goals
    have hchildren := sizeOf_append children stack
    simp only [List.cons.sizeOf_spec, node.sizeOf_spec]
    omega

theorem leafSpansList_append (trees others : List SyntaxTree) :
    leafSpansList (trees ++ others) = leafSpansList trees ++ leafSpansList others := by
  induction trees with
  | nil => rfl
  | cons tree trees ih => rw [List.cons_append, leafSpansList, leafSpansList, ih, List.append_assoc]

/-- What was found and what the stack still holds are together the same at every turn. -/
theorem unstack_eq (spans : List (Int × Int)) (stack : List SyntaxTree) :
    unstack spans stack = spans ++ leafSpansList stack := by
  fun_induction unstack spans stack with
  | case1 => simp [leafSpansList]
  | case2 spans type start stop children hasError stack hcomment ih =>
    rw [ih, leafSpansList, leafSpans, if_pos hcomment, List.nil_append]
  | case3 spans type start stop children hasError stack hcomment hleaf ih =>
    rw [dite_eq_ite] at ih
    rw [ih, leafSpansList, leafSpans, if_neg hcomment, if_pos hleaf, List.append_assoc]
  | case4 spans type start stop children hasError stack hcomment hinner ih =>
    rw [ih, leafSpansList, leafSpans, if_neg hcomment, if_neg hinner, leafSpansList_append]

theorem leafSpans_eq_unstack (tree : SyntaxTree) : tree.leafSpans = unstack [] [tree] := by
  rw [unstack_eq, leafSpansList, leafSpansList, List.append_nil, List.nil_append]

end SyntaxTree

/-! ### Spans of leaves -/

/-- The byte spans of a text, as spans of its characters. -/
def SyntaxTree.Placed (t : Text) (bytes : List (Int × Int)) (spans : List (Nat × Nat)) : Prop :=
  bytes.map (fun span => (charIndex? t span.1, charIndex? t span.2))
    = spans.map fun span => (some (span.1 : Int), some (span.2 : Int))

/-- Spans that lie one behind the other in a text, from a place on, and that start and stop
where no token and no comment is cut. -/
structure Cuts (t : Text) (place : Nat) (spans : List (Nat × Nat)) : Prop where
  within : ∀ span ∈ spans, place ≤ span.1 ∧ span.1 ≤ span.2 ∧ span.2 ≤ t.length
  sorted : spans.Pairwise fun a b => a.2 ≤ b.1
  uncut : ∀ span ∈ spans, ¬ Inside t span.1 ∧ ¬ Inside t span.2

/-- Every character of every token lies in one of the spans. -/
def Holds (spans : List (Nat × Nat)) (tokens : List Token) : Prop :=
  ∀ token ∈ tokens, ∀ k ∈ token.offset, ∀ i < token.text.length,
    ∃ span ∈ spans, (span.1 : Int) ≤ k + i ∧ k + i < span.2

instance (t : Text) (bytes : List (Int × Int)) (spans : List (Nat × Nat)) :
    Decidable (Placed t bytes spans) :=
  inferInstanceAs (Decidable (_ = _))

instance (spans : List (Nat × Nat)) (tokens : List Token) : Decidable (Holds spans tokens) :=
  inferInstanceAs (Decidable (∀ _ ∈ _, ∀ _ ∈ _, ∀ _ < _, ∃ _ ∈ _, _ ∧ _))

/-! ### Spans that start in the text -/

/-- Literals of source text have no markers, so nothing is looked for behind their span. -/
theorem step_beyond (beyond : Text) (missing : Nat) (c : Char) (cs : Text) :
    step .source beyond missing c cs = step .source [] missing c cs := by
  unfold step literalStep
  rfl

theorem lexemes_scanFrom (beyond t : Text) :
    (scanFrom .source beyond 0 t).lexemes = lexemes .source t := by
  fun_induction scanFrom .source beyond 0 t with
  | case1 => exact (lexemes_nil _).symm
  | case2 c cs ls rest h scan ih =>
    rw [step_beyond] at h
    rw [lexemes_cons, advance_of_next h, ← ih]
  | case3 c cs ls h =>
    rw [step_beyond] at h
    rw [lexemes_cons, advance_of_last h, lexemes_nil, List.append_nil]
  | case4 c cs ls h => exact absurd h (step_ne_past c cs ls)

theorem between_natCast (mode : Mode) (t : Text) (depth : Int) (start stop : Nat) :
    Reading.between mode t depth start stop = Reading.ofSpan mode t depth start stop := by
  have hscan : Wrapped.scan ⟨t, stop⟩ mode start = ⟨[], start, false⟩ := by
    rw [Wrapped.scan, dif_neg (by omega)]
  simp [Reading.between, hscan, Reading.andThen, Wrapped.tokens]

theorem ofSpan_parts (a b c : Text) :
    Window.ofSpan (a ++ (b ++ c)) a.length (a.length + b.length) = ⟨b, c, 0⟩ := by
  simp [Window.ofSpan]

/-- A part of a text is read without a look at missing characters. -/
theorem between_parts (mode : Mode) (a b c : Text) (depth : Int) :
    Reading.between mode (a ++ (b ++ c)) depth a.length ((a.length + b.length : Nat) : Int)
      = ⟨tokens mode a.length depth (scanFrom mode c 0 b).lexemes,
        depth + balance (scanFrom mode c 0 b).lexemes, false⟩ := by
  rw [between_natCast, Reading.ofSpan, ofSpan_parts, scan, past_scanFrom]

/-- Reading a part of a text makes its own units, and does not run out of text. -/
theorem between_source (a b c : Text) (depth : Int) :
    Reading.between .source (a ++ (b ++ c)) depth a.length ((a.length + b.length : Nat) : Int)
      = ⟨tokens .source a.length depth (units .source b), depth + balance (units .source b),
        false⟩ := by
  rw [between_parts, lexemes_scanFrom, tokens_units, balance_units]

/-! ### One span after the other -/

/-- Lexemes that make no token are blanks and comments. -/
theorem isQuiet_of_tokens_eq_nil {ls : List Lexeme} : ∀ {offset : Nat} {depth : Int},
    tokens .source offset depth ls = [] → ∀ l ∈ ls, l.isQuiet = true := by
  induction ls with
  | nil =>
    intro _ _ _ l hl
    simp at hl
  | cons k ls ih =>
    intro offset depth h
    obtain ⟨hk, hls⟩ := List.append_eq_nil_iff.mp h
    refine List.forall_mem_cons.mpr ⟨?_, ih hls⟩
    cases k with
    | blank run => rfl
    | token kind x => simpa [token?, isQuiet] using hk

section Spans

variable {spans : List (Nat × Nat)} {t : Text} {offset : Nat} {depth : Int}

/-- In front of all spans there are only blanks and comments. -/
theorem Holds.isQuiet (h : Holds spans (tokens .source offset depth (units .source t)))
    (hspans : ∀ span ∈ spans, offset + t.length ≤ span.1) :
    ∀ l ∈ units .source t, l.isQuiet = true := by
  suffices hnil : tokens .source offset depth (units .source t) = [] from
    isQuiet_of_tokens_eq_nil hnil
  refine List.eq_nil_iff_forall_not_mem.mpr fun token htoken => ?_
  obtain ⟨k, hk, -, hstop⟩ := offset_of_mem_tokens htoken
  obtain ⟨xs, ys, hunits⟩ := List.append_of_mem (mem_of_mem_tokens htoken)
  have hpos := List.length_pos_iff.mpr (spells_of_units hunits).ne_nil
  obtain ⟨span, hspan, hstart, -⟩ := h token htoken k hk 0 hpos
  have hfront := hspans span hspan
  rw [textOf_units] at hstop
  omega

/-- Tokens behind the first span lie in the others. -/
theorem Holds.tail {span : Nat × Nat}
    (h : Holds (span :: spans) (tokens .source offset depth (units .source t)))
    (hspan : span.2 ≤ offset) : Holds spans (tokens .source offset depth (units .source t)) := by
  intro token htoken k hk i hi
  obtain ⟨n, hn, hle, -⟩ := offset_of_mem_tokens htoken
  obtain rfl : k = n := Option.some.inj (hk.symm.trans hn)
  obtain ⟨span', hmem, hin⟩ := h token htoken n hk i hi
  rcases List.mem_cons.mp hmem with rfl | hmem
  · omega
  · exact ⟨span', hmem, hin⟩

theorem Cuts.tail {span : Nat × Nat} {place : Nat} (h : Cuts t place (span :: spans)) :
    Cuts t span.2 spans := by
  obtain ⟨hbehind, hsorted⟩ := List.pairwise_cons.mp h.sorted
  refine ⟨fun span' hspan' => ?_, hsorted, fun span' hspan' => h.uncut span' (by simp [hspan'])⟩
  exact ⟨hbehind span' hspan', (h.within span' (by simp [hspan'])).2⟩

/-- A text is cut at the start and the stop of the first span. -/
theorem Cuts.exists_parts {a b : Text} {span : Nat × Nat} (ht : t = a ++ b)
    (hcut : units .source t = units .source a ++ units .source b)
    (h : Cuts t a.length (span :: spans)) :
    ∃ gap c d, b = gap ++ (c ++ d) ∧ (a ++ gap).length = span.1
      ∧ (a ++ gap ++ c).length = span.2
      ∧ units .source b = units .source gap ++ (units .source c ++ units .source d)
      ∧ units .source t = units .source (a ++ gap ++ c) ++ units .source d := by
  subst ht
  obtain ⟨hstart, hle, hstop⟩ := h.within span (by simp)
  obtain ⟨huncut, huncut'⟩ := h.uncut span (by simp)
  obtain ⟨gap, b', rfl, hgap⟩ : ∃ gap b', b = gap ++ b' ∧ (a ++ gap).length = span.1 := by
    refine ⟨b.take (span.1 - a.length), b.drop (span.1 - a.length),
      (List.take_append_drop _ _).symm, ?_⟩
    simp only [List.length_append, List.length_take] at hstop ⊢
    omega
  obtain ⟨c, d, rfl, hc⟩ : ∃ c d, b' = c ++ d ∧ (a ++ gap ++ c).length = span.2 := by
    refine ⟨b'.take (span.2 - span.1), b'.drop (span.2 - span.1),
      (List.take_append_drop _ _).symm, ?_⟩
    simp only [List.length_append, List.length_take] at hstop hgap ⊢
    omega
  rw [← hgap, ← List.append_assoc] at huncut
  rw [← hc, ← List.append_assoc, ← List.append_assoc] at huncut'
  have hcutGap := units_of_not_inside huncut
  have hcutSpan := units_of_not_inside huncut'
  refine ⟨gap, c, d, rfl, hgap, hc, ?_, ?_⟩
  · rw [units_between hcut hcutGap, units_between hcutGap hcutSpan]
  · rw [← hcutSpan, List.append_assoc, List.append_assoc]

/-- The reading of spans that lie in the part `b` of a text.  Between them there is nothing
that makes a token or changes the depth, so they read all of it. -/
theorem readSpans_eq : ∀ {bytes : List (Int × Int)} {a b : Text} (depth : Int), t = a ++ b →
    units .source t = units .source a ++ units .source b → Placed t bytes spans →
    Cuts t a.length spans → Holds spans (tokens .source a.length depth (units .source b)) →
    readSpans t depth bytes = .ok (tokens .source a.length depth (units .source b),
      depth + balance (units .source b)) := by
  induction spans with
  | nil =>
    intro bytes a b depth _ _ hbytes _ hholds
    obtain rfl := List.map_eq_nil_iff.mp hbytes
    have hquiet := hholds.isQuiet (by simp)
    rw [readSpans, tokens_quiet hquiet, balance_flat fun l hl => isFlat_of_isQuiet (hquiet l hl),
      Int.add_zero]
  | cons span spans ih =>
    intro bytes a b depth ht hcut hbytes hcuts hholds
    obtain ⟨⟨x, y⟩, bytes, rfl, hxy, hbytes⟩ := List.map_eq_cons_iff.mp hbytes
    obtain ⟨hx, hy⟩ := Prod.mk.inj hxy
    obtain ⟨gap, c, d, rfl, hgap, hc, hunits, hcut⟩ := hcuts.exists_parts ht hcut
    have hfront : Holds (span :: spans) (tokens .source a.length depth (units .source gap)) := by
      intro token htoken
      refine hholds token ?_
      rw [hunits, tokens_append]
      exact List.mem_append_left _ htoken
    have hquiet : ∀ l ∈ units .source gap, l.isQuiet = true := by
      refine hfront.isQuiet fun span' hspan' => ?_
      rw [← List.length_append, hgap]
      -- all spans start behind the gap
      rcases List.mem_cons.mp hspan' with rfl | hspan'
      · exact Nat.le_refl _
      · exact Nat.le_trans (hcuts.within span (by simp)).2.1 (hcuts.tail.within span' hspan').1
    have hflat : balance (units .source gap) = 0 :=
      balance_flat fun l hl => isFlat_of_isQuiet (hquiet l hl)
    have hsplit : tokens .source a.length depth (units .source (gap ++ (c ++ d)))
        = tokens .source span.1 depth (units .source c)
          ++ tokens .source span.2 (depth + balance (units .source c)) (units .source d) := by
      rw [hunits, tokens_append, tokens_quiet hquiet, hflat, Int.add_zero, textOf_units,
        ← List.length_append, tokens_append, textOf_units, ← List.length_append, hgap, hc]
      rfl
    have hread : Reading.between .source t depth span.1 span.2
        = ⟨tokens .source span.1 depth (units .source c), depth + balance (units .source c),
          false⟩ := by
      have hbetween := between_source (a ++ gap) c d depth
      rwa [← List.length_append, hgap, hc, List.append_assoc, ← ht] at hbetween
    have hbehind : Holds spans
        (tokens .source span.2 (depth + balance (units .source c)) (units .source d)) := by
      refine Holds.tail (fun token htoken => hholds token ?_) (Nat.le_refl _)
      rw [hsplit]
      exact List.mem_append_right _ htoken
    rw [← hc] at hbehind
    have hrest := ih _ (by simp [ht]) hcut hbytes (hc ▸ hcuts.tail) hbehind
    rw [readSpans, hx, hy]
    dsimp only
    rw [hread, hrest, hsplit, hunits, hc, balance_append, balance_append, hflat, Int.zero_add,
      Int.add_assoc]
    rfl

theorem tokens_leaves {tree : SyntaxTree} (hplaced : Placed t tree.leafSpans spans)
    (hcuts : Cuts t 0 spans) (hholds : Holds spans (builtinTokens t)) :
    tree.tokens t = .ok (builtinTokens t) := by
  have hholds' : Holds spans (tokens .source 0 0 (units .source t)) := by
    rw [builtinTokens_eq, ← Int.zero_add (-lowest _ _), tokens_add_depth] at hholds
    exact List.forall_mem_map.mp hholds
  have hread : readSpans t 0 tree.leafSpans
      = .ok (tokens .source 0 0 (units .source t), 0 + balance (units .source t)) :=
    readSpans_eq (a := []) 0 rfl (by simp) hplaced hcuts hholds'
  rw [SyntaxTree.tokens, hread, builtinTokens, Reading.levelled, ofText_eq, Int.zero_add]
  rfl

end Spans

/-- A tree whose leaves cut no token and no comment of a text, and leave no token out, makes
the tokens that the text has by itself. -/
theorem tokenize_leaves (parser : Parser) (t : Text) (spans : List (Nat × Nat))
    (hplaced : Placed t (parser t).leafSpans spans) (hcuts : Cuts t 0 spans)
    (hholds : Holds spans (builtinTokens t)) :
    ((Tokenizer.leaves parser).tokenize t).1 = (Tokenizer.builtin.tokenize t).1 := by
  rw [tokenize_builtin, Tokenizer.tokenize, tokens_leaves hplaced hcuts hholds]

/-- The tree of `{ "é" /* ö */ } x`: a literal whose inside was parsed, and a comment. -/
def accentTree : SyntaxTree :=
  .node "translation_unit".toList 0 19
    [.node "\x7b".toList 0 1 [] false,
      .node "string_literal".toList 2 6
        [.node "\"".toList 2 3 [] false, .node "\"".toList 5 6 [] false] false,
      .node "comment".toList 7 15 [] false,
      .node "\x7d".toList 16 17 [] false,
      .node "identifier".toList 18 19 [] false] false

theorem tokenize_leaves_accents :
    accentTree.leafSpans = [(0, 1), (2, 6), (16, 17), (18, 19)]
      ∧ ((Tokenizer.leaves fun _ => accentTree).tokenize "\x7b \"é\" /* ö */ \x7d x".toList).1
        = (Tokenizer.builtin.tokenize "\x7b \"é\" /* ö */ \x7d x".toList).1 := by
  refine ⟨by decide, tokenize_leaves _ _ [(0, 1), (2, 5), (14, 15), (16, 17)] ?_ ?_ ?_⟩
  · decide +kernel
  · exact ⟨by decide +kernel, by decide, by decide +kernel⟩
  · decide +kernel

end Graft
