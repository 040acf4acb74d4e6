/-
Trees whose spans are in order.

A parser is trusted to nest the spans of its nodes and to put siblings one behind the other.  It
is not trusted to cut a text between two characters, or between two tokens.  The leaves of such a
tree come in the order of the text, and whatever they cut, reading them makes tokens that are
parts of the text, one behind the other:

* `SyntaxTree.Within` — what the parser is trusted with;
* `Within.ordered` — the spans of the leaves lie one behind the other;
* `Parts`, `Parts.append` — tokens that are parts of a text, and reading on behind them;
* `readSpans_ordered` — spans that lie one behind the other are read without a fault;
* `tokenize_within` — the tokens at the leaves keep what is promised of source tokens.
-/
import Graft.Proofs.Lexing.Coverage
import Graft.Proofs.Lexing.Leaves
import Graft.Proofs.Text.ByteOffsets
import Graft.Proofs.Text.Lines

namespace Graft

open Lexeme Utf8

/-- What is promised of the tokens of a source text: they lie in it one behind the other, each is
the part of the text from its offset to its end, none is a marker, a piece of a literal or a
comment, and no depth is negative. -/
structure Promised (t : Text) (tokens : List Token) : Prop where
  inOrder : InOrder tokens t.length
  cut : ∀ token ∈ tokens, ∃ start ∈ token.offset, ∃ stop ∈ token.stop?,
    token.text = t.between start stop
  plain : ∀ token ∈ tokens,
    token.kind ∉ [Kind.wildcard, .inserter, .folder, .stringFragment, .comment]
  depth_nonneg : ∀ token ∈ tokens, 0 ≤ token.depth

namespace SyntaxTree

/-- The first byte of a tree, and the one behind its last. -/
def span : SyntaxTree → Int × Int
  | node _ start stop _ _ => (start, stop)

/-- A tree that lies between two bytes: its children lie in its own span, and each of them stops
where the next one starts, or before. -/
inductive Within : Int → Int → SyntaxTree → Prop
  | node {low high start stop : Int} {type : Text} {children : List SyntaxTree} {hasError : Bool}
      (hlow : low ≤ start) (hhigh : stop ≤ high)
      (hchildren : ∀ child ∈ children, Within start stop child)
      (hsorted : children.Pairwise fun a b => a.span.2 ≤ b.span.1) :
      Within low high (.node type start stop children hasError)

theorem within_iff {low high start stop : Int} {type : Text} {children : List SyntaxTree}
    {hasError : Bool} : Within low high (.node type start stop children hasError) ↔
      low ≤ start ∧ stop ≤ high ∧ (∀ child ∈ children, Within start stop child)
        ∧ children.Pairwise fun a b => a.span.2 ≤ b.span.1 := by
  constructor
  · rintro ⟨hlow, hhigh, hchildren, hsorted⟩
    exact ⟨hlow, hhigh, hchildren, hsorted⟩
  · rintro ⟨hlow, hhigh, hchildren, hsorted⟩
    exact .node hlow hhigh hchildren hsorted

/-- Spans between two bytes that lie one behind the other. -/
structure Ordered (low high : Int) (spans : List (Int × Int)) : Prop where
  within : ∀ span ∈ spans, low ≤ span.1 ∧ span.1 ≤ span.2 ∧ span.2 ≤ high
  sorted : spans.Pairwise fun a b => a.2 ≤ b.1

variable {low high : Int} {tree : SyntaxTree} {trees : List SyntaxTree}

theorem Ordered.nil : Ordered low high [] := ⟨by simp, .nil⟩

theorem Ordered.widen {low' high' : Int} {spans : List (Int × Int)} (h : Ordered low high spans)
    (hlow : low' ≤ low) (hhigh : high ≤ high') : Ordered low' high' spans := by
  refine ⟨fun span hspan => ?_, h.sorted⟩
  obtain ⟨hstart, hle, hstop⟩ := h.within span hspan
  exact ⟨by omega, hle, by omega⟩

theorem Ordered.tail {span : Int × Int} {spans : List (Int × Int)}
    (h : Ordered low high (span :: spans)) : Ordered span.2 high spans := by
  obtain ⟨hbehind, hsorted⟩ := List.pairwise_cons.mp h.sorted
  exact ⟨fun next hnext => ⟨hbehind next hnext, (h.within next (by simp [hnext])).2⟩, hsorted⟩

/-! ### The leaves of a tree -/

/-- Trees one behind the other have their leaves one behind the other. -/
theorem ordered_leafSpansList
    (hleaves : ∀ tree ∈ trees, Ordered tree.span.1 tree.span.2 tree.leafSpans)
    (hwithin : ∀ tree ∈ trees, low ≤ tree.span.1 ∧ tree.span.2 ≤ high)
    (hsorted : trees.Pairwise fun a b => a.span.2 ≤ b.span.1) :
    Ordered low high (leafSpansList trees) := by
  induction trees generalizing low with
  | nil => exact .nil
  | cons tree trees ih =>
    obtain ⟨hbehind, hsorted⟩ := List.pairwise_cons.mp hsorted
    have hfirst := hleaves tree (by simp)
    obtain ⟨hlow, hhigh⟩ := hwithin tree (by simp)
    have hrest : ∀ low', (∀ next ∈ trees, low' ≤ next.span.1) →
        Ordered low' high (leafSpansList trees) := fun low' hlow' =>
      ih (fun next hnext => hleaves next (by simp [hnext]))
        (fun next hnext => ⟨hlow' next hnext, (hwithin next (by simp [hnext])).2⟩) hsorted
    have hafter := hrest tree.span.2 hbehind
    rw [leafSpansList]
    refine ⟨fun span hspan => ?_, List.pairwise_append.mpr ⟨hfirst.sorted, hafter.sorted, ?_⟩⟩
    · rcases List.mem_append.mp hspan with hspan | hspan
      · exact (hfirst.widen hlow hhigh).within span hspan
      · exact (hrest low fun next hnext => (hwithin next (by simp [hnext])).1).within span hspan
    · intro a ha b hb
      exact Int.le_trans (hfirst.within a ha).2.2 (hafter.within b hb).1

theorem Within.bounds (h : Within low high tree) : low ≤ tree.span.1 ∧ tree.span.2 ≤ high := by
  cases h with
  | node hlow hhigh _ _ => exact ⟨hlow, hhigh⟩

/-- The leaves of a tree lie in its span, one behind the other. -/
theorem Within.ordered (h : Within low high tree) :
    Ordered tree.span.1 tree.span.2 tree.leafSpans := by
  induction h with
  | @node _ _ start stop type children _ _ _ hchildren hsorted ih =>
    rw [leafSpans]
    split
    · exact .nil
    · split
      · split
        · exact ⟨by simp [span]; omega, List.pairwise_singleton _ _⟩
        · exact .nil
      · exact ordered_leafSpansList ih (fun child hchild => (hchildren child hchild).bounds) hsorted

end SyntaxTree

/-! ### Parts of a text -/

/-- Tokens that are parts of a text between two of its offsets, one behind the other, of the
kinds that source text has. -/
structure Parts (t : Text) (start stop : Nat) (tokens : List Token) : Prop where
  cut : ∀ token ∈ tokens, ∃ a b, t = a ++ (token.text ++ b) ∧ token.offset = some (a.length : Int)
    ∧ start ≤ a.length ∧ a.length + token.text.length ≤ stop
  apart : tokens.Pairwise fun a b => ∀ k ∈ a.offset, ∀ n ∈ b.offset, k + (a.text.length : Int) ≤ n
  plain : ∀ token ∈ tokens,
    token.kind ∉ [Kind.wildcard, .inserter, .folder, .stringFragment, .comment]

variable {t : Text} {start stop : Nat} {tokens : List Token}

theorem Parts.nil : Parts t start stop [] := ⟨by simp, .nil, by simp⟩

theorem Parts.widen {start' : Nat} (h : Parts t start stop tokens) (hstart : start' ≤ start) :
    Parts t start' stop tokens := by
  refine ⟨fun token htoken => ?_, h.apart, h.plain⟩
  obtain ⟨a, b, ht, hoffset, hle, hle'⟩ := h.cut token htoken
  exact ⟨a, b, ht, hoffset, by omega, hle'⟩

theorem Parts.append {next final : Nat} {others : List Token} (h : Parts t start stop tokens)
    (hothers : Parts t next final others) (hstart : start ≤ next) (hnext : stop ≤ next)
    (hfinal : stop ≤ final) : Parts t start final (tokens ++ others) := by
  refine ⟨fun token htoken => ?_, List.pairwise_append.mpr ⟨h.apart, hothers.apart, ?_⟩, ?_⟩
  · rcases List.mem_append.mp htoken with htoken | htoken
    · obtain ⟨a, b, ht, hoffset, hle, hle'⟩ := h.cut token htoken
      exact ⟨a, b, ht, hoffset, hle, by omega⟩
    · obtain ⟨a, b, ht, hoffset, hle, hle'⟩ := hothers.cut token htoken
      exact ⟨a, b, ht, hoffset, by omega, hle'⟩
  · intro x hx y hy k hk n hn
    obtain ⟨a, -, -, ha, -, hstop⟩ := h.cut x hx
    obtain ⟨b, -, -, hb, hstart', -⟩ := hothers.cut y hy
    obtain rfl : k = a.length := Option.some.inj (hk.symm.trans ha)
    obtain rfl : n = b.length := Option.some.inj (hn.symm.trans hb)
    omega
  · intro token htoken
    rcases List.mem_append.mp htoken with htoken | htoken
    · exact h.plain token htoken
    · exact hothers.plain token htoken

/-- Levelling moves no token. -/
theorem Parts.level (h : Parts t start stop tokens) (final : Int) :
    Parts t start stop (Token.level tokens final) := by
  rw [Token.level_eq]
  exact ⟨List.forall_mem_map.mpr h.cut, List.pairwise_map.mpr h.apart,
    List.forall_mem_map.mpr h.plain⟩

/-- Source tokens lie one behind the other. -/
theorem Lexeme.apart_tokens (ls : List Lexeme) : ∀ (offset : Nat) (depth : Int),
    (Lexeme.tokens .source offset depth ls).Pairwise fun a b =>
      ∀ k ∈ a.offset, ∀ n ∈ b.offset, k + (a.text.length : Int) ≤ n := by
  induction ls with
  | nil => exact fun _ _ => .nil
  | cons l ls ih =>
    intro offset depth
    refine List.pairwise_append.mpr ⟨?_, ih _ _, ?_⟩
    · cases token? .source offset depth l <;> simp
    · intro x hx y hy k hk n hn
      obtain ⟨kind, text, rfl, rfl⟩ := token?_source (Option.mem_toList.mp hx)
      obtain ⟨m, hm, hle, -⟩ := offset_of_mem_tokens hy
      obtain rfl : k = offset := (Option.some.inj hk).symm
      obtain rfl : n = m := Option.some.inj (hn.symm.trans hm)
      simp only [Lexeme.text] at hle ⊢
      omega

theorem Text.exists_parts (hle : start ≤ stop) (hlength : stop ≤ t.length) :
    ∃ a b c, t = a ++ (b ++ c) ∧ a.length = start ∧ a.length + b.length = stop := by
  refine ⟨t.take start, (t.drop start).take (stop - start), (t.drop start).drop (stop - start), ?_⟩
  refine ⟨by rw [List.take_append_drop, List.take_append_drop], ?_, ?_⟩
  · rw [List.length_take]
    omega
  · simp only [List.length_take, List.length_drop]
    omega

/-- Reading a part of a text makes parts of it. -/
theorem parts_units (a b c : Text) (depth : Int) :
    Parts (a ++ (b ++ c)) a.length (a.length + b.length)
      (Lexeme.tokens .source a.length depth (units .source b)) := by
  refine ⟨fun token htoken => ?_, apart_tokens _ _ _, fun token htoken => kind_of_mem_tokens htoken⟩
  obtain ⟨xs, ys, hunits, hoffset⟩ := exists_of_mem_tokens htoken
  have hb : b = textOf xs ++ (token.text ++ textOf ys) := by
    rw [← textOf_units b, hunits, textOf_append, textOf_cons]
    rfl
  refine ⟨a ++ textOf xs, textOf ys ++ c, ?_, ?_, ?_, ?_⟩
  · rw [hb]
    simp
  · rw [hoffset, List.length_append]
  · rw [List.length_append]
    omega
  · rw [hb]
    simp only [List.length_append]
    omega

namespace SyntaxTree

/-- Spans that lie one behind the other are read without a fault, and make parts of the text. -/
theorem readSpans_ordered {bytes : List (Int × Int)} : ∀ {place : Nat} (depth : Int),
    Ordered place (size t) bytes → ∃ tokens final, readSpans t depth bytes = .ok (tokens, final)
      ∧ Parts t (wholeChars t place) t.length tokens := by
  induction bytes with
  | nil => exact fun depth _ => ⟨[], depth, rfl, .nil⟩
  | cons span bytes ih =>
    intro place depth h
    obtain ⟨x, y⟩ := span
    obtain ⟨hplace, hle, hsize⟩ := h.within (x, y) (by simp)
    obtain ⟨x, rfl⟩ := Int.eq_ofNat_of_zero_le (show 0 ≤ x by omega)
    obtain ⟨y, rfl⟩ := Int.eq_ofNat_of_zero_le (show 0 ≤ y by omega)
    have hx : place ≤ x := by omega
    have hy : y ≤ size t := by omega
    have hxy : x ≤ y := by omega
    -- the characters of the span, and those around them
    obtain ⟨a, b, c, ht, ha, hb⟩ := Text.exists_parts (wholeChars_mono t hxy) (wholeChars_le t y)
    obtain ⟨others, final, hrest, hothers⟩ := ih (depth + balance (units .source b)) h.tail
    refine ⟨Lexeme.tokens .source (wholeChars t x) depth (units .source b) ++ others, final, ?_, ?_⟩
    · have hbetween := between_source a b c depth
      rw [← ht, hb, ha] at hbetween
      rw [readSpans, charIndex?_eq (Nat.le_trans hxy hy), charIndex?_eq hy]
      dsimp only
      rw [hbetween, hrest]
      rfl
    · have hparts := parts_units a b c depth
      rw [← ht, hb, ha] at hparts
      exact (hparts.append hothers (wholeChars_mono t hxy) (Nat.le_refl _) (wholeChars_le t y)).widen
        (wholeChars_mono t hx)

end SyntaxTree

theorem Parts.promised (h : Parts t start t.length tokens)
    (hdepth : ∀ token ∈ tokens, 0 ≤ token.depth) : Promised t tokens := by
  refine ⟨⟨fun token htoken => ?_, h.apart⟩, fun token htoken => ?_, h.plain, hdepth⟩
  · obtain ⟨a, b, -, hoffset, -, hle⟩ := h.cut token htoken
    exact ⟨a.length, hoffset, by omega, by omega⟩
  · obtain ⟨a, b, ht, hoffset, -, -⟩ := h.cut token htoken
    refine ⟨a.length, hoffset, a.length + token.text.length, ?_, ?_⟩
    · rw [Token.stop?, hoffset]
      rfl
    · rw [ht, ← List.append_assoc, Text.between_append]

/-- A tree whose spans nest and follow each other is read without a fault, wherever they cut the
text, and its tokens keep what is promised of them. -/
theorem tokenize_within (parser : Parser) (t : Text) (h : (parser t).Within 0 (size t)) :
    ∃ tokens, ((Tokenizer.leaves parser).tokenize t).1 = .ok tokens ∧ Promised t tokens := by
  obtain ⟨hstart, hstop⟩ := h.bounds
  have hordered : SyntaxTree.Ordered (0 : Nat) (size t) (parser t).leafSpans :=
    h.ordered.widen hstart hstop
  obtain ⟨tokens, final, hread, hparts⟩ := SyntaxTree.readSpans_ordered 0 hordered
  refine ⟨Token.level tokens final, ?_, (hparts.level final).promised Token.level_nonneg⟩
  rw [Tokenizer.tokenize, SyntaxTree.tokens, hread]
  rfl

/-- The tree of `x = "é"; // ö`, with letters of two bytes in a literal and in a comment. -/
def assignmentTree : SyntaxTree :=
  .node "translation_unit".toList 0 15
    [.node "expression_statement".toList 0 9
        [.node "assignment_expression".toList 0 8
            [.node "identifier".toList 0 1 [] false,
              .node "=".toList 2 3 [] false,
              .node "string_literal".toList 4 8
                [.node "\"".toList 4 5 [] false, .node "string_content".toList 5 7 [] false,
                  .node "\"".toList 7 8 [] false] false] false,
          .node ";".toList 8 9 [] false] false,
      .node "comment".toList 10 15 [] false] false

theorem tokenize_within_assignment :
    assignmentTree.leafSpans = [(0, 1), (2, 3), (4, 8), (8, 9)]
      ∧ ∃ tokens, ((Tokenizer.leaves fun _ => assignmentTree).tokenize
          "x = \"é\"; // ö".toList).1 = .ok tokens
        ∧ Promised "x = \"é\"; // ö".toList tokens := by
  refine ⟨by decide, tokenize_within (fun _ => assignmentTree) _ ?_⟩
  have hsize : size "x = \"é\"; // ö".toList = 15 := by decide
  rw [hsize]
  simp [assignmentTree, SyntaxTree.within_iff, SyntaxTree.span]

end Graft
