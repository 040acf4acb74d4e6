/-
Respacing a source text.

Blanks may be put into a source text wherever no token and no comment is cut.  If a
line comment stands in front of them, those up to the next newline become part of it;
if a block comment is left open there, all of them do.  Either way the tokens stay what
they are, those behind the blanks move with the text, and a search finds the same:

* `units_respace` — the units of the respaced text;
* `builtinTokens_respace` — its tokens;
* `find_respace` — what a search finds in them.
-/
import Graft.Proofs.Lexing.Depth
import Graft.Proofs.Search.Relocation

namespace Graft

namespace Lexeme

section Gap

variable {gap : List Lexeme} (hgap : ∀ l ∈ gap, l.isQuiet = true)

include hgap

theorem tokens_gap (offset : Nat) (depth : Int) (xs ys : List Lexeme) :
    tokens .source offset depth (xs ++ (gap ++ ys))
      = tokens .source offset depth xs
        ++ tokens .source (offset + ((textOf xs).length + (textOf gap).length))
          (depth + balance xs) ys := by
  rw [tokens_append, tokens_append, tokens_quiet hgap, List.nil_append,
    balance_flat fun l hl => isFlat_of_isQuiet (hgap l hl), Int.add_zero, Nat.add_assoc]

theorem lowest_gap (depth : Int) (xs ys : List Lexeme) :
    lowest depth (xs ++ (gap ++ ys)) = min (lowest depth xs) (lowest (depth + balance xs) ys) := by
  have hflat : ∀ l ∈ gap, l.isFlat = true := fun l hl => isFlat_of_isQuiet (hgap l hl)
  have hle := lowest_le (depth + balance xs) ys
  rw [lowest_append, lowest_append, lowest_flat hflat, balance_flat hflat, Int.add_zero]
  omega

end Gap

theorem isQuiet_blanks (w : Text) : ∀ l ∈ w.map (fun c => blank [c]), l.isQuiet = true := by
  intro l hl
  obtain ⟨c, -, rfl⟩ := List.mem_map.mp hl
  rfl

theorem textOf_blanks (w : Text) : textOf (w.map fun c => blank [c]) = w :=
  textOf_loosen (blank w)

/-! ### Comments that grow -/

/-- Blanks do not close a comment. -/
theorem closeComment?_append_blanks {cs w : Text} (h : closeComment? cs = none)
    (hw : ∀ c ∈ w, Text.isBlank c = true) : closeComment? (cs ++ w) = none := by
  have hblanks : ∀ {v : Text}, (∀ c ∈ v, Text.isBlank c = true) → closeComment? v = none := by
    intro v hv
    induction v with
    | nil => rfl
    | cons c v ih =>
      rw [closeComment?_cons fun hstar => (ne_of_isBlank (hv c (by simp))).2.1 hstar.1,
        ih fun d hd => hv d (by simp [hd])]
      rfl
  fun_induction closeComment? cs with
  | case1 => exact hblanks hw
  | case2 cs => simp at h
  | case3 c cs hne ih =>
    have hstar : ¬ (c = '*' ∧ (cs ++ w).head? = some '/') := by
      rintro ⟨hc, hhead⟩
      cases cs with
      | nil =>
        have hmem : '/' ∈ w := List.mem_of_head? hhead
        exact (ne_of_isBlank (hw _ hmem)).1 rfl
      | cons d cs =>
        obtain rfl : d = '/' := by simpa using hhead
        exact hne cs hc rfl
    rw [List.cons_append, closeComment?_cons hstar, ih (Option.map_eq_none_iff.mp h)]
    rfl

/-- A comment that blanks cannot follow takes in as many of them as it can. -/
theorem Spells.absorb {kind : Kind} {x b w : Text} (h : Spells kind x b)
    (hgrows : (token kind x).isOpenComment = true ∨ (token kind x).isLineComment = true)
    (hw : ∀ c ∈ w, Text.isBlank c = true) :
    kind = .comment ∧ ∃ w₁ w₂, w = w₁ ++ w₂ ∧ Spells .comment (x ++ w₁) (w₂ ++ b) := by
  cases h with
  | @lineComment cs rest hcs hrest =>
    refine ⟨rfl, w.takeWhile (· != '\n'), w.dropWhile (· != '\n'),
      List.takeWhile_append_dropWhile.symm, .lineComment ?_ ?_⟩
    · intro hn
      rcases List.mem_append.mp hn with hn | hn
      · exact hcs hn
      · exact absurd (forall_mem_takeWhile _ hn) (by simp)
    · intro y hy
      rw [List.head?_append] at hy
      cases hdrop : (w.dropWhile (· != '\n')).head? with
      | none => exact hrest y (by rw [hdrop] at hy; exact hy)
      | some c =>
        rw [hdrop] at hy
        exact stopsAt_dropWhile y (hdrop.trans hy)
  | @openComment cs hcs =>
    refine ⟨rfl, w, [], by simp, .openComment (closeComment?_append_blanks hcs hw)⟩
  | blockComment hcs => simp [isOpenComment, isLineComment, hcs] at hgrows
  | directive | literal | openLiteral | operator | identifier | number =>
    simp [isOpenComment, isLineComment] at hgrows
  | @single c _ _ _ _ _ _ _ _ =>
    cases hb : isBracket c <;> simp [isOpenComment, isLineComment, hb] at hgrows

/-- The last token of a text may be another one that starts as it does. -/
theorem units_replace_last {a y rest : Text} {xs : List Lexeme} {kind kind' : Kind} {x : Text}
    (ha : units .source a = xs ++ [token kind x]) (hy : Spells kind' y rest)
    (hhead : y.head? = x.head?) :
    units .source (textOf xs ++ (y ++ rest)) = xs ++ token kind' y :: units .source rest := by
  obtain ⟨hxs, -⟩ := units_cut ha
  rw [units_append, hxs, units_spells hy]
  intro k z hlast
  rw [hxs] at hlast
  obtain ⟨zs, rfl⟩ := List.getLast?_eq_some_iff.mp hlast
  have hz : Spells k z (textOf [token kind x]) :=
    spells_of_units (by rw [ha, List.append_assoc, List.singleton_append])
  refine hz.congr_head ?_
  obtain ⟨c, cs, rfl⟩ := List.exists_cons_of_ne_nil hy.ne_nil
  rw [textOf_cons, textOf_nil, List.append_nil, text, ← hhead]
  rfl

/-! ### The respaced text -/

/-- Blanks that are put into a text stand between its units, or are taken in by the
comment in front of them. -/
theorem units_respace {a b w : Text}
    (hcut : units .source (a ++ b) = units .source a ++ units .source b)
    (hliterals : ClosesLiterals (a ++ b)) (hw : ∀ c ∈ w, Text.isBlank c = true) :
    ∃ xs gap gap', units .source a = xs ++ gap
      ∧ units .source (a ++ (w ++ b)) = xs ++ (gap' ++ units .source b)
      ∧ textOf gap' = textOf gap ++ w
      ∧ (∀ l ∈ gap, l.isQuiet = true) ∧ ∀ l ∈ gap', l.isQuiet = true := by
  by_cases hgrows : ∃ xs kind x, units .source a = xs ++ [token kind x]
      ∧ ((token kind x).isOpenComment = true ∨ (token kind x).isLineComment = true)
  · -- the comment in front of the blanks grows
    obtain ⟨xs, kind, x, ha, hgrows⟩ := hgrows
    have hx : Spells kind x b := by
      have h : units .source (a ++ b) = xs ++ token kind x :: units .source b := by
        rw [hcut, ha, List.append_assoc, List.singleton_append]
      have hx := spells_of_units h
      rwa [textOf_units] at hx
    obtain ⟨rfl, w₁, w₂, rfl, hgrown⟩ := hx.absorb hgrows hw
    have htext : a = textOf xs ++ x := by rw [← textOf_units a, ha]; simp [text]
    refine ⟨xs, [token .comment x], token .comment (x ++ w₁) :: w₂.map (fun c => blank [c]), ha,
      ?_, ?_, ?_, ?_⟩
    · have hlast := units_replace_last ha hgrown (by
        obtain ⟨c, cs, rfl⟩ := List.exists_cons_of_ne_nil hx.ne_nil
        rfl)
      have hblanks := units_blanks .source (fun c hc => hw c (List.mem_append_right w₁ hc)) b
      rw [hblanks] at hlast
      rw [htext]
      simpa using hlast
    · rw [textOf_cons, textOf_blanks, textOf_cons, textOf_nil]
      simp [text]
    · simp [isQuiet]
    · intro l hl
      rcases List.mem_cons.mp hl with rfl | hl
      · rfl
      · exact isQuiet_blanks w₂ l hl
  · -- no comment takes them in, and they stand between the two parts
    refine ⟨units .source a, [], w.map (fun c => blank [c]), by simp, ?_, by simp [textOf_blanks],
      by simp, isQuiet_blanks w⟩
    rw [← units_blanks _ hw]
    cases w with
    | nil => exact hcut
    | cons c w =>
      refine units_append fun kind x hlast => ?_
      obtain ⟨xs, ha⟩ := List.getLast?_eq_some_iff.mp hlast
      have hmem : token kind x ∈ units .source (a ++ b) := by
        rw [hcut, ha]
        simp
      refine (spells_of_getLast hlast).before_blank (hw c (by simp))
        (closesLiterals_iff.mp hliterals _ hmem) ?_ ?_
      · exact Bool.eq_false_iff.mpr fun hopen => hgrows ⟨xs, kind, x, ha, .inl hopen⟩
      · exact fun hline => absurd ⟨xs, kind, x, ha, .inr hline⟩ hgrows

end Lexeme

open Lexeme

/-- Where an offset moves when `n` characters are put into the text at `p`. -/
def displace (p n : Nat) (offset : Int) : Int := if offset < p then offset else offset + n

theorem displace_of_lt {p n k : Nat} (h : k < p) : displace p n k = k :=
  if_pos (Int.ofNat_lt.mpr h)

theorem displace_of_le {p n k : Nat} (h : p ≤ k) : displace p n k = k + n :=
  if_neg (Int.not_lt.mpr (Int.ofNat_le.mpr h))

/-- A token in front of the place, or behind it, moves as a whole. -/
theorem movesWhole_displace {p n k : Nat} {token : Token} (hk : token.offset = some (k : Int))
    (h : k + token.text.length ≤ p ∨ p ≤ k) : Search.MovesWhole (displace p n) token := by
  refine ⟨k, hk, fun j hj => ?_⟩
  rw [← Int.natCast_add]
  rcases h with h | h
  · rw [displace_of_lt (show k + j < p by omega), displace_of_lt (show k < p by omega),
      Int.natCast_add]
  · rw [displace_of_le (show p ≤ k + j by omega), displace_of_le h]
    omega

/-- The tokens of the respaced text are those of the text, moved with it. -/
theorem builtinTokens_respace {a b w : Text}
    (hcut : units .source (a ++ b) = units .source a ++ units .source b)
    (hliterals : ClosesLiterals (a ++ b)) (hw : ∀ c ∈ w, Text.isBlank c = true) :
    builtinTokens (a ++ (w ++ b))
      = (builtinTokens (a ++ b)).map (Token.relocate (displace a.length w.length))
    ∧ ∀ token ∈ builtinTokens (a ++ b), Search.MovesWhole (displace a.length w.length) token := by
  obtain ⟨xs, gap, gap', ha, hunits, htext, hgap, hgap'⟩ := units_respace hcut hliterals hw
  have hlength : (textOf xs).length + (textOf gap).length = a.length := by
    rw [← List.length_append, ← textOf_append, ← ha, textOf_units]
  have hlength' : (textOf xs).length + (textOf gap').length = a.length + w.length := by
    rw [htext, List.length_append]
    omega
  rw [ha, List.append_assoc] at hcut
  rw [builtinTokens_eq, builtinTokens_eq, hunits, hcut, lowest_gap hgap, lowest_gap hgap',
    tokens_gap hgap, tokens_gap hgap', hlength, hlength', Nat.zero_add, Nat.zero_add,
    tokens_add_offset]
  generalize -min _ _ = depth
  -- tokens in front of the blanks stay, tokens behind them move
  have hfront : ∀ t ∈ tokens .source 0 depth xs,
      ∃ k : Nat, t.offset = some (k : Int) ∧ k + t.text.length ≤ a.length ∧ t.text ≠ [] := by
    intro t ht
    obtain ⟨k, hk, -, hle⟩ := offset_of_mem_tokens ht
    have hmem : token t.kind t.text ∈ units .source a := by
      rw [ha]
      exact List.mem_append_left _ (mem_of_mem_tokens ht)
    obtain ⟨ys, zs, hsplit⟩ := List.append_of_mem hmem
    exact ⟨k, hk, by omega, (spells_of_units hsplit).ne_nil⟩
  have hback : ∀ t ∈ tokens .source a.length (depth + balance xs) (units .source b),
      ∃ k : Nat, t.offset = some (k : Int) ∧ a.length ≤ k := by
    intro t ht
    obtain ⟨k, hk, hle, -⟩ := offset_of_mem_tokens ht
    exact ⟨k, hk, hle⟩
  constructor
  · rw [List.map_append]
    congr 1
    · refine (List.map_id _).symm.trans (List.map_congr_left fun t ht => ?_)
      obtain ⟨k, hk, hle, hne⟩ := hfront t ht
      have hlt : k < a.length := by
        have hpos := List.length_pos_iff.mpr hne
        omega
      rw [Token.relocate, hk, Option.map_some, displace_of_lt hlt, ← hk]
      rfl
    · refine List.map_congr_left fun t ht => ?_
      obtain ⟨k, hk, hle⟩ := hback t ht
      rw [Token.relocate, hk, Option.map_some, Option.map_some, displace_of_le hle]
  · intro t ht
    rcases List.mem_append.mp ht with ht | ht
    · obtain ⟨k, hk, hle, -⟩ := hfront t ht
      exact movesWhole_displace hk (.inl hle)
    · obtain ⟨k, hk, hle⟩ := hback t ht
      exact movesWhole_displace hk (.inr hle)

/-- A search finds in the respaced text what it finds in the text, moved with it, or
fails as it does there, and its effort is the same. -/
theorem find_respace (settings : Settings) {pattern : Pattern} (hall : pattern.isReplaceAll = false)
    (effort : Search.Effort) {source : Text} {p : Nat} {w : Text} (hp : p ≤ source.length)
    (hinside : ¬ Inside source p) (hliterals : ClosesLiterals source)
    (hw : ∀ c ∈ w, Text.isBlank c = true) :
    let respaced := source.take p ++ w ++ source.drop p
    let found := Search.find settings (builtinTokens source) source.length pattern effort
    Search.find settings (builtinTokens respaced) respaced.length pattern effort
      = (found.1.map (·.relocate (displace p w.length)), found.2) := by
  intro respaced found
  obtain ⟨a, b, rfl, rfl⟩ : ∃ a b, source = a ++ b ∧ p = a.length :=
    ⟨source.take p, source.drop p, by simp, by simp [hp]⟩
  have hrespaced : respaced = a ++ (w ++ b) := by simp [respaced]
  obtain ⟨htokens, hwhole⟩ := builtinTokens_respace (units_of_not_inside hinside) hliterals hw
  have hlength : displace a.length w.length (a ++ b).length = respaced.length := by
    rw [displace_of_le (by simp), hrespaced]
    simp only [List.length_append]
    omega
  rw [hrespaced, htokens, ← hrespaced]
  exact Search.find_relocate hlength settings hwhole hall effort

/-- A tab and a newline behind a comment: the tab becomes part of it. -/
theorem find_respace_behind_comment :
    ¬ Inside "f( // a\n1)".toList 7 ∧ ClosesLiterals "f( // a\n1)".toList
      ∧ (Search.find {} (builtinTokens "f( // a\t\n\n1)".toList) 12
          (.ofText "... ( >>> 1".toList) {}).1.toOption = some ⟨10, none⟩ := by
  have hinside : ¬ Inside "f( // a\n1)".toList 7 := by decide +kernel
  have hliterals : ClosesLiterals "f( // a\n1)".toList := by decide +kernel
  have hall : (Pattern.ofText "... ( >>> 1".toList).isReplaceAll = false := by decide +kernel
  have hblank : ∀ c ∈ "\t\n".toList, Text.isBlank c = true :=
    Text.isAllBlank_iff.mp (by decide)
  have hrespaced : "f( // a\t\n\n1)".toList = "f( // a\n1)".toList.take 7 ++ "\t\n".toList
      ++ "f( // a\n1)".toList.drop 7 := by decide
  have hfound : ((Search.find {} (builtinTokens "f( // a\n1)".toList) 10
      (.ofText "... ( >>> 1".toList) {}).1.map (·.relocate (displace 7 2))).toOption
        = some ⟨10, none⟩ := by decide +kernel
  have h := find_respace {} hall {} (by decide) hinside hliterals hblank
  refine ⟨hinside, hliterals, ?_⟩
  rw [hrespaced]
  exact (congrArg (·.1.toOption) h).trans hfound

end Graft
