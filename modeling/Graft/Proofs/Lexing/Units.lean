/-
Units of a text.

A run of blanks is one lexeme, so that lexemes are not cut where a text is cut inside
such a run.  Units are lexemes with blanks taken one at a time.  They carry the same
tokens at the same offsets, and reading a text off in units has no memory:

* `units_blank`, `units_advance` — the units of a text from its first character on;
* `tokens_units`, `balance_units` — units make the tokens and depths that lexemes make;
* `textOf_append`, `tokens_append` — both are read off from left to right.
-/
import Graft.Token.Reading
import Graft.Proofs.Lexing.Classes

namespace Graft.Lexeme

/-- The characters of lexemes, one after the other. -/
def textOf (ls : List Lexeme) : Text := ls.flatMap text

/-- A run of blanks is taken apart. -/
def loosen : Lexeme → List Lexeme
  | blank run => run.map fun c => blank [c]
  | token kind text => [token kind text]

/-- The lexemes of a text with blanks taken one at a time. -/
def units (mode : Mode) (t : Text) : List Lexeme := (lexemes mode t).flatMap loosen

/-- The lexemes at the first character of a text, and what stands behind them. -/
def advance (mode : Mode) (c : Char) (cs : Text) : List Lexeme × Text :=
  match step mode [] 0 c cs with
  | .next ls rest => (ls, rest)
  | .last ls => (ls, [])
  | .past ls => (ls, [])

/-! ### Reading off from left to right -/

@[simp] theorem textOf_nil : textOf [] = [] := rfl

@[simp] theorem textOf_cons (l : Lexeme) (ls : List Lexeme) :
    textOf (l :: ls) = l.text ++ textOf ls := rfl

@[simp] theorem textOf_append (xs ys : List Lexeme) :
    textOf (xs ++ ys) = textOf xs ++ textOf ys := by simp [textOf]

@[simp] theorem balance_nil : balance [] = 0 := rfl

@[simp] theorem balance_cons (l : Lexeme) (ls : List Lexeme) :
    balance (l :: ls) = l.lift + balance ls := rfl

@[simp] theorem balance_append (xs ys : List Lexeme) :
    balance (xs ++ ys) = balance xs + balance ys := by
  induction xs with
  | nil => simp
  | cons x xs ih => rw [List.cons_append, balance_cons, balance_cons, ih, Int.add_assoc]

theorem tokens_pattern_cons (offset : Nat) (depth : Int) (kind : Kind) (x : Text)
    (ls : List Lexeme) : tokens .pattern offset depth (token kind x :: ls)
      = ⟨kind, x, depth, none⟩
        :: tokens .pattern (offset + x.length) (depth + (token kind x).lift) ls := rfl

theorem tokens_source_cons {kind : Kind} (hkind : kind ≠ .comment) (offset : Nat) (depth : Int)
    (x : Text) (ls : List Lexeme) : tokens .source offset depth (token kind x :: ls)
      = ⟨kind, x, depth, some offset⟩
        :: tokens .source (offset + x.length) (depth + (token kind x).lift) ls := by
  rw [tokens, token?, if_neg hkind]
  rfl

theorem tokens_source_comment (offset : Nat) (depth : Int) (x : Text) (ls : List Lexeme) :
    tokens .source offset depth (token .comment x :: ls)
      = tokens .source (offset + x.length) (depth + (token .comment x).lift) ls := rfl

theorem tokens_append (mode : Mode) (xs ys : List Lexeme) : ∀ (offset : Nat) (depth : Int),
    tokens mode offset depth (xs ++ ys)
      = tokens mode offset depth xs
        ++ tokens mode (offset + (textOf xs).length) (depth + balance xs) ys := by
  induction xs with
  | nil =>
    intro offset depth
    simp [tokens]
  | cons l xs ih =>
    intro offset depth
    rw [List.cons_append, tokens, tokens, ih, List.append_assoc, textOf_cons, balance_cons,
      List.length_append, Nat.add_assoc, Int.add_assoc]

/-- In a pattern tokens have no offsets. -/
theorem tokens_pattern_offset (ls : List Lexeme) : ∀ (offset offset' : Nat) (depth : Int),
    tokens .pattern offset depth ls = tokens .pattern offset' depth ls := by
  induction ls with
  | nil => exact fun _ _ _ => rfl
  | cons l ls ih =>
    intro offset offset' depth
    rw [tokens, tokens, ih _ (offset' + l.text.length)]
    cases l <;> rfl

theorem tokens_pattern_append (xs ys : List Lexeme) (depth : Int) :
    tokens .pattern 0 depth (xs ++ ys)
      = tokens .pattern 0 depth xs ++ tokens .pattern 0 (depth + balance xs) ys := by
  rw [tokens_append, tokens_pattern_offset ys _ 0]

/-- Lexemes that stand further on and deeper make tokens that do so. -/
theorem tokens_add (mode : Mode) (n : Nat) (e : Int) (ls : List Lexeme) :
    ∀ (offset : Nat) (depth : Int), tokens mode (offset + n) (depth + e) ls
      = (tokens mode offset depth ls).map fun t =>
        { t with depth := t.depth + e, offset := t.offset.map (· + n) } := by
  have htoken : ∀ (offset : Nat) (depth : Int) (l : Lexeme),
      token? mode ((offset + n : Nat) : Int) (depth + e) l
        = (token? mode offset depth l).map fun t =>
          { t with depth := t.depth + e, offset := t.offset.map (· + n) } := by
    intro offset depth l
    cases l with
    | blank run => rfl
    | token kind x =>
      cases mode with
      | pattern => rfl
      | source =>
        simp only [token?, Int.natCast_add]
        split <;> rfl
  induction ls with
  | nil =>
    intro offset depth
    rfl
  | cons l ls ih =>
    intro offset depth
    rw [tokens, tokens, List.map_append, ← ih, htoken, Nat.add_right_comm, Int.add_right_comm]
    cases token? mode offset depth l <;> rfl

theorem tokens_add_offset (mode : Mode) (n : Nat) (ls : List Lexeme) (offset : Nat) (depth : Int) :
    tokens mode (offset + n) depth ls
      = (tokens mode offset depth ls).map fun t => { t with offset := t.offset.map (· + n) } := by
  have h := tokens_add mode n 0 ls offset depth
  simpa only [Int.add_zero] using h

theorem tokens_add_depth (mode : Mode) (e : Int) (ls : List Lexeme) (offset : Nat) (depth : Int) :
    tokens mode offset (depth + e) ls
      = (tokens mode offset depth ls).map fun t => { t with depth := t.depth + e } := by
  have h := tokens_add mode 0 e ls offset depth
  simpa using h

/-- A source token has the kind and text of its lexeme, at the place where it
stands. -/
theorem token?_source {offset depth : Int} {l : Lexeme} {t : Token}
    (h : token? .source offset depth l = some t) :
    ∃ kind x, l = token kind x ∧ t = ⟨kind, x, depth, some offset⟩ := by
  cases l with
  | blank run => simp [token?] at h
  | token kind x =>
    simp only [token?] at h
    split at h
    · simp at h
    · exact ⟨kind, x, rfl, (Option.some.inj h).symm⟩

theorem mem_of_mem_tokens {mode : Mode} {ls : List Lexeme} {t : Token} :
    ∀ {offset : Nat} {depth : Int}, t ∈ tokens mode offset depth ls →
      token t.kind t.text ∈ ls := by
  induction ls with
  | nil =>
    intro offset depth h
    simp [tokens] at h
  | cons l ls ih =>
    intro offset depth h
    rcases List.mem_append.mp h with h | h
    · refine List.mem_cons.mpr (.inl ?_)
      cases l with
      | blank run => simp [token?] at h
      | token kind x =>
        cases mode with
        | pattern =>
          obtain rfl : t = _ := by simpa [token?] using h
          rfl
        | source =>
          obtain ⟨_, _, hl, rfl⟩ := token?_source (Option.mem_toList.mp h)
          exact hl.symm
    · exact List.mem_cons_of_mem _ (ih h)

/-- A source token lies within the lexemes that it is read from. -/
theorem offset_of_mem_tokens {ls : List Lexeme} {t : Token} :
    ∀ {offset : Nat} {depth : Int}, t ∈ tokens .source offset depth ls →
      ∃ k : Nat, t.offset = some (k : Int) ∧ offset ≤ k
        ∧ k + t.text.length ≤ offset + (textOf ls).length := by
  induction ls with
  | nil =>
    intro offset depth h
    simp [tokens] at h
  | cons l ls ih =>
    intro offset depth h
    rw [textOf_cons, List.length_append]
    rcases List.mem_append.mp h with h | h
    · obtain ⟨kind, x, rfl, rfl⟩ := token?_source (Option.mem_toList.mp h)
      exact ⟨offset, rfl, Nat.le_refl _, by simp only [text]; omega⟩
    · obtain ⟨k, hk, hle, hlt⟩ := ih h
      exact ⟨k, hk, by omega, by omega⟩

/-- A source token is one of the lexemes, and its offset is where that lexeme stands. -/
theorem exists_of_mem_tokens {ls : List Lexeme} {t : Token} :
    ∀ {offset : Nat} {depth : Int}, t ∈ tokens .source offset depth ls →
      ∃ xs ys, ls = xs ++ token t.kind t.text :: ys
        ∧ t.offset = some ((offset + (textOf xs).length : Nat) : Int) := by
  induction ls with
  | nil =>
    intro offset depth h
    simp [tokens] at h
  | cons l ls ih =>
    intro offset depth h
    rcases List.mem_append.mp h with h | h
    · obtain ⟨kind, x, rfl, rfl⟩ := token?_source (Option.mem_toList.mp h)
      exact ⟨[], ls, rfl, rfl⟩
    · obtain ⟨xs, ys, rfl, hoffset⟩ := ih h
      refine ⟨l :: xs, ys, rfl, ?_⟩
      rw [hoffset, textOf_cons, List.length_append, Nat.add_assoc]

/-! ### Blanks one at a time -/

@[simp] theorem textOf_loosen (l : Lexeme) : textOf l.loosen = l.text := by
  cases l with
  | blank run =>
    induction run with
    | nil => rfl
    | cons c run ih => simpa [loosen, text, textOf] using ih
  | token kind x => simp [loosen]

theorem textOf_flatMap_loosen (ls : List Lexeme) : textOf (ls.flatMap loosen) = textOf ls := by
  induction ls with
  | nil => rfl
  | cons l ls ih => rw [List.flatMap_cons, textOf_append, textOf_loosen, ih, textOf_cons]

theorem balance_blanks (run : Text) : balance (run.map fun c => blank [c]) = 0 := by
  induction run with
  | nil => rfl
  | cons c run ih => rw [List.map_cons, balance_cons, ih]; rfl

theorem tokens_blanks (mode : Mode) (run : Text) : ∀ (offset : Nat) (depth : Int),
    tokens mode offset depth (run.map fun c => blank [c]) = [] := by
  induction run with
  | nil => intro offset depth; rfl
  | cons c run ih => intro offset depth; rw [List.map_cons, tokens, ih]; rfl

theorem balance_loosen (l : Lexeme) : balance l.loosen = l.lift := by
  cases l with
  | blank run => exact balance_blanks run
  | token kind x => simp [loosen]

theorem tokens_loosen (mode : Mode) (offset : Nat) (depth : Int) (l : Lexeme) :
    tokens mode offset depth l.loosen = (token? mode offset depth l).toList := by
  cases l with
  | blank run => exact tokens_blanks mode run offset depth
  | token kind x => simp [loosen, tokens]

theorem tokens_flatMap_loosen (mode : Mode) (ls : List Lexeme) : ∀ (offset : Nat) (depth : Int),
    tokens mode offset depth (ls.flatMap loosen) = tokens mode offset depth ls := by
  induction ls with
  | nil => exact fun _ _ => rfl
  | cons l ls ih =>
    intro offset depth
    rw [List.flatMap_cons, tokens_append, tokens_loosen, textOf_loosen, balance_loosen, ih, tokens]

theorem balance_flatMap_loosen (ls : List Lexeme) : balance (ls.flatMap loosen) = balance ls := by
  induction ls with
  | nil => rfl
  | cons l ls ih => rw [List.flatMap_cons, balance_append, balance_loosen, ih, balance_cons]

theorem tokens_units (mode : Mode) (t : Text) (offset : Nat) (depth : Int) :
    tokens mode offset depth (units mode t) = tokens mode offset depth (lexemes mode t) :=
  tokens_flatMap_loosen mode (lexemes mode t) offset depth

theorem balance_units (mode : Mode) (t : Text) :
    balance (units mode t) = balance (lexemes mode t) :=
  balance_flatMap_loosen (lexemes mode t)

/-! ### From the first character on -/

theorem lexemes_nil (mode : Mode) : lexemes mode [] = [] := by
  rw [lexemes, scan, scanFrom.eq_def]
  rfl

theorem lexemes_cons (mode : Mode) (c : Char) (cs : Text) :
    lexemes mode (c :: cs) = (advance mode c cs).1 ++ lexemes mode (advance mode c cs).2 := by
  unfold advance
  generalize hstep : step mode [] 0 c cs = s
  -- the equation of `scanFrom` for a cell is slow to derive, `eq_def` is not
  rw [lexemes, scan, Window.whole, scanFrom.eq_def]
  dsimp only
  split
  · rename_i ls rest h
    obtain rfl := hstep.symm.trans h
    rfl
  · rename_i ls h
    obtain rfl := hstep.symm.trans h
    rw [lexemes_nil, List.append_nil]
  · rename_i ls h
    obtain rfl := hstep.symm.trans h
    rw [lexemes_nil, List.append_nil]

theorem advance_of_next {mode : Mode} {c : Char} {cs rest : Text} {ls : List Lexeme}
    (h : step mode [] 0 c cs = .next ls rest) : advance mode c cs = (ls, rest) := by
  unfold advance
  rw [h]

theorem advance_of_last {mode : Mode} {c : Char} {cs : Text} {ls : List Lexeme}
    (h : step mode [] 0 c cs = .last ls) : advance mode c cs = (ls, []) := by
  unfold advance
  rw [h]

theorem advance_blank {mode : Mode} {c : Char} (hc : Text.isBlank c = true) (cs : Text) :
    advance mode c cs
      = ([.blank (c :: cs.takeWhile Text.isBlank)], cs.dropWhile Text.isBlank) := by
  unfold advance step runStep
  rw [if_pos hc]
  simp

@[simp] theorem units_nil (mode : Mode) : units mode [] = [] := by
  rw [units, lexemes_nil]
  rfl

/-- The rest of a run of blanks makes the units that it makes as a part of the run. -/
theorem units_run (mode : Mode) (cs : Text) :
    units mode cs = (cs.takeWhile Text.isBlank).map (fun c => blank [c])
      ++ units mode (cs.dropWhile Text.isBlank) := by
  cases cs with
  | nil => simp
  | cons c cs =>
    by_cases hc : Text.isBlank c = true
    · rw [List.takeWhile_cons_of_pos hc, List.dropWhile_cons_of_pos hc, units, lexemes_cons,
        advance_blank hc]
      rfl
    · rw [List.takeWhile_cons_of_neg hc, List.dropWhile_cons_of_neg hc]
      rfl

theorem units_blank (mode : Mode) {c : Char} (hc : Text.isBlank c = true) (cs : Text) :
    units mode (c :: cs) = blank [c] :: units mode cs := by
  rw [units_run mode (c :: cs), List.takeWhile_cons_of_pos hc, List.dropWhile_cons_of_pos hc,
    units_run mode cs]
  rfl

theorem units_blanks (mode : Mode) {w : Text} (hw : ∀ c ∈ w, Text.isBlank c = true) (t : Text) :
    units mode (w ++ t) = w.map (fun c => blank [c]) ++ units mode t := by
  induction w with
  | nil => rfl
  | cons c w ih =>
    rw [List.cons_append, units_blank mode (hw c (by simp)), ih fun d hd => hw d (by simp [hd])]
    rfl

theorem units_advance {mode : Mode} {c : Char} {cs rest x : Text} {kind : Kind}
    (h : advance mode c cs = ([token kind x], rest)) :
    units mode (c :: cs) = token kind x :: units mode rest := by
  rw [units, lexemes_cons, h]
  rfl

end Graft.Lexeme
