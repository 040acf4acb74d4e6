/-
Searches at other depths.

A search compares depths in four places: where a literal is taken, where the first piece of
one is, where a wildcard lands, and where it looks for the end of its scope.  In each of them
only the difference of a source depth and a pattern depth counts.  So if all source tokens move
by one amount and all pattern tokens by another, each shift that is known moves by the
difference of the two, and the search goes the same way with the same effort:

* `Token.deepen`, `Cursor.deepen` — tokens at other depths, and a cursor among them;
* `agree?_deepen`, `depthFits_deepen`, `endsScope_deepen` — depths compared;
* `takeLiteral?_deepen`, `takeFragment?_deepen`, `landings_deepen` — one move of the cursor;
* `search_deepen`, `find_deepen` — a whole search.
-/
import Graft.Search.Basic

namespace Graft

/-- The token that much deeper. -/
def Token.deepen (amount : Int) (token : Token) : Token :=
  { token with depth := token.depth + amount }

/-- The pattern with all its tokens that much deeper. -/
def Pattern.deepen (amount : Int) (pattern : Pattern) : Pattern :=
  ⟨pattern.tokens.map (Token.deepen amount)⟩

/-- A fault that names a token of the pattern names it that much deeper. -/
def Fault.deepen (amount : Int) : Fault → Fault
  | .tokenAbsent token => .tokenAbsent (token.deepen amount)
  | fault => fault

namespace Search

/-- The cursor in front of source tokens that lie `a` deeper, in a search for pattern tokens
that lie `b` deeper. -/
def Cursor.deepen (a b : Int) (cursor : Cursor) : Cursor :=
  { cursor with
    rest := cursor.rest.map (Token.deepen a)
    shift := cursor.shift.map (· + (a - b)) }

section

variable (a b : Int)

/-! ### Depths compared -/

/-- A source token is deeper than a pattern token by a shift if and only if it is so with all
three moved. -/
theorem depth_deepen_iff (candidate token : Token) (s : Int) :
    (candidate.deepen a).depth = (token.deepen b).depth + (s + (a - b))
      ↔ candidate.depth = token.depth + s := by
  show candidate.depth + a = token.depth + b + (s + (a - b)) ↔ _
  omega

theorem agree?_deepen (shift : Option Int) (candidate token : Token) :
    agree? (shift.map (· + (a - b))) (candidate.deepen a) (token.deepen b)
      = (agree? shift candidate token).map (· + (a - b)) := by
  cases shift with
  | none =>
    show some (candidate.depth + a - (token.depth + b))
      = some (candidate.depth - token.depth + (a - b))
    congr 1
    omega
  | some s =>
    simp only [agree?, Option.map_some, depth_deepen_iff]
    split <;> rfl

theorem depthFits_deepen (shift : Option Int) (target candidate : Token) :
    depthFits (shift.map (· + (a - b))) (target.deepen b) (candidate.deepen a)
      = depthFits shift target candidate := by
  cases shift with
  | none => rfl
  | some s =>
    rw [Bool.eq_iff_iff]
    simp only [depthFits, Option.map_some, Option.all_some, beq_iff_eq, depth_deepen_iff]

theorem endsScope_deepen (shift : Option Int) (wildcard candidate : Token) :
    endsScope (shift.map (· + (a - b))) (wildcard.deepen b) (candidate.deepen a)
      = endsScope shift wildcard candidate := by
  cases shift with
  | none => rfl
  | some s =>
    have hdepth : (wildcard.deepen b).depth + (s + (a - b)) = wildcard.depth + s + a := by
      show wildcard.depth + b + (s + (a - b)) = _
      omega
    rw [Bool.eq_iff_iff]
    simp only [endsScope, Option.map_some, Option.any_some, closesScope, hdepth]
    simp [Token.deepen]

/-! ### One move of the cursor -/

variable {a b} {cursor : Cursor} {length : Int}

theorem offset_deepen : (cursor.deepen a b).offset length = cursor.offset length := by
  obtain ⟨rest, taken, marks, shift⟩ := cursor
  cases rest <;> rfl

theorem markInsertion_deepen :
    (cursor.deepen a b).markInsertion length = (cursor.markInsertion length).deepen a b := by
  rw [Cursor.markInsertion, offset_deepen]
  rfl

theorem markDeletion_deepen :
    (cursor.deepen a b).markDeletion length = (cursor.markDeletion length).deepen a b := by
  rw [Cursor.markDeletion, offset_deepen]
  rfl

theorem takeLiteral?_deepen (token : Token) :
    (cursor.deepen a b).takeLiteral? (token.deepen b)
      = (cursor.takeLiteral? token).map (·.deepen a b) := by
  obtain ⟨rest, taken, marks, shift⟩ := cursor
  cases rest with
  | nil => rfl
  | cons candidate rest =>
    have htext : ∀ amount, ∀ t : Token, (t.deepen amount).text = t.text := fun _ _ => rfl
    simp only [Cursor.deepen, Cursor.takeLiteral?, List.map_cons, agree?_deepen, htext]
    split
    · rfl
    · rw [Option.map_map, Option.map_map]
      rfl

theorem takeFragment?_deepen (token : Token) :
    (cursor.deepen a b).takeFragment? (token.deepen b)
      = (cursor.takeFragment? token).map (·.deepen a b) := by
  obtain ⟨rest, taken, marks, shift⟩ := cursor
  cases rest with
  | nil => rfl
  | cons candidate rest =>
    have htext : ∀ amount, ∀ t : Token, (t.deepen amount).text = t.text := fun _ _ => rfl
    have hkind : (candidate.deepen a).kind = candidate.kind := rfl
    -- what is known of the shift behind the piece moves along
    have hshift : (if taken = 0 then
          (agree? (shift.map (· + (a - b))) (candidate.deepen a) (token.deepen b)).map some
        else some (shift.map (· + (a - b))))
          = (if taken = 0 then (agree? shift candidate token).map some
            else some shift).map (·.map (· + (a - b))) := by
      rw [agree?_deepen]
      split
      · rw [Option.map_map, Option.map_map]
        rfl
      · rfl
    simp only [Cursor.deepen, Cursor.takeFragment?, List.map_cons, htext, hkind, hshift]
    split
    · rfl
    · rw [Option.map_map, Option.map_map]
      refine Option.map_congr fun s _ => ?_
      simp only [Function.comp]
      split <;> rfl

theorem landings_deepen (shift : Option Int) (wildcard target : Token) (rest : List Token) :
    landings (shift.map (· + (a - b))) (wildcard.deepen b) (target.deepen b)
        (rest.map (Token.deepen a))
      = (landings shift wildcard target rest).map (·.map (Token.deepen a)) := by
  induction rest with
  | nil => rfl
  | cons candidate rest ih =>
    have hstart : canStart (target.deepen b) (candidate.deepen a) = canStart target candidate :=
      rfl
    simp only [List.map_cons, landings, hstart, depthFits_deepen, endsScope_deepen, ih]
    split <;> split <;> rfl

theorem nextTarget?_deepen (tokens : List Token) :
    nextTarget? (tokens.map (Token.deepen b)) = (nextTarget? tokens).map (Token.deepen b) := by
  rw [nextTarget?, List.find?_map]
  rfl

/-! ### The whole search -/

/-- The same places are tried in the same order. -/
theorem tryEach_deepen {ceiling : Int} {go go' : List Token → Effort → Verdict × Effort}
    (hgo : ∀ place effort, go' (place.map (Token.deepen a)) effort = go place effort)
    (places : List (List Token)) : ∀ effort,
      tryEach ceiling go' (places.map (·.map (Token.deepen a))) effort
        = tryEach ceiling go places effort := by
  induction places with
  | nil => exact fun _ => rfl
  | cons place places ih =>
    intro effort
    simp only [List.map_cons, tryEach, hgo, ih]

/-- A search among deeper tokens for deeper tokens has the same verdict and the same effort. -/
theorem search_deepen (ceiling : Int) (tokens : List Token) :
    ∀ (cursor : Cursor) (effort : Effort),
      search length ceiling (tokens.map (Token.deepen b)) (cursor.deepen a b) effort
        = search length ceiling tokens cursor effort := by
  induction tokens with
  | nil => exact fun _ _ => rfl
  | cons token tokens ih =>
    intro cursor effort
    have hkind : (token.deepen b).kind = token.kind := rfl
    rw [List.map_cons, search, search, hkind]
    split
    · rfl
    · cases hk : token.kind with
      | comment => exact ih cursor _
      | inserter =>
        dsimp only
        rw [markInsertion_deepen, ih]
      | folder =>
        dsimp only
        rw [markDeletion_deepen, ih]
      | wildcard =>
        dsimp only
        have htaken : (cursor.deepen a b).taken = cursor.taken := rfl
        rw [htaken, nextTarget?_deepen]
        split
        · rfl
        · cases nextTarget? tokens with
          | none => exact ih { cursor with rest := [] } _
          | some target =>
            dsimp only [Option.map_some]
            rw [Cursor.deepen, landings_deepen]
            exact tryEach_deepen (fun place spent => ih { cursor with rest := place } spent) _ _
      | stringFragment =>
        dsimp only
        rw [takeFragment?_deepen]
        cases cursor.takeFragment? token with
        | none => rfl
        | some moved => exact ih moved _
      | directive | stringLiteral | operator | identifier | number | bracket | symbol =>
        dsimp only
        rw [takeLiteral?_deepen]
        cases cursor.takeLiteral? token with
        | none => rfl
        | some moved => exact ih moved _

theorem kinds_deepen (pattern : Pattern) : (pattern.deepen b).kinds = pattern.kinds := by
  rw [Pattern.kinds, Pattern.deepen, List.map_map]
  rfl

theorem absent?_deepen (source : List Token) (pattern : Pattern) :
    absent? (source.map (Token.deepen a)) (pattern.deepen b)
      = (absent? source pattern).map (Token.deepen b) := by
  have hliterals : (pattern.deepen b).literals = pattern.literals.map (Token.deepen b) := by
    rw [Pattern.literals, Pattern.deepen, List.filter_map]
    rfl
  have hany : ∀ token : Token, (source.map (Token.deepen a)).any (·.text == (token.deepen b).text)
      = source.any (·.text == token.text) := by
    intro token
    rw [List.any_map]
    rfl
  rw [absent?, hliterals, List.find?_map]
  simp only [absent?, Function.comp_def, hany]

/-- **Only differences of depth count.**  If every source token lies `a` deeper and every
pattern token `b` deeper, a search has the same result with the same effort, but for the depth of
a token that it reports as absent.  Where depths are not relative, `a` and `b` have to be the
same. -/
theorem find_deepen {settings : Settings} (h : settings.relativeDepth.holds = true ∨ a = b)
    (source : List Token) (length : Int) (pattern : Pattern) (effort : Effort) :
    find settings (source.map (Token.deepen a)) length (pattern.deepen b) effort
      = ((find settings source length pattern effort).1.mapError (Fault.deepen b),
        (find settings source length pattern effort).2) := by
  have hstart : start settings (source.map (Token.deepen a))
      = (start settings source).deepen a b := by
    rcases h with hrelative | rfl
    · simp [start, Cursor.deepen, hrelative]
    · simp [start, Cursor.deepen]
  have hall : (pattern.deepen b).isReplaceAll = pattern.isReplaceAll := by
    rw [Pattern.isReplaceAll, kinds_deepen, Pattern.isReplaceAll]
  have happ : (pattern.deepen b).isAppend = pattern.isAppend := by
    rw [Pattern.isAppend, kinds_deepen, Pattern.isAppend]
  have hcount : (pattern.deepen b).wildcardCount = pattern.wildcardCount := by
    rw [Pattern.wildcardCount, kinds_deepen, Pattern.wildcardCount]
  have hceiling : ∀ limit ceiling, Fault.deepen b (.overCeiling limit ceiling)
      = .overCeiling limit ceiling := by
    intro limit ceiling
    unfold Fault.overCeiling
    split <;> rfl
  have hresult : ∀ verdict : Verdict, (verdict.result settings).mapError (Fault.deepen b)
      = verdict.result settings := by
    intro verdict
    cases verdict with
    | found marks =>
      obtain ⟨insertion, deletion⟩ := marks
      cases insertion <;> rfl
    | deadEnd => rfl
    | cutOff => exact congrArg Except.error (hceiling _ _)
  simp only [find, hall, happ, hcount, absent?_deepen]
  split
  · rfl
  split
  · rfl
  split
  · exact Prod.ext (congrArg Except.error (hceiling _ _).symm) rfl
  cases absent? source pattern with
  | some token => rfl
  | none =>
    dsimp only [Option.map_none]
    rw [hstart, Pattern.deepen, search_deepen, hresult]

end

/-- The tokens of `f{a;}`. -/
def blockTokens : List Token :=
  [⟨.identifier, ['f'], 0, some 0⟩, ⟨.bracket, ['\x7b'], 0, some 1⟩,
    ⟨.identifier, ['a'], 1, some 2⟩, ⟨.symbol, [';'], 1, some 3⟩, ⟨.bracket, ['\x7d'], 1, some 4⟩]

/-- The pattern `... a ... >>> }`. -/
def closingPattern : Pattern :=
  ⟨[⟨.wildcard, ['.', '.', '.'], 1, none⟩, ⟨.identifier, ['a'], 1, none⟩,
    ⟨.wildcard, ['.', '.', '.'], 1, none⟩, ⟨.inserter, ['>', '>', '>'], 1, none⟩,
    ⟨.bracket, ['\x7d'], 1, none⟩]⟩

/-- The pattern `b`. -/
def absentPattern : Pattern := ⟨[⟨.identifier, ['b'], 0, none⟩]⟩

/-- Two wildcards on the way to a brace, with the pattern lifted and the source lowered; and a
token that is absent, with both lowered alike. -/
theorem find_deepen_block :
    find { relativeDepth := .bool true } (blockTokens.map (Token.deepen 3)) 5
        (closingPattern.deepen (-2)) {} = (.ok ⟨4, none⟩, ⟨7, 2⟩)
      ∧ find {} (blockTokens.map (Token.deepen 5)) 5 (absentPattern.deepen 5) {}
        = (.error (.tokenAbsent ⟨.identifier, ['b'], 5, none⟩), {}) := by
  have hrelative : Value.holds (.bool true) = true := rfl
  exact ⟨find_deepen (.inl hrelative) blockTokens 5 closingPattern {},
    find_deepen (.inr rfl) blockTokens 5 absentPattern {}⟩

end Search

end Graft
