/-
Searches in a relocated source.

Where source tokens stand matters to a search only for the offsets that markers
record.  If every token moves as a whole, the search goes the same way with the same
effort, and what it records moves along:

* `Token.relocate`, `MovesWhole` — tokens at other offsets;
* `takeLiteral?_relocate`, `takeFragment?_relocate`, `landings_relocate` — one move of the
  cursor;
* `search_relocate`, `find_relocate` — a whole search.
-/
import Graft.Search.Basic

namespace Graft

/-- The token at the offset that `f` moves its own to. -/
def Token.relocate (f : Int → Int) (token : Token) : Token :=
  { token with offset := token.offset.map f }

/-- The place of a match with its offsets moved. -/
def Match.relocate (f : Int → Int) (found : Match) : Match :=
  ⟨f found.insertion, found.deletion.map f⟩

namespace Search

/-- The token has an offset, and every place in it moves as its start does. -/
def MovesWhole (f : Int → Int) (token : Token) : Prop :=
  ∃ k, token.offset = some k ∧ ∀ j : Nat, j < token.text.length → f (k + j) = f k + j

def Marks.relocate (f : Int → Int) (marks : Marks) : Marks :=
  ⟨marks.insertion.map f, marks.deletion.map f⟩

def Cursor.relocate (f : Int → Int) (cursor : Cursor) : Cursor :=
  { cursor with
    rest := cursor.rest.map (Token.relocate f)
    marks := cursor.marks.relocate f }

def Verdict.relocate (f : Int → Int) : Verdict → Verdict
  | found marks => found (marks.relocate f)
  | deadEnd => deadEnd
  | cutOff => cutOff

/-- The tokens ahead move as wholes, and the cursor stands in front of one of them or
inside it. -/
structure Steady (f : Int → Int) (cursor : Cursor) : Prop where
  whole : ∀ token ∈ cursor.rest, MovesWhole f token
  inside : cursor.taken = 0 ∨ ∃ token rest, cursor.rest = token :: rest
    ∧ cursor.taken < token.text.length

section

variable {f : Int → Int} {length length' : Int} {cursor : Cursor}

/-! ### One move of the cursor -/

theorem offset_relocate (hlength : f length = length') (h : Steady f cursor) :
    (cursor.relocate f).offset length' = f (cursor.offset length) := by
  obtain ⟨rest, taken, marks, shift⟩ := cursor
  cases rest with
  | nil => exact hlength.symm
  | cons token rest =>
    obtain ⟨k, hk, hmoves⟩ := h.whole token (by simp)
    simp only [Cursor.relocate, Cursor.offset, List.map_cons, Token.relocate, hk, Option.map_some,
      Option.getD_some]
    -- at the start of a token, or inside one that moves as a whole
    rcases h.inside with hzero | ⟨_, _, hrest, hlt⟩
    · simp only at hzero
      simp [hzero]
    · obtain ⟨rfl, rfl⟩ := List.cons.inj hrest
      exact (hmoves taken hlt).symm

theorem markInsertion_relocate (hlength : f length = length') (h : Steady f cursor) :
    (cursor.relocate f).markInsertion length' = (cursor.markInsertion length).relocate f := by
  rw [Cursor.markInsertion, offset_relocate hlength h]
  rfl

theorem markDeletion_relocate (hlength : f length = length') (h : Steady f cursor) :
    (cursor.relocate f).markDeletion length' = (cursor.markDeletion length).relocate f := by
  rw [Cursor.markDeletion, offset_relocate hlength h]
  rfl

theorem takeLiteral?_relocate (token : Token) :
    (cursor.relocate f).takeLiteral? token = (cursor.takeLiteral? token).map (·.relocate f) := by
  obtain ⟨rest, taken, marks, shift⟩ := cursor
  cases rest with
  | nil => rfl
  | cons candidate rest =>
    simp only [Cursor.relocate, Cursor.takeLiteral?, List.map_cons, Token.relocate]
    split
    · rfl
    · rw [Option.map_map]
      rfl

theorem takeFragment?_relocate (token : Token) :
    (cursor.relocate f).takeFragment? token = (cursor.takeFragment? token).map (·.relocate f) := by
  obtain ⟨rest, taken, marks, shift⟩ := cursor
  cases rest with
  | nil => rfl
  | cons candidate rest =>
    simp only [Cursor.relocate, Cursor.takeFragment?, List.map_cons, Token.relocate]
    split
    · rfl
    · rw [Option.map_map]
      refine Option.map_congr fun s _ => ?_
      simp only [Function.comp]
      split <;> rfl

theorem landings_relocate (shift : Option Int) (wildcard target : Token) (rest : List Token) :
    landings shift wildcard target (rest.map (Token.relocate f))
      = (landings shift wildcard target rest).map (·.map (Token.relocate f)) := by
  induction rest with
  | nil => rfl
  | cons candidate rest ih =>
    have hstart : canStart target (candidate.relocate f) = canStart target candidate := rfl
    have hfits : depthFits shift target (candidate.relocate f) = depthFits shift target candidate :=
      rfl
    have hends : endsScope shift wildcard (candidate.relocate f)
        = endsScope shift wildcard candidate := rfl
    simp only [List.map_cons, landings, hstart, hfits, hends, ih]
    split <;> split <;> rfl

/-! ### The cursor stays steady -/

theorem Steady.takeLiteral {token : Token} {moved : Cursor} (h : Steady f cursor)
    (hmoved : cursor.takeLiteral? token = some moved) : Steady f moved := by
  obtain ⟨rest, taken, marks, shift⟩ := cursor
  cases rest with
  | nil => simp [Cursor.takeLiteral?] at hmoved
  | cons candidate rest =>
    simp only [Cursor.takeLiteral?] at hmoved
    split at hmoved
    · simp at hmoved
    · rename_i hhere
      obtain ⟨s, -, rfl⟩ := Option.map_eq_some_iff.mp hmoved
      exact ⟨fun t ht => h.whole t (by simp [ht]), .inl (by simpa using (not_or.mp hhere).1)⟩

theorem Steady.takeFragment {token : Token} {moved : Cursor} (h : Steady f cursor)
    (hmoved : cursor.takeFragment? token = some moved) : Steady f moved := by
  obtain ⟨rest, taken, marks, shift⟩ := cursor
  cases rest with
  | nil => simp [Cursor.takeFragment?] at hmoved
  | cons candidate rest =>
    simp only [Cursor.takeFragment?] at hmoved
    split at hmoved
    · simp at hmoved
    · obtain ⟨s, -, hs⟩ := Option.map_eq_some_iff.mp hmoved
      split at hs
      · obtain rfl := hs
        exact ⟨fun t ht => h.whole t (by simp [ht]), .inl rfl⟩
      · rename_i hwithin
        obtain rfl := hs
        exact ⟨h.whole, .inr ⟨candidate, rest, rfl, by simpa using hwithin⟩⟩

/-- A wildcard ends at a place further on in the tokens. -/
theorem suffix_of_mem_landings {shift : Option Int} {wildcard target : Token}
    {rest place : List Token} (h : place ∈ landings shift wildcard target rest) :
    place <:+ rest := by
  induction rest with
  | nil => simp [landings] at h
  | cons candidate rest ih =>
    have hhere : ∀ {b : Bool}, place ∈ (if b then [candidate :: rest] else []) →
        place <:+ candidate :: rest := by
      intro b hb
      cases b with
      | true => exact (List.mem_singleton.mp hb) ▸ List.suffix_refl _
      | false => simp at hb
    simp only [landings] at h
    split at h
    · exact hhere h
    · rcases List.mem_append.mp h with h | h
      · exact hhere h
      · exact (ih h).trans (List.suffix_cons _ _)

theorem Steady.land {place : List Token} (h : Steady f cursor) (htaken : cursor.taken = 0)
    (hplace : place <:+ cursor.rest) : Steady f { cursor with rest := place } :=
  ⟨fun t ht => h.whole t (hplace.subset ht), .inl htaken⟩

/-! ### The whole search -/

/-- The offsets of a verdict move, the effort is what it was. -/
def relocateOutcome (f : Int → Int) (outcome : Verdict × Effort) : Verdict × Effort :=
  (outcome.1.relocate f, outcome.2)

theorem tryEach_relocate {ceiling : Int} {go go' : List Token → Effort → Verdict × Effort}
    (places : List (List Token))
    (hgo : ∀ place ∈ places, ∀ effort,
      go' (place.map (Token.relocate f)) effort = relocateOutcome f (go place effort)) :
    ∀ effort, tryEach ceiling go' (places.map (·.map (Token.relocate f))) effort
      = relocateOutcome f (tryEach ceiling go places effort) := by
  induction places with
  | nil => exact fun _ => rfl
  | cons place places ih =>
    intro effort
    rw [List.map_cons, tryEach, tryEach, hgo place (by simp)]
    split
    · rfl
    · cases hplace : go place effort.branch with
      | mk verdict spent =>
        cases verdict with
        | deadEnd => exact ih (fun p hp => hgo p (by simp [hp])) spent
        | found marks => rfl
        | cutOff => rfl

/-- A search in relocated tokens goes the same way, and records relocated offsets. -/
theorem search_relocate (hlength : f length = length') (ceiling : Int) (tokens : List Token) :
    ∀ (cursor : Cursor) (effort : Effort), Steady f cursor →
      search length' ceiling tokens (cursor.relocate f) effort
        = relocateOutcome f (search length ceiling tokens cursor effort) := by
  induction tokens with
  | nil => exact fun _ _ _ => rfl
  | cons token tokens ih =>
    intro cursor effort h
    rw [search, search]
    split
    · rfl
    · cases hk : token.kind with
      | comment => exact ih cursor _ h
      | inserter =>
        dsimp only
        rw [markInsertion_relocate hlength h]
        exact ih _ _ ⟨h.whole, h.inside⟩
      | folder =>
        dsimp only
        rw [markDeletion_relocate hlength h]
        exact ih _ _ ⟨h.whole, h.inside⟩
      | wildcard =>
        dsimp only
        have hsame : (cursor.relocate f).taken = cursor.taken := rfl
        rw [hsame]
        by_cases htaken : cursor.taken = 0
        · rw [if_neg (not_not_intro htaken), if_neg (not_not_intro htaken)]
          cases nextTarget? tokens with
          | none => exact ih _ _ (h.land htaken List.nil_suffix)
          | some target =>
            -- the same places are tried in the same order
            dsimp only
            rw [Cursor.relocate, landings_relocate]
            refine tryEach_relocate _ (fun place hplace spent => ?_) _
            exact ih _ spent (h.land htaken (suffix_of_mem_landings hplace))
        · rw [if_pos htaken, if_pos htaken]
          rfl
      | stringFragment =>
        dsimp only
        rw [takeFragment?_relocate]
        cases hmoved : cursor.takeFragment? token with
        | none => rfl
        | some moved => exact ih moved _ (h.takeFragment hmoved)
      | directive | stringLiteral | operator | identifier | number | bracket | symbol =>
        dsimp only
        rw [takeLiteral?_relocate]
        cases hmoved : cursor.takeLiteral? token with
        | none => rfl
        | some moved => exact ih moved _ (h.takeLiteral hmoved)

theorem absent?_relocate (source : List Token) (pattern : Pattern) :
    absent? (source.map (Token.relocate f)) pattern = absent? source pattern := by
  have hany : ∀ token : Token, (source.map (Token.relocate f)).any (·.text == token.text)
      = source.any (·.text == token.text) := by
    intro token
    rw [List.any_map]
    rfl
  simp only [absent?, hany]

theorem result_relocate (settings : Settings) (verdict : Verdict) :
    (verdict.relocate f).result settings = (verdict.result settings).map (·.relocate f) := by
  cases verdict with
  | found marks =>
    obtain ⟨insertion, deletion⟩ := marks
    cases insertion <;> rfl
  | deadEnd => rfl
  | cutOff => rfl

/-- The offsets of a pattern in relocated tokens are the relocated offsets, with the
same effort; a pattern that stands for the whole text starts at zero wherever that
is. -/
theorem find_relocate (hlength : f length = length') (settings : Settings) {source : List Token}
    (hsource : ∀ token ∈ source, MovesWhole f token) {pattern : Pattern}
    (hall : pattern.isReplaceAll = false) (effort : Effort) :
    find settings (source.map (Token.relocate f)) length' pattern effort
      = ((find settings source length pattern effort).1.map (·.relocate f),
        (find settings source length pattern effort).2) := by
  have hstart : start settings (source.map (Token.relocate f))
      = (start settings source).relocate f := rfl
  simp only [find, hall, Bool.false_eq_true, if_false, absent?_relocate]
  split
  · rw [← hlength]
    rfl
  · split
    · rfl
    · cases absent? source pattern with
      | some token => rfl
      | none =>
        dsimp only
        rw [hstart, search_relocate hlength _ _ _ _ ⟨hsource, .inl rfl⟩, relocateOutcome,
          result_relocate]

end

end Search

end Graft
