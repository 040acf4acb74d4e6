/-
Where the offsets of a match lie.

If source tokens lie in a text one behind the other, the markers of a pattern record
offsets of the text: where a token starts, inside a string literal, or at the end.  A
search only moves ahead, so of two offsets the one recorded later is not the smaller:

* `Fits`, `LastBefore` — where an offset may lie, and which marker comes last;
* `Held` — what every place on the way of a search satisfies;
* `Moves.held`, `Moves.offset_le` — one move keeps it, and does not lead back;
* `Passes.ordered` — which offset is the smaller one;
* `find_places` — the offsets of a match.
-/
import Graft.Proofs.Lexing.Coverage
import Graft.Proofs.Search.Path

namespace Graft.Search

/-- The offset is that of the text's end, or of a token's start, or it lies strictly inside
a string literal. -/
def Fits (source : List Token) (length offset : Int) : Prop :=
  offset = length ∨ ∃ token ∈ source, ∃ k ∈ token.offset,
    offset = k ∨ token.kind = .stringLiteral ∧ k < offset ∧ offset < k + token.text.length

/-- The last `earlier` comes before the last `later`. -/
def LastBefore (earlier later : Kind) (kinds : List Kind) : Prop :=
  ∃ front back, kinds = front ++ earlier :: back ∧ earlier ∉ back ∧ later ∈ back

/-- The offset that the last marker of a kind recorded. -/
def Marks.of (marks : Marks) : Kind → Option Int
  | .inserter => marks.insertion
  | .folder => marks.deletion
  | _ => none

/-- A place where a search may stand: in front of a token, inside a string literal or at
the end, with offsets recorded that fit. -/
structure Held (source : List Token) (length : Int) (s : Standing) : Prop where
  index_le : s.index ≤ source.length
  inside : s.taken = 0 ∨ ∃ token, source[s.index]? = some token ∧ token.kind = .stringLiteral
    ∧ s.taken < token.text.length
  fits : ∀ kind, ∀ o ∈ s.marks.of kind, Fits source length o

section Order

variable {source : List Token} {length : Nat} {token : Token} {tokens : List Token}
  {s s' : Standing} {offset : Int}

/-! ### Offsets -/

theorem Fits.bounds (horder : InOrder source length) (h : Fits source length offset) :
    0 ≤ offset ∧ offset ≤ length := by
  rcases h with rfl | ⟨token, htoken, k, hk, hplace⟩
  · exact ⟨Int.natCast_nonneg _, Int.le_refl _⟩
  · obtain ⟨n, hn, hpos, hle⟩ := horder.within token htoken
    obtain rfl : k = n := Option.some.inj (hk.symm.trans hn)
    omega

/-- The offset of a place is that of the token in front of which it lies. -/
theorem offset_eq {k : Int} (h : source[s.index]? = some token) (hk : token.offset = some k) :
    s.offset source length = k + s.taken := by
  rw [Standing.offset, h]
  dsimp only
  rw [hk, Option.getD_some]

theorem Held.offset_fits (horder : InOrder source length) (h : Held source length s) :
    Fits source length (s.offset source length) := by
  cases hget : source[s.index]? with
  | none => exact .inl (by rw [Standing.offset, hget])
  | some token =>
    have hmem := List.mem_of_getElem? hget
    obtain ⟨k, hk, -⟩ := horder.within token hmem
    refine .inr ⟨token, hmem, k, hk, ?_⟩
    rw [offset_eq hget hk]
    by_cases h0 : s.taken = 0
    · exact .inl (by simp [h0])
    · obtain ⟨token', hget', hkind, hlt⟩ := h.inside.resolve_left h0
      obtain rfl := Option.some.inj (hget.symm.trans hget')
      exact .inr ⟨hkind, by omega, by omega⟩

/-- A place further on in the tokens is one further on in the text. -/
theorem Held.offset_le_of_lt (horder : InOrder source length) (h : Held source length s)
    (hlt : s.index < s'.index) : s.offset source length ≤ s'.offset source length := by
  cases hget' : source[s'.index]? with
  | none =>
    have hend : s'.offset source length = length := by rw [Standing.offset, hget']
    rw [hend]
    exact ((h.offset_fits horder).bounds horder).2
  | some b =>
    obtain ⟨hi', rfl⟩ := List.getElem?_eq_some_iff.mp hget'
    have hi : s.index < source.length := Nat.lt_trans hlt hi'
    have hget : source[s.index]? = some source[s.index] := List.getElem?_eq_getElem hi
    obtain ⟨k, hk, -⟩ := horder.within _ (List.getElem_mem hi)
    obtain ⟨n, hn, -⟩ := horder.within _ (List.getElem_mem hi')
    have hapart := List.pairwise_iff_getElem.mp horder.apart _ _ hi hi' hlt k hk n hn
    have htaken : s.taken ≤ source[s.index].text.length := by
      rcases h.inside with h0 | ⟨token, htoken, -, hlt⟩
      · omega
      · obtain rfl := Option.some.inj (hget.symm.trans htoken)
        omega
    rw [offset_eq hget hk, offset_eq hget' hn]
    omega

/-! ### One move -/

theorem behind_marks (candidate : Token) (shift : Option Int) :
    (s.behind candidate token shift).marks = s.marks := by
  rw [Standing.behind]
  split <;> rfl

/-- A marker records where it is met, and nothing else is recorded. -/
theorem Moves.mark {length : Int} (h : Moves source length token tokens s s') {kind : Kind}
    (hkind : kind = .inserter ∨ kind = .folder) :
    s'.marks.of kind
      = if token.kind = kind then some (s.offset source length) else s.marks.of kind := by
  cases h with
  | comment hk | trailing hk | wildcard hk => rcases hkind with rfl | rfl <;> simp [hk]
  | inserter hk | folder hk =>
    rcases hkind with rfl | rfl <;> simp [hk, Marks.of, Standing.inserted, Standing.folded]
  | fragment hk ht =>
    obtain ⟨candidate, shift, -, -, -, -, rfl⟩ := ht
    rw [behind_marks]
    rcases hkind with rfl | rfl <;> simp [hk]
  | literal hm hk ht =>
    obtain ⟨candidate, shift, -, -, -, -, rfl⟩ := ht
    have hne : token.kind ≠ kind := by
      rintro rfl
      rcases hkind with hkind | hkind <;> simp [Token.isMeta, Kind.isMeta, hkind] at hm
    rw [if_neg hne]

/-- A move leads ahead in the text. -/
theorem Moves.offset_le (horder : InOrder source length)
    (h : Moves source length token tokens s s') (hs : Held source length s) :
    s.offset source length ≤ s'.offset source length := by
  cases h with
  | comment | inserter | folder => exact Int.le_refl _
  | trailing hk h0 ht =>
    have hend : Standing.offset source length { s with index := source.length } = length := by
      simp [Standing.offset]
    rw [hend]
    exact ((hs.offset_fits horder).bounds horder).2
  | @wildcard target j hk h0 ht hl =>
    rcases Nat.eq_or_lt_of_le hl.ahead with rfl | hlt
    · exact Int.le_refl _
    · exact hs.offset_le_of_lt horder hlt
  | fragment hk ht =>
    obtain ⟨candidate, shift, hget, -, -, -, rfl⟩ := ht
    rw [Standing.behind]
    split
    · exact hs.offset_le_of_lt horder (Nat.lt_succ_self _)
    · -- further on in the same literal
      obtain ⟨k, hk, -⟩ := horder.within _ (List.mem_of_getElem? hget)
      have hthere : Standing.offset source length
          { s with taken := s.taken + token.text.length, shift := shift }
            = k + (s.taken + token.text.length : Nat) := offset_eq hget hk
      rw [offset_eq hget hk, hthere]
      omega
  | literal hm hk ht =>
    obtain ⟨candidate, shift, -, -, -, -, rfl⟩ := ht
    exact hs.offset_le_of_lt horder (Nat.lt_succ_self _)

theorem Moves.held (horder : InOrder source length)
    (h : Moves source length token tokens s s') (hs : Held source length s) :
    Held source length s' := by
  -- what is recorded by this move is where it starts
  have hfits : ∀ kind, ∀ o ∈ s'.marks.of kind, Fits source length o := by
    intro kind o ho
    by_cases hkind : kind = .inserter ∨ kind = .folder
    · rw [h.mark hkind] at ho
      split at ho
      · obtain rfl := Option.some.inj ho
        exact hs.offset_fits horder
      · exact hs.fits kind o ho
    · cases kind <;> simp_all [Marks.of]
  cases h with
  | comment | inserter | folder => exact ⟨hs.index_le, hs.inside, hfits⟩
  | trailing hk h0 ht => exact ⟨Nat.le_refl _, .inl h0, hfits⟩
  | wildcard hk h0 ht hl =>
    obtain ⟨candidate, hget, -⟩ := hl.lands
    obtain ⟨hlt, -⟩ := List.getElem?_eq_some_iff.mp hget
    exact ⟨Nat.le_of_lt hlt, .inl h0, hfits⟩
  | fragment hk ht =>
    obtain ⟨candidate, shift, hget, hkind, -, -, rfl⟩ := ht
    obtain ⟨hlt, -⟩ := List.getElem?_eq_some_iff.mp hget
    rw [Standing.behind] at hfits ⊢
    split at hfits
    · rename_i hend
      rw [if_pos hend]
      exact ⟨hlt, .inl rfl, hfits⟩
    · rename_i hinside
      rw [if_neg hinside]
      exact ⟨hs.index_le, .inr ⟨candidate, hget, hkind, Nat.lt_of_not_le hinside⟩, hfits⟩
  | literal hm hk ht =>
    obtain ⟨candidate, shift, hget, h0, -, -, rfl⟩ := ht
    obtain ⟨hlt, -⟩ := List.getElem?_eq_some_iff.mp hget
    exact ⟨hlt, .inl h0, hfits⟩

/-! ### The whole way -/

theorem held_start (settings : Settings) : Held source length (.start settings) := by
  refine ⟨Nat.zero_le _, .inl rfl, fun kind o ho => ?_⟩
  cases kind <;> simp [Marks.of, Standing.start] at ho

theorem Passes.held {before after : List Token} (horder : InOrder source length)
    (h : Passes source length after before s s') (hs : Held source length s) :
    Held source length s' :=
  h.preserves (P := fun _ s => Held source length s) (fun hmove => hmove.held horder) hs

/-- What is recorded stays if no marker of its kind comes any more. -/
theorem Passes.mark_eq {length : Int} {after before : List Token} {kind : Kind}
    (hkind : kind = .inserter ∨ kind = .folder) (h : Passes source length after before s s')
    (hnone : ∀ token ∈ before ++ after, token.kind ≠ kind) :
    s'.marks.of kind = s.marks.of kind := by
  refine (h.preserves (P := fun ahead s' => (∀ token ∈ ahead, token.kind ≠ kind)
    ∧ s'.marks.of kind = s.marks.of kind) ?_ ⟨hnone, rfl⟩).2
  rintro token tokens s₁ s₂ hmove ⟨hahead, hmark⟩
  refine ⟨fun t ht => hahead t (by simp [ht]), ?_⟩
  rw [hmove.mark hkind, if_neg (hahead token (by simp)), hmark]

/-- What is recorded on the way is not before its start. -/
theorem Passes.mark_ge {before : List Token} {kind : Kind} (horder : InOrder source length)
    (hkind : kind = .inserter ∨ kind = .folder) (h : Passes source length [] before s s')
    (hs : Held source length s) (hsome : ∃ token ∈ before, token.kind = kind) :
    ∃ o, s'.marks.of kind = some o ∧ s.offset source length ≤ o := by
  -- until the marker comes it is still ahead
  have hend := h.preserves (P := fun ahead s' => Held source length s'
    ∧ s.offset source length ≤ s'.offset source length
    ∧ ((∃ token ∈ ahead, token.kind = kind)
      ∨ ∃ o, s'.marks.of kind = some o ∧ s.offset source length ≤ o)) ?_
    ⟨hs, Int.le_refl _, .inl (by simpa using hsome)⟩
  · exact hend.2.2.resolve_left (by simp)
  · rintro token tokens s₁ s₂ hmove ⟨hs₁, hle, hmark⟩
    refine ⟨hmove.held horder hs₁, Int.le_trans hle (hmove.offset_le horder hs₁), ?_⟩
    rw [hmove.mark hkind]
    by_cases htoken : token.kind = kind
    · exact .inr ⟨_, if_pos htoken, hle⟩
    · rw [if_neg htoken]
      refine hmark.imp_left ?_
      rintro ⟨t, ht, hk⟩
      rcases List.mem_cons.mp ht with rfl | ht
      · exact absurd hk htoken
      · exact ⟨t, ht, hk⟩

/-- The marker that comes last records the greater offset. -/
theorem Passes.ordered {earlier later : Kind} (horder : InOrder source length)
    (hearlier : earlier = .inserter ∨ earlier = .folder)
    (hlater : later = .inserter ∨ later = .folder)
    (h : Passes source length [] tokens s s') (hs : Held source length s)
    (hlast : LastBefore earlier later (tokens.map (·.kind))) :
    ∃ o o', s'.marks.of earlier = some o ∧ s'.marks.of later = some o' ∧ o ≤ o' := by
  obtain ⟨front, back, hkinds, hnone, hsome⟩ := hlast
  obtain ⟨before, rest, rfl, -, hrest⟩ := List.map_eq_append_iff.mp hkinds
  obtain ⟨token, after, rfl, hkind, rfl⟩ := List.map_eq_cons_iff.mp hrest
  obtain ⟨s₁, hbefore, hafter⟩ := passes_append h
  have hs₁ := hbefore.held horder hs
  cases hafter with
  | @cons _ _ _ s₂ _ hmove hafter =>
    have hmark : s₂.marks.of earlier = some (s₁.offset source length) := by
      rw [hmove.mark hearlier, if_pos hkind]
    have hstays := hafter.mark_eq hearlier (by simpa using hnone)
    obtain ⟨o', ho', hle⟩ :=
      hafter.mark_ge horder hlater (hmove.held horder hs₁) (by simpa using hsome)
    exact ⟨_, o', hstays.trans hmark, ho', Int.le_trans (hmove.offset_le horder hs₁) hle⟩

end Order

/-! ### Matches -/

theorem LastBefore.mem {earlier later : Kind} {kinds : List Kind}
    (h : LastBefore earlier later kinds) : earlier ∈ kinds := by
  obtain ⟨front, back, rfl, -⟩ := h
  simp

theorem LastBefore.getLast_ne {earlier later : Kind} {kinds : List Kind}
    (h : LastBefore earlier later kinds) : kinds.getLast? ≠ some earlier := by
  obtain ⟨front, back, rfl, hnone, hlater⟩ := h
  have hback : back ≠ [] := List.ne_nil_of_mem hlater
  rw [List.getLast?_append, List.getLast?_cons, Option.some_or,
    List.getLast?_eq_some_getLast hback, Option.getD_some]
  intro hlast
  exact hnone (Option.some.inj hlast ▸ List.getLast_mem hback)

/-- The offsets of a match lie in the text and fit the tokens, but for the start of a text
that is replaced as a whole.  If there is a place of insertion and an end of deletion, the
marker that comes last in the pattern has the greater offset. -/
theorem find_places {settings : Settings} {source : List Token} {length : Nat} {pattern : Pattern}
    {effort : Effort} {found : Match} (horder : InOrder source length)
    (h : (find settings source length pattern effort).1 = .ok found) :
    (∀ o, o = found.insertion ∨ o ∈ found.deletion → 0 ≤ o ∧ o ≤ length)
      ∧ (Fits source length found.insertion ∨ pattern.isReplaceAll = true ∧ found.insertion = 0)
      ∧ (∀ o ∈ found.deletion, Fits source length o)
      ∧ (LastBefore .inserter .folder pattern.kinds → ∃ o ∈ found.deletion, found.insertion ≤ o)
      ∧ (LastBefore .folder .inserter pattern.kinds →
          ∃ o ∈ found.deletion, o ≤ found.insertion) := by
  rcases find_ok h with ⟨hall, rfl⟩ | ⟨happend, rfl⟩ | ⟨s, hpasses, hmarks⟩
  · have hkinds : pattern.kinds = [.inserter, .wildcard, .folder] := by
      simpa [Pattern.isReplaceAll] using hall
    refine ⟨?_, .inr ⟨hall, rfl⟩, ?_, fun _ => ⟨length, rfl, Int.natCast_nonneg _⟩, ?_⟩
    · rintro o (rfl | ho)
      · exact ⟨Int.le_refl _, Int.natCast_nonneg _⟩
      · obtain rfl := Option.some.inj ho
        exact ⟨Int.natCast_nonneg _, Int.le_refl _⟩
    · intro o ho
      exact .inl (Option.some.inj ho).symm
    · intro hlast
      exact absurd (by rw [hkinds]; rfl) hlast.getLast_ne
  · have hkinds : pattern.kinds = [.wildcard, .inserter] := by
      simpa [Pattern.isAppend] using happend
    refine ⟨?_, .inl (.inl rfl), by simp, ?_, ?_⟩
    · rintro o (rfl | ho)
      · exact ⟨Int.natCast_nonneg _, Int.le_refl _⟩
      · simp at ho
    · intro hlast
      exact absurd (by rw [hkinds]; rfl) hlast.getLast_ne
    · intro hlast
      have hmem := hlast.mem
      simp [hkinds] at hmem
  · have hend := hpasses.held horder (held_start settings)
    have hinsertion : s.marks.of .inserter = some found.insertion := by rw [hmarks]; rfl
    have hdeletion : s.marks.of .folder = found.deletion := by rw [hmarks]; rfl
    have hfits := hend.fits .inserter _ hinsertion
    have hfits' : ∀ o ∈ found.deletion, Fits source length o := by
      rw [← hdeletion]
      exact hend.fits .folder
    refine ⟨?_, .inl hfits, hfits', ?_, ?_⟩
    · rintro o (rfl | ho)
      · exact hfits.bounds horder
      · exact (hfits' o ho).bounds horder
    · intro hlast
      obtain ⟨o, o', ho, ho', hle⟩ :=
        hpasses.ordered horder (.inl rfl) (.inr rfl) (held_start settings) hlast
      rw [hinsertion, Option.some.injEq] at ho
      rw [hdeletion] at ho'
      exact ⟨o', ho', ho ▸ hle⟩
    · intro hlast
      obtain ⟨o, o', ho, ho', hle⟩ :=
        hpasses.ordered horder (.inr rfl) (.inl rfl) (held_start settings) hlast
      rw [hinsertion, Option.some.injEq] at ho'
      rw [hdeletion] at ho
      exact ⟨o, ho, ho' ▸ hle⟩

/-- The pattern `... ; "a>>>b<<<"`: both markers stand inside a literal. -/
def quotedPattern : Pattern :=
  ⟨[⟨.wildcard, ['.', '.', '.'], 0, none⟩, ⟨.symbol, [';'], 0, none⟩,
    ⟨.stringFragment, ['"', 'a'], 0, none⟩, ⟨.inserter, ['>', '>', '>'], 0, none⟩,
    ⟨.stringFragment, ['b'], 0, none⟩, ⟨.folder, ['<', '<', '<'], 0, none⟩,
    ⟨.stringFragment, ['"'], 0, none⟩]⟩

theorem find_places_in_literal :
    (find { relativeDepth := .bool true } callTokens 10 quotedPattern {}).1.toOption
        = some ⟨8, some 9⟩
      ∧ InOrder callTokens 10 ∧ LastBefore .inserter .folder quotedPattern.kinds
      ∧ Fits callTokens 10 8 ∧ Fits callTokens 10 9 ∧ ∃ o ∈ some (9 : Int), 8 ≤ o := by
  have horder : InOrder callTokens 10 := ⟨by decide, by decide⟩
  have hfound : (find { relativeDepth := .bool true } callTokens 10 quotedPattern {}).1
      = .ok ⟨8, some 9⟩ := rfl
  have hlast : LastBefore .inserter .folder quotedPattern.kinds :=
    ⟨[.wildcard, .symbol, .stringFragment], [.stringFragment, .folder, .stringFragment], rfl,
      by decide, by decide⟩
  obtain ⟨-, hinsertion, hdeletion, hordered, -⟩ := find_places horder hfound
  exact ⟨rfl, horder, hlast, hinsertion.resolve_right (by simp), hdeletion 9 rfl, hordered hlast⟩

end Graft.Search
