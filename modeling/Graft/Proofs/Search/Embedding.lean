/-
Embeddings of a pattern in source tokens.

An embedding chooses for each wildcard that a token has to follow the index of the
source token where it lands.  With these choices made the pattern is followed
token by token and nothing is left to try:

* `Standing` — a place in the source by its index, with what is known there;
* `TakesLiteral`, `TakesFragment` — the pattern token takes what stands there;
* `Lands` — a wildcard that is met at one index may end at another;
* `Follows` — the pattern can be followed with the given landings, and its markers
  record the given offsets.

None of these mentions a cursor or a search.  The lemmas at the end say what the
moves of a cursor are in these terms: `takeLiteral?_cursor`, `takeFragment?_cursor`,
and `landings_drop` for the places that a wildcard tries.
-/
import Graft.Search.Basic

namespace Graft.Search

/-- A place in the source tokens. -/
structure Standing where
  /-- The index of the next source token. -/
  index : Nat
  /-- How many characters of that token are taken. -/
  taken : Nat
  /-- How much deeper the source is nested than the pattern, once known. -/
  shift : Option Int
  marks : Marks

namespace Standing

/-- The source offset of a place: behind the last token it is the length of the text. -/
def offset (source : List Token) (length : Int) (s : Standing) : Int :=
  match source[s.index]? with
  | none => length
  | some token => token.offset.getD 0 + s.taken

/-- The place of insertion is recorded. -/
def inserted (source : List Token) (length : Int) (s : Standing) : Standing :=
  { s with marks := { s.marks with insertion := some (s.offset source length) } }

/-- The end of the deletion is recorded. -/
def folded (source : List Token) (length : Int) (s : Standing) : Standing :=
  { s with marks := { s.marks with deletion := some (s.offset source length) } }

/-- The place behind a piece of a literal: the piece that reaches the literal's end leads
to the next token. -/
def behind (candidate token : Token) (shift : Option Int) (s : Standing) : Standing :=
  if candidate.text.length ≤ s.taken + token.text.length then
    { s with index := s.index + 1, taken := 0, shift := shift }
  else { s with taken := s.taken + token.text.length, shift := shift }

/-- The cursor that stands at the same place. -/
def cursor (source : List Token) (s : Standing) : Cursor :=
  ⟨source.drop s.index, s.taken, s.marks, s.shift⟩

end Standing

/-- The source token is `shift` deeper than the pattern token, and this is the shift
that was known before, if one was. -/
def DepthsAgree (known : Option Int) (candidate token : Token) (shift : Int) : Prop :=
  candidate.depth = token.depth + shift ∧ ∀ s, known = some s → s = shift

/-- A literal takes exactly the next source token: no part of it is taken yet, and
text and depth agree. -/
def TakesLiteral (source : List Token) (token : Token) (s s' : Standing) : Prop :=
  ∃ candidate shift, source[s.index]? = some candidate ∧ s.taken = 0
    ∧ candidate.text = token.text ∧ DepthsAgree s.shift candidate token shift
    ∧ s' = { s with index := s.index + 1, shift := some shift }

/-- What is known of the shift after a piece of a literal: only the first piece tells. -/
def FragmentShift (s : Standing) (candidate token : Token) (shift : Option Int) : Prop :=
  if s.taken = 0 then ∃ d, DepthsAgree s.shift candidate token d ∧ shift = some d
  else shift = s.shift

/-- A fragment takes the next piece of a string literal. -/
def TakesFragment (source : List Token) (token : Token) (s s' : Standing) : Prop :=
  ∃ candidate shift, source[s.index]? = some candidate ∧ candidate.kind = .stringLiteral
    ∧ token.text <+: candidate.text.drop s.taken ∧ FragmentShift s candidate token shift
    ∧ s' = s.behind candidate token shift

/-- The source token can be the first that the pattern token takes, or takes a piece
of. -/
def Starts (target candidate : Token) : Prop :=
  if target.kind = .stringFragment then
    candidate.kind = .stringLiteral ∧ target.text <+: candidate.text
  else candidate.text = target.text

/-- The source token is the brace that closes a scope at the given depth. -/
def Closes (depth : Int) (token : Token) : Prop :=
  token.kind ≠ .stringLiteral ∧ token.text = ['\x7d'] ∧ token.depth = depth

/-- A wildcard met at index `start` may land at index `stop`: the token there can start
the target, at the right depth as far as the shift is known, and no brace in front of
it closes the wildcard's scope. -/
structure Lands (source : List Token) (shift : Option Int) (wildcard target : Token)
    (start stop : Nat) : Prop where
  ahead : start ≤ stop
  lands : ∃ candidate, source[stop]? = some candidate ∧ Starts target candidate
    ∧ ∀ s, shift = some s → candidate.depth = target.depth + s
  within : ∀ s, shift = some s → ∀ i token, start ≤ i → i < stop → source[i]? = some token →
    ¬ Closes (wildcard.depth + s) token

/-- The pattern tokens can be followed from a place with the given landings, one for
each wildcard that a token other than markers and comments comes after; the last
wildcard of a pattern that ends with it takes all that is left.  `marks` are the
offsets that are recorded at the end. -/
inductive Follows (source : List Token) (length : Int) :
    List Token → Standing → List Nat → Marks → Prop where
  | done (s : Standing) : Follows source length [] s [] s.marks
  | comment {token tokens s js marks} (hk : token.kind = .comment)
      (h : Follows source length tokens s js marks) :
      Follows source length (token :: tokens) s js marks
  | inserter {token tokens s js marks} (hk : token.kind = .inserter)
      (h : Follows source length tokens (s.inserted source length) js marks) :
      Follows source length (token :: tokens) s js marks
  | folder {token tokens s js marks} (hk : token.kind = .folder)
      (h : Follows source length tokens (s.folded source length) js marks) :
      Follows source length (token :: tokens) s js marks
  | trailing {token tokens s js marks} (hk : token.kind = .wildcard) (h0 : s.taken = 0)
      (ht : nextTarget? tokens = none)
      (h : Follows source length tokens { s with index := source.length } js marks) :
      Follows source length (token :: tokens) s js marks
  | wildcard {token tokens s target j js marks} (hk : token.kind = .wildcard)
      (h0 : s.taken = 0) (ht : nextTarget? tokens = some target)
      (hl : Lands source s.shift token target s.index j)
      (h : Follows source length tokens { s with index := j } js marks) :
      Follows source length (token :: tokens) s (j :: js) marks
  | fragment {token tokens s s' js marks} (hk : token.kind = .stringFragment)
      (ht : TakesFragment source token s s') (h : Follows source length tokens s' js marks) :
      Follows source length (token :: tokens) s js marks
  | literal {token tokens s s' js marks} (hm : token.isMeta = false)
      (hk : token.kind ≠ .stringFragment) (ht : TakesLiteral source token s s')
      (h : Follows source length tokens s' js marks) :
      Follows source length (token :: tokens) s js marks

/-! ### Inversion -/

section Inversion

variable {source : List Token} {length : Int} {token : Token} {tokens : List Token}
  {s : Standing} {js : List Nat} {marks : Marks}

theorem nextTarget?_cons_meta (h : token.isMeta = true) :
    nextTarget? (token :: tokens) = nextTarget? tokens := by
  rw [nextTarget?, List.find?_cons_of_neg (by simp [h])]
  rfl

theorem nextTarget?_cons_other (h : token.isMeta = false) :
    nextTarget? (token :: tokens) = some token := by
  rw [nextTarget?, List.find?_cons_of_pos (by simp [h])]

theorem follows_nil : Follows source length [] s js marks ↔ js = [] ∧ marks = s.marks := by
  constructor
  · intro h
    cases h
    exact ⟨rfl, rfl⟩
  · rintro ⟨rfl, rfl⟩
    exact .done s

theorem follows_comment (hk : token.kind = .comment) :
    Follows source length (token :: tokens) s js marks
      ↔ Follows source length tokens s js marks := by
  constructor
  · intro h
    cases h <;> simp_all [Token.isMeta, Kind.isMeta]
  · exact .comment hk

theorem follows_inserter (hk : token.kind = .inserter) :
    Follows source length (token :: tokens) s js marks
      ↔ Follows source length tokens (s.inserted source length) js marks := by
  constructor
  · intro h
    cases h <;> simp_all [Token.isMeta, Kind.isMeta]
  · exact .inserter hk

theorem follows_folder (hk : token.kind = .folder) :
    Follows source length (token :: tokens) s js marks
      ↔ Follows source length tokens (s.folded source length) js marks := by
  constructor
  · intro h
    cases h <;> simp_all [Token.isMeta, Kind.isMeta]
  · exact .folder hk

theorem follows_trailing (hk : token.kind = .wildcard) (ht : nextTarget? tokens = none) :
    Follows source length (token :: tokens) s js marks
      ↔ s.taken = 0 ∧ Follows source length tokens { s with index := source.length } js marks := by
  constructor
  · intro h
    cases h <;> simp_all [Token.isMeta, Kind.isMeta]
  · rintro ⟨h0, h⟩
    exact .trailing hk h0 ht h

theorem follows_wildcard {target : Token} (hk : token.kind = .wildcard)
    (ht : nextTarget? tokens = some target) :
    Follows source length (token :: tokens) s js marks
      ↔ s.taken = 0 ∧ ∃ j rest, js = j :: rest ∧ Lands source s.shift token target s.index j
        ∧ Follows source length tokens { s with index := j } rest marks := by
  constructor
  · intro h
    cases h with
    | wildcard _ h0 ht' hl h =>
      obtain rfl := Option.some.inj (ht'.symm.trans ht)
      exact ⟨h0, _, _, rfl, hl, h⟩
    | _ => simp_all [Token.isMeta, Kind.isMeta]
  · rintro ⟨h0, j, rest, rfl, hl, h⟩
    exact .wildcard hk h0 ht hl h

theorem follows_fragment (hk : token.kind = .stringFragment) :
    Follows source length (token :: tokens) s js marks
      ↔ ∃ s', TakesFragment source token s s' ∧ Follows source length tokens s' js marks := by
  constructor
  · intro h
    cases h with
    | fragment _ ht h => exact ⟨_, ht, h⟩
    | _ => simp_all
  · rintro ⟨s', ht, h⟩
    exact .fragment hk ht h

theorem follows_literal (hm : token.isMeta = false) (hk : token.kind ≠ .stringFragment) :
    Follows source length (token :: tokens) s js marks
      ↔ ∃ s', TakesLiteral source token s s' ∧ Follows source length tokens s' js marks := by
  constructor
  · intro h
    cases h with
    | literal _ _ ht h => exact ⟨_, ht, h⟩
    | _ => simp_all [Token.isMeta, Kind.isMeta]
  · rintro ⟨s', ht, h⟩
    exact .literal hm hk ht h

end Inversion

/-! ### Landings determine the way -/

theorem DepthsAgree.unique {known : Option Int} {candidate token : Token} {d d' : Int}
    (h : DepthsAgree known candidate token d) (h' : DepthsAgree known candidate token d') :
    d = d' := by
  have h1 := h.1
  have h2 := h'.1
  omega

theorem TakesLiteral.unique {source : List Token} {token : Token} {s s₁ s₂ : Standing}
    (h₁ : TakesLiteral source token s s₁) (h₂ : TakesLiteral source token s s₂) : s₁ = s₂ := by
  obtain ⟨candidate, shift, hc, -, -, hd, rfl⟩ := h₁
  obtain ⟨candidate', shift', hc', -, -, hd', rfl⟩ := h₂
  obtain rfl := Option.some.inj (hc.symm.trans hc')
  rw [hd.unique hd']

theorem TakesFragment.unique {source : List Token} {token : Token} {s s₁ s₂ : Standing}
    (h₁ : TakesFragment source token s s₁) (h₂ : TakesFragment source token s s₂) : s₁ = s₂ := by
  obtain ⟨candidate, shift, hc, -, -, hd, rfl⟩ := h₁
  obtain ⟨candidate', shift', hc', -, -, hd', rfl⟩ := h₂
  obtain rfl := Option.some.inj (hc.symm.trans hc')
  suffices shift = shift' by rw [this]
  rw [FragmentShift] at hd hd'
  split at hd
  · rw [if_pos ‹_›] at hd'
    obtain ⟨d, hd, rfl⟩ := hd
    obtain ⟨d', hd', rfl⟩ := hd'
    rw [hd.unique hd']
  · rw [if_neg ‹_›] at hd'
    rw [hd, hd']

/-- The landings determine the offsets that are recorded. -/
theorem Follows.marks_unique {source : List Token} {length : Int} {tokens : List Token}
    {s : Standing} {js : List Nat} {marks marks' : Marks}
    (h : Follows source length tokens s js marks)
    (h' : Follows source length tokens s js marks') : marks = marks' := by
  induction h with
  | done s => exact (follows_nil.mp h').2.symm
  | comment hk _ ih => exact ih ((follows_comment hk).mp h')
  | inserter hk _ ih => exact ih ((follows_inserter hk).mp h')
  | folder hk _ ih => exact ih ((follows_folder hk).mp h')
  | trailing hk _ ht _ ih => exact ih ((follows_trailing hk ht).mp h').2
  | wildcard hk _ ht _ _ ih =>
    obtain ⟨-, j, rest, heq, -, h'⟩ := (follows_wildcard hk ht).mp h'
    obtain ⟨rfl, rfl⟩ := List.cons.inj heq
    exact ih h'
  | fragment hk ht _ ih =>
    obtain ⟨s', ht', h'⟩ := (follows_fragment hk).mp h'
    obtain rfl := ht.unique ht'
    exact ih h'
  | literal hm hk ht _ ih =>
    obtain ⟨s', ht', h'⟩ := (follows_literal hm hk).mp h'
    obtain rfl := ht.unique ht'
    exact ih h'

/-- What is recorded at the end as the place of insertion is nothing only if no marker
asks for one. -/
theorem Follows.insertion_eq_none_iff {source : List Token} {length : Int} {tokens : List Token}
    {s : Standing} {js : List Nat} {marks : Marks} (h : Follows source length tokens s js marks) :
    marks.insertion = none
      ↔ s.marks.insertion = none ∧ ∀ token ∈ tokens, token.kind ≠ .inserter := by
  induction h with
  | done s => simp
  | comment hk _ ih => simp [ih, hk]
  | inserter hk _ ih => simp [ih, hk, Standing.inserted]
  | folder hk _ ih => simp [ih, hk, Standing.folded]
  | trailing hk _ _ _ ih => simp [ih, hk]
  | wildcard hk _ _ _ _ ih => simp [ih, hk]
  | fragment hk ht _ ih =>
    obtain ⟨candidate, shift, -, -, -, -, rfl⟩ := ht
    rw [ih, Standing.behind]
    split <;> simp [hk]
  | literal hm hk ht _ ih =>
    obtain ⟨candidate, shift, -, -, -, -, rfl⟩ := ht
    rename_i token _ _ _ _ _
    have hins : token.kind ≠ .inserter := by
      rintro h
      simp [Token.isMeta, Kind.isMeta, h] at hm
    simp [ih, hins]

/-- Each literal of the pattern takes a source token with its text. -/
theorem Follows.occurs {source : List Token} {length : Int} {tokens : List Token}
    {s : Standing} {js : List Nat} {marks : Marks} (h : Follows source length tokens s js marks)
    {token : Token} (hmem : token ∈ tokens) (hm : token.isMeta = false)
    (hk : token.kind ≠ .stringFragment) : ∃ candidate ∈ source, candidate.text = token.text := by
  induction h with
  | done s => simp at hmem
  | literal _ _ ht _ ih =>
    rcases List.mem_cons.mp hmem with rfl | hmem
    · obtain ⟨candidate, shift, hc, -, htext, -, -⟩ := ht
      exact ⟨candidate, List.mem_of_getElem? hc, htext⟩
    · exact ih hmem
  | fragment hk' _ _ ih =>
    rcases List.mem_cons.mp hmem with rfl | hmem
    · exact absurd hk' hk
    · exact ih hmem
  | comment hk' _ ih | inserter hk' _ ih | folder hk' _ ih | trailing hk' _ _ _ ih
  | wildcard hk' _ _ _ _ ih =>
    rcases List.mem_cons.mp hmem with rfl | hmem
    · simp [Token.isMeta, Kind.isMeta, hk'] at hm
    · exact ih hmem

/-! ### Cursors -/

section Cursors

variable {source : List Token} {length : Int} {s : Standing}

theorem cursor_rest_nil (h : source[s.index]? = none) : (s.cursor source).rest = [] :=
  List.drop_eq_nil_of_le (List.getElem?_eq_none_iff.mp h)

theorem cursor_rest_cons {candidate : Token} (h : source[s.index]? = some candidate) :
    (s.cursor source).rest = candidate :: source.drop (s.index + 1) := by
  obtain ⟨hi, rfl⟩ := List.getElem?_eq_some_iff.mp h
  exact List.drop_eq_getElem_cons hi

theorem cursor_end :
    { s.cursor source with rest := [] }
      = Standing.cursor source { s with index := source.length } := by
  simp [Standing.cursor]

theorem offset_cursor : (s.cursor source).offset length = s.offset source length := by
  rw [Cursor.offset, Standing.offset]
  cases h : source[s.index]? with
  | none => rw [cursor_rest_nil h]
  | some candidate => rw [cursor_rest_cons h]; rfl

theorem markInsertion_cursor :
    (s.cursor source).markInsertion length = (s.inserted source length).cursor source := by
  rw [Cursor.markInsertion, offset_cursor]
  rfl

theorem markDeletion_cursor :
    (s.cursor source).markDeletion length = (s.folded source length).cursor source := by
  rw [Cursor.markDeletion, offset_cursor]
  rfl

theorem agree?_eq_some {known : Option Int} {candidate token : Token} {shift : Int} :
    agree? known candidate token = some shift ↔ DepthsAgree known candidate token shift := by
  cases known with
  | none => simp only [agree?, DepthsAgree, Option.some.injEq]; constructor <;> grind
  | some k => simp only [agree?, DepthsAgree]; constructor <;> grind

theorem takeLiteral?_cursor {token : Token} {moved : Cursor} :
    (s.cursor source).takeLiteral? token = some moved
      ↔ ∃ s', TakesLiteral source token s s' ∧ moved = s'.cursor source := by
  rw [Cursor.takeLiteral?]
  cases h : source[s.index]? with
  | none => simp [cursor_rest_nil h, TakesLiteral, h]
  | some candidate =>
    rw [cursor_rest_cons h]
    dsimp only
    by_cases ht : (s.cursor source).taken ≠ 0 ∨ candidate.text ≠ token.text
    · rw [if_pos ht]
      constructor
      · intro hc
        exact absurd hc (by simp)
      · rintro ⟨s', ⟨candidate', shift, hc, h0, htext, -, -⟩, -⟩
        obtain rfl := Option.some.inj (h.symm.trans hc)
        exact (ht.elim (· h0) (· htext)).elim
    · rw [if_neg ht, Option.map_eq_some_iff]
      obtain ⟨h0, htext⟩ : s.taken = 0 ∧ candidate.text = token.text := by
        simpa [Standing.cursor] using ht
      constructor
      · rintro ⟨shift, ha, rfl⟩
        exact ⟨_, ⟨candidate, shift, h, h0, htext, agree?_eq_some.mp ha, rfl⟩, rfl⟩
      · rintro ⟨s', ⟨candidate', shift, hc, -, -, ha, rfl⟩, rfl⟩
        obtain rfl := Option.some.inj (h.symm.trans hc)
        exact ⟨shift, agree?_eq_some.mpr ha, rfl⟩

theorem fragmentShift_iff {candidate token : Token} {shift : Option Int} :
    (if s.taken = 0 then (agree? s.shift candidate token).map some else some s.shift) = some shift
      ↔ FragmentShift s candidate token shift := by
  rw [FragmentShift]
  by_cases h0 : s.taken = 0
  · rw [if_pos h0, if_pos h0, Option.map_eq_some_iff]
    constructor
    · rintro ⟨d, hd, rfl⟩
      exact ⟨d, agree?_eq_some.mp hd, rfl⟩
    · rintro ⟨d, hd, rfl⟩
      exact ⟨d, agree?_eq_some.mpr hd, rfl⟩
  · rw [if_neg h0, if_neg h0, Option.some.injEq]
    exact eq_comm

theorem cursor_behind {candidate token : Token} {shift : Option Int}
    (h : source[s.index]? = some candidate) :
    (s.behind candidate token shift).cursor source
      = if candidate.text.length ≤ s.taken + token.text.length then
          ⟨source.drop (s.index + 1), 0, s.marks, shift⟩
        else
          ⟨candidate :: source.drop (s.index + 1), s.taken + token.text.length, s.marks,
            shift⟩ := by
  rw [Standing.behind]
  split
  · rfl
  · rw [← cursor_rest_cons h]
    rfl

theorem takeFragment?_cursor {token : Token} {moved : Cursor} :
    (s.cursor source).takeFragment? token = some moved
      ↔ ∃ s', TakesFragment source token s s' ∧ moved = s'.cursor source := by
  rw [Cursor.takeFragment?]
  cases h : source[s.index]? with
  | none => simp [cursor_rest_nil h, TakesFragment, h]
  | some candidate =>
    rw [cursor_rest_cons h]
    dsimp only
    by_cases ht : candidate.kind ≠ .stringLiteral
        ∨ ¬ token.text.isPrefixOf (candidate.text.drop (s.cursor source).taken)
    · rw [if_pos ht]
      constructor
      · intro hc
        exact absurd hc (by simp)
      · rintro ⟨s', ⟨candidate', shift, hc, hkind, hpre, -, -⟩, -⟩
        obtain rfl := Option.some.inj (h.symm.trans hc)
        exact (ht.elim (· hkind) (· (List.isPrefixOf_iff_prefix.mpr hpre))).elim
    · rw [if_neg ht, Option.map_eq_some_iff]
      obtain ⟨hkind, hpre⟩ : candidate.kind = .stringLiteral
          ∧ token.text <+: candidate.text.drop s.taken := by
        simpa [Standing.cursor] using ht
      constructor
      · rintro ⟨shift, hs, rfl⟩
        exact ⟨_, ⟨candidate, shift, h, hkind, hpre, fragmentShift_iff.mp hs, rfl⟩,
          (cursor_behind h).symm⟩
      · rintro ⟨s', ⟨candidate', shift, hc, -, -, hs, rfl⟩, rfl⟩
        obtain rfl := Option.some.inj (h.symm.trans hc)
        exact ⟨shift, fragmentShift_iff.mpr hs, (cursor_behind h).symm⟩

end Cursors

/-! ### Landings -/

section Landings

variable {source : List Token} {shift : Option Int} {wildcard target candidate : Token}
  {i j : Nat}

theorem canStart_iff : canStart target candidate = true ↔ Starts target candidate := by
  rw [canStart, Starts]
  split
  · rw [Bool.and_eq_true, beq_iff_eq, List.isPrefixOf_iff_prefix]
  · exact beq_iff_eq

theorem depthFits_iff : depthFits shift target candidate = true
    ↔ ∀ s, shift = some s → candidate.depth = target.depth + s := by
  cases shift <;> simp [depthFits]

theorem endsScope_iff : endsScope shift wildcard candidate = true
    ↔ ∃ s, shift = some s ∧ Closes (wildcard.depth + s) candidate := by
  cases shift <;> simp [endsScope, closesScope, Closes, and_assoc]

/-- Landing where the wildcard is met takes no more than a token that fits. -/
theorem lands_here (h : source[i]? = some candidate) :
    Lands source shift wildcard target i i
      ↔ (canStart target candidate && depthFits shift target candidate) = true := by
  rw [Bool.and_eq_true, canStart_iff, depthFits_iff]
  constructor
  · rintro ⟨-, ⟨candidate', hc, hfit⟩, -⟩
    obtain rfl := Option.some.inj (h.symm.trans hc)
    exact hfit
  · intro hfit
    exact ⟨Nat.le_refl i, ⟨candidate, h, hfit⟩, fun _ _ k _ h1 h2 => absurd h2 (by omega)⟩

/-- Landing further on is landing from the next token on, if the scope goes on there. -/
theorem lands_further (h : source[i]? = some candidate) (hij : i ≠ j) :
    Lands source shift wildcard target i j
      ↔ endsScope shift wildcard candidate = false
        ∧ Lands source shift wildcard target (i + 1) j := by
  rw [← Bool.not_eq_true, endsScope_iff]
  constructor
  · rintro ⟨hle, hl, hw⟩
    refine ⟨?_, by omega, hl, fun s hs k token h1 => hw s hs k token (by omega)⟩
    rintro ⟨s, hs, hclose⟩
    exact hw s hs i candidate (Nat.le_refl i) (by omega) h hclose
  · rintro ⟨hopen, hle, hl, hw⟩
    refine ⟨by omega, hl, fun s hs k token h1 h2 hk hclose => ?_⟩
    rcases Nat.eq_or_lt_of_le h1 with rfl | h1
    · obtain rfl := Option.some.inj (h.symm.trans hk)
      exact hopen ⟨s, hs, hclose⟩
    · exact hw s hs k token h1 h2 hk hclose

theorem not_lands_of_length_le (h : source.length ≤ i) :
    ¬ Lands source shift wildcard target i j := by
  rintro ⟨hle, ⟨candidate, hc, -⟩, -⟩
  obtain ⟨hj, -⟩ := List.getElem?_eq_some_iff.mp hc
  omega

/-- The token at the cursor is a landing of its own, whatever comes behind it. -/
theorem exists_landing_here (h : source[i]? = some candidate) :
    ∃ here : List Nat,
      (if canStart target candidate && depthFits shift target candidate then [source.drop i]
          else []) = here.map (source.drop ·)
        ∧ here.Pairwise (· < ·)
        ∧ ∀ j, j ∈ here ↔ j = i ∧ Lands source shift wildcard target i i := by
  rw [lands_here h]
  by_cases hfit : (canStart target candidate && depthFits shift target candidate) = true
  · exact ⟨[i], by rw [if_pos hfit]; rfl, List.pairwise_singleton _ _, fun j => by simp [hfit]⟩
  · exact ⟨[], by rw [if_neg hfit]; rfl, .nil, fun j => by simp [hfit]⟩

/-- The places that a wildcard tries are exactly those where it may land, the nearest
first. -/
theorem landings_drop (source : List Token) (shift : Option Int) (wildcard target : Token)
    (i : Nat) : ∃ js : List Nat,
      landings shift wildcard target (source.drop i) = js.map (source.drop ·)
        ∧ js.Pairwise (· < ·) ∧ ∀ j, j ∈ js ↔ Lands source shift wildcard target i j := by
  -- by induction on how much of the source is left
  induction hn : source.length - i generalizing i with
  | zero =>
    refine ⟨[], ?_, List.Pairwise.nil, fun j => ?_⟩
    · rw [List.drop_eq_nil_of_le (by omega)]
      rfl
    · exact ⟨fun h => by simp at h, fun h => absurd h (not_lands_of_length_le (by omega))⟩
  | succ n ih =>
    have hi : i < source.length := by omega
    have hget : source[i]? = some source[i] := List.getElem?_eq_getElem hi
    obtain ⟨js, hjs, hsorted, hmem⟩ := ih (i + 1) (by omega)
    obtain ⟨here, hhere, hsorted', hmem'⟩ := @exists_landing_here source shift wildcard
      target source[i] i hget
    rw [List.drop_eq_getElem_cons hi, landings, ← List.drop_eq_getElem_cons hi, hhere]
    by_cases hend : endsScope shift wildcard source[i] = true
    · -- nothing behind the end of the scope is tried
      rw [if_pos hend]
      refine ⟨here, rfl, hsorted', fun j => ?_⟩
      rw [hmem']
      by_cases hij : i = j
      · simp [hij]
      · simp [lands_further hget hij, hend, Ne.symm hij]
    · rw [if_neg hend, hjs, ← List.map_append]
      refine ⟨here ++ js, rfl, ?_, fun j => ?_⟩
      · refine List.pairwise_append.mpr ⟨hsorted', hsorted, fun a ha b hb => ?_⟩
        have ha := ((hmem' a).mp ha).1
        have hb := ((hmem b).mp hb).ahead
        omega
      · rw [List.mem_append, hmem', hmem]
        by_cases hij : i = j
        · have hpast : ¬ Lands source shift wildcard target (i + 1) i :=
            fun h => absurd h.ahead (by omega)
          simp [← hij, hpast]
        · simp [lands_further hget hij, hend, Ne.symm hij]

end Landings

end Graft.Search
