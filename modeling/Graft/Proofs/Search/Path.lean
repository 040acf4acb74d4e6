/-
The way of a search that succeeds.

A search that finds a pattern has moved over its tokens one by one, and from every place
on the way it finds what is left of the pattern.  What one move keeps, the whole way
keeps:

* `Moves` — one token of the pattern is moved over;
* `Passes` — several tokens are, one after the other;
* `search_moves`, `search_passes` — the way of a search that succeeds;
* `Passes.preserves` — from one move to the whole way.
-/
import Graft.Proofs.Search.Exactness

namespace Graft.Search

/-- The pattern token, behind which `tokens` are left, is moved over from one place to
another. -/
inductive Moves (source : List Token) (length : Int) (token : Token) (tokens : List Token)
    (s : Standing) : Standing → Prop where
  | comment (hk : token.kind = .comment) : Moves source length token tokens s s
  | inserter (hk : token.kind = .inserter) :
      Moves source length token tokens s (s.inserted source length)
  | folder (hk : token.kind = .folder) :
      Moves source length token tokens s (s.folded source length)
  | trailing (hk : token.kind = .wildcard) (h0 : s.taken = 0) (ht : nextTarget? tokens = none) :
      Moves source length token tokens s { s with index := source.length }
  | wildcard {target : Token} {j : Nat} (hk : token.kind = .wildcard) (h0 : s.taken = 0)
      (ht : nextTarget? tokens = some target)
      (hl : Lands source s.shift token target s.index j) :
      Moves source length token tokens s { s with index := j }
  | fragment {s' : Standing} (hk : token.kind = .stringFragment)
      (ht : TakesFragment source token s s') : Moves source length token tokens s s'
  | literal {s' : Standing} (hm : token.isMeta = false) (hk : token.kind ≠ .stringFragment)
      (ht : TakesLiteral source token s s') : Moves source length token tokens s s'

/-- Pattern tokens, behind which `ahead` are left, are moved over one after the other. -/
inductive Passes (source : List Token) (length : Int) (ahead : List Token) :
    List Token → Standing → Standing → Prop where
  | nil {s : Standing} : Passes source length ahead [] s s
  | cons {token : Token} {tokens : List Token} {s s' s'' : Standing}
      (h : Moves source length token (tokens ++ ahead) s s')
      (hrest : Passes source length ahead tokens s' s'') :
      Passes source length ahead (token :: tokens) s s''

section Way

variable {source : List Token} {length ceiling : Int} {token : Token} {tokens : List Token}
  {s s' : Standing} {marks : Marks} {effort : Effort}

/-- What every move keeps is kept on the whole way.  It may speak of the tokens that are
still ahead. -/
theorem Passes.preserves {P : List Token → Standing → Prop} {before after : List Token}
    (hstep : ∀ {token tokens s s'}, Moves source length token tokens s s' →
      P (token :: tokens) s → P tokens s')
    (h : Passes source length after before s s') (hs : P (before ++ after) s) : P after s' := by
  induction h with
  | nil => exact hs
  | cons hmove _ ih => exact ih (hstep hmove hs)

theorem passes_append {before : List Token} {ahead : List Token} : ∀ {s : Standing},
    Passes source length ahead (before ++ tokens) s s' →
      ∃ s₁, Passes source length (tokens ++ ahead) before s s₁
        ∧ Passes source length ahead tokens s₁ s' := by
  induction before with
  | nil =>
    intro s h
    exact ⟨s, .nil, h⟩
  | cons token before ih =>
    intro s h
    rw [List.cons_append] at h
    cases h with
    | cons hmove hrest =>
      obtain ⟨s₁, hbefore, htokens⟩ := ih hrest
      rw [List.append_assoc] at hmove
      exact ⟨s₁, .cons hmove hbefore, htokens⟩

/-- A wildcard that finds the rest of the pattern lands somewhere and finds it there. -/
theorem tryEach_lands {target : Token} {go : List Token → Effort → Verdict × Effort}
    (h : (tryEach ceiling go (landings s.shift token target (s.cursor source).rest) effort).1
      = .found marks) :
    ∃ j spent, Lands source s.shift token target s.index j
      ∧ (go (source.drop j) spent).1 = .found marks := by
  obtain ⟨js, hjs, -, hmem⟩ := landings_drop source s.shift token target s.index
  rw [show (s.cursor source).rest = source.drop s.index from rfl, hjs] at h
  obtain ⟨before, place, after, hplaces, -, spent, hfound⟩ := tryEach_found h
  have hplace : place ∈ js.map (source.drop ·) := by simp [hplaces]
  obtain ⟨j, hj, rfl⟩ := List.mem_map.mp hplace
  exact ⟨j, spent, (hmem j).mp hj, hfound⟩

/-- A search that succeeds moves over its first token and succeeds from there. -/
theorem search_moves
    (h : (search length ceiling (token :: tokens) (s.cursor source) effort).1 = .found marks) :
    ∃ s' spent, Moves source length token tokens s s'
      ∧ (search length ceiling tokens (s'.cursor source) spent).1 = .found marks := by
  rw [search] at h
  split at h
  · simp at h
  · cases hk : token.kind with
    | comment =>
      simp only [hk] at h
      exact ⟨s, _, .comment hk, h⟩
    | inserter =>
      simp only [hk, markInsertion_cursor] at h
      exact ⟨_, _, .inserter hk, h⟩
    | folder =>
      simp only [hk, markDeletion_cursor] at h
      exact ⟨_, _, .folder hk, h⟩
    | wildcard =>
      simp only [hk] at h
      split at h
      · simp at h
      · rename_i htaken
        have h0 : s.taken = 0 := Decidable.not_not.mp htaken
        cases ht : nextTarget? tokens with
        | none =>
          simp only [ht, cursor_end] at h
          exact ⟨_, _, .trailing hk h0 ht, h⟩
        | some target =>
          simp only [ht] at h
          obtain ⟨j, spent, hl, hfound⟩ := tryEach_lands h
          exact ⟨_, spent, .wildcard hk h0 ht hl, hfound⟩
    | stringFragment =>
      simp only [hk] at h
      split at h
      · simp at h
      · rename_i moved hmoved
        obtain ⟨s', ht, rfl⟩ := takeFragment?_cursor.mp hmoved
        exact ⟨s', _, .fragment hk ht, h⟩
    | directive | stringLiteral | operator | identifier | number | bracket | symbol =>
      simp only [hk] at h
      split at h
      · simp at h
      · rename_i moved hmoved
        obtain ⟨s', ht, rfl⟩ := takeLiteral?_cursor.mp hmoved
        exact ⟨s', _, .literal (by rw [Token.isMeta, hk]; rfl) (by rw [hk]; simp) ht, h⟩

theorem search_passes {before after : List Token} : ∀ {s : Standing} {effort : Effort},
    (search length ceiling (before ++ after) (s.cursor source) effort).1 = .found marks →
    ∃ s' spent, Passes source length after before s s'
      ∧ (search length ceiling after (s'.cursor source) spent).1 = .found marks := by
  induction before with
  | nil =>
    intro s effort h
    exact ⟨s, effort, .nil, h⟩
  | cons token before ih =>
    intro s effort h
    obtain ⟨s', spent, hmove, h⟩ := search_moves h
    obtain ⟨s'', spent, hpasses, h⟩ := ih h
    exact ⟨s'', spent, .cons hmove hpasses, h⟩

end Way

/-! ### The whole search -/

section Find

variable {settings : Settings} {source : List Token} {length : Int} {pattern : Pattern}
  {effort : Effort} {found : Match}

theorem result_eq_ok {verdict : Verdict} (h : verdict.result settings = .ok found) :
    verdict = .found ⟨some found.insertion, found.deletion⟩ := by
  cases verdict with
  | found marks =>
    obtain ⟨insertion, deletion⟩ := marks
    cases insertion with
    | none => simp [Verdict.result] at h
    | some offset =>
      obtain rfl := Except.ok.inj h
      rfl
  | deadEnd | cutOff => simp [Verdict.result] at h

/-- A match of one of the two shapes that need no search, or at the end of a way over all
of the pattern. -/
theorem find_ok (h : (find settings source length pattern effort).1 = .ok found) :
    pattern.isReplaceAll = true ∧ found = ⟨0, some length⟩
      ∨ pattern.isAppend = true ∧ found = ⟨length, none⟩
      ∨ ∃ s, Passes source length [] pattern.tokens (.start settings) s
        ∧ s.marks = ⟨some found.insertion, found.deletion⟩ := by
  rw [find] at h
  split at h
  · rename_i hall
    exact .inl ⟨hall, (Except.ok.inj h).symm⟩
  · split at h
    · rename_i happend
      exact .inr (.inl ⟨happend, (Except.ok.inj h).symm⟩)
    · split at h
      · simp at h
      · split at h
        · simp at h
        · have hsearch : (search length settings.maxSteps.bound (pattern.tokens ++ [])
              ((Standing.start settings).cursor source) effort).1
                = .found ⟨some found.insertion, found.deletion⟩ := by
            rw [List.append_nil]
            exact result_eq_ok h
          obtain ⟨s, spent, hpasses, hend⟩ := search_passes hsearch
          exact .inr (.inr ⟨s, hpasses, Verdict.found.inj hend⟩)

end Find

end Graft.Search
