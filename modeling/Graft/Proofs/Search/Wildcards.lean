/-
Wildcards in a row.

Where a wildcard lands its target can come next, so a second wildcard behind it has nothing to
skip: it may stay.  It may also go on, in the same scope, but only to places that the first one
tries anyway, and later.  So the first place from which the rest of the pattern matches is the
same with one wildcard as with two:

* `landings_congr` — of a wildcard only its depth counts;
* `findSome?_landings` — the exchange: landing twice finds what landing once finds;
* `alike_adjacent` — two wildcards at the same depth;
* `depth_of_nested` — wildcards with only comments between them have the same depth;
* `find_adjacent` — a whole search.
-/
import Graft.Proofs.Search.Anchoring
import Graft.Proofs.Search.Comments
import Graft.Proofs.Search.Scope

namespace Graft.Search

/-! ### Landing twice -/

section Landings

variable {shift : Option Int} {first second target : Token}

/-- A wildcard lands where another one at its depth lands. -/
theorem landings_congr (hdepth : second.depth = first.depth) (rest : List Token) :
    landings shift second target rest = landings shift first target rest := by
  induction rest with
  | nil => rfl
  | cons candidate rest ih =>
    have hends : endsScope shift second candidate = endsScope shift first candidate := by
      simp only [endsScope, hdepth]
    rw [landings, landings, hends, ih]

/-- Landing a second time from the places where a wildcard lands finds what landing once
finds. -/
theorem findSome?_landings {α : Type} (f : List Token → Option α) (rest : List Token) :
    (landings shift first target rest).findSome?
        (fun place => (landings shift first target place).findSome? f)
      = (landings shift first target rest).findSome? f := by
  induction rest with
  | nil => rfl
  | cons candidate rest ih =>
    by_cases hhere : (canStart target candidate && depthFits shift target candidate) = true
    · by_cases hends : endsScope shift first candidate = true
      · -- only here
        have hplaces : landings shift first target (candidate :: rest) = [candidate :: rest] := by
          simp only [landings, if_pos hhere, if_pos hends]
        simp only [hplaces, List.findSome?_singleton]
      · -- here or further on: the second wildcard tries all of it from here
        have hplaces : landings shift first target (candidate :: rest)
            = (candidate :: rest) :: landings shift first target rest := by
          simp only [landings, if_pos hhere, if_neg hends, List.singleton_append]
        rw [hplaces, List.findSome?_cons, hplaces, ih]
        cases hfound : ((candidate :: rest) :: landings shift first target rest).findSome? f with
        | some marks => rfl
        | none =>
          rw [List.findSome?_cons] at hfound
          cases hf : f (candidate :: rest) with
          | some marks => simp [hf] at hfound
          | none => simpa [hf] using hfound
    · by_cases hends : endsScope shift first candidate = true
      · simp only [landings, if_neg hhere, if_pos hends, List.findSome?_nil]
      · have hplaces : landings shift first target (candidate :: rest)
            = landings shift first target rest := by
          simp only [landings, if_neg hhere, if_neg hends, List.nil_append]
        rw [hplaces, ih]

end Landings

/-! ### Two wildcards -/

section Alike

variable {length : Int} {first second : Token} {comments after : List Token}

/-- Of two wildcards in a row at the same depth the second one may be left out. -/
theorem alike_adjacent (hfirst : first.kind = .wildcard) (hsecond : second.kind = .wildcard)
    (hdepth : second.depth = first.depth) (after : List Token) :
    Alike length (first :: second :: after) (first :: after) := by
  have hmeta : first.isMeta = true := congrArg Kind.isMeta hfirst
  have htarget : nextTarget? (second :: after) = nextTarget? after :=
    nextTarget?_cons_meta (congrArg Kind.isMeta hsecond)
  refine ⟨?_, fun cursor => ?_⟩
  · rw [nextTarget?_cons_meta hmeta, htarget, nextTarget?_cons_meta hmeta]
  · by_cases htaken : cursor.taken = 0
    · cases ht : nextTarget? after with
      | none => simp [outcome, hfirst, hsecond, htarget, ht, htaken]
      | some target =>
        simp only [outcome, hfirst, hsecond, htarget, ht, htaken, landings_congr hdepth]
        exact findSome?_landings _ _
    · simp only [outcome, hfirst, if_pos htaken]

theorem alike_comments (hcomments : ∀ token ∈ comments, token.kind = .comment)
    (after : List Token) : Alike length (comments ++ after) after := by
  induction comments with
  | nil => exact .refl after
  | cons token comments ih =>
    exact (alike_comment (hcomments token (by simp)) _).trans
      (ih fun token htoken => hcomments token (by simp [htoken]))

/-- Comments may stand between the two. -/
theorem alike_adjacent_comments (hfirst : first.kind = .wildcard)
    (hsecond : second.kind = .wildcard) (hdepth : second.depth = first.depth)
    (hcomments : ∀ token ∈ comments, token.kind = .comment) (before after : List Token) :
    Alike length (before ++ first :: (comments ++ second :: after))
      (before ++ first :: (comments ++ after)) := by
  refine Alike.append ?_ before
  have hboth : Alike length (first :: (comments ++ second :: after)) (first :: second :: after) :=
    (alike_comments hcomments (second :: after)).cons first
  have hone : Alike length (first :: (comments ++ after)) (first :: after) :=
    (alike_comments hcomments after).cons first
  exact (hboth.trans (alike_adjacent hfirst hsecond hdepth after)).trans hone.symm

end Alike

/-! ### Depths -/

/-- Comments do not change the depth. -/
theorem depth_of_nested {second : Token} {after : List Token} (comments : List Token) :
    ∀ first : Token, first.isMeta = true → (∀ token ∈ comments, token.isMeta = true) →
      Nested (first :: (comments ++ second :: after)) → second.depth = first.depth := by
  induction comments with
  | nil =>
    intro first hfirst _ hnested
    rw [hnested.head rfl, lift_of_isMeta hfirst, Int.add_zero]
  | cons token comments ih =>
    intro first hfirst hmeta hnested
    have hnext : token.depth = first.depth := by
      rw [hnested.head rfl, lift_of_isMeta hfirst, Int.add_zero]
    rw [← hnext]
    exact ih token (hmeta token (by simp)) (fun t ht => hmeta t (by simp [ht])) hnested.tail

/-! ### The whole search -/

section Find

variable {settings : Settings} {source : List Token} {length : Int} {snippet : Text}
  {before comments after : List Token} {first second : Token}
  {effort spent effort' spent' : Effort} {result result' : Except Fault Match}

/-- The shapes that need no search have one wildcard. -/
theorem wildcardCount_of_shape {pattern : Pattern}
    (h : pattern.isReplaceAll = true ∨ pattern.isAppend = true) : pattern.wildcardCount = 1 := by
  unfold Pattern.wildcardCount
  rcases h with h | h
  · rw [beq_iff_eq.mp h]
    rfl
  · rw [beq_iff_eq.mp h]
    rfl

/-- **Wildcards in a row count as one.**  If nothing but comments stands between two wildcards of
a snippet, its pattern is found as it is found without the second one, unless that is a shape
that needs no search or a search exceeds its ceilings. -/
theorem find_adjacent
    (hpattern : (Pattern.ofText snippet).tokens
      = before ++ first :: (comments ++ second :: after))
    (hfirst : first.kind = .wildcard) (hsecond : second.kind = .wildcard)
    (hcomments : ∀ token ∈ comments, token.kind = .comment)
    (hall : Pattern.isReplaceAll ⟨before ++ first :: (comments ++ after)⟩ = false)
    (happ : Pattern.isAppend ⟨before ++ first :: (comments ++ after)⟩ = false)
    (hrun : find settings source length (.ofText snippet) effort = (result, spent))
    (hrun' : find settings source length ⟨before ++ first :: (comments ++ after)⟩ effort'
      = (result', spent'))
    (hlimit : ∀ limit ceiling, result ≠ .error (.overCeiling limit ceiling))
    (hlimit' : ∀ limit ceiling, result' ≠ .error (.overCeiling limit ceiling)) :
    result = result' := by
  have hmeta : second.isMeta = true := congrArg Kind.isMeta hsecond
  have hdepth : second.depth = first.depth := by
    have hnested := (lexed_pattern snippet).nested
    rw [hpattern] at hnested
    exact depth_of_nested comments first (congrArg Kind.isMeta hfirst)
      (fun token htoken => congrArg Kind.isMeta (hcomments token htoken))
      (hnested.of_append before)
  -- a pattern with two wildcards is no shape
  have hshape : ¬ ((Pattern.ofText snippet).isReplaceAll = true
      ∨ (Pattern.ofText snippet).isAppend = true) := by
    intro h
    have hcount := wildcardCount_of_shape h
    rw [Pattern.wildcardCount, Pattern.kinds, hpattern] at hcount
    simp only [List.map_append, List.map_cons, List.count_append, hfirst, hsecond,
      List.count_cons_self] at hcount
    omega
  simp only [not_or, Bool.not_eq_true] at hshape
  have hwithin := not_lt_of_within hrun hshape.1 hshape.2 hlimit
  have hwithin' := not_lt_of_within hrun' hall happ hlimit'
  have hliterals : (Pattern.ofText snippet).literals
      = Pattern.literals ⟨before ++ first :: (comments ++ after)⟩ := by
    simp [Pattern.literals, hpattern, List.filter_cons, hmeta]
  have halike : Alike length (Pattern.ofText snippet).tokens
      (before ++ first :: (comments ++ after)) := by
    rw [hpattern]
    exact alike_adjacent_comments hfirst hsecond hdepth hcomments before after
  exact find_alike hrun hrun' hshape.1 hshape.2 hall happ (iff_of_false hwithin hwithin')
    hliterals halike (hlimit _ _) (hlimit' _ _)

end Find

/-- The pattern `.../**/a>>>,`. -/
def rowPattern : Pattern :=
  ⟨[⟨.wildcard, ['.', '.', '.'], 0, none⟩, ⟨.comment, ['/', '*', '*', '/'], 0, none⟩,
    ⟨.identifier, ['a'], 0, none⟩, ⟨.inserter, ['>', '>', '>'], 0, none⟩,
    ⟨.symbol, [','], 0, none⟩]⟩

/-- With relative depths the first `a` is tried, and from there on the second one. -/
theorem find_adjacent_row :
    find { relativeDepth := .bool true } twiceTokens 6 (.ofText ".../**/...a>>>,".toList) {}
        = (.ok ⟨5, none⟩, ⟨12, 3⟩)
      ∧ find { relativeDepth := .bool true } twiceTokens 6 rowPattern {}
        = (.ok ⟨5, none⟩, ⟨11, 2⟩)
      ∧ (find { relativeDepth := .bool true } twiceTokens 6 (.ofText ".../**/...a>>>,".toList) {}).1
        = (find { relativeDepth := .bool true } twiceTokens 6 rowPattern {}).1 := by
  have hpattern : (Pattern.ofText ".../**/...a>>>,".toList).tokens
      = [] ++ ⟨.wildcard, ['.', '.', '.'], 0, none⟩
        :: ([⟨.comment, ['/', '*', '*', '/'], 0, none⟩] ++ ⟨.wildcard, ['.', '.', '.'], 0, none⟩
          :: rowPattern.tokens.drop 2) := by decide +kernel
  have hrun : find { relativeDepth := .bool true } twiceTokens 6
      ⟨(Pattern.ofText ".../**/...a>>>,".toList).tokens⟩ {} = (.ok ⟨5, none⟩, ⟨12, 3⟩) := by
    rw [hpattern]
    rfl
  have hrun' : find { relativeDepth := .bool true } twiceTokens 6 rowPattern {}
      = (.ok ⟨5, none⟩, ⟨11, 2⟩) := rfl
  have hsame := find_adjacent hpattern rfl rfl (by simp) rfl rfl hrun hrun' (by simp) (by simp)
  exact ⟨hrun, hrun', (congrArg Prod.fst hrun).trans (hsame.trans (congrArg Prod.fst hrun').symm)⟩

end Graft.Search
