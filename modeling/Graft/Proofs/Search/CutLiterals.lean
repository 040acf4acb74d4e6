/-
Cut literals are matched as whole ones.

A literal of the pattern that is cut by markers is matched piece by piece.  Its pieces are
taken from one literal of the source all the same: a piece that ended in front of that
literal's end is followed by another one, and a closed literal does not go on behind its
quote.  So a pattern is found if and only if it is found with its literals whole:

* `Inside`, `passes_inside` — as long as pieces are left, the way stays inside one literal;
* `passes_cut`, `exists_passes_cut` — a way over the pieces is one over the whole literal;
* `lands_uncut` — a wildcard may land where the whole literal stands, too;
* `leads_uncut`, `succeeds_uncut`, `find_uncut` — the two patterns.
-/
import Graft.Proofs.Lexing.Cuts
import Graft.Proofs.Search.Placement
import Graft.Proofs.Search.Scope
import Graft.Proofs.Search.Ways

namespace Graft.Search

open Lexeme

/-! ### Inside one literal -/

/-- Source tokens as they are read: all are spelt, and only the last one may be a literal that
is not closed. -/
structure Literals (source : List Token) : Prop where
  spelt : ∀ token ∈ source, Spelt token
  last : ∀ {i token}, source[i]? = some token → token.kind = .stringLiteral →
    isClosedLiteral token.text = true ∨ i + 1 = source.length

theorem literals_builtinTokens (t : Text) : Literals (builtinTokens t) := by
  refine ⟨fun token => spelt_builtinTokens, fun {i token} h hkind => ?_⟩
  rw [builtinTokens_eq] at h ⊢
  exact closed_or_last h hkind

/-- From `start`, in front of the candidate, `done` is taken of it.  The first piece of the
literal, and it alone, compares depths. -/
structure Inside (candidate whole : Token) (start : Standing) (done : Text) (s : Standing) :
    Prop where
  index : s.index = start.index
  taken : s.taken = done.length
  within : done <+: candidate.text
  unknown : done = [] → s.shift = start.shift
  known : done ≠ [] → ∃ d, DepthsAgree start.shift candidate whole d ∧ s.shift = some d

section Inside

variable {source ahead rest tokens : List Token} {length d : Int}
  {candidate whole token : Token} {start s s₁ s' : Standing} {done x : Text}

theorem Moves.takesFragment (h : Moves source length token tokens s s')
    (hk : token.kind = .stringFragment) : TakesFragment source token s s' := by
  cases h with
  | fragment _ ht => exact ht
  | _ => simp_all

/-- A piece goes on where the pieces before it end. -/
theorem Inside.takes (h : Inside candidate whole start done s)
    (hget : source[start.index]? = some candidate)
    (ht : TakesFragment source ⟨.stringFragment, x, whole.depth, none⟩ s s') :
    done ++ x <+: candidate.text ∧ ∃ d, DepthsAgree start.shift candidate whole d
      ∧ s' = s.behind candidate ⟨.stringFragment, x, whole.depth, none⟩ (some d) := by
  obtain ⟨candidate', shift, hget', -, htext, hshift, rfl⟩ := ht
  rw [h.index] at hget'
  obtain rfl : candidate' = candidate := Option.some.inj (hget'.symm.trans hget)
  refine ⟨?_, ?_⟩
  · obtain ⟨rest, hrest⟩ := h.within
    rw [h.taken, ← hrest, List.drop_left] at htext
    rw [← hrest]
    exact (List.prefix_append_right_inj done).mpr htext
  · rw [FragmentShift, h.taken] at hshift
    by_cases hdone : done = []
    · rw [if_pos (by rw [hdone]; rfl)] at hshift
      obtain ⟨d, hagree, rfl⟩ := hshift
      rw [h.unknown hdone] at hagree
      exact ⟨d, hagree, rfl⟩
    · rw [if_neg (by simpa using hdone)] at hshift
      obtain ⟨d, hagree, hd⟩ := h.known hdone
      exact ⟨d, hagree, by rw [hshift, hd]⟩

theorem Inside.exists_takes (h : Inside candidate whole start done s)
    (hget : source[start.index]? = some candidate) (hkind : candidate.kind = .stringLiteral)
    (hagree : DepthsAgree start.shift candidate whole d) (hwithin : done ++ x <+: candidate.text) :
    TakesFragment source ⟨.stringFragment, x, whole.depth, none⟩ s
      (s.behind candidate ⟨.stringFragment, x, whole.depth, none⟩ (some d)) := by
  refine ⟨candidate, some d, by rw [h.index, hget], hkind, ?_, ?_, rfl⟩
  · obtain ⟨rest, hrest⟩ := hwithin
    rw [h.taken, ← hrest, List.append_assoc, List.drop_left]
    exact List.prefix_append _ _
  · rw [FragmentShift, h.taken]
    by_cases hdone : done = []
    · rw [if_pos (by rw [hdone]; rfl), h.unknown hdone]
      exact ⟨d, hagree, rfl⟩
    · rw [if_neg (by simpa using hdone)]
      obtain ⟨d', hagree', hd⟩ := h.known hdone
      rw [hd, hagree.unique hagree']

/-- A piece that leaves some of the candidate. -/
theorem Inside.behind (h : Inside candidate whole start done s) (hx : x ≠ [])
    (hagree : DepthsAgree start.shift candidate whole d) (hwithin : done ++ x <+: candidate.text)
    (hlt : (done ++ x).length < candidate.text.length) :
    Inside candidate whole start (done ++ x)
      (s.behind candidate ⟨.stringFragment, x, whole.depth, none⟩ (some d)) := by
  rw [List.length_append] at hlt
  rw [Standing.behind, if_neg (by rw [h.taken]; exact Nat.not_le.mpr hlt)]
  refine ⟨h.index, ?_, hwithin, fun hnil => ?_, fun _ => ⟨d, hagree, rfl⟩⟩
  · show s.taken + x.length = _
    rw [h.taken, List.length_append]
  · exact absurd hnil (List.append_ne_nil_of_right_ne_nil _ hx)

/-- A piece that leaves nothing of the candidate. -/
theorem Inside.behind_end (h : Inside candidate whole start done s)
    (hend : done ++ x = candidate.text) (shift : Option Int) :
    s.behind candidate ⟨.stringFragment, x, whole.depth, none⟩ shift
      = { s with index := s.index + 1, taken := 0, shift := shift } := by
  have hlength : candidate.text.length = s.taken + x.length := by
    rw [← hend, List.length_append, h.taken]
  rw [Standing.behind, if_pos (Nat.le_of_eq hlength)]

theorem Inside.marker (h : Inside candidate whole start done s)
    (hmove : Moves source length token tokens s s')
    (hkind : token.kind = .inserter ∨ token.kind = .folder) :
    Inside candidate whole start done s' := by
  cases hmove with
  | inserter | folder => exact ⟨h.index, h.taken, h.within, h.unknown, h.known⟩
  | comment hk | trailing hk | wildcard hk | fragment hk => simp [hk] at hkind
  | literal hm =>
    rcases hkind with hkind | hkind <;> simp [Token.isMeta, Kind.isMeta, hkind] at hm

/-- Behind the last source token there is no way over the rest of a literal. -/
theorem not_passes_at_end {depth : Int} (hrest : CutRest depth rest) : ∀ {s : Standing},
    source.length ≤ s.index → ¬ Passes source length ahead rest s s' := by
  have hpiece : ∀ {x tokens s s₁}, source.length ≤ s.index →
      ¬ Moves source length ⟨.stringFragment, x, depth, none⟩ tokens s s₁ := by
    intro x tokens s s₁ hs hmove
    obtain ⟨candidate, shift, hget, -⟩ := hmove.takesFragment rfl
    rw [List.getElem?_eq_none hs] at hget
    simp at hget
  induction hrest with
  | last hx | piece hx =>
    intro s hs h
    cases h with
    | cons hmove _ => exact hpiece hs hmove
  | marker hkind hrest ih =>
    intro s hs h
    cases h with
    | cons hmove hpasses =>
      refine ih ?_ hpasses
      cases hmove with
      | comment | inserter | folder => exact hs
      | trailing | wildcard => simp_all
      | fragment hk => simp_all
      | literal hm => rcases hkind with rfl | rfl <;> simp [Token.isMeta, Kind.isMeta] at hm

/-- One token of a literal, behind which others are taken, does not lead out of the
candidate. -/
theorem Inside.step (hsource : Literals source) (hget : source[start.index]? = some candidate)
    (hkind : candidate.kind = .stringLiteral) (hclosed : isClosedLiteral whole.text = true)
    (h : Inside candidate whole start done s) (htext : done ++ pieces (token :: rest) = whole.text)
    (hcut : CutRest whole.depth (token :: rest)) (hne : rest ≠ [])
    (hmove : Moves source length token (rest ++ ahead) s s₁)
    (hpasses : Passes source length ahead rest s₁ s') :
    Inside candidate whole start (done ++ pieces [token]) s₁ := by
  have hrest := hcut.tail hne
  cases hcut with
  | last hx => exact absurd rfl hne
  | marker hmarker _ =>
    rw [pieces_cons_other (isPiece_marker hmarker ..), pieces_nil, List.append_nil]
    exact h.marker hmove hmarker
  | @piece x _ hx _ =>
    obtain ⟨hwithin, d, hagree, rfl⟩ := h.takes hget (hmove.takesFragment rfl)
    rw [pieces_cons_piece, pieces_nil, List.append_nil]
    by_cases hlt : (done ++ x).length < candidate.text.length
    · exact h.behind hx hagree hwithin hlt
    · -- otherwise the candidate ends here, and what is left of the literal has no place
      exfalso
      have heq : done ++ x = candidate.text := hwithin.eq_of_length_le (by omega)
      rw [pieces_cons_piece, ← List.append_assoc, heq] at htext
      rcases hsource.last hget hkind with hends | hlast
      · have hwhole := eq_of_closed_start hends hclosed ⟨_, htext⟩
        rw [← hwhole] at htext
        exact hrest.pieces_ne_nil (List.append_right_eq_self.mp htext)
      · refine not_passes_at_end hrest ?_ hpasses
        rw [h.behind_end heq]
        show source.length ≤ s.index + 1
        rw [h.index]
        omega

/-- As long as some of the literal is left, the way stays inside the candidate. -/
theorem passes_inside (hsource : Literals source) (hget : source[start.index]? = some candidate)
    (hkind : candidate.kind = .stringLiteral) (hclosed : isClosedLiteral whole.text = true)
    (hne : rest ≠ []) (hrest : Passes source length ahead rest s₁ s') {front : List Token} :
    ∀ {done : Text} {s : Standing}, Inside candidate whole start done s →
      done ++ pieces (front ++ rest) = whole.text → CutRest whole.depth (front ++ rest) →
      Passes source length (rest ++ ahead) front s s₁ →
      Inside candidate whole start (done ++ pieces front) s₁ := by
  induction front with
  | nil =>
    intro done s h _ _ hfront
    cases hfront
    rwa [pieces_nil, List.append_nil]
  | cons token front ih =>
    intro done s h htext hcut hfront
    have hne' : front ++ rest ≠ [] := List.append_ne_nil_of_right_ne_nil front hne
    have hpieces : ∀ tokens, done ++ pieces (token :: tokens)
        = done ++ pieces [token] ++ pieces tokens := by
      intro tokens
      rw [List.append_assoc, ← pieces_append, List.singleton_append]
    cases hfront with
    | cons hmove hfront =>
      rw [← List.append_assoc] at hmove
      have hstep := h.step hsource hget hkind hclosed htext hcut hne' hmove (hfront.append hrest)
      rw [hpieces]
      exact ih hstep (by rw [← hpieces]; exact htext) (hcut.tail hne') hfront

/-- What is left of a literal is taken from the candidate that goes on like it. -/
theorem Inside.exists_passes (hget : source[start.index]? = some candidate)
    (hkind : candidate.kind = .stringLiteral) (hagree : DepthsAgree start.shift candidate whole d)
    (hrest : CutRest whole.depth rest) : ∀ {done : Text} {s : Standing},
    Inside candidate whole start done s → candidate.text = done ++ pieces rest →
    ∃ s', Passes source length ahead rest s s' ∧ s'.index = start.index + 1 ∧ s'.taken = 0
      ∧ s'.shift = some d := by
  induction hrest with
  | @last x hx =>
    intro done s h htext
    rw [pieces_cons_piece, pieces_nil, List.append_nil] at htext
    have htakes := h.exists_takes hget hkind hagree ⟨[], by rw [List.append_nil, htext]⟩
    refine ⟨_, .cons (.fragment rfl htakes) .nil, ?_⟩
    rw [h.behind_end htext.symm]
    exact ⟨by show s.index + 1 = _; rw [h.index], rfl, rfl⟩
  | @piece x rest hx hrest ih =>
    intro done s h htext
    rw [pieces_cons_piece, ← List.append_assoc] at htext
    have hwithin : done ++ x <+: candidate.text := ⟨_, htext.symm⟩
    have hlt : (done ++ x).length < candidate.text.length := by
      have hleft := List.length_pos_iff.mpr hrest.pieces_ne_nil
      simp only [htext, List.length_append]
      omega
    have htakes := h.exists_takes hget hkind hagree hwithin
    obtain ⟨s', hpasses, hend⟩ := ih (h.behind hx hagree hwithin hlt) htext
    exact ⟨s', .cons (.fragment rfl htakes) hpasses, hend⟩
  | @marker kind rest hmarker hrest ih =>
    intro done s h htext
    rw [pieces_cons_other (isPiece_marker hmarker ..)] at htext
    obtain ⟨s₁, hmove⟩ : ∃ s₁, Moves source length ⟨kind, kind.marker, whole.depth, none⟩
        (rest ++ ahead) s s₁ := by
      rcases hmarker with rfl | rfl
      · exact ⟨_, .inserter rfl⟩
      · exact ⟨_, .folder rfl⟩
    obtain ⟨s', hpasses, hend⟩ := ih (h.marker hmove hmarker) htext
    exact ⟨s', .cons hmove hpasses, hend⟩

end Inside

/-! ### A cut literal and the whole one -/

section Cut

variable {source ahead cut : List Token} {length depth : Int} {s s' : Standing}

/-- A way over the pieces of a literal takes one source token, which is the literal, and is
inside it in between. -/
theorem passes_cut (hsource : Literals source) (hcut : CutLiteral depth cut) (h0 : s.taken = 0)
    (h : Passes source length ahead cut s s') :
    ∃ candidate d, source[s.index]? = some candidate ∧ candidate.kind = .stringLiteral
      ∧ candidate.text = pieces cut
      ∧ DepthsAgree s.shift candidate ⟨.stringLiteral, pieces cut, depth, none⟩ d
      ∧ (s'.index = s.index + 1 ∧ s'.taken = 0 ∧ s'.shift = some d)
      ∧ ∀ front rest s₁, cut = front ++ rest → rest ≠ [] →
        Passes source length (rest ++ ahead) front s s₁ → Passes source length ahead rest s₁ s' →
        s₁.index = s.index ∧ s₁.taken = (pieces front).length := by
  -- the first piece tells the candidate
  obtain ⟨candidate, hget, hkind⟩ : ∃ candidate, source[s.index]? = some candidate
      ∧ candidate.kind = .stringLiteral := by
    obtain ⟨x, rest, rfl⟩ := hcut.first
    cases h with
    | cons hmove _ =>
      obtain ⟨candidate, shift, hget, hkind, -⟩ := hmove.takesFragment rfl
      exact ⟨candidate, hget, hkind⟩
  have hstart : Inside candidate ⟨.stringLiteral, pieces cut, depth, none⟩ s [] s :=
    ⟨rfl, h0, List.nil_prefix, fun _ => rfl, fun hne => absurd rfl hne⟩
  have hinside : ∀ front rest s₁, cut = front ++ rest → rest ≠ [] →
      Passes source length (rest ++ ahead) front s s₁ → Passes source length ahead rest s₁ s' →
      Inside candidate ⟨.stringLiteral, pieces cut, depth, none⟩ s (pieces front) s₁ := by
    intro front rest s₁ hsplit hne hfront hrest
    refine passes_inside hsource hget hkind hcut.closed hne hrest hstart ?_ ?_ hfront
    · rw [List.nil_append, ← hsplit]
    · rw [← hsplit]
      exact hcut.rest
  -- the last piece takes what is left of it
  obtain ⟨front, x, hsplit⟩ := hcut.rest.exists_last
  obtain ⟨s₁, hfront, hlast⟩ := passes_append (hsplit ▸ h)
  have hs₁ := hinside front _ s₁ hsplit (by simp) hfront hlast
  cases hlast with
  | cons hmove hnil =>
    cases hnil
    obtain ⟨hwithin, d, hagree, rfl⟩ := hs₁.takes hget (hmove.takesFragment rfl)
    have hpieces : pieces front ++ x = pieces cut := by
      rw [hsplit, pieces_append, pieces_cons_piece, pieces_nil, List.append_nil]
    obtain ⟨rest, hspells⟩ := hsource.spelt candidate (List.mem_of_getElem? hget)
    have htext : pieces front ++ x = candidate.text := by
      rw [hpieces] at hwithin ⊢
      exact hspells.eq_of_closed_start hcut.closed hwithin
    refine ⟨candidate, d, hget, hkind, by rw [← htext, hpieces], hagree, ?_, ?_⟩
    · rw [hs₁.behind_end htext]
      exact ⟨by rw [← hs₁.index], rfl, rfl⟩
    · intro front rest s₁ hsplit hne hfront hrest
      have hs₁ := hinside front rest s₁ hsplit hne hfront hrest
      exact ⟨hs₁.index, hs₁.taken⟩

/-- A source token that is the whole literal is taken piece by piece. -/
theorem exists_passes_cut (hcut : CutLiteral depth cut) (h0 : s.taken = 0) {candidate : Token}
    {d : Int} (hget : source[s.index]? = some candidate) (hkind : candidate.kind = .stringLiteral)
    (htext : candidate.text = pieces cut)
    (hagree : DepthsAgree s.shift candidate ⟨.stringLiteral, pieces cut, depth, none⟩ d) :
    ∃ s', Passes source length ahead cut s s' ∧ s'.index = s.index + 1 ∧ s'.taken = 0
      ∧ s'.shift = some d := by
  have hstart : Inside candidate ⟨.stringLiteral, pieces cut, depth, none⟩ s [] s :=
    ⟨rfl, h0, List.nil_prefix, fun _ => rfl, fun hne => absurd rfl hne⟩
  exact hstart.exists_passes hget hkind hagree hcut.rest htext

/-- What reads like a closed literal is a literal. -/
theorem Literals.kind_of_closed (hsource : Literals source) {candidate : Token}
    (hmem : candidate ∈ source) (hclosed : isClosedLiteral candidate.text = true) :
    candidate.kind = .stringLiteral := by
  obtain ⟨rest, hspells⟩ := hsource.spelt candidate hmem
  obtain ⟨q, cs, htext⟩ := List.exists_cons_of_ne_nil hspells.ne_nil
  rw [htext] at hclosed hspells
  exact hspells.kind_of_quote (isClosedLiteral_cons.mp hclosed).1

end Cut

/-! ### Wildcards in front of a literal -/

section Wildcard

variable {source tokens tokens' : List Token} {length depth : Int} {shift : Option Int}
  {wildcard wildcard' target target' token : Token} {i j k : Nat} {s s' : Standing}

theorem Lands.trans (h : Lands source shift wildcard target i j)
    (h' : Lands source shift wildcard target' j k) : Lands source shift wildcard target' i k := by
  refine ⟨Nat.le_trans h.ahead h'.ahead, h'.lands, fun d hd n token hi hk hget => ?_⟩
  rcases Nat.lt_or_ge n j with hj | hj
  · exact h.within d hd n token hi hj hget
  · exact h'.within d hd n token hj hk hget

/-- Where a wildcard may land for one target it may land for another that starts there as well. -/
theorem Lands.widen (h : Lands source shift wildcard target i j)
    (hdepth : target'.depth = target.depth)
    (hstarts : ∀ candidate ∈ source, Starts target candidate → Starts target' candidate) :
    Lands source shift wildcard target' i j := by
  obtain ⟨candidate, hget, hfits, hfit⟩ := h.lands
  refine ⟨h.ahead, ⟨candidate, hget, hstarts candidate (List.mem_of_getElem? hget) hfits, ?_⟩,
    h.within⟩
  rwa [hdepth]

/-- Only the depth of a wildcard counts. -/
theorem Lands.of_depth_eq (h : Lands source shift wildcard target i j)
    (hdepth : wildcard'.depth = wildcard.depth) : Lands source shift wildcard' target i j := by
  refine ⟨h.ahead, h.lands, ?_⟩
  rw [hdepth]
  exact h.within

/-- Once a wildcard has landed it may land there again. -/
theorem Lands.again (h : Lands source shift wildcard target i j) :
    Lands source shift wildcard target j j :=
  ⟨Nat.le_refl j, h.lands, fun _ _ _ _ h1 h2 => absurd h2 (by omega)⟩

/-- A wildcard in front of a literal may land where the literal is taken. -/
theorem TakesLiteral.lands (h : TakesLiteral source token s s')
    (hpiece : token.isPiece = false) : Lands source s.shift wildcard token s.index s.index := by
  obtain ⟨candidate, d, hget, -, htext, hagree, -⟩ := h
  have hstarts : Starts token candidate := by
    rw [Starts, if_neg (by simpa [Token.isPiece] using hpiece)]
    exact htext
  refine ⟨Nat.le_refl _, ⟨candidate, hget, hstarts, fun k hk => ?_⟩,
    fun _ _ _ _ h1 h2 => absurd h2 (by omega)⟩
  rw [hagree.2 k hk]
  exact hagree.1

theorem Moves.takesLiteral (h : Moves source length token tokens s s')
    (hmeta : token.isMeta = false) (hpiece : token.isPiece = false) :
    TakesLiteral source token s s' := by
  cases h with
  | literal _ _ ht => exact ht
  | fragment hk => simp [Token.isPiece, hk] at hpiece
  | comment hk | inserter hk | folder hk | trailing hk | wildcard hk =>
    simp [Token.isMeta, Kind.isMeta, hk] at hmeta

/-- Where there is a way over the tokens, a wildcard in front of them could land on a place
from which there is one. -/
theorem lands_uncut (h : Uncuts depth tokens tokens') : ∀ {s : Standing}, s.taken = 0 →
    nextTarget? tokens' = some target → wildcard.depth = depth → Leads source length tokens' s →
    ∃ j, Lands source s.shift wildcard target s.index j
      ∧ Leads source length tokens' { s with index := j } := by
  induction h with
  | nil =>
    intro s _ htarget
    simp [nextTarget?] at htarget
  | cut hcut h _ =>
    intro s h0 htarget _ hleads
    obtain ⟨s', hmove, -⟩ := leads_cons.mp hleads
    rw [nextTarget?_cons_other rfl] at htarget
    obtain rfl := Option.some.inj htarget
    exact ⟨s.index, (hmove.takesLiteral rfl rfl).lands rfl, hleads⟩
  | @token depth next token tokens tokens' hpiece hdepth hnext h ih =>
    intro s h0 htarget hwildcard hleads
    obtain ⟨s', hmove, hrest⟩ := leads_cons.mp hleads
    cases hmeta : token.isMeta with
    | false =>
      rw [nextTarget?_cons_other hmeta] at htarget
      obtain rfl := Option.some.inj htarget
      exact ⟨s.index, (hmove.takesLiteral hmeta hpiece).lands hpiece, hleads⟩
    | true =>
      rw [nextTarget?_cons_meta hmeta] at htarget
      rw [← hnext hmeta] at hwildcard
      cases hmove with
      | comment hk =>
        obtain ⟨j, hlands, hj⟩ := ih h0 htarget hwildcard hrest
        exact ⟨j, hlands, leads_cons.mpr ⟨_, .comment hk, hj⟩⟩
      | inserter hk =>
        obtain ⟨j, hlands, hj⟩ := ih h0 htarget hwildcard (hrest.remark s.marks)
        exact ⟨j, hlands, leads_cons.mpr ⟨_, .inserter hk, hj.remark _⟩⟩
      | folder hk =>
        obtain ⟨j, hlands, hj⟩ := ih h0 htarget hwildcard (hrest.remark s.marks)
        exact ⟨j, hlands, leads_cons.mpr ⟨_, .folder hk, hj.remark _⟩⟩
      | trailing hk _ ht => simp [ht] at htarget
      | @wildcard _ j hk _ ht hl =>
        -- the place where this wildcard lands is good for the other one, too
        obtain rfl := Option.some.inj (ht.symm.trans htarget)
        have hsame : wildcard.depth = token.depth := by rw [hwildcard, hnext hmeta, hdepth]
        refine ⟨j, hl.of_depth_eq hsame, leads_cons.mpr ⟨_, .wildcard hk h0 ht hl.again, hrest⟩⟩
      | fragment hk => simp [Token.isPiece, hk] at hpiece
      | literal hm => simp [hm] at hmeta

/-- The targets of a wildcard in front of the two patterns: what starts with the whole literal
starts with its first piece. -/
theorem nextTarget_uncut (hsource : Literals source) (h : Uncuts depth tokens tokens') :
    nextTarget? tokens = none ∧ nextTarget? tokens' = none
      ∨ ∃ target target', nextTarget? tokens = some target ∧ nextTarget? tokens' = some target'
        ∧ target.depth = target'.depth
        ∧ ∀ candidate ∈ source, Starts target' candidate → Starts target candidate := by
  induction h with
  | nil => exact .inl ⟨rfl, rfl⟩
  | @cut depth cut tokens tokens' hcut h ih =>
    obtain ⟨x, rest, hfirst⟩ := hcut.first
    refine .inr ⟨⟨.stringFragment, x, depth, none⟩, _, by rw [hfirst]; rfl, rfl, rfl, ?_⟩
    intro candidate hmem hstarts
    have htext : candidate.text = pieces cut := hstarts
    refine ⟨hsource.kind_of_closed hmem (by rw [htext]; exact hcut.closed), ?_⟩
    rw [htext, hfirst]
    exact List.prefix_append x _
  | @token depth next token tokens tokens' hpiece hdepth hnext h ih =>
    cases hmeta : token.isMeta with
    | true =>
      rw [nextTarget?_cons_meta hmeta, nextTarget?_cons_meta hmeta]
      exact ih
    | false =>
      rw [nextTarget?_cons_other hmeta, nextTarget?_cons_other hmeta]
      exact .inr ⟨token, token, rfl, rfl, rfl, fun _ _ h => h⟩

end Wildcard

/-! ### The two patterns -/

section Uncut

variable {source tokens tokens' : List Token} {length depth : Int} {token : Token}
  {s s' : Standing}

/-- Only pieces of literals are taken in part. -/
theorem Moves.taken_eq_zero (h : Moves source length token tokens s s')
    (hpiece : token.isPiece = false) (h0 : s.taken = 0) : s'.taken = 0 := by
  cases h with
  | fragment hk => simp [Token.isPiece, hk] at hpiece
  | literal _ _ ht =>
    obtain ⟨candidate, d, -, -, -, -, rfl⟩ := ht
    exact h0
  | _ => exact h0

/-- What is left of the pattern counts for wildcards alone. -/
theorem Moves.of_other (h : Moves source length token tokens s s') (hk : token.kind ≠ .wildcard) :
    Moves source length token tokens' s s' := by
  cases h with
  | comment hk => exact .comment hk
  | inserter hk => exact .inserter hk
  | folder hk => exact .folder hk
  | trailing hk' | wildcard hk' => exact absurd hk' hk
  | fragment hk ht => exact .fragment hk ht
  | literal hm hk ht => exact .literal hm hk ht

/-- There is a way over a pattern if and only if there is one over the pattern with its
literals whole. -/
theorem leads_uncut (hsource : Literals source) (h : Uncuts depth tokens tokens') :
    ∀ {s : Standing}, s.taken = 0 →
      (Leads source length tokens s ↔ Leads source length tokens' s) := by
  induction h with
  | nil => exact fun _ => Iff.rfl
  | @cut depth cut tokens tokens' hcut h ih =>
    intro s h0
    rw [leads_append, leads_cons]
    -- on both ways the literal is taken by one source token
    constructor
    · rintro ⟨s', hpasses, hrest⟩
      obtain ⟨candidate, d, hget, -, htext, hagree, ⟨hindex, htaken, hshift⟩, -⟩ :=
        passes_cut hsource hcut h0 hpasses
      have hsame : Leads source length tokens' s'
          ↔ Leads source length tokens' { s with index := s.index + 1, shift := some d } :=
        leads_congr hindex (htaken.trans h0.symm) hshift
      exact ⟨_, .literal rfl (by simp) ⟨candidate, d, hget, h0, htext, hagree, rfl⟩,
        hsame.mp ((ih htaken).mp hrest)⟩
    · rintro ⟨s', hmove, hrest⟩
      obtain ⟨candidate, d, hget, -, htext, hagree, rfl⟩ := hmove.takesLiteral rfl rfl
      have hkind := hsource.kind_of_closed (List.mem_of_getElem? hget)
        (by rw [htext]; exact hcut.closed)
      obtain ⟨s', hpasses, hindex, htaken, hshift⟩ :=
        exists_passes_cut hcut h0 hget hkind htext hagree
      have hsame : Leads source length tokens' s'
          ↔ Leads source length tokens' { s with index := s.index + 1, shift := some d } :=
        leads_congr hindex (htaken.trans h0.symm) hshift
      exact ⟨s', hpasses, (ih htaken).mpr (hsame.mpr hrest)⟩
  | @token depth next token tokens tokens' hpiece hdepth hnext h ih =>
    intro s h0
    by_cases hk : token.kind = .wildcard
    · have hmeta : token.isMeta = true := by rw [Token.isMeta, hk]; rfl
      have hwildcard : token.depth = next := by rw [hdepth, hnext hmeta]
      rcases nextTarget_uncut hsource h with ⟨hnone, hnone'⟩
        | ⟨target, target', hsome, hsome', hsame, hstarts⟩
      · rw [leads_trailing hk h0 hnone, leads_trailing hk h0 hnone']
        exact ih h0
      · rw [leads_wildcard hk h0 hsome, leads_wildcard hk h0 hsome']
        have hthere : ∀ j, Standing.taken { s with index := j } = 0 := fun _ => h0
        constructor
        · -- a first piece may stand in front of another literal, but the way goes on to this one
          rintro ⟨j, hl, hrest⟩
          obtain ⟨k, hl', hrest'⟩ :=
            lands_uncut h (hthere j) hsome' hwildcard ((ih (hthere j)).mp hrest)
          exact ⟨k, hl.trans hl', hrest'⟩
        · rintro ⟨j, hl, hrest⟩
          exact ⟨j, hl.widen hsame hstarts, (ih (hthere j)).mpr hrest⟩
    · rw [leads_cons, leads_cons]
      constructor
      · rintro ⟨s', hmove, hrest⟩
        exact ⟨s', hmove.of_other hk, (ih (hmove.taken_eq_zero hpiece h0)).mp hrest⟩
      · rintro ⟨s', hmove, hrest⟩
        exact ⟨s', hmove.of_other hk, (ih (hmove.taken_eq_zero hpiece h0)).mpr hrest⟩

/-- A pattern of markers alone has no literal to cut. -/
theorem eq_of_uncuts (h : Uncuts depth tokens tokens')
    (hmeta : (∀ token ∈ tokens, token.isMeta = true) ∨ ∀ token ∈ tokens', token.isMeta = true) :
    tokens = tokens' := by
  induction h with
  | nil => rfl
  | token _ _ _ _ ih =>
    refine congrArg _ (ih (hmeta.imp ?_ ?_))
    · exact fun hmeta token htoken => hmeta token (List.mem_cons_of_mem _ htoken)
    · exact fun hmeta token htoken => hmeta token (List.mem_cons_of_mem _ htoken)
  | cut hcut _ _ =>
    exfalso
    obtain ⟨x, rest, rfl⟩ := hcut.first
    rcases hmeta with hmeta | hmeta
    · exact absurd (hmeta _ List.mem_cons_self) (by simp [Token.isMeta, Kind.isMeta])
    · exact absurd (hmeta _ List.mem_cons_self) (by simp [Token.isMeta, Kind.isMeta])

/-- Behind a literal or any other group no part of a source token is taken. -/
theorem taken_of_passes_groups (hsource : Literals source) {ahead : List Token}
    {groups : List (List Token)}
    (hgroups : ∀ group ∈ groups, ∃ depth lift, Group depth group lift) :
    ∀ {s : Standing}, s.taken = 0 → Passes source length ahead groups.flatten s s' →
      s'.taken = 0 := by
  induction groups with
  | nil =>
    intro s h0 h
    cases h
    exact h0
  | cons group groups ih =>
    intro s h0 h
    rw [List.flatten_cons] at h
    obtain ⟨s₁, hgroup, hrest⟩ := passes_append h
    refine ih (fun g hg => hgroups g (List.mem_cons_of_mem _ hg)) ?_ hrest
    obtain ⟨depth, lift, hkind⟩ := hgroups group List.mem_cons_self
    cases hkind with
    | none =>
      cases hgroup
      exact h0
    | token hpiece =>
      cases hgroup with
      | cons hmove hnil =>
        cases hnil
        exact hmove.taken_eq_zero hpiece h0
    | cut hcut =>
      obtain ⟨candidate, d, -, -, -, -, ⟨-, htaken, -⟩, -⟩ := passes_cut hsource hcut h0 hgroup
      exact htaken

end Uncut

/-- A pattern is found if and only if it is found with its literals whole. -/
theorem succeeds_uncut {settings : Settings} {source snippet : Text}
    {effort spent effort' spent' : Effort} {result result' : Except Fault Match}
    (hrun : find settings (builtinTokens source) source.length (.ofText snippet) effort
      = (result, spent))
    (hrun' : find settings (builtinTokens source) source.length (.uncut snippet) effort'
      = (result', spent'))
    (hclosed : Pattern.ClosesCuts snippet)
    (hlimit : ∀ limit ceiling, result ≠ .error (.overCeiling limit ceiling))
    (hlimit' : ∀ limit ceiling, result' ≠ .error (.overCeiling limit ceiling)) :
    Succeeds result ↔ Succeeds result' := by
  obtain ⟨depth, huncuts⟩ := uncuts_ofText hclosed
  by_cases hshape : ((Pattern.ofText snippet).isReplaceAll = true
      ∨ (Pattern.ofText snippet).isAppend = true)
    ∨ (Pattern.uncut snippet).isReplaceAll = true ∨ (Pattern.uncut snippet).isAppend = true
  · -- of a pattern that needs no search nothing is cut
    have hsame : Pattern.ofText snippet = Pattern.uncut snippet :=
      congrArg Pattern.mk (eq_of_uncuts huncuts (hshape.imp isMeta_of_shape isMeta_of_shape))
    rw [hsame, or_self] at hshape
    rw [hsame] at hrun
    exact iff_of_true (succeeds_of_shape hrun hshape) (succeeds_of_shape hrun' hshape)
  · simp only [not_or, Bool.not_eq_true] at hshape
    obtain ⟨⟨hall, happ⟩, hall', happ'⟩ := hshape
    rw [succeeds_iff_leads hrun hall happ hlimit, succeeds_iff_leads hrun' hall' happ' hlimit']
    exact leads_uncut (literals_builtinTokens source) huncuts rfl

/-- From `s` to `s'` the tokens of a literal are taken inside one source token, which its
pieces make up.  A marker among them records how far the pieces in front of it reach into
that token. -/
def TakenInOne (source : List Token) (length : Int) (ahead cut : List Token) (s s' : Standing) :
    Prop :=
  ∃ candidate offset, source[s.index]? = some candidate ∧ candidate.kind = .stringLiteral
    ∧ candidate.text = pieces cut ∧ candidate.offset = some offset
    ∧ ∀ front token back s₁ s₂, cut = front ++ token :: back →
      Passes source length (token :: back ++ ahead) front s s₁ →
      Moves source length token (back ++ ahead) s₁ s₂ → Passes source length ahead back s₂ s' →
      s₁.index = s.index ∧ s₁.taken = (pieces front).length
        ∧ (token.kind = .inserter ∨ token.kind = .folder →
          s₂.marks.of token.kind = some (offset + (pieces front).length))

theorem takenInOne {t : Text} {ahead cut : List Token} {depth : Int} {s s' : Standing}
    (hcut : CutLiteral depth cut) (h0 : s.taken = 0)
    (h : Passes (builtinTokens t) t.length ahead cut s s') :
    TakenInOne (builtinTokens t) t.length ahead cut s s' := by
  obtain ⟨candidate, d, hget, hkind, htext, -, -, hinside⟩ :=
    passes_cut (literals_builtinTokens t) hcut h0 h
  obtain ⟨offset, hoffset⟩ : ∃ offset, candidate.offset = some offset := by
    have hmem := List.mem_of_getElem? hget
    rw [builtinTokens_eq] at hmem
    obtain ⟨offset, hoffset, -⟩ := offset_of_mem_tokens hmem
    exact ⟨offset, hoffset⟩
  refine ⟨candidate, offset, hget, hkind, htext, hoffset, ?_⟩
  intro front token back s₁ s₂ hsplit hfront hmove hback
  obtain ⟨hindex, htaken⟩ :=
    hinside front (token :: back) s₁ hsplit (by simp) hfront (.cons hmove hback)
  refine ⟨hindex, htaken, fun hmarker => ?_⟩
  rw [← hindex] at hget
  rw [hmove.mark hmarker, if_pos rfl, offset_eq hget hoffset, htaken]

/-- **A cut literal is matched as the whole one.**  If each cut literal of a pattern is closed,
the pattern is found in a source text if and only if it is found with its literals whole.  On
the way the pieces of a literal are all taken inside one source token, which they make up, and
each marker between them records its place in it. -/
theorem find_uncut {settings : Settings} {source snippet : Text}
    {effort spent effort' spent' : Effort} {result result' : Except Fault Match}
    (hrun : find settings (builtinTokens source) source.length (.ofText snippet) effort
      = (result, spent))
    (hrun' : find settings (builtinTokens source) source.length (.uncut snippet) effort'
      = (result', spent'))
    (hclosed : Pattern.ClosesCuts snippet)
    (hlimit : ∀ limit ceiling, result ≠ .error (.overCeiling limit ceiling))
    (hlimit' : ∀ limit ceiling, result' ≠ .error (.overCeiling limit ceiling)) :
    (Succeeds result ↔ Succeeds result')
      ∧ ∀ before cut after, Pattern.groups snippet = before ++ cut :: after →
        cut.any (·.isPiece) = true →
          (Pattern.ofText snippet).tokens = before.flatten ++ (cut ++ after.flatten)
          ∧ (Succeeds result → ∃ s s' s'',
            Passes (builtinTokens source) source.length (cut ++ after.flatten) before.flatten
              (.start settings) s
            ∧ Passes (builtinTokens source) source.length after.flatten cut s s'
            ∧ Passes (builtinTokens source) source.length [] after.flatten s' s''
            ∧ result = (Verdict.found s''.marks).result settings)
          ∧ ∀ s s', Passes (builtinTokens source) source.length (cut ++ after.flatten)
              before.flatten (.start settings) s →
            Passes (builtinTokens source) source.length after.flatten cut s s' →
            TakenInOne (builtinTokens source) source.length after.flatten cut s s' := by
  refine ⟨succeeds_uncut hrun hrun' hclosed hlimit hlimit', ?_⟩
  intro before cut after hgroups hpiece
  have hmem : ∀ group ∈ before ++ cut :: after, ∃ depth lift, Group depth group lift := by
    intro group hgroup
    rw [← hgroups] at hgroup
    exact group_of_mem_groups hclosed hgroup
  obtain ⟨depth, lift, hgroup⟩ := hmem cut (by simp)
  have hcut := hgroup.cutLiteral hpiece
  have htokens : (Pattern.ofText snippet).tokens = before.flatten ++ (cut ++ after.flatten) := by
    rw [← Pattern.flatten_groups, hgroups, List.flatten_append, List.flatten_cons]
  refine ⟨htokens, fun hsucceeds => ?_, fun s s' hbefore hpasses => ?_⟩
  · -- a pattern that needs no search has no pieces
    have hshape : ¬ ((Pattern.ofText snippet).isReplaceAll = true
        ∨ (Pattern.ofText snippet).isAppend = true) := by
      intro hshape
      obtain ⟨x, rest, hfirst⟩ := hcut.first
      have hmeta := isMeta_of_shape hshape ⟨.stringFragment, x, depth, none⟩
        (by rw [htokens, hfirst]; simp)
      simp [Token.isMeta, Kind.isMeta] at hmeta
    simp only [not_or, Bool.not_eq_true] at hshape
    have hleads := leads_of_succeeds hrun hshape.1 hshape.2 hsucceeds
    obtain ⟨s'', hway, hresult⟩ := exists_way hrun hshape.1 hshape.2 hlimit hleads
    rw [htokens] at hway
    obtain ⟨s, hbefore, hway⟩ := passes_append hway
    obtain ⟨s', hpasses, hafter⟩ := passes_append hway
    rw [List.append_nil] at hbefore hpasses
    exact ⟨s, s', s'', hbefore, hpasses, hafter, hresult⟩
  · have h0 : s.taken = 0 := taken_of_passes_groups (literals_builtinTokens source)
      (fun group hgroup => hmem group (List.mem_append_left _ hgroup)) rfl hbefore
    exact takenInOne hcut h0 hpasses

/-- Two literals that start alike. -/
def alikeSource : Text := "f(\"ax\"); f(\"abc\");".toList

/-- The second of them, with a marker behind each of its letters but the last. -/
def alikeSnippet : Text := "... \"a>>>b<<<c\"".toList

theorem find_uncut_alike :
    Pattern.ClosesCuts alikeSnippet
      ∧ Succeeds (find {} (builtinTokens alikeSource) alikeSource.length
        (.ofText alikeSnippet) {}).1
      ∧ Succeeds (find {} (builtinTokens alikeSource) alikeSource.length
        (.uncut alikeSnippet) {}).1
      ∧ ∃ s s', TakenInOne (builtinTokens alikeSource) alikeSource.length []
        [⟨.stringFragment, ['"', 'a'], 0, none⟩, ⟨.inserter, ['>', '>', '>'], 0, none⟩,
          ⟨.stringFragment, ['b'], 0, none⟩, ⟨.folder, ['<', '<', '<'], 0, none⟩,
          ⟨.stringFragment, ['c', '"'], 0, none⟩] s s' := by
  have hclosed : Pattern.ClosesCuts alikeSnippet := by decide +kernel
  have hcut : Succeeds (find {} (builtinTokens alikeSource) alikeSource.length
      (.ofText alikeSnippet) {}).1 := by decide +kernel
  have hwhole : Succeeds (find {} (builtinTokens alikeSource) alikeSource.length
      (.uncut alikeSnippet) {}).1 := by decide +kernel
  have hgroups : Pattern.groups alikeSnippet = [[⟨.wildcard, ['.', '.', '.'], 0, none⟩], []]
      ++ [⟨.stringFragment, ['"', 'a'], 0, none⟩, ⟨.inserter, ['>', '>', '>'], 0, none⟩,
        ⟨.stringFragment, ['b'], 0, none⟩, ⟨.folder, ['<', '<', '<'], 0, none⟩,
        ⟨.stringFragment, ['c', '"'], 0, none⟩] :: [] := by decide +kernel
  obtain ⟨hiff, hliterals⟩ :=
    find_uncut rfl rfl hclosed hcut.ne_overCeiling hwhole.ne_overCeiling
  obtain ⟨-, hway, htaken⟩ := hliterals _ _ _ hgroups rfl
  obtain ⟨s, s', -, hbefore, hpasses, -⟩ := hway hcut
  exact ⟨hclosed, hcut, hiff.mp hcut, s, s', htaken s s' hbefore hpasses⟩

end Graft.Search
