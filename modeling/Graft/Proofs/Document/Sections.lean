/-
Which blocks of a document are chosen.

The lines of a document make events: headings, and fenced blocks, inside which nothing
else is looked for.  The block of a section is the first one that comes next after a
heading with the section's word.

* `Event`, `Reads` — the events of lines;
* `Chosen` — the block of a section among events;
* `reads_iff`, `outline_eq_foldl` — lines have their events, and to read the lines is to
  read the events one after the other;
* `fragment?_foldl_read` — what has been found after any number of events;
* `fragments_selected` — the fragments of a document are those of the chosen blocks.
-/
import Graft.Proofs.Document.LineShapes

namespace Graft.Document

open Text

/-! ### Events -/

/-- What happens in a document. -/
inductive Event where
  /-- A heading with its title. -/
  | heading (title : Text)
  /-- A block with its lines, which have lost the indentation of the fence. -/
  | block (lines : List Text)
  deriving Repr, DecidableEq

/-- The lines make the events.  A block reaches to the first line that ends it, or to the end
of the lines, whatever stands in between. -/
inductive Reads : List Text → List Event → Prop where
  | nil : Reads [] []
  | heading {line title : Text} {lines : List Text} {events : List Event}
      (h : IsHeading line title) (hrest : Reads lines events) :
      Reads (line :: lines) (.heading title :: events)
  | block {line last : Text} {fence : Fence} {inside lines : List Text} {events : List Event}
      (hstart : StartsBlock line fence) (hinside : ∀ l ∈ inside, ¬ EndsBlock fence l)
      (hend : EndsBlock fence last) (hrest : Reads lines events) :
      Reads (line :: (inside ++ last :: lines))
        (.block (inside.map (dropSpaces fence.indent)) :: events)
  | openBlock {line : Text} {fence : Fence} {inside : List Text}
      (hstart : StartsBlock line fence) (hinside : ∀ l ∈ inside, ¬ EndsBlock fence l) :
      Reads (line :: inside) [.block (inside.map (dropSpaces fence.indent))]
  | other {line : Text} {lines : List Text} {events : List Event}
      (hheading : ∀ title, ¬ IsHeading line title) (hblock : ∀ fence, ¬ StartsBlock line fence)
      (hrest : Reads lines events) : Reads (line :: lines) events

/-- The events of lines. -/
def events : List Text → List Event
  | [] => []
  | line :: lines =>
    match heading? line with
    | some title => .heading title :: events lines
    | none =>
      match Fence.ofLine? line with
      | some fence =>
        have := afterBlock_length fence lines
        .block (blockLines fence lines) :: events (afterBlock fence lines)
      | none => events lines
termination_by lines => lines.length
decreasing_by all_goals simp only [List.length_cons]; omega

theorem heading?_eq_none {line : Text} : heading? line = none ↔ ∀ title, ¬ IsHeading line title := by
  simp only [← heading?_eq_some, Option.eq_none_iff_forall_ne_some, ne_eq]

theorem ofLine?_eq_none {line : Text} :
    Fence.ofLine? line = none ↔ ∀ fence, ¬ StartsBlock line fence := by
  simp only [← ofLine?_eq_some, Option.eq_none_iff_forall_ne_some, ne_eq]

theorem events_heading {line title : Text} (h : IsHeading line title) (lines : List Text) :
    events (line :: lines) = .heading title :: events lines := by
  rw [events, heading?_eq_some.mpr h]

theorem events_block {line : Text} {fence : Fence} (h : StartsBlock line fence)
    (lines : List Text) : events (line :: lines)
      = .block (blockLines fence lines) :: events (afterBlock fence lines) := by
  have hheading : heading? line = none :=
    heading?_eq_none.mpr fun title ht => ht.not_startsBlock fence h
  rw [events, hheading, ofLine?_eq_some.mpr h]

theorem events_other {line : Text} (hheading : ∀ title, ¬ IsHeading line title)
    (hblock : ∀ fence, ¬ StartsBlock line fence) (lines : List Text) :
    events (line :: lines) = events lines := by
  rw [events, heading?_eq_none.mpr hheading, ofLine?_eq_none.mpr hblock]

theorem StartsBlock.not_closes {line l : Text} {fence : Fence} (h : StartsBlock line fence) :
    fence.closes l = false ↔ ¬ EndsBlock fence l := by
  obtain ⟨_, -, -, hcount, hmark, -⟩ := h
  rw [← closes_iff hmark hcount, Bool.not_eq_true]

theorem StartsBlock.closes {line l : Text} {fence : Fence} (h : StartsBlock line fence) :
    fence.closes l = true ↔ EndsBlock fence l := by
  obtain ⟨_, -, -, hcount, hmark, -⟩ := h
  exact closes_iff hmark hcount

/-- The block of a fence that nothing ends is all there is. -/
theorem block_open (fence : Fence) {ls : List Text} (hls : ∀ l ∈ ls, fence.closes l = false) :
    blockLines fence ls = ls.map (dropSpaces fence.indent) ∧ afterBlock fence ls = [] := by
  have hopen : ∀ l ∈ ls, (!fence.closes l) = true := fun l hl => by rw [hls l hl]; rfl
  have htake := @List.takeWhile_append_of_pos _ _ ls [] hopen
  have hdrop := @List.dropWhile_append_of_pos _ _ ls [] hopen
  rw [List.append_nil] at htake hdrop
  constructor
  · rw [blockLines, htake, List.takeWhile_nil, List.append_nil]
  · rw [afterBlock, hdrop, List.dropWhile_nil, List.drop_nil]

theorem Reads.eq_events {lines : List Text} {es : List Event} (h : Reads lines es) :
    es = events lines := by
  induction h with
  | nil => rw [events]
  | heading h _ ih => rw [events_heading h, ih]
  | block hstart hinside hend _ ih =>
    obtain ⟨hlines, hafter⟩ := block_eq _ (fun l hl => hstart.not_closes.mpr (hinside l hl))
      (hstart.closes.mpr hend) _
    rw [events_block hstart, hlines, hafter, ih]
  | openBlock hstart hinside =>
    obtain ⟨hlines, hafter⟩ :=
      block_open _ fun l hl => hstart.not_closes.mpr (hinside l hl)
    rw [events_block hstart, hlines, hafter, events]
  | other hheading hblock _ ih => rw [events_other hheading hblock, ih]

/-- Lines make their events and no others. -/
theorem reads_iff {lines : List Text} {es : List Event} : Reads lines es ↔ es = events lines := by
  refine ⟨Reads.eq_events, ?_⟩
  rintro rfl
  fun_induction events lines with
  | case1 => exact .nil
  | case2 line lines title h ih => exact .heading (heading?_eq_some.mp h) ih
  | case3 line lines hheading fence hfence _ ih =>
    have hstart := ofLine?_eq_some.mp hfence
    have hinside : ∀ l ∈ lines.takeWhile (!fence.closes ·), ¬ EndsBlock fence l := by
      intro l hl
      have hopen := List.all_eq_true.mp List.all_takeWhile l hl
      exact hstart.not_closes.mp (by simpa using hopen)
    have hsplit : lines.takeWhile (!fence.closes ·) ++ lines.dropWhile (!fence.closes ·) = lines :=
      List.takeWhile_append_dropWhile
    rw [afterBlock] at ih ⊢
    cases hdrop : lines.dropWhile (!fence.closes ·) with
    | nil =>
      rw [hdrop, List.append_nil] at hsplit
      rw [List.drop_nil, events, blockLines, hsplit]
      rw [hsplit] at hinside
      exact .openBlock hstart hinside
    | cons last rest =>
      have hend : fence.closes last = true := by
        have h := List.head?_dropWhile_not (!fence.closes ·) lines
        rw [hdrop] at h
        simpa using h
      rw [hdrop] at ih hsplit
      have hread := Reads.block hstart hinside (hstart.closes.mp hend) ih
      rwa [List.drop_one, List.tail_cons, hsplit] at hread
  | case4 line lines hheading hfence ih =>
    exact .other (heading?_eq_none.mp hheading) (ofLine?_eq_none.mp hfence) ih

/-- Reads one event. -/
def Outline.read (state : Outline) : Event → Outline
  | .heading title => state.heading title
  | .block lines => state.block (fragment lines)

/-- Reading lines is reading their events. -/
theorem outline_eq_foldl (state : Outline) (lines : List Text) :
    outline state lines = (events lines).foldl Outline.read state := by
  fun_induction outline state lines with
  | case1 state => rw [events, List.foldl_nil]
  | case2 state line lines title h ih =>
    rw [ih, events_heading (heading?_eq_some.mp h), List.foldl_cons]
    rfl
  | case3 state line lines hheading fence hfence _ ih =>
    rw [ih, events_block (ofLine?_eq_some.mp hfence), List.foldl_cons]
    rfl
  | case4 state line lines hheading hfence ih =>
    rw [ih, events_other (heading?_eq_none.mp hheading) (ofLine?_eq_none.mp hfence)]

/-! ### Chosen blocks -/

/-- At index `k` stands a heading with the word of the section, and a block with the given
lines comes next. -/
def NamedAt (events : List Event) (s : Section) (k : Nat) (lines : List Text) : Prop :=
  ∃ title, events[k]? = some (.heading title) ∧ events[k + 1]? = some (.block lines)
    ∧ HasWholeWord s.word title

/-- The lines are those of the first block that a heading with the word of the section stands
right in front of. -/
def Chosen (events : List Event) (s : Section) (lines : List Text) : Prop :=
  ∃ k, NamedAt events s k lines ∧ ∀ j < k, ∀ other, ¬ NamedAt events s j other

theorem chosen_cons {event : Event} {events : List Event} {s : Section} {lines : List Text} :
    Chosen (event :: events) s lines ↔ NamedAt (event :: events) s 0 lines
      ∨ (∀ other, ¬ NamedAt (event :: events) s 0 other) ∧ Chosen events s lines := by
  constructor
  · rintro ⟨k, hk, hfirst⟩
    cases k with
    | zero => exact .inl hk
    | succ k => exact .inr ⟨hfirst 0 (by omega), k, hk, fun j hj => hfirst (j + 1) (by omega)⟩
  · rintro (h | ⟨hhere, k, hk, hfirst⟩)
    · exact ⟨0, h, fun j hj => absurd hj (Nat.not_lt_zero j)⟩
    · refine ⟨k + 1, hk, fun j hj => ?_⟩
      cases j with
      | zero => exact hhere
      | succ j => exact hfirst j (by omega)

theorem namedAt_zero_heading {title : Text} {events : List Event} {s : Section}
    {lines : List Text} : NamedAt (.heading title :: events) s 0 lines
      ↔ HasWholeWord s.word title ∧ events.head? = some (.block lines) := by
  simp [NamedAt, List.head?_eq_getElem?, and_comm]

theorem not_namedAt_zero_block {body : List Text} {events : List Event} {s : Section}
    {lines : List Text} : ¬ NamedAt (.block body :: events) s 0 lines := by
  simp [NamedAt]

/-- The block of a section; `named` tells that a heading with its word stands right in front
of the events. -/
def pick? (s : Section) : Bool → List Event → Option (List Text)
  | _, [] => none
  | _, .heading title :: events => pick? s (hasWord s.word title) events
  | named, .block lines :: events => if named then some lines else pick? s false events

theorem Section.word_ne_nil (s : Section) : s.word ≠ [] := by cases s <;> decide

theorem pick?_eq_some {s : Section} {lines : List Text} (events : List Event) : ∀ named : Bool,
    pick? s named events = some lines
      ↔ named = true ∧ events.head? = some (.block lines)
        ∨ (∀ other, ¬ (named = true ∧ events.head? = some (.block other)))
          ∧ Chosen events s lines := by
  induction events with
  | nil =>
    intro named
    simp [pick?, Chosen, NamedAt]
  | cons event events ih =>
    intro named
    cases event with
    | heading title =>
      rw [pick?, ih, hasWord_iff s.word_ne_nil, chosen_cons]
      simp [namedAt_zero_heading]
    | block body =>
      rw [pick?, chosen_cons]
      cases named with
      | true => simp
      | false => simp [not_namedAt_zero_block, ih]

theorem pick?_false_eq_some {s : Section} {lines : List Text} {events : List Event} :
    pick? s false events = some lines ↔ Chosen events s lines := by
  simp [pick?_eq_some]

/-! ### What has been found -/

section Step

variable (state : Outline) (s : Section)

theorem fragment?_heading (title : Text) :
    (state.heading title).fragment? s = state.fragment? s := by
  cases s <;> rfl

theorem mem_wanted_heading (title : Text) : s ∈ (state.heading title).wanted
    ↔ state.fragment? s = none ∧ hasWord s.word title = true := by
  cases s <;> simp [Outline.heading]

theorem fragment?_foldl_put (body : Text) (wanted : List Section) : ∀ state : Outline,
    (wanted.foldl (Outline.put body) state).fragment? s
      = if s ∈ wanted then some body else state.fragment? s := by
  induction wanted with
  | nil => simp
  | cons s' wanted ih =>
    intro state
    rw [List.foldl_cons, ih, fragment?_put]
    by_cases hs : s = s' <;> by_cases hmem : s ∈ wanted <;> simp [hs, hmem]

theorem fragment?_block (body : Text) : (state.block body).fragment? s
    = if s ∈ state.wanted then some body else state.fragment? s := by
  rw [← fragment?_foldl_put]
  cases s <;> rfl

end Step

/-- After any number of events a section has the fragment that it had, or else that of the
block that is picked for it.  A section that is wanted has none yet, and every event keeps
it so. -/
theorem fragment?_foldl_read (s : Section) (events : List Event) : ∀ state : Outline,
    (s ∈ state.wanted → state.fragment? s = none) →
    (events.foldl Outline.read state).fragment? s
      = (state.fragment? s).or ((pick? s (decide (s ∈ state.wanted)) events).map fragment) := by
  induction events with
  | nil => simp [pick?]
  | cons event events ih =>
    intro state hwanted
    rw [List.foldl_cons]
    cases event with
    | heading title =>
      have hread : state.read (.heading title) = state.heading title := rfl
      rw [hread, ih, fragment?_heading, pick?]
      · cases hfound : state.fragment? s with
        | some body => rfl
        | none => simp [mem_wanted_heading, hfound]
      · intro hmem
        rw [fragment?_heading]
        exact ((mem_wanted_heading state s title).mp hmem).1
    | block lines =>
      have hread : state.read (.block lines) = state.block (fragment lines) := rfl
      have hnone : (state.block (fragment lines)).wanted = [] := rfl
      rw [hread, ih _ (by simp [hnone]), fragment?_block, hnone, pick?]
      by_cases hmem : s ∈ state.wanted
      · simp [hmem, hwanted hmem]
      · simp [hmem]

theorem fragment?_outline (s : Section) (lines : List Text) :
    (outline {} lines).fragment? s = (pick? s false (events lines)).map fragment := by
  rw [outline_eq_foldl, fragment?_foldl_read s _ {} (by simp)]
  cases s <;> rfl

theorem fragment?_outline_eq_some {s : Section} {lines : List Text} {body : Text} :
    (outline {} lines).fragment? s = some body
      ↔ ∃ block, Chosen (events lines) s block ∧ body = fragment block := by
  rw [fragment?_outline, Option.map_eq_some_iff]
  simp only [pick?_false_eq_some, eq_comm (b := body)]

theorem fragment?_outline_eq_none {s : Section} {lines : List Text} :
    (outline {} lines).fragment? s = none ↔ ∀ block, ¬ Chosen (events lines) s block := by
  rw [fragment?_outline, Option.map_eq_none_iff, Option.eq_none_iff_forall_ne_some]
  simp only [ne_eq, pick?_false_eq_some]

/-! ### The fragments of a document -/

theorem fragments_eq_ok {document : Text} {file : Option Text} {found : Fragments} :
    fragments document file = .ok found
      ↔ (outline {} (physicalLines document)).fragment? .snippet = some found.snippet
        ∧ (outline {} (physicalLines document)).fragment? .patch = some found.patch := by
  simp only [fragments, Outline.fragment?]
  split
  · rename_i snippet patch hsnippet hpatch
    rw [hsnippet, hpatch, Except.ok.injEq, Option.some.injEq, Option.some.injEq]
    constructor
    · rintro rfl
      exact ⟨rfl, rfl⟩
    · rintro ⟨rfl, rfl⟩
      rfl
  · rename_i hmissing
    exact ⟨fun h => by simp at h, fun h => absurd h.2 (hmissing _ _ h.1)⟩

theorem mem_missing {state : Outline} {s : Section} :
    s ∈ state.missing ↔ state.fragment? s = none := by
  cases s <;> simp [Outline.missing]

theorem fragments_eq_error {document : Text} {file : Option Text} {fault : Fault} :
    fragments document file = .error fault
      ↔ (outline {} (physicalLines document)).missing ≠ []
        ∧ fault = .sectionsMissing
          ((outline {} (physicalLines document)).missing.map Section.word) file := by
  simp only [fragments]
  split
  · rename_i snippet patch hsnippet hpatch
    have hnone : (outline {} (physicalLines document)).missing = [] := by
      refine List.eq_nil_iff_forall_not_mem.mpr fun s hs => ?_
      cases s
      · exact absurd (hsnippet.symm.trans (mem_missing.mp hs)) (by simp)
      · exact absurd (hpatch.symm.trans (mem_missing.mp hs)) (by simp)
    exact ⟨fun h => by simp at h, fun h => absurd hnone h.1⟩
  · rename_i hmissing
    rw [Except.error.injEq, eq_comm]
    refine ⟨fun h => ⟨fun hnil => ?_, h⟩, And.right⟩
    have hsome : ∀ s, (outline {} (physicalLines document)).fragment? s ≠ none := by
      intro s hs
      have hmem := mem_missing.mpr hs
      rw [hnil] at hmem
      exact List.not_mem_nil hmem
    obtain ⟨snippet, hsnippet⟩ := Option.ne_none_iff_exists'.mp (hsome .snippet)
    obtain ⟨patch, hpatch⟩ := Option.ne_none_iff_exists'.mp (hsome .patch)
    exact hmissing snippet patch hsnippet hpatch

/-- The missing sections in their order are told by their members. -/
theorem eq_missing {state : Outline} {missing : List Section}
    (hsub : missing.Sublist [.snippet, .patch])
    (hmem : ∀ s, s ∈ missing ↔ state.fragment? s = none) : missing = state.missing := by
  have hfilter : state.missing = [Section.snippet, .patch].filter (· ∈ missing) :=
    List.filter_congr fun s _ => Bool.eq_iff_iff.mpr (by simp [hmem])
  rw [hfilter]
  simp only [List.sublist_cons_iff, List.sublist_nil] at hsub
  rcases hsub with (rfl | ⟨_, rfl, rfl⟩) | ⟨_, rfl, rfl | ⟨_, rfl, rfl⟩⟩ <;> rfl

/-- **Sections are selected by their headings.**  A document makes one sequence of events.
It has fragments exactly if both sections have a chosen block there, and these are the blocks
in normal form.  Otherwise the fault names the sections without one, in their order. -/
theorem fragments_selected (document : Text) (file : Option Text) :
    ∃ events, (∀ other, Reads (physicalLines document) other ↔ other = events)
      ∧ (∀ found, fragments document file = .ok found ↔
        (∃ lines, Chosen events .snippet lines ∧ found.snippet = fragment lines)
          ∧ ∃ lines, Chosen events .patch lines ∧ found.patch = fragment lines)
      ∧ ∀ fault, fragments document file = .error fault ↔
        ∃ missing, fault = .sectionsMissing (missing.map Section.word) file ∧ missing ≠ []
          ∧ missing.Sublist [.snippet, .patch]
          ∧ ∀ s, s ∈ missing ↔ ∀ lines, ¬ Chosen events s lines := by
  refine ⟨events (physicalLines document), fun other => reads_iff, fun found => ?_, fun fault => ?_⟩
  · rw [fragments_eq_ok, fragment?_outline_eq_some, fragment?_outline_eq_some]
  · rw [fragments_eq_error]
    simp only [← fragment?_outline_eq_none]
    constructor
    · rintro ⟨hne, hfault⟩
      exact ⟨_, hfault, hne, List.filter_sublist, fun s => mem_missing⟩
    · rintro ⟨missing, hfault, hne, hsub, hmem⟩
      rw [← eq_missing hsub hmem]
      exact ⟨hne, hfault⟩

end Graft.Document
