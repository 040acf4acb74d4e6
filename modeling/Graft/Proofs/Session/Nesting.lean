/-
Nested contexts of a session.

A script is what happens in a session while contexts are entered and left one inside the
other: settings are put in force, searches are made, and blocks have a context of their
own.  A search that fails ends all blocks that it stands in, up to the nearest attempt:
what is left of them is skipped, but they are left like others, and the failed search
counts.

Whatever a script does, the contexts and tallies that were there stay as they were, but for
the tally in force, which takes the searches that the script makes outside its own tally
blocks (`Keeps`).  So a context that is left finds what it put aside:

* `keeps_perform` — what a script keeps of a session;
* `settings_leave`, `tally_leave` — what leaving a block puts back;
* `leavings_disciplined` — every block that a script leaves.
-/
import Mathlib.Algebra.Ring.Int.Defs
import Graft.Patch
import Graft.Session

namespace Graft

/-- A run of the matcher: its result, which may be a fault, and its effort. -/
abbrev Search.Run : Type := Except Fault Match × Search.Effort

namespace Tally

/-- The tally of some runs of the matcher, whatever came of them. -/
def ofRuns (runs : List Search.Run) : Tally :=
  ⟨runs.length, (runs.map fun run => (run.2.steps : Int)).sum,
    (runs.map fun run => (run.2.branches : Int)).sum⟩

@[simp]
theorem recordAll_nil (tally : Tally) : tally.recordAll [] = tally := rfl

theorem recordAll_append (tally : Tally) (first second : List Search.Effort) :
    tally.recordAll (first ++ second) = (tally.recordAll first).recordAll second :=
  List.foldl_append

theorem recordAll_eq (runs : List Search.Run) : ∀ tally : Tally,
    tally.recordAll (runs.map (·.2)) = ⟨tally.calls + (ofRuns runs).calls,
      tally.steps + (ofRuns runs).steps, tally.branches + (ofRuns runs).branches⟩ := by
  induction runs with
  | nil =>
    intro tally
    simp [recordAll, ofRuns]
  | cons run runs ih =>
    intro tally
    rw [List.map_cons, recordAll, List.foldl_cons, ← recordAll, ih]
    simp only [record, ofRuns, List.length_cons, List.map_cons, List.sum_cons, mk.injEq]
    omega

theorem recordAll_new (runs : List Search.Run) :
    ({} : Tally).recordAll (runs.map (·.2)) = ofRuns runs := by
  rw [recordAll_eq]
  simp

end Tally

/-! ### Searches -/

/-- A search that is made in a session, with settings of its own or with those in force: a pattern
in tokens, a patch of a text, or a document applied to a text. -/
inductive Job where
  | locate (settings : Option Settings) (source : List Token) (length : Int) (pattern : Pattern)
  | apply (settings : Option Settings) (parser : Option Parser) (tokenizer : Option Tokenizer)
    (source snippet patch : Text)
  | applyDocument (settings : Option Settings) (parser : Option Parser)
    (tokenizer : Option Tokenizer) (source document : Text) (file : Option Text)

namespace Job

/-- The efforts that a search reports. -/
def efforts (session : Session) : Job → List Search.Effort
  | locate settings source length pattern =>
    (Patch.locate (settings.getD session.settings) source length pattern).efforts
  | apply settings parser tokenizer source snippet patch =>
    (Patch.apply ⟨session.registry, parser⟩ (settings.getD session.settings) tokenizer source
      snippet patch).efforts
  | applyDocument settings parser tokenizer source document file =>
    (Patch.applyDocument ⟨session.registry, parser⟩ (settings.getD session.settings) tokenizer
      source document file).efforts

/-- The search ends with a fault. -/
def fails (session : Session) : Job → Bool
  | locate settings source length pattern =>
    !(Patch.locate (settings.getD session.settings) source length pattern).result.isOk
  | apply settings parser tokenizer source snippet patch =>
    !(Patch.apply ⟨session.registry, parser⟩ (settings.getD session.settings) tokenizer source
      snippet patch).result.isOk
  | applyDocument settings parser tokenizer source document file =>
    !(Patch.applyDocument ⟨session.registry, parser⟩ (settings.getD session.settings) tokenizer
      source document file).result.isOk

/-- The runs of the matcher when a text is patched: one, if the text can be read at all. -/
def runsWith (settings : Settings) (tokenizer : Tokenizer) (source snippet : Text) :
    List Search.Run :=
  match (tokenizer.tokenize source).1 with
  | .error _ => []
  | .ok tokens => [Search.find settings tokens source.length (.ofText snippet) {}]

/-- The runs of the matcher when a text is patched, perhaps with the tokenizer of the settings. -/
def applyRuns (surroundings : Surroundings) (settings : Settings) (tokenizer : Option Tokenizer)
    (source snippet : Text) : List Search.Run :=
  match tokenizer with
  | some tokenizer => runsWith settings tokenizer source snippet
  | none =>
    match surroundings.registry.choose surroundings.parser settings.tokenizer with
    | .error _ => []
    | .ok tokenizer => runsWith settings tokenizer source snippet

/-- The runs of the matcher that a search makes, with their results. -/
def runs (session : Session) : Job → List Search.Run
  | locate settings source length pattern =>
    [Search.find (settings.getD session.settings) source length pattern {}]
  | apply settings parser tokenizer source snippet _ =>
    applyRuns ⟨session.registry, parser⟩ (settings.getD session.settings) tokenizer source snippet
  | applyDocument settings parser tokenizer source document file =>
    match Document.fragments document file with
    | .error _ => []
    | .ok fragments =>
      applyRuns ⟨session.registry, parser⟩ (settings.getD session.settings) tokenizer source
        fragments.snippet

theorem efforts_applyWith (settings : Settings) (tokenizer : Tokenizer)
    (source snippet patch : Text) :
    (Patch.applyWith settings tokenizer source snippet patch).efforts
      = (runsWith settings tokenizer source snippet).map (·.2) := by
  simp only [Patch.applyWith, Outcome.andThen, Patch.readSource, runsWith]
  cases (tokenizer.tokenize source).1 with
  | error fault => rfl
  | ok tokens =>
    -- the run counts whether or not the place is found
    simp only [Patch.locate, List.nil_append, List.map_cons, List.map_nil]
    cases (Search.find settings tokens source.length (.ofText snippet) {}).1 with
    | error fault => rfl
    | ok found => rfl

theorem efforts_apply (surroundings : Surroundings) (settings : Settings)
    (tokenizer : Option Tokenizer) (source snippet patch : Text) :
    (Patch.apply surroundings settings tokenizer source snippet patch).efforts
      = (applyRuns surroundings settings tokenizer source snippet).map (·.2) := by
  cases tokenizer with
  | some tokenizer => exact efforts_applyWith _ _ _ _ _
  | none =>
    simp only [Patch.apply, applyRuns, Outcome.andThen, Outcome.of]
    cases surroundings.registry.choose surroundings.parser settings.tokenizer with
    | error fault => rfl
    | ok tokenizer => exact efforts_applyWith _ _ _ _ _

/-- A search reports the effort of every run of the matcher. -/
theorem efforts_eq (session : Session) (job : Job) :
    job.efforts session = (job.runs session).map (·.2) := by
  cases job with
  | locate settings source length pattern => rfl
  | apply settings parser tokenizer source snippet patch => exact efforts_apply _ _ _ _ _ _
  | applyDocument settings parser tokenizer source document file =>
    simp only [efforts, runs, Patch.applyDocument, Outcome.andThen, Outcome.of]
    cases Document.fragments document file with
    | error fault => rfl
    | ok fragments => exact efforts_apply _ _ _ _ _ _

end Job

/-! ### Scripts -/

namespace Session

/-- A block with settings of its own: the session when it has been left. -/
def settingsBlock (session : Session) (settings : Settings) (body : Session → Session) : Session :=
  let (entered, handle) := session.enterSettings settings
  ((body entered).leave handle).1

/-- A block with a tally of its own: the session when it has been left, and the tally. -/
def tallyBlock (session : Session) (body : Session → Session) : Session × Option Tally :=
  let (entered, handle) := session.enterTally
  (body entered).leave handle

end Session

/-- What happens in a session, with contexts one inside the other.  Where a search fails, or the
body of a block does, what is next does not happen, unless it comes behind an attempt. -/
inductive Script where
  | done
  | use (settings : Settings) (next : Script)
  | reset (next : Script)
  | search (job : Job) (next : Script)
  | withSettings (settings : Settings) (body next : Script)
  | withTally (body next : Script)
  | attempt (body next : Script)

/-- A block that was left: the sessions before it was entered and after it was left, and for a tally
block the tally that was in force inside, what it held in the end, and the runs of the matcher in
the block and outside all tally blocks in it. -/
inductive Leaving where
  | settings (before after : Session)
  | tally (before after : Session) (own : Option Nat) (held : Option Tally) (runs : List Search.Run)

namespace Script

mutual

/-- The session after a script. -/
def perform : Script → Session → Session
  | done, session => session
  | use settings next, session => next.perform (session.useSettings settings)
  | reset next, session => next.perform (session.useSettings {})
  | search job next, session =>
    let after := session.absorb (job.efforts session)
    if job.fails session then after else next.perform after
  | withSettings settings body next, session =>
    let after := session.settingsBlock settings body.perform
    if body.raises (session.enterSettings settings).1 then after else next.perform after
  | withTally body next, session =>
    let after := (session.tallyBlock body.perform).1
    if body.raises session.enterTally.1 then after else next.perform after
  | attempt body next, session => next.perform (body.perform session)

/-- The script ends with the fault of a search. -/
def raises : Script → Session → Bool
  | done, _ => false
  | use settings next, session => next.raises (session.useSettings settings)
  | reset next, session => next.raises (session.useSettings {})
  | search job next, session =>
    job.fails session || next.raises (session.absorb (job.efforts session))
  | withSettings settings body next, session =>
    body.raises (session.enterSettings settings).1
      || next.raises (session.settingsBlock settings body.perform)
  | withTally body next, session =>
    body.raises session.enterTally.1 || next.raises (session.tallyBlock body.perform).1
  | attempt body next, session => next.raises (body.perform session)

end

/-- The runs of the matcher that a script makes outside its tally blocks. -/
def runs : Script → Session → List Search.Run
  | done, _ => []
  | use settings next, session => next.runs (session.useSettings settings)
  | reset next, session => next.runs (session.useSettings {})
  | search job next, session =>
    job.runs session ++ if job.fails session then []
      else next.runs (session.absorb (job.efforts session))
  | withSettings settings body next, session =>
    let entered := (session.enterSettings settings).1
    body.runs entered ++ if body.raises entered then []
      else next.runs (session.settingsBlock settings body.perform)
  | withTally body next, session =>
    if body.raises session.enterTally.1 then []
    else next.runs (session.tallyBlock body.perform).1
  | attempt body next, session => body.runs session ++ next.runs (body.perform session)

/-- All blocks of a script, in the order in which they are left. -/
def leavings : Script → Session → List Leaving
  | done, _ => []
  | use settings next, session => next.leavings (session.useSettings settings)
  | reset next, session => next.leavings (session.useSettings {})
  | search job next, session =>
    if job.fails session then [] else next.leavings (session.absorb (job.efforts session))
  | withSettings settings body next, session =>
    let entered := (session.enterSettings settings).1
    let after := session.settingsBlock settings body.perform
    body.leavings entered
      ++ .settings session after :: if body.raises entered then [] else next.leavings after
  | withTally body next, session =>
    let entered := session.enterTally.1
    let left := session.tallyBlock body.perform
    body.leavings entered
      ++ .tally session left.1 entered.active left.2 (body.runs entered)
        :: if body.raises entered then [] else next.leavings left.1
  | attempt body next, session =>
    body.leavings session ++ next.leavings (body.perform session)

end Script

/-! ### What a script keeps -/

namespace Session

variable {session : Session} {runs : List Search.Run}

/-- All contexts and tallies are as before, but for the tally in force, which has taken some runs
of the matcher. -/
structure Keeps (before after : Session) (runs : List Search.Run) : Prop where
  active : after.active = before.active
  tallies_le : before.tallies.length ≤ after.tallies.length
  tally : ∀ i, i < before.tallies.length → after.tallies[i]? = before.tallies[i]?.map fun tally =>
    if before.active = some i then tally.recordAll (runs.map (·.2)) else tally
  contexts_le : before.contexts.length ≤ after.contexts.length
  context : ∀ i, i < before.contexts.length → after.contexts[i]? = before.contexts[i]?

theorem keeps_of_eq {before after : Session} (hactive : after.active = before.active)
    (htallies : after.tallies = before.tallies) (hcontexts : after.contexts = before.contexts) :
    before.Keeps after [] := by
  refine ⟨hactive, ?_, fun i _ => ?_, ?_, fun i _ => ?_⟩
  · exact Nat.le_of_eq (by rw [htallies])
  · simp [htallies]
  · exact Nat.le_of_eq (by rw [hcontexts])
  · rw [hcontexts]

theorem keeps_search (session : Session) (job : Job) :
    session.Keeps (session.absorb (job.efforts session)) (job.runs session) := by
  rw [job.efforts_eq, absorb, updateTally]
  split
  · next hactive =>
    refine ⟨rfl, Nat.le_refl _, fun i _ => ?_, Nat.le_refl _, fun _ _ => rfl⟩
    simp [hactive]
  · next own hactive =>
    refine ⟨rfl, by simp, fun i _ => ?_, Nat.le_refl _, fun _ _ => rfl⟩
    simp [hactive, List.getElem?_modify]

theorem Keeps.trans {before middle after : Session} {first second : List Search.Run}
    (h : before.Keeps middle first) (h' : middle.Keeps after second) :
    before.Keeps after (first ++ second) := by
  refine ⟨h'.active.trans h.active, Nat.le_trans h.tallies_le h'.tallies_le, fun i hi => ?_,
    Nat.le_trans h.contexts_le h'.contexts_le, fun i hi => ?_⟩
  · rw [h'.tally i (Nat.lt_of_lt_of_le hi h.tallies_le), h.tally i hi, h.active, Option.map_map]
    congr 1
    funext tally
    simp only [Function.comp]
    split
    · rw [List.map_append, Tally.recordAll_append]
    · rfl
  · rw [h'.context i (Nat.lt_of_lt_of_le hi h.contexts_le), h.context i hi]

/-- What is kept by going on is kept too where a fault ends it. -/
theorem Keeps.unless {middle after : Session} (raised : Bool) (h : middle.Keeps after runs) :
    middle.Keeps (if raised then middle else after) (if raised then [] else runs) := by
  cases raised with
  | false => exact h
  | true => exact keeps_of_eq rfl rfl rfl

/-- The tally in force is one of those that were opened. -/
def IsSound (session : Session) : Prop := ∀ i, session.active = some i → i < session.tallies.length

theorem Keeps.isSound {before after : Session} (h : before.Keeps after runs)
    (hsound : before.IsSound) : after.IsSound := by
  intro i hi
  exact Nat.lt_of_lt_of_le (hsound i (h.active ▸ hi)) h.tallies_le

theorem isSound_enterTally (session : Session) : session.enterTally.1.IsSound := by
  intro i hi
  obtain rfl := Option.some.inj hi
  simp [enterTally]

/-! ### Leaving a block -/

/-- Leaving a context behind whatever was entered and left in it: it is found where it was put, and
the contexts before it are untouched. -/
theorem leave_entered (session : Session) {entered after : Session} {context : Context}
    (hcontexts : entered.contexts = session.contexts ++ [context]) (h : entered.Keeps after runs) :
    ∃ contexts : List Context, after.leave session.contexts.length
        = ({ after.restore context with contexts }, context.own?.bind (after.tallies[·]?))
      ∧ session.contexts.length ≤ contexts.length
      ∧ ∀ i, i < session.contexts.length → contexts[i]? = session.contexts[i]? := by
  have hlength : entered.contexts.length = session.contexts.length + 1 := by simp [hcontexts]
  have hcontext : after.contexts[session.contexts.length]? = some context := by
    rw [h.context _ (by omega), hcontexts, List.getElem?_concat_length]
  refine ⟨after.contexts.set session.contexts.length (.left context.own?), ?_, ?_, fun i hi => ?_⟩
  · simp only [leave, hcontext]
  · have hle := h.contexts_le
    rw [List.length_set]
    omega
  · rw [List.getElem?_set_ne (by omega), h.context i (by omega), hcontexts,
      List.getElem?_append_left hi]

/-- A settings block puts back the settings, and its runs count for the tally in force. -/
theorem settings_leave {settings : Settings} {body : Session → Session}
    (h : (session.enterSettings settings).1.Keeps (body (session.enterSettings settings).1) runs) :
    session.Keeps (session.settingsBlock settings body) runs
      ∧ (session.settingsBlock settings body).settings = session.settings
      ∧ (session.settingsBlock settings body).tallies
        = (body (session.enterSettings settings).1).tallies := by
  obtain ⟨contexts, hleave, hle, hcontexts⟩ := leave_entered session rfl h
  have hblock : session.settingsBlock settings body
      = { (body (session.enterSettings settings).1) with
          settings := session.settings, contexts } := congrArg Prod.fst hleave
  rw [hblock]
  exact ⟨⟨h.active, h.tallies_le, h.tally, hle, hcontexts⟩, rfl, rfl⟩

/-- A tally block puts back the tally in force, and has added up the runs in its own one. -/
theorem tally_leave {body : Session → Session}
    (h : session.enterTally.1.Keeps (body session.enterTally.1) runs) :
    session.Keeps (session.tallyBlock body).1 []
      ∧ (session.tallyBlock body).2 = some (.ofRuns runs)
      ∧ (session.tallyBlock body).1.tallies[session.tallies.length]? = some (.ofRuns runs)
      ∧ (session.tallyBlock body).1.tallies = (body session.enterTally.1).tallies := by
  obtain ⟨contexts, hleave, hle, hcontexts⟩ := leave_entered session rfl h
  have hblock : session.tallyBlock body
      = ({ (body session.enterTally.1) with active := session.active, contexts },
          (body session.enterTally.1).tallies[session.tallies.length]?) := hleave
  have hlength : session.enterTally.1.tallies.length = session.tallies.length + 1 :=
    List.length_append
  have hin : session.enterTally.1.active = some session.tallies.length := rfl
  have htotal : (body session.enterTally.1).tallies[session.tallies.length]?
      = some (.ofRuns runs) := by
    have hnew : session.enterTally.1.tallies[session.tallies.length]? = some {} :=
      List.getElem?_concat_length
    rw [h.tally session.tallies.length (by omega), hnew, Option.map_some, if_pos hin,
      Tally.recordAll_new]
  rw [hblock]
  refine ⟨⟨rfl, Nat.le_trans (by omega) h.tallies_le, fun i hi => ?_, hle, hcontexts⟩, htotal,
    htotal, rfl⟩
  -- the tally in force inside is another one
  have hne : session.enterTally.1.active ≠ some i := by
    rw [hin, ne_eq, Option.some.injEq]
    omega
  have hold : session.enterTally.1.tallies[i]? = session.tallies[i]? :=
    List.getElem?_append_left hi
  simp [h.tally i (by omega), hne, hold]

end Session

/-! ### Whole scripts -/

/-- A script keeps what was there, and the tally in force takes its own runs. -/
theorem Script.keeps_perform (script : Script) : ∀ session : Session,
    session.Keeps (script.perform session) (script.runs session) := by
  induction script with
  | done => exact fun session => Session.keeps_of_eq rfl rfl rfl
  | use settings next ih =>
    intro session
    have hused : session.Keeps (session.useSettings settings) [] := Session.keeps_of_eq rfl rfl rfl
    exact hused.trans (ih _)
  | reset next ih =>
    intro session
    have hused : session.Keeps (session.useSettings {}) [] := Session.keeps_of_eq rfl rfl rfl
    exact hused.trans (ih _)
  | search job next ih =>
    intro session
    exact (session.keeps_search job).trans ((ih _).unless _)
  | withSettings settings body next ihBody ih =>
    intro session
    exact (Session.settings_leave (ihBody _)).1.trans ((ih _).unless _)
  | withTally body next ihBody ih =>
    intro session
    exact (Session.tally_leave (ihBody _)).1.trans ((ih _).unless _)
  | attempt body next ihBody ih =>
    intro session
    exact (ihBody _).trans (ih _)

namespace Leaving

/-- A settings block has put back the settings.  A tally block has put back the tally in force, and
its own one holds the runs of the matcher in the block and outside all tally blocks in it, when
the block is left and in `tallies`, which are those of some later time. -/
def Disciplined (tallies : List Tally) : Leaving → Prop
  | settings before after => after.settings = before.settings
  | tally before after own held runs => after.active = before.active
    ∧ held = some (.ofRuns runs) ∧ own.bind (tallies[·]?) = some (.ofRuns runs)

/-- The tally of the block is none of the first `n`. -/
def IsBehind (n : Nat) : Leaving → Prop
  | settings _ _ => True
  | tally _ _ own _ _ => ∀ i, own = some i → n ≤ i

theorem IsBehind.mono {m n : Nat} {leaving : Leaving} (h : leaving.IsBehind n) (hle : m ≤ n) :
    leaving.IsBehind m := by
  cases leaving with
  | settings before after => trivial
  | tally before after own held runs => exact fun i hi => Nat.le_trans hle (h i hi)

/-- What a block has done lasts while an older tally is in force. -/
theorem Disciplined.later {leaving : Leaving} {session middle final : Session}
    {runs : List Search.Run} (h : leaving.Disciplined middle.tallies)
    (hbehind : leaving.IsBehind session.tallies.length) (hsound : session.IsSound)
    (hactive : middle.active = session.active) (hkeeps : middle.Keeps final runs) :
    leaving.Disciplined final.tallies := by
  cases leaving with
  | settings before after => exact h
  | tally before after own held runs =>
    obtain ⟨hrestored, hheld, htotal⟩ := h
    refine ⟨hrestored, hheld, ?_⟩
    cases own with
    | none => simp at htotal
    | some own =>
      rw [Option.bind_some] at htotal ⊢
      have hlt : own < middle.tallies.length := (List.getElem?_eq_some_iff.mp htotal).1
      have hne : middle.active ≠ some own := by
        intro heq
        have hopened := hsound own (hactive ▸ heq)
        exact Nat.not_le.mpr hopened (hbehind own rfl)
      simp [hkeeps.tally own hlt, hne, htotal]

end Leaving

/-- The tallies of the blocks of a script are new ones. -/
theorem Script.isBehind_leavings (script : Script) : ∀ session : Session,
    ∀ leaving ∈ script.leavings session, leaving.IsBehind session.tallies.length := by
  induction script with
  | done => exact fun _ _ h => absurd h (by simp [leavings])
  | use settings next ih => exact fun session => ih (session.useSettings settings)
  | reset next ih => exact fun session => ih (session.useSettings {})
  | search job next ih =>
    intro session leaving hleaving
    have hnext := (List.mem_ite_nil_left.mp hleaving).2
    exact (ih _ leaving hnext).mono (session.keeps_search job).tallies_le
  | withSettings settings body next ihBody ih =>
    intro session leaving hleaving
    have hleft := (Session.settings_leave (body.keeps_perform (session.enterSettings settings).1)).1
    rcases List.mem_append.mp hleaving with hinner | hrest
    · exact ihBody (session.enterSettings settings).1 leaving hinner
    · rcases List.mem_cons.mp hrest with rfl | hrest
      · trivial
      · have hnext := (List.mem_ite_nil_left.mp hrest).2
        exact (ih _ leaving hnext).mono hleft.tallies_le
  | withTally body next ihBody ih =>
    intro session leaving hleaving
    have hleft := (Session.tally_leave (body.keeps_perform session.enterTally.1)).1
    rcases List.mem_append.mp hleaving with hinner | hrest
    · exact (ihBody _ leaving hinner).mono (by simp [Session.enterTally])
    · rcases List.mem_cons.mp hrest with rfl | hrest
      · exact fun i hi => Nat.le_of_eq (Option.some.inj hi)
      · have hnext := (List.mem_ite_nil_left.mp hrest).2
        exact (ih _ leaving hnext).mono hleft.tallies_le
  | attempt body next ihBody ih =>
    intro session leaving hleaving
    rcases List.mem_append.mp hleaving with hinner | hrest
    · exact ihBody session leaving hinner
    · exact (ih _ leaving hrest).mono (body.keeps_perform session).tallies_le

/-- **Contexts are disciplined.**  Whenever a script leaves a settings block, the settings in force
are those of its beginning; whenever it leaves a tally block, the tally in force is that of its
beginning, and the tally of the block counts the runs of the matcher in the block and outside all
tally blocks in it, with their steps and branches, then and ever after. -/
theorem Script.leavings_disciplined (script : Script) : ∀ {session : Session}, session.IsSound →
    ∀ leaving ∈ script.leavings session,
      leaving.Disciplined (script.perform session).tallies := by
  induction script with
  | done => exact fun _ _ h => absurd h (by simp [leavings])
  | use settings next ih => exact fun hsound => ih hsound
  | reset next ih => exact fun hsound => ih hsound
  | search job next ih =>
    intro session hsound leaving hleaving
    obtain ⟨hfound, hnext⟩ := List.mem_ite_nil_left.mp hleaving
    simp only [perform, if_neg hfound]
    exact ih ((session.keeps_search job).isSound hsound) leaving hnext
  | withSettings settings body next ihBody ih =>
    intro session hsound leaving hleaving
    obtain ⟨hleft, hrestored, htallies⟩ :=
      Session.settings_leave (body.keeps_perform (session.enterSettings settings).1)
    rcases List.mem_append.mp hleaving with hinner | hrest
    · have hentered : (session.enterSettings settings).1.IsSound := hsound
      have hdisciplined := ihBody hentered leaving hinner
      have hbehind := body.isBehind_leavings (session.enterSettings settings).1 leaving hinner
      rw [← htallies] at hdisciplined
      exact hdisciplined.later hbehind hentered hleft.active ((next.keeps_perform _).unless _)
    · rcases List.mem_cons.mp hrest with rfl | hrest
      · exact hrestored
      · obtain ⟨hfine, hnext⟩ := List.mem_ite_nil_left.mp hrest
        simp only [perform, if_neg hfine]
        exact ih (hleft.isSound hsound) leaving hnext
  | withTally body next ihBody ih =>
    intro session hsound leaving hleaving
    obtain ⟨hleft, hheld, htotal, htallies⟩ :=
      Session.tally_leave (body.keeps_perform session.enterTally.1)
    rcases List.mem_append.mp hleaving with hinner | hrest
    · have hdisciplined := ihBody session.isSound_enterTally leaving hinner
      have hbehind := body.isBehind_leavings session.enterTally.1 leaving hinner
      rw [← htallies] at hdisciplined
      have hnew : session.tallies.length ≤ session.enterTally.1.tallies.length := by
        simp [Session.enterTally]
      exact hdisciplined.later (hbehind.mono hnew) hsound hleft.active ((next.keeps_perform _).unless _)
    · rcases List.mem_cons.mp hrest with rfl | hrest
      · have hblock : (Leaving.tally session (session.tallyBlock body.perform).1
            session.enterTally.1.active (session.tallyBlock body.perform).2
            (body.runs session.enterTally.1)).Disciplined
              (session.tallyBlock body.perform).1.tallies := ⟨hleft.active, hheld, htotal⟩
        exact hblock.later (fun i hi => Nat.le_of_eq (Option.some.inj hi)) hsound hleft.active
          ((next.keeps_perform _).unless _)
      · obtain ⟨hfine, hnext⟩ := List.mem_ite_nil_left.mp hrest
        simp only [perform, if_neg hfine]
        exact ih (hleft.isSound hsound) leaving hnext
  | attempt body next ihBody ih =>
    intro session hsound leaving hleaving
    have hkeeps := body.keeps_perform session
    rcases List.mem_append.mp hleaving with hinner | hrest
    · exact (ihBody hsound leaving hinner).later (body.isBehind_leavings session leaving hinner)
        hsound hkeeps.active (next.keeps_perform _)
    · exact ih (hkeeps.isSound hsound) leaving hrest

/-- A search that fails; then, with other settings in force, a search that is cut off and ends two
blocks, and one that finds something. -/
def nestedScript : Script :=
  let find (snippet : String) : Job :=
    .apply none none none "f();".toList snippet.toList []
  .withTally
    (.attempt (.search (find "g>>>") .done)
      (.withSettings { maxSteps := .int 2 }
        (.attempt
          (.withTally
            (.withSettings { maxSteps := .int 2, relativeDepth := .bool true }
              (.search (find "f();>>>") .done) (.use {} .done))
            (.search (find "f();>>>") .done))
          (.use {} (.search (find "f();>>>") .done)))
        .done))
    (.reset .done)

/-- The cut off search counts for the inner tally alone, and the failed one for the outer; the
search behind the inner tally block is skipped. -/
theorem leavings_disciplined_nested : (nestedScript.leavings {}).length = 4
    ∧ (nestedScript.perform {}).tallies = [⟨2, 5, 0⟩, ⟨1, 3, 0⟩]
    ∧ ∀ leaving ∈ nestedScript.leavings {},
      leaving.Disciplined (nestedScript.perform {}).tallies :=
  ⟨by decide +kernel, by decide +kernel, nestedScript.leavings_disciplined (fun _ h => nomatch h)⟩

end Graft
