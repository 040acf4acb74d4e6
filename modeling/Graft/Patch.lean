/-
Applying a patch.

A source text is patched by a match snippet and a patch text, or by a document
that holds both: the source is read, the snippet is searched in it, and the patch
is spliced in where the snippet says.

Everything that happens on the way is part of the outcome: the result, the effort
of the searches made, and the log records, each in the order of happening.
-/
import Graft.Document.Basic
import Graft.Splice
import Graft.Tokenizer

namespace Graft

/-- A result with the effort of the searches and the records on the way to it. -/
structure Outcome (α : Type) where
  result : Except Fault α
  efforts : List Search.Effort := []
  records : List Log.Record := []

namespace Outcome

/-- Nothing but a result. -/
def of {α : Type} (result : Except Fault α) : Outcome α := { result }

/-- What happens next, if all went well so far. -/
def andThen {α β : Type} (outcome : Outcome α) (next : α → Outcome β) : Outcome β :=
  match outcome.result with
  | .error fault => ⟨.error fault, outcome.efforts, outcome.records⟩
  | .ok a =>
    let after := next a
    ⟨after.result, outcome.efforts ++ after.efforts, outcome.records ++ after.records⟩

theorem result_andThen {α β : Type} {outcome : Outcome α} {a : α} (h : outcome.result = .ok a)
    (next : α → Outcome β) : (outcome.andThen next).result = (next a).result := by
  rw [andThen, h]

theorem exists_of_andThen {α β : Type} {outcome : Outcome α} {next : α → Outcome β} {b : β}
    (h : (outcome.andThen next).result = .ok b) :
    ∃ a, outcome.result = .ok a ∧ (next a).result = .ok b := by
  rw [andThen] at h
  split at h
  · simp at h
  · next a ha => exact ⟨a, ha, h⟩

end Outcome

/-- A patched text: what was found, how the patch was laid out, and where it
stands. -/
structure Patched where
  text : Text
  found : Match
  style : Style
  inserted : Location
  deriving Repr, DecidableEq

/-- What a run finds around it: the registered tokenizers, and a parser if there is
one. -/
structure Surroundings where
  registry : Registry := .initial
  parser : Option Parser := none

namespace Patch

/-- Reads a source text with a tokenizer. -/
def readSource (tokenizer : Tokenizer) (source : Text) : Outcome (List Token) :=
  let (result, records) := tokenizer.tokenize source
  { result, records }

/-- Reads a source text with the tokenizer of a name; without a name, or with an empty
one, the tokenizer of the settings is taken. -/
def readNamed (surroundings : Surroundings) (settings : Settings) (name source : Text) :
    Outcome (List Token) :=
  let name := if name.isEmpty then settings.tokenizer else .text name
  (Outcome.of (surroundings.registry.choose surroundings.parser name)).andThen
    (readSource · source)

/-- Searches a pattern in source tokens. -/
def locate (settings : Settings) (source : List Token) (length : Int) (pattern : Pattern) :
    Outcome Match :=
  let (result, effort) := Search.find settings source length pattern {}
  ⟨result, [effort], Search.records pattern result effort⟩

/-- The record of reading a pattern and a source text. -/
def readRecord (pattern : Pattern) (source : List Token) (tokenizer : Tokenizer) : Log.Record :=
  .debug "engine" <| "Lexed ".toList ++ Text.ofNat pattern.tokens.length
    ++ " pattern tokens, ".toList ++ Text.ofNat source.length ++ " source tokens (".toList
    ++ tokenizer.name ++ [')']

/-- Patches a source text with a snippet and a patch text. -/
def applyWith (settings : Settings) (tokenizer : Tokenizer) (source snippet patch : Text) :
    Outcome Patched :=
  let pattern := Pattern.ofText snippet
  (readSource tokenizer source).andThen fun tokens =>
    let style := Style.ofSnippet snippet
    let located : Outcome Match :=
      let outcome := locate settings tokens source.length pattern
      { outcome with records := readRecord pattern tokens tokenizer :: outcome.records }
    located.andThen fun found =>
      let spliced := splice source found patch style
      .of (.ok ⟨spliced.text, found, style, spliced.inserted⟩)

/-- Patches a source text with a snippet and a patch text; without a tokenizer the one
of the settings is taken. -/
def apply (surroundings : Surroundings) (settings : Settings) (tokenizer : Option Tokenizer)
    (source snippet patch : Text) : Outcome Patched :=
  match tokenizer with
  | some tokenizer => applyWith settings tokenizer source snippet patch
  | none =>
    (Outcome.of (surroundings.registry.choose surroundings.parser settings.tokenizer)).andThen
      fun tokenizer => applyWith settings tokenizer source snippet patch

/-- Patches a source text with the fragments of a document. -/
def applyDocument (surroundings : Surroundings) (settings : Settings)
    (tokenizer : Option Tokenizer) (source document : Text) (file : Option Text) :
    Outcome Patched :=
  (Outcome.of (Document.fragments document file)).andThen fun fragments =>
    apply surroundings settings tokenizer source fragments.snippet fragments.patch

end Patch

end Graft
