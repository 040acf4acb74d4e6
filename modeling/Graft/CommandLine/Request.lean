/-
Reading a command line.

Each word of a command line is an option, possibly with a value attached, or a
plain word.  Long options may be abbreviated as long as it is clear which one is
meant; short options that take no value may be written together, and the value of
a short option may follow it at once.  Behind `--` all words are plain.  Words that
are no options and no values of options are left over, and refused at the end.

An option with `--` attached to it counts as given and has no value: two hyphens are
never a value.

* `Word.ofText` — what a word is, on its own;
* `Request.ofWords` — the request that a command line makes, or why there is none.
-/
import Graft.CommandLine.Flag
import Graft.Settings
import Graft.Text.Numeral

namespace Graft.CommandLine

/-- Why a command line makes no request. -/
inductive Stop where
  | help
  | version
  | misuse (message : Text)
  deriving Repr, DecidableEq

/-- A word of a command line: one that can be a value, one that is neither an option
nor a value, or an option with what is attached to it. -/
inductive Word where
  | plain (t : Text)
  | unknown (t : Text)
  | option (flag : Flag) (short : Bool) (attached : Option Text)
  deriving Repr, DecidableEq

/-- The text before the first equals sign, and the text behind it if there is one. -/
def splitEquals : Text → Text × Option Text
  | [] => ([], none)
  | c :: cs =>
    if c = '=' then ([], some cs)
    else
      let (name, value) := splitEquals cs
      (c :: name, value)

/-- A decimal digit of any script. -/
def isDecimal (c : Char) : Bool := (Text.decimalValue? c).isSome

/-- The text is a negative number, with or without a fraction.  One newline at its end
does not matter. -/
def isNegativeNumber (t : Text) : Bool :=
  let t := if Text.endsWithNewline t then t.dropLast else t
  match t with
  | '-' :: cs =>
    match cs.dropWhile isDecimal with
    | [] => !cs.isEmpty
    | '.' :: fraction => !fraction.isEmpty && fraction.all isDecimal
    | _ => false
  | _ => false

/-- The second character is a hyphen too. -/
def isLong (t : Text) : Bool := t[1]? == some '-'

/-- The spellings that a word may stand for, with what is attached. -/
def readings (t : Text) : List (Text × Flag × Option Text) :=
  if isLong t then
    let (name, value) := splitEquals t
    (Flag.table.filter (name.isPrefixOf ·.1)).map fun (spelling, flag) => (spelling, flag, value)
  else
    (Flag.table.filter (·.1 == t.take 2)).map fun (spelling, flag) =>
      (spelling, flag, some (t.drop 2))

/-- A word that has no spelling of an option. -/
def Word.abbreviated (t : Text) : Except Stop Word :=
  match readings t with
  | [] => .ok (if isNegativeNumber t || t.contains ' ' then .plain t else .unknown t)
  | [(spelling, flag, attached)] => .ok (.option flag (!isLong spelling) attached)
  | several =>
    .error (.misuse ("ambiguous option: ".toList ++ t ++ " could match ".toList
      ++ Text.join ", ".toList (several.map (·.1))))

/-- What a word is. -/
def Word.ofText (t : Text) : Except Stop Word :=
  if t.head? ≠ some '-' then .ok (.plain t)
  else match Flag.ofSpelling? t with
    | some flag => .ok (.option flag (!isLong t) none)
    | none =>
      if t.length = 1 then .ok (.plain t)
      else match splitEquals t with
        | (_, none) => Word.abbreviated t
        | (name, some value) =>
          match Flag.ofSpelling? name with
          | some flag => .ok (.option flag (!isLong name) (some value))
          | none => Word.abbreviated t

/-- The words of a command line; behind `--` all are plain. -/
def wordsOf : List Text → Except Stop (List Word)
  | [] => .ok []
  | t :: ts =>
    if t = ['-', '-'] then .ok (.unknown t :: ts.map .plain)
    else return (← Word.ofText t) :: (← wordsOf ts)

/-- The refusal of an option. -/
def Flag.refuse (flag : Flag) (reason : Text) : Stop :=
  .misuse ("argument ".toList ++ flag.label ++ ": ".toList ++ reason)

/-- The refusal of what is attached to an option. -/
def Flag.refuseAttached (flag : Flag) (t : Text) : Stop :=
  flag.refuse ("ignored explicit argument ".toList ++ Text.quoted t)

/-- The options of one word. -/
structure Cluster where
  /-- The options that are complete, with their values. -/
  given : List (Flag × Option Text) := []
  /-- An option that takes the next word as its value. -/
  awaiting : Option Flag := none
  deriving Repr, DecidableEq

/-- An option in front. -/
def Cluster.behind (flag : Flag) (cluster : Cluster) : Cluster :=
  { cluster with given := (flag, none) :: cluster.given }

/-- An option with nothing attached. -/
def Cluster.ofFlag (flag : Flag) : Cluster :=
  if flag.takesValue then { awaiting := some flag } else { given := [(flag, none)] }

/-- The value that an attached text is; two hyphens are none. -/
def attachedValue (t : Text) : Option Text := if t = ['-', '-'] then none else some t

/-- An option with something attached: its value, or further short options. -/
def Cluster.ofAttached (flag : Flag) (short : Bool) : Text → Except Stop Cluster
  | [] =>
    if flag.takesValue then .ok { given := [(flag, some [])] }
    else .error (flag.refuseAttached [])
  | c :: cs =>
    if flag.takesValue then .ok { given := [(flag, attachedValue (c :: cs))] }
    else if !short then .error (flag.refuseAttached (c :: cs))
    else match Flag.ofSpelling? ['-', c] with
      | none => .error (flag.refuseAttached (c :: cs))
      | some next =>
        match cs with
        | [] => .ok ((Cluster.ofFlag next).behind flag)
        | d :: ds => (Cluster.ofAttached next true (d :: ds)).map (·.behind flag)

/-- The options of a word. -/
def Cluster.of (flag : Flag) (short : Bool) : Option Text → Except Stop Cluster
  | none => .ok (Cluster.ofFlag flag)
  | some attached => Cluster.ofAttached flag short attached

/-- The value of an option that was given without one. -/
def noValue : Value := .list .nil

/-- What a command line asks for.  A path is missing if its option was not given, or
was given without a value. -/
structure Request where
  source : Option Text := none
  document : Option Text := none
  output : Option Text := none
  settings : Settings := {}
  openEditor : Bool := false
  verbose : Bool := false
  deriving Repr, DecidableEq

/-- The request with other settings. -/
def Request.set (request : Request) (change : Settings → Settings) : Request :=
  { request with settings := change request.settings }

/-- The request with the value of one option more. -/
def Request.take (choices : List Text) (request : Request) :
    Flag → Option Text → Except Stop Request
  | .help, _ => .error .help
  | .version, _ => .error .version
  | .source, value => .ok { request with source := value }
  | .document, value => .ok { request with document := value }
  | .output, value => .ok { request with output := value }
  | .tokenizer, none => .ok (request.set fun settings => { settings with tokenizer := noValue })
  | .tokenizer, some name =>
    if choices.contains name then
      .ok (request.set fun settings => { settings with tokenizer := .text name })
    else .error (Flag.tokenizer.refuse ("invalid choice: ".toList ++ Text.quoted name
      ++ " (choose from ".toList ++ Text.join ", ".toList (choices.map Text.quoted) ++ [')']))
  | .maxSteps, none => .ok (request.set fun settings => { settings with maxSteps := noValue })
  | .maxSteps, some value =>
    match Text.readInt? value with
    | some n => .ok (request.set fun settings => { settings with maxSteps := .int n })
    | none => .error (Flag.maxSteps.refuse ("invalid int value: ".toList ++ Text.quoted value))
  | .relativeDepth, _ =>
    .ok (request.set fun settings => { settings with relativeDepth := .bool true })
  | .openEditor, _ => .ok { request with openEditor := true }
  | .verbose, _ => .ok { request with verbose := true }

/-- What has been read of a command line: the request so far, the options that were
given, and the words left over. -/
structure Draft where
  request : Request := {}
  given : List Flag := []
  leftover : List Text := []
  deriving Repr, DecidableEq

/-- Takes options one after the other. -/
def Draft.takeAll (choices : List Text) (draft : Draft) :
    List (Flag × Option Text) → Except Stop Draft
  | [] => .ok draft
  | (flag, value) :: options => do
    let request ← draft.request.take choices flag value
    Draft.takeAll choices { draft with request, given := flag :: draft.given } options

/-- Reads the words of a command line one after the other. -/
def Draft.readWords (choices : List Text) (draft : Draft) : List Word → Except Stop Draft
  | [] => .ok draft
  | .plain t :: words | .unknown t :: words =>
    Draft.readWords choices { draft with leftover := draft.leftover ++ [t] } words
  | .option flag short attached :: words => do
    let cluster ← Cluster.of flag short attached
    match cluster.awaiting, words with
    | none, words => (← draft.takeAll choices cluster.given).readWords choices words
    | some last, .plain value :: words =>
      let taken ← draft.takeAll choices (cluster.given ++ [(last, some value)])
      taken.readWords choices words
    | some last, _ => .error (last.refuse "expected one argument".toList)

/-- The options that have to be given and were not. -/
def Draft.missing (draft : Draft) : List Flag :=
  Flag.all.filter fun flag => flag.isRequired && !draft.given.contains flag

/-- The request of a draft, if it is complete and nothing is left over. -/
def Draft.finish (draft : Draft) : Except Stop Request :=
  match draft.missing, draft.leftover with
  | [], [] => .ok draft.request
  | [], leftover =>
    .error (.misuse ("unrecognized arguments: ".toList ++ Text.join [' '] leftover))
  | missing, _ =>
    .error (.misuse ("the following arguments are required: ".toList
      ++ Text.join ", ".toList (missing.map Flag.label)))

/-- The request of a command line; `choices` are the tokenizers to choose from. -/
def Request.ofWords (choices : List Text) (arguments : List Text) : Except Stop Request := do
  let words ← wordsOf arguments
  let draft ← Draft.readWords choices {} words
  draft.finish

end Graft.CommandLine
