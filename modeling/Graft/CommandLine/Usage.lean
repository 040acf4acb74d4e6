/-
The texts that explain the command line.

The usage lists all options and is broken into lines of a fixed width.  It may be
broken at blanks, but not inside brackets.  The names of tokenizers stand in it as
they are, so they can hold brackets and blanks of their own: superfluous blanks next
to brackets, brackets around nothing and parentheses around what holds no bar are
dropped.  Where the parts do not make up the text again, because blanks of another
kind stand between them, there is no usage.

* `usageParts` — the parts of the usage that stay together;
* `usage?`, `help?` — the texts.
-/
import Graft.Text.Basic

namespace Graft.CommandLine

/-- The name of the program. -/
def programName : Text := "smartpatch".toList

/-- The version of the program. -/
def versionText : Text := programName ++ " 0.1.0".toList

/-- The names that a tokenizer may be chosen from, in braces. -/
def choiceText (choices : List Text) : Text :=
  '\x7b' :: Text.join [','] choices ++ ['\x7d']

/-- The usage of the options on one line. -/
def optionsLine (choices : List Text) : Text :=
  "[-h] -s SRC -m MP -o OUT [--tokenizer ".toList ++ choiceText choices
    ++ "] [--max-steps MAX_STEPS] [--relative-depth] [--open] [-v] [--version]".toList

/-! ### Brackets -/

/-- An opening bracket that counts. -/
def isOpening (c : Char) : Bool := c == '[' || c == '('

/-- A closing bracket that counts. -/
def isClosing (c : Char) : Bool := c == ']' || c == ')'

/-- Drops a blank behind each opening bracket. -/
def tidyOpening : Text → Text
  | [] => []
  | [c] => [c]
  | c :: d :: cs =>
    if isOpening c && d == ' ' then c :: tidyOpening cs else c :: tidyOpening (d :: cs)

/-- Drops a blank before each closing bracket. -/
def tidyClosing : Text → Text
  | [] => []
  | [c] => [c]
  | c :: d :: cs =>
    if c == ' ' && isClosing d then d :: tidyClosing cs else c :: tidyClosing (d :: cs)

/-- What stands behind a closing bracket that only blanks precede. -/
def behindClosing? : Text → Option Text
  | [] => none
  | c :: cs => if c = ' ' then behindClosing? cs else if isClosing c then some cs else none

theorem behindClosing?_length {cs rest : Text} (h : behindClosing? cs = some rest) :
    rest.length < cs.length := by
  induction cs with
  | nil => simp [behindClosing?] at h
  | cons c cs ih =>
    rw [behindClosing?] at h
    split at h
    · have := ih h
      rw [List.length_cons]; omega
    · split at h
      · obtain rfl := Option.some.inj h
        rw [List.length_cons]; omega
      · simp at h

/-- Drops brackets that hold nothing but blanks. -/
def dropEmpty : Text → Text
  | [] => []
  | c :: cs =>
    match _h : if isOpening c then behindClosing? cs else none with
    | none => c :: dropEmpty cs
    | some rest => dropEmpty rest
termination_by t => t.length
decreasing_by
  · rw [List.length_cons]; omega
  · split at _h
    · have := behindClosing?_length _h
      rw [List.length_cons]; omega
    · simp at _h

/-- Cuts a text at the last closing parenthesis before the first bar, which is left
out. -/
def cutAtLast? : Text → Option (Text × Text)
  | [] => none
  | c :: cs =>
    if c = '|' then none
    else match cutAtLast? cs with
      | some (body, rest) => some (c :: body, rest)
      | none => if c = ')' then some ([], cs) else none

theorem cutAtLast?_length {cs body rest : Text} (h : cutAtLast? cs = some (body, rest)) :
    rest.length < cs.length := by
  induction cs generalizing body with
  | nil => simp [cutAtLast?] at h
  | cons c cs ih =>
    rw [cutAtLast?] at h
    split at h
    · simp at h
    · split at h
      · rename_i hcut
        obtain ⟨-, rfl⟩ := Prod.mk.inj (Option.some.inj h)
        have := ih hcut
        rw [List.length_cons]; omega
      · split at h
        · obtain ⟨-, rfl⟩ := Prod.mk.inj (Option.some.inj h)
          rw [List.length_cons]; omega
        · simp at h

/-- Drops parentheses around what holds no bar, each pair as wide as it can be.  What
stands between them stays as it is. -/
def dropParentheses : Text → Text
  | [] => []
  | c :: cs =>
    match _h : if c = '(' then cutAtLast? cs else none with
    | none => c :: dropParentheses cs
    | some (body, rest) => body ++ dropParentheses rest
termination_by t => t.length
decreasing_by
  · rw [List.length_cons]; omega
  · split at _h
    · have := cutAtLast?_length _h
      rw [List.length_cons]; omega
    · simp at _h

/-- The text without superfluous blanks and brackets. -/
def tidy (t : Text) : Text := dropParentheses (dropEmpty (tidyClosing (tidyOpening t)))

/-! ### Parts -/

/-- Cuts a text behind the first bracket `close` that ends a word of its line. -/
def cutBehind? (close : Char) : Text → Option (Text × Text)
  | [] => none
  | c :: cs =>
    if c = '\n' then none
    else if c = close && cs.head?.all Text.isBlank then some ([c], cs)
    else (cutBehind? close cs).map fun (body, rest) => (c :: body, rest)

/-- The first part of a text that starts with `c`, and the rest: all up to the closing
bracket, or a word. -/
def cutPart (c : Char) (cs : Text) : Text × Text :=
  let bracketed :=
    if c = '[' then cutBehind? ']' cs else if c = '(' then cutBehind? ')' cs else none
  match bracketed with
  | some (body, rest) => (c :: body, rest)
  | none => (c :: cs.takeWhile (!Text.isBlank ·), cs.dropWhile (!Text.isBlank ·))

theorem cutBehind?_length {close : Char} {cs body rest : Text}
    (h : cutBehind? close cs = some (body, rest)) : rest.length ≤ cs.length := by
  induction cs generalizing body with
  | nil => simp [cutBehind?] at h
  | cons c cs ih =>
    rw [cutBehind?] at h
    split at h
    · simp at h
    · split at h
      · obtain ⟨-, rfl⟩ := Prod.mk.inj (Option.some.inj h)
        rw [List.length_cons]; omega
      · obtain ⟨⟨body', rest'⟩, hcut, heq⟩ := Option.map_eq_some_iff.1 h
        obtain ⟨-, rfl⟩ := Prod.mk.inj heq
        have := ih hcut
        rw [List.length_cons]; omega

theorem cutPart_length (c : Char) (cs : Text) : (cutPart c cs).2.length ≤ cs.length := by
  unfold cutPart
  simp only
  split
  · rename_i hcut
    split at hcut
    · exact cutBehind?_length hcut
    · split at hcut
      · exact cutBehind?_length hcut
      · simp at hcut
  · exact (List.dropWhile_suffix _).length_le

/-- The parts of a text that stay together. -/
def partsOf : Text → List Text
  | [] => []
  | c :: cs =>
    if Text.isBlank c then partsOf cs
    else (cutPart c cs).1 :: partsOf (cutPart c cs).2
termination_by t => t.length
decreasing_by
  · rw [List.length_cons]; omega
  · have := cutPart_length c cs
    rw [List.length_cons]; omega

/-- The parts of the usage, if they make up its text. -/
def usageParts? (choices : List Text) : Option (List Text) :=
  let line := tidy (optionsLine choices)
  let parts := partsOf line
  if Text.join [' '] parts = line then some (programName :: parts) else none

/-! ### Lines -/

/-- The width of a line of the usage. -/
def usageWidth : Nat := 78

/-- What the usage starts with. -/
def usageLead : Text := "usage: ".toList

/-- The column of the parts in all lines but the first. -/
def usageIndent : Nat := usageLead.length + programName.length + 1

/-- Fills lines with parts: a part that does not fit on a line that has some starts the
next one.  `column` is the column before the blank in front of the next part. -/
def fillLines (column : Nat) (line : List Text) : List Text → List (List Text)
  | [] => if line.isEmpty then [] else [line]
  | part :: parts =>
    if usageWidth < column + 1 + part.length && !line.isEmpty then
      line :: fillLines (usageIndent + part.length) [part] parts
    else fillLines (column + 1 + part.length) (line ++ [part]) parts

/-- The usage of the program, with a newline at its end. -/
def usage? (choices : List Text) : Option Text :=
  (usageParts? choices).map fun parts =>
    let lines := (fillLines (usageLead.length - 1) [] parts).map (Text.join [' '])
    usageLead ++ Text.join ('\n' :: List.replicate usageIndent ' ') lines ++ ['\n']

/-- The explanations of the options. -/
def explanations (choices : List Text) : List Text :=
  ["  -h, --help            show this help message and exit".toList,
    "  -s SRC, --src SRC     Source file to patch".toList,
    "  -m MP, --mp MP        Markdown document with match and patch sections".toList,
    "  -o OUT, --out OUT     Where to write the patched file".toList,
    "  --tokenizer ".toList ++ choiceText choices,
    "                        Source tokenizer (default: builtin)".toList,
    "  --max-steps MAX_STEPS".toList,
    "                        Abort the pattern search after this many steps".toList,
    "                        (default: 100000)".toList,
    "  --relative-depth      Compare nesting depth relative to the first matched".toList,
    "                        token".toList,
    "  --open                Open the result in VS Code and highlight the insertion".toList,
    "  -v, --verbose         Debug logging".toList,
    "  --version             show program's version number and exit".toList]

/-- The help of the program. -/
def help? (choices : List Text) : Option Text :=
  (usage? choices).map fun usage =>
    usage ++ "\nApply a markdown match/patch snippet to a source file\n\noptions:\n".toList
      ++ (explanations choices).flatMap (· ++ ['\n'])

end Graft.CommandLine
