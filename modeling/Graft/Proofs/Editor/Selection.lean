/-
What the editor is asked to select.

An insertion is shown by a command with a path, a line and a column, and by a URI with an escaped
path and four numbers.  Whatever characters the path has, it cannot be taken for numbers, nor can
it change them: the URI is read back, part by part, to the path and the range it was made from.
The path is the one that the path of the file is resolved to.  How that is done is left open, but
where it fails there are no commands:

* `Selection`, `Selection.ofUri?` — a path and a range, and how a URI is read;
* `Selection.ofInsertion` — the path and the range of an insertion;
* `ofUri?_uri` — what is written is read back;
* `highlightUri_ok_iff` — the URI of an insertion;
* `openInsertion_selects` — what is run to show an insertion.
-/
import Graft.Editor
import Graft.Proofs.Text.Margin
import Graft.Proofs.Text.Percent

namespace Graft.Editor

/-- A range in a file, with lines and columns counted from zero. -/
structure Selection where
  path : Text
  startLine : Int
  startColumn : Int
  endLine : Int
  endColumn : Int
  deriving Repr, DecidableEq

namespace Selection

/-- What stands behind `start` in a text that starts with it. -/
def behind? (start t : Text) : Option Text :=
  if start.isPrefixOf t then some (t.drop start.length) else none

/-- The number of a parameter with a name. -/
def parameter? (name : String) (t : Text) : Option Int :=
  (behind? (name.toList ++ ['=']) t).bind Text.intOf?

/-- Reads a URI.  The escaped path stands behind the first `?path=` and goes on to the next `&`;
the numbers follow, each with its name, in a fixed order and with nothing behind them. -/
def ofUri? (uri : Text) : Option Selection := do
  let query ← behind? "vscode://DK.vscode-smartpatch-highlighter?path=".toList uri
  match Text.splitAtChar '&' query with
  | [path, startLine, startColumn, endLine, endColumn] =>
    return ⟨← Percent.decode? path, ← parameter? "startLine" startLine,
      ← parameter? "startCol" startColumn, ← parameter? "endLine" endLine,
      ← parameter? "endCol" endColumn⟩
  | _ => none

/-- The range of an insertion in the file at a resolved path.  An end line that is missing or zero
is that of the start, and so is an end column. -/
def ofInsertion (resolved : Text) (inserted : Location) : Selection where
  path := resolved
  startLine := inserted.line - 1
  startColumn := inserted.column - 1
  endLine := (inserted.endLine.filter (· ≠ 0)).getD inserted.line - 1
  endColumn := (inserted.endColumn.filter (· ≠ 0)).getD inserted.column - 1

theorem behind?_append (start t : Text) : behind? start (start ++ t) = some t := by
  rw [behind?, if_pos (List.isPrefixOf_iff_prefix.mpr (List.prefix_append start t)), List.drop_left]

theorem parameter?_eq (name : String) (n : Int) :
    parameter? name (name.toList ++ '=' :: Text.ofInt n) = some n := by
  have hsplit : name.toList ++ '=' :: Text.ofInt n = name.toList ++ ['='] ++ Text.ofInt n := by simp
  rw [parameter?, hsplit, behind?_append, Option.bind_some, Text.intOf?_ofInt]

/-- A parameter has no `&`, unless its name has one. -/
theorem not_mem_parameter {name : Text} (hname : '&' ∉ name) (n : Int) :
    '&' ∉ name ++ '=' :: Text.ofInt n := by
  intro h
  rcases List.mem_append.mp h with h | h
  · exact hname h
  rcases List.mem_cons.mp h with h | h
  · exact absurd h (by decide)
  · rcases Text.isDigit_of_mem_ofInt h with h | h <;> exact absurd h (by decide)

/-- The parts of a URI that stand between its `&`. -/
def parts (selection : Selection) : List Text :=
  [Percent.encode selection.path,
    "startLine".toList ++ '=' :: Text.ofInt selection.startLine,
    "startCol".toList ++ '=' :: Text.ofInt selection.startColumn,
    "endLine".toList ++ '=' :: Text.ofInt selection.endLine,
    "endCol".toList ++ '=' :: Text.ofInt selection.endColumn]

/-- How a path and a range are written. -/
def uri (selection : Selection) : Text :=
  "vscode://DK.vscode-smartpatch-highlighter?path=".toList ++ Text.join ['&'] selection.parts

theorem not_mem_parts (selection : Selection) : ∀ part ∈ selection.parts, '&' ∉ part := by
  simp only [parts, List.forall_mem_cons, List.not_mem_nil, false_imp_iff, implies_true, and_true]
  exact ⟨Percent.not_mem_encode (by decide) (by decide) _, not_mem_parameter (by decide) _,
    not_mem_parameter (by decide) _, not_mem_parameter (by decide) _,
    not_mem_parameter (by decide) _⟩

/-- What is written is read back. -/
theorem ofUri?_uri (selection : Selection) : ofUri? selection.uri = some selection := by
  have hquery : behind? "vscode://DK.vscode-smartpatch-highlighter?path=".toList selection.uri
      = some (Text.join ['&'] selection.parts) := behind?_append _ _
  rw [ofUri?, hquery, Option.bind_eq_bind, Option.bind_some,
    Text.splitAtChar_join selection.not_mem_parts (by simp [parts]), parts]
  dsimp only
  rw [Percent.decode?_encode, parameter?_eq, parameter?_eq, parameter?_eq, parameter?_eq]
  rfl

end Selection

open Selection

theorem endOr_eq (stop : Option Int) (start : Int) :
    endOr stop start = (stop.filter (· ≠ 0)).getD start := by
  cases stop with
  | none => rfl
  | some n => by_cases hn : n = 0 <;> simp [endOr, Option.filter_some, hn]

/-- Parts of a text that are joined by `&` are written one by one. -/
theorem join_parts (base field a b c d m n k l : Text) :
    base ++ Text.join ['&'] [field, a ++ '=' :: m, b ++ '=' :: n, c ++ '=' :: k, d ++ '=' :: l]
      = base ++ field ++ ('&' :: (a ++ ['='])) ++ m ++ ('&' :: (b ++ ['='])) ++ n
        ++ ('&' :: (c ++ ['='])) ++ k ++ ('&' :: (d ++ ['='])) ++ l := by
  simp [Text.join, List.intercalate]

theorem highlightUri_eq (resolve : Resolver) (path : Text) (inserted : Location) :
    highlightUri resolve path inserted
      = (resolve path).map fun resolved => (ofInsertion resolved inserted).uri := by
  cases hresolve : resolve path with
  | error fault => simp [highlightUri, hresolve, Except.map, bind, Except.bind]
  | ok resolved =>
    simp only [highlightUri, hresolve, bind, Except.bind, Except.map, pure, Except.pure]
    rw [endOr_eq, endOr_eq]
    refine congrArg _ (Eq.trans ?_ (join_parts _ _ "startLine".toList "startCol".toList
      "endLine".toList "endCol".toList _ _ _ _).symm)
    rfl

/-- There is a URI if the path can be resolved, and then it is written from the resolved path. -/
theorem highlightUri_ok_iff {resolve : Resolver} {path uri : Text} {inserted : Location} :
    highlightUri resolve path inserted = .ok uri
      ↔ ∃ resolved, resolve path = .ok resolved ∧ (ofInsertion resolved inserted).uri = uri := by
  rw [highlightUri_eq]
  cases resolve path with
  | error fault => simp [Except.map]
  | ok resolved => simp [Except.map]

theorem gotoCommand_of_resolve {resolve : Resolver} {path resolved : Text}
    (h : resolve path = .ok resolved) (inserted : Location) :
    gotoCommand resolve path inserted = .ok ["code".toList, "--goto".toList, resolved
      ++ ':' :: Text.ofInt ((ofInsertion resolved inserted).endLine + 1)
      ++ ':' :: Text.ofInt ((ofInsertion resolved inserted).endColumn + 1)] := by
  simp [gotoCommand, h, bind, Except.bind, pure, Except.pure, ofInsertion, endOr_eq]

/-- What is promised of showing an insertion in a file: its path can be resolved, and two commands
are run.  The second one is handed a URI that is read as the resolved path and the range of the
insertion, and that no other path or range has, however paths are resolved; the first one names the
resolved path, and behind it the line and the column where the range ends, counted from one. -/
def Selects (resolve : Resolver) (path : Text) (inserted : Location) (platform : Platform) : Prop :=
  ∃ resolved uri selection, resolve path = .ok resolved
    ∧ selection = ofInsertion resolved inserted
    ∧ openInsertion resolve path inserted platform []
      = .ok ⟨true, [["code".toList, "--goto".toList, resolved
          ++ ':' :: Text.ofInt (selection.endLine + 1)
          ++ ':' :: Text.ofInt (selection.endColumn + 1)], uriCommand platform uri], []⟩
    ∧ highlightUri resolve path inserted = .ok uri
    ∧ ofUri? uri = some selection
    ∧ ∀ resolve' path' inserted', highlightUri resolve' path' inserted' = .ok uri →
      ∃ resolved', resolve' path' = .ok resolved' ∧ ofInsertion resolved' inserted' = selection

/-- **An insertion can be read off its URI,** in a file at any path that can be resolved, by
whatever means.  Where a path cannot be resolved, showing an insertion fails for the same reason,
and there is no URI. -/
theorem openInsertion_selects (resolve : Resolver) (path : Text) (inserted : Location)
    (platform : Platform) :
    (∀ resolved, resolve path = .ok resolved → Selects resolve path inserted platform)
      ∧ ∀ fault, resolve path = .error fault →
        openInsertion resolve path inserted platform [] = .error fault
          ∧ highlightUri resolve path inserted = .error fault := by
  constructor
  · intro resolved hresolve
    have huri : highlightUri resolve path inserted = .ok (ofInsertion resolved inserted).uri :=
      highlightUri_ok_iff.mpr ⟨resolved, hresolve, rfl⟩
    refine ⟨resolved, _, _, hresolve, rfl, ?_, huri, ofUri?_uri _, ?_⟩
    · rw [openInsertion, gotoCommand_of_resolve hresolve, huri]
      rfl
    · intro resolve' path' inserted' huri'
      obtain ⟨resolved', hresolve', heq⟩ := highlightUri_ok_iff.mp huri'
      have hread := ofUri?_uri (ofInsertion resolved' inserted')
      rw [heq, ofUri?_uri] at hread
      exact ⟨resolved', hresolve', (Option.some.inj hread).symm⟩
  · intro fault hresolve
    refine ⟨?_, ?_⟩
    · rw [openInsertion, gotoCommand, hresolve]
      rfl
    · rw [highlightUri_eq, hresolve]
      rfl

/-- A path that looks like parameters and escapes, and an insertion without an end column; and the
same without a working directory. -/
theorem openInsertion_selects_parameters :
    let path := "a?path=b&endLine=7 é%26".toList
    let inserted : Location := ⟨2, 5, 0, 0, some 3, some 0, none⟩
    ofInsertion ("/w/".toList ++ path) inserted = ⟨"/w/".toList ++ path, 1, 4, 2, 4⟩
      ∧ Selects (bySpelling (some "/w".toList)) path inserted .other
      ∧ highlightUri (bySpelling none) path inserted = .error .noWorkingDirectory := by
  intro path inserted
  have hresolve : bySpelling (some "/w".toList) path = .ok ("/w/".toList ++ path) := by rfl
  have hfault : bySpelling none path = .error .noWorkingDirectory := by rfl
  exact ⟨by decide, (openInsertion_selects _ _ _ _).1 _ hresolve,
    ((openInsertion_selects _ _ _ .other).2 _ hfault).2⟩

/-- A path with a null character is refused, and no URI is made. -/
theorem not_selects_null :
    ¬ Selects (bySpelling (some "/w".toList)) ['a', '\x00', 'b'] ⟨1, 1, 0, 0, none, none, none⟩
      .other := by
  rintro ⟨resolved, uri, selection, hresolve, -⟩
  have hfault : bySpelling (some "/w".toList) ['a', '\x00', 'b'] = .error .nullByte := rfl
  rw [hfault] at hresolve
  exact absurd hresolve (by simp)

end Graft.Editor
