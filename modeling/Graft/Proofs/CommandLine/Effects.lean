/-
What a command line changes.

A request reads two files and writes a third one, and the writing comes last.  A run that
succeeds changes the output alone, which then holds the patched text.  A run that fails before
the output is opened leaves every file as it was, and at most adds directories.  One that fails
later has lost what the output held, and leaves as much of the patched text as could be written:

* `patch_ok_iff` — the text that a request yields, read off from the two files;
* `Request.CutsOff` — the output is opened, and writing breaks off;
* `execute_ends` — all that a request can do;
* `run_effects` — the files after a command line.
-/
import Graft.CommandLine.Run
import Graft.Proofs.Files.Saving
import Graft.Proofs.Text.Encoding

namespace Graft.CommandLine

variable {surroundings : Surroundings} {tree left : FileTree} {request : Request}

/-! ### Reading -/

/-- What a request yields: the document that one file holds is applied to the source that another
one holds, each with all line ends as newlines. -/
def Request.Yields (surroundings : Surroundings) (tree : FileTree) (request : Request)
    (patched : Patched) : Prop :=
  ∃ source document s d, request.source = some source ∧ request.document = some document
    ∧ tree.read (.ofText source) = .ok (Utf8.encode s)
    ∧ tree.read (.ofText document) = .ok (Utf8.encode d)
    ∧ (Patch.applyDocument surroundings request.settings none (Text.unifyLineEnds s)
      (Text.unifyLineEnds d) (some document)).result = .ok patched

theorem readText_ok {path t : Text} (h : readText tree path = .ok t) :
    ∃ s, tree.read (.ofText path) = .ok (Utf8.encode s) ∧ t = Text.unifyLineEnds s := by
  rw [readText] at h
  split at h
  · simp at h
  · next bytes hread =>
    split at h
    · simp at h
    · next s hdecode =>
      refine ⟨s, ?_, (Except.ok.inj h).symm⟩
      rw [hread, Utf8.encode_of_decode hdecode]

theorem readText_of_read {path s : Text} (h : tree.read (.ofText path) = .ok (Utf8.encode s)) :
    readText tree path = .ok (Text.unifyLineEnds s) := by
  simp only [readText, h, Utf8.decode_encode]

theorem readGiven_ok {given : Option Text} {t : Text} (h : readGiven tree given = .ok t) :
    ∃ path s, given = some path ∧ tree.read (.ofText path) = .ok (Utf8.encode s)
      ∧ t = Text.unifyLineEnds s := by
  cases given with
  | none => simp [readGiven] at h
  | some path =>
    obtain ⟨s, hread, ht⟩ := readText_ok h
    exact ⟨path, s, rfl, hread, ht⟩

theorem patch_ok_iff {patched : Patched} :
    (patch surroundings tree request).result = .ok patched
      ↔ request.Yields surroundings tree patched := by
  constructor
  · intro h
    obtain ⟨source, hsource, h⟩ := Outcome.exists_of_andThen h
    obtain ⟨document, hdocument, h⟩ := Outcome.exists_of_andThen h
    obtain ⟨sourcePath, s, hs, hreadSource, rfl⟩ := readGiven_ok hsource
    obtain ⟨documentPath, d, hd, hreadDocument, rfl⟩ := readGiven_ok hdocument
    rw [hd] at h
    exact ⟨sourcePath, documentPath, s, d, hs, hd, hreadSource, hreadDocument, h⟩
  · rintro ⟨source, document, s, d, hs, hd, hreadSource, hreadDocument, happly⟩
    have hsource : (Outcome.of (readGiven tree request.source)).result
        = .ok (Text.unifyLineEnds s) := by rw [hs]; exact readText_of_read hreadSource
    have hdocument : (Outcome.of (readGiven tree request.document)).result
        = .ok (Text.unifyLineEnds d) := by rw [hd]; exact readText_of_read hreadDocument
    rw [patch, Outcome.result_andThen hsource, Outcome.result_andThen hdocument, hd, happly]

/-! ### Writing -/

/-- The path leads to a file with the bytes of the text, and all other files are those of the tree
before. -/
def OnlyChanges (tree left : FileTree) (path t : Text) : Prop :=
  ∃ place, left.target (.ofText path) = .ok (.entry place (.file (Utf8.encode t)))
    ∧ ∀ other, other ≠ place → left.bytes? other = tree.bytes? other

theorem saveText_eq (tree : FileTree) (path t : Text) :
    saveText tree path t = ((tree.save (.ofText path) (Utf8.encode t)).1,
      (tree.save (.ofText path) (Utf8.encode t)).2.map (fileFault path)) := by
  rw [saveText]
  split
  · next hsave => rw [hsave, Option.map_none]
  · next hsave => rw [hsave, Option.map_some]

/-- All that writing the output can do.  Either its file is opened, it holds what could be written,
and the rest is reported; or no file is opened, and only directories are left. -/
theorem saveGiven_cases {given : Option Text} {t : Text} {failed : Option Fault}
    (h : saveGiven tree given t = (left, failed)) :
    (∃ path place, given = some path ∧ tree.Opens (.ofText path) place
        ∧ failed = tree.failure?.map (fileFault path)
        ∧ left.target (.ofText path)
          = .ok (.entry place (.file (tree.writing.part (Utf8.encode t))))
        ∧ ∀ other, other ≠ place → tree.KeepsAt left other)
      ∨ (∀ path place, given = some path → ¬ tree.Opens (.ofText path) place) ∧ failed ≠ none
        ∧ tree.Extends left := by
  cases given with
  | none =>
    obtain ⟨rfl, rfl⟩ := Prod.mk.inj h
    exact .inr ⟨by simp, by simp, .refl tree⟩
  | some path =>
    rw [saveGiven, saveText_eq] at h
    generalize hsave : tree.save (.ofText path) (Utf8.encode t) = saved at h
    obtain ⟨rfl, rfl⟩ := Prod.mk.inj h
    rcases FileTree.save_cases hsave with
      ⟨place, hopens, hfailed, htarget, hother⟩ | ⟨hclosed, hfailed, hleft⟩
    · exact .inl ⟨path, place, rfl, hopens, by rw [hfailed], htarget, hother⟩
    · refine .inr ⟨?_, by simpa using hfailed, hleft⟩
      rintro path' place hpath
      obtain rfl := Option.some.inj hpath
      exact hclosed place

/-! ### Carrying out a request -/

/-- A request yields a text and its output is opened, but writing breaks off: the file that stands
at `place` is left with `part`, the first bytes of the text. -/
def Request.CutsOff (surroundings : Surroundings) (tree : FileTree) (request : Request)
    (place : List Text) (part : List UInt8) : Prop :=
  ∃ patched output kept error, request.Yields surroundings tree patched
    ∧ request.output = some output ∧ tree.Opens (.ofText output) place
    ∧ tree.writing = .broken kept error ∧ part = (Utf8.encode patched.text).take kept

/-- All that carrying out a request can leave, and how it can end. -/
inductive Request.Ends (surroundings : Surroundings) (tree : FileTree) (request : Request) :
    FileTree → Except Fault Patched → Prop
  /-- It fails before the output is opened. -/
  | unopened {left : FileTree} {fault : Fault}
      (hwhole : ∀ place part, ¬ request.CutsOff surroundings tree place part)
      (hleft : tree.Extends left) : Ends surroundings tree request left (.error fault)
  /-- Writing the output breaks off. -/
  | cutOff {left : FileTree} {fault : Fault} {place : List Text} {part : List UInt8}
      (hcut : request.CutsOff surroundings tree place part) (hreported : isReported fault = true)
      (hpart : left.bytes? place = some part)
      (hother : ∀ other, other ≠ place → tree.KeepsAt left other) :
      Ends surroundings tree request left (.error fault)
  /-- The output is written. -/
  | written {left : FileTree} {patched : Patched} {output : Text}
      (hwhole : ∀ place part, ¬ request.CutsOff surroundings tree place part)
      (hyields : request.Yields surroundings tree patched)
      (houtput : request.output = some output)
      (hchanges : OnlyChanges tree left output patched.text) :
      Ends surroundings tree request left (.ok patched)

theorem Request.Yields.unique {patched patched' : Patched}
    (h : request.Yields surroundings tree patched)
    (h' : request.Yields surroundings tree patched') : patched = patched' :=
  Except.ok.inj ((patch_ok_iff.mpr h).symm.trans (patch_ok_iff.mpr h'))

theorem Request.CutsOff.unique {place place' : List Text} {part part' : List UInt8}
    (h : request.CutsOff surroundings tree place part)
    (h' : request.CutsOff surroundings tree place' part') : place = place' ∧ part = part' := by
  obtain ⟨patched, output, kept, error, hyields, houtput, hopens, hbroken, rfl⟩ := h
  obtain ⟨patched', output', kept', error', hyields', houtput', hopens', hbroken', rfl⟩ := h'
  obtain rfl := hyields.unique hyields'
  obtain rfl : output = output' := Option.some.inj (houtput.symm.trans houtput')
  obtain ⟨rfl, -⟩ := Writing.broken.inj (hbroken.symm.trans hbroken')
  exact ⟨hopens.unique hopens', rfl⟩

/-- What a request leaves once its output is written as far as possible. -/
theorem ends_of_saveGiven {patched : Patched} {failed : Option Fault}
    (hyields : request.Yields surroundings tree patched)
    (hsave : saveGiven tree request.output patched.text = (left, failed)) :
    request.Ends surroundings tree left (failed.elim (.ok patched) .error) := by
  rcases saveGiven_cases hsave with
    ⟨output, place, houtput, hopens, rfl, htarget, hother⟩ | ⟨hclosed, hfailed, hleft⟩
  · cases hwriting : tree.writing with
    | whole =>
      simp only [FileTree.failure?, hwriting, Writing.part] at htarget ⊢
      refine .written ?_ hyields houtput
        ⟨place, htarget, fun other hne => (hother other hne).bytes?⟩
      rintro place' part ⟨patched', output', kept, error, -, -, -, hbroken, -⟩
      simp [hwriting] at hbroken
    | broken kept error =>
      simp only [FileTree.failure?, hwriting, Writing.part] at htarget ⊢
      exact .cutOff ⟨patched, output, kept, error, hyields, houtput, hopens, hwriting, rfl⟩ rfl
        (FileTree.bytes?_of_target htarget) hother
  · obtain ⟨fault, rfl⟩ := Option.ne_none_iff_exists'.mp hfailed
    refine .unopened ?_ hleft
    rintro place part ⟨patched', output, kept, error, -, houtput, hopens, -⟩
    exact hclosed output place houtput hopens

/-- A request does one of the things above. -/
theorem execute_ends (surroundings : Surroundings) (tree : FileTree) (request : Request) :
    request.Ends surroundings tree (execute surroundings tree request).1
      (execute surroundings tree request).2.result := by
  simp only [execute]
  split
  · next fault hfault =>
    rw [hfault]
    -- without a text there is nothing to cut off
    refine .unopened ?_ (.refl tree)
    rintro place part ⟨patched, output, kept, error, hyields, -⟩
    exact absurd (hfault.symm.trans (patch_ok_iff.mpr hyields)) (by simp)
  · next patched hpatched =>
    split
    · next hsave =>
      rw [hpatched]
      exact ends_of_saveGiven (patch_ok_iff.mp hpatched) hsave
    · next hsave => exact ends_of_saveGiven (patch_ok_iff.mp hpatched) hsave

theorem execute_done {patched : Patched}
    (h : (execute surroundings tree request).2.result = .ok patched) :
    request.Yields surroundings tree patched ∧ ∃ output, request.output = some output
      ∧ OnlyChanges tree (execute surroundings tree request).1 output patched.text := by
  have hends := execute_ends surroundings tree request
  rw [h] at hends
  cases hends with
  | written _ hyields houtput hchanges => exact ⟨hyields, _, houtput, hchanges⟩

theorem Request.Ends.keepsAt_or_cutsOff {fault : Fault}
    (h : request.Ends surroundings tree left (.error fault)) (place : List Text) :
    tree.KeepsAt left place ∨ ∃ part, request.CutsOff surroundings tree place part := by
  cases h with
  | unopened _ hleft => exact .inl (hleft.keepsAt place)
  | @cutOff _ cut part hcut _ _ hother =>
    by_cases hplace : place = cut
    · exact .inr ⟨part, hplace ▸ hcut⟩
    · exact .inl (hother place hplace)

theorem Request.Ends.of_cutsOff {result : Except Fault Patched} {place : List Text}
    {part : List UInt8} (h : request.Ends surroundings tree left result)
    (hcut : request.CutsOff surroundings tree place part) :
    left.bytes? place = some part ∧ ∃ fault, result = .error fault ∧ isReported fault = true := by
  cases h with
  | unopened hwhole | written hwhole => exact absurd hcut (hwhole place part)
  | cutOff hcut' hreported hpart =>
    obtain ⟨rfl, rfl⟩ := hcut.unique hcut'
    exact ⟨hpart, _, rfl, hreported⟩

/-- After a failure all files are as before exactly if an output that was cut off had just these
bytes. -/
theorem Request.Ends.untouched_iff {fault : Fault}
    (h : request.Ends surroundings tree left (.error fault)) :
    (∀ place, left.bytes? place = tree.bytes? place)
      ↔ ∀ place part, request.CutsOff surroundings tree place part →
        tree.bytes? place = some part := by
  constructor
  · intro hsame place part hcut
    rw [← hsame, (h.of_cutsOff hcut).1]
  · intro hcuts place
    rcases h.keepsAt_or_cutsOff place with hkeeps | ⟨part, hcut⟩
    · exact hkeeps.bytes?
    · rw [(h.of_cutsOff hcut).1, hcuts place part hcut]

/-! ### Running a command line -/

section Run

variable {resolve : Editor.Resolver} {arguments : List Text} {endings : List Editor.Ending}

theorem run_failed {fault : Fault} (resolve : Editor.Resolver) (endings : List Editor.Ending)
    (hrequest : Request.ofWords surroundings.registry.names arguments = .ok request)
    (h : (execute surroundings tree request).2.result = .error fault)
    (hreported : isReported fault = true) :
    (run surroundings resolve tree arguments endings).exit = .returned 1
      ∧ (run surroundings resolve tree arguments endings).output = []
      ∧ (run surroundings resolve tree arguments endings).tree
        = (execute surroundings tree request).1 := by
  simp only [run, hrequest, reportRequest, h, reportFault, if_pos hreported, and_self]

/-- A command line that returns zero has carried out a request. -/
theorem exists_execute_of_returned
    (h : (run surroundings resolve tree arguments endings).exit = .returned 0) :
    ∃ request patched, Request.ofWords surroundings.registry.names arguments = .ok request
      ∧ (execute surroundings tree request).2.result = .ok patched
      ∧ (run surroundings resolve tree arguments endings).tree
        = (execute surroundings tree request).1 := by
  revert h
  simp only [run]
  split
  · next stop hstop =>
    intro h
    cases stop with
    | version => simp [reportStop] at h
    | help =>
      simp only [reportStop] at h
      split at h <;> simp at h
    | misuse message =>
      simp only [reportStop] at h
      split at h <;> simp at h
  · next request hrequest =>
    simp only [reportRequest]
    split
    · next patched hpatched =>
      refine fun _ => ⟨request, patched, hrequest, hpatched, ?_⟩
      -- the output stays, whether or not it can be shown
      simp only [reportPatched]
      split <;> rfl
    · intro h
      simp only [reportFault] at h
      split at h <;> simp at h

/-- **What a command line changes.**  If it fails with a fault that is reported, it returns one and
puts nothing out; each place holds what it held, or a directory if it held nothing, but for an
output that was cut off.  So all files are as before exactly if an output that was cut off had just
these bytes.  An output that is cut off is left so, and the run returns one.  If a run returns zero,
the output holds the document applied to the source, and all other files are as before, whatever the
editor did. -/
theorem run_effects {report : Report}
    (hrequest : Request.ofWords surroundings.registry.names arguments = .ok request)
    (hreport : run surroundings resolve tree arguments endings = report) :
    (∀ fault, (execute surroundings tree request).2.result = .error fault →
        isReported fault = true →
        report.exit = .returned 1 ∧ report.output = []
          ∧ (∀ place, tree.KeepsAt report.tree place
            ∨ ∃ part, request.CutsOff surroundings tree place part)
          ∧ ((∀ place, report.tree.bytes? place = tree.bytes? place)
            ↔ ∀ place part, request.CutsOff surroundings tree place part →
              tree.bytes? place = some part))
      ∧ (∀ place part, request.CutsOff surroundings tree place part →
        report.exit = .returned 1 ∧ report.tree.bytes? place = some part)
      ∧ (report.exit = .returned 0 → ∃ patched output,
        request.Yields surroundings tree patched ∧ request.output = some output
          ∧ OnlyChanges tree report.tree output patched.text) := by
  subst hreport
  have hends := execute_ends surroundings tree request
  refine ⟨fun fault hfault hreported => ?_, fun place part hcut => ?_, fun hexit => ?_⟩
  · obtain ⟨hexit, houtput, htree⟩ := run_failed resolve endings hrequest hfault hreported
    rw [hfault] at hends
    rw [htree]
    exact ⟨hexit, houtput, hends.keepsAt_or_cutsOff, hends.untouched_iff⟩
  · obtain ⟨hpart, fault, hfault, hreported⟩ := hends.of_cutsOff hcut
    obtain ⟨hexit, -, htree⟩ := run_failed resolve endings hrequest hfault hreported
    rw [htree]
    exact ⟨hexit, hpart⟩
  · obtain ⟨request', patched, hrequest', hpatched, htree⟩ := exists_execute_of_returned hexit
    obtain rfl : request = request' := Except.ok.inj (hrequest.symm.trans hrequest')
    obtain ⟨hyields, output, houtput, hchanges⟩ := execute_done hpatched
    rw [htree]
    exact ⟨patched, output, hyields, houtput, hchanges⟩

end Run

theorem ok_of_toOption {ε α : Type} {result : Except ε α} {a : α}
    (h : result.toOption = some a) : result = .ok a := by
  cases result with
  | error e => simp [Except.toOption] at h
  | ok b => exact congrArg _ (Option.some.inj h)

/-- A source and a patch document in the working directory. -/
def deskTree : FileTree :=
  { entries := [(["a".toList], .file (Utf8.encode "f();\r\n".toList)),
      (["m".toList], .file (Utf8.encode
        "### match\n```\nf();\n>>>\n```\n### patch\n```\ng();\n```\n".toList))] }

/-- Patching the source, with the output elsewhere. -/
def deskRequest (output : Text) : Request :=
  { source := some "a".toList, document := some "m".toList, output := some output,
    openEditor := true }

/-- The same tree on a disk that is all but full. -/
def fullTree : FileTree := { deskTree with writing := .broken 3 .noSpace }

/-- A directory cannot be written, though directories were made on the way; a new file is written
behind a new directory, though no editor can be started; and of a source that is patched in place
the first bytes are left when the disk is full. -/
theorem run_effects_new_directories :
    (∀ place, (run {} (Editor.bySpelling none) deskTree
        ["-sa".toList, "-mm".toList, "-on/s/..".toList, "--op".toList] []).tree.bytes? place
          = deskTree.bytes? place)
      ∧ (∃ patched output, (deskRequest "n/b".toList).Yields {} deskTree patched
        ∧ (deskRequest "n/b".toList).output = some output
        ∧ OnlyChanges deskTree (run {} (Editor.bySpelling (some "/".toList)) deskTree
          ["-sa".toList, "-mm".toList, "-on/b".toList, "--op".toList] [.missing]).tree output
          patched.text)
      ∧ (run {} (Editor.bySpelling none) fullTree
        ["-sa".toList, "-mm".toList, "-oa".toList, "--op".toList] []).tree.bytes? ["a".toList]
          = some (Utf8.encode "f()".toList) := by
  have hfailing : Request.ofWords ({} : Surroundings).registry.names
      ["-sa".toList, "-mm".toList, "-on/s/..".toList, "--op".toList]
        = .ok (deskRequest "n/s/..".toList) := ok_of_toOption (by decide +kernel)
  have hpassing : Request.ofWords ({} : Surroundings).registry.names
      ["-sa".toList, "-mm".toList, "-on/b".toList, "--op".toList]
        = .ok (deskRequest "n/b".toList) := ok_of_toOption (by decide +kernel)
  have hbreaking : Request.ofWords ({} : Surroundings).registry.names
      ["-sa".toList, "-mm".toList, "-oa".toList, "--op".toList]
        = .ok (deskRequest "a".toList) := ok_of_toOption (by decide +kernel)
  have hfault : (((execute {} deskTree (deskRequest "n/s/..".toList)).2.result.map
      fun _ => false).tryCatch fun fault => .ok (isReported fault)).toOption = some true := by
    decide +kernel
  have hcut : (deskRequest "a".toList).CutsOff {} fullTree ["a".toList]
      (Utf8.encode "f()".toList) := by
    have hyields : (deskRequest "a".toList).Yields {} fullTree ⟨"f();\ng();\n".toList, ⟨5, none⟩,
        .block, ⟨2, 1, 5, 10, some 3, some 1, none⟩⟩ :=
      patch_ok_iff.mp (ok_of_toOption (by decide +kernel))
    have hopens : fullTree.Opens (.ofText "a".toList) ["a".toList] :=
      ⟨fullTree, .entry ["a".toList] (.file (Utf8.encode "f();\r\n".toList)), by decide +kernel,
        ok_of_toOption (by decide +kernel), nofun, rfl⟩
    exact ⟨_, "a".toList, 3, .noSpace, hyields, rfl, hopens, rfl, by decide +kernel⟩
  refine ⟨?_, (run_effects hpassing rfl).2.2 (by decide +kernel),
    ((run_effects hbreaking rfl).2.1 _ _ hcut).2⟩
  cases hexecute : (execute {} deskTree (deskRequest "n/s/..".toList)).2.result with
  | error fault =>
    rw [hexecute] at hfault
    -- nothing breaks off in this tree
    refine ((run_effects hfailing rfl).1 fault hexecute (Option.some.inj hfault)).2.2.2.mpr ?_
    rintro place part ⟨-, -, kept, error, -, -, -, hbroken, -⟩
    simp [deskTree] at hbroken
  | ok patched =>
    rw [hexecute] at hfault
    exact absurd (Option.some.inj hfault) Bool.false_ne_true

/-- A run that fails on a full disk has lost the source that it was to patch in place, or made a
new file with the first bytes; and one that fails at its path leaves new directories. -/
theorem run_leaves_part :
    let patchTo (tree : FileTree) (output : String) :=
      run {} (Editor.bySpelling none) tree
        ["-s".toList, "a".toList, "-m".toList, "m".toList, "-o".toList, output.toList] []
    (patchTo fullTree "a").exit = .returned 1
      ∧ (patchTo fullTree "a").errors = "error: a: [Errno 28] No space left on device\n".toList
      ∧ fullTree.bytes? ["a".toList] = some (Utf8.encode "f();\r\n".toList)
      ∧ (patchTo fullTree "a").tree.bytes? ["a".toList] = some (Utf8.encode "f()".toList)
      ∧ (patchTo fullTree "b").exit = .returned 1 ∧ fullTree.bytes? ["b".toList] = none
      ∧ (patchTo fullTree "b").tree.bytes? ["b".toList] = some (Utf8.encode "f()".toList)
      ∧ (patchTo deskTree "n/s/..").exit = .returned 1 ∧ deskTree.node? ["n".toList] = none
      ∧ (patchTo deskTree "n/s/..").tree.node? ["n".toList] = some .directory := by
  decide +kernel

end Graft.CommandLine
