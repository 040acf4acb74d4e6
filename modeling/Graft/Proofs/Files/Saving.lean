/-
Saving a file.

Directories that are made stand where nothing stood, so every file keeps its bytes
(`Extends`).  Writing changes what a single place holds, and the path that was written
leads to that place afterwards, since the way there only passes directories.  Once a file
is open, it holds as much of the new bytes as could be written, and nothing of the old ones:

* `node?_put` — what a tree holds after something was put into it;
* `extends_makeParents` — making directories only adds directories;
* `target_put` — the way to a place that was written;
* `save_cases` — all that saving a file can do.
-/
import Graft.Files.Tree

namespace Graft.FileTree

variable {tree : FileTree}

/-- The bytes of the file at a place, if there is one. -/
def bytes? (tree : FileTree) (place : List Text) : Option (List UInt8) :=
  match tree.node? place with
  | some (.file bytes) => some bytes
  | _ => none

theorem node?_put {place : List Text} (hplace : place ≠ []) (node : Node) (other : List Text) :
    (tree.put place node).node? other = if other = place then some node else tree.node? other := by
  unfold node? put
  by_cases hother : other = place
  · subst hother
    have hnone : (tree.entries.filter (·.1 != other)).find? (·.1 == other) = none := by
      rw [List.find?_eq_none]
      intro entry hentry
      simpa using (List.mem_filter.mp hentry).2
    simp [hplace, List.find?_append, hnone]
  · have hsame : ∀ entries : List (List Text × Node),
        (entries.filter (·.1 != place)).find? (·.1 == other) = entries.find? (·.1 == other) := by
      intro entries
      rw [List.find?_filter]
      congr 1
      funext entry
      by_cases hentry : entry.1 = other
      · simp [hentry, hother]
      · simp [hentry]
    simp [hother, List.find?_append, hsame, Ne.symm hother]

/-! ### Directories that are added -/

/-- A place holds what it held, or a directory if it held nothing. -/
def KeepsAt (tree left : FileTree) (place : List Text) : Prop :=
  left.node? place = tree.node? place
    ∨ tree.node? place = none ∧ left.node? place = some .directory

/-- No file comes, goes or changes where at most a directory is added. -/
theorem KeepsAt.bytes? {left : FileTree} {place : List Text} (h : tree.KeepsAt left place) :
    left.bytes? place = tree.bytes? place := by
  rcases h with hsame | ⟨hnone, hdirectory⟩
  · rw [FileTree.bytes?, FileTree.bytes?, hsame]
  · rw [FileTree.bytes?, FileTree.bytes?, hnone, hdirectory]

/-- The same tree but for directories that were added. -/
structure Extends (tree left : FileTree) : Prop where
  working : left.working = tree.working
  writing : left.writing = tree.writing
  keepsAt : ∀ place, tree.KeepsAt left place

theorem Extends.refl (tree : FileTree) : tree.Extends tree := ⟨rfl, rfl, fun _ => .inl rfl⟩

theorem Extends.trans {made left : FileTree} (h : tree.Extends made) (h' : made.Extends left) :
    tree.Extends left := by
  refine ⟨h'.working.trans h.working, h'.writing.trans h.writing, fun place => ?_⟩
  rcases h.keepsAt place with hmade | ⟨hnone, hmade⟩
  · rw [KeepsAt, ← hmade]
    exact h'.keepsAt place
  · rcases h'.keepsAt place with hleft | ⟨hnone', -⟩
    · exact .inr ⟨hnone, hleft.trans hmade⟩
    · exact absurd (hmade.symm.trans hnone') (by simp)

/-! ### Where paths lead -/

/-- The place that a path leads to. -/
def Target.place : Target → List Text
  | entry place _ => place
  | free place => place

/-- What stands at the place that a path leads to. -/
def Target.node? : Target → Option Node
  | entry _ node => some node
  | free _ => none

theorem ne_nil_of_node? {place : List Text} (h : tree.node? place ≠ some .directory) :
    place ≠ [] := by
  rintro rfl
  exact h rfl

theorem node?_walk {start parts : List Text} {found : Target}
    (h : tree.walk start parts = .ok found) : tree.node? found.place = found.node? := by
  fun_induction walk tree start parts with
  | case1 | case3 | case4 | case6 => simp at h
  | case2 start node hnode =>
    obtain rfl := Except.ok.inj h
    exact hnode
  | case5 start parts hstart ih => exact ih h
  | case7 start part parts hstart hup hshort hfree =>
    obtain rfl := Except.ok.inj h
    exact Option.isNone_iff_eq_none.mp (Bool.and_eq_true_iff.mp hfree).1
  | case8 start part parts hstart hup hshort htaken ih => exact ih h

/-- Where a way leads to a file or to a free name, it leads there too once a file has been put
there. -/
theorem walk_put {start parts place : List Text} {found : Target} {bytes : List UInt8}
    (h : tree.walk start parts = .ok found) (hfound : found.place = place)
    (hnode : tree.node? place ≠ some .directory) :
    (tree.put place (.file bytes)).walk start parts = .ok (.entry place (.file bytes)) := by
  have hput := @node?_put tree place (ne_nil_of_node? hnode) (.file bytes)
  -- a directory on the way is not the place
  have hpass : ∀ {start}, tree.node? start = some .directory →
      (tree.put place (.file bytes)).node? start = some .directory := by
    intro start hstart
    have hne : start ≠ place := fun heq => hnode (heq ▸ hstart)
    rw [hput, if_neg hne, hstart]
  fun_induction walk tree start parts with
  | case1 | case3 | case4 | case6 => simp at h
  | case2 start node hstart =>
    obtain rfl := Except.ok.inj h
    obtain rfl : start = place := hfound
    simp [walk, hput]
  | case5 start parts hstart ih =>
    simp only [walk, hpass hstart, if_pos]
    exact ih h
  | case7 start part parts hstart hup hshort hfree =>
    obtain rfl := Except.ok.inj h
    obtain rfl : start ++ [part] = place := hfound
    obtain rfl := List.isEmpty_iff.mp (Bool.and_eq_true_iff.mp hfree).2
    simp [walk, hpass hstart, hup, hshort, hput]
  | case8 start part parts hstart hup hshort htaken ih =>
    have htaken' : ¬ (((tree.put place (.file bytes)).node? (start ++ [part])).isNone
        && parts.isEmpty) = true := by
      rw [hput]
      split
      · simp
      · exact htaken
    simp only [walk, hpass hstart, if_neg hup, if_neg hshort, if_neg htaken']
    exact ih h

theorem node?_target {path : Path} {found : Target} (h : tree.target path = .ok found) :
    tree.node? found.place = found.node? := by
  rw [target] at h
  split at h
  · simp at h
  · split at h
    · simp at h
    · exact node?_walk h

theorem target_put {path : Path} {place : List Text} {found : Target} {bytes : List UInt8}
    (h : tree.target path = .ok found) (hfound : found.place = place)
    (hnode : tree.node? place ≠ some .directory) :
    (tree.put place (.file bytes)).target path = .ok (.entry place (.file bytes)) := by
  rw [target] at h ⊢
  split at h
  · simp at h
  · next hnull =>
    rw [if_neg hnull]
    split at h
    · simp at h
    · next hlong =>
      rw [if_neg hlong]
      exact walk_put h hfound hnode

/-! ### Making directories -/

theorem extends_makeDirectory {path : Path} {made : FileTree}
    (h : tree.makeDirectory path = .ok made) : tree.Extends made := by
  rw [makeDirectory] at h
  split at h
  · simp at h
  · simp at h
  · next place htarget =>
    obtain rfl := Except.ok.inj h
    have hnone : tree.node? place = none := node?_target htarget
    have hnode : tree.node? place ≠ some .directory := by simp [hnone]
    refine ⟨rfl, rfl, fun other => ?_⟩
    rw [KeepsAt, node?_put (ne_nil_of_node? hnode)]
    split
    · next heq => exact .inr ⟨heq ▸ hnone, rfl⟩
    · exact .inl rfl

theorem extends_ensureDirectory (tree : FileTree) (path : Path) :
    tree.Extends (tree.ensureDirectory path).1 := by
  rw [ensureDirectory]
  split
  · next hmade => exact extends_makeDirectory hmade
  · split
    · exact .refl tree
    · exact .refl tree

theorem extends_makeParents (tree : FileTree) (root : Text) (parts : List Text) :
    tree.Extends (tree.makeParents root parts).1 := by
  fun_induction makeParents tree root parts with
  | case1 => exact .refl _
  | case2 parts left path hensure hparts made failure hmade ih =>
    rw [hmade] at ih
    exact ih
  | case3 parts left path hensure hparts made hmade ih =>
    rw [hmade] at ih
    exact ih.trans (extends_ensureDirectory made _)
  | case4 parts hdone => exact extends_ensureDirectory _ _

/-! ### Saving -/

/-- What a path leads to can be opened for writing: a file, or a free name. -/
def Target.Writable (found : Target) : Prop := found.node? ≠ some .directory

theorem openEmpty_ok {path : Path} {place : List Text} {opened : FileTree}
    (h : tree.openEmpty path = .ok (opened, place)) :
    ∃ found, tree.target path = .ok found ∧ found.Writable ∧ found.place = place
      ∧ opened = tree.put place (.file []) := by
  rw [openEmpty] at h
  split at h
  · simp at h
  · simp at h
  · next htarget =>
    obtain ⟨rfl, rfl⟩ := Prod.mk.inj (Except.ok.inj h)
    exact ⟨_, htarget, by simp [Target.Writable, Target.node?], rfl, rfl⟩
  · next htarget =>
    obtain ⟨rfl, rfl⟩ := Prod.mk.inj (Except.ok.inj h)
    exact ⟨_, htarget, by simp [Target.Writable, Target.node?], rfl, rfl⟩

theorem openEmpty_error {path : Path} {error : FileError}
    (h : tree.openEmpty path = .error error) {found : Target}
    (hfound : tree.target path = .ok found) : ¬ found.Writable := by
  rw [openEmpty, hfound] at h
  cases found with
  | free place => simp at h
  | entry place node =>
    cases node with
    | file bytes => simp at h
    | directory => exact fun hwritable => hwritable rfl

/-- A path leads to a place where a file can be opened, once the directories on the way are
made. -/
def Opens (tree : FileTree) (path : Path) (place : List Text) : Prop :=
  ∃ made found, tree.makeParents path.root path.parent.parts = (made, none)
    ∧ made.target path = .ok found ∧ found.Writable ∧ found.place = place

theorem Opens.unique {path : Path} {place place' : List Text} (h : tree.Opens path place)
    (h' : tree.Opens path place') : place = place' := by
  obtain ⟨made, found, hmade, hfound, -, rfl⟩ := h
  obtain ⟨made', found', hmade', hfound', -, rfl⟩ := h'
  obtain rfl : made = made' := (Prod.mk.inj (hmade.symm.trans hmade')).1
  rw [Except.ok.inj (hfound.symm.trans hfound')]

/-- Filling a file that was opened puts the bytes that could be written where the path leads, and
changes nothing else. -/
theorem fill_opened {path : Path} {found : Target} {bytes : List UInt8} {left : FileTree}
    {failed : Option Failure} (hfound : tree.target path = .ok found) (hwritable : found.Writable)
    (h : (tree.put found.place (.file [])).fill found.place bytes = (left, failed)) :
    failed = tree.failure?
      ∧ left.target path = .ok (.entry found.place (.file (tree.writing.part bytes)))
      ∧ ∀ other, other ≠ found.place → left.node? other = tree.node? other := by
  obtain ⟨rfl, rfl⟩ := Prod.mk.inj h
  have hnode : tree.node? found.place ≠ some .directory := node?_target hfound ▸ hwritable
  have hplace := ne_nil_of_node? hnode
  have hopened : (tree.put found.place (.file [])).node? found.place ≠ some .directory := by
    simp [node?_put hplace]
  refine ⟨rfl, target_put (target_put hfound rfl hnode) rfl hopened, fun other hother => ?_⟩
  rw [node?_put hplace, if_neg hother, node?_put hplace, if_neg hother]

/-- All that saving a file can do.  Either the file is opened, it holds what could be written, and
saving fails if that was not all; or it cannot be opened, and only directories are left. -/
theorem save_cases {path : Path} {bytes : List UInt8} {left : FileTree} {failed : Option Failure}
    (h : tree.save path bytes = (left, failed)) :
    (∃ place, tree.Opens path place ∧ failed = tree.failure?
        ∧ left.target path = .ok (.entry place (.file (tree.writing.part bytes)))
        ∧ ∀ other, other ≠ place → tree.KeepsAt left other)
      ∨ (∀ place, ¬ tree.Opens path place) ∧ failed ≠ none ∧ tree.Extends left := by
  have hmade := extends_makeParents tree path.root path.parent.parts
  rw [save] at h
  split at h
  · next made failure heq =>
    obtain ⟨rfl, rfl⟩ := Prod.mk.inj h
    rw [heq] at hmade
    refine .inr ⟨?_, by simp, hmade⟩
    rintro place ⟨made', found, hmade', -⟩
    simp [heq] at hmade'
  · next made heq =>
    rw [heq] at hmade
    rw [write] at h
    split at h
    · next error herror =>
      obtain ⟨rfl, rfl⟩ := Prod.mk.inj h
      refine .inr ⟨?_, by simp, hmade⟩
      rintro place ⟨made', found, hmade', hfound, hwritable, -⟩
      obtain rfl : made = made' := (Prod.mk.inj (heq.symm.trans hmade')).1
      exact openEmpty_error herror hfound hwritable
    · next opened place hopened =>
      obtain ⟨found, hfound, hwritable, rfl, rfl⟩ := openEmpty_ok hopened
      obtain ⟨hfailed, htarget, hother⟩ := fill_opened hfound hwritable h
      rw [failure?, hmade.writing] at hfailed
      rw [hmade.writing] at htarget
      refine .inl ⟨found.place, ⟨made, found, heq, hfound, hwritable, rfl⟩, hfailed, htarget, ?_⟩
      intro other hne
      rw [KeepsAt, hother other hne]
      exact hmade.keepsAt other

/-- The bytes at the place that a path leads to. -/
theorem bytes?_of_target {path : Path} {place : List Text} {bytes : List UInt8}
    (h : tree.target path = .ok (.entry place (.file bytes))) :
    tree.bytes? place = some bytes := by
  have hnode : tree.node? place = some (.file bytes) := node?_target h
  rw [FileTree.bytes?, hnode]

end Graft.FileTree
