import SqlFerry.Proofs.Storage
import SqlFerry.Proofs.Tsql.Production

/-! A tree of files keeps the laws of a disk. A path leads to one place whatever there is on the way, and
of all files only the one at that place changes. -/
namespace SqlFerry.FileTree

open Component
open Tsql (bind_eq_ok)

def file? (t : FileTree) (place : Location) : Option Item := (t.item? place).filter (· ≠ .directory)

section Items

variable (t : FileTree) (place : Location) (item : Item)

theorem item?_put_self : (t.put place item).item? place = some item := by
  have gone : (t.items.filter (·.1 != place)).lookup place = none := by
    simpa [List.lookup_eq_none_iff] using fun _ _ _ => Ne.symm
  rw [item?, put, List.lookup_append, gone]
  simp

theorem item?_put_of_ne {other : Location} (ne : other ≠ place) :
    (t.put place item).item? other = t.item? other := by
  have kept (items : List (Location × Item)) :
      (items.filter (·.1 != place)).lookup other = items.lookup other := by
    induction items with
    | nil => rfl
    | cons first rest ih =>
      obtain ⟨key, value⟩ := first
      by_cases isPlace : key = place
      · have notOther : (other == key) = false := by simpa [isPlace] using ne
        rw [List.filter_cons_of_neg (by simp [isPlace]), ih, List.lookup_cons, notOther]
      · rw [List.filter_cons_of_pos (by simp [isPlace]), List.lookup_cons, List.lookup_cons, ih]
  have notLast : List.lookup other [(place, item)] = none := by
    simp [List.lookup_eq_none_iff, ne]
  rw [item?, put, List.lookup_append, kept, notLast, Option.or_none, item?]

end Items

theorem step_eq_lead (place : Location) (piece : String) :
    step place piece = ((ofPiece? piece).map (lead place)).getD place := by
  rw [step, ofPiece?]
  split
  · rfl
  · split <;> rfl

theorem foldl_step (place : Location) (pieces : List String) :
    pieces.foldl step place = walk place (pieces.filterMap ofPiece?) := by
  induction pieces generalizing place with
  | nil => rfl
  | cons piece rest ih =>
    rw [List.foldl_cons, ih, step_eq_lead]
    cases isSome : ofPiece? piece with
    | none => rw [List.filterMap_cons_none isSome]; rfl
    | some c => rw [List.filterMap_cons_some isSome]; rfl

theorem enter_eq_ok {place next : Location} {piece : String} (entered : enter place piece = .ok next) :
    next = step place piece := by
  rw [enter] at entered
  split at entered
  · cases entered
  · cases entered
    rfl

theorem follow_eq_ok {t : FileTree} {place last : Location} {pieces : List String}
    (followed : t.follow place pieces = .ok last) : last = pieces.foldl step place := by
  induction pieces generalizing place with
  | nil =>
    cases followed
    rfl
  | cons piece rest ih =>
    rw [follow, List.foldlM_cons] at followed
    obtain ⟨next, moved, later⟩ := bind_eq_ok.mp followed
    obtain ⟨-, -, entered⟩ := bind_eq_ok.mp moved
    rw [List.foldl_cons, ← enter_eq_ok entered]
    exact ih later

theorem locate_eq_ok {t : FileTree} {path : Path} {place : Location}
    (located : t.locate path = .ok place) : place = path.place t.working := by
  obtain ⟨-, -, followed⟩ := bind_eq_ok.mp located
  rw [follow_eq_ok followed, foldl_step, start, Path.place_eq, Path.trunk]

variable {t next : FileTree} {path : Path}

/-- The tree has the files of another one, and its working directory. -/
structure Keeps (t next : FileTree) : Prop where
  working : next.working = t.working
  file? : next.file? = t.file?

theorem keeps_put_directory {place : Location} (free : t.item? place = none) :
    t.Keeps (t.put place .directory) := by
  refine ⟨rfl, funext fun other => ?_⟩
  by_cases same : other = place
  · subst same
    simp [file?, item?_put_self, free]
  · rw [file?, item?_put_of_ne _ _ _ same, file?]

theorem keeps_makeDirectories (t : FileTree) (place : Location) (pieces : List String) :
    t.Keeps (t.makeDirectories place pieces).2 := by
  induction pieces generalizing t place with
  | nil => exact ⟨rfl, rfl⟩
  | cons piece rest ih =>
    rw [makeDirectories]
    split
    · exact ⟨rfl, rfl⟩
    · next middle _ =>
      split
      · exact ih t middle
      · exact ⟨rfl, rfl⟩
      · next free =>
        have onward := ih (t.put middle .directory) middle
        have made := keeps_put_directory free
        exact ⟨onward.working.trans made.working, onward.file?.trans made.file?⟩

theorem keeps_makeDirectory (t : FileTree) (path : Path) : t.Keeps (t.makeDirectory path).2 := by
  rw [makeDirectory]
  split
  · exact ⟨rfl, rfl⟩
  · exact keeps_makeDirectories t _ _

theorem overwrite_eq_ok {contents : String} (written : t.overwrite path contents = .ok next) :
    next = t.put (path.place t.working) (.text contents) := by
  rw [overwrite] at written
  split at written
  · cases written
  · obtain ⟨place, located, written⟩ := bind_eq_ok.mp written
    split at written
    · cases written
    · split at written
      · cases written
      · cases written
        rw [← locate_eq_ok located]

/-- The files of a tree, as a batch sees them. -/
def disk : Disk FileTree Location Item where
  storage := storage
  working := working
  place t path := path.place t.working
  file? := file?
  ofText := .text

theorem Keeps.unchanged (keeps : t.Keeps next) : disk.Unchanged t next :=
  ⟨funext fun path => congrArg path.place keeps.working, keeps.file?⟩

theorem draft_contents {directory : Path} {contents : String} {draft : DraftFile}
    (written : t.draft directory contents = .ok draft) : draft.contents = contents := by
  obtain ⟨-, -, written⟩ := bind_eq_ok.mp written
  cases written
  rfl

theorem rename_run (t : FileTree) (draft : DraftFile) (path : Path) :
    (storage.rename draft path).run t = match t.overwrite path draft.contents with
      | .ok next => (.ok (), next)
      | .error cause => (.error cause, t) := rfl

theorem disk_lawful : disk.Lawful where
  plain _ _ _ same := same
  isPresent _ _ := rfl
  isDirectory _ _ := rfl
  filesBelow _ _ := rfl
  read _ _ := rfl
  makeDirectories path t := (keeps_makeDirectory t path).unchanged
  draft _ _ _ := .refl _
  contents _ _ _ _ := draft_contents
  renamed draft path t done := by
    have ran := rename_run t draft path
    cases written : t.overwrite path draft.contents with
    | error cause =>
      rw [written] at ran
      rw [disk, ran] at done
      cases done
    | ok next =>
      rw [written] at ran
      rw [disk, ran, overwrite_eq_ok written]
      refine ⟨rfl, ?_, fun other ne => ?_⟩
      · show file? _ _ = _
        rw [file?, item?_put_self]
        rfl
      · show file? _ _ = file? _ _
        rw [file?, item?_put_of_ne _ _ _ ne, file?]
  refused draft path t cause failed := by
    have ran := rename_run t draft path
    cases written : t.overwrite path draft.contents with
    | error cause =>
      rw [written] at ran
      rw [disk, ran]
      exact .refl t
    | ok next =>
      rw [written] at ran
      rw [disk, ran] at failed
      cases failed

end SqlFerry.FileTree
