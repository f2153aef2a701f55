import SqlFerry.Proofs.Path

/-! What a batch takes for granted of the files that it works on. Looking at files changes nothing,
directories and drafts come and go beside them, and a draft either takes the place of the file whose
name it is given or leaves every file as it is. Replacing a file then does one or the other too. -/
namespace SqlFerry

section Looking

variable {σ ε α β : Type}

theorem run_bind (x : ExceptT ε (StateM σ) α) (f : α → ExceptT ε (StateM σ) β) (s : σ) :
    (x >>= f).run.run s = match x.run.run s with
      | (.ok a, next) => (f a).run.run next
      | (.error e, next) => (.error e, next) := by
  rw [ExceptT.run_bind, StateT.run_bind]
  generalize x.run.run s = outcome
  obtain ⟨result, next⟩ := outcome
  cases result <;> rfl

theorem run_lift (x : StateM σ α) (s : σ) :
    (liftM x : ExceptT ε (StateM σ) α).run.run s = (.ok (x.run s).1, (x.run s).2) := rfl

/-- A step that looks at the state and does not change it. -/
def Looks (x : ExceptT ε (StateM σ) α) : Prop := ∀ s, ∃ result, x.run.run s = (result, s)

theorem looks_pure (a : α) : Looks (pure a : ExceptT ε (StateM σ) α) := fun _ => ⟨.ok a, rfl⟩

theorem looks_lift {x : StateM σ α} (kept : ∀ s, (x.run s).2 = s) :
    Looks (liftM x : ExceptT ε (StateM σ) α) :=
  fun s => ⟨.ok (x.run s).1, by rw [run_lift, kept]⟩

theorem Looks.bind {x : ExceptT ε (StateM σ) α} {f : α → ExceptT ε (StateM σ) β} (first : Looks x)
    (next : ∀ a, Looks (f a)) : Looks (x >>= f) := by
  intro s
  obtain ⟨result, ran⟩ := first s
  rw [run_bind, ran]
  cases result with
  | error e => exact ⟨.error e, rfl⟩
  | ok a => exact next a s

theorem looks_mapM {f : α → ExceptT ε (StateM σ) β} (each : ∀ a, Looks (f a)) (as : List α) :
    Looks (as.mapM f) := by
  induction as with
  | nil => exact looks_pure []
  | cons a as ih =>
    rw [List.mapM_cons]
    exact (each a).bind fun b => ih.bind fun bs => looks_pure (b :: bs)

theorem mapM_run_of_looks {f : α → StateM σ β} {g : α → β} {s : σ} (looks : ∀ a, (f a).run s = (g a, s))
    (as : List α) : (as.mapM f).run s = (as.map g, s) := by
  induction as with
  | nil => rfl
  | cons a as ih =>
    rw [List.mapM_cons, StateT.run_bind, looks]
    show ((as.mapM f) >>= fun bs => pure (g a :: bs)).run s = _
    rw [StateT.run_bind, ih]
    rfl

end Looking

/-- A storage with a view of its files: where a path leads, and what the file there holds. -/
structure Disk (σ ι γ : Type) where
  storage : Storage (StateM σ)
  working : σ → Location
  place : σ → Path → ι
  file? : σ → ι → Option γ
  ofText : String → γ

namespace Disk

variable {σ ι γ : Type} (d : Disk σ ι γ)

structure Unchanged (s next : σ) : Prop where
  place : d.place next = d.place s
  file? : d.file? next = d.file? s

/-- The file that a path leads to holds a text, and all others are as they were. -/
structure Replaced (s next : σ) (path : Path) (contents : String) : Prop where
  place : d.place next = d.place s
  holds : d.file? next (d.place s path) = some (d.ofText contents)
  others : ∀ other, other ≠ d.place s path → d.file? next other = d.file? s other

/-- What is taken for granted of a storage. -/
structure Lawful : Prop where
  /-- There are no links: paths lead to one place by their names. -/
  plain : ∀ s p q, d.place s p = d.place s q → p.place (d.working s) = q.place (d.working s)
  isPresent : ∀ path s, ((d.storage.isPresent path).run s).2 = s
  isDirectory : ∀ path s, ((d.storage.isDirectory path).run s).2 = s
  filesBelow : ∀ path s, ((d.storage.filesBelow path).run s).2 = s
  read : ∀ path s, ((d.storage.read path).run s).2 = s
  makeDirectories : ∀ path s, d.Unchanged s ((d.storage.makeDirectories path).run s).2
  draft : ∀ directory contents s, d.Unchanged s ((d.storage.draft directory contents).run s).2
  contents : ∀ directory contents s draft,
    ((d.storage.draft directory contents).run s).1 = .ok draft → draft.contents = contents
  /-- A draft takes the place of a file with all that was written to it. -/
  renamed : ∀ draft path s, ((d.storage.rename draft path).run s).1 = .ok () →
    d.Replaced s ((d.storage.rename draft path).run s).2 path draft.contents
  refused : ∀ draft path s cause, ((d.storage.rename draft path).run s).1 = .error cause →
    d.Unchanged s ((d.storage.rename draft path).run s).2

variable {d} {s middle next : σ}

theorem Unchanged.refl (s : σ) : d.Unchanged s s := ⟨rfl, rfl⟩

theorem Unchanged.trans (first : d.Unchanged s middle) (second : d.Unchanged middle next) :
    d.Unchanged s next :=
  ⟨second.place.trans first.place, second.file?.trans first.file?⟩

theorem Unchanged.replaced {path : Path} {contents : String} (first : d.Unchanged s middle)
    (second : d.Replaced middle next path contents) : d.Replaced s next path contents := by
  refine ⟨second.place.trans first.place, ?_, fun other ne => ?_⟩
  · rw [← first.place, second.holds]
  · rw [← first.place] at ne
    rw [second.others other ne, first.file?]

variable (d) in
/-- What replacing a file can do. -/
inductive Replaces (s : σ) (path : Path) (contents : String) : Except StorageError Unit × σ → Prop where
  | replaced {next : σ} (replaced : d.Replaced s next path contents) :
      Replaces s path contents (.ok (), next)
  | refused {next : σ} (error : StorageError) (unchanged : d.Unchanged s next) :
      Replaces s path contents (.error error, next)

variable {path : Path} {contents : String} {outcome : Except StorageError Unit × σ}

theorem Unchanged.replaces (first : d.Unchanged s middle) (second : d.Replaces middle path contents outcome) :
    d.Replaces s path contents outcome := by
  cases second with
  | replaced replaced => exact .replaced (first.replaced replaced)
  | refused error unchanged => exact .refused error (first.trans unchanged)

theorem run_attempt {α : Type} (failure : SystemError → StorageError)
    (action : StateM σ (Except SystemError α)) (s : σ) :
    (Storage.attempt failure action).run.run s =
      ((action.run s).1.mapError failure, (action.run s).2) := rfl

theorem replaces_of_attempt {α : Type} {failure : SystemError → StorageError}
    {action : StateM σ (Except SystemError α)} {f : α → ExceptT StorageError (StateM σ) Unit}
    (unchanged : d.Unchanged s (action.run s).2)
    (onward : ∀ a, (action.run s).1 = .ok a →
      d.Replaces (action.run s).2 path contents ((f a).run.run (action.run s).2)) :
    d.Replaces s path contents ((Storage.attempt failure action >>= f).run.run s) := by
  rw [run_bind, run_attempt]
  cases result : (action.run s).1 with
  | error cause => exact .refused _ unchanged
  | ok a => exact unchanged.replaces (onward a result)

namespace Lawful

variable (lawful : d.Lawful)

include lawful

theorem replaces_rename (draft : DraftFile) (path : Path) (s : σ) :
    d.Replaces s path draft.contents
      ((Storage.attempt (.rename path) (d.storage.rename draft path)).run.run s) := by
  rw [run_attempt]
  cases result : ((d.storage.rename draft path).run s).1 with
  | error cause => exact .refused _ (lawful.refused draft path s cause result)
  | ok done => exact .replaced (lawful.renamed draft path s result)

theorem replaces_draft (path : Path) (contents : String) (s : σ) :
    d.Replaces s path contents (StateT.run (do
      let draft ← Storage.attempt (.write path) (d.storage.draft path.directory contents)
      Storage.attempt (.rename path) (d.storage.rename draft path) :
        ExceptT StorageError (StateM σ) Unit).run s) := by
  refine replaces_of_attempt (lawful.draft path.directory contents s) fun draft written => ?_
  rw [← lawful.contents path.directory contents s draft written]
  exact lawful.replaces_rename draft path _

/-- Replacing a file puts the whole text in its place, or leaves every file as it was. -/
theorem replaces (path : Path) (contents : String) (s : σ) :
    d.Replaces s path contents ((d.storage.replace path contents).run.run s) := by
  rw [Storage.replace, run_bind, run_lift, lawful.isPresent]
  dsimp only
  split
  · exact lawful.replaces_draft path contents s
  · exact replaces_of_attempt (lawful.makeDirectories path.directory s) fun _ _ =>
      lawful.replaces_draft path contents _

end Lawful

end Disk

end SqlFerry
