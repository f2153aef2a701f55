import Mathlib.Data.List.Perm.Basic
import SqlFerry.Batch.Report
import SqlFerry.Proofs.Batch.Plan
import SqlFerry.Proofs.FileTree

/-! Accounts of a batch. Results are taken down at the place of their file, so the order in which they
come does not matter. What was rendered is then written file by file: one write changes the file at
its output or nothing at all, and a run of writes leaves at every output what was written there, since
no two outputs lead to one place. The report counts every file of the plan once. -/
namespace SqlFerry

namespace Job

variable {plan : List Assignment} {outcomes : List (Except BatchError Rendered)}

def done (plan : List Assignment) (outcomes : List (Except BatchError Rendered)) : Job :=
  (plan.zip outcomes).map fun (assignment, outcome) => ⟨assignment, some outcome⟩

theorem record_length (front back : Job) (file : FileJob) (result : Except BatchError Rendered) :
    Job.record (front ++ file :: back) front.length result =
      front ++ { file with result? := some result } :: back := by
  induction front with
  | nil => rfl
  | cons first front ih => exact congrArg (first :: ·) ih

theorem settle_inOrder (front : Job) (each : outcomes.length = plan.length) :
    Job.settle (front ++ ofPlan plan) ((outcomes.zipIdx front.length).map Prod.swap) =
      front ++ done plan outcomes := by
  induction plan generalizing front outcomes with
  | nil =>
    obtain rfl := List.length_eq_zero_iff.mp each
    rfl
  | cons assignment plan ih =>
    obtain ⟨outcome, outcomes, rfl⟩ := List.exists_cons_of_length_eq_add_one each
    have next := ih (front ++ [⟨assignment, some outcome⟩]) (Nat.succ.inj each)
    rw [List.length_append, List.append_assoc, List.append_assoc] at next
    rw [List.zipIdx_cons, List.map_cons, settle, List.foldl_cons]
    exact (congrArg (Job.settle · _) (record_length front _ _ outcome)).trans next

theorem record_comm (job : Job) {place other : Nat} (ne : place ≠ other)
    (first second : Except BatchError Rendered) :
    (job.record place first).record other second = (job.record other second).record place first :=
  List.modify_modify_ne _ _ _ ne

/-- Results are taken down to the same effect in whatever order they come. -/
theorem settle_perm {arrived : List (Nat × Except BatchError Rendered)}
    (each : outcomes.length = plan.length)
    (complete : arrived.Perm (outcomes.zipIdx.map Prod.swap)) :
    (ofPlan plan).settle arrived = done plan outcomes := by
  have alone {place : Nat} {first second : Except BatchError Rendered}
      (isFirst : (place, first) ∈ arrived) (isSecond : (place, second) ∈ arrived) : first = second := by
    have found {result} (member : (place, result) ∈ arrived) : outcomes[place]? = some result := by
      simpa [List.mk_mem_zipIdx_iff_getElem?] using complete.subset member
    exact Option.some.inj ((found isFirst).symm.trans (found isSecond))
  have inOrder := settle_inOrder [] each
  rw [List.nil_append] at inOrder
  refine .trans (complete.foldl_eq' (fun first isFirst second isSecond job => ?_) _) inOrder
  obtain ⟨place, result⟩ := first
  obtain ⟨other, result'⟩ := second
  by_cases same : place = other
  · subst same
    rw [alone isFirst isSecond]
  · exact record_comm job same result result'

end Job

section Disk

variable {σ ι γ : Type} (d : Disk σ ι γ)

/-- What one write can do to a file's result and to the disk. -/
inductive FileJob.Writes (s : σ) (file : FileJob) : FileJob → σ → Prop where
  | none (empty : file.rendered? = none) : Writes s file file s
  | replaced {rendered : Rendered} {next : σ} (isRendered : file.rendered? = some rendered)
      (replaced : d.Replaced s next file.output rendered.text) : Writes s file file next
  | refused {rendered : Rendered} {next : σ} (isRendered : file.rendered? = some rendered)
      (error : StorageError) (unchanged : d.Unchanged s next) :
      Writes s file { file with result? := some (.error (.storage error)) } next

/-- What writing files one after the other can do. -/
inductive Job.Writes : σ → Job → Job → σ → Prop where
  | nil (s : σ) : Writes s [] [] s
  | cons {s middle last : σ} {file file' : FileJob} {rest rest' : Job}
      (first : file.Writes d s file' middle) (others : Writes middle rest rest' last) :
      Writes s (file :: rest) (file' :: rest') last

variable {d}

theorem Job.writeFile_writes (lawful : d.Lawful) (s : σ) (file : FileJob) :
    file.Writes d s ((writeFile d.storage file).run s).1 ((writeFile d.storage file).run s).2 := by
  rw [writeFile]
  cases isRendered : file.rendered? with
  | none => exact .none isRendered
  | some rendered =>
    have replaces := lawful.replaces file.output rendered.text s
    simp only [StateT.run_bind]
    generalize (d.storage.replace file.output rendered.text).run.run s = outcome at replaces ⊢
    cases replaces with
    | replaced replaced => exact .replaced isRendered replaced
    | refused error unchanged => exact .refused isRendered error unchanged

theorem Job.mapM_writes (lawful : d.Lawful) (s : σ) (job : Job) :
    Job.Writes d s job ((job.mapM (writeFile d.storage)).run s).1
      ((job.mapM (writeFile d.storage)).run s).2 := by
  induction job generalizing s with
  | nil => exact .nil s
  | cons file rest ih =>
    rw [List.mapM_cons]
    exact .cons (writeFile_writes lawful s file) (ih _)

end Disk

theorem FileJob.rendered?_eq_some {file : FileJob} {rendered : Rendered} :
    file.rendered? = some rendered ↔ file.result? = some (.ok rendered) := by
  rw [rendered?, Option.bind_eq_some_iff]
  constructor
  · rintro ⟨result, isResult, isOk⟩
    cases result with
    | error => cases isOk
    | ok => rw [isResult, Option.some.inj isOk]
  · exact fun isResult => ⟨_, isResult, rfl⟩

def FileJob.isConverted (file : FileJob) : Bool := file.rendered?.isSome

section Writes

variable {σ ι γ : Type} {d : Disk σ ι γ} {s next : σ}

theorem FileJob.Writes.place {file file' : FileJob} (writes : file.Writes d s file' next) :
    d.place next = d.place s := by
  cases writes with
  | none => rfl
  | replaced _ replaced => exact replaced.place
  | refused _ _ unchanged => exact unchanged.place

theorem FileJob.Writes.result {file file' : FileJob} (writes : file.Writes d s file' next) :
    file'.assignment = file.assignment ∧ (file' = file ∨
      file.isConverted ∧ ∃ error, file'.result? = some (.error (.storage error))) := by
  cases writes with
  | none | replaced => exact ⟨rfl, .inl rfl⟩
  | refused isRendered error => exact ⟨rfl, .inr ⟨by rw [isConverted, isRendered]; rfl, error, rfl⟩⟩

/-- A write leaves all files alone but the one that it reports as written. -/
theorem FileJob.Writes.others {file file' : FileJob} (writes : file.Writes d s file' next) {place : ι}
    (elsewhere : file'.isConverted → d.place s file'.output ≠ place) :
    d.file? next place = d.file? s place := by
  cases writes with
  | none => rfl
  | refused _ _ unchanged => rw [unchanged.file?]
  | replaced isRendered replaced =>
    exact replaced.others place (Ne.symm (elsewhere (by rw [isConverted, isRendered]; rfl)))

variable {job job' : Job}

theorem Job.Writes.assignments (writes : Writes d s job job' next) :
    job'.map (·.assignment) = job.map (·.assignment) := by
  induction writes with
  | nil => rfl
  | cons first _ ih => rw [List.map_cons, List.map_cons, ih, first.result.1]

theorem Job.Writes.results (writes : Writes d s job job' next) (place : Nat) :
    (job[place]? = none ∧ job'[place]? = none) ∨ ∃ file file', job[place]? = some file ∧
      job'[place]? = some file' ∧ (file' = file ∨
        file.isConverted ∧ ∃ error, file'.result? = some (.error (.storage error))) := by
  induction writes generalizing place with
  | nil => exact .inl ⟨rfl, rfl⟩
  | cons first _ ih =>
    cases place with
    | zero => exact .inr ⟨_, _, rfl, rfl, first.result.2⟩
    | succ place => exact ih place

theorem Job.Writes.others (writes : Writes d s job job' next) {place : ι}
    (elsewhere : ∀ file ∈ job', file.isConverted → d.place s file.output ≠ place) :
    d.file? next place = d.file? s place := by
  induction writes with
  | nil => rfl
  | cons first _ ih =>
    rw [List.forall_mem_cons] at elsewhere
    rw [ih (by rw [first.place]; exact elsewhere.2), first.others elsewhere.1]

/-- All that is reported as written is where it was written to, as long as no two files are written to
one place. -/
theorem Job.Writes.holds (writes : Writes d s job job' next)
    (apart : job'.Pairwise fun file other => d.place s file.output ≠ d.place s other.output)
    {file : FileJob} (member : file ∈ job') {rendered : Rendered}
    (isRendered : file.rendered? = some rendered) :
    d.file? next (d.place s file.output) = some (d.ofText rendered.text) := by
  induction writes with
  | nil => simp at member
  | @cons s middle last first first' rest rest' write others ih =>
    rw [List.pairwise_cons] at apart
    rcases List.mem_cons.mp member with rfl | later
    · cases write with
      | none empty => exact absurd (empty.symm.trans isRendered) (by simp)
      | refused => cases isRendered
      | replaced isRendered' replaced =>
        obtain rfl := Option.some.inj (isRendered.symm.trans isRendered')
        have elsewhere : ∀ other ∈ rest', other.isConverted →
            d.place middle other.output ≠ d.place s file.output := by
          intro other isOther _
          rw [replaced.place]
          exact Ne.symm (apart.1 other isOther)
        exact (others.others elsewhere).trans replaced.holds
    · rw [← write.place] at apart ⊢
      exact ih apart.2 later

end Writes

section Report

theorem FileJob.input_converted? (file : FileJob) :
    file.converted?.map (·.input) = if file.isConverted then some file.input else none := by
  rw [converted?, isConverted]
  cases file.rendered? <;> rfl

theorem FileJob.input_failure? (file : FileJob) :
    file.failure?.map (·.input) = if !file.isConverted then some file.input else none := by
  rw [failure?, isConverted, rendered?]
  split <;> simp_all [Except.toOption]

namespace BatchReport

variable (job : Job)

theorem inputs_converted :
    (ofJob job).converted.map (·.input) = (job.filter (·.isConverted)).map (·.input) := by
  rw [ofJob, List.map_filterMap, ← List.filterMap_eq_map, List.filterMap_filter]
  simp only [FileJob.input_converted?]
  rfl

theorem inputs_failures :
    (ofJob job).failures.map (·.input) = (job.filter (!·.isConverted)).map (·.input) := by
  rw [ofJob, List.map_filterMap, ← List.filterMap_eq_map, List.filterMap_filter]
  simp only [FileJob.input_failure?]
  rfl

theorem perm_inputs :
    ((ofJob job).converted.map (·.input) ++ (ofJob job).failures.map (·.input)).Perm
      (job.map (·.input)) := by
  rw [inputs_converted, inputs_failures, ← List.map_append]
  exact (List.filter_append_perm _ job).map _

theorem status_iff (r : BatchReport) : (r.status = .success ↔ r.failures = []) ∧
    (r.status = .failed ↔ r.failures ≠ [] ∧ r.converted = []) ∧
    (r.status = .partly ↔ r.failures ≠ [] ∧ r.converted ≠ []) := by
  rw [status]
  split
  · simp_all
  · split <;> simp_all

end BatchReport

end Report

section Rendering

variable {σ ι γ : Type} (b : Batch) {d : Disk σ ι γ} (s : σ)

theorem Batch.render_run (lawful : d.Lawful) (path : Path) : (b.render d.storage path).run s =
    (match ((d.storage.read path).run s).1 with
      | .ok text => b.renderText text
      | .error cause => .error (.storage (.read path cause)), s) := by
  have isRead : (d.storage.read path).run s = (((d.storage.read path).run s).1, s) :=
    Prod.ext rfl (lawful.read path s)
  rw [Batch.render, StateT.run_bind, isRead]
  cases ((d.storage.read path).run s).1 <;> rfl

def Batch.outcomes (storage : Storage (StateM σ)) (plan : List Assignment) :
    List (Except BatchError Rendered) :=
  plan.map fun assignment => ((b.render storage assignment.input).run s).1

theorem Job.convert_run (lawful : d.Lawful) (plan : List Assignment) :
    ((ofPlan plan).convert b d.storage).run s =
      ((ofPlan plan).settle ((b.outcomes s d.storage plan).zipIdx.map Prod.swap), s) := by
  have looks (file : FileJob × Nat) :
      StateT.run (do return (file.2, ← b.render d.storage file.1.input)) s =
        ((file.2, ((b.render d.storage file.1.input).run s).1), s) := by
    rw [StateT.run_bind, Batch.render_run b s lawful]
    rfl
  have results : (ofPlan plan).zipIdx.map
      (fun file => (file.2, ((b.render d.storage file.1.input).run s).1)) =
        (b.outcomes s d.storage plan).zipIdx.map Prod.swap := by
    simp [Batch.outcomes, ofPlan, List.zipIdx_map, FileJob.input, Function.comp_def]
  rw [convert, StateT.run_bind, mapM_run_of_looks looks, results]
  rfl

end Rendering

/-- The accounts of a batch: the files of its plan, the report on them and the disk. -/
structure Batch.Accounted {σ ι γ : Type} (b : Batch) (d : Disk σ ι γ) (before : σ) (plan : List Assignment)
    (outcomes : List (Except BatchError Rendered)) (report : BatchReport) (after : σ) : Prop where
  /-- The plan has every file that the inputs stand for. -/
  inputs : ∃ files : List (List Path),
    (b.inputs.mapM (filesOf d.storage)).run.run before = (.ok files, before) ∧
      ListsEachOnce (files.flatten.map Path.normalize) (plan.map (·.input))
  outputs : (plan.map (·.output)).Nodup
  /-- Every file is reported once. -/
  reported : (report.converted.map (·.input) ++ report.failures.map (·.input)).Perm
    (plan.map (·.input))
  convertedInOrder : (report.converted.map (·.input)).Sublist (plan.map (·.input))
  failuresInOrder : (report.failures.map (·.input)).Sublist (plan.map (·.input))
  /-- A file that is reported as converted was rendered, and its output holds the text. -/
  converted : ∀ file ∈ report.converted, ∃ (place : Nat) (rendered : Rendered),
    plan[place]? = some ⟨file.input, file.output⟩ ∧ outcomes[place]? = some (.ok rendered) ∧
      file.diagnostics = rendered.diagnostics ∧
      d.file? after (d.place before file.output) = some (d.ofText rendered.text)
  /-- A file that was not rendered is reported with the reason. -/
  failed : ∀ (place : Nat) (assignment : Assignment) (error : BatchError),
    plan[place]? = some assignment → outcomes[place]? = some (.error error) →
      ⟨assignment.input, error.phase, error.message⟩ ∈ report.failures
  /-- No other file on the disk has changed. -/
  untouched : ∀ place, (∀ file ∈ report.converted, d.place before file.output ≠ place) →
    d.file? after place = d.file? before place
  status : (report.status = .success ↔ report.failures = []) ∧
    (report.status = .failed ↔ report.failures ≠ [] ∧ report.converted = []) ∧
    (report.status = .partly ↔ report.failures ≠ [] ∧ report.converted ≠ [])

section Accounts

variable {plan : List Assignment} {outcomes : List (Except BatchError Rendered)}

theorem Job.map_assignment_done (each : outcomes.length = plan.length) :
    (done plan outcomes).map (·.assignment) = plan := by
  rw [done, List.map_map]
  exact List.map_fst_zip (Nat.le_of_eq each.symm)

theorem Job.getElem?_done {place : Nat} {file : FileJob} : (done plan outcomes)[place]? = some file ↔
    ∃ assignment outcome, plan[place]? = some assignment ∧ outcomes[place]? = some outcome ∧
      file = ⟨assignment, some outcome⟩ := by
  rw [done, List.getElem?_map, Option.map_eq_some_iff]
  constructor
  · rintro ⟨⟨assignment, outcome⟩, present, rfl⟩
    obtain ⟨isAssignment, isOutcome⟩ := List.getElem?_zip_eq_some.mp present
    exact ⟨assignment, outcome, isAssignment, isOutcome, rfl⟩
  · rintro ⟨assignment, outcome, isAssignment, isOutcome, rfl⟩
    exact ⟨(assignment, outcome), List.getElem?_zip_eq_some.mpr ⟨isAssignment, isOutcome⟩, rfl⟩

variable {σ ι γ : Type} {b : Batch} {d : Disk σ ι γ} {before after : σ} {job : Job}

/-- The outputs of a plan lead to different places, unless one leads above the root. -/
theorem Batch.places_apart (lawful : d.Lawful) {files : List Path} (planned : b.planFor files = .ok plan)
    (low : ∀ a ∈ plan, a.output.ascent ≤ (d.working before).length) :
    plan.Pairwise fun a a' => d.place before a.output ≠ d.place before a'.output := by
  obtain ⟨isPlan, outputs⟩ := Batch.planFor_eq_ok planned
  have isTarget : ∀ a ∈ plan, a.output = a.input.target b.outdir b.extension := by
    rw [isPlan]
    simp
  refine (List.pairwise_map.mp outputs).imp_of_mem fun {a a'} member member' ne same => ne ?_
  have same := lawful.plain before _ _ same
  have aLow := low a member
  have aLow' := low a' member'
  rw [isTarget a member, isTarget a' member'] at same ⊢
  rw [isTarget a member] at aLow
  rw [isTarget a' member'] at aLow'
  exact Path.target_eq_of_place_eq same aLow aLow'

section Job

variable (writes : Job.Writes d before (Job.done plan outcomes) job after)

include writes

theorem Job.Writes.failed {place : Nat} {assignment : Assignment} {error : BatchError}
    (isAssignment : plan[place]? = some assignment) (isOutcome : outcomes[place]? = some (.error error)) :
    ⟨assignment.input, error.phase, error.message⟩ ∈ (BatchReport.ofJob job).failures := by
  have present := getElem?_done.mpr ⟨assignment, _, isAssignment, isOutcome, rfl⟩
  rcases writes.results place with ⟨gone, -⟩ | ⟨first, last, isFirst, isLast, same⟩
  · cases gone.symm.trans present
  · obtain rfl := Option.some.inj (isFirst.symm.trans present)
    rcases same with rfl | ⟨isConverted, -⟩
    · exact List.mem_filterMap.mpr ⟨_, List.mem_of_getElem? isLast, rfl⟩
    · cases isConverted

variable (apart : plan.Pairwise fun a a' => d.place before a.output ≠ d.place before a'.output)
  (assigned : job.map (·.assignment) = plan)

include apart assigned

theorem Job.Writes.converted {file : ConvertedFile} (member : file ∈ (BatchReport.ofJob job).converted) :
    ∃ (place : Nat) (rendered : Rendered), plan[place]? = some ⟨file.input, file.output⟩ ∧
      outcomes[place]? = some (.ok rendered) ∧ file.diagnostics = rendered.diagnostics ∧
      d.file? after (d.place before file.output) = some (d.ofText rendered.text) := by
  obtain ⟨entry, isEntry, isConverted⟩ := List.mem_filterMap.mp member
  obtain ⟨rendered, isRendered, rfl⟩ := Option.map_eq_some_iff.mp isConverted
  obtain ⟨place, present⟩ := List.mem_iff_getElem?.mp isEntry
  rw [← assigned, List.pairwise_map] at apart
  have text := writes.holds apart isEntry isRendered
  rw [FileJob.rendered?_eq_some] at isRendered
  rcases writes.results place with ⟨-, gone⟩ | ⟨first, last, isFirst, isLast, same⟩
  · cases gone.symm.trans present
  · obtain rfl := Option.some.inj (isLast.symm.trans present)
    rcases same with rfl | ⟨-, error, isError⟩
    · obtain ⟨assignment, outcome, isAssignment, isOutcome, rfl⟩ := getElem?_done.mp isFirst
      obtain rfl := Option.some.inj isRendered
      exact ⟨place, rendered, isAssignment, isOutcome, rfl, text⟩
    · cases isError.symm.trans isRendered

omit apart assigned in
theorem Job.Writes.untouched {place : ι}
    (elsewhere : ∀ file ∈ (BatchReport.ofJob job).converted, d.place before file.output ≠ place) :
    d.file? after place = d.file? before place := by
  apply writes.others
  intro entry isEntry isConverted
  obtain ⟨rendered, isRendered⟩ := Option.isSome_iff_exists.mp isConverted
  exact elsewhere ⟨entry.input, entry.output, rendered.diagnostics⟩
    (List.mem_filterMap.mpr ⟨entry, isEntry, by rw [FileJob.converted?, isRendered]; rfl⟩)

end Job

theorem Job.Writes.accounted (lawful : d.Lawful)
    (planned : ((b.plan d.storage).run.run before).1 = .ok plan)
    (low : ∀ a ∈ plan, a.output.ascent ≤ (d.working before).length)
    (each : outcomes.length = plan.length) (writes : Writes d before (done plan outcomes) job after) :
    b.Accounted d before plan outcomes (.ofJob job) after := by
  obtain ⟨files, found, planFor, -⟩ := Batch.plan_eq_ok lawful planned
  obtain ⟨isPlan, outputs⟩ := Batch.planFor_eq_ok planFor
  have apart := Batch.places_apart lawful planFor low
  have isInputs : plan.map (·.input) = Batch.firstOccurrences (files.flatten.map Path.normalize) := by
    rw [isPlan, List.map_map]
    exact List.map_id _
  have assigned : job.map (·.assignment) = plan := by rw [writes.assignments, map_assignment_done each]
  have inputs : job.map (·.input) = plan.map (·.input) := by
    rw [← assigned, List.map_map]
    rfl
  exact {
    inputs := ⟨files, found, isInputs ▸ Batch.listsEachOnce_firstOccurrences _⟩
    outputs := outputs
    reported := inputs ▸ BatchReport.perm_inputs job
    convertedInOrder := by
      rw [BatchReport.inputs_converted, ← inputs]
      exact List.filter_sublist.map _
    failuresInOrder := by
      rw [BatchReport.inputs_failures, ← inputs]
      exact List.filter_sublist.map _
    converted := fun _ => writes.converted apart assigned
    failed := fun _ _ _ => writes.failed
    untouched := fun _ => writes.untouched
    status := BatchReport.status_iff _ }

theorem Batch.Accounted.conversions {report : BatchReport} (lawful : d.Lawful) (converts : b.tokens = false)
    (accounted : b.Accounted d before plan (b.outcomes before d.storage plan) report after) :
    ∀ file ∈ report.converted, ∃ text conversion, ((d.storage.read file.input).run before).1 = .ok text ∧
      convertWith b.passes b.options text = .ok conversion ∧
      file.diagnostics = conversion.diagnostics ∧
      d.file? after (d.place before file.output) = some (d.ofText (conversion.text ++ "\n")) := by
  intro file member
  obtain ⟨place, rendered, isAssignment, isOutcome, diagnostics, text⟩ := accounted.converted file member
  rw [outcomes, List.getElem?_map, isAssignment, Option.map_some, render_run _ _ lawful] at isOutcome
  have isOutcome := Option.some.inj isOutcome
  dsimp only at isOutcome
  split at isOutcome
  · next source isRead =>
    rw [renderText, converts] at isOutcome
    simp only [Bool.false_eq_true, if_false] at isOutcome
    split at isOutcome
    · next conversion converted =>
      cases isOutcome
      exact ⟨source, conversion, isRead, converted, diagnostics, text⟩
    · cases isOutcome
  · cases isOutcome

end Accounts

/-- A batch that converts files keeps its accounts on every disk that keeps the laws, whatever the files
are turned into and in whatever order that is done: the report and the disk are the same for every order,
and they are those of a run in which each result is the conversion of the file's text. -/
theorem batch_accounted {σ ι γ : Type} (d : Disk σ ι γ) (lawful : d.Lawful) (b : Batch)
    (converts : b.tokens = false) (before : σ)
    (plan : List Assignment) (planned : ((b.plan d.storage).run.run before).1 = .ok plan)
    (low : ∀ a ∈ plan, a.output.ascent ≤ (d.working before).length)
    (outcomes : List (Except BatchError Rendered)) (each : outcomes.length = plan.length) :
    ∃ (job : Job) (after : σ),
      (∀ arrived, arrived.Perm (outcomes.zipIdx.map Prod.swap) →
        (((Job.ofPlan plan).settle arrived).write b d.storage).run before = (job, after)) ∧
      b.Accounted d before plan outcomes (.ofJob job) after ∧
      (outcomes = b.outcomes before d.storage plan →
        (b.run d.storage).run before = (.ok (.ofJob job), after) ∧
          ∀ file ∈ (BatchReport.ofJob job).converted, ∃ text conversion,
            ((d.storage.read file.input).run before).1 = .ok text ∧
            convertWith b.passes b.options text = .ok conversion ∧
            file.diagnostics = conversion.diagnostics ∧
            d.file? after (d.place before file.output) = some (d.ofText (conversion.text ++ "\n"))) := by
  have writes := Job.mapM_writes lawful before (Job.done plan outcomes)
  have accounted := writes.accounted lawful planned low each
  have written (arrived) (complete : arrived.Perm (outcomes.zipIdx.map Prod.swap)) :
      (((Job.ofPlan plan).settle arrived).write b d.storage).run before =
        ((Job.done plan outcomes).mapM (Job.writeFile d.storage)).run before := by
    rw [Job.settle_perm each complete, Job.write, converts]
    rfl
  refine ⟨_, _, fun arrived complete => written arrived complete, accounted, ?_⟩
  rintro rfl
  refine ⟨?_, accounted.conversions lawful converts⟩
  obtain ⟨-, -, -, isPlan⟩ := Batch.plan_eq_ok lawful planned
  rw [Batch.run, StateT.run_bind, isPlan]
  show ((Job.ofPlan plan).convert b d.storage >>= fun job =>
    job.write b d.storage >>= fun job => pure (Except.ok (BatchReport.ofJob job))).run before = _
  rw [StateT.run_bind, Job.convert_run b before lawful]
  show (Job.write _ b d.storage >>= fun job => pure (Except.ok (BatchReport.ofJob job))).run before = _
  rw [StateT.run_bind, written _ (.refl _)]
  rfl

/-- Files side by side in a working directory below the root. -/
def workDirectory (files : List (String × String)) : FileTree :=
  files.foldl (fun t file => t.put ["work", file.1] (.text file.2)) (.empty ["work"])

/-- A batch that names one of two files twice, with results that come in the other order. -/
theorem two_files_accounted : ∃ (job : Job) (after : FileTree),
    (((Job.ofPlan [⟨⟨"b.sql"⟩, ⟨"b.pgsql"⟩⟩, ⟨⟨"a.sql"⟩, ⟨"a.pgsql"⟩⟩]).settle
        [(1, .error .noInputs), (0, .ok ⟨"x", []⟩)]).write
          { inputs := [⟨"b.sql"⟩, ⟨"./a.sql"⟩, ⟨"c/../b.sql"⟩] } FileTree.storage).run
      (workDirectory [("a.sql", "SELECT 1"), ("b.sql", "PRINT 2")]) = (job, after) ∧
    Batch.Accounted { inputs := [⟨"b.sql"⟩, ⟨"./a.sql"⟩, ⟨"c/../b.sql"⟩] } FileTree.disk
      (workDirectory [("a.sql", "SELECT 1"), ("b.sql", "PRINT 2")])
      [⟨⟨"b.sql"⟩, ⟨"b.pgsql"⟩⟩, ⟨⟨"a.sql"⟩, ⟨"a.pgsql"⟩⟩] [.ok ⟨"x", []⟩, .error .noInputs]
      (.ofJob job) after := by
  obtain ⟨job, after, written, accounted, -⟩ := batch_accounted FileTree.disk FileTree.disk_lawful
    { inputs := [⟨"b.sql"⟩, ⟨"./a.sql"⟩, ⟨"c/../b.sql"⟩] } rfl
    (workDirectory [("a.sql", "SELECT 1"), ("b.sql", "PRINT 2")])
    [⟨⟨"b.sql"⟩, ⟨"b.pgsql"⟩⟩, ⟨⟨"a.sql"⟩, ⟨"a.pgsql"⟩⟩] (by decide) (by decide)
    [.ok ⟨"x", []⟩, .error .noInputs] rfl
  exact ⟨job, after, written _ (.swap _ _ _), accounted⟩

/-- Outputs that lead above the root are planned as different ones though they lead to one file, and
what is written there first is lost. -/
theorem outputs_above_root_meet :
    Batch.planFor { inputs := [⟨"a.sql"⟩, ⟨"..sql"⟩], extension := "./../../f" } [⟨"a.sql"⟩, ⟨"..sql"⟩] =
      .ok [⟨⟨"a.sql"⟩, ⟨"../f"⟩⟩, ⟨⟨"..sql"⟩, ⟨"../../../f"⟩⟩] ∧
    (StateT.run (do
      let first ← (FileTree.storage.replace ⟨"../f"⟩ "first").run
      let second ← (FileTree.storage.replace ⟨"../../../f"⟩ "second").run
      return (first, second, ← FileTree.storage.read ⟨"../f"⟩)) (workDirectory [])).1 =
        (.ok (), .ok (), .ok "second") := by
  decide

end SqlFerry
