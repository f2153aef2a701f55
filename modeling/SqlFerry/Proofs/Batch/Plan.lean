import Mathlib.Data.List.Basic
import Mathlib.Data.List.Nodup
import SqlFerry.Batch.Plan
import SqlFerry.Proofs.Storage
import SqlFerry.Proofs.Tsql.Production

/-! The plan of a batch: every file once, in the order in which the inputs name them first, and no
two of them with the same output. -/
namespace SqlFerry

/-- Every path that is named, once, in the order in which they are named first. -/
structure ListsEachOnce (named listed : List Path) : Prop where
  once : listed.Nodup
  same : ∀ path, path ∈ listed ↔ path ∈ named
  ordered : listed.Pairwise fun p q => named.idxOf p < named.idxOf q

namespace Batch

theorem mem_firstOccurrences (path : Path) (named : List Path) :
    path ∈ firstOccurrences named ↔ path ∈ named := by
  induction named with
  | nil => rfl
  | cons first rest ih =>
    by_cases isFirst : path = first
    · simp [firstOccurrences, isFirst]
    · simp [firstOccurrences, isFirst, ih]

theorem listsEachOnce_firstOccurrences (named : List Path) : ListsEachOnce named (firstOccurrences named) := by
  induction named with
  | nil => exact ⟨.nil, fun _ => .rfl, .nil⟩
  | cons first rest ih =>
    have others : ∀ path ∈ (firstOccurrences rest).filter (· ≠ first), path ≠ first := by simp
    have behind {path : Path} (other : path ≠ first) : (first :: rest).idxOf path = rest.idxOf path + 1 :=
      List.idxOf_cons_ne rest (Ne.symm other)
    refine ⟨?_, fun path => mem_firstOccurrences path _, ?_⟩
    · exact List.nodup_cons.mpr ⟨fun member => others first member rfl, ih.once.filter _⟩
    · refine List.pairwise_cons.mpr ⟨fun path member => ?_, ?_⟩
      · rw [List.idxOf_cons_self, behind (others path member)]
        exact Nat.succ_pos _
      · refine (ih.ordered.filter _).imp_of_mem fun {p q} pMember qMember before => ?_
        rw [behind (others p pMember), behind (others q qMember)]
        exact Nat.succ_lt_succ before

variable {b : Batch}

/-- Assigning files adds each with its target, and keeps outputs apart. -/
theorem foldlM_assign {files : List Path} {soFar plan : List Assignment}
    (planned : files.foldlM b.assign soFar = .ok plan) (apart : (soFar.map (·.output)).Nodup) :
    plan = soFar ++ files.map (fun file => ⟨file, file.target b.outdir b.extension⟩) ∧
      (plan.map (·.output)).Nodup := by
  induction files generalizing soFar with
  | nil =>
    cases planned
    exact ⟨by simp, apart⟩
  | cons file rest ih =>
    rw [List.foldlM_cons] at planned
    obtain ⟨next, assigned, planned⟩ := Tsql.bind_eq_ok.mp planned
    rw [assign] at assigned
    split at assigned
    · cases assigned
    · next free =>
      cases assigned
      have fresh : ∀ a ∈ soFar, a.output ≠ file.target b.outdir b.extension := by
        simpa using free
      obtain ⟨rfl, apart⟩ := ih planned (by simpa [List.nodup_append, apart] using fresh)
      exact ⟨by simp, apart⟩

theorem planFor_eq_ok {files : List Path} {plan : List Assignment} (planned : b.planFor files = .ok plan) :
    plan = files.map (fun file => ⟨file, file.target b.outdir b.extension⟩) ∧
      (plan.map (·.output)).Nodup := by
  rw [planFor] at planned
  split at planned
  · cases planned
  · exact foldlM_assign planned .nil

variable {σ ι γ : Type} {d : Disk σ ι γ}

theorem looks_filesOf (lawful : d.Lawful) (input : Path) : Looks (filesOf d.storage input) := by
  refine (looks_lift (lawful.isDirectory input)).bind fun isDirectory => ?_
  cases isDirectory with
  | false => exact looks_pure [input]
  | true =>
    refine (looks_lift (lawful.filesBelow input)).bind fun found => ?_
    cases found with
    | error e => exact fun _ => ⟨.error (.storage e), rfl⟩
    | ok files => exact looks_pure _

theorem plan_eq_ok (lawful : d.Lawful) {s : σ} {plan : List Assignment}
    (planned : ((b.plan d.storage).run.run s).1 = .ok plan) :
    ∃ files : List (List Path), (b.inputs.mapM (filesOf d.storage)).run.run s = (.ok files, s) ∧
      b.planFor (firstOccurrences (files.flatten.map Path.normalize)) = .ok plan ∧
      (b.plan d.storage).run.run s = (.ok plan, s) := by
  obtain ⟨result, ran⟩ := looks_mapM (looks_filesOf lawful) b.inputs s
  rw [Batch.plan, expand, run_bind, run_bind, ran] at planned ⊢
  cases result with
  | error e => cases planned
  | ok files => exact ⟨files, rfl, planned, Prod.ext planned rfl⟩

end Batch

end SqlFerry
