import Mathlib
import PocketKernel.Proofs.Tool.Directory
import PocketKernel.Tool.Run

/-!
# All or nothing

The commands of the tool run on a host that keeps a file system and may refuse any of their calls.
Whatever is refused or turns out wrong, and at whatever stage, a command that fails leaves the file
system as it was, and one that succeeds has put exactly one file there: every command reads what it
needs first and writes once, at its end. Main statement: `atomic_run`.
-/
namespace PocketKernel.Tool
variable {S File : Type} {s t : S} {reader : ProgramReader}

theorem run_bind {α β : Type} {x : StateM S α} {f : α → StateM S β} {a : α}
    (h : x s = (a, t)) : (x >>= f) s = f a t := by
  change f (x s).1 (x s).2 = f a t
  rw [h]

variable [Host (StateM S)] {files : S → FileSystem File}

def Holds (v : FileSystem File) (path : Path) (entry : List Char × Bytes) : Prop :=
  path.fileName = some entry.1 ∧ v.read path = some entry.2

/-- What a command that succeeds makes of a file system. -/
inductive Effect (reader : ProgramReader) (before after : FileSystem File) : Command → Prop
  /-- The output is the image of the program, which lies at the right address or at any. -/
  | flat {elf output : Path} {anyBase : Bool} {file image : Bytes} {plan : LoadPlan} {base : Nat}
      {target : File} (read : before.read elf = some file)
      (accepted : LoadPlan.ofFile reader file = .ok plan)
      (laidOut : plan.layOut = .ok (some (image, base)))
      (based : base = userBase.toNat ∨ anyBase = true)
      (written : before.Replaces after output image target) :
      Effect reader before after (.flat elf output anyBase)
  /-- The output is the disk image of the files as they were before. -/
  | mkdisk {files : List Path} {output : Path} {entries : List (List Char × Bytes)} {image : Bytes}
      {target : File} (read : List.Forall₂ (Holds before) files entries)
      (built : DiskImage.build entries = .ok image)
      (written : before.Replaces after output image target) :
      Effect reader before after (.mkdisk files output)
  | ls {disk : Path} {format : ListFormat} (same : after = before) :
      Effect reader before after (.ls disk format)

/-- A run that ended with that outcome has its effect or none. -/
structure Atomic (before after : FileSystem File) (o : Outcome) (effect : Prop) : Prop where
  failed : o.code ≠ 0 → after = before
  done : o.code = 0 → effect

theorem code_failed (cause : ToolError) (printed : String) :
    (Outcome.failed cause printed).code ≠ 0 := by
  cases cause <;> exact Nat.succ_ne_zero _

theorem Atomic.failure {before after : FileSystem File} {effect : Prop} {cause : ToolError}
    {printed : String} (same : after = before) :
    Atomic before after (.failed cause printed) effect :=
  ⟨fun _ => same, fun done => absurd done (code_failed cause printed)⟩

theorem Atomic.imp {before after : FileSystem File} {o : Outcome} {effect effect' : Prop}
    (atomic : Atomic before after o effect) (weaker : effect → effect') :
    Atomic before after o effect' :=
  ⟨atomic.failed, fun done => weaker (atomic.done done)⟩

section
variable (serves : Serves files) {o : Outcome}
include serves

theorem atomic_finish {output : Path} {image : Bytes} {before report : String}
    (ran : (finish output image before report : StateM S Outcome) s = (o, t)) :
    Atomic (files s) (files t) o (∃ target, (files s).Replaces (files t) output image target) := by
  unfold finish at ran
  rcases answer : (Host.writePath output image : StateM S _) s with ⟨written, u⟩
  rw [run_bind answer] at ran
  cases written with
  | error cause =>
    cases ran
    exact .failure (serves.write_error answer)
  | ok written =>
    cases ran
    refine ⟨fun failed => absurd rfl failed, fun _ => ?_⟩
    exact serves.write_ok answer

theorem atomic_flat {elf output : Path} {anyBase : Bool}
    (ran : (flat reader elf output anyBase : StateM S Outcome) s = (o, t)) :
    Atomic (files s) (files t) o
      (Effect reader (files s) (files t) (.flat elf output anyBase)) := by
  unfold flat at ran
  rcases answer : (Host.readPath elf : StateM S _) s with ⟨read, u⟩
  rw [run_bind answer] at ran
  cases read with
  | error cause =>
    cases ran
    exact .failure (serves.read_error answer)
  | ok file =>
  obtain ⟨read, same⟩ := serves.read_ok answer
  dsimp only at ran
  cases parsed : LoadPlan.ofFile reader file with
  | error cause =>
    rw [parsed] at ran
    cases ran
    exact .failure same
  | ok plan =>
  rw [parsed] at ran
  dsimp only at ran
  cases laidOut : plan.layOut with
  | error cause =>
    rw [laidOut] at ran
    cases ran
    exact .failure same
  | ok made =>
  rw [laidOut] at ran
  obtain _ | ⟨image, base⟩ := made
  · cases ran
    exact .failure same
  dsimp only at ran
  by_cases based : base ≠ userBase.toNat ∧ !anyBase
  · rw [if_pos based] at ran
    cases ran
    exact .failure same
  rw [if_neg based] at ran
  rw [← same] at read ⊢
  refine (atomic_finish serves ran).imp fun ⟨target, written⟩ => ?_
  refine .flat read parsed laidOut ?_ written
  by_cases right : base = userBase.toNat
  · exact .inl right
  · exact .inr (by simpa [right] using based)

theorem readFiles_eq (paths : List Path) (s : S) :
    ∃ answer t, (readFiles paths : StateM S _) s = (answer, t) ∧ files t = files s ∧
      ∀ entries, answer = .ok entries → List.Forall₂ (Holds (files s)) paths entries := by
  induction paths generalizing s with
  | nil =>
    refine ⟨.ok [], s, rfl, rfl, ?_⟩
    rintro _ ⟨⟩
    exact .nil
  | cons path rest ih =>
    unfold readFiles
    cases named : path.fileName with
    | none => exact ⟨_, s, rfl, rfl, nofun⟩
    | some name =>
    dsimp only
    rcases answer : (Host.readPath path : StateM S _) s with ⟨read, u⟩
    rw [run_bind answer]
    cases read with
    | error cause => exact ⟨_, u, rfl, serves.read_error answer, nofun⟩
    | ok data =>
    obtain ⟨read, same⟩ := serves.read_ok answer
    obtain ⟨others, t, ran, same', held⟩ := ih u
    refine ⟨_, t, run_bind ran, same'.trans same, fun entries found => ?_⟩
    rw [same] at held
    cases others with
    | error cause => cases found
    | ok more =>
      cases found
      exact .cons ⟨named, read⟩ (held more rfl)

theorem atomic_mkdisk {paths : List Path} {output : Path}
    (ran : (mkdisk paths output : StateM S Outcome) s = (o, t)) :
    Atomic (files s) (files t) o (Effect reader (files s) (files t) (.mkdisk paths output)) := by
  unfold mkdisk at ran
  obtain ⟨answer, u, read, same, held⟩ := readFiles_eq serves paths s
  rw [run_bind read] at ran
  cases answer with
  | error cause =>
    cases ran
    exact .failure same
  | ok entries =>
  dsimp only at ran
  cases built : DiskImage.build entries with
  | error cause =>
    rw [built] at ran
    cases ran
    exact .failure same
  | ok image =>
  rw [built] at ran
  have held := held entries rfl
  rw [← same] at held ⊢
  exact (atomic_finish serves ran).imp fun ⟨_, written⟩ => .mkdisk held built written

theorem atomic_ls {disk : Path} {format : ListFormat}
    (ran : (ls disk format : StateM S Outcome) s = (o, t)) :
    Atomic (files s) (files t) o (Effect reader (files s) (files t) (.ls disk format)) := by
  have same : files t = files s := by
    unfold ls at ran
    rcases answer : (Host.readPath disk : StateM S _) s with ⟨read, u⟩
    rw [run_bind answer] at ran
    cases read with
    | error cause =>
      cases ran
      exact serves.read_error answer
    | ok image =>
    refine Eq.trans ?_ (serves.read_ok answer).2
    dsimp only at ran
    cases listed : DiskImage.list image with
    | error cause =>
      rw [listed] at ran
      cases ran
      rfl
    | ok found =>
      rw [listed] at ran
      cases format <;> cases ran <;> rfl
  exact ⟨fun _ => same, fun _ => .ls same⟩

/-- A command leaves the file system as it was, or it ends well and has its effect: whatever system
serves the files, and whatever finds the headers of a program file. -/
theorem atomic_run {command : Command}
    (ran : (runWith reader command : StateM S Outcome) s = (o, t)) :
    Atomic (files s) (files t) o (Effect reader (files s) (files t) command) := by
  cases command with
  | flat elf output anyBase => exact atomic_flat serves ran
  | mkdisk paths output => exact atomic_mkdisk serves ran
  | ls disk format => exact atomic_ls serves ran

end

def scattered : Directory :=
  let home := (Directory.empty.addFile "a".toList [1, 2]).addFile "b".toList [3]
  (home.addFolder "c".toList).addFile "/d/e".toList [4]

/-- A disk image takes the place of one of the files that it is made of, and has that file as it
was. The paths are absolute, lead out of the working directory, or go through a folder and back. -/
theorem atomic_run_ontoInput : ∃ (o : Outcome) (after : Directory),
    (runWith ProgramFile.reader (.mkdisk ["a".toList, "../d/e".toList] "/home/c/../a".toList) :
      StateM Directory Outcome) scattered = (o, after) ∧ o.code = 0 ∧
    Atomic scattered.fileSystem after.fileSystem o
      (Effect ProgramFile.reader scattered.fileSystem after.fileSystem
        (.mkdisk ["a".toList, "../d/e".toList] "/home/c/../a".toList)) ∧
    (after.read "a".toList).toOption =
      (DiskImage.build [("a".toList, [1, 2]), ("e".toList, [4])]).toOption ∧
    after.read "/home/b".toList = .ok [3] := by
  exact ⟨_, _, rfl, by decide +kernel, atomic_run serves_directory rfl, by decide +kernel,
    by decide +kernel⟩

end PocketKernel.Tool
