import Mathlib
import PocketKernel.Proofs.Except
import PocketKernel.Proofs.Tool.FileSystem

/-!
# Writing a file

A file that is written to a tree is there under its path, and nothing else in the tree changes. No
folder becomes a file, so every walk that led somewhere leads there still, and a walk that leads
somewhere new leads to the file. Main statements: `replaces_of_write` and `serves_directory`.
-/
namespace PocketKernel
namespace Directory
variable {d d' : Directory} {p : Path} {data : Bytes}

theorem lookup_setNode (names other : List Path) (node : Node) (nodes : List (List Path × Node)) :
    (setNode names node nodes).lookup other =
      if other = names then some node else nodes.lookup other := by
  induction nodes with
  | nil => grind [setNode, List.lookup]
  | cons first rest ih => grind [setNode, List.lookup]

/-- Only the node of one file differs, and it was no folder before. -/
structure Sets (d d' : Directory) (target : List Path) (data : Bytes) : Prop where
  working : d'.working = d.working
  notFolder : d.node? target ≠ some .folder
  node : ∀ names, d'.node? names = if names = target then some (.file data) else d.node? names

namespace Sets
variable {target : List Path} (sets : Sets d d' target data)
include sets

theorem isFolder_eq (place : List Path) : d'.isFolder place = d.isFolder place := by
  rw [isFolder, isFolder, sets.node]
  split
  next same =>
    have := sets.notFolder
    simp [same, this]
  next => rfl

/-- A step leads where it led, or to the file where it led nowhere. -/
theorem step_eq (place : List Path) (part : Path) : d'.step place part = d.step place part ∨
    d.step place part = .error .noEntry ∧ d'.step place part = .ok target := by
  by_cases same : place ++ [part] = target
  · subst same
    have node := sets.node (place ++ [part])
    rw [if_pos rfl] at node
    simp only [step, sets.isFolder_eq, node]
    grind
  · have node := sets.node (place ++ [part])
    rw [if_neg same] at node
    exact .inl (by simp only [step, sets.isFolder_eq, node])

/-- Nothing lies below the file. -/
theorem walk_target (parts : List Path) (nonempty : parts ≠ []) :
    d'.walk target parts = .error .notDirectory := by
  obtain ⟨part, rest, rfl⟩ := List.exists_cons_of_ne_nil nonempty
  have file : d'.isFolder target = false := by
    simp [isFolder, sets.node]
  have stuck : d'.step target part = .error .notDirectory := by
    simp [step, file]
  rw [walk, stuck]
  rfl

theorem walk_eq (place : List Path) (parts : List Path) :
    (d'.walk place parts).toOption = (d.walk place parts).toOption ∨
      (d.walk place parts).toOption = none ∧ (d'.walk place parts).toOption = some target := by
  induction parts generalizing place with
  | nil => exact .inl rfl
  | cons part rest ih =>
    rcases sets.step_eq place part with same | ⟨missing, found⟩
    · rw [walk, walk, same]
      cases d.step place part with
      | error e => exact .inl rfl
      | ok next => exact ih next
    · have before : d.walk place (part :: rest) = .error .noEntry := by
        rw [walk, missing]
        rfl
      have after : d'.walk place (part :: rest) = d'.walk target rest := by
        rw [walk, found]
        rfl
      rw [before, after]
      by_cases last : rest = []
      · subst last
        exact .inr ⟨rfl, rfl⟩
      · rw [sets.walk_target rest last]
        exact .inl rfl

end Sets

/-! ## Where a file is written -/

/-- The part that a path ends with when the empty parts at its end are left out. -/
theorem ne_nil_of_trimmed {above : List Path} {name : Path} (last : trimmed p = above ++ [name]) :
    name ≠ [] := by
  have nonempty : p.parts.rdropWhile (fun part => decide (part = [])) ≠ [] := by
    change trimmed p ≠ []
    simp [last]
  have live := List.rdropWhile_last_not _ _ nonempty
  change ¬ decide ((trimmed p).getLast nonempty = []) = true at live
  simpa [last] using live

theorem trimmed_eq (all : p.parts.length ≤ (trimmed p).length) : trimmed p = p.parts :=
  have front := List.rdropWhile_prefix (fun part : Path => decide (part = [])) (l := p.parts)
  front.eq_of_length_le all

structure Names (d : Directory) (p : Path) (folder : List Path) (name : Path) : Prop where
  length : checkLength p = .ok ()
  parts : ∃ above, p.parts = above ++ [name] ∧ d.walk (d.startOf p) above = .ok folder
  isFolder : d.isFolder folder = true
  ne_nil : name ≠ []
  ne_dot : name ≠ Path.dot
  ne_dotDot : name ≠ Path.dotDot
  short : byteLength name ≤ maxNameLength

theorem write_eq_ok (done : d.write p data = .ok d') : ∃ folder name, Names d p folder name ∧
    d.node? (folder ++ [name]) ≠ some .folder ∧
    d' = ⟨setNode (folder ++ [name]) (.file data) d.nodes, d.working⟩ := by
  unfold write at done
  obtain ⟨⟨⟩, length, done⟩ := Except.bind_eq_ok.1 done
  obtain ⟨folder, walk, done⟩ := Except.bind_eq_ok.1 done
  obtain ⟨isFolder, done⟩ := Except.ite_throw_eq_ok.1 done
  obtain ⟨named, done⟩ := Except.ite_throw_eq_ok.1 done
  obtain ⟨short, done⟩ := Except.ite_throw_eq_ok.1 done
  obtain ⟨notFolder, done⟩ := Except.ite_throw_eq_ok.1 done
  cases done
  simp only [Bool.or_eq_true, decide_eq_true_eq, not_or, Nat.not_lt] at named
  obtain ⟨⟨ne_dot, ne_dotDot⟩, all⟩ := named
  cases last : (trimmed p).getLast? with
  | none => exact absurd (by rw [last]; rfl) ne_dot
  | some name =>
  rw [last, Option.getD_some] at ne_dot ne_dotDot short notFolder
  obtain ⟨above, split⟩ := List.getLast?_eq_some_iff.1 last
  rw [split, List.dropLast_concat] at walk
  exact ⟨folder, name, ⟨length, ⟨above, trimmed_eq all ▸ split, walk⟩, by simpa using isFolder,
    ne_nil_of_trimmed split, ne_dot, ne_dotDot, Nat.le_of_not_lt short⟩, notFolder, rfl⟩

theorem walk_append (place : List Path) (parts more : List Path) :
    d.walk place (parts ++ more) = d.walk place parts >>= fun next => d.walk next more := by
  induction parts generalizing place with
  | nil => rfl
  | cons part rest ih => simp only [List.cons_append, walk, ih, bind_assoc]

/-- The name leads to what is written there. -/
theorem Names.find_eq {folder : List Path} {name : Path} (names : Names d p folder name)
    (sets : Sets d d' (folder ++ [name]) data) : d'.find p = .ok (folder ++ [name]) := by
  obtain ⟨above, split, walk⟩ := names.parts
  have start : d'.startOf p = d.startOf p := by rw [startOf, startOf, sets.working]
  have up : d'.walk (d.startOf p) above = .ok folder := by
    have same := sets.walk_eq (d.startOf p) above
    rw [walk] at same
    generalize d'.walk (d.startOf p) above = found at same ⊢
    cases found <;> simp_all [Except.toOption]
  have step : d'.step folder name = .ok (folder ++ [name]) := by
    simp [step, sets.isFolder_eq, names.isFolder, names.ne_nil, names.ne_dot, names.ne_dotDot,
      Nat.not_lt.2 names.short, sets.node]
  unfold find
  rw [Except.bind_eq_ok, start, split, walk_append]
  exact ⟨(), names.length, Except.bind_eq_ok.2 ⟨_, up, Except.bind_eq_ok.2 ⟨_, step, rfl⟩⟩⟩

theorem sets_setNode (data : Bytes) {names : List Path} (nonempty : names ≠ [])
    (notFolder : d.node? names ≠ some .folder) :
    Sets d ⟨setNode names (.file data) d.nodes, d.working⟩ names data where
  working := rfl
  notFolder := notFolder
  node other := by
    rw [node?, node?, lookup_setNode]
    split <;> simp_all

/-! ## The file system of a tree -/

def fileSystem (d : Directory) : FileSystem (List Path) where
  leads p := (d.find p).toOption
  node := d.node?

theorem read_fileSystem (done : d.read p = .ok data) : d.fileSystem.read p = some data := by
  obtain ⟨names, found, done⟩ := Except.bind_eq_ok.1 done
  split at done
  next node =>
    cases done
    exact FileSystem.read_of_leads (by simp [fileSystem, found, Except.toOption]) node
  · cases done

theorem Sets.find_eq {target : List Path} (sets : Sets d d' target data) (q : Path) :
    (d'.find q).toOption = (d.find q).toOption ∨
      (d.find q).toOption = none ∧ (d'.find q).toOption = some target := by
  have start : d'.startOf q = d.startOf q := by rw [startOf, startOf, sets.working]
  unfold find
  rw [start]
  cases checkLength q with
  | error e => exact .inl rfl
  | ok _ => exact sets.walk_eq (d.startOf q) q.parts

theorem replaces_of_write (done : d.write p data = .ok d') :
    ∃ target, d.fileSystem.Replaces d'.fileSystem p data target := by
  obtain ⟨folder, name, names, notFolder, rfl⟩ := write_eq_ok done
  have sets := sets_setNode data (List.concat_ne_nil name folder) notFolder
  refine ⟨folder ++ [name], ?_, ?_, notFolder, fun f other => ?_, sets.find_eq⟩
  · simp [fileSystem, names.find_eq sets, Except.toOption]
  · exact (sets.node _).trans (if_pos rfl)
  · exact (sets.node f).trans (if_neg other)

end Directory

theorem writePath_directory (p : Path) (data : Bytes) (d : Directory) :
    (Host.writePath p data : StateM Directory _) d =
      match d.write p data with
      | .ok written => (.ok (), written)
      | .error e => (.error e, d) := by
  change (match d.write p data with
    | .ok written => (do set written; return .ok ())
    | .error e => return .error e : StateM Directory (Except SystemError Unit)) d = _
  cases d.write p data <;> rfl

/-- A tree of files refuses only what cannot be done. -/
theorem serves_directory : Serves Directory.fileSystem where
  read_ok {p d t data} done := by
    obtain ⟨read, rfl⟩ := Prod.mk.inj done
    exact ⟨Directory.read_fileSystem read, rfl⟩
  read_error refused := congrArg _ (Prod.mk.inj refused).2.symm
  write_ok {p data d t} done := by
    rw [writePath_directory] at done
    cases written : d.write p data with
    | error e =>
      rw [written] at done
      cases done
    | ok u =>
      rw [written] at done
      cases done
      exact Directory.replaces_of_write written
  write_error {p data d t e} refused := by
    rw [writePath_directory] at refused
    cases written : d.write p data with
    | error e =>
      rw [written] at refused
      cases refused
      rfl
    | ok u =>
      rw [written] at refused
      cases refused

end PocketKernel
