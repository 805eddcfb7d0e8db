import PressPath.CommandLine.Session
import Mathlib.Data.List.Basic

/-! Storing a file. A walk only passes through directories, and a file is never
stored where a directory is; so the walk to a stored file is the walk as it was
before, and all other places stay as they were. -/
namespace PressPath

/-- A name that a file can have in a directory: one part of a path that leads to a place of
its own. -/
structure IsFileName (name : String) : Prop where
  slash : '/' ∉ name.toList
  ne_empty : name ≠ ""
  ne_here : name ≠ "."
  ne_up : name ≠ ".."

namespace FileSystem

variable {fs after : FileSystem} {path : String} {content : ByteArray}

theorem walk_concat_iff {start stop : Location} {parts : List String} {part : String} :
    fs.walk start (parts ++ [part]) = .ok stop ↔
      ∃ middle, fs.walk start parts = .ok middle ∧ fs.step middle part = .ok stop := by
  induction parts generalizing start with
  | nil =>
    simp only [List.nil_append, walk, Except.ok.injEq, exists_eq_left']
    cases fs.step start part <;> rfl
  | cons first rest ih =>
    rw [List.cons_append, walk, walk]
    cases fs.step start first with
    | error fault => simp
    | ok next => exact ih

theorem find?_of_step {place next : Location} {part : String} (h : fs.step place part = .ok next) :
    fs.find? place = some .directory := by
  unfold step at h
  split at h
  · cases h
  · cases h
  · assumption

theorem step_name_iff {place next : Location} {part : String} (hpart : IsFileName part) :
    fs.step place part = .ok next ↔
      fs.find? place = some .directory ∧ next = place ++ [part] := by
  constructor
  · intro h
    have hplace := find?_of_step h
    simp [step, hplace, hpart.ne_empty, hpart.ne_here, hpart.ne_up] at h
    exact ⟨hplace, h.symm⟩
  · rintro ⟨hplace, rfl⟩
    simp [step, hplace, hpart.ne_empty, hpart.ne_here, hpart.ne_up]

theorem step_empty_iff {place next : Location} :
    fs.step place "" = .ok next ↔ fs.find? place = some .directory ∧ next = place := by
  constructor
  · intro h
    have hplace := find?_of_step h
    simp [step, hplace] at h
    exact ⟨hplace, h.symm⟩
  · rintro ⟨hplace, rfl⟩
    simp [step, hplace]

/-- A walk does not notice what is put where no directory was. -/
theorem walk_put {place : Location} (hplace : fs.find? place ≠ some .directory) (entry : Entry)
    {start stop : Location} {parts : List String} (h : fs.walk start parts = .ok stop) :
    (fs.put place entry).walk start parts = .ok stop := by
  induction parts generalizing start with
  | nil => exact h
  | cons part rest ih =>
    unfold walk at h ⊢
    cases hstep : fs.step start part with
    | error fault =>
      rw [hstep] at h
      cases h
    | ok next =>
      rw [hstep] at h
      have hne : start ≠ place := by
        rintro rfl
        exact hplace (find?_of_step hstep)
      have hsame : (fs.put place entry).step start part = .ok next := by
        rw [← hstep]
        unfold step
        rw [find?_put_of_ne fs place start entry hne]
      rw [hsame]
      exact ih h

theorem write_eq_ok_iff :
    fs.write path content = .ok after ↔
      ∃ place, fs.locate path = .ok place ∧ fs.find? place ≠ some .directory ∧
        after = fs.put place (.file content) := by
  unfold write
  cases fs.locate path with
  | error fault => simp
  | ok place =>
    constructor
    · intro h
      refine ⟨place, rfl, ?_, ?_⟩
      · intro hdirectory
        simp [hdirectory] at h
      · dsimp only at h
        split at h
        · cases h
        · exact (Except.ok.inj h).symm
    · rintro ⟨other, ⟨⟩, hplace, rfl⟩
      dsimp only
      split
      · next hdirectory => exact absurd hdirectory hplace
      · rfl

theorem read_of_write (h : fs.write path content = .ok after) : after.read path = .ok content := by
  obtain ⟨place, hlocate, hplace, rfl⟩ := write_eq_ok_iff.mp h
  have hne : place ≠ [] := by
    rintro rfl
    exact hplace rfl
  have hagain : (fs.put place (.file content)).locate path = .ok place :=
    walk_put hplace _ hlocate
  unfold read
  rw [hagain]
  dsimp only
  rw [find?_put_self fs place _ hne]

end FileSystem

namespace CommandLine

theorem pathParts_append_slash (front : String) {file : String} (hfile : '/' ∉ file.toList) :
    pathParts (front ++ "/" ++ file) = pathParts front ++ [file] := by
  have hchars : (front ++ "/" ++ file).toList = front.toList ++ '/' :: file.toList := by simp
  unfold pathParts
  rw [hchars, List.splitOn_append_cons_self, List.splitOn_eq_singleton hfile]
  simp

/-- A file in a directory goes by the parts of the directory and its own name. A slash at the
end of the directory adds an empty part to it that leads nowhere. -/
theorem exists_parts_storePath (directory : String) {file : String} (hfile : '/' ∉ file.toList) :
    ∃ parts, pathParts (storePath directory file) = parts ++ [file] ∧
      (pathParts directory = parts ∨ pathParts directory = parts ++ [""]) := by
  unfold storePath
  split
  · next hslash =>
    obtain ⟨front, hfront⟩ := List.getLast?_eq_some_iff.mp hslash
    have hdirectory : directory = String.ofList front ++ "/" := by
      rw [← String.toList_inj, hfront]
      simp
    rw [hdirectory]
    refine ⟨pathParts (String.ofList front), pathParts_append_slash _ hfile, .inr ?_⟩
    have hempty : pathParts (String.ofList front ++ "/" ++ "") =
        pathParts (String.ofList front) ++ [""] := pathParts_append_slash _ (by simp)
    rwa [String.append_empty] at hempty
  · exact ⟨pathParts directory, pathParts_append_slash directory hfile, .inl rfl⟩

theorem head?_storePath {directory : String} (hdirectory : directory ≠ "") (file : String) :
    (storePath directory file).toList.head? = directory.toList.head? := by
  have hne : directory.toList ≠ [] := by simpa using hdirectory
  unfold storePath
  split
  · rw [String.toList_append, List.head?_append_of_ne_nil _ hne]
  · rw [String.toList_append, String.toList_append, List.append_assoc,
      List.head?_append_of_ne_nil _ hne]

theorem locate_storePath_iff {fs : FileSystem} {directory file : String} {place : Location}
    (hdirectory : directory ≠ "") (hfile : IsFileName file) :
    fs.locate (storePath directory file) = .ok place ↔
      ∃ folder, fs.locate directory = .ok folder ∧ fs.find? folder = some .directory ∧
        place = folder ++ [file] := by
  obtain ⟨parts, hparts, hfolder⟩ := exists_parts_storePath directory hfile.slash
  unfold FileSystem.locate
  rw [hparts, head?_storePath hdirectory, FileSystem.walk_concat_iff]
  generalize (if directory.toList.head? = some '/' then [] else fs.workingDirectory) = start
  simp only [FileSystem.step_name_iff hfile]
  rcases hfolder with hfolder | hfolder
  · rw [hfolder]
  · -- The empty part stays where it is, in a directory.
    rw [hfolder]
    simp only [FileSystem.walk_concat_iff, FileSystem.step_empty_iff]
    constructor
    · rintro ⟨folder, hwalk, hfound, rfl⟩
      exact ⟨folder, ⟨folder, hwalk, hfound, rfl⟩, hfound, rfl⟩
    · rintro ⟨_, ⟨folder, hwalk, hfound, rfl⟩, -, rfl⟩
      exact ⟨_, hwalk, hfound, rfl⟩

theorem write_storePath_eq_ok_iff {fs after : FileSystem} {directory file : String}
    {content : ByteArray} (hdirectory : directory ≠ "") (hfile : IsFileName file) :
    fs.write (storePath directory file) content = .ok after ↔
      ∃ folder, fs.locate directory = .ok folder ∧ fs.find? folder = some .directory ∧
        fs.find? (folder ++ [file]) ≠ some .directory ∧
        after = fs.put (folder ++ [file]) (.file content) := by
  rw [FileSystem.write_eq_ok_iff]
  simp only [locate_storePath_iff hdirectory hfile]
  constructor
  · rintro ⟨_, ⟨folder, hfolder, hfound, rfl⟩, hfree, hafter⟩
    exact ⟨folder, hfolder, hfound, hfree, hafter⟩
  · rintro ⟨folder, hfolder, hfound, hfree, hafter⟩
    exact ⟨_, ⟨folder, hfolder, hfound, rfl⟩, hfree, hafter⟩

end CommandLine
end PressPath
