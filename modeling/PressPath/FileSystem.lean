/-! A file system as a value: entries by absolute location, and the directory
that relative paths start from. A path is walked part by part, and every step
needs a directory to stand in. -/
namespace PressPath

abbrev Location := List String

inductive Entry where
  | file (content : ByteArray)
  | directory

instance : DecidableEq Entry
  | .file first, .file second =>
    match ByteArray.decEq first second with
    | isTrue h => isTrue (congrArg Entry.file h)
    | isFalse h => isFalse fun heq => h (Entry.file.inj heq)
  | .file _, .directory => isFalse nofun
  | .directory, .file _ => isFalse nofun
  | .directory, .directory => isTrue rfl

inductive FileFault where
  | notFound
  | notDirectory
  | isDirectory
  | notText
  | other (reason : String)
deriving Repr, DecidableEq

def FileFault.message : FileFault → String
  | notFound => "No such file or directory (os error 2)"
  | notDirectory => "Not a directory (os error 20)"
  | isDirectory => "Is a directory (os error 21)"
  | notText => "stream did not contain valid UTF-8"
  | other reason => reason

structure FileSystem where
  entries : List (Location × Entry) := []
  workingDirectory : Location := []

def pathParts (path : String) : List String :=
  (path.toList.splitOn '/').map String.ofList

def properParts (path : String) : List String :=
  (pathParts path).filter fun part => part != "" && part != "."

/-- The name that a path ends in. A path that ends by going up, or that leads nowhere, has none. -/
def lastName? (path : String) : Option String :=
  match (properParts path).getLast? with
  | some ".." => none
  | last => last

namespace FileSystem

/-- The root is always a directory. -/
def find? (fs : FileSystem) (place : Location) : Option Entry :=
  if place.isEmpty then some .directory else fs.entries.lookup place

def put (fs : FileSystem) (place : Location) (entry : Entry) : FileSystem :=
  { fs with entries := (place, entry) :: fs.entries.filter fun old => old.1 != place }

theorem find?_put_self (fs : FileSystem) (place : Location) (entry : Entry) (h : place ≠ []) :
    (fs.put place entry).find? place = some entry := by
  simp [find?, put, h]

theorem find?_put_of_ne (fs : FileSystem) (place other : Location) (entry : Entry)
    (h : other ≠ place) : (fs.put place entry).find? other = fs.find? other := by
  have kept : ∀ old : List (Location × Entry),
      (old.filter fun e => e.1 != place).lookup other = old.lookup other := by
    intro old
    induction old with
    | nil => rfl
    | cons e old ih =>
      obtain ⟨key, value⟩ := e
      by_cases hk : key = place
      · subst hk
        simp [List.lookup_cons, ih, beq_eq_false_iff_ne.mpr h]
      · simp [List.lookup_cons, hk, ih]
  simp only [find?, put, List.lookup_cons, beq_eq_false_iff_ne.mpr h, kept]

/-- One part of a walk. The place reached need not exist unless the walk goes on. -/
def step (fs : FileSystem) (place : Location) (part : String) : Except FileFault Location :=
  match fs.find? place with
  | none => .error .notFound
  | some (.file _) => .error .notDirectory
  | some .directory =>
    if part = "" || part = "." then .ok place
    else if part = ".." then .ok place.dropLast
    else .ok (place ++ [part])

def walk (fs : FileSystem) (place : Location) : List String → Except FileFault Location
  | [] => .ok place
  | part :: rest =>
    match fs.step place part with
    | .error fault => .error fault
    | .ok next => fs.walk next rest

def locate (fs : FileSystem) (path : String) : Except FileFault Location :=
  fs.walk (if path.toList.head? = some '/' then [] else fs.workingDirectory) (pathParts path)

def read (fs : FileSystem) (path : String) : Except FileFault ByteArray :=
  match fs.locate path with
  | .error fault => .error fault
  | .ok place =>
    match fs.find? place with
    | none => .error .notFound
    | some .directory => .error .isDirectory
    | some (.file content) => .ok content

def write (fs : FileSystem) (path : String) (content : ByteArray) : Except FileFault FileSystem :=
  match fs.locate path with
  | .error fault => .error fault
  | .ok place =>
    match fs.find? place with
    | some .directory => .error .isDirectory
    | _ => .ok (fs.put place (.file content))

def addEntry (fs : FileSystem) (place : Location) (entry : Entry) : FileSystem :=
  ((List.range place.length).foldl (fun fs n => fs.put (place.take n) .directory) fs).put place entry

/-- The files below the working directory that are new or differ from before, with their paths
from there. -/
def changes (before after : FileSystem) : List (List String × ByteArray) :=
  let root := after.workingDirectory
  after.entries.filterMap fun (place, entry) =>
    match entry with
    | .directory => none
    | .file content =>
      if root.isPrefixOf place && before.find? place != some entry then
        some (place.drop root.length, content)
      else none

end FileSystem
end PressPath
