import Mathlib.Data.List.Nodup
import PressPath.Proofs.ByteOrder
import PressPath.Proofs.Pieces
import PressPath.Proofs.Storing

/-! Runs on sorted files. Files are sorted by the names that their paths end in, by
nothing else, and everything after that sees them in sorted order; so where no two
names are the same, the order in which the files are given does not show. -/
namespace PressPath
open Text

/-! ## The name that a path ends in -/

/-- The path leads to something of this name: all that follows the name in it are slashes and
parts that stay where they are. -/
structure EndsIn (path name : String) : Prop extends IsFileName name where
  parts : ∃ before after, pathParts path = before ++ name :: after ∧
    ∀ part ∈ after, part = "" ∨ part = "."

theorem slash_notMem_of_mem_pathParts {path part : String} (h : part ∈ pathParts path) :
    '/' ∉ part.toList := by
  obtain ⟨piece, hpiece, rfl⟩ := List.mem_map.mp h
  rw [String.toList_ofList]
  intro hslash
  exact (mem_of_mem_splitOn hpiece hslash).2 rfl

theorem getLast?_properParts_eq_some_iff {path part : String} :
    (properParts path).getLast? = some part ↔
      (part ≠ "" ∧ part ≠ ".") ∧ ∃ before after, pathParts path = before ++ part :: after ∧
        ∀ other ∈ after, other = "" ∨ other = "." := by
  unfold properParts
  rw [List.getLast?_eq_head?_reverse, ← List.filter_reverse, List.head?_filter,
    List.find?_eq_some_iff_append]
  simp only [Bool.and_eq_true, bne_iff_ne, Bool.not_eq_true', Bool.and_eq_false_iff,
    bne_eq_false_iff_eq]
  apply and_congr_right
  intro _
  constructor
  · rintro ⟨after, before, hparts, hafter⟩
    refine ⟨before.reverse, after.reverse, ?_, by simpa using hafter⟩
    rw [← List.reverse_reverse (pathParts path), hparts]
    simp
  · rintro ⟨before, after, hparts, hafter⟩
    refine ⟨after.reverse, before.reverse, ?_, by simpa using hafter⟩
    rw [hparts]
    simp

theorem lastName?_eq_some_iff {path name : String} :
    lastName? path = some name ↔ EndsIn path name := by
  have hlast : lastName? path = some name ↔
      (properParts path).getLast? = some name ∧ name ≠ ".." := by
    unfold lastName?
    split
    · next hup => simp [hup, eq_comm]
    · next hup =>
      refine ⟨fun h => ⟨h, ?_⟩, fun h => h.1⟩
      rintro rfl
      exact hup h
  rw [hlast, getLast?_properParts_eq_some_iff]
  constructor
  · rintro ⟨⟨⟨hempty, hhere⟩, before, after, hparts, hafter⟩, hup⟩
    refine ⟨⟨?_, hempty, hhere, hup⟩, before, after, hparts, hafter⟩
    exact slash_notMem_of_mem_pathParts (by rw [hparts]; simp)
  · intro h
    exact ⟨⟨⟨h.ne_empty, h.ne_here⟩, h.parts⟩, h.ne_up⟩

namespace CommandLine

/-! ## Sorting -/

/-- If the first path ends in a name then the second does so too, and the bytes of its name do
not come before those of the first. A path without a name comes before all others. -/
def InByteOrder (first second : String) : Prop :=
  ∀ name, EndsIn first name → ∃ other, EndsIn second other ∧ byteList name ≤ byteList other

theorem namesInOrder_iff {first second : String} :
    namesInOrder (lastName? first) (lastName? second) = true ↔ InByteOrder first second := by
  unfold InByteOrder
  simp only [← lastName?_eq_some_iff]
  cases lastName? first with
  | none => simp [namesInOrder]
  | some name =>
    cases lastName? second with
    | none => simp [namesInOrder]
    | some other => simp [namesInOrder, le_iff_byteList_le]

theorem namesInOrder_trans {a b c : Option String} (hab : namesInOrder a b = true)
    (hbc : namesInOrder b c = true) : namesInOrder a c = true := by
  cases a with
  | none => rfl
  | some x =>
    cases b with
    | none => cases hab
    | some y =>
      cases c with
      | none => cases hbc
      | some z =>
        exact decide_eq_true (String.le_trans (of_decide_eq_true hab) (of_decide_eq_true hbc))

theorem namesInOrder_total (a b : Option String) :
    (namesInOrder a b || namesInOrder b a) = true := by
  cases a with
  | none => rfl
  | some x =>
    cases b with
    | none => rfl
    | some y => simpa [namesInOrder] using String.le_total x y

theorem namesInOrder_antisymm {a b : Option String} (hab : namesInOrder a b = true)
    (hba : namesInOrder b a = true) : a = b := by
  cases a with
  | none =>
    cases b with
    | none => rfl
    | some y => cases hba
  | some x =>
    cases b with
    | none => cases hab
    | some y =>
      exact congrArg some (String.le_antisymm (of_decide_eq_true hab) (of_decide_eq_true hba))

theorem sortByName_perm (paths : List String) : (sortByName paths).Perm paths :=
  List.mergeSort_perm _ _

theorem pairwise_sortByName (paths : List String) :
    (sortByName paths).Pairwise fun a b => namesInOrder (lastName? a) (lastName? b) = true := by
  apply List.pairwise_mergeSort
  · intro a b c
    exact namesInOrder_trans
  · intro a b
    exact namesInOrder_total _ _

theorem sublist_sortByName {part paths : List String}
    (hordered : part.Pairwise fun a b => namesInOrder (lastName? a) (lastName? b) = true)
    (h : part.Sublist paths) : part.Sublist (sortByName paths) := by
  apply List.sublist_mergeSort _ _ hordered h
  · intro a b c
    exact namesInOrder_trans
  · intro a b
    exact namesInOrder_total _ _

theorem filter_sortByName (paths : List String) (name : Option String) :
    (sortByName paths).filter (fun path => lastName? path == name) =
      paths.filter fun path => lastName? path == name := by
  have halike : (paths.filter fun path => lastName? path == name).Pairwise
      fun a b => namesInOrder (lastName? a) (lastName? b) = true := by
    apply List.pairwise_of_forall_mem_list
    intro a ha b hb
    rw [eq_of_beq (List.mem_filter.mp ha).2, eq_of_beq (List.mem_filter.mp hb).2]
    simpa using namesInOrder_total name name
  have hkept := sublist_sortByName halike List.filter_sublist
  have hfiltered := hkept.filter fun path => lastName? path == name
  rw [List.filter_filter] at hfiltered
  simp only [Bool.and_self] at hfiltered
  exact (hfiltered.eq_of_length ((sortByName_perm paths).filter _).length_eq.symm).symm

theorem sortByName_eq_of_perm {paths others : List String} (hperm : paths.Perm others)
    (hnames : (paths.map lastName?).Nodup) : sortByName paths = sortByName others := by
  have hmem {path : String} (h : path ∈ sortByName others) : path ∈ paths :=
    hperm.mem_iff.mpr ((sortByName_perm others).mem_iff.mp h)
  apply List.Perm.eq_of_pairwise _ (pairwise_sortByName paths) (pairwise_sortByName others)
  · exact (sortByName_perm paths).trans (hperm.trans (sortByName_perm others).symm)
  · intro a b ha hb hab hba
    exact List.inj_on_of_nodup_map hnames ((sortByName_perm paths).mem_iff.mp ha) (hmem hb)
      (namesInOrder_antisymm hab hba)

/-! ## Runs -/

def execute (fs : FileSystem) (arguments : List String) :
    Except Rejection (Outcome × FileSystem) :=
  (readArguments arguments).map (Request.perform fs)

variable {inv : Invocation} {files : List String}

theorem Invocation.order_of_perm (hsorts : inv.sorts = true) (hperm : inv.files.Perm files)
    (hnames : (inv.files.map lastName?).Nodup) :
    Invocation.order { inv with files := files } = inv.order := by
  unfold Invocation.order
  rw [hsorts]
  exact (sortByName_eq_of_perm hperm hnames).symm

/-- A run depends on the files through the order in which they are read. -/
theorem Invocation.run_of_order_eq (fs : FileSystem)
    (h : Invocation.order { inv with files := files } = inv.order) :
    Invocation.run { inv with files := files } fs = inv.run fs := by
  unfold Invocation.run
  rw [h]
  rfl

/-- Sorting puts the paths in the order of the names that they end in, by the bytes of the names
and by nothing else, and leaves those that end alike in the order in which they were given. So if
no two of the files end alike, a run on sorted files comes to the same whatever order they are
given in: they are read in the same order, the same one is found unreadable or else the same
documents are read, and what is shown and what is stored is the same. -/
theorem sorted_runs_agree :
    (∀ path name, lastName? path = some name ↔ EndsIn path name) ∧
    (∀ paths : List String,
      (sortByName paths).Perm paths ∧
      (sortByName paths).Pairwise InByteOrder ∧
      ∀ name, (sortByName paths).filter (fun path => lastName? path == name) =
        paths.filter fun path => lastName? path == name) ∧
    ∀ (fs : FileSystem) (arguments others : List String) (inv : Invocation) (files : List String),
      readArguments arguments = .ok (.run inv) →
      readArguments others = .ok (.run { inv with files := files }) →
      inv.sorts = true → inv.files.Perm files → (inv.files.map lastName?).Nodup →
        Invocation.order { inv with files := files } = inv.order ∧
        gather fs.read (Invocation.order { inv with files := files }) =
          gather fs.read inv.order ∧
        execute fs others = execute fs arguments := by
  refine ⟨fun path name => lastName?_eq_some_iff, ?_, ?_⟩
  · intro paths
    refine ⟨sortByName_perm paths, ?_, filter_sortByName paths⟩
    exact (pairwise_sortByName paths).imp fun hnames => namesInOrder_iff.mp hnames
  · intro fs arguments others inv files harguments hothers hsorts hperm hnames
    have horder := Invocation.order_of_perm hsorts hperm hnames
    refine ⟨horder, by rw [horder], ?_⟩
    have hrun := Invocation.run_of_order_eq fs horder
    unfold execute
    rw [harguments, hothers]
    exact congrArg Except.ok hrun

/-- Of the two files that are asked for, one holds no text and the other is not there. -/
def scattered : FileSystem :=
  { entries := [(["z"], .directory), (["z", "a.cl"], .file ⟨#[0xff]⟩)] }

theorem sorted_runs_agree_scattered :
    readArguments ["é.cl", "--sort", "./z//a.cl", "-v"] =
      .ok (.run { files := ["é.cl", "./z//a.cl"], sorts := true, verbosity := 1 }) ∧
    execute scattered ["é.cl", "--sort", "./z//a.cl", "-v"] =
      execute scattered ["-v", "./z//a.cl", "é.cl", "--sort"] := by
  refine ⟨rfl, ?_⟩
  refine (sorted_runs_agree.2.2 scattered _ _ _ ["é.cl", "./z//a.cl"] rfl rfl rfl ?_ ?_).2.2
  · exact List.Perm.swap _ _ _
  · decide +kernel

end CommandLine
end PressPath
