import PressPath.Proofs.ProcedureNames
import PressPath.Proofs.SafeName

/-! Where the extension of a name starts. A name is cut at its last dot if something
stands on both sides of the dot and no slash comes after it. So a directory in front
of a file does not matter, except to a file with one dot, at its start: by itself such
a file has no extension, and in a directory the whole of it counts as one. -/
namespace PressPath
open Text

namespace Identifier

variable {name directory file : String} {stem extension : List Char}

/-- The name has an extension, and divides at the dot in front of it. -/
structure DividesInto (name : String) (stem extension : List Char) : Prop where
  toList_eq : name.toList = stem ++ '.' :: extension
  stem_ne_nil : stem ≠ []
  extension_ne_nil : extension ≠ []
  dot_notMem : '.' ∉ extension
  slash_notMem : '/' ∉ extension

theorem stripExtension_of_dividesInto (h : DividesInto name stem extension) :
    stripExtension name = String.ofList stem := by
  have hbackwards : name.toList.reverse = extension.reverse ++ '.' :: stem.reverse := by
    rw [h.toList_eq]
    simp
  have hdotless : ∀ c ∈ extension.reverse, (c != '.') = true := by
    intro c hc
    rw [bne_iff_ne]
    rintro rfl
    exact h.dot_notMem (List.mem_reverse.mp hc)
  unfold stripExtension
  dsimp only
  rw [hbackwards, List.takeWhile_append_of_pos hdotless, List.dropWhile_append_of_pos hdotless]
  simp [h.stem_ne_nil, h.extension_ne_nil, h.slash_notMem]

theorem stripExtension_of_undivided (h : ∀ stem extension, ¬ DividesInto name stem extension) :
    stripExtension name = name := by
  unfold stripExtension
  dsimp only
  split
  · rfl
  · next dot stem hdrop =>
    split
    · rfl
    · next hparts =>
      exfalso
      have hdot : dot = '.' := by
        have hhead := List.head?_dropWhile_not (· != '.') name.toList.reverse
        rw [hdrop] at hhead
        simpa using hhead
      have hname := congrArg List.reverse
        (List.takeWhile_append_dropWhile (p := (· != '.')) (l := name.toList.reverse))
      rw [hdrop, hdot, List.reverse_reverse, List.reverse_append, List.reverse_cons,
        List.append_assoc, List.singleton_append] at hname
      simp only [Bool.or_eq_true, List.isEmpty_iff, List.contains_iff_mem, not_or] at hparts
      refine h _ _ ⟨hname.symm, ?_, ?_, ?_, ?_⟩
      · simpa using hparts.1.1
      · simpa using hparts.1.2
      · intro hmem
        simpa using List.mem_takeWhile_imp (List.mem_reverse.mp hmem)
      · intro hmem
        exact hparts.2 (List.mem_reverse.mp hmem)

theorem dividesInto_path_iff (hfile : '/' ∉ file.toList) :
    DividesInto (directory ++ "/" ++ file) stem extension ↔
      ∃ front, stem = directory.toList ++ '/' :: front ∧
        file.toList = front ++ '.' :: extension ∧ extension ≠ [] ∧ '.' ∉ extension := by
  have hpath : (directory ++ "/" ++ file).toList = directory.toList ++ '/' :: file.toList := by
    simp
  constructor
  · intro h
    have heq := h.toList_eq
    rw [hpath] at heq
    rcases List.append_eq_append_iff.mp heq with ⟨front, hstem, hrest⟩ | ⟨back, -, hrest⟩
    · cases front with
      | nil => simp at hrest
      | cons slash front =>
        rw [List.cons_append] at hrest
        obtain ⟨rfl, hfront⟩ := List.cons.inj hrest
        exact ⟨front, hstem, hfront, h.extension_ne_nil, h.dot_notMem⟩
    · -- The last dot is not in the directory, for the slash would be in the extension.
      have hslash : '/' ∈ '.' :: extension := by
        rw [hrest]
        simp
      exact absurd ((List.mem_cons.mp hslash).resolve_left (by decide)) h.slash_notMem
  · rintro ⟨front, rfl, hrest, hne, hdot⟩
    refine ⟨by rw [hpath, hrest]; simp, by simp, hne, hdot, ?_⟩
    intro hmem
    exact hfile (by simp [hrest, hmem])

/-- The file has one dot, at its start, and is more than the dot. -/
def IsDotWord (file : String) : Prop :=
  ∃ word, file.toList = '.' :: word ∧ word ≠ [] ∧ '.' ∉ word

theorem IsDotWord.stripExtension_eq (h : IsDotWord file) : stripExtension file = file := by
  obtain ⟨word, hfile, -, hword⟩ := h
  apply stripExtension_of_undivided
  intro stem extension hdivides
  have heq : [] ++ '.' :: word = stem ++ '.' :: extension := by
    rw [← hdivides.toList_eq, hfile]
    rfl
  exact hdivides.stem_ne_nil (append_cons_inj_last hword hdivides.dot_notMem heq).1.symm

theorem IsDotWord.stripExtension_path (h : IsDotWord file) (hfile : '/' ∉ file.toList) :
    stripExtension (directory ++ "/" ++ file) = directory ++ "/" := by
  obtain ⟨word, hword, hne, hdot⟩ := h
  rw [stripExtension_of_dividesInto
    ((dividesInto_path_iff hfile).mpr ⟨[], rfl, hword, hne, hdot⟩), ← String.toList_inj]
  simp

theorem stripExtension_path_of_not_isDotWord (hfile : '/' ∉ file.toList)
    (h : ¬ IsDotWord file) :
    stripExtension (directory ++ "/" ++ file) = directory ++ "/" ++ stripExtension file := by
  by_cases hdivides : ∃ stem extension, DividesInto file stem extension
  · obtain ⟨stem, extension, hdivides⟩ := hdivides
    have hpath : DividesInto (directory ++ "/" ++ file) (directory.toList ++ '/' :: stem)
        extension :=
      (dividesInto_path_iff hfile).mpr
        ⟨stem, rfl, hdivides.toList_eq, hdivides.extension_ne_nil, hdivides.dot_notMem⟩
    rw [stripExtension_of_dividesInto hpath, stripExtension_of_dividesInto hdivides,
      ← String.toList_inj]
    simp
  · have hundivided : ∀ stem extension, ¬ DividesInto file stem extension := by
      simpa using hdivides
    rw [stripExtension_of_undivided hundivided]
    apply stripExtension_of_undivided
    intro stem extension hpath
    obtain ⟨front, -, heq, hne, hdot⟩ := (dividesInto_path_iff hfile).mp hpath
    cases front with
    | nil => exact h ⟨extension, heq, hne, hdot⟩
    | cons c front =>
      refine hundivided (c :: front) extension ⟨heq, by simp, hne, hdot, ?_⟩
      intro hmem
      exact hfile (by simp [heq, hmem])

/-- The dot of the file is kept as an underscore, so the file shows in the sanitized path. -/
theorem IsDotWord.sanitize_ne (h : IsDotWord file) :
    sanitize (directory ++ "/") ≠ sanitize (directory ++ "/" ++ file) := by
  obtain ⟨word, hword, -, -⟩ := h
  have hslash : isBlank '/' = false := by decide
  have hdot : isBlank '.' = false := by decide
  have hshort : trimChars (directory ++ "/").toList = trimStart directory.toList ++ ['/'] := by
    rw [String.toList_append]
    exact trimChars_append_cons hslash _ []
  have hlong : trimChars (directory ++ "/" ++ file).toList =
      trimStart directory.toList ++ '/' :: '.' :: trimEnd word := by
    have hpath : (directory ++ "/" ++ file).toList =
        directory.toList ++ '/' :: ([] ++ '.' :: word) := by
      simp [hword]
    rw [hpath, trimChars_append_cons hslash, trimEnd_append_cons hdot, List.nil_append]
  intro heq
  have hlength := congrArg (fun text => text.toList.length) heq
  simp only [toList_sanitize, toList_trim, hshort, hlong, List.length_map, List.length_append,
    List.length_cons, List.length_nil] at hlength
  omega

theorem sanitize_stripExtension_path_iff (hfile : '/' ∉ file.toList) :
    sanitize (stripExtension (directory ++ "/" ++ file)) =
        sanitize (directory ++ "/" ++ stripExtension file) ↔
      ¬ IsDotWord file := by
  constructor
  · intro heq hword
    rw [hword.stripExtension_path hfile, hword.stripExtension_eq] at heq
    exact hword.sanitize_ne heq
  · intro hword
    rw [stripExtension_path_of_not_isDotWord hfile hword]

end Identifier

open Identifier

/-- Stripping looks at the last component of a path alone, and the procedure is named
accordingly, exactly if that component is not a dot and a word. Such a component keeps its name
when it stands by itself and loses all of it in a directory. -/
theorem stripExtension_path_iff (directory file : String) (hfile : '/' ∉ file.toList) :
    (stripExtension (directory ++ "/" ++ file) = directory ++ "/" ++ stripExtension file ↔
      ¬ IsDotWord file) ∧
    (∀ (index : Nat) (source : String),
      Document.procName index ⟨directory ++ "/" ++ file, source⟩ =
          sanitize (directory ++ "/" ++ stripExtension file) ++ "_" ++ Nat.repr (index + 1) ↔
        ¬ IsDotWord file) ∧
    (IsDotWord file →
      stripExtension file = file ∧ stripExtension (directory ++ "/" ++ file) = directory ++ "/") := by
  refine ⟨⟨?_, stripExtension_path_of_not_isDotWord hfile⟩, ?_, ?_⟩
  · intro heq
    exact (sanitize_stripExtension_path_iff hfile).mp (congrArg sanitize heq)
  · intro index source
    unfold Document.procName
    rw [String.append_left_inj, String.append_left_inj]
    exact sanitize_stripExtension_path_iff hfile
  · intro hword
    exact ⟨hword.stripExtension_eq, hword.stripExtension_path hfile⟩

theorem stripExtension_path_iff_second_dot :
    '/' ∉ ".press.v2".toList ∧ ¬ IsDotWord ".press.v2" ∧
    stripExtension "cell.d/.press.v2" = "cell.d/.press" ∧
    '/' ∉ ".press".toList ∧ IsDotWord ".press" ∧ stripExtension "cell.d/.press" = "cell.d/" := by
  have hsecond : '/' ∉ ".press.v2".toList := by decide
  have hfirst : '/' ∉ ".press".toList := by decide
  have hnot : ¬ IsDotWord ".press.v2" :=
    (stripExtension_path_iff "cell.d" ".press.v2" hsecond).1.mp (by decide +kernel)
  have hword : IsDotWord ".press" := ⟨"press".toList, by decide, by decide, by decide⟩
  refine ⟨hsecond, hnot, ?_, hfirst, hword, ?_⟩
  · refine ((stripExtension_path_iff "cell.d" ".press.v2" hsecond).1.mpr hnot).trans ?_
    decide +kernel
  · exact ((stripExtension_path_iff "cell.d" ".press" hfirst).2.2 hword).2

/-- The leading dot of a file starts an extension as soon as the file is in a directory: its
procedure is named for the directory alone. -/
theorem stripExtension_hidden_in_directory :
    stripExtension ".hidden" = ".hidden" ∧
    stripExtension ("dir" ++ "/" ++ ".hidden") ≠ "dir" ++ "/" ++ stripExtension ".hidden" ∧
    Document.procName 0 ⟨"dir/.hidden", ""⟩ = "dir__1" ∧
    sanitize ("dir" ++ "/" ++ stripExtension ".hidden") ++ "_" ++ Nat.repr 1 =
      "dir__hidden_1" := by
  refine ⟨?_, ?_, ?_, ?_⟩
  all_goals decide +kernel

end PressPath
