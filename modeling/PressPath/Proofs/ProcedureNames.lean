import Mathlib
import PressPath.Proofs.Frame

/-! The names of procedures. A name ends in an underscore and the position of its
document, and no digit is an underscore; so the position can be told from the name,
also with the case of letters ignored, and documents whose own names are alike, or
look as if they were numbered already, get procedures that differ. -/
namespace PressPath
open Grammar Text

@[simp] theorem toList_toLower (s : String) : s.toLower.toList = s.toList.map Char.toLower :=
  String.toList_map

theorem toLower_append_inj {front s t : String} :
    (front ++ s).toLower = (front ++ t).toLower ↔ s.toLower = t.toLower := by
  rw [← String.toList_inj, ← String.toList_inj]
  simp

theorem Identifier.isPart_of_isDigit {c : Char} (h : c.isDigit = true) : isPart c = true := by
  simp [isPart, Char.isAlphanum, h]

namespace Document

theorem toList_procName (index : Nat) (d : Document) :
    (d.procName index).toList =
      (Identifier.sanitize (Identifier.stripExtension d.name)).toList ++
        '_' :: Nat.toDigits 10 (index + 1) := by
  simp [procName, Nat.toList_repr]

theorem position_eq_of_toLower_procName_eq {i j : Nat} {d e : Document}
    (h : (d.procName i).toLower = (e.procName j).toLower) : i = j := by
  have hlower : '_'.toLower = '_' := by decide
  simp only [← String.toList_inj, toList_toLower, toList_procName, List.map_append, List.map_cons,
    map_toLower_toDigits, hlower] at h
  -- A sanitized name may hold underscores and digits too, so only the last underscore counts.
  have hdigits := (append_cons_inj_last (notMem_toDigits (by decide) _)
    (notMem_toDigits (by decide) _) h).2
  rw [← Nat.toList_repr, ← Nat.toList_repr, String.toList_inj, Nat.repr_inj] at hdigits
  exact Nat.succ_injective hdigits

theorem isPart_of_mem_procName {index : Nat} {d : Document} {c : Char}
    (h : c ∈ (d.procName index).toList) : Identifier.isPart c = true := by
  rw [toList_procName, List.mem_append, List.mem_cons] at h
  rcases h with h | rfl | h
  · exact Identifier.isPart_of_mem_sanitize h
  · decide
  · exact Identifier.isPart_of_isDigit (Nat.isDigit_of_mem_toDigits (by decide) (by decide) h)

theorem isValid_procName (index : Nat) (d : Document) :
    Identifier.isValid ("Path_" ++ d.procName index) = true := by
  have hword : "Path_".toList.all Identifier.isPart = true := by decide
  rw [Identifier.isValid_iff, String.toList_append]
  refine ⟨⟨'P', ?_, by decide⟩, ?_⟩
  · rw [String.toList_append]
    rfl
  · intro c hc
    rcases List.mem_append.mp hc with hc | hc
    · exact List.all_eq_true.mp hword c hc
    · exact isPart_of_mem_procName hc

theorem map_name_of_forall₂ {budget : Budget} {entries : List (Document × Nat)}
    {procedures : List Procedure} (h : List.Forall₂ (Becomes budget) entries procedures) :
    procedures.map Procedure.name = entries.map fun entry => entry.1.procName entry.2 := by
  induction h with
  | nil => rfl
  | cons hbecomes _ ih => rw [List.map_cons, List.map_cons, ih, hbecomes.1]

theorem nodup_toLower_procName (documents : List Document) :
    (documents.zipIdx.map fun entry => ("Path_" ++ entry.1.procName entry.2).toLower).Nodup := by
  have hpositions := List.nodup_zipIdx_map_snd documents
  rw [List.Nodup, List.pairwise_map] at hpositions ⊢
  refine hpositions.imp fun hne hsame => hne ?_
  exact position_eq_of_toLower_procName_eq (toLower_append_inj.mp hsame)

end Document

def Procedure.header (p : Procedure) : String := "PROC " ++ ("Path_" ++ p.name) ++ "()"

theorem Procedure.render_procHeader (m : Motion) (p : Procedure) :
    Statement.render m (.procHeader p.name) = p.header ++ "\n" := by
  have hword : "PROC Path_" = "PROC " ++ "Path_" := by decide
  have hend : "()\n" = "()" ++ "\n" := by decide
  rw [Statement.render, header, hword, hend]
  simp only [String.append_assoc]

section Headers
variable {m : Motion} {name : String} {p : Procedure} {procedures : List Procedure}

theorem Procedure.filter_begins_lines (hm : m.OneLine) (hp : ∀ s ∈ p.body, s.Legible) :
    (p.lines m).filter (begins "PROC") = [p.header.toList] := by
  have hword : "PROC" ∈ frameWords := by decide
  have hbody : (p.body.map (Statement.line m)).filter (begins "PROC") = [] := by
    apply List.filter_eq_nil_iff.mpr
    intro line hline
    simp [Statement.begins_of_mem_lines hm hp hword hline]
  have hheader : p.header.toList = ("PROC Path_" ++ p.name ++ "()").toList := by
    rw [header, ← String.append_assoc]
    rfl
  have hbegins : begins "PROC" p.header.toList = true := by
    rw [hheader, begins_procHeader hword]
    rfl
  unfold lines
  rw [← hheader, List.filter_append, List.filter_cons_of_pos hbegins, hbody]
  rfl

theorem filter_begins_moduleLines (hm : m.OneLine)
    (hlegible : ∀ p ∈ procedures, ∀ s ∈ p.body, s.Legible) :
    (moduleLines m name procedures ++ [[]]).filter (begins "PROC") =
      procedures.map fun p => p.header.toList := by
  have hmodule : ¬ begins "PROC" ("MODULE " ++ name).toList = true := by
    rw [begins_moduleHeader (by decide)]
    decide
  have hinner : (procedures.flatMap (Procedure.lines m)).filter (begins "PROC") =
      procedures.map fun p => p.header.toList := by
    rw [List.filter_flatMap, List.map_eq_flatMap]
    exact List.flatMap_congr fun p hp => Procedure.filter_begins_lines hm (hlegible p hp)
  have hfooter : ["ENDMODULE".toList].filter (begins "PROC") = [] := by decide
  have hempty : [([] : List Char)].filter (begins "PROC") = [] := by decide
  unfold moduleLines
  rw [List.filter_append, List.filter_append, List.filter_cons_of_neg hmodule,
    List.filter_cons_of_neg (by decide), hinner, hfooter, hempty, List.append_nil, List.append_nil]

end Headers

namespace Job

/-- Procedures of documents at different positions have names that differ in more than the case of
letters, whatever the documents are called, and with the word that comes before them in a module
they are identifiers. So the procedures of a module that was made are headed by identifiers of
which no two are the same; these head all the lines that start as headers do, unless the motion
settings bring in lines of their own. -/
theorem procedure_names_distinct :
    (∀ (d e : Document) (i j : Nat), i ≠ j →
      d.procName i ≠ e.procName j ∧ (d.procName i).toLower ≠ (e.procName j).toLower) ∧
    (∀ (d : Document) (i : Nat), Identifier.isValid ("Path_" ++ d.procName i) = true) ∧
    ∀ (budget : Budget) (job : Job) (documents : List Document) (result : RobotModule),
      (job.translate budget documents).1 = .ok result →
      ∃ procedures, List.Forall₂ (Document.Becomes budget) documents.zipIdx procedures ∧
        result.text = Statement.render job.motion (.moduleHeader result.name) ++
          String.join ((procedures.flatMap Procedure.statements).map
            (Statement.render job.motion)) ++
          Statement.render job.motion .moduleFooter ∧
        (∀ p ∈ procedures, Statement.render job.motion (.procHeader p.name) = p.header ++ "\n") ∧
        (procedures.map fun p => ("Path_" ++ p.name).toLower).Nodup ∧
        (∀ p ∈ procedures, Identifier.isValid ("Path_" ++ p.name) = true) ∧
        (job.motion.OneLine →
          (result.text.toList.splitOn '\n').filter (begins "PROC") =
            procedures.map fun p => p.header.toList) := by
  refine ⟨?_, fun d i => d.isValid_procName i, ?_⟩
  · intro d e i j hne
    have hlower : (d.procName i).toLower ≠ (e.procName j).toLower :=
      fun h => hne (Document.position_eq_of_toLower_procName_eq h)
    exact ⟨fun h => hlower (by rw [h]), hlower⟩
  · intro budget job documents result hresult
    obtain ⟨hname, procedures, hbecomes, htext⟩ := exists_procedures_of_translate hresult
    refine ⟨procedures, hbecomes, htext, ?_, ?_, ?_, ?_⟩
    · intro p _
      exact p.render_procHeader job.motion
    · have hnames := congrArg (List.map fun name => ("Path_" ++ name).toLower)
        (Document.map_name_of_forall₂ hbecomes)
      rw [List.map_map, List.map_map] at hnames
      exact hnames ▸ Document.nodup_toLower_procName documents
    · intro p hp
      obtain ⟨entry, -, hentry⟩ := exists_mem_of_forall₂ hbecomes hp
      rw [hentry.1]
      exact entry.1.isValid_procName entry.2
    · intro hm
      rw [splitOn_text_of_becomes hm hname hbecomes htext]
      exact filter_begins_moduleLines hm (Document.legible_of_forall₂ hbecomes)

def lookalikes : List Document :=
  [⟨"a.apt", "RAPID"⟩, ⟨"A", "PROC/Path_a_1()"⟩, ⟨"a_2.apt", "; PROC"⟩, ⟨"", "GOTO/1,2,3,4,5,6"⟩]

theorem procedure_names_distinct_lookalikes :
    (Document.procName 0 ⟨"A_2", ""⟩).toLower ≠ (Document.procName 1 ⟨"a.apt", ""⟩).toLower ∧
    ∃ result, (Job.translate .unlimited ⟨.given "Cell", {}⟩ lookalikes).1 = .ok result ∧
      (result.text.toList.splitOn '\n').filter (begins "PROC") =
        ["PROC Path_a_1()".toList, "PROC Path_A_2()".toList, "PROC Path_a_2_3()".toList,
          "PROC Path__4()".toList] := by
  refine ⟨(procedure_names_distinct.1 _ _ 0 1 (by decide)).2, ?_⟩
  have hok : (Job.translate .unlimited ⟨.given "Cell", {}⟩ lookalikes).1.toOption.isSome = true := by
    decide +kernel
  have hm : Motion.OneLine {} := ⟨by decide, by decide, by decide, by decide⟩
  cases h : (Job.translate .unlimited ⟨.given "Cell", {}⟩ lookalikes).1 with
  | error faults =>
    rw [h] at hok
    cases hok
  | ok result =>
    obtain ⟨procedures, hbecomes, -, -, -, -, hlines⟩ := procedure_names_distinct.2.2 _ _ _ _ h
    have hheaders := congrArg (List.map fun name => ("PROC " ++ ("Path_" ++ name) ++ "()").toList)
      (Document.map_name_of_forall₂ hbecomes)
    rw [List.map_map] at hheaders
    refine ⟨result, rfl, (hlines hm).trans (hheaders.trans ?_)⟩
    decide +kernel

end Job
end PressPath
