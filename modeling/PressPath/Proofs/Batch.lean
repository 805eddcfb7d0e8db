import PressPath.Proofs.Assembly

/-! The outcome of a whole job, as a function of what each document comes to on its
own. No document hides the fault of another, and documents added at the end leave
the text of the earlier ones as it is. -/
namespace PressPath
open Grammar

def Document.events (budget : Budget) (entry : Document × Nat) : List Event :=
  (entry.1.translate budget entry.2).2 ++
    (fault? budget entry).toList.map Event.documentFailed

namespace Job

theorem Progress.add_journal (budget : Budget) (m : Motion) (p : Progress)
    (entry : Document × Nat) :
    (p.add budget m entry).journal.toList =
      p.journal.toList ++ Document.events budget entry := by
  unfold Progress.add Document.events Document.fault?
  rcases entry.1.translate budget entry.2 with ⟨statements | fault, events⟩ <;> simp

theorem foldl_add_journal (budget : Budget) (m : Motion) (entries : List (Document × Nat))
    (p : Progress) :
    (entries.foldl (Progress.add budget m) p).journal.toList =
      p.journal.toList ++ entries.flatMap (Document.events budget) := by
  induction entries generalizing p with
  | nil => simp
  | cons entry rest ih =>
    rw [List.foldl_cons, ih, Progress.add_journal, List.append_assoc, List.flatMap_cons]

variable {budget : Budget} {job : Job} {documents : List Document}

def faults (budget : Budget) (documents : List Document) : List Fault :=
  documents.zipIdx.filterMap (Document.fault? budget)

def stem (budget : Budget) (m : Motion) (name : String) (documents : List Document) : String :=
  "MODULE " ++ name ++ "\n\n" ++
    String.join ((documents.zipIdx.flatMap (Document.statements budget)).map (Statement.render m))

theorem mem_faults_iff {fault : Fault} :
    fault ∈ faults budget documents ↔
      ∃ (i : Nat) (d : Document), documents[i]? = some d ∧
        (d.translate budget i).1 = .error fault := by
  unfold faults
  rw [List.mem_filterMap]
  constructor
  · rintro ⟨⟨d, i⟩, hmem, hfault⟩
    refine ⟨i, d, List.mem_zipIdx_iff_getElem?.mp hmem, ?_⟩
    unfold Document.fault? at hfault
    split at hfault
    · cases hfault
    · next found hfound => rw [hfound, Option.some.inj hfault]
  · rintro ⟨i, d, hd, hfault⟩
    exact ⟨(d, i), List.mem_zipIdx_iff_getElem?.mpr hd, by simp [Document.fault?, hfault]⟩

theorem translate_of_moduleName_eq_error {fault : Fault}
    (hname : job.moduleName budget documents = .error fault) :
    job.translate budget documents = (.error [fault], []) := by
  unfold translate
  rw [hname]

theorem translate_of_moduleName_eq_ok {name : String}
    (hname : job.moduleName budget documents = .ok name) :
    job.translate budget documents =
      (if (faults budget documents).isEmpty then
          .ok ⟨name, stem budget job.motion name documents ++ "ENDMODULE\n"⟩
        else .error (faults budget documents),
        .moduleNamed name :: documents.zipIdx.flatMap (Document.events budget)) := by
  unfold translate
  rw [hname]
  dsimp only [Progress.result]
  rw [foldl_add_journal, finish_foldl_add, ← Array.isEmpty_toList, foldl_add_faults]
  rfl

theorem translate_eq_ok_iff {result : RobotModule} :
    (job.translate budget documents).1 = .ok result ↔
      job.moduleName budget documents = .ok result.name ∧ faults budget documents = [] ∧
        result.text = stem budget job.motion result.name documents ++ "ENDMODULE\n" := by
  cases hname : job.moduleName budget documents with
  | error fault => simp [translate_of_moduleName_eq_error hname]
  | ok name =>
    rw [translate_of_moduleName_eq_ok hname]
    cases hfaults : faults budget documents with
    | nil =>
      change Except.ok _ = Except.ok result ↔ _
      constructor
      · rintro ⟨⟩
        exact ⟨rfl, rfl, rfl⟩
      · rintro ⟨⟨⟩, -, htext⟩
        rw [← htext]
    | cons fault rest => simp

-- Positions are counted from the front, so what comes later changes nothing before it.
theorem faults_append (budget : Budget) (front back : List Document) :
    ∃ rest, faults budget (front ++ back) = faults budget front ++ rest := by
  unfold faults
  rw [List.zipIdx_append, List.filterMap_append]
  exact ⟨_, rfl⟩

theorem stem_append (budget : Budget) (m : Motion) (name : String) (front back : List Document) :
    ∃ rest, stem budget m name (front ++ back) = stem budget m name front ++ rest := by
  unfold stem
  rw [List.zipIdx_append, List.flatMap_append, List.map_append, String.join_append,
    ← String.append_assoc]
  exact ⟨_, rfl⟩

theorem moduleName_given {given : String} (hgiven : job.naming = .given given)
    (documents others : List Document) :
    job.moduleName budget documents = job.moduleName budget others := by
  unfold moduleName rawName
  rw [hgiven]

/-- A job is decided by its name and by what each document comes to at its position. Without
a name nothing is translated. Otherwise every document is tried; the job fails with all
faults in order if there is one, and else its text is the text of all statements. Under a
given name, the documents in front of a job that succeeds make the front of its text. -/
theorem translate_assembly (budget : Budget) (job : Job) (documents : List Document) :
    (∀ fault, job.moduleName budget documents = .error fault →
      job.translate budget documents = (.error [fault], [])) ∧
    (∀ name, job.moduleName budget documents = .ok name →
      (job.translate budget documents).2 =
        .moduleNamed name :: documents.zipIdx.flatMap (Document.events budget) ∧
      ((∃ (i : Nat) (d : Document) (fault : Fault), documents[i]? = some d ∧
          (d.translate budget i).1 = .error fault) →
        (job.translate budget documents).1 = .error (faults budget documents)) ∧
      ((∀ (i : Nat) (d : Document), documents[i]? = some d →
          ∃ statements, (d.translate budget i).1 = .ok statements) →
        (job.translate budget documents).1 =
          .ok ⟨name, stem budget job.motion name documents ++ "ENDMODULE\n"⟩)) ∧
    ∀ given back whole, job.naming = .given given →
      (job.translate budget (documents ++ back)).1 = .ok whole →
      ∃ front, (job.translate budget documents).1 = .ok front ∧ front.name = whole.name ∧
        front.text = stem budget job.motion front.name documents ++ "ENDMODULE\n" ∧
        ∃ rest, whole.text = stem budget job.motion front.name documents ++ rest := by
  refine ⟨fun fault hname => translate_of_moduleName_eq_error hname, fun name hname => ?_, ?_⟩
  · rw [translate_of_moduleName_eq_ok hname]
    refine ⟨rfl, ?_, ?_⟩
    · rintro ⟨i, d, fault, hd, hfault⟩
      have hmem : fault ∈ faults budget documents := mem_faults_iff.mpr ⟨i, d, hd, hfault⟩
      exact if_neg fun hempty => by simp [List.isEmpty_iff.mp hempty] at hmem
    · intro hall
      have hnone : faults budget documents = [] := by
        apply List.eq_nil_iff_forall_not_mem.mpr
        intro fault hmem
        obtain ⟨i, d, hd, hfault⟩ := mem_faults_iff.mp hmem
        obtain ⟨statements, hstatements⟩ := hall i d hd
        simp [hfault] at hstatements
      exact if_pos (List.isEmpty_iff.mpr hnone)
  · intro given back whole hgiven hwhole
    obtain ⟨hname, hfaults, hwhole⟩ := translate_eq_ok_iff.mp hwhole
    obtain ⟨later, hlater⟩ := faults_append budget documents back
    obtain ⟨rest, hrest⟩ := stem_append budget job.motion whole.name documents back
    rw [moduleName_given hgiven (documents ++ back) documents] at hname
    rw [hlater] at hfaults
    refine ⟨⟨whole.name, stem budget job.motion whole.name documents ++ "ENDMODULE\n"⟩,
      translate_eq_ok_iff.mpr ⟨hname, (List.append_eq_nil_iff.mp hfaults).1, rfl⟩, rfl, rfl,
      rest ++ "ENDMODULE\n", ?_⟩
    rw [hwhole, hrest, String.append_assoc]

theorem translate_assembly_mixed :
    (Job.translate .unlimited ⟨.given "mixed", {}⟩
      [⟨"a", "GOTO/1"⟩, ⟨"b", "RAPID\nGOTO/1,2,3,4,5,6"⟩, ⟨"c", "\nGOTO"⟩]).1 =
      .error [⟨"a", 1, .malformedMove 1⟩, ⟨"c", 2, .malformedMove 0⟩] := by
  have hname : Job.moduleName .unlimited ⟨.given "mixed", {}⟩
      [⟨"a", "GOTO/1"⟩, ⟨"b", "RAPID\nGOTO/1,2,3,4,5,6"⟩, ⟨"c", "\nGOTO"⟩] = .ok "mixed" := by
    decide +kernel
  refine (((translate_assembly _ _ _).2.1 "mixed" hname).2.1 ?_).trans ?_
  · exact ⟨0, _, ⟨"a", 1, .malformedMove 1⟩, rfl, by decide +kernel⟩
  · exact congrArg Except.error (by decide +kernel)

end Job
end PressPath
