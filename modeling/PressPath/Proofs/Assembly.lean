import PressPath.Proofs.Legible
import Mathlib.Data.List.Forall2

/-! How a module is put together. A draft grows by the texts of the statements it is
given, after one header. A job that succeeds has turned every document into a
procedure, and its text is the text of these procedures in order. -/
namespace PressPath
open Grammar

def Statement.isModuleHeader : Statement → Bool
  | moduleHeader _ => true
  | _ => false

namespace Draft

@[simp] theorem withHeader_name (m : Motion) (d : Draft) : (d.withHeader m).name = d.name := by
  unfold withHeader
  split <;> rfl

@[simp] theorem push_name (m : Motion) (d : Draft) (statement : Statement) :
    (d.push m statement).name = d.name := by
  unfold push
  split <;> simp

theorem withHeader_push (m : Motion) (d : Draft) (statement : Statement) :
    (d.push m statement).withHeader m = d.push m statement := by
  cases hheader : d.hasHeader <;> cases statement <;> simp [push, withHeader, hheader]

theorem push_text (m : Motion) (d : Draft) (statement : Statement) :
    (d.push m statement).text = (d.withHeader m).text ++
      (if statement.isModuleHeader then "" else statement.render m) := by
  cases statement <;> simp [push, Statement.isModuleHeader]

@[simp] theorem extend_name (m : Motion) (d : Draft) (statements : List Statement) :
    (d.extend m statements).name = d.name := by
  induction statements generalizing d with
  | nil => rfl
  | cons statement rest ih =>
    change ((d.push m statement).extend m rest).name = d.name
    rw [ih, push_name]

theorem withHeader_extend_text (m : Motion) (d : Draft) (statements : List Statement) :
    ((d.extend m statements).withHeader m).text = (d.withHeader m).text ++
      String.join ((statements.filter fun s => !s.isModuleHeader).map (Statement.render m)) := by
  induction statements generalizing d with
  | nil => simp [extend]
  | cons statement rest ih =>
    change (((d.push m statement).extend m rest).withHeader m).text = _
    rw [ih, withHeader_push, push_text]
    cases hheader : statement.isModuleHeader with
    | true => simp [hheader]
    | false => simp [hheader, String.append_assoc]

end Draft

theorem Sequencer.eq_feedAll_of_follow {s last : Sequencer} {entries : List NumberedCommand}
    (h : s.follow entries = (last, none)) :
    last = s.feedAll (entries.map NumberedCommand.command) := by
  induction entries generalizing s with
  | nil =>
    cases h
    rfl
  | cons entry rest ih =>
    unfold follow at h
    split at h
    · next next hfeed =>
      rw [ih h, List.map_cons]
      change next.feedAll _ = (s.feed entry.command).1.feedAll _
      rw [hfeed]
    · cases h

structure Procedure where
  name : String
  body : List Statement
deriving Repr, DecidableEq

def Procedure.statements (p : Procedure) : List Statement :=
  .procHeader p.name :: p.body ++ [.procFooter]

theorem exists_mem_of_forall₂ {α β : Type} {R : α → β → Prop} {xs : List α} {ys : List β}
    (h : List.Forall₂ R xs ys) {y : β} (hy : y ∈ ys) : ∃ x ∈ xs, R x y := by
  induction h with
  | nil => simp at hy
  | cons hrelated _ ih =>
    rcases List.mem_cons.mp hy with rfl | hy
    · exact ⟨_, by simp, hrelated⟩
    · obtain ⟨x, hx, hrelated⟩ := ih hy
      exact ⟨x, by simp [hx], hrelated⟩

namespace Document

theorem exists_listing_of_translate {budget : Budget} {index : Nat} {d : Document}
    {statements : List Statement} (h : (d.translate budget index).1 = .ok statements) :
    ∃ listing, Listing.parse budget d.name d.source = .ok listing ∧
      statements = Procedure.statements ⟨d.procName index, sequence listing.commands⟩ := by
  unfold translate at h
  split at h
  · cases h
  · next listing hlisting =>
    split at h
    · cases h
    · next s hfollow =>
      refine ⟨listing, hlisting, ?_⟩
      have hs := Sequencer.eq_feedAll_of_follow hfollow
      dsimp only at h
      rw [← Except.ok.inj h, hs]
      rfl

/-- The document at a position turns into the procedure. -/
def Becomes (budget : Budget) (entry : Document × Nat) (p : Procedure) : Prop :=
  p.name = entry.1.procName entry.2 ∧ (entry.1.translate budget entry.2).1 = .ok p.statements

theorem exists_becomes {budget : Budget} {entry : Document × Nat} {statements : List Statement}
    (h : (entry.1.translate budget entry.2).1 = .ok statements) :
    ∃ p, Becomes budget entry p ∧ statements = p.statements := by
  obtain ⟨listing, -, hstatements⟩ := exists_listing_of_translate h
  refine ⟨⟨entry.1.procName entry.2, sequence listing.commands⟩, ⟨rfl, ?_⟩, hstatements⟩
  rw [h, hstatements]

theorem Becomes.legible {budget : Budget} {entry : Document × Nat} {p : Procedure}
    (h : Becomes budget entry p) {statement : Statement} (hmem : statement ∈ p.body) :
    statement.Legible := by
  obtain ⟨listing, hlisting, hstatements⟩ := exists_listing_of_translate h.2
  unfold Procedure.statements at hstatements
  have hbody : p.body = sequence listing.commands :=
    List.append_cancel_right (List.cons.inj hstatements).2
  rw [hbody] at hmem
  exact legible_of_mem_sequence (fun c hc => Listing.oneLine_of_mem_commands hlisting hc) hmem

theorem Becomes.isModuleHeader {budget : Budget} {entry : Document × Nat} {p : Procedure}
    (h : Becomes budget entry p) {statement : Statement} (hmem : statement ∈ p.statements) :
    statement.isModuleHeader = false := by
  unfold Procedure.statements at hmem
  rcases List.mem_append.mp hmem with hmem | hmem
  · rcases List.mem_cons.mp hmem with rfl | hmem
    · rfl
    · have hlegible := h.legible hmem
      cases statement with
      | moduleHeader name => exact hlegible.elim
      | _ => rfl
  · rw [List.mem_singleton.mp hmem]
    rfl

def fault? (budget : Budget) (entry : Document × Nat) : Option Fault :=
  match (entry.1.translate budget entry.2).1 with
  | .ok _ => none
  | .error fault => some fault

def statements (budget : Budget) (entry : Document × Nat) : List Statement :=
  match (entry.1.translate budget entry.2).1 with
  | .ok statements => statements
  | .error _ => []

theorem isModuleHeader_of_mem_statements {budget : Budget} {entry : Document × Nat}
    {statement : Statement} (hmem : statement ∈ statements budget entry) :
    statement.isModuleHeader = false := by
  unfold statements at hmem
  split at hmem
  · next found hfound =>
    obtain ⟨p, hbecomes, rfl⟩ := exists_becomes hfound
    exact hbecomes.isModuleHeader hmem
  · simp at hmem

theorem filter_statements (budget : Budget) (entries : List (Document × Nat)) :
    (entries.flatMap (statements budget)).filter (!·.isModuleHeader) =
      entries.flatMap (statements budget) := by
  apply List.filter_eq_self.mpr
  intro statement hmem
  obtain ⟨entry, -, hstatement⟩ := List.mem_flatMap.mp hmem
  simp [isModuleHeader_of_mem_statements hstatement]

theorem legible_of_forall₂ {budget : Budget} {entries : List (Document × Nat)}
    {procedures : List Procedure} (h : List.Forall₂ (Becomes budget) entries procedures) :
    ∀ p ∈ procedures, ∀ s ∈ p.body, s.Legible := by
  intro p hp s hs
  obtain ⟨entry, -, hentry⟩ := exists_mem_of_forall₂ h hp
  exact hentry.legible hs

theorem exists_procedures {budget : Budget} {entries : List (Document × Nat)}
    (h : entries.filterMap (fault? budget) = []) :
    ∃ procedures, List.Forall₂ (Becomes budget) entries procedures ∧
      entries.flatMap (statements budget) = procedures.flatMap Procedure.statements := by
  induction entries with
  | nil => exact ⟨[], .nil, rfl⟩
  | cons entry rest ih =>
    cases htranslate : (entry.1.translate budget entry.2).1 with
    | error fault => simp [fault?, htranslate] at h
    | ok found =>
      have hrest : rest.filterMap (fault? budget) = [] := by
        simpa [List.filterMap_cons, fault?, htranslate] using h
      obtain ⟨p, hbecomes, rfl⟩ := exists_becomes htranslate
      obtain ⟨procedures, hprocedures, hflatMap⟩ := ih hrest
      refine ⟨p :: procedures, .cons hbecomes hprocedures, ?_⟩
      rw [List.flatMap_cons, List.flatMap_cons, hflatMap, statements, htranslate]

end Document

namespace Job

theorem Progress.add_draft (budget : Budget) (m : Motion) (p : Progress)
    (entry : Document × Nat) :
    (p.add budget m entry).draft = p.draft.extend m (Document.statements budget entry) := by
  unfold Progress.add Document.statements
  rcases entry.1.translate budget entry.2 with ⟨statements | fault, events⟩ <;> rfl

theorem Progress.add_faults (budget : Budget) (m : Motion) (p : Progress)
    (entry : Document × Nat) :
    (p.add budget m entry).faults.toList =
      p.faults.toList ++ (Document.fault? budget entry).toList := by
  unfold Progress.add Document.fault?
  rcases entry.1.translate budget entry.2 with ⟨statements | fault, events⟩ <;> simp

variable (budget : Budget) (m : Motion)

theorem foldl_add_draft (entries : List (Document × Nat)) (p : Progress) :
    (entries.foldl (Progress.add budget m) p).draft =
      p.draft.extend m (entries.flatMap (Document.statements budget)) := by
  induction entries generalizing p with
  | nil => rfl
  | cons entry rest ih =>
    rw [List.foldl_cons, ih, Progress.add_draft, List.flatMap_cons, Draft.extend_append]

theorem foldl_add_faults (entries : List (Document × Nat)) (p : Progress) :
    (entries.foldl (Progress.add budget m) p).faults.toList =
      p.faults.toList ++ entries.filterMap (Document.fault? budget) := by
  induction entries generalizing p with
  | nil => simp
  | cons entry rest ih =>
    rw [List.foldl_cons, ih, Progress.add_faults, List.append_assoc, List.filterMap_cons]
    cases Document.fault? budget entry <;> rfl

theorem finish_foldl_add (entries : List (Document × Nat)) (name : String)
    (journal : Array Event) :
    (entries.foldl (Progress.add budget m)
        { draft := { name := name }, journal := journal }).draft.finish m =
      ⟨name, Statement.render m (.moduleHeader name) ++
        String.join ((entries.flatMap (Document.statements budget)).map (Statement.render m)) ++
        Statement.render m .moduleFooter⟩ := by
  rw [foldl_add_draft]
  change RobotModule.mk _ (((Draft.extend _ _ _).withHeader _).text ++ _) = _
  rw [Draft.withHeader_name, Draft.extend_name, Draft.withHeader_extend_text,
    Document.filter_statements]
  simp [Draft.withHeader]

theorem Progress.result_eq_ok {p : Progress} {result : RobotModule} (h : p.result m = .ok result) :
    p.faults.toList = [] ∧ result = p.draft.finish m := by
  unfold Progress.result at h
  split at h
  · next hempty => exact ⟨by simpa using hempty, (Except.ok.inj h).symm⟩
  · cases h

variable {budget m}

theorem exists_procedures_of_translate {job : Job} {documents : List Document}
    {result : RobotModule} (h : (job.translate budget documents).1 = .ok result) :
    job.moduleName budget documents = .ok result.name ∧
      ∃ procedures, List.Forall₂ (Document.Becomes budget) documents.zipIdx procedures ∧
        result.text = Statement.render job.motion (.moduleHeader result.name) ++
          String.join ((procedures.flatMap Procedure.statements).map
            (Statement.render job.motion)) ++
          Statement.render job.motion .moduleFooter := by
  unfold translate at h
  split at h
  · cases h
  · next name hname =>
    obtain ⟨hfaults, rfl⟩ := Progress.result_eq_ok job.motion h
    rw [foldl_add_faults] at hfaults
    obtain ⟨procedures, hbecomes, hstatements⟩ :=
      Document.exists_procedures (List.append_eq_nil_iff.mp hfaults).2
    rw [finish_foldl_add, hstatements]
    exact ⟨hname, procedures, hbecomes, rfl⟩

end Job
end PressPath
