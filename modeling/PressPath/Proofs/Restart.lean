import PressPath.Proofs.Location

/-! Starting over at a RAPID. A RAPID closes the block as the end of a document
does, and nothing from before it shows in what comes after; so a document may be
cut in front of a RAPID and its parts sequenced by themselves. -/
namespace PressPath
open Grammar Text

namespace Sequencer

/-- One sequencer goes on as the other does, after some statements of its own. The last poses
may differ unless a block is open. -/
structure Extends (past : List Statement) (s t : Sequencer) : Prop where
  mode : s.mode = t.mode
  isOpen : s.isOpen = t.isOpen
  lastPose : t.isOpen = true → s.lastPose = t.lastPose
  statements : s.statements.toList = past ++ t.statements.toList

variable {past : List Statement} {s t : Sequencer}

theorem Extends.withMode (h : Extends past s t) (mode : Mode) :
    Extends past { s with mode := mode } { t with mode := mode } :=
  ⟨rfl, h.isOpen, h.lastPose, h.statements⟩

theorem Extends.close (h : Extends past s t) : Extends past s.close t.close := by
  refine ⟨?_, ?_, ?_, ?_⟩
  · simp [h.mode]
  · simp
  · simp
  · cases hopen : t.isOpen with
    | false =>
      rw [t.close_of_closed hopen, s.close_of_closed (h.isOpen.trans hopen)]
      exact h.statements
    | true =>
      have hlast := h.lastPose hopen
      cases hpose : t.lastPose with
      | none => simp [Sequencer.close, h.isOpen, hopen, hlast, hpose, h.statements]
      | some pose =>
        rw [t.close_of_open hopen hpose,
          s.close_of_open (h.isOpen.trans hopen) (hlast.trans hpose)]
        simp [h.statements]

theorem Extends.moveTo (h : Extends past s t) (pose : Pose) :
    Extends past (s.moveTo pose) (t.moveTo pose) := by
  cases hmode : t.mode with
  | joint =>
    rw [t.moveTo_of_joint pose hmode, s.moveTo_of_joint pose (h.mode.trans hmode)]
    exact ⟨rfl, h.isOpen, fun _ => rfl, by simp [h.statements]⟩
  | linear =>
    cases hopen : t.isOpen with
    | false =>
      rw [t.moveTo_of_closed pose hmode hopen,
        s.moveTo_of_closed pose (h.mode.trans hmode) (h.isOpen.trans hopen)]
      exact ⟨h.mode, rfl, fun _ => rfl, by simp [h.statements]⟩
    | true =>
      rw [t.moveTo_of_open pose hmode hopen,
        s.moveTo_of_open pose (h.mode.trans hmode) (h.isOpen.trans hopen)]
      exact ⟨h.mode, h.isOpen, fun _ => rfl, by simp [h.statements]⟩

theorem Extends.passThrough (h : Extends past s t) (keyword : String) (statement : Statement) :
    Extends past (s.passThrough keyword statement) (t.passThrough keyword statement) := by
  cases hopen : t.isOpen with
  | false =>
    rw [t.passThrough_of_closed _ _ hopen, s.passThrough_of_closed _ _ (h.isOpen.trans hopen)]
    exact ⟨h.mode, h.isOpen, h.lastPose, by simp [h.statements]⟩
  | true =>
    rw [t.passThrough_of_open _ _ hopen, s.passThrough_of_open _ _ (h.isOpen.trans hopen)]
    exact ⟨h.mode, h.isOpen, h.lastPose, h.statements⟩

theorem Extends.feed (h : Extends past s t) (c : Command) :
    Extends past (s.feed c).1 (t.feed c).1 := by
  cases hrole : c.role with
  | rapid =>
    rw [s.feed_rapid hrole, t.feed_rapid hrole]
    exact (h.withMode .joint).close
  | move pose =>
    rw [s.feed_move hrole, t.feed_move hrole]
    exact h.moveTo pose
  | malformed found =>
    rw [s.feed_malformed hrole, t.feed_malformed hrole]
    exact h
  | aside =>
    rw [s.feed_aside hrole, t.feed_aside hrole]
    exact h.passThrough _ _

theorem Extends.feedAll (h : Extends past s t) (commands : List Command) :
    Extends past (s.feedAll commands) (t.feedAll commands) := by
  induction commands generalizing s t with
  | nil => exact h
  | cons c commands ih => exact ih (h.feed c)

theorem close_withMode_statements (s : Sequencer) (mode : Mode) :
    ({ s with mode := mode } : Sequencer).close.statements = s.close.statements := by
  unfold close
  dsimp only
  split
  · cases s.lastPose <;> rfl
  · rfl

/-- After a RAPID a sequencer is as good as new. -/
theorem extends_feed_rapid (s : Sequencer) {c : Command} (hrole : c.role = .rapid) :
    Extends s.close.statements.toList (s.feed c).1 (({} : Sequencer).feed c).1 := by
  rw [s.feed_rapid hrole, feed_rapid _ hrole]
  -- Both are closed now, so their last poses, which may well differ, do not matter.
  refine ⟨?_, ?_, ?_, ?_⟩
  · simp
  · simp
  · simp
  · rw [close_withMode_statements, close_of_closed { mode := .joint } rfl]
    simp

end Sequencer

theorem sequence_append_rapid (first second : List Command) {c : Command}
    (hrole : c.role = .rapid) :
    sequence (first ++ c :: second) = sequence first ++ sequence (c :: second) := by
  have hstart := Sequencer.extends_feed_rapid (Sequencer.feedAll {} first) hrole
  have hend := (hstart.feedAll second).close.statements
  have hwhole : Sequencer.feedAll {} (first ++ c :: second) =
      ((Sequencer.feedAll {} first).feed c).1.feedAll second := by
    simp [Sequencer.feedAll]
  unfold sequence
  rw [hwhole]
  exact hend

namespace NumberedCommand

def later (lines : Nat) (entry : NumberedCommand) : NumberedCommand :=
  { entry with line := entry.line + lines }

theorem rejection?_later (lines : Nat) (entry : NumberedCommand) :
    (entry.later lines).rejection? =
      entry.rejection?.map fun rejected => (rejected.1 + lines, rejected.2) := by
  unfold rejection? later
  dsimp only
  cases entry.command.role.found? <;> rfl

theorem findSome?_rejection?_later (lines : Nat) (entries : List NumberedCommand) :
    (entries.map (later lines)).findSome? rejection? =
      (entries.findSome? rejection?).map fun rejected => (rejected.1 + lines, rejected.2) := by
  rw [List.findSome?_map, List.map_findSome?]
  congr 1
  funext entry
  exact entry.rejection?_later lines

end NumberedCommand

namespace Listing

theorem entriesOf_add (number lines : Nat) (pieces : List (List Char)) :
    entriesOf (number + lines) pieces =
      (entriesOf number pieces).map (NumberedCommand.later lines) := by
  induction pieces generalizing number with
  | nil => rfl
  | cons piece rest ih =>
    have hnext : number + lines + 1 = number + 1 + lines := by omega
    rw [entriesOf_cons, entriesOf_cons, hnext, ih, List.map_append]
    cases Command.ofLine? piece <;> rfl

theorem ofSource_append_newline (first second : String) :
    ofSource (first ++ "\n" ++ second) =
      ofSource first ++
        (ofSource second).map (NumberedCommand.later (first.toList.count '\n' + 1)) := by
  have hchars : (first ++ "\n" ++ second).toList = first.toList ++ '\n' :: second.toList := by
    simp
  unfold ofSource
  rw [hchars, List.splitOn_append_cons_self, entriesOf_append, entriesOf_add, length_splitOn]

theorem ofSource_rapid (rest : String) :
    ofSource ("RAPID\n" ++ rest) =
      ⟨1, ⟨"RAPID", none⟩⟩ :: entriesOf 2 (rest.toList.splitOn '\n') := by
  have hchars : ("RAPID\n" ++ rest).toList = "RAPID".toList ++ '\n' :: rest.toList := by
    simp
  have hline : Command.ofLine? "RAPID".toList = some ⟨"RAPID", none⟩ := by decide +kernel
  unfold ofSource
  rw [hchars, List.splitOn_append_cons_self_of_not_mem (by decide), entriesOf_cons, hline]
  rfl

end Listing

def inner (statements : List Statement) : List Statement := statements.tail.dropLast

theorem Procedure.inner_statements (p : Procedure) : inner p.statements = p.body := by
  simp [inner, statements]

namespace Document

theorem rejection?_append_newline (name first second : String) :
    (Document.mk name (first ++ "\n" ++ second)).rejection? =
      (Document.mk name first).rejection?.or
        ((Document.mk name second).rejection?.map fun rejected =>
          (rejected.1 + (first.toList.count '\n' + 1), rejected.2)) := by
  unfold rejection?
  dsimp only
  rw [Listing.ofSource_append_newline, List.findSome?_append,
    NumberedCommand.findSome?_rejection?_later]

theorem body_procedure_append_rapid (index : Nat) (name first second : String) :
    (procedure index ⟨name, first ++ "\n" ++ ("RAPID\n" ++ second)⟩).body =
      (procedure index ⟨name, first⟩).body ++
        (procedure index ⟨name, "RAPID\n" ++ second⟩).body := by
  have hcommands : (fun entry : NumberedCommand => entry.command) ∘
      NumberedCommand.later (first.toList.count '\n' + 1) = NumberedCommand.command := rfl
  unfold procedure
  dsimp only
  rw [Listing.ofSource_append_newline, List.map_append, List.map_map, hcommands,
    Listing.ofSource_rapid, List.map_cons]
  exact sequence_append_rapid _ _ rfl

/-- A document may be cut in front of a line RAPID. If both parts succeed then so does the whole,
with the statements of the parts one after the other; otherwise the fault of the whole is
that of the first faulty part, where the lines of the second part count on. -/
theorem translate_append_rapid (index : Nat) (name first second : String) :
    (∀ ss ts, ((Document.mk name first).translate .unlimited index).1 = .ok ss →
      ((Document.mk name ("RAPID\n" ++ second)).translate .unlimited index).1 = .ok ts →
        ∃ us, ((Document.mk name (first ++ "\nRAPID\n" ++ second)).translate .unlimited index).1 =
          .ok us ∧ inner us = inner ss ++ inner ts) ∧
    (∀ fault, ((Document.mk name first).translate .unlimited index).1 = .error fault →
      ((Document.mk name (first ++ "\nRAPID\n" ++ second)).translate .unlimited index).1 =
        .error fault) ∧
    ∀ ss fault, ((Document.mk name first).translate .unlimited index).1 = .ok ss →
      ((Document.mk name ("RAPID\n" ++ second)).translate .unlimited index).1 = .error fault →
        ((Document.mk name (first ++ "\nRAPID\n" ++ second)).translate .unlimited index).1 =
          .error { fault with line := fault.line + 1 + first.toList.count '\n' } := by
  have hsource : first ++ "\nRAPID\n" ++ second = first ++ "\n" ++ ("RAPID\n" ++ second) := by
    rw [← String.toList_inj]
    simp
  have hrejection := rejection?_append_newline name first ("RAPID\n" ++ second)
  rw [hsource]
  refine ⟨?_, ?_, ?_⟩
  · intro ss ts hss hts
    obtain ⟨hfirst, rfl⟩ := translate_eq_ok_iff.mp hss
    obtain ⟨hsecond, rfl⟩ := translate_eq_ok_iff.mp hts
    rw [hfirst, hsecond] at hrejection
    refine ⟨_, translate_eq_ok_iff.mpr ⟨hrejection, rfl⟩, ?_⟩
    rw [Procedure.inner_statements, Procedure.inner_statements, Procedure.inner_statements]
    exact body_procedure_append_rapid index name first second
  · intro fault hfault
    obtain ⟨line, found, hfirst, rfl⟩ := translate_eq_error_iff.mp hfault
    rw [hfirst] at hrejection
    exact translate_eq_error_iff.mpr ⟨line, found, hrejection, rfl⟩
  · intro ss fault hss hfault
    obtain ⟨hfirst, -⟩ := translate_eq_ok_iff.mp hss
    obtain ⟨line, found, hsecond, rfl⟩ := translate_eq_error_iff.mp hfault
    rw [hfirst, hsecond] at hrejection
    refine translate_eq_error_iff.mpr ⟨_, found, hrejection, ?_⟩
    congr 1
    dsimp only
    omega

theorem translate_append_rapid_counted :
    ((Document.mk "part.apt" "FEDRAT/1\nGOTO/1,2,3,4,5,6\n\nRAPID\nGOTO/1").translate
      .unlimited 0).1 = .error ⟨"part.apt", 5, .malformedMove 1⟩ := by
  have hfirst : (Document.mk "part.apt" "FEDRAT/1\nGOTO/1,2,3,4,5,6\n").rejection? = none := by
    decide +kernel
  exact (translate_append_rapid 0 "part.apt" "FEDRAT/1\nGOTO/1,2,3,4,5,6\n" "GOTO/1").2.2 _
    ⟨"part.apt", 2, .malformedMove 1⟩ (translate_eq_ok_iff.mpr ⟨hfirst, rfl⟩) (by decide +kernel)

end Document
end PressPath
