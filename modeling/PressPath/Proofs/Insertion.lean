import PressPath.Proofs.Restart

/-! Putting one more line into a document. A line that is neither a move nor a
RAPID leaves the state of the sequencer as it is, so the document moves as it did
before: at most a note of that line is added, and faults further down are found one
line later. -/
namespace PressPath
open Grammar Text

def Statement.isMotion : Statement → Bool
  | jointMove _ | pressStart _ | pressMove _ | pressEnd _ => true
  | _ => false

namespace Command

theorem isMotion_note (c : Command) : c.note.isMotion = false := by
  unfold note
  split <;> rfl

theorem role_eq_aside {c : Command} (hrapid : c.keyword ≠ "RAPID") (hgoto : c.keyword ≠ "GOTO") :
    c.role = .aside := by
  unfold role
  rw [if_neg hrapid, if_neg hgoto]

end Command

namespace Sequencer

theorem feedAll_append (s : Sequencer) (first second : List Command) :
    s.feedAll (first ++ second) = (s.feedAll first).feedAll second := by
  simp [feedAll]

theorem extends_forgotten (s : Sequencer) :
    Extends s.statements.toList s { s with statements := #[] } :=
  ⟨rfl, rfl, fun _ => rfl, by simp⟩

/-- A command that is not about moving adds a note or nothing, and changes nothing else that
matters later. -/
theorem extends_feed_aside (s : Sequencer) {c : Command} (hrole : c.role = .aside) :
    Extends (s.statements.toList ++ if s.isOpen then [] else [c.note]) (s.feed c).1
      { s with statements := #[] } := by
  rw [s.feed_aside hrole]
  cases hopen : s.isOpen with
  | true =>
    rw [s.passThrough_of_open _ _ hopen]
    exact ⟨rfl, hopen, fun _ => rfl, by simp⟩
  | false =>
    rw [s.passThrough_of_closed _ _ hopen]
    exact ⟨rfl, hopen, fun _ => rfl, by simp⟩

end Sequencer

/-- What is put in for the commands of a line: a note of each, unless a block is open. -/
def insertedAfter (earlier : List Command) (found : Option Command) : List Statement :=
  if History.InBlock earlier then [] else found.toList.map Command.note

theorem filter_isMotion_insertedAfter (earlier : List Command) (found : Option Command) :
    (insertedAfter earlier found).filter Statement.isMotion = [] := by
  unfold insertedAfter
  split
  · rfl
  · cases found with
    | none => rfl
    | some c => simp [c.isMotion_note]

theorem sequence_insert_aside (before after : List Command) {found : Option Command}
    (hfound : ∀ c ∈ found, c.role = .aside) :
    ∃ front back, sequence (before ++ after) = front ++ back ∧
      sequence (before ++ (found.toList ++ after)) =
        front ++ insertedAfter before found ++ back := by
  -- Both runs go on from the same sequencer, which has no statements yet.
  have hold := ((Sequencer.feedAll {} before).extends_forgotten.feedAll after).close.statements
  refine ⟨_, _, by rw [sequence, Sequencer.feedAll_append]; exact hold, ?_⟩
  have hopen := (History.tracks_feedAll before).isOpen
  cases found with
  | none =>
    rw [sequence, Option.toList_none, List.nil_append, Sequencer.feedAll_append, hold]
    simp [insertedAfter]
  | some c =>
    have hnew := (Sequencer.extends_feed_aside (Sequencer.feedAll {} before)
      (hfound c rfl)).feedAll after
    have hinserted : insertedAfter before (some c) =
        if (Sequencer.feedAll {} before).isOpen then [] else [c.note] := by
      simp only [insertedAfter, ← hopen]
      rfl
    rw [sequence, Option.toList_some, Sequencer.feedAll_append, hinserted]
    exact hnew.close.statements

namespace Listing

theorem ofSource_intercalate {lines : List String} (hlines : ∀ line ∈ lines, OneLine line) :
    ofSource ("\n".intercalate lines) = entriesOf 1 (lines.map String.toList) := by
  unfold ofSource
  rw [String.toList_intercalate]
  cases lines with
  | nil => rfl
  | cons line rest =>
    rw [show "\n".toList = ['\n'] from rfl, List.splitOn_intercalate]
    · intro piece hpiece
      obtain ⟨other, hother, rfl⟩ := List.mem_map.mp hpiece
      exact hlines other hother
    · simp

theorem entriesOf_insert (before after : List (List Char)) (line : List Char) :
    entriesOf 1 (before ++ line :: after) =
      entriesOf 1 before ++
        (((Command.ofLine? line).map (NumberedCommand.mk (1 + before.length))).toList ++
          (entriesOf (1 + before.length) after).map (NumberedCommand.later 1)) := by
  rw [entriesOf_append, entriesOf_cons, entriesOf_add]

theorem exists_lt_of_findSome?_entriesOf {number line found : Nat}
    {lines : List (List Char)}
    (h : (entriesOf number lines).findSome? NumberedCommand.rejection? = some (line, found)) :
    ∃ k < lines.length, line = number + k := by
  obtain ⟨entry, hmem, hentry⟩ := List.exists_of_findSome?_eq_some h
  obtain ⟨_, -, hpair⟩ := Option.map_eq_some_iff.mp hentry
  obtain ⟨k, piece, hpiece, hnumber, -⟩ := mem_entriesOf_iff.mp hmem
  cases hpair
  exact ⟨k, (List.getElem?_eq_some_iff.mp hpiece).1, hnumber⟩

end Listing

theorem lineRejection?_of_aside {line : String}
    (hline : ∀ c ∈ Command.ofLine? line.toList, c.role = .aside) : lineRejection? line = none := by
  unfold lineRejection?
  cases hcommand : Command.ofLine? line.toList with
  | none => rfl
  | some c => simp [hline c hcommand, Role.found?]

namespace Document

def ofLines (name : String) (lines : List String) : Document :=
  ⟨name, "\n".intercalate lines⟩

def commandsOf (lines : List String) : List Command :=
  lines.filterMap fun line => Command.ofLine? line.toList

theorem commands_ofLines {name : String} {lines : List String}
    (hlines : ∀ line ∈ lines, OneLine line) :
    (Listing.ofSource (ofLines name lines).source).map NumberedCommand.command =
      commandsOf lines := by
  unfold ofLines commandsOf
  rw [Listing.ofSource_intercalate hlines, Listing.map_command_entriesOf, List.filterMap_map]
  rfl

variable {line : String} {before after : List String}

theorem oneLine_of_insert (hlines : ∀ other ∈ before ++ line :: after, OneLine other) :
    ∀ other ∈ before ++ after, OneLine other := by
  intro other hother
  apply hlines other
  rcases List.mem_append.mp hother with hother | hother <;> simp [hother]

theorem rejection?_insert (name : String)
    (hlines : ∀ other ∈ before ++ line :: after, OneLine other)
    (hline : lineRejection? line = none) :
    (ofLines name (before ++ line :: after)).rejection? =
      (ofLines name (before ++ after)).rejection?.map fun rejected =>
        (if before.length < rejected.1 then rejected.1 + 1 else rejected.1, rejected.2) := by
  have hold := oneLine_of_insert hlines
  have hnone : ((Command.ofLine? line.toList).map
      (NumberedCommand.mk (1 + (before.map String.toList).length))).toList.findSome?
        NumberedCommand.rejection? = none := by
    unfold lineRejection? at hline
    cases hcommand : Command.ofLine? line.toList with
    | none => rfl
    | some c =>
      rw [hcommand] at hline
      simp [NumberedCommand.rejection?, show c.role.found? = none from hline]
  unfold rejection? ofLines
  rw [Listing.ofSource_intercalate hlines, Listing.ofSource_intercalate hold]
  rw [List.map_append, List.map_cons, Listing.entriesOf_insert, List.findSome?_append,
    List.findSome?_append, hnone, Option.none_or, NumberedCommand.findSome?_rejection?_later]
  rw [List.map_append, Listing.entriesOf_append, List.findSome?_append]
  cases hfront : (Listing.entriesOf 1 (before.map String.toList)).findSome?
      NumberedCommand.rejection? with
  | some rejected =>
    obtain ⟨k, hk, hnumber⟩ := Listing.exists_lt_of_findSome?_entriesOf hfront
    rw [List.length_map] at hk
    have hsame : ¬ before.length < rejected.1 := by omega
    simp [hsame]
  | none =>
    rw [Option.none_or, Option.none_or]
    apply Option.map_congr
    intro rejected hback
    obtain ⟨k, -, hnumber⟩ := Listing.exists_lt_of_findSome?_entriesOf hback
    rw [List.length_map] at hnumber
    rw [if_pos (by omega)]

theorem body_procedure_insert (index : Nat) (name : String)
    (hlines : ∀ other ∈ before ++ line :: after, OneLine other)
    (hline : ∀ c ∈ Command.ofLine? line.toList, c.role = .aside) :
    ∃ front back, ((ofLines name (before ++ after)).procedure index).body = front ++ back ∧
      ((ofLines name (before ++ line :: after)).procedure index).body =
        front ++ insertedAfter (commandsOf before) (Command.ofLine? line.toList) ++ back := by
  have hold := oneLine_of_insert hlines
  have hcommands : commandsOf (before ++ line :: after) =
      commandsOf before ++ ((Command.ofLine? line.toList).toList ++ commandsOf after) := by
    unfold commandsOf
    rw [List.filterMap_append, List.filterMap_cons]
    cases Command.ofLine? line.toList <;> rfl
  unfold procedure
  dsimp only
  rw [commands_ofLines hlines, commands_ofLines hold, hcommands, commandsOf, List.filterMap_append]
  exact sequence_insert_aside (commandsOf before) (commandsOf after) hline

/-- Lines that are not moves cannot change the motion. If a line without a command, or with a
command other than RAPID and GOTO, is put into a document, the statements stay as they are up to
a note of that command, which is there exactly if no press block is open at that place. A
document that fails still fails for the same reason; the line of its fault is one further
down if it lies behind the new line. -/
theorem translate_insert_line (index : Nat) (name line : String) (before after : List String)
    {found : Option Command} (hlines : ∀ other ∈ before ++ line :: after, OneLine other)
    (hfound : Command.parseLine .unlimited line = .ok found)
    (haside : ∀ c ∈ found, c.keyword ≠ "RAPID" ∧ c.keyword ≠ "GOTO") :
    (∀ ss, ((ofLines name (before ++ after)).translate .unlimited index).1 = .ok ss →
      ∃ front back inserted, ss = front ++ back ∧
        ((ofLines name (before ++ line :: after)).translate .unlimited index).1 =
          .ok (front ++ inserted ++ back) ∧
        (found = none → inserted = []) ∧
        (∀ c ∈ found,
          inserted = if History.InBlock (commandsOf before) then [] else [c.note]) ∧
        (front ++ inserted ++ back).filter Statement.isMotion =
          ss.filter Statement.isMotion) ∧
    ∀ fault, ((ofLines name (before ++ after)).translate .unlimited index).1 = .error fault →
      ((ofLines name (before ++ line :: after)).translate .unlimited index).1 =
        .error { fault with
          line := if before.length < fault.line then fault.line + 1 else fault.line } := by
  rw [Command.parseLine_unlimited] at hfound
  cases Except.ok.inj hfound
  have hrole : ∀ c ∈ Command.ofLine? line.toList, c.role = .aside :=
    fun c hc => Command.role_eq_aside (haside c hc).1 (haside c hc).2
  have hrejection := rejection?_insert name hlines (lineRejection?_of_aside hrole)
  constructor
  · intro ss hss
    obtain ⟨hnone, rfl⟩ := translate_eq_ok_iff.mp hss
    rw [hnone] at hrejection
    obtain ⟨front, back, hold, hnew⟩ := body_procedure_insert index name hlines hrole
    refine ⟨.procHeader ((ofLines name before).procName index) :: front, back ++ [.procFooter],
      insertedAfter (commandsOf before) (Command.ofLine? line.toList), ?_,
      translate_eq_ok_iff.mpr ⟨hrejection, ?_⟩, ?_, ?_, ?_⟩
    · rw [Procedure.statements, hold, List.cons_append, List.cons_append, List.append_assoc]
      rfl
    · rw [Procedure.statements, hnew]
      simp only [List.cons_append, List.append_assoc]
      rfl
    · intro hnone
      simp [hnone, insertedAfter]
    · intro c hc
      rw [Option.mem_def.mp hc]
      rfl
    · rw [Procedure.statements, hold]
      simp [filter_isMotion_insertedAfter, Statement.isMotion]
  · intro fault hfault
    obtain ⟨number, fields, hsome, rfl⟩ := translate_eq_error_iff.mp hfault
    rw [hsome] at hrejection
    exact translate_eq_error_iff.mpr ⟨_, fields, hrejection, rfl⟩

theorem translate_insert_line_feedRate :
    (∃ front back, ((ofLines "part.apt" ["FEDRAT/5", "GOTO/1,2,3,4,5,6"]).translate
        .unlimited 0).1 = .ok (front ++ [.directive "FEDRAT" (some "5")] ++ back)) ∧
      ((ofLines "part.apt" ["GOTO/1,2,3,4,5,6", "FEDRAT/5", "GOTO/1"]).translate
        .unlimited 0).1 = .error ⟨"part.apt", 3, .malformedMove 1⟩ := by
  have hfound : Command.parseLine .unlimited "FEDRAT/5" = .ok (some ⟨"FEDRAT", some "5"⟩) := by
    decide +kernel
  constructor
  · have hold : (ofLines "part.apt" ([] ++ ["GOTO/1,2,3,4,5,6"])).rejection? = none := by
      decide +kernel
    obtain ⟨front, back, inserted, -, hnew, -, hinserted, -⟩ :=
      (translate_insert_line 0 "part.apt" "FEDRAT/5" [] ["GOTO/1,2,3,4,5,6"] (by decide) hfound
        (by decide)).1 _ (translate_eq_ok_iff.mpr ⟨hold, rfl⟩)
    rw [hinserted _ rfl] at hnew
    exact ⟨front, back, hnew⟩
  · exact (translate_insert_line 0 "part.apt" "FEDRAT/5" ["GOTO/1,2,3,4,5,6"] ["GOTO/1"]
      (by decide) hfound (by decide)).2 ⟨"part.apt", 2, .malformedMove 1⟩ (by decide +kernel)

end Document
end PressPath
