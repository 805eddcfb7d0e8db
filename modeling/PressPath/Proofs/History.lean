import PressPath.Proofs.Feeding
import Mathlib.Data.List.Basic
import Mathlib.Data.List.Induction

/-! The output of a sequence of commands, told from the commands alone. What a
command gives depends on the commands before it and on no state; the statements
that only bracket a press block are left out. The sequencer's mode and its open
flag are two facts about the past. -/
namespace PressPath

def Statement.isBracket : Statement → Bool
  | pressStart _ | pressEnd _ => true
  | _ => false

def Statement.target? : Statement → Option Pose
  | jointMove pose | pressMove pose => some pose
  | _ => none

def withoutBrackets (statements : List Statement) : List Statement :=
  statements.filter fun statement => !statement.isBracket

@[simp] theorem withoutBrackets_append (first second : List Statement) :
    withoutBrackets (first ++ second) = withoutBrackets first ++ withoutBrackets second :=
  List.filter_append first second

theorem filterMap_target?_withoutBrackets (statements : List Statement) :
    (withoutBrackets statements).filterMap Statement.target? =
      statements.filterMap Statement.target? := by
  unfold withoutBrackets
  rw [List.filterMap_filter]
  congr 1
  funext statement
  cases statement <;> rfl

namespace History

/-- The latest command that steers the path: a RAPID or an accepted move. -/
def latestTurn? (earlier : List Command) : Option Role :=
  (earlier.reverse.map Command.role).find? Role.steers

def FollowsRapid (earlier : List Command) : Prop :=
  latestTurn? earlier = some .rapid

instance (earlier : List Command) : Decidable (FollowsRapid earlier) :=
  inferInstanceAs (Decidable (_ = _))

/-- Some accepted move did not follow a RAPID, and no RAPID has come since. -/
def InBlock (earlier : List Command) : Prop :=
  ∃ before move after pose, earlier = before ++ move :: after ∧ move.role = .move pose ∧
    ¬ FollowsRapid before ∧ ∀ c ∈ after, c.role ≠ .rapid

theorem latestTurn?_concat (earlier : List Command) (c : Command) :
    latestTurn? (earlier ++ [c]) = if c.role.steers then some c.role else latestTurn? earlier := by
  unfold latestTurn?
  rw [List.reverse_append, List.reverse_singleton, List.singleton_append, List.map_cons,
    List.find?_cons]
  cases c.role.steers <;> rfl

@[simp] theorem not_followsRapid_nil : ¬ FollowsRapid [] := by
  simp [FollowsRapid, latestTurn?]

theorem followsRapid_concat (earlier : List Command) (c : Command) :
    FollowsRapid (earlier ++ [c]) ↔
      c.role = .rapid ∨ c.role.steers = false ∧ FollowsRapid earlier := by
  unfold FollowsRapid
  rw [latestTurn?_concat]
  cases c.role <;> simp [Role.steers]

theorem followsRapid_of_rapid (before middle : List Command) {c : Command}
    (hrapid : c.role = .rapid) (hmiddle : ∀ d ∈ middle, d.role.target? = none) :
    FollowsRapid (before ++ c :: middle) := by
  induction middle using List.reverseRecOn with
  | nil => simp [followsRapid_concat, hrapid]
  | append_singleton middle d ih =>
    have hd : d.role.target? = none := hmiddle d (by simp)
    have hbefore := ih fun e he => hmiddle e (by simp [he])
    rw [← List.cons_append, ← List.append_assoc, followsRapid_concat]
    cases hrole : d.role with
    | rapid => exact .inl rfl
    | move pose => simp [hrole, Role.target?] at hd
    | malformed found => exact .inr ⟨rfl, hbefore⟩
    | aside => exact .inr ⟨rfl, hbefore⟩

theorem not_followsRapid_of_move (before middle : List Command) {c : Command} {pose : Pose}
    (hmove : c.role = .move pose) (hmiddle : ∀ d ∈ middle, d.role ≠ .rapid) :
    ¬ FollowsRapid (before ++ c :: middle) := by
  induction middle using List.reverseRecOn with
  | nil => simp [followsRapid_concat, hmove, Role.steers]
  | append_singleton middle d ih =>
    have hd : d.role ≠ .rapid := hmiddle d (by simp)
    have hbefore := ih fun e he => hmiddle e (by simp [he])
    rw [← List.cons_append, ← List.append_assoc, followsRapid_concat]
    simp [hd, hbefore]

@[simp] theorem not_inBlock_nil : ¬ InBlock [] := by
  simp [InBlock]

theorem inBlock_concat (earlier : List Command) (c : Command) :
    InBlock (earlier ++ [c]) ↔
      c.role ≠ .rapid ∧
        ((∃ pose, c.role = .move pose) ∧ ¬ FollowsRapid earlier ∨ InBlock earlier) := by
  constructor
  · rintro ⟨before, move, after, pose, heq, hmove, hfollows, hafter⟩
    rcases List.eq_nil_or_concat after with rfl | ⟨front, last, rfl⟩
    · obtain ⟨rfl, rfl⟩ := List.append_singleton_inj.mp heq
      exact ⟨by simp [hmove], .inl ⟨⟨pose, hmove⟩, hfollows⟩⟩
    · rw [List.concat_eq_append, ← List.cons_append, ← List.append_assoc] at heq
      obtain ⟨rfl, rfl⟩ := List.append_singleton_inj.mp heq
      refine ⟨hafter c (by simp), .inr ⟨before, move, front, pose, rfl, hmove, hfollows, ?_⟩⟩
      intro d hd
      exact hafter d (by simp [hd])
  · rintro ⟨hrapid, ⟨⟨pose, hmove⟩, hfollows⟩ | ⟨before, move, after, pose, rfl, hmove, hfollows, hafter⟩⟩
    · exact ⟨earlier, c, [], pose, rfl, hmove, hfollows, by simp⟩
    · refine ⟨before, move, after ++ [c], pose, by simp, hmove, hfollows, ?_⟩
      intro d hd
      rcases List.mem_append.mp hd with hd | hd
      · exact hafter d hd
      · rw [List.mem_singleton.mp hd]
        exact hrapid

/-- A test for an open block, on the past with the latest command first. -/
def pressing : List Command → Bool
  | [] => false
  | c :: before =>
    match c.role with
    | .rapid => false
    | .move _ => !decide (FollowsRapid before.reverse) || pressing before
    | .malformed _ | .aside => pressing before

theorem pressing_reverse_iff (earlier : List Command) :
    pressing earlier.reverse = true ↔ InBlock earlier := by
  induction earlier using List.reverseRecOn with
  | nil => simp [pressing]
  | append_singleton earlier c ih =>
    rw [List.reverse_append, List.reverse_singleton, List.singleton_append, inBlock_concat, ← ih,
      pressing, List.reverse_reverse]
    cases c.role <;> simp

instance (earlier : List Command) : Decidable (InBlock earlier) :=
  decidable_of_iff _ (pressing_reverse_iff earlier)

def outputAfter (earlier : List Command) (c : Command) : List Statement :=
  match c.role with
  | .rapid | .malformed _ => []
  | .move pose => if FollowsRapid earlier then [.jointMove pose] else [.pressMove pose]
  | .aside => if InBlock earlier then [] else [c.note]

def output (commands : List Command) : List Statement :=
  commands.zipIdx.flatMap fun (c, i) => outputAfter (commands.take i) c

theorem output_concat (commands : List Command) (c : Command) :
    output (commands ++ [c]) = output commands ++ outputAfter commands c := by
  unfold output
  rw [List.zipIdx_append, List.flatMap_append]
  congr 1
  · apply List.flatMap_congr
    rintro ⟨d, i⟩ hmem
    have hlt : i < commands.length := by
      simpa using List.snd_lt_of_mem_zipIdx hmem
    dsimp only
    rw [List.take_append_of_le_length (Nat.le_of_lt hlt)]
  · simp

theorem eq_of_mem_outputAfter {earlier : List Command} {c : Command} {statement : Statement}
    (h : statement ∈ outputAfter earlier c) :
    statement = c.note ∨
      ∃ pose, c.role = .move pose ∧ (statement = .jointMove pose ∨ statement = .pressMove pose) := by
  unfold outputAfter at h
  cases hrole : c.role with
  | rapid => simp [hrole] at h
  | malformed found => simp [hrole] at h
  | move pose =>
    rw [hrole] at h
    dsimp only at h
    split at h
    · exact .inr ⟨pose, rfl, .inl (List.mem_singleton.mp h)⟩
    · exact .inr ⟨pose, rfl, .inr (List.mem_singleton.mp h)⟩
  | aside =>
    rw [hrole] at h
    dsimp only at h
    split at h
    · simp at h
    · exact .inl (List.mem_singleton.mp h)

theorem exists_command_of_mem_output {commands : List Command} {statement : Statement}
    (h : statement ∈ output commands) :
    ∃ c ∈ commands, statement = c.note ∨
      ∃ pose, c.role = .move pose ∧ (statement = .jointMove pose ∨ statement = .pressMove pose) := by
  obtain ⟨⟨c, i⟩, hmem, hstatement⟩ := List.mem_flatMap.mp h
  exact ⟨c, List.fst_mem_of_mem_zipIdx hmem, eq_of_mem_outputAfter hstatement⟩

theorem filterMap_target?_output (commands : List Command) :
    (output commands).filterMap Statement.target? =
      commands.filterMap fun c => c.role.target? := by
  induction commands using List.reverseRecOn with
  | nil => rfl
  | append_singleton commands c ih =>
    rw [output_concat, List.filterMap_append, List.filterMap_append, ih]
    congr 1
    unfold outputAfter Command.note
    cases hrole : c.role with
    | rapid => simp [hrole, Role.target?]
    | malformed found => simp [hrole, Role.target?]
    | move pose =>
      dsimp only
      split <;> simp [hrole, Role.target?, Statement.target?]
    | aside =>
      dsimp only
      split
      · simp [hrole, Role.target?]
      · split <;> simp [hrole, Role.target?, Statement.target?]

/-- How the state of a sequencer reads as a past. -/
structure Tracks (s : Sequencer) (past : List Command) : Prop where
  mode : s.mode = .joint ↔ FollowsRapid past
  isOpen : s.isOpen = true ↔ InBlock past
  output : withoutBrackets s.statements.toList = output past

theorem tracks_init : Tracks {} [] where
  mode := by simp
  isOpen := by simp
  output := rfl

theorem withoutBrackets_close (s : Sequencer) :
    withoutBrackets s.close.statements.toList = withoutBrackets s.statements.toList := by
  unfold Sequencer.close
  split
  · cases s.lastPose with
    | none => rfl
    | some pose => simp [Sequencer.record, Sequencer.emit, withoutBrackets, Statement.isBracket]
  · rfl

theorem withoutBrackets_note (c : Command) : withoutBrackets [c.note] = [c.note] := by
  unfold Command.note
  split <;> rfl

theorem Tracks.rapid {s : Sequencer} {past : List Command} {c : Command} (h : Tracks s past)
    (hrole : c.role = .rapid) :
    Tracks ({ s with mode := .joint } : Sequencer).close (past ++ [c]) where
  mode := by simp [followsRapid_concat, hrole]
  isOpen := by simp [inBlock_concat, hrole]
  output := by
    rw [withoutBrackets_close, output_concat, ← h.output]
    simp [outputAfter, hrole]

theorem Tracks.move {s : Sequencer} {past : List Command} {c : Command} {pose : Pose}
    (h : Tracks s past) (hrole : c.role = .move pose) :
    Tracks (s.moveTo pose) (past ++ [c]) := by
  have hblock : InBlock (past ++ [c]) ↔ ¬ FollowsRapid past ∨ InBlock past := by
    simp [inBlock_concat, hrole]
  have hturn : ¬ FollowsRapid (past ++ [c]) := by
    simp [followsRapid_concat, hrole, Role.steers]
  cases hmode : s.mode with
  | joint =>
    have hfollows : FollowsRapid past := h.mode.mp hmode
    rw [s.moveTo_of_joint pose hmode]
    refine ⟨by simp [hturn], ?_, ?_⟩
    · rw [hblock, ← h.isOpen]
      simp [hfollows]
    · rw [output_concat, ← h.output, outputAfter, hrole]
      simp [hfollows, withoutBrackets, Statement.isBracket]
  | linear =>
    have hfollows : ¬ FollowsRapid past := by simp [← h.mode, hmode]
    cases hopen : s.isOpen with
    | false =>
      rw [s.moveTo_of_closed pose hmode hopen]
      refine ⟨by simp [hturn, hmode], by simp [hblock, hfollows], ?_⟩
      rw [output_concat, ← h.output, outputAfter, hrole]
      simp [hfollows, withoutBrackets, Statement.isBracket]
    | true =>
      rw [s.moveTo_of_open pose hmode hopen]
      refine ⟨by simp [hturn, hmode], by simp [hblock, hfollows, hopen], ?_⟩
      rw [output_concat, ← h.output, outputAfter, hrole]
      simp [hfollows, withoutBrackets, Statement.isBracket]

theorem Tracks.malformed {s : Sequencer} {past : List Command} {c : Command} {found : Nat}
    (h : Tracks s past) (hrole : c.role = .malformed found) : Tracks s (past ++ [c]) where
  mode := by rw [h.mode, followsRapid_concat]; simp [hrole, Role.steers]
  isOpen := by rw [h.isOpen, inBlock_concat]; simp [hrole]
  output := by rw [h.output, output_concat]; simp [outputAfter, hrole]

theorem Tracks.aside {s : Sequencer} {past : List Command} {c : Command} (h : Tracks s past)
    (hrole : c.role = .aside) : Tracks (s.passThrough c.keyword c.note) (past ++ [c]) := by
  have hturn : FollowsRapid (past ++ [c]) ↔ FollowsRapid past := by
    simp [followsRapid_concat, hrole, Role.steers]
  have hblock : InBlock (past ++ [c]) ↔ InBlock past := by
    simp [inBlock_concat, hrole]
  cases hopen : s.isOpen with
  | true =>
    have hin : InBlock past := h.isOpen.mp hopen
    rw [s.passThrough_of_open _ _ hopen]
    refine ⟨h.mode.trans hturn.symm, h.isOpen.trans hblock.symm, ?_⟩
    rw [output_concat, ← h.output, outputAfter, hrole]
    simp [hin]
  | false =>
    have hout : ¬ InBlock past := by simp [← h.isOpen, hopen]
    rw [s.passThrough_of_closed _ _ hopen]
    refine ⟨h.mode.trans hturn.symm, h.isOpen.trans hblock.symm, ?_⟩
    rw [output_concat, ← h.output, outputAfter, hrole]
    simp [hout, withoutBrackets_note]

theorem Tracks.feed {s : Sequencer} {past : List Command} (h : Tracks s past) (c : Command) :
    Tracks (s.feed c).1 (past ++ [c]) := by
  cases hrole : c.role with
  | rapid =>
    rw [s.feed_rapid hrole]
    exact h.rapid hrole
  | move pose =>
    rw [s.feed_move hrole]
    exact h.move hrole
  | malformed found =>
    rw [s.feed_malformed hrole]
    exact h.malformed hrole
  | aside =>
    rw [s.feed_aside hrole]
    exact h.aside hrole

theorem tracks_feedAll (commands : List Command) :
    Tracks (Sequencer.feedAll {} commands) commands := by
  induction commands using List.reverseRecOn with
  | nil => exact tracks_init
  | append_singleton commands c ih =>
    rw [Sequencer.feedAll_concat]
    exact ih.feed c

theorem withoutBrackets_sequence (commands : List Command) :
    withoutBrackets (sequence commands) = output commands := by
  unfold sequence
  rw [withoutBrackets_close]
  exact (tracks_feedAll commands).output

theorem filterMap_target?_sequence (commands : List Command) :
    (sequence commands).filterMap Statement.target? =
      commands.filterMap fun c => c.role.target? := by
  rw [← filterMap_target?_withoutBrackets, withoutBrackets_sequence, filterMap_target?_output]

/-- The sequencer gives what the past of each command calls for, apart from the brackets of
press blocks. So the accepted moves come out once each and in order, and a RAPID turns the
next accepted move into a joint move and no other. -/
theorem sequence_withoutBrackets (commands : List Command) :
    withoutBrackets (sequence commands) = output commands ∧
    (sequence commands).filterMap Statement.target? =
      (commands.filterMap fun c => c.role.target?) ∧
    (∀ (before middle : List Command) (rapid move : Command) (pose : Pose),
      rapid.role = .rapid → (∀ c ∈ middle, c.role.target? = none) → move.role = .move pose →
        outputAfter (before ++ rapid :: middle) move = [.jointMove pose]) ∧
    (∀ (before middle : List Command) (last move : Command) (lastPose pose : Pose),
      last.role = .move lastPose → (∀ c ∈ middle, c.role ≠ .rapid) → move.role = .move pose →
        outputAfter (before ++ last :: middle) move = [.pressMove pose]) := by
  refine ⟨withoutBrackets_sequence commands, filterMap_target?_sequence commands, ?_, ?_⟩
  · intro before middle rapid move pose hrapid hmiddle hmove
    have hfollows := followsRapid_of_rapid before middle hrapid hmiddle
    simp [outputAfter, hmove, hfollows]
  · intro before middle last move lastPose pose hlast hmiddle hmove
    have hfollows := not_followsRapid_of_move before middle hlast hmiddle
    simp [outputAfter, hmove, hfollows]

example : output [⟨"FEDRAT", some "5"⟩, ⟨"RAPID", none⟩, ⟨"GOTO", some "1,2"⟩, ⟨"END", none⟩,
    ⟨"GOTO", some "1,2,3,4,5,6"⟩, ⟨"GOTO", some "2,2,3,4,5,6"⟩, ⟨"END", none⟩] =
    [.directive "FEDRAT" (some "5"), .remark "END" none,
      .jointMove ⟨"1", "2", "3", "4", "5", "6"⟩, .pressMove ⟨"2", "2", "3", "4", "5", "6"⟩] := by
  decide +kernel

end History
end PressPath
