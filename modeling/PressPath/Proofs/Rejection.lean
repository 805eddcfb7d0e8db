import PressPath.Proofs.Location

/-! Rejected commands. A command is rejected for what it says, whatever the sequencer
has seen, and the sequencer is left as it was. So rejected commands can be taken out of
any sequence: the others lead through the same states, and to the same statements. -/
namespace PressPath

def Command.IsRejected (c : Command) : Prop :=
  c.keyword = "GOTO" ∧ ∃ number, Pose.ofArgument (c.argument.getD "") = .error number

namespace Command

theorem isRejected_iff_found? {c : Command} :
    c.IsRejected ↔ ∃ number, c.role.found? = some number := by
  unfold IsRejected
  rw [← exists_and_left]
  apply exists_congr
  intro number
  exact found?_role_eq_some.symm

instance : DecidablePred IsRejected := fun _ =>
  decidable_of_iff _ (Option.isSome_iff_exists.trans isRejected_iff_found?.symm)

def accepted (commands : List Command) : List Command :=
  commands.filter fun c => !decide c.IsRejected

theorem accepted_cons_of_isRejected {c : Command} (h : c.IsRejected) (rest : List Command) :
    accepted (c :: rest) = accepted rest :=
  List.filter_cons_of_neg (by simp [h])

theorem accepted_cons_of_not_isRejected {c : Command} (h : ¬ c.IsRejected) (rest : List Command) :
    accepted (c :: rest) = c :: accepted rest :=
  List.filter_cons_of_pos (by simp [h])

end Command

namespace Sequencer
open Command

theorem feed_isSome_iff {s : Sequencer} {c : Command} :
    (s.feed c).2.isSome = true ↔ c.IsRejected := by
  rw [feed_snd, Option.isSome_iff_exists]
  exact isRejected_iff_found?.symm

theorem feed_of_isRejected (s : Sequencer) {c : Command} (h : c.IsRejected) :
    (s.feed c).1 = s := by
  obtain ⟨number, hnumber⟩ := isRejected_iff_found?.mp h
  cases hrole : c.role with
  | malformed found => rw [s.feed_malformed hrole]
  | rapid => simp [hrole, Role.found?] at hnumber
  | move pose => simp [hrole, Role.found?] at hnumber
  | aside => simp [hrole, Role.found?] at hnumber

/-- The states that a sequencer goes through, each with the command that led to it. -/
def visits (s : Sequencer) : List Command → List (Command × Sequencer)
  | [] => []
  | c :: rest => (c, (s.feed c).1) :: (s.feed c).1.visits rest

theorem filter_visits (s : Sequencer) (commands : List Command) :
    (s.visits commands).filter (fun visit => !decide visit.1.IsRejected) =
      s.visits (accepted commands) := by
  induction commands generalizing s with
  | nil => rfl
  | cons c rest ih =>
    rw [visits]
    by_cases hrejected : c.IsRejected
    · rw [List.filter_cons_of_neg (by simp [hrejected]), accepted_cons_of_isRejected hrejected,
        s.feed_of_isRejected hrejected]
      exact ih s
    · rw [List.filter_cons_of_pos (by simp [hrejected]),
        accepted_cons_of_not_isRejected hrejected, visits, ih]

theorem feedAll_accepted (s : Sequencer) (commands : List Command) :
    s.feedAll (accepted commands) = s.feedAll commands := by
  induction commands generalizing s with
  | nil => rfl
  | cons c rest ih =>
    change _ = (s.feed c).1.feedAll rest
    by_cases hrejected : c.IsRejected
    · rw [accepted_cons_of_isRejected hrejected, s.feed_of_isRejected hrejected, ih]
    · rw [accepted_cons_of_not_isRejected hrejected]
      exact ih (s.feed c).1

/-- Whether a command is rejected depends on the command alone, and a rejected command changes
nothing at all. So from any state the other commands of a sequence lead through the same states
as they do without the rejected ones, and a path is that of its accepted commands. -/
theorem rejected_without_trace (s : Sequencer) (commands : List Command) :
    (∀ c : Command,
      ((s.feed c).2.isSome = true ↔ c.IsRejected) ∧
      (∀ number, (s.feed c).2 = some number ↔
        c.keyword = "GOTO" ∧ Pose.ofArgument (c.argument.getD "") = .error number) ∧
      (c.IsRejected → (s.feed c).1 = s)) ∧
    (s.visits commands).filter (fun visit => !decide visit.1.IsRejected) =
      s.visits (accepted commands) ∧
    (∀ n, s.feedAll (commands.take n) = s.feedAll (accepted (commands.take n))) ∧
    sequence commands = sequence (accepted commands) := by
  refine ⟨?_, s.filter_visits commands, ?_, ?_⟩
  · intro c
    exact ⟨feed_isSome_iff, fun number => feed_eq_some_iff, s.feed_of_isRejected⟩
  · intro n
    exact (s.feedAll_accepted (commands.take n)).symm
  · unfold sequence
    rw [feedAll_accepted]

def interrupted : List Command :=
  [⟨"RAPID", none⟩, ⟨"GOTO", some "1,2"⟩, ⟨"GOTO", some "1,2,3,4,5,6"⟩, ⟨"GOTO", none⟩,
    ⟨"GOTO", some "2,2,3,4,5,6"⟩, ⟨"GOTO", some "9,9,9,9,9,9,9"⟩, ⟨"RAPID", none⟩]

theorem rejected_without_trace_interrupted :
    IsRejected ⟨"GOTO", some "1,2"⟩ ∧
    (feed { mode := .joint } ⟨"GOTO", some "1,2"⟩).1 = { mode := .joint } ∧
    sequence interrupted = sequence (accepted interrupted) ∧
    sequence interrupted =
      [.jointMove ⟨"1", "2", "3", "4", "5", "6"⟩, .pressStart ⟨"2", "2", "3", "4", "5", "6"⟩,
        .pressMove ⟨"2", "2", "3", "4", "5", "6"⟩, .pressEnd ⟨"2", "2", "3", "4", "5", "6"⟩] := by
  have hrejected : IsRejected ⟨"GOTO", some "1,2"⟩ := ⟨rfl, 2, by decide +kernel⟩
  refine ⟨hrejected, ?_, ?_, by decide +kernel⟩
  · exact ((rejected_without_trace { mode := .joint } []).1 _).2.2 hrejected
  · exact (rejected_without_trace {} interrupted).2.2.2

end Sequencer
end PressPath
