import PressPath.Proofs.OneLine
import PressPath.Proofs.Pieces
import PressPath.Proofs.PressBlocks

/-! Legible statements. All text in the body of a procedure is cut out of lines of
the source, and pose fields are cut at commas besides; so a statement of a body
fits on one line and its pose fields can be told apart. -/
namespace PressPath
open Grammar Text

def Pose.Legible (p : Pose) : Prop :=
  ∀ field ∈ p.fields, ',' ∉ field.toList ∧ OneLine field

theorem Pose.fields_of_ofArgument {argument : String} {pose : Pose}
    (h : ofArgument argument = .ok pose) : pose.fields = pieces argument := by
  unfold ofArgument at h
  split at h
  · next x y z q1 q2 q3 hpieces =>
    split at h
    · cases Except.ok.inj h
      exact hpieces.symm
    · cases h
  · cases h

theorem Pose.legible_of_ofArgument {argument : String} {pose : Pose}
    (hargument : OneLine argument) (h : ofArgument argument = .ok pose) : pose.Legible := by
  intro field hfield
  rw [fields_of_ofArgument h] at hfield
  obtain ⟨piece, hpiece, rfl⟩ := List.mem_map.mp hfield
  rw [String.toList_ofList, oneLine_ofList]
  constructor
  · intro hcomma
    exact (mem_of_mem_splitOn hpiece (mem_of_mem_trimChars hcomma)).2 rfl
  · intro hnewline
    exact hargument (mem_of_mem_splitOn hpiece (mem_of_mem_trimChars hnewline)).1

def Statement.Legible : Statement → Prop
  | jointMove pose | pressStart pose | pressMove pose | pressEnd pose => pose.Legible
  | directive keyword value => keyword = "FEDRAT" ∧ ∀ text ∈ value, OneLine text
  | remark keyword value => OneLine keyword ∧ ∀ text ∈ value, OneLine text
  | moduleHeader _ | procHeader _ | procFooter | moduleFooter => False

theorem Command.OneLine.legible_note {c : Command} (h : c.OneLine) : c.note.Legible := by
  unfold note
  split
  · next hkeyword => exact ⟨hkeyword, h.2⟩
  · exact h

theorem Command.OneLine.legible_target {c : Command} {pose : Pose} (h : c.OneLine)
    (hrole : c.role = .move pose) : pose.Legible := by
  apply Pose.legible_of_ofArgument _ (ofArgument_of_role hrole)
  cases hargument : c.argument with
  | none => decide
  | some argument => exact h.2 argument hargument

theorem Role.eq_move_of_target? {role : Role} {pose : Pose} (h : role.target? = some pose) :
    role = .move pose := by
  cases role with
  | move target => rw [Option.some.inj h]
  | _ => cases h

theorem Item.exists_pose_of_isBracket {item : Item} {statement : Statement}
    (hmem : statement ∈ item.statements) (hbracket : statement.isBracket = true) :
    ∃ pose ∈ item.poses, statement = .pressStart pose ∨ statement = .pressEnd pose := by
  cases item with
  | block first others =>
    simp only [statements, unfinished, List.mem_append, List.mem_cons, List.mem_map,
      List.not_mem_nil, or_false] at hmem
    rcases hmem with (rfl | ⟨pose, -, rfl⟩) | rfl
    · exact ⟨first, by simp [poses], .inl rfl⟩
    · cases hbracket
    · exact ⟨others.getLastD first, List.getLastD_mem_cons, .inr rfl⟩
  | _ =>
    simp only [statements, List.mem_singleton] at hmem
    subst hmem
    cases hbracket

theorem legible_of_mem_sequence {commands : List Command} (h : ∀ c ∈ commands, c.OneLine)
    {statement : Statement} (hmem : statement ∈ sequence commands) : statement.Legible := by
  -- brackets are no part of the output; their poses are among those of the items
  cases hbracket : statement.isBracket with
  | true =>
    obtain ⟨items, hitems, -⟩ := exists_items_sequence commands
    rw [hitems] at hmem
    obtain ⟨item, hitem, hstatement⟩ := List.mem_flatMap.mp hmem
    obtain ⟨pose, hpose, hform⟩ := Item.exists_pose_of_isBracket hstatement hbracket
    have htarget : pose ∈ commands.filterMap fun c => c.role.target? := by
      rw [← flatMap_poses_of_sequence hitems]
      exact List.mem_flatMap.mpr ⟨item, hitem, hpose⟩
    obtain ⟨c, hc, hrole⟩ := List.mem_filterMap.mp htarget
    have hlegible := (h c hc).legible_target (Role.eq_move_of_target? hrole)
    rcases hform with rfl | rfl
    · exact hlegible
    · exact hlegible
  | false =>
    have houtput : statement ∈ History.output commands := by
      rw [← History.withoutBrackets_sequence]
      exact List.mem_filter.mpr ⟨hmem, by simp [hbracket]⟩
    obtain ⟨c, hc, rfl | ⟨pose, hrole, hform⟩⟩ := History.exists_command_of_mem_output houtput
    · exact (h c hc).legible_note
    · have hlegible := (h c hc).legible_target hrole
      rcases hform with rfl | rfl
      · exact hlegible
      · exact hlegible

end PressPath
