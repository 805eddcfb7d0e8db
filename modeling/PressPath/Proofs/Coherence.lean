import PressPath.Proofs.PressBlocks

/-! How the fields of a sequencer hang together. A block is open exactly while there
are pending moves; these then end the path, after the start of their block, and the
last of them is where the path is. The last pose is that of the last accepted move, so
no block is ever closed for which there is no pose to end at. -/
namespace PressPath.Sequencer

/-! ## The last pose -/

@[simp] theorem close_lastPose (s : Sequencer) : s.close.lastPose = s.lastPose := by
  unfold close
  split
  · cases hlast : s.lastPose <;> simp [hlast, record, emit]
  · rfl

theorem moveTo_lastPose (s : Sequencer) (pose : Pose) : (s.moveTo pose).lastPose = some pose := by
  cases hmode : s.mode with
  | joint => rw [s.moveTo_of_joint pose hmode]
  | linear =>
    cases hopen : s.isOpen with
    | true => rw [s.moveTo_of_open pose hmode hopen]
    | false => rw [s.moveTo_of_closed pose hmode hopen]

theorem passThrough_lastPose (s : Sequencer) (keyword : String) (statement : Statement) :
    (s.passThrough keyword statement).lastPose = s.lastPose := by
  unfold passThrough
  split <;> rfl

theorem feed_lastPose (s : Sequencer) (c : Command) :
    (s.feed c).1.lastPose = c.role.target?.or s.lastPose := by
  cases hrole : c.role with
  | rapid =>
    rw [s.feed_rapid hrole]
    simp [Role.target?]
  | move pose =>
    rw [s.feed_move hrole]
    simp [moveTo_lastPose, Role.target?]
  | malformed found =>
    rw [s.feed_malformed hrole]
    rfl
  | aside =>
    rw [s.feed_aside hrole]
    simp [passThrough_lastPose, Role.target?]

theorem feedAll_lastPose (commands : List Command) :
    (feedAll {} commands).lastPose =
      (commands.filterMap fun c => c.role.target?).getLast? := by
  induction commands using List.reverseRecOn with
  | nil => rfl
  | append_singleton commands c ih =>
    rw [feedAll_concat, feed_lastPose, ih, List.filterMap_append, List.getLast?_append]
    cases hrole : c.role.target? <;> simp [hrole]

/-! ## The path only grows -/

theorem close_statements_prefix (s : Sequencer) :
    s.statements.toList <+: s.close.statements.toList := by
  unfold close
  split
  · cases s.lastPose <;> simp [record]
  · exact List.prefix_rfl

theorem moveTo_statements_prefix (s : Sequencer) (pose : Pose) :
    s.statements.toList <+: (s.moveTo pose).statements.toList := by
  cases hmode : s.mode with
  | joint => simp [s.moveTo_of_joint pose hmode]
  | linear =>
    cases hopen : s.isOpen with
    | true => simp [s.moveTo_of_open pose hmode hopen]
    | false => simp [s.moveTo_of_closed pose hmode hopen]

theorem passThrough_statements_prefix (s : Sequencer) (keyword : String) (statement : Statement) :
    s.statements.toList <+: (s.passThrough keyword statement).statements.toList := by
  unfold passThrough
  split
  · exact List.prefix_rfl
  · simp

theorem feed_statements_prefix (s : Sequencer) (c : Command) :
    s.statements.toList <+: (s.feed c).1.statements.toList := by
  cases hrole : c.role with
  | rapid =>
    rw [s.feed_rapid hrole]
    exact close_statements_prefix { s with mode := .joint }
  | move pose =>
    rw [s.feed_move hrole]
    exact s.moveTo_statements_prefix pose
  | malformed found => simp [s.feed_malformed hrole]
  | aside =>
    rw [s.feed_aside hrole]
    exact s.passThrough_statements_prefix _ _

/-! ## The open block -/

/-- A block is open with the given poses: its moves are the pending ones, the path ends in its
start and these moves, and its last pose is the last pose of all. -/
structure HasBlock (s : Sequencer) (first : Pose) (others : List Pose) : Prop where
  mode : s.mode = .linear
  pending : s.pending.toList = (first :: others).map .pressMove
  statements : .pressStart first :: s.pending.toList <:+ s.statements.toList
  lastPose : s.lastPose = (first :: others).getLast?

structure Coherent (s : Sequencer) (past : List Command) : Prop where
  isOpen_iff : s.isOpen = true ↔ s.pending ≠ #[]
  block : s.isOpen = true → ∃ first others, s.HasBlock first others
  lastPose : s.lastPose = (past.filterMap fun c => c.role.target?).getLast?

theorem Opened.hasBlock {s : Sequencer} {items : List Item} {first : Pose} {others : List Pose}
    (h : s.Opened items first others) : s.HasBlock first others where
  mode := h.mode
  pending := h.pending
  statements := by
    rw [h.statements, h.pending]
    exact List.suffix_append _ _
  lastPose := by rw [h.lastPose, List.getLast?_cons, List.getLastD_eq_getLast?]

theorem coherent_feedAll (commands : List Command) : (feedAll {} commands).Coherent commands := by
  have hlast := feedAll_lastPose commands
  rcases isLaidOut_feedAll commands with ⟨items, h⟩ | ⟨items, first, others, h⟩
  · refine ⟨by simp [h.isOpen, h.pending], ?_, hlast⟩
    intro hopen
    simp [h.isOpen] at hopen
  · refine ⟨?_, fun _ => ⟨first, others, h.hasBlock⟩, hlast⟩
    have hpending : (feedAll {} commands).pending ≠ #[] := by
      intro hnil
      simpa [hnil] using h.pending
    simp [h.isOpen, hpending]

theorem HasBlock.exists_last {s : Sequencer} {first : Pose} {others : List Pose}
    (h : s.HasBlock first others) :
    ∃ pose, s.lastPose = some pose ∧ s.pending.toList.getLast? = some (.pressMove pose) := by
  have hlast : (first :: others).getLast? = some (others.getLast?.getD first) := List.getLast?_cons
  refine ⟨others.getLast?.getD first, h.lastPose.trans hlast, ?_⟩
  rw [h.pending, List.getLast?_map, hlast]
  rfl

theorem close_statements_of_open (s : Sequencer) {pose : Pose} (hopen : s.isOpen = true)
    (hlast : s.lastPose = some pose) :
    s.close.statements.toList = s.statements.toList ++ [.pressEnd pose] := by
  simp [s.close_of_open hopen hlast]

/-- After any commands, rejected ones among them, the fields are coherent, and whatever comes next
only adds to the path. So an open block always has a pose to end at, and both ways of closing it,
the end of the commands and a RAPID, write that end. -/
theorem run_coherent (commands : List Command) :
    ∃ s, s = feedAll {} commands ∧
      s.Coherent commands ∧
      (∀ c, s.statements.toList <+: (s.feed c).1.statements.toList) ∧
      (s.isOpen = true → ∃ pose,
        s.lastPose = some pose ∧
        s.pending.toList.getLast? = some (.pressMove pose) ∧
        s.close.statements.toList = s.statements.toList ++ [.pressEnd pose] ∧
        ∀ c : Command, c.role = .rapid →
          (s.feed c).1.statements.toList = s.statements.toList ++ [.pressEnd pose]) ∧
      ¬ (s.isOpen = true ∧ s.lastPose = none) := by
  have hcoherent := coherent_feedAll commands
  have hpose : (feedAll {} commands).isOpen = true →
      ∃ pose, (feedAll {} commands).lastPose = some pose ∧
        (feedAll {} commands).pending.toList.getLast? = some (.pressMove pose) := by
    intro hopen
    obtain ⟨first, others, hblock⟩ := hcoherent.block hopen
    exact hblock.exists_last
  refine ⟨_, rfl, hcoherent, feed_statements_prefix _, ?_, ?_⟩
  · intro hopen
    obtain ⟨pose, hlast, hpending⟩ := hpose hopen
    refine ⟨pose, hlast, hpending, close_statements_of_open _ hopen hlast, ?_⟩
    intro c hrapid
    rw [feed_rapid _ hrapid]
    -- The mode has changed when the block is closed, which does not matter to its end.
    exact close_statements_of_open { feedAll {} commands with mode := .joint } hopen hlast
  · rintro ⟨hopen, hnone⟩
    obtain ⟨pose, hlast, -⟩ := hpose hopen
    simp [hlast] at hnone

def uneven : List Command :=
  [⟨"GOTO", some "1,2,3,4,5,6"⟩, ⟨"FEDRAT", some "500"⟩, ⟨"GOTO", some "2,2,3,4,5,6"⟩,
    ⟨"GOTO", some "9,9"⟩]

theorem run_coherent_uneven :
    (feedAll {} uneven).isOpen = true ∧
    (feedAll {} uneven).Coherent uneven ∧
    (feedAll {} uneven).close.statements.toList =
      (feedAll {} uneven).statements.toList ++ [.pressEnd ⟨"2", "2", "3", "4", "5", "6"⟩] := by
  have hopen : (feedAll {} uneven).isOpen = true := by decide +kernel
  have hlast : (feedAll {} uneven).lastPose = some ⟨"2", "2", "3", "4", "5", "6"⟩ := by
    decide +kernel
  obtain ⟨s, rfl, hcoherent, -, hclose, -⟩ := run_coherent uneven
  obtain ⟨pose, hpose, -, hend, -⟩ := hclose hopen
  cases Option.some.inj (hlast.symm.trans hpose)
  exact ⟨hopen, hcoherent, hend⟩

end PressPath.Sequencer
