import PressPath.Proofs.Insertion
import PressPath.Proofs.PressBlocks

/-! What the journal accounts for. The commands of a run fall into stretches: all the
commands of one press block, or one command outside of every block. Each block has its
own group of records, which tells where it opened, what it dropped and how many moves
it had; nothing else is recorded, and a command that is not about moving is either
dropped on record or noted in the path. -/
namespace PressPath

def Statement.isPressMove : Statement → Bool
  | pressMove _ => true
  | _ => false

/-- The commands of one block: the move that opens it, and those that follow before a RAPID. -/
structure BlockSpan where
  opening : Command
  first : Pose
  inside : List Command
  opens : opening.role = .move first
  stays : ∀ c ∈ inside, c.role ≠ .rapid

namespace BlockSpan

def others (span : BlockSpan) : List Pose :=
  span.inside.filterMap fun c => c.role.target?

def dropped (span : BlockSpan) : List Command :=
  span.inside.filter fun c => decide (c.role = .aside)

def item (span : BlockSpan) : Item := .block span.first span.others

def openEvents (span : BlockSpan) : List Event :=
  .blockOpened span.first :: span.dropped.map fun c => .commandDropped c.keyword

def events (span : BlockSpan) : List Event :=
  span.openEvents ++ [.blockClosed (span.item.statements.countP Statement.isPressMove)]

def records (span : BlockSpan) : List (Level × String) :=
  (.debug, "opening press block at " ++ span.first.render) ::
    span.dropped.map (fun c => (.debug, "dropping " ++ c.keyword ++ " inside press block")) ++
    [(.debug, "closing press block after " ++
      Nat.repr (span.item.statements.countP Statement.isPressMove) ++ " moves")]

def start (opening : Command) (first : Pose) (opens : opening.role = .move first) : BlockSpan :=
  ⟨opening, first, [], opens, by simp⟩

def extend (span : BlockSpan) (c : Command) (hc : c.role ≠ .rapid) : BlockSpan where
  opening := span.opening
  first := span.first
  inside := span.inside ++ [c]
  opens := span.opens
  stays := by
    intro d hd
    rcases List.mem_append.mp hd with hd | hd
    · exact span.stays d hd
    · rw [List.mem_singleton.mp hd]
      exact hc

theorem countP_item (span : BlockSpan) :
    span.item.statements.countP Statement.isPressMove = span.others.length + 1 := by
  have hmoves : (span.others.map Statement.pressMove).countP Statement.isPressMove =
      span.others.length := by
    rw [List.countP_map, List.countP_eq_length]
    intro pose _
    rfl
  simp [item, Item.statements, Item.unfinished, List.countP_cons, Statement.isPressMove, hmoves]

theorem map_events (span : BlockSpan) :
    span.events.map (fun event => (event.level, event.message)) = span.records := by
  unfold events openEvents records
  rw [List.map_append, List.map_cons, List.map_map]
  rfl

variable (span : BlockSpan) {c : Command} {hc : c.role ≠ .rapid}

theorem others_extend_move {pose : Pose} (hrole : c.role = .move pose) :
    (span.extend c hc).others = span.others ++ [pose] := by
  simp [others, extend, hrole, Role.target?]

theorem others_extend_of_target? (hrole : c.role.target? = none) :
    (span.extend c hc).others = span.others := by
  simp [others, extend, hrole]

theorem openEvents_extend_aside (hrole : c.role = .aside) :
    (span.extend c hc).openEvents = span.openEvents ++ [.commandDropped c.keyword] := by
  simp [openEvents, dropped, extend, hrole]

theorem openEvents_extend_of_ne (hrole : c.role ≠ .aside) :
    (span.extend c hc).openEvents = span.openEvents := by
  simp [openEvents, dropped, extend, hrole]

end BlockSpan

inductive Stretch where
  | lone (c : Command)
  | block (span : BlockSpan)

namespace Stretch

def commands : Stretch → List Command
  | lone c => [c]
  | block span => span.opening :: span.inside

/-- What comes out for a stretch. A move outside of every block is a joint move. -/
def item? : Stretch → Option Item
  | lone c =>
    match c.role with
    | .rapid | .malformed _ => none
    | .move pose => some (.joint pose)
    | .aside => some c.noteItem
  | block span => some span.item

def statements (stretch : Stretch) : List Statement :=
  stretch.item?.toList.flatMap Item.statements

def events : Stretch → List Event
  | lone _ => []
  | block span => span.events

def records : Stretch → List (Level × String)
  | lone _ => []
  | block span => span.records

theorem map_events (stretch : Stretch) :
    stretch.events.map (fun event => (event.level, event.message)) = stretch.records := by
  cases stretch with
  | lone c => rfl
  | block span => exact span.map_events

theorem flatMap_statements (stretches : List Stretch) :
    stretches.flatMap statements = (stretches.filterMap item?).flatMap Item.statements := by
  induction stretches with
  | nil => rfl
  | cons stretch rest ih =>
    rw [List.flatMap_cons, ih, statements, List.filterMap_cons]
    cases stretch.item? <;> simp

end Stretch

namespace Sequencer

/-- No block is open, and the stretches account for all commands, statements and events. -/
structure Settled (s : Sequencer) (past : List Command) (stretches : List Stretch) : Prop
    extends s.Closed (stretches.filterMap Stretch.item?) where
  commands : stretches.flatMap Stretch.commands = past
  journal : s.journal.toList = stretches.flatMap Stretch.events

/-- The last stretch is that of a block which is still open. -/
structure Pressing (s : Sequencer) (past : List Command) (stretches : List Stretch)
    (span : BlockSpan) : Prop
    extends s.Opened (stretches.filterMap Stretch.item?) span.first span.others where
  commands : (stretches ++ [Stretch.block span]).flatMap Stretch.commands = past
  journal : s.journal.toList = stretches.flatMap Stretch.events ++ span.openEvents

def IsAccounted (s : Sequencer) (past : List Command) : Prop :=
  (∃ stretches, s.Settled past stretches) ∨ ∃ stretches span, s.Pressing past stretches span

theorem settled_init : Settled {} [] [] where
  toClosed := closed_init
  commands := rfl
  journal := rfl

variable {s : Sequencer} {past : List Command} {stretches : List Stretch} {span : BlockSpan}
  {c : Command}

theorem Settled.lone {t : Sequencer} (h : s.Settled past stretches) (out : List Item)
    (hclosed : t.Closed (stretches.filterMap Stretch.item? ++ out))
    (hout : (Stretch.lone c).item?.toList = out) (hjournal : t.journal = s.journal) :
    t.Settled (past ++ [c]) (stretches ++ [.lone c]) where
  toClosed := by
    have hitems : (stretches ++ [Stretch.lone c]).filterMap Stretch.item? =
        stretches.filterMap Stretch.item? ++ out := by
      rw [List.filterMap_append, ← hout]
      cases hitem : (Stretch.lone c).item? <;> simp [hitem]
    rw [hitems]
    exact hclosed
  commands := by simp [h.commands, Stretch.commands]
  journal := by simp [hjournal, h.journal, Stretch.events]

theorem Settled.press (h : s.Settled past stretches) {pose : Pose} (hrole : c.role = .move pose)
    (hmode : s.mode = .linear) :
    (s.moveTo pose).Pressing (past ++ [c]) stretches (.start c pose hrole) where
  toOpened := h.toClosed.press pose hmode
  commands := by simp [h.commands, Stretch.commands, BlockSpan.start]
  journal := by
    rw [s.moveTo_of_closed pose hmode h.isOpen]
    simp [h.journal, BlockSpan.openEvents, BlockSpan.dropped, BlockSpan.start]

theorem Settled.feed (h : s.Settled past stretches) (c : Command) :
    (s.feed c).1.IsAccounted (past ++ [c]) := by
  cases hrole : c.role with
  | rapid =>
    rw [s.feed_rapid hrole]
    have hsame : ({ s with mode := .joint } : Sequencer).close = { s with mode := .joint } :=
      close_of_closed _ h.isOpen
    rw [hsame]
    refine .inl ⟨_, h.lone [] ?_ ?_ rfl⟩
    · simpa using h.toClosed.rapid
    · simp [Stretch.item?, hrole]
  | move pose =>
    rw [s.feed_move hrole]
    cases hmode : s.mode with
    | joint =>
      refine .inl ⟨_, h.lone _ (h.toClosed.joint pose hmode) ?_ ?_⟩
      · simp [Stretch.item?, hrole]
      · rw [s.moveTo_of_joint pose hmode]
    | linear => exact .inr ⟨_, _, h.press hrole hmode⟩
  | malformed found =>
    rw [s.feed_malformed hrole]
    refine .inl ⟨_, h.lone [] ?_ ?_ rfl⟩
    · simpa using h.toClosed
    · simp [Stretch.item?, hrole]
  | aside =>
    rw [s.feed_aside hrole]
    refine .inl ⟨_, h.lone _ (h.toClosed.aside c) ?_ ?_⟩
    · simp [Stretch.item?, hrole]
    · rw [s.passThrough_of_closed _ _ h.isOpen]

theorem Pressing.press (h : s.Pressing past stretches span) {pose : Pose}
    (hrole : c.role = .move pose) :
    (s.moveTo pose).Pressing (past ++ [c]) stretches (span.extend c (by simp [hrole])) where
  toOpened := by
    rw [span.others_extend_move hrole]
    exact h.toOpened.press pose
  commands := by simp [← h.commands, Stretch.commands, BlockSpan.extend]
  journal := by
    rw [s.moveTo_of_open pose h.mode h.isOpen, span.openEvents_extend_of_ne (by simp [hrole])]
    exact h.journal

theorem Pressing.malformed (h : s.Pressing past stretches span) {found : Nat}
    (hrole : c.role = .malformed found) :
    s.Pressing (past ++ [c]) stretches (span.extend c (by simp [hrole])) where
  toOpened := by
    rw [span.others_extend_of_target? (by simp [hrole, Role.target?])]
    exact h.toOpened
  commands := by simp [← h.commands, Stretch.commands, BlockSpan.extend]
  journal := by
    rw [span.openEvents_extend_of_ne (by simp [hrole])]
    exact h.journal

theorem Pressing.aside (h : s.Pressing past stretches span) (hrole : c.role = .aside) :
    (s.passThrough c.keyword c.note).Pressing (past ++ [c]) stretches
      (span.extend c (by simp [hrole])) where
  toOpened := by
    rw [span.others_extend_of_target? (by simp [hrole, Role.target?])]
    exact h.toOpened.aside _ _
  commands := by simp [← h.commands, Stretch.commands, BlockSpan.extend]
  journal := by
    rw [s.passThrough_of_open _ _ h.isOpen, span.openEvents_extend_aside hrole]
    simp [h.journal]

theorem Pressing.close_journal (h : s.Pressing past stretches span) (mode : Mode) :
    ({ s with mode := mode } : Sequencer).close.journal.toList =
      (stretches ++ [Stretch.block span]).flatMap Stretch.events := by
  have hsize : s.pending.size = span.others.length + 1 := by
    rw [← Array.length_toList, h.pending]
    simp
  rw [close_of_open { s with mode := mode } h.isOpen h.lastPose]
  simp [h.journal, hsize, Stretch.events, BlockSpan.events, span.countP_item]

theorem Pressing.rapid (h : s.Pressing past stretches span) (hrole : c.role = .rapid) :
    ({ s with mode := .joint } : Sequencer).close.Settled (past ++ [c])
      (stretches ++ [.block span, .lone c]) where
  toClosed := by
    have hitems : (stretches ++ [Stretch.block span, .lone c]).filterMap Stretch.item? =
        stretches.filterMap Stretch.item? ++ [.block span.first span.others] := by
      simp [Stretch.item?, hrole, BlockSpan.item]
    rw [hitems]
    exact h.toOpened.rapid
  commands := by simp [← h.commands, Stretch.commands]
  journal := by
    rw [h.close_journal .joint]
    simp [Stretch.events]

theorem Pressing.feed (h : s.Pressing past stretches span) (c : Command) :
    (s.feed c).1.IsAccounted (past ++ [c]) := by
  cases hrole : c.role with
  | rapid =>
    rw [s.feed_rapid hrole]
    exact .inl ⟨_, h.rapid hrole⟩
  | move pose =>
    rw [s.feed_move hrole]
    exact .inr ⟨_, _, h.press hrole⟩
  | malformed found =>
    rw [s.feed_malformed hrole]
    exact .inr ⟨_, _, h.malformed hrole⟩
  | aside =>
    rw [s.feed_aside hrole]
    exact .inr ⟨_, _, h.aside hrole⟩

theorem isAccounted_feedAll (commands : List Command) :
    (feedAll {} commands).IsAccounted commands := by
  induction commands using List.reverseRecOn with
  | nil => exact .inl ⟨[], settled_init⟩
  | append_singleton commands c ih =>
    rw [feedAll_concat]
    rcases ih with ⟨stretches, h⟩ | ⟨stretches, span, h⟩
    · exact h.feed c
    · exact h.feed c

theorem emit_ne_record (s : Sequencer) (statement : Statement) (event : Event) :
    s.emit statement ≠ s.record event := by
  intro heq
  have hsize := congrArg (fun t => t.statements.size) heq
  simp [emit, record] at hsize

theorem feed_aside_xor (s : Sequencer) (hrole : c.role = .aside) :
    Xor ((s.feed c).1 = s.emit c.note) ((s.feed c).1 = s.record (.commandDropped c.keyword)) := by
  rw [s.feed_aside hrole]
  cases hopen : s.isOpen with
  | true =>
    have hdropped : s.passThrough c.keyword c.note = s.record (.commandDropped c.keyword) :=
      if_pos hopen
    rw [hdropped]
    exact .inr ⟨rfl, fun heq => s.emit_ne_record _ _ heq.symm⟩
  | false =>
    have hnoted : s.passThrough c.keyword c.note = s.emit c.note := if_neg (by simp [hopen])
    rw [hnoted]
    exact .inl ⟨rfl, s.emit_ne_record _ _⟩

end Sequencer

def chronicle (commands : List Command) : List Event :=
  (Sequencer.feedAll {} commands).close.journal.toList

theorem exists_stretches (commands : List Command) :
    ∃ stretches : List Stretch,
      stretches.flatMap Stretch.commands = commands ∧
      sequence commands = stretches.flatMap Stretch.statements ∧
      chronicle commands = stretches.flatMap Stretch.events := by
  unfold sequence chronicle
  rcases Sequencer.isAccounted_feedAll commands with ⟨stretches, h⟩ | ⟨stretches, span, h⟩
  · refine ⟨stretches, h.commands, ?_, ?_⟩
    · rw [h.toClosed.close.statements, Stretch.flatMap_statements]
    · rw [Sequencer.close_of_closed _ h.isOpen, h.journal]
  · refine ⟨stretches ++ [.block span], h.commands, ?_, h.close_journal _⟩
    rw [Stretch.flatMap_statements, List.filterMap_append]
    exact h.toOpened.close _

/-- The journal of every run is a group of records for each press block of its path, in order:
where the block starts, each command that was swallowed in it, and how many moves it has. The
stretches take up all commands in order, so no block and no dropped command is missing; and a
command other than a RAPID or a move is noted in the path or dropped on record, just one of the
two. -/
theorem chronicle_accounts (commands : List Command) :
    (∃ stretches : List Stretch,
      stretches.flatMap Stretch.commands = commands ∧
      sequence commands = stretches.flatMap Stretch.statements ∧
      chronicle commands = stretches.flatMap Stretch.events ∧
      (chronicle commands).map (fun event => (event.level, event.message)) =
        stretches.flatMap Stretch.records) ∧
    ∀ (before after : List Command) (c : Command), commands = before ++ c :: after →
      c.keyword ≠ "RAPID" → c.keyword ≠ "GOTO" →
        Xor
          (((Sequencer.feedAll {} before).feed c).1 = (Sequencer.feedAll {} before).emit c.note)
          (((Sequencer.feedAll {} before).feed c).1 =
            (Sequencer.feedAll {} before).record (.commandDropped c.keyword)) := by
  constructor
  · obtain ⟨stretches, hcommands, hstatements, hevents⟩ := exists_stretches commands
    refine ⟨stretches, hcommands, hstatements, hevents, ?_⟩
    rw [hevents, List.map_flatMap]
    simp only [Stretch.map_events]
  · intro before after c _ hrapid hgoto
    exact Sequencer.feed_aside_xor _ (Command.role_eq_aside hrapid hgoto)

def remarked : List Command :=
  [⟨"FEDRAT", some "5"⟩, ⟨"GOTO", some "1,2,3,4,5,6"⟩, ⟨"FEDRAT", some "7"⟩, ⟨"GOTO", none⟩,
    ⟨"END", none⟩, ⟨"GOTO", some "2,2,3,4,5,6"⟩, ⟨"RAPID", none⟩, ⟨"END", none⟩]

theorem chronicle_accounts_remarked :
    remarked = remarked.take 2 ++ ⟨"FEDRAT", some "7"⟩ :: remarked.drop 3 ∧
    "FEDRAT" ≠ "RAPID" ∧ "FEDRAT" ≠ "GOTO" ∧
    Xor
      (((Sequencer.feedAll {} (remarked.take 2)).feed ⟨"FEDRAT", some "7"⟩).1 =
        (Sequencer.feedAll {} (remarked.take 2)).emit (.directive "FEDRAT" (some "7")))
      (((Sequencer.feedAll {} (remarked.take 2)).feed ⟨"FEDRAT", some "7"⟩).1 =
        (Sequencer.feedAll {} (remarked.take 2)).record (.commandDropped "FEDRAT")) :=
  ⟨rfl, by decide, by decide,
    (chronicle_accounts remarked).2 _ _ ⟨"FEDRAT", some "7"⟩ rfl (by decide) (by decide)⟩

example : chronicle remarked =
    [.blockOpened ⟨"1", "2", "3", "4", "5", "6"⟩, .commandDropped "FEDRAT", .commandDropped "END",
      .blockClosed 2] := by
  decide +kernel

end PressPath
