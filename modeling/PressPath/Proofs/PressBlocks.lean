import PressPath.Proofs.History

/-! The shape of a path. The statements of every run fall into items: a press
block is one item, with its start, its moves and its end, and any other statement
is an item by itself. Between two blocks there is a joint move. While a block is
open the statements end in its start and its moves so far. -/
namespace PressPath

def Statement.isFrame : Statement → Bool
  | moduleHeader _ | procHeader _ | procFooter | moduleFooter => true
  | _ => false

/-- A block has at least one move. -/
inductive Item where
  | joint (pose : Pose)
  | directive (keyword : String) (value : Option String)
  | remark (keyword : String) (value : Option String)
  | block (first : Pose) (others : List Pose)
deriving Repr, DecidableEq

namespace Item

def isBlock : Item → Bool
  | block _ _ => true
  | _ => false

def isJoint : Item → Bool
  | joint _ => true
  | _ => false

def poses : Item → List Pose
  | joint pose => [pose]
  | block first others => first :: others
  | directive _ _ | remark _ _ => []

def unfinished (first : Pose) (others : List Pose) : List Statement :=
  .pressStart first :: (first :: others).map .pressMove

def statements : Item → List Statement
  | joint pose => [.jointMove pose]
  | directive keyword value => [.directive keyword value]
  | remark keyword value => [.remark keyword value]
  | block first others => unfinished first others ++ [.pressEnd (others.getLastD first)]

theorem filterMap_target?_statements (item : Item) :
    item.statements.filterMap Statement.target? = item.poses := by
  cases item with
  | block first others =>
    have hothers : (others.map Statement.pressMove).filterMap Statement.target? = others := by
      rw [List.filterMap_map]
      exact List.filterMap_some
    simp [statements, unfinished, poses, List.filterMap_cons, Statement.target?, hothers]
  | _ => rfl

theorem isFrame_of_mem_statements {item : Item} {statement : Statement}
    (h : statement ∈ item.statements) : statement.isFrame = false := by
  cases item with
  | block first others =>
    simp only [statements, unfinished, List.mem_append, List.mem_cons, List.mem_map,
      List.not_mem_nil, or_false] at h
    rcases h with (rfl | ⟨pose, -, rfl⟩) | rfl <;> rfl
  | _ =>
    simp only [statements, List.mem_singleton] at h
    subst h
    rfl

end Item

def Command.noteItem (c : Command) : Item :=
  if c.keyword = "FEDRAT" then .directive c.keyword c.argument
  else .remark c.keyword c.argument

theorem Command.statements_noteItem (c : Command) : c.noteItem.statements = [c.note] := by
  unfold noteItem note
  split <;> rfl

theorem Command.isBlock_noteItem (c : Command) : c.noteItem.isBlock = false := by
  unfold noteItem
  split <;> rfl

def Separated (items : List Item) : Prop :=
  ∀ (i j : Nat) (a b : Item), i < j → items[i]? = some a → a.isBlock = true →
    items[j]? = some b → b.isBlock = true →
      ∃ (k : Nat) (c : Item), i < k ∧ k < j ∧ items[k]? = some c ∧ c.isJoint = true

def Departed (items : List Item) : Prop :=
  ∀ (i : Nat) (a : Item), items[i]? = some a → a.isBlock = true →
    ∃ (k : Nat) (c : Item), i < k ∧ items[k]? = some c ∧ c.isJoint = true

theorem getElem?_concat_eq_some {α : Type} {xs : List α} {x a : α} {i : Nat}
    (h : (xs ++ [x])[i]? = some a) : xs[i]? = some a ∨ i = xs.length ∧ a = x := by
  rcases Nat.lt_or_ge i xs.length with hi | hi
  · rw [List.getElem?_append_left hi] at h
    exact .inl h
  · rw [List.getElem?_append_right hi] at h
    obtain ⟨hlt, heq⟩ := List.getElem?_eq_some_iff.mp h
    rw [List.length_singleton] at hlt
    exact .inr ⟨by omega, by simpa using heq.symm⟩

theorem getElem?_concat_of_eq_some {α : Type} {xs : List α} {a : α} {i : Nat} (x : α)
    (h : xs[i]? = some a) : (xs ++ [x])[i]? = some a := by
  have hi : i < xs.length := (List.getElem?_eq_some_iff.mp h).1
  rw [List.getElem?_append_left hi, h]

theorem Separated.concat {items : List Item} {item : Item} (h : Separated items)
    (hlast : item.isBlock = true → Departed items) : Separated (items ++ [item]) := by
  intro i j a b hij ha hblock hb hblock'
  rcases getElem?_concat_eq_some ha with hia | ⟨rfl, rfl⟩
  · rcases getElem?_concat_eq_some hb with hjb | ⟨rfl, rfl⟩
    · obtain ⟨k, c, hik, hkj, hc, hjoint⟩ := h i j a b hij hia hblock hjb hblock'
      exact ⟨k, c, hik, hkj, getElem?_concat_of_eq_some item hc, hjoint⟩
    · obtain ⟨k, c, hik, hc, hjoint⟩ := hlast hblock' i a hia hblock
      have hk : k < items.length := (List.getElem?_eq_some_iff.mp hc).1
      exact ⟨k, c, hik, hk, getElem?_concat_of_eq_some b hc, hjoint⟩
  · have hj := (List.getElem?_eq_some_iff.mp hb).1
    rw [List.length_append, List.length_singleton] at hj
    omega

theorem Departed.concat {items : List Item} {item : Item} (h : Departed items)
    (hitem : item.isBlock = false) : Departed (items ++ [item]) := by
  intro i a ha hblock
  rcases getElem?_concat_eq_some ha with ha | ⟨rfl, rfl⟩
  · obtain ⟨k, c, hik, hc, hjoint⟩ := h i a ha hblock
    exact ⟨k, c, hik, getElem?_concat_of_eq_some item hc, hjoint⟩
  · simp [hitem] at hblock

theorem departed_concat_joint (items : List Item) (pose : Pose) :
    Departed (items ++ [.joint pose]) := by
  intro i a ha hblock
  rcases getElem?_concat_eq_some ha with ha | ⟨rfl, rfl⟩
  · have hi : i < items.length := (List.getElem?_eq_some_iff.mp ha).1
    exact ⟨items.length, .joint pose, hi, List.getElem?_concat_length, rfl⟩
  · simp [Item.isBlock] at hblock

namespace Sequencer

/-- No block is open, and the statements are those of the items. A linear move may start a
block now, so then no block is without a joint move after it. -/
structure Closed (s : Sequencer) (items : List Item) : Prop where
  isOpen : s.isOpen = false
  pending : s.pending = #[]
  statements : s.statements.toList = items.flatMap Item.statements
  separated : Separated items
  departed : s.mode = .linear → Departed items

structure Opened (s : Sequencer) (items : List Item) (first : Pose) (others : List Pose) :
    Prop where
  isOpen : s.isOpen = true
  mode : s.mode = .linear
  pending : s.pending.toList = (first :: others).map .pressMove
  lastPose : s.lastPose = some (others.getLastD first)
  statements : s.statements.toList =
    items.flatMap Item.statements ++ Item.unfinished first others
  separated : Separated items
  departed : Departed items

def IsLaidOut (s : Sequencer) : Prop :=
  (∃ items, s.Closed items) ∨ ∃ items first others, s.Opened items first others

theorem closed_init : Closed {} [] where
  isOpen := rfl
  pending := rfl
  statements := rfl
  separated := by intro i j a b _ ha; simp at ha
  departed := by intro _ i a ha; simp at ha

variable {s : Sequencer} {items : List Item} {first : Pose} {others : List Pose}

theorem Closed.close (h : s.Closed items) : s.close.Closed items := by
  rw [s.close_of_closed h.isOpen]
  exact h

theorem Closed.rapid (h : s.Closed items) :
    ({ s with mode := .joint } : Sequencer).Closed items where
  isOpen := h.isOpen
  pending := h.pending
  statements := h.statements
  separated := h.separated
  departed := by intro hmode; simp at hmode

theorem Closed.joint (h : s.Closed items) (pose : Pose) (hmode : s.mode = .joint) :
    (s.moveTo pose).Closed (items ++ [.joint pose]) := by
  rw [s.moveTo_of_joint pose hmode]
  refine ⟨h.isOpen, h.pending, ?_, ?_, ?_⟩
  · simp [h.statements, Item.statements]
  · exact h.separated.concat (by simp [Item.isBlock])
  · intro _
    exact departed_concat_joint items pose

theorem Closed.press (h : s.Closed items) (pose : Pose) (hmode : s.mode = .linear) :
    (s.moveTo pose).Opened items pose [] := by
  rw [s.moveTo_of_closed pose hmode h.isOpen]
  refine ⟨rfl, hmode, ?_, rfl, ?_, h.separated, h.departed hmode⟩
  · simp [h.pending]
  · simp [h.statements, Item.unfinished]

theorem Closed.aside (h : s.Closed items) (c : Command) :
    (s.passThrough c.keyword c.note).Closed (items ++ [c.noteItem]) := by
  rw [s.passThrough_of_closed _ _ h.isOpen]
  refine ⟨h.isOpen, h.pending, ?_, ?_, ?_⟩
  · simp [h.statements, c.statements_noteItem]
  · exact h.separated.concat (by simp [c.isBlock_noteItem])
  · intro hmode
    exact (h.departed hmode).concat c.isBlock_noteItem

theorem Opened.close (h : s.Opened items first others) (mode : Mode) :
    ({ s with mode := mode } : Sequencer).close.statements.toList =
      (items ++ [Item.block first others]).flatMap Item.statements := by
  rw [close_of_open { s with mode := mode } h.isOpen h.lastPose]
  simp [h.statements, Item.statements]

theorem Opened.separated_block (h : s.Opened items first others) :
    Separated (items ++ [.block first others]) :=
  h.separated.concat fun _ => h.departed

theorem Opened.rapid (h : s.Opened items first others) :
    ({ s with mode := .joint } : Sequencer).close.Closed (items ++ [.block first others]) where
  isOpen := close_isOpen _
  pending := by rw [close_of_open { s with mode := .joint } h.isOpen h.lastPose]
  statements := h.close .joint
  separated := h.separated_block
  departed := by intro hmode; simp at hmode

theorem Opened.press (h : s.Opened items first others) (pose : Pose) :
    (s.moveTo pose).Opened items first (others ++ [pose]) := by
  rw [s.moveTo_of_open pose h.mode h.isOpen]
  refine ⟨h.isOpen, h.mode, ?_, ?_, ?_, h.separated, h.departed⟩
  · simp [h.pending]
  · simp
  · simp [h.statements, Item.unfinished]

theorem Opened.aside (h : s.Opened items first others) (keyword : String)
    (statement : Statement) : (s.passThrough keyword statement).Opened items first others := by
  rw [s.passThrough_of_open _ _ h.isOpen]
  exact ⟨h.isOpen, h.mode, h.pending, h.lastPose, h.statements, h.separated, h.departed⟩

theorem Closed.feed (h : s.Closed items) (c : Command) : (s.feed c).1.IsLaidOut := by
  cases hrole : c.role with
  | rapid =>
    rw [s.feed_rapid hrole]
    exact .inl ⟨items, h.rapid.close⟩
  | move pose =>
    rw [s.feed_move hrole]
    cases hmode : s.mode with
    | joint => exact .inl ⟨_, h.joint pose hmode⟩
    | linear => exact .inr ⟨_, _, _, h.press pose hmode⟩
  | malformed found =>
    rw [s.feed_malformed hrole]
    exact .inl ⟨items, h⟩
  | aside =>
    rw [s.feed_aside hrole]
    exact .inl ⟨_, h.aside c⟩

theorem Opened.feed (h : s.Opened items first others) (c : Command) :
    (s.feed c).1.IsLaidOut := by
  cases hrole : c.role with
  | rapid =>
    rw [s.feed_rapid hrole]
    exact .inl ⟨_, h.rapid⟩
  | move pose =>
    rw [s.feed_move hrole]
    exact .inr ⟨_, _, _, h.press pose⟩
  | malformed found =>
    rw [s.feed_malformed hrole]
    exact .inr ⟨_, _, _, h⟩
  | aside =>
    rw [s.feed_aside hrole]
    exact .inr ⟨_, _, _, h.aside _ _⟩

theorem isLaidOut_feedAll (commands : List Command) : (feedAll {} commands).IsLaidOut := by
  induction commands using List.reverseRecOn with
  | nil => exact .inl ⟨[], closed_init⟩
  | append_singleton commands c ih =>
    rw [feedAll_concat]
    rcases ih with ⟨items, h⟩ | ⟨items, first, others, h⟩
    · exact h.feed c
    · exact h.feed c

end Sequencer

theorem exists_items_sequence (commands : List Command) :
    ∃ items, sequence commands = items.flatMap Item.statements ∧ Separated items := by
  unfold sequence
  rcases Sequencer.isLaidOut_feedAll commands with ⟨items, h⟩ | ⟨items, first, others, h⟩
  · exact ⟨items, h.close.statements, h.separated⟩
  · exact ⟨_, h.close _, h.separated_block⟩

theorem flatMap_poses_of_sequence {commands : List Command} {items : List Item}
    (h : sequence commands = items.flatMap Item.statements) :
    items.flatMap Item.poses = commands.filterMap fun c => c.role.target? := by
  rw [← History.filterMap_target?_sequence, h, List.filterMap_flatMap]
  simp only [Item.filterMap_target?_statements]

/-- The path of every run is made of joint moves, directives, remarks and whole press blocks,
with a joint move between any two blocks. The poses of the items are those of the accepted
moves, so no move stands outside of an item. -/
theorem sequence_pressBlocks (commands : List Command) :
    ∃ items : List Item,
      sequence commands = items.flatMap Item.statements ∧
      Separated items ∧
      items.flatMap Item.poses = (commands.filterMap fun c => c.role.target?) ∧
      ∀ statement ∈ sequence commands, statement.isFrame = false := by
  obtain ⟨items, hitems, hseparated⟩ := exists_items_sequence commands
  refine ⟨items, hitems, hseparated, flatMap_poses_of_sequence hitems, ?_⟩
  intro statement hmem
  rw [hitems] at hmem
  obtain ⟨item, -, hmem⟩ := List.mem_flatMap.mp hmem
  exact Item.isFrame_of_mem_statements hmem

end PressPath
