import PressPath.Proofs.Assembly
import PressPath.Proofs.Reading

/-! Where a document fails. The sequencer rejects a command for what the command
says and for nothing it has seen before; so the fault of a document is that of
its first malformed move, and what follows that line has no part in it. -/
namespace PressPath
open Grammar Text

def Role.found? : Role → Option Nat
  | malformed found => some found
  | _ => none

theorem Sequencer.feed_snd (s : Sequencer) (c : Command) : (s.feed c).2 = c.role.found? := by
  rw [feed_eq]
  cases c.role <;> rfl

def NumberedCommand.rejection? (entry : NumberedCommand) : Option (Nat × Nat) :=
  entry.command.role.found?.map fun found => (entry.line, found)

theorem Sequencer.follow_snd (s : Sequencer) (entries : List NumberedCommand) :
    (s.follow entries).2 = entries.findSome? NumberedCommand.rejection? := by
  induction entries generalizing s with
  | nil => rfl
  | cons entry rest ih =>
    have hfeed := s.feed_snd entry.command
    rw [List.findSome?_cons, NumberedCommand.rejection?, ← hfeed, follow]
    -- A rejection depends on the command alone, so any sequencer will do for the rest.
    generalize s.feed entry.command = step
    rcases step with ⟨next, _ | found⟩
    · exact ih next
    · rfl

theorem Sequencer.follow_of_accepted (s : Sequencer) {entries : List NumberedCommand}
    (h : entries.findSome? NumberedCommand.rejection? = none) :
    s.follow entries = (s.feedAll (entries.map NumberedCommand.command), none) := by
  rw [← s.follow_snd] at h
  rw [← eq_feedAll_of_follow (Prod.ext rfl h), ← h]

namespace Document

def procedure (index : Nat) (d : Document) : Procedure :=
  ⟨d.procName index, sequence ((Listing.ofSource d.source).map NumberedCommand.command)⟩

def rejection? (d : Document) : Option (Nat × Nat) :=
  (Listing.ofSource d.source).findSome? NumberedCommand.rejection?

theorem translate_unlimited (index : Nat) (d : Document) :
    (d.translate .unlimited index).1 =
      match d.rejection? with
      | some (line, found) => .error ⟨d.name, line, .malformedMove found⟩
      | none => .ok (d.procedure index).statements := by
  unfold translate
  rw [Listing.parse_unlimited]
  dsimp only
  cases hrejection : d.rejection? with
  | none =>
    rw [Sequencer.follow_of_accepted _ hrejection]
    rfl
  | some rejected =>
    have hfollow := Sequencer.follow_snd {} (Listing.ofSource d.source)
    change _ = d.rejection? at hfollow
    rw [hrejection] at hfollow
    generalize Sequencer.follow {} (Listing.ofSource d.source) = followed at hfollow ⊢
    obtain ⟨last, stopped⟩ := followed
    cases hfollow
    rfl

theorem translate_eq_error_iff {index : Nat} {d : Document} {fault : Fault} :
    (d.translate .unlimited index).1 = .error fault ↔
      ∃ line found, d.rejection? = some (line, found) ∧
        fault = ⟨d.name, line, .malformedMove found⟩ := by
  rw [translate_unlimited]
  cases d.rejection? with
  | none => simp
  | some rejected =>
    obtain ⟨line, found⟩ := rejected
    simp [eq_comm]

theorem translate_eq_ok_iff {index : Nat} {d : Document} {statements : List Statement} :
    (d.translate .unlimited index).1 = .ok statements ↔
      d.rejection? = none ∧ statements = (d.procedure index).statements := by
  rw [translate_unlimited]
  cases d.rejection? with
  | none => simp [eq_comm]
  | some rejected => simp

end Document

def fieldCount (argument : String) : Nat :=
  (argument.toList.splitOn ',').countP fun field => !field.all isBlank

theorem Pose.found_eq_fieldCount (argument : String) : found argument = fieldCount argument := by
  unfold found pieces fieldCount
  rw [List.countP_map]
  apply List.countP_congr
  intro field _
  have hblank : (String.ofList (trimChars field)).isEmpty = field.all isBlank := by
    rw [Bool.eq_iff_iff, String.isEmpty_iff, List.all_eq_true, ← trimChars_eq_nil_iff,
      ← String.toList_inj]
    simp
  simp [hblank]

theorem Pose.found_of_ofArgument_eq_error {argument : String} {found : Nat}
    (h : ofArgument argument = .error found) : found = fieldCount argument := by
  rw [← found_eq_fieldCount]
  unfold ofArgument at h
  split at h
  · split at h
    · cases h
    · exact (Except.error.inj h).symm
  · exact (Except.error.inj h).symm

/-- The line is a move whose argument is no pose. A missing argument counts as an empty one. -/
def IsMalformedMove (line argument : String) : Prop :=
  ∃ c : Command, Command.parseLine .unlimited line = .ok (some c) ∧ c.keyword = "GOTO" ∧
    c.argument.getD "" = argument ∧ ∃ found, Pose.ofArgument argument = .error found

theorem Command.found?_role_eq_some {c : Command} {found : Nat} :
    c.role.found? = some found ↔
      c.keyword = "GOTO" ∧ Pose.ofArgument (c.argument.getD "") = .error found := by
  unfold role
  by_cases hrapid : c.keyword = "RAPID"
  · simp [hrapid, Role.found?]
  · by_cases hgoto : c.keyword = "GOTO"
    · rw [if_neg hrapid, if_pos hgoto]
      cases Pose.ofArgument (c.argument.getD "") <;> simp [hgoto, Role.found?]
    · simp [hrapid, hgoto, Role.found?]

theorem Sequencer.feed_eq_some_iff {s : Sequencer} {c : Command} {found : Nat} :
    (s.feed c).2 = some found ↔
      c.keyword = "GOTO" ∧ Pose.ofArgument (c.argument.getD "") = .error found := by
  rw [feed_snd]
  exact Command.found?_role_eq_some

def lineRejection? (line : String) : Option Nat :=
  (Command.ofLine? line.toList).bind fun c => c.role.found?

theorem lineRejection?_eq_some_iff {line : String} {found : Nat} :
    lineRejection? line = some found ↔
      ∃ argument, IsMalformedMove line argument ∧ found = fieldCount argument := by
  unfold lineRejection? IsMalformedMove
  simp only [Option.bind_eq_some_iff, Command.found?_role_eq_some, Command.parseLine_unlimited,
    Except.ok.injEq]
  constructor
  · rintro ⟨c, hc, hgoto, hpose⟩
    exact ⟨_, ⟨c, hc, hgoto, rfl, found, hpose⟩, Pose.found_of_ofArgument_eq_error hpose⟩
  · rintro ⟨_, ⟨c, hc, hgoto, rfl, other, hpose⟩, rfl⟩
    rw [Pose.found_of_ofArgument_eq_error hpose] at hpose
    exact ⟨c, hc, hgoto, hpose⟩

theorem lineRejection?_eq_none_iff {line : String} :
    lineRejection? line = none ↔ ∀ argument, ¬ IsMalformedMove line argument := by
  rw [Option.eq_none_iff_forall_ne_some]
  simp only [ne_eq, lineRejection?_eq_some_iff]
  constructor
  · intro h argument hmove
    exact h _ ⟨argument, hmove, rfl⟩
  · rintro h found ⟨argument, hmove, -⟩
    exact h argument hmove

theorem Listing.findSome?_entriesOf (number : Nat) (lines : List (List Char)) :
    (entriesOf number lines).findSome? NumberedCommand.rejection? =
      ((lines.map String.ofList).zipIdx number).findSome? fun (line, n) =>
        (lineRejection? line).map fun found => (n, found) := by
  induction lines generalizing number with
  | nil => rfl
  | cons line rest ih =>
    rw [entriesOf_cons, List.findSome?_append, ih, List.map_cons, List.zipIdx_cons,
      List.findSome?_cons]
    dsimp only [lineRejection?]
    rw [String.toList_ofList]
    cases hline : Command.ofLine? line with
    | none => rfl
    | some c =>
      cases hfound : c.role.found? <;> simp [NumberedCommand.rejection?, hfound]

theorem findSome?_zipIdx_eq_some_iff {α β : Type} {f : α → Option β} {xs : List α}
    {first number : Nat} {b : β} :
    ((xs.zipIdx first).findSome? fun (x, n) => (f x).map fun b => (n, b)) = some (number, b) ↔
      ∃ k x, xs[k]? = some x ∧ f x = some b ∧ number = first + k ∧
        ∀ j < k, ∀ y, xs[j]? = some y → f y = none := by
  induction xs generalizing first with
  | nil => simp
  | cons x xs ih =>
    rw [List.zipIdx_cons, List.findSome?_cons]
    dsimp only
    cases hx : f x with
    | some c =>
      constructor
      · intro h
        cases h
        exact ⟨0, x, rfl, hx, rfl, by simp⟩
      · rintro ⟨k, y, hy, hb, rfl, hbefore⟩
        cases k with
        | zero =>
          cases hy
          simp [hx ▸ hb]
        | succ k =>
          have hnone := hbefore 0 (by omega) x rfl
          simp [hx] at hnone
    | none =>
      rw [Option.map_none, ih]
      constructor
      · rintro ⟨k, y, hy, hb, rfl, hbefore⟩
        refine ⟨k + 1, y, hy, hb, by omega, ?_⟩
        intro j hj z hz
        cases j with
        | zero =>
          cases hz
          exact hx
        | succ j => exact hbefore j (by omega) z hz
      · rintro ⟨k, y, hy, hb, rfl, hbefore⟩
        cases k with
        | zero =>
          cases hy
          simp [hx] at hb
        | succ k =>
          refine ⟨k, y, hy, hb, by omega, ?_⟩
          intro j hj z hz
          exact hbefore (j + 1) (by omega) z hz

namespace Document

def lines (d : Document) : List String := (d.source.toList.splitOn '\n').map String.ofList

theorem rejection?_eq_findSome? (d : Document) :
    d.rejection? = (d.lines.zipIdx 1).findSome? fun (line, n) =>
      (lineRejection? line).map fun found => (n, found) :=
  Listing.findSome?_entriesOf 1 _

theorem rejection?_eq_none_iff {d : Document} :
    d.rejection? = none ↔ ∀ line ∈ d.lines, lineRejection? line = none := by
  rw [rejection?_eq_findSome?, List.findSome?_eq_none_iff]
  simp only [Option.map_eq_none_iff]
  constructor
  · intro h line hline
    obtain ⟨k, hk⟩ := List.getElem?_of_mem hline
    exact h (line, 1 + k) (List.mk_add_mem_zipIdx_iff_getElem?.mpr hk)
  · intro h entry hentry
    exact h entry.1 (List.fst_mem_of_mem_zipIdx hentry)

theorem rejection?_eq_some_iff {d : Document} {number found : Nat} :
    d.rejection? = some (number, found) ↔
      ∃ k line, d.lines[k]? = some line ∧ lineRejection? line = some found ∧ number = k + 1 ∧
        ∀ j < k, ∀ earlier, d.lines[j]? = some earlier → lineRejection? earlier = none := by
  rw [rejection?_eq_findSome?, findSome?_zipIdx_eq_some_iff]
  simp only [Nat.add_comm 1]

theorem rejection?_eq_some_of_take_eq {d other : Document} {number found : Nat}
    (h : d.rejection? = some (number, found))
    (htake : other.lines.take number = d.lines.take number) :
    other.rejection? = some (number, found) := by
  obtain ⟨k, line, hline, hfound, rfl, hbefore⟩ := rejection?_eq_some_iff.mp h
  have hsame : ∀ j < k + 1, other.lines[j]? = d.lines[j]? := by
    intro j hj
    rw [← List.getElem?_take_of_lt hj, htake, List.getElem?_take_of_lt hj]
  apply rejection?_eq_some_iff.mpr
  refine ⟨k, line, ?_, hfound, rfl, ?_⟩
  · rw [hsame k (by omega), hline]
  · intro j hj earlier hearlier
    rw [hsame j (by omega)] at hearlier
    exact hbefore j hj earlier hearlier

/-- A document fails exactly if one of its lines is a malformed move. Its fault then names the
first such line, with all lines counted, and how many fields that move has; it is no other
kind of fault, and it is the same whatever comes after the line. -/
theorem translate_fault_located (index : Nat) (d : Document) :
    ((∃ fault, (d.translate .unlimited index).1 = .error fault) ↔
      ∃ line ∈ d.lines, ∃ argument, IsMalformedMove line argument) ∧
    ∀ fault, (d.translate .unlimited index).1 = .error fault →
      (∃ k line argument, d.lines[k]? = some line ∧ IsMalformedMove line argument ∧
        (∀ j < k, ∀ earlier, d.lines[j]? = some earlier →
          ∀ text, ¬ IsMalformedMove earlier text) ∧
        fault = ⟨d.name, k + 1, .malformedMove (fieldCount argument)⟩) ∧
      ∀ (position : Nat) (other : Document), other.name = d.name →
        other.lines.take fault.line = d.lines.take fault.line →
          (other.translate .unlimited position).1 = .error fault := by
  refine ⟨⟨?_, ?_⟩, ?_⟩
  · rintro ⟨fault, hfault⟩
    obtain ⟨number, found, hrejection, -⟩ := translate_eq_error_iff.mp hfault
    obtain ⟨k, line, hline, hfound, -⟩ := rejection?_eq_some_iff.mp hrejection
    obtain ⟨argument, hmove, -⟩ := lineRejection?_eq_some_iff.mp hfound
    exact ⟨line, List.mem_of_getElem? hline, argument, hmove⟩
  · rintro ⟨line, hline, argument, hmove⟩
    cases hrejection : d.rejection? with
    | none =>
      have hnone := rejection?_eq_none_iff.mp hrejection line hline
      exact absurd hmove (lineRejection?_eq_none_iff.mp hnone argument)
    | some rejected => exact ⟨_, translate_eq_error_iff.mpr ⟨_, _, hrejection, rfl⟩⟩
  · intro fault hfault
    obtain ⟨number, found, hrejection, rfl⟩ := translate_eq_error_iff.mp hfault
    constructor
    · obtain ⟨k, line, hline, hfound, rfl, hbefore⟩ := rejection?_eq_some_iff.mp hrejection
      obtain ⟨argument, hmove, rfl⟩ := lineRejection?_eq_some_iff.mp hfound
      refine ⟨k, line, argument, hline, hmove, ?_, rfl⟩
      intro j hj earlier hearlier
      exact lineRejection?_eq_none_iff.mp (hbefore j hj earlier hearlier)
    · intro position other hname htake
      apply translate_eq_error_iff.mpr
      exact ⟨number, found, rejection?_eq_some_of_take_eq hrejection htake, by rw [hname]⟩

def remarked : Document :=
  ⟨"part.apt", "; GOTO/1\r\n\n/GOTO\r\nGOTO/1,2,3,4,5,6\nGOTO/1,,x, \nGOTO/"⟩

theorem translate_fault_located_remarked :
    (remarked.translate .unlimited 0).1 = .error ⟨"part.apt", 5, .malformedMove 2⟩ ∧
      (∃ line ∈ remarked.lines, ∃ argument, IsMalformedMove line argument) ∧
      ((Document.mk "part.apt" (remarked.source ++ "1\nRAPID")).translate .unlimited 7).1 =
        .error ⟨"part.apt", 5, .malformedMove 2⟩ := by
  have hfault : (remarked.translate .unlimited 0).1 =
      .error ⟨"part.apt", 5, .malformedMove 2⟩ := by decide +kernel
  have hlocated := translate_fault_located 0 remarked
  refine ⟨hfault, hlocated.1.mp ⟨_, hfault⟩, (hlocated.2 _ hfault).2 7 _ rfl ?_⟩
  decide +kernel

end Document
end PressPath
