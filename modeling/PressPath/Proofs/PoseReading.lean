import Mathlib.Tactic.TFAE
import PressPath.Proofs.Location
import PressPath.Proofs.ProcedureNames
import PressPath.Proofs.Readback

/-! Reading a pose. What is read is given by the pieces of the argument between its
commas, and a pose that was read can be read again from what is written of it. A
rejected argument is answered with the number of pieces that hold something, which
need not differ from the number that was asked for. -/
namespace PressPath
open Grammar Text

namespace Pose

variable {argument : String} {pose : Pose}

structure SixFilled (argument : String) : Prop where
  length : (argument.toList.splitOn ',').length = 6
  filled : ∀ piece ∈ argument.toList.splitOn ',', trimChars piece ≠ []

theorem length_pieces (argument : String) :
    (pieces argument).length = (argument.toList.splitOn ',').length :=
  List.length_map _

theorem exists_fields_eq {texts : List String} (h : texts.length = 6) :
    ∃ pose : Pose, pose.fields = texts := by
  match texts, h with
  | [x, y, z, q1, q2, q3], _ => exact ⟨⟨x, y, z, q1, q2, q3⟩, rfl⟩

theorem ofArgument_of_fields_eq (h : pose.fields = pieces argument) :
    ofArgument argument =
      if found argument = arity then .ok pose else .error (found argument) := by
  unfold ofArgument
  rw [← h]
  rfl

theorem ofArgument_of_length_ne (h : (pieces argument).length ≠ 6) :
    ofArgument argument = .error (found argument) := by
  unfold ofArgument
  split
  · next hpieces =>
    rw [hpieces] at h
    exact absurd rfl h
  · rfl

theorem found_eq_arity_iff (h : (argument.toList.splitOn ',').length = 6) :
    found argument = arity ↔ ∀ piece ∈ argument.toList.splitOn ',', trimChars piece ≠ [] := by
  have harity : arity = (pieces argument).length := by rw [length_pieces, h, arity]
  unfold found
  rw [harity, List.countP_eq_length, pieces, List.forall_mem_map]
  simp

theorem exists_of_sixFilled (h : SixFilled argument) :
    ∃ pose, ofArgument argument = .ok pose ∧ pose.fields = pieces argument := by
  obtain ⟨pose, hfields⟩ := exists_fields_eq ((length_pieces argument).trans h.length)
  refine ⟨pose, ?_, hfields⟩
  rw [ofArgument_of_fields_eq hfields, if_pos ((found_eq_arity_iff h.length).mpr h.filled)]

theorem ofArgument_of_not_sixFilled (h : ¬ SixFilled argument) :
    ofArgument argument = .error (fieldCount argument) := by
  rw [← found_eq_fieldCount]
  by_cases hlength : (argument.toList.splitOn ',').length = 6
  · obtain ⟨pose, hfields⟩ := exists_fields_eq ((length_pieces argument).trans hlength)
    rw [ofArgument_of_fields_eq hfields, if_neg]
    intro hfound
    exact h ⟨hlength, (found_eq_arity_iff hlength).mp hfound⟩
  · exact ofArgument_of_length_ne (by rwa [length_pieces])

theorem ofArgument_eq_ok_iff :
    ofArgument argument = .ok pose ↔ SixFilled argument ∧ pose.fields = pieces argument := by
  by_cases h : SixFilled argument
  · obtain ⟨other, hread, hfields⟩ := exists_of_sixFilled h
    rw [hread, Except.ok.injEq, and_iff_right h, ← hfields]
    constructor
    · rintro rfl
      rfl
    · intro heq
      exact (eq_of_fields_eq heq).symm
  · simp [ofArgument_of_not_sixFilled h, h]

theorem ofArgument_eq_error_iff {number : Nat} :
    ofArgument argument = .error number ↔
      ¬ SixFilled argument ∧ number = fieldCount argument := by
  by_cases h : SixFilled argument
  · obtain ⟨pose, hread, -⟩ := exists_of_sixFilled h
    simp [hread, h]
  · simp [ofArgument_of_not_sixFilled h, h, eq_comm]

/-! ## Counting first -/

def ofFields? : List String → Option Pose
  | [x, y, z, q1, q2, q3] => some ⟨x, y, z, q1, q2, q3⟩
  | _ => none

/-- Count the pieces, and those that hold something, and make a pose of the pieces only after
that. The answer is `none` where the counts let through what cannot be made a pose. -/
def readCounted (argument : String) : Except Nat (Option Pose) :=
  if (pieces argument).length ≠ arity ∨ found argument ≠ arity then .error (found argument)
  else .ok (ofFields? (pieces argument))

theorem readCounted_eq (argument : String) :
    readCounted argument = (ofArgument argument).map some := by
  unfold readCounted
  by_cases hlength : (pieces argument).length = 6
  · obtain ⟨pose, hfields⟩ := exists_fields_eq hlength
    rw [ofArgument_of_fields_eq hfields]
    by_cases hfound : found argument = arity
    · rw [if_neg (by simp [hlength, hfound, arity]), if_pos hfound, ← hfields]
      rfl
    · rw [if_pos (.inr hfound), if_neg hfound]
      rfl
  · rw [if_pos (.inl hlength), ofArgument_of_length_ne hlength]
    rfl

/-! ## Reading back what was written -/

/-- A text that can be a field: something is written in it, it has no blanks at its ends, and
it is not cut by a comma. -/
structure IsField (field : String) : Prop where
  ne_empty : field ≠ ""
  trimmed : trim field = field
  comma : ',' ∉ field.toList

theorem isField_of_ofArgument (h : ofArgument argument = .ok pose) :
    ∀ field ∈ pose.fields, IsField field := by
  obtain ⟨hsix, hfields⟩ := ofArgument_eq_ok_iff.mp h
  intro field hfield
  rw [hfields] at hfield
  obtain ⟨piece, hpiece, rfl⟩ := List.mem_map.mp hfield
  refine ⟨?_, ?_, ?_⟩
  · simpa using hsix.filled piece hpiece
  · rw [trim, String.toList_ofList, (trimmed_trimChars piece).trimChars_eq]
  · intro hcomma
    rw [String.toList_ofList] at hcomma
    exact (mem_of_mem_splitOn hpiece (mem_of_mem_trimChars hcomma)).2 rfl

theorem IsField.trimChars_eq {field : String} (h : IsField field) :
    trimChars field.toList = field.toList := by
  rw [← toList_trim, h.trimmed]

/-- Texts without commas, joined by commas, are read as the pose that has them for its fields
once the blanks at their ends are gone. -/
theorem ofArgument_of_joined {texts : List (List Char)}
    (hjoined : argument.toList = [','].intercalate texts)
    (hcomma : ∀ text ∈ texts, ',' ∉ text)
    (htexts : texts.map trimChars = pose.fields.map String.toList)
    (hfields : ∀ field ∈ pose.fields, IsField field) :
    ofArgument argument = .ok pose := by
  have hlength : texts.length = 6 := by
    rw [← List.length_map trimChars, htexts]
    rfl
  have hsplit : argument.toList.splitOn ',' = texts := by
    rw [hjoined]
    apply List.splitOn_intercalate ',' hcomma
    rintro rfl
    simp at hlength
  apply ofArgument_eq_ok_iff.mpr
  refine ⟨⟨by rw [hsplit, hlength], ?_⟩, ?_⟩
  · rw [hsplit]
    intro text htext hblank
    have hmem : trimChars text ∈ pose.fields.map String.toList :=
      htexts ▸ List.mem_map_of_mem htext
    obtain ⟨field, hfield, hchars⟩ := List.mem_map.mp hmem
    rw [hblank] at hchars
    exact (hfields field hfield).ne_empty (by simpa using hchars)
  · have hpieces : pieces argument = (texts.map trimChars).map String.ofList := by
      rw [pieces, hsplit, List.map_map]
      rfl
    rw [hpieces, htexts]
    simp

theorem ofArgument_commas (h : ∀ field ∈ pose.fields, IsField field) :
    ofArgument (",".intercalate pose.fields) = .ok pose := by
  apply ofArgument_of_joined String.toList_intercalate _ _ h
  · simpa using fun field hfield => (h field hfield).comma
  · rw [List.map_map]
    exact List.map_congr_left fun field hfield => (h field hfield).trimChars_eq

/-- The blank after each comma of a written pose goes with the field that follows. -/
theorem ofArgument_commas_blank (h : ∀ field ∈ pose.fields, IsField field) :
    ofArgument (", ".intercalate pose.fields) = .ok pose := by
  have hblank : ∀ c ∈ [' '], isBlank c = true := by
    intro c hc
    rw [List.mem_singleton.mp hc]
    decide
  have hspaced (text : List Char) : trimChars (' ' :: text) = trimChars text :=
    trimChars_blank_append hblank
  obtain ⟨x, y, z, q1, q2, q3⟩ := pose
  have hjoined : (", ".intercalate (fields ⟨x, y, z, q1, q2, q3⟩)).toList =
      [','].intercalate [x.toList, ' ' :: y.toList, ' ' :: z.toList, ' ' :: q1.toList,
        ' ' :: q2.toList, ' ' :: q3.toList] := by
    simp [fields]
  apply ofArgument_of_joined hjoined _ _ h
  · have hcomma := fun field hfield => (h field hfield).comma
    simpa [fields] using hcomma
  · have htrim := fun field hfield => (h field hfield).trimChars_eq
    simpa [fields, hspaced] using htrim

def enclosed? (text : String) : Option String :=
  match text.toList with
  | 'p' :: '[' :: rest =>
    match rest.reverse.dropWhile (· != ']') with
    | _ :: front => some (String.ofList front.reverse)
    | [] => none
  | _ => none

theorem enclosed?_render (pose : Pose) :
    enclosed? pose.render = some (", ".intercalate pose.fields) := by
  have hchars : pose.render.toList =
      'p' :: '[' :: ((", ".intercalate pose.fields).toList ++ [']']) := by
    simp [render]
  unfold enclosed?
  rw [hchars]
  simp only [List.reverse_append, List.reverse_cons, List.reverse_nil, List.nil_append,
    List.cons_append]
  rw [List.dropWhile_cons_of_neg (by simp)]
  simp only [List.reverse_reverse, String.ofList_toList]

/-- A pose is read from an argument with six pieces, none of them blank, and from no other; its
fields are the pieces without the blanks at their ends. Any other argument is answered with the
number of its pieces that are not blank, and what two counts let through never fails to be a
pose. The poses that are read are those whose fields hold something, are trimmed and have no comma
in them; such a pose is read again from its fields with commas between them, and from what stands
between the brackets where it is written. -/
theorem ofArgument_exact :
    (∀ argument,
      ((∃ pose, ofArgument argument = .ok pose) ↔ SixFilled argument) ∧
      (∀ pose, ofArgument argument = .ok pose ↔ SixFilled argument ∧
        pose.fields =
          (argument.toList.splitOn ',').map fun piece => String.ofList (trimChars piece)) ∧
      (∀ number, ofArgument argument = .error number ↔
        ¬ SixFilled argument ∧ number = fieldCount argument) ∧
      readCounted argument = (ofArgument argument).map some) ∧
    ∀ pose : Pose, List.TFAE [
      ∃ argument, ofArgument argument = .ok pose,
      ∀ field ∈ pose.fields, IsField field,
      ofArgument (",".intercalate pose.fields) = .ok pose,
      (enclosed? pose.render).map ofArgument = some (.ok pose)] := by
  constructor
  · intro argument
    refine ⟨⟨?_, ?_⟩, fun pose => ofArgument_eq_ok_iff, fun number => ofArgument_eq_error_iff,
      readCounted_eq argument⟩
    · rintro ⟨pose, hpose⟩
      exact (ofArgument_eq_ok_iff.mp hpose).1
    · intro hsix
      obtain ⟨pose, hpose, -⟩ := exists_of_sixFilled hsix
      exact ⟨pose, hpose⟩
  · intro pose
    rw [enclosed?_render, Option.map_some, Option.some.injEq]
    tfae_have 1 → 2 := by
      rintro ⟨argument, hargument⟩
      exact isField_of_ofArgument hargument
    tfae_have 2 → 3 := ofArgument_commas
    tfae_have 2 → 4 := ofArgument_commas_blank
    tfae_have 3 → 1 := fun h => ⟨_, h⟩
    tfae_have 4 → 1 := fun h => ⟨_, h⟩
    tfae_finish

def bracketed : Pose := ⟨"a]b", "p[", "é è", "-1.5", "]]", "0"⟩

theorem ofArgument_exact_bracketed :
    ofArgument " a]b ,p[,\u2003é è\t,-1.5, ]],0" = .ok bracketed ∧
      (∀ field ∈ bracketed.fields, IsField field) ∧
      ofArgument (",".intercalate bracketed.fields) = .ok bracketed ∧
      (enclosed? bracketed.render).map ofArgument = some (.ok bracketed) := by
  have hread : ofArgument " a]b ,p[,\u2003é è\t,-1.5, ]],0" = .ok bracketed := by decide +kernel
  have hexists : ∃ argument, ofArgument argument = .ok bracketed := ⟨_, hread⟩
  have hfields : ∀ field ∈ bracketed.fields, IsField field :=
    ((ofArgument_exact.2 bracketed).out 0 1).mp hexists
  exact ⟨hread, hfields, ((ofArgument_exact.2 bracketed).out 1 2).mp hfields,
    ((ofArgument_exact.2 bracketed).out 1 3).mp hfields⟩

/-! ## What a rejected move is said to have -/

/-- Six pieces hold something and another one is blank, as with one comma too many. -/
structure SixAndBlank (argument : String) : Prop where
  six : fieldCount argument = 6
  blank : ∃ piece ∈ argument.toList.splitOn ',', ∀ c ∈ piece, isBlank c = true

theorem sixFilled_of_fieldCount (hcount : fieldCount argument = 6)
    (hblank : ¬ ∃ piece ∈ argument.toList.splitOn ',', ∀ c ∈ piece, isBlank c = true) :
    SixFilled argument := by
  have hfilled : ∀ piece ∈ argument.toList.splitOn ',', trimChars piece ≠ [] := by
    intro piece hpiece hnil
    exact hblank ⟨piece, hpiece, trimChars_eq_nil_iff.mp hnil⟩
  refine ⟨?_, hfilled⟩
  rw [← hcount, fieldCount, eq_comm, List.countP_eq_length]
  intro piece hpiece
  have hne := hfilled piece hpiece
  rw [ne_eq, trimChars_eq_nil_iff, ← List.all_eq_true] at hne
  simpa using hne

theorem eq_arity_iff_sixAndBlank {number : Nat} (h : ofArgument argument = .error number) :
    number = arity ↔ SixAndBlank argument := by
  obtain ⟨hnot, rfl⟩ := ofArgument_eq_error_iff.mp h
  constructor
  · intro hcount
    refine ⟨hcount, ?_⟩
    by_contra hblank
    exact hnot (sixFilled_of_fieldCount hcount hblank)
  · intro hsix
    exact hsix.six

end Pose

theorem Sequencer.rejected_of_feed {s : Sequencer} {c : Command} {number : Nat}
    (h : (s.feed c).2 = some number) :
    c.keyword = "GOTO" ∧ Pose.ofArgument (c.argument.getD "") = .error number :=
  feed_eq_some_iff.mp h

theorem Document.exists_rejected_of_translate {budget : Budget} {index line number : Nat}
    {d : Document} {name : String}
    (h : (d.translate budget index).1 = .error ⟨name, line, .malformedMove number⟩) :
    ∃ listing c, Listing.parse budget d.name d.source = .ok listing ∧
      ⟨line, c⟩ ∈ listing.entries ∧ c.keyword = "GOTO" ∧
      Pose.ofArgument (c.argument.getD "") = .error number := by
  unfold translate at h
  split at h
  · cases h
  · next listing hlisting =>
    have hfollow := Sequencer.follow_snd {} listing.entries
    split at h
    · next s place found hstop =>
      cases h
      rw [hstop] at hfollow
      obtain ⟨⟨_, c⟩, hmem, hrejection⟩ := List.exists_of_findSome?_eq_some hfollow.symm
      obtain ⟨_, hfound, heq⟩ := Option.map_eq_some_iff.mp hrejection
      cases heq
      exact ⟨listing, c, hlisting, hmem, Command.found?_role_eq_some.mp hfound⟩
    · cases h

theorem Cause.message_malformedMove_eq_iff {number : Nat} :
    (Cause.malformedMove number).message = "move needs 6 pose fields, found 6" ↔
      number = Pose.arity := by
  have hmessage : "move needs 6 pose fields, found 6" =
      (Cause.malformedMove Pose.arity).message := by decide
  rw [hmessage, Cause.message, Cause.message, String.append_right_inj, Nat.repr_inj]

/-- A move is not rejected with the number of fields that it needs, unless its argument has that
many filled pieces and a blank one besides. This holds of every argument, whatever the sequencer
has seen, and for every document; in that one case the message of the fault contradicts itself. -/
theorem malformed_ne_arity_iff (number : Nat) :
    (∀ argument, Pose.ofArgument argument = .error number →
      (number ≠ Pose.arity ↔ ¬ Pose.SixAndBlank argument)) ∧
    (∀ (s : Sequencer) (c : Command), (s.feed c).2 = some number →
      c.keyword = "GOTO" ∧
        (number ≠ Pose.arity ↔ ¬ Pose.SixAndBlank (c.argument.getD ""))) ∧
    (∀ (budget : Budget) (index : Nat) (d : Document) (name : String) (line : Nat),
      (d.translate budget index).1 = .error ⟨name, line, .malformedMove number⟩ →
        ∃ listing c, Listing.parse budget d.name d.source = .ok listing ∧
          ⟨line, c⟩ ∈ listing.entries ∧ c.keyword = "GOTO" ∧
          (number ≠ Pose.arity ↔ ¬ Pose.SixAndBlank (c.argument.getD ""))) ∧
    ((Cause.malformedMove number).message ≠ "move needs 6 pose fields, found 6" ↔
      number ≠ Pose.arity) := by
  refine ⟨?_, ?_, ?_, not_congr Cause.message_malformedMove_eq_iff⟩
  · intro argument h
    exact not_congr (Pose.eq_arity_iff_sixAndBlank h)
  · intro s c h
    obtain ⟨hgoto, hrejected⟩ := Sequencer.rejected_of_feed h
    exact ⟨hgoto, not_congr (Pose.eq_arity_iff_sixAndBlank hrejected)⟩
  · intro budget index d name line h
    obtain ⟨listing, c, hlisting, hmem, hgoto, hrejected⟩ :=
      Document.exists_rejected_of_translate h
    exact ⟨listing, c, hlisting, hmem, hgoto,
      not_congr (Pose.eq_arity_iff_sixAndBlank hrejected)⟩

theorem malformed_ne_arity_iff_gap :
    Pose.ofArgument "1,2,,4,5,6" = .error 5 ∧ ¬ Pose.SixAndBlank "1,2,,4,5,6" ∧
    Pose.ofArgument "1,2,,3,4,5,6" = .error 6 ∧ Pose.SixAndBlank "1,2,,3,4,5,6" := by
  have hfive : Pose.ofArgument "1,2,,4,5,6" = .error 5 := by decide +kernel
  have hsix : Pose.ofArgument "1,2,,3,4,5,6" = .error 6 := by decide +kernel
  exact ⟨hfive, ((malformed_ne_arity_iff 5).1 _ hfive).mp (by decide), hsix,
    not_not.mp fun hnot => ((malformed_ne_arity_iff 6).1 _ hsix).mpr hnot rfl⟩

/-- A slash after the last field becomes one more comma, and the fault then says that the six
fields which are needed were found. -/
theorem malformed_trailing_separator :
    Pose.ofArgument "1,2,3,4,5,6," = .error Pose.arity ∧
    (Sequencer.feed {} ⟨"GOTO", some "1,2,3,4,5,6,"⟩).2 = some Pose.arity ∧
    ((Document.mk "u.cl" "GOTO/1,2,3,4,5,6/").translate .unlimited 0).1 =
      .error ⟨"u.cl", 1, .malformedMove Pose.arity⟩ ∧
    Fault.message ⟨"u.cl", 1, .malformedMove Pose.arity⟩ =
      "Error in u.cl line 1: move needs 6 pose fields, found 6" := by
  refine ⟨?_, ?_, ?_, ?_⟩
  all_goals decide +kernel

end PressPath
