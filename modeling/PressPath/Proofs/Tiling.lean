import PressPath.Proofs.ByteOrder
import PressPath.Proofs.Derivation
import PressPath.Proofs.Reading

/-! The grammar loses nothing of a text. The keyword and the segments of a command lie
one after another from the first byte of the text to the last, with one slash between two
of them, whatever the text is made of; so their texts joined by slashes are the text. -/
namespace PressPath

namespace Text

theorem utf8ByteSize_ofList (cs : List Char) : (String.ofList cs).utf8ByteSize = byteLength cs := by
  induction cs with
  | nil => rfl
  | cons c cs ih =>
    rw [String.ofList_cons, String.utf8ByteSize_append, String.utf8ByteSize_singleton, ih,
      byteLength_cons]

theorem byteLength_toList (text : String) : byteLength text.toList = text.utf8ByteSize := by
  rw [← utf8ByteSize_ofList, String.ofList_toList]

variable {text : String} {front rest : List Char}

theorem isValid_byteLength (h : text.toList = front ++ rest) :
    (⟨byteLength front⟩ : String.Pos.Raw).IsValid text := by
  apply String.Pos.Raw.isValid_iff_exists_append.mpr
  refine ⟨String.ofList front, String.ofList rest, ?_, ?_⟩
  · rw [← String.ofList_append, ← h, String.ofList_toList]
  · rw [String.rawEndPos, utf8ByteSize_ofList]

theorem length_flatMap_utf8EncodeChar (cs : List Char) :
    (cs.flatMap String.utf8EncodeChar).length = byteLength cs := by
  induction cs with
  | nil => rfl
  | cons c cs ih =>
    rw [List.flatMap_cons, List.length_append, String.length_utf8EncodeChar, ih, byteLength_cons]

theorem byteList_slash (h : text.toList = front ++ '/' :: rest) :
    (byteList text)[byteLength front]? = some 0x2F := by
  have hslash : String.utf8EncodeChar '/' = [0x2F] := by decide
  rw [byteList_eq_flatMap, h, List.flatMap_append, List.flatMap_cons, hslash,
    ← length_flatMap_utf8EncodeChar]
  simp

end Text

namespace Grammar
open Text Command

structure Token.Bounded (text : String) (t : Token Rule) : Prop where
  start_le_stop : t.start ≤ t.stop
  start_valid : (⟨t.start⟩ : String.Pos.Raw).IsValid text
  stop_valid : (⟨t.stop⟩ : String.Pos.Raw).IsValid text

structure Token.Solid (text : String) (t : Token Rule) : Prop extends t.Bounded text where
  slash : '/' ∉ (tokenText text.toList t).toList

/-- The tokens cover the text from an offset to its end: each begins one byte after the one before
it has ended, and that byte is a slash. -/
inductive Tiles (text : String) : Nat → List (Token Rule) → Prop where
  | last {t : Token Rule} (solid : t.Solid text) (stop : t.stop = text.utf8ByteSize) :
      Tiles text t.start [t]
  | next {t : Token Rule} {others : List (Token Rule)} (solid : t.Solid text)
      (slash : (byteList text)[t.stop]? = some 0x2F) (tail : Tiles text (t.stop + 1) others) :
      Tiles text t.start (t :: others)

variable {text : String} {front piece rest : List Char} {t : Token Rule}
  {tokens : List (Token Rule)}

theorem Tiles.bounded {offset : Nat} (h : Tiles text offset tokens) (ht : t ∈ tokens) :
    t.Bounded text := by
  induction h with
  | last solid _ =>
    rw [List.mem_singleton.mp ht]
    exact solid.toBounded
  | next solid _ _ ih =>
    rcases List.mem_cons.mp ht with rfl | hmem
    · exact solid.toBounded
    · exact ih hmem

theorem bounded_of_append (h : text.toList = front ++ (piece ++ rest)) (rule : Rule) :
    Token.Bounded text ⟨rule, byteLength front, byteLength front + byteLength piece⟩ where
  start_le_stop := Nat.le_add_right _ _
  start_valid := isValid_byteLength h
  stop_valid := by
    rw [← byteLength_append]
    rw [← List.append_assoc] at h
    exact isValid_byteLength h

theorem solid_of_append (h : text.toList = front ++ (piece ++ rest)) (hpiece : '/' ∉ piece)
    (rule : Rule) :
    Token.Solid text ⟨rule, byteLength front, byteLength front + byteLength piece⟩ where
  toBounded := bounded_of_append h rule
  slash := by
    rw [tokenText, h, slice_append, String.toList_ofList]
    exact hpiece

theorem tiles_segmentTokens {segments : List (List Char)} (hpiece : '/' ∉ piece)
    (hsegments : ∀ segment ∈ segments, '/' ∉ segment)
    (h : text.toList = front ++ (piece ++ segments.flatMap ('/' :: ·))) (rule : Rule) :
    Tiles text (byteLength front)
      (⟨rule, byteLength front, byteLength front + byteLength piece⟩ ::
        segmentTokens (byteLength front + byteLength piece) segments) := by
  induction segments generalizing front piece rule with
  | nil =>
    apply Tiles.last (solid_of_append h hpiece rule)
    rw [← byteLength_toList, h]
    simp
  | cons segment rest ih =>
    have hslash : text.toList =
        (front ++ piece) ++ '/' :: (segment ++ rest.flatMap ('/' :: ·)) := by
      rw [h]
      simp
    -- What comes before the next token is this piece and a slash more.
    have hfront : text.toList =
        (front ++ piece ++ ['/']) ++ (segment ++ rest.flatMap ('/' :: ·)) := by
      rw [hslash]
      simp
    have hlength : byteLength (front ++ piece ++ ['/']) =
        byteLength front + byteLength piece + 1 := by
      rw [byteLength_append, byteLength_append]
      rfl
    have htail := ih (hsegments segment (by simp))
      (fun other hother => hsegments other (by simp [hother])) hfront .segment
    rw [hlength] at htail
    apply Tiles.next (solid_of_append h hpiece rule)
    · rw [← byteLength_append]
      exact byteList_slash hslash
    · exact htail

theorem length_segmentTokens (offset : Nat) (segments : List (List Char)) :
    (segmentTokens offset segments).length = segments.length := by
  induction segments generalizing offset with
  | nil => rfl
  | cons segment rest ih => simp [segmentTokens, ih]

/-! ## The tokens of a text -/

section Cut

variable {head : List Char} {pieces : List (List Char)}

theorem commandTokens_of_splitOn (hsplit : text.toList.splitOn '/' = head :: pieces) :
    commandTokens text.toList = ⟨.command, 0, text.utf8ByteSize⟩ ::
      ⟨.keyword, 0, byteLength head⟩ :: segmentTokens (byteLength head) pieces := by
  rw [commandTokens, hsplit, byteLength_toList]

theorem tiles_of_splitOn (hsplit : text.toList.splitOn '/' = head :: pieces) :
    Tiles text 0
      (⟨.keyword, 0, byteLength head⟩ :: segmentTokens (byteLength head) pieces) := by
  have hpieces := notMem_of_splitOn_eq_cons hsplit
  have htext : text.toList = [] ++ (head ++ pieces.flatMap ('/' :: ·)) :=
    eq_append_flatMap_of_splitOn hsplit
  have hsegments : ∀ segment ∈ pieces, '/' ∉ segment := by
    intro segment hsegment
    exact hpieces segment (by simp [hsegment])
  simpa using tiles_segmentTokens (hpieces head (by simp)) hsegments htext .keyword

theorem length_pieces_of_splitOn (hsplit : text.toList.splitOn '/' = head :: pieces) :
    pieces.length = text.toList.count '/' := by
  have hlength := length_splitOn '/' text.toList
  rw [hsplit, List.length_cons] at hlength
  omega

theorem intercalate_tokenText (hsplit : text.toList.splitOn '/' = head :: pieces) :
    "/".intercalate (((⟨.keyword, 0, byteLength head⟩ : Token Rule) ::
      segmentTokens (byteLength head) pieces).map (tokenText text.toList)) = text := by
  have htext := eq_append_flatMap_of_splitOn hsplit
  have hhead := tokenText_front .keyword head (pieces.flatMap ('/' :: ·))
  have hsegments := map_tokenText_segmentTokens head pieces
  rw [← htext] at hhead hsegments
  apply String.toList_inj.mp
  rw [List.map_cons, hhead, hsegments, ← List.map_cons, ← hsplit,
    String.toList_intercalate]
  simp [Function.comp_def, List.intercalate_splitOn]

end Cut

theorem bounded_whole (text : String) (rule : Rule) :
    Token.Bounded text ⟨rule, 0, text.utf8ByteSize⟩ := by
  have htext : text.toList = [] ++ (text.toList ++ []) := by simp
  simpa [byteLength_toList] using bounded_of_append htext rule

theorem bounded_atEnd (text : String) (rule : Rule) :
    Token.Bounded text ⟨rule, text.utf8ByteSize, text.utf8ByteSize⟩ := by
  have htext : text.toList = text.toList ++ ([] ++ []) := by simp
  simpa [byteLength_toList] using bounded_of_append htext rule

theorem bounded_of_mem_commandTokens (ht : t ∈ commandTokens text.toList) : t.Bounded text := by
  obtain ⟨head, pieces, hsplit⟩ :=
    List.exists_cons_of_ne_nil (List.splitOn_ne_nil '/' text.toList)
  rw [commandTokens_of_splitOn hsplit] at ht
  rcases List.mem_cons.mp ht with rfl | hinner
  · exact bounded_whole text .command
  · exact (tiles_of_splitOn hsplit).bounded hinner

theorem bounded_of_mem_lineTokens (ht : t ∈ lineTokens text.toList) : t.Bounded text := by
  rw [lineTokens, byteLength_toList] at ht
  rcases List.mem_append.mp ht with hbody | hend
  · split at hbody
    · rw [List.mem_singleton.mp hbody]
      exact bounded_whole text .comment
    · exact bounded_of_mem_commandTokens hbody
  · rw [List.mem_singleton.mp hend]
    exact bounded_atEnd text .endOfInput

/-- A rule takes the whole text and gives the tokens: they are what the recognizer finds, and
there is no other outcome. -/
structure TakesAll (rule : Rule) (text : String) (tokens : List (Token Rule)) : Prop where
  recognized : recognize .unlimited rule text.toList = .ok tokens
  outcome_iff : ∀ outcome, Derives rule.expr (.ofInput text.toList) outcome ↔
    outcome = some (tokens, ⟨text.utf8ByteSize, []⟩)

theorem takesAll_of_run {rule : Rule}
    (h : rule.expr.run (.ofInput text.toList) = some (tokens, ⟨byteLength text.toList, []⟩)) :
    TakesAll rule text tokens where
  recognized := recognize_of_run h
  outcome_iff := by
    intro outcome
    rw [derives_iff rule.loopsConsume_expr, h, byteLength_toList]

/-- A line and a command take every text whole. The tokens of a command are a keyword and as many
segments as the text has slashes; they cover the text, and give it back. A text that starts with
a semicolon is a comment as a line, and still a command by itself. -/
theorem tokens_lossless (text : String) :
    ∃ (head : Token Rule) (segments ofCommand ofLine : List (Token Rule)),
      ofCommand = ⟨.command, 0, text.utf8ByteSize⟩ :: head :: segments ∧
      ofLine = (if text.toList.head? = some ';' then [⟨.comment, 0, text.utf8ByteSize⟩]
        else ofCommand) ++ [⟨.endOfInput, text.utf8ByteSize, text.utf8ByteSize⟩] ∧
      TakesAll .command text ofCommand ∧
      TakesAll .line text ofLine ∧
      head.rule = .keyword ∧
      (∀ t ∈ segments, t.rule = .segment) ∧
      segments.length = text.toList.count '/' ∧
      Tiles text 0 (head :: segments) ∧
      (∀ t ∈ ofCommand ++ ofLine, t.Bounded text) ∧
      "/".intercalate ((head :: segments).map (tokenText text.toList)) = text := by
  obtain ⟨head, pieces, hsplit⟩ :=
    List.exists_cons_of_ne_nil (List.splitOn_ne_nil '/' text.toList)
  refine ⟨_, _, _, lineTokens text.toList, commandTokens_of_splitOn hsplit, ?_,
    takesAll_of_run (run_command _), takesAll_of_run (run_line _), rfl,
    fun t => rule_of_mem_segmentTokens, ?_, tiles_of_splitOn hsplit, ?_,
    intercalate_tokenText hsplit⟩
  · rw [lineTokens, byteLength_toList]
  · rw [length_segmentTokens, length_pieces_of_splitOn hsplit]
  · intro t ht
    rcases List.mem_append.mp ht with hcommand | hline
    · exact bounded_of_mem_commandTokens hcommand
    · exact bounded_of_mem_lineTokens hline

-- Two bytes for one character, an empty segment between slashes and one at the end.
example : recognize .unlimited .line "ü//x/".toList =
    .ok [⟨.command, 0, 6⟩, ⟨.keyword, 0, 2⟩, ⟨.segment, 3, 3⟩, ⟨.segment, 4, 5⟩, ⟨.segment, 6, 6⟩,
      ⟨.endOfInput, 6, 6⟩] := by
  decide +kernel

end Grammar
end PressPath
