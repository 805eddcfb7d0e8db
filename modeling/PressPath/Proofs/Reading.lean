import PressPath.Proofs.Tokens
import PressPath.Proofs.Trimming
import PressPath.Job

/-! Reading without the grammar. A line is cut at its slashes, a document at its
line feeds; with the budget unlimited no line is refused, and both readers of a
document find the commands that plain cutting finds. -/
namespace PressPath
open Grammar Text

theorem Text.slice_append (front middle rest : List Char) :
    slice (byteLength front) (byteLength front + byteLength middle) (front ++ (middle ++ rest)) =
      middle := by
  unfold slice
  rw [dropBytes_append, Nat.add_sub_cancel_left, takeBytes_append]

namespace Command

/-- The command on a line: what stands before the first slash of the trimmed line, and the
pieces after it. -/
def ofLine? (line : List Char) : Option Command :=
  if (trimChars line).head? = some ';' then none
  else match (trimChars line).splitOn '/' with
    | [] => none
    | head :: segments =>
      if (trimChars head).isEmpty then none
      else some (ofParts (String.ofList (trimChars head)) (segments.map String.ofList))

theorem ofLine?_congr {line other : List Char} (h : trimChars line = trimChars other) :
    ofLine? line = ofLine? other := by
  unfold ofLine?
  rw [h]

theorem tokenText_front (rule : Rule) (front rest : List Char) :
    tokenText (front ++ rest) ⟨rule, 0, byteLength front⟩ = String.ofList front := by
  have hslice := slice_append [] front rest
  simp only [byteLength_nil, Nat.zero_add, List.nil_append] at hslice
  rw [tokenText, hslice]

theorem map_tokenText_segmentTokens (front : List Char) (segments : List (List Char)) :
    (segmentTokens (byteLength front) segments).map
        (tokenText (front ++ segments.flatMap ('/' :: ·))) =
      segments.map String.ofList := by
  induction segments generalizing front with
  | nil => rfl
  | cons segment rest ih =>
    have hslash : byteLength (front ++ ['/']) = byteLength front + 1 := by
      rw [byteLength_append]
      rfl
    have hsegment : byteLength (front ++ ['/'] ++ segment) =
        byteLength front + 1 + byteLength segment := by
      rw [byteLength_append, hslash]
    have hrest := ih (front ++ ['/'] ++ segment)
    rw [hsegment] at hrest
    have htext := slice_append (front ++ ['/']) segment (rest.flatMap ('/' :: ·))
    rw [hslash] at htext
    simp only [List.append_assoc, List.cons_append, List.nil_append] at hrest htext
    simp only [segmentTokens, List.map_cons, List.flatMap_cons, List.cons_append, tokenText] at hrest ⊢
    rw [htext]
    exact congrArg _ hrest

theorem filter_segmentTokens (offset stop : Nat) (segments : List (List Char)) :
    (segmentTokens offset segments ++ [(⟨.endOfInput, stop, stop⟩ : Token Rule)]).filter
      (fun token => token.rule == .segment) = segmentTokens offset segments := by
  have hall : (segmentTokens offset segments).filter (fun token => token.rule == .segment) =
      segmentTokens offset segments := by
    apply List.filter_eq_self.mpr
    intro token htoken
    simp [rule_of_mem_segmentTokens htoken]
  rw [List.filter_append, hall]
  simp

theorem ofTokens?_commandTokens (text : List Char) (stop : Nat) :
    ofTokens? text (commandTokens text ++ [⟨.endOfInput, stop, stop⟩]) =
      match text.splitOn '/' with
      | [] => none
      | head :: segments =>
        if (trimChars head).isEmpty then none
        else some (ofParts (String.ofList (trimChars head)) (segments.map String.ofList)) := by
  obtain ⟨head, segments, hsplit⟩ := List.exists_cons_of_ne_nil (List.splitOn_ne_nil '/' text)
  have htext := eq_append_flatMap_of_splitOn hsplit
  have hhead := tokenText_front .keyword head (segments.flatMap ('/' :: ·))
  have hsegments := map_tokenText_segmentTokens head segments
  rw [← htext] at hhead hsegments
  unfold commandTokens
  rw [hsplit]
  simp only [List.cons_append, ofTokens?, hhead, filter_segmentTokens, hsegments]
  simp [trim]

theorem ofTokens?_lineTokens (line : List Char) :
    ofTokens? (trimChars line) (lineTokens (trimChars line)) = ofLine? line := by
  unfold lineTokens ofLine?
  by_cases hcomment : (trimChars line).head? = some ';'
  · rw [if_pos hcomment, if_pos hcomment]
    rfl
  · rw [if_neg hcomment, if_neg hcomment, ofTokens?_commandTokens]

/-- The grammar refuses no line, and finds the command that cutting finds. -/
theorem parseLine_unlimited (text : String) :
    parseLine .unlimited text = .ok (ofLine? text.toList) := by
  unfold parseLine
  dsimp only
  rw [recognize_line]
  by_cases hempty : trimChars text.toList = []
  · simp [hempty, ofLine?]
  · rw [if_neg (by simpa using hempty)]
    exact congrArg Except.ok (ofTokens?_lineTokens text.toList)

end Command

namespace Listing

def entriesOf (number : Nat) (lines : List (List Char)) : List NumberedCommand :=
  (lines.zipIdx number).filterMap fun (line, n) => (Command.ofLine? line).map (⟨n, ·⟩)

theorem entriesOf_cons (number : Nat) (line : List Char) (rest : List (List Char)) :
    entriesOf number (line :: rest) =
      ((Command.ofLine? line).map (NumberedCommand.mk number)).toList ++
        entriesOf (number + 1) rest := by
  unfold entriesOf
  rw [List.zipIdx_cons, List.filterMap_cons]
  dsimp only
  cases Command.ofLine? line <;> rfl

theorem entriesOf_append (number : Nat) (first second : List (List Char)) :
    entriesOf number (first ++ second) =
      entriesOf number first ++ entriesOf (number + first.length) second := by
  unfold entriesOf
  rw [List.zipIdx_append, List.filterMap_append]

theorem map_command_entriesOf (number : Nat) (lines : List (List Char)) :
    (entriesOf number lines).map NumberedCommand.command = lines.filterMap Command.ofLine? := by
  induction lines generalizing number with
  | nil => rfl
  | cons line rest ih =>
    rw [entriesOf_cons, List.map_append, ih, List.filterMap_cons]
    cases Command.ofLine? line <;> rfl

theorem mem_entriesOf_iff {number : Nat} {lines : List (List Char)} {entry : NumberedCommand} :
    entry ∈ entriesOf number lines ↔
      ∃ k line, lines[k]? = some line ∧ entry.line = number + k ∧
        Command.ofLine? line = some entry.command := by
  unfold entriesOf
  rw [List.mem_filterMap]
  constructor
  · rintro ⟨⟨line, n⟩, hmem, hentry⟩
    obtain ⟨c, hc, rfl⟩ := Option.map_eq_some_iff.mp hentry
    obtain ⟨k, rfl⟩ := Nat.exists_eq_add_of_le (List.le_snd_of_mem_zipIdx hmem)
    exact ⟨k, line, List.mk_add_mem_zipIdx_iff_getElem?.mp hmem, rfl, hc⟩
  · rintro ⟨k, line, hline, hnumber, hc⟩
    refine ⟨(line, number + k), List.mk_add_mem_zipIdx_iff_getElem?.mpr hline, ?_⟩
    dsimp only
    rw [hc, ← hnumber]
    rfl

theorem collect_locate (name : String) (text : List Char) (number offset : Nat)
    (lines : List (List Char)) :
    collect .unlimited name text (SourceLine.locate number offset lines) =
      .ok (entriesOf number lines) := by
  induction lines generalizing number offset with
  | nil => rfl
  | cons line rest ih =>
    -- A located line has its end and is read without it; trimming makes them the same.
    have hline : Command.ofLine? (withoutEnd line) = Command.ofLine? line :=
      Command.ofLine?_congr (trimChars_withoutEnd line)
    simp only [SourceLine.locate, collect, ih, SourceLine.command?, Command.parseLine_unlimited,
      String.toList_ofList, hline, entriesOf_cons]
    cases Command.ofLine? line <;> rfl

end Listing

namespace Text

/-- Pieces of a text, all but the last of which were ended by a line feed. What an ended piece
becomes is given, and an empty last piece is no line. -/
def endedWith (f : List Char → List Char) : List (List Char) → List (List Char)
  | [] => []
  | [last] => if last.isEmpty then [] else [last]
  | piece :: rest => f piece :: endedWith f rest

theorem endedWith_cons_cons (f : List Char → List Char) (piece second : List Char)
    (rest : List (List Char)) :
    endedWith f (piece :: second :: rest) = f piece :: endedWith f (second :: rest) := rfl

theorem endedLines_eq_endedWith (pieces : List (List Char)) :
    endedLines pieces = endedWith withoutReturn pieces := by
  fun_induction endedLines pieces with
  | case1 => rfl
  | case2 last h => simp [endedWith, h]
  | case3 last h => simp [endedWith, h]
  | case4 piece rest h ih => rw [endedWith, ih]; exact h

theorem consLine_endedWith {c : Char} (hc : c ≠ '\n') (first : List Char)
    (rest : List (List Char)) :
    consLine c (endedWith (· ++ ['\n']) (first :: rest)) =
      endedWith (· ++ ['\n']) ((c :: first) :: rest) := by
  unfold consLine
  rw [if_neg hc]
  cases rest with
  | nil => cases first <;> rfl
  | cons second rest => rfl

theorem linesWithEnds_eq_endedWith (cs : List Char) :
    linesWithEnds cs = endedWith (· ++ ['\n']) (cs.splitOn '\n') := by
  induction cs with
  | nil => rfl
  | cons c cs ih =>
    change consLine c (linesWithEnds cs) = _
    obtain ⟨first, rest, hsplit⟩ := List.exists_cons_of_ne_nil (List.splitOn_ne_nil '\n' cs)
    rw [ih, List.splitOn_cons_eq_if_modifyHead, hsplit]
    by_cases hc : c = '\n'
    · simp [consLine, hc, endedWith]
    · rw [consLine_endedWith hc, if_neg (by simpa using hc)]
      rfl

end Text

namespace Listing

theorem entriesOf_endedWith {f : List Char → List Char}
    (hf : ∀ piece, trimChars (f piece) = trimChars piece) (number : Nat)
    (pieces : List (List Char)) :
    entriesOf number (endedWith f pieces) = entriesOf number pieces := by
  induction pieces generalizing number with
  | nil => rfl
  | cons piece rest ih =>
    cases rest with
    | nil => cases piece <;> rfl
    | cons second rest =>
      rw [endedWith_cons_cons, entriesOf_cons number (f piece), ih, Command.ofLine?_congr (hf piece),
        entriesOf_cons number piece]

/-- The numbered commands of a source: line feeds separate its lines, which count from one. -/
def ofSource (source : String) : List NumberedCommand :=
  entriesOf 1 (source.toList.splitOn '\n')

theorem parse_unlimited (name source : String) :
    parse .unlimited name source = .ok ⟨name, ofSource source⟩ := by
  unfold parse SourceLine.ofText ofSource
  rw [collect_locate, linesWithEnds_eq_endedWith, entriesOf_endedWith trimChars_concat_newline]

end Listing

/-- Both readers of a document see the same commands. -/
theorem Document.bareCommands_unlimited (d : Document) :
    d.bareCommands .unlimited =
      (Listing.ofSource d.source).map NumberedCommand.command := by
  unfold bareCommands bareLines Listing.ofSource
  simp only [Command.parseLine_unlimited, String.toList_ofList]
  rw [endedLines_eq_endedWith, ← Listing.entriesOf_endedWith trimChars_withoutReturn,
    Listing.map_command_entriesOf]

end PressPath
