import PressPath.Proofs.NormalForm
import Mathlib.Data.List.Nodup

/-! Where lines and refused texts lie. A line of a text is given by what stands in
front of it; its number counts the line feeds there. A refused line is marked
from its first byte to the end of its text, and both ends of the mark lie on the
line that a command there would have been found on. -/
namespace PressPath
open Grammar Text

namespace Text

/-- A line of a text, and what stands in front of it: whole lines before it, a line feed or the
end of the text behind it, and no line feed in it. -/
structure IsLine (text front line : List Char) : Prop where
  starts : ∀ c ∈ front.getLast?, c = '\n'
  unbroken : '\n' ∉ line
  ends : ∃ rest, text = front ++ (line ++ rest) ∧ ∀ c ∈ rest.head?, c = '\n'

def placed (front : List Char) : List (List Char) → List (List Char × List Char)
  | [] => []
  | piece :: rest => (front, piece) :: placed (front ++ (piece ++ ['\n'])) rest

theorem placed_append (front : List Char) (first second : List (List Char)) :
    placed front (first ++ second) =
      placed front first ++ placed (front ++ first.flatMap (· ++ ['\n'])) second := by
  induction first generalizing front with
  | nil => simp [placed]
  | cons piece rest ih => simp [placed, ih]

theorem mem_placed_iff {start front line : List Char} {pieces : List (List Char)} :
    (front, line) ∈ placed start pieces ↔
      ∃ before after, pieces = before ++ line :: after ∧
        front = start ++ before.flatMap (· ++ ['\n']) := by
  constructor
  · intro h
    induction pieces generalizing start with
    | nil => simp [placed] at h
    | cons piece rest ih =>
      rcases List.mem_cons.mp h with heq | h
      · cases heq
        exact ⟨[], rest, rfl, by simp⟩
      · obtain ⟨before, after, rfl, rfl⟩ := ih h
        exact ⟨piece :: before, after, rfl, by simp⟩
  · rintro ⟨before, after, rfl, rfl⟩
    rw [placed_append]
    exact List.mem_append_right _ List.mem_cons_self

theorem getLast?_flatMap_concat (x : Char) (pieces : List (List Char)) :
    ∀ c ∈ (pieces.flatMap (· ++ [x])).getLast?, c = x := by
  intro c hc
  rcases List.eq_nil_or_concat pieces with rfl | ⟨front, last, rfl⟩
  · simp at hc
  · simpa [eq_comm] using hc

theorem isLine_iff_mem_placed {text front line : List Char} :
    IsLine text front line ↔ (front, line) ∈ placed [] (text.splitOn '\n') := by
  rw [mem_placed_iff]
  constructor
  · rintro ⟨hstarts, hline, rest, rfl, hends⟩
    have hafter : ∃ after, (line ++ rest).splitOn '\n' = line :: after := by
      cases rest with
      | nil => exact ⟨[], by rw [List.append_nil, List.splitOn_eq_singleton hline]⟩
      | cons c rest =>
        rw [hends c rfl, List.splitOn_append_cons_self_of_not_mem hline]
        exact ⟨_, rfl⟩
    obtain ⟨after, hafter⟩ := hafter
    rcases List.eq_nil_or_concat front with rfl | ⟨before, last, rfl⟩
    · exact ⟨[], after, hafter, rfl⟩
    · rw [List.concat_eq_append] at hstarts ⊢
      have hlast : last = '\n' := hstarts last (by simp)
      refine ⟨before.splitOn '\n', after, ?_, ?_⟩
      · rw [hlast, List.append_assoc, List.singleton_append, List.splitOn_append_cons_self, hafter]
      · rw [hlast, flatMap_concat_splitOn, List.nil_append]
  · rintro ⟨before, after, hsplit, rfl⟩
    refine ⟨getLast?_flatMap_concat '\n' before, ?_, after.flatMap ('\n' :: ·), ?_, ?_⟩
    · intro hmem
      have hpiece : line ∈ text.splitOn '\n' := by simp [hsplit]
      exact (mem_of_mem_splitOn hpiece hmem).2 rfl
    · rw [List.nil_append, ← intercalate_append_cons, ← hsplit, List.intercalate_splitOn]
    · cases after <;> simp

theorem count_le_of_mem_placed {start front line : List Char} {pieces : List (List Char)}
    (h : (front, line) ∈ placed start pieces) : start.count '\n' ≤ front.count '\n' := by
  obtain ⟨before, after, -, rfl⟩ := mem_placed_iff.mp h
  simp

theorem pairwise_count_placed (start : List Char) (pieces : List (List Char)) :
    (placed start pieces).Pairwise fun a b => a.1.count '\n' < b.1.count '\n' := by
  induction pieces generalizing start with
  | nil => exact .nil
  | cons piece rest ih =>
    refine .cons ?_ (ih _)
    rintro ⟨front, line⟩ hmem
    have hle := count_le_of_mem_placed hmem
    simp only [List.count_append, List.count_singleton_self] at hle
    dsimp only
    omega

theorem IsLine.unique {text front line front' line' : List Char} (h : IsLine text front line)
    (h' : IsLine text front' line') (hcount : front.count '\n' = front'.count '\n') :
    front = front' ∧ line = line' := by
  have hnodup : ((placed [] (text.splitOn '\n')).map fun p => p.1.count '\n').Nodup :=
    List.pairwise_map.mpr ((pairwise_count_placed [] _).imp fun hlt => Nat.ne_of_lt hlt)
  have hsame := List.inj_on_of_nodup_map hnodup (isLine_iff_mem_placed.mp h)
    (isLine_iff_mem_placed.mp h') hcount
  exact Prod.mk.inj hsame

def firstFilled? (text : List Char) : Option (List Char × List Char) :=
  (placed [] (text.splitOn '\n')).find? fun place => !(trimChars place.2).isEmpty

theorem firstFilled?_eq_some {text : List Char} {place : List Char × List Char}
    (h : firstFilled? text = some place) :
    IsLine text place.1 place.2 ∧ trimChars place.2 ≠ [] ∧
      ∀ front line, IsLine text front line → front.count '\n' < place.1.count '\n' →
        trimChars line = [] := by
  obtain ⟨hfilled, before, after, hplaced, hbefore⟩ := List.find?_eq_some_iff_append.mp h
  have hpairwise := pairwise_count_placed [] (text.splitOn '\n')
  rw [hplaced, List.pairwise_append] at hpairwise
  refine ⟨?_, by simpa using hfilled, ?_⟩
  · rw [isLine_iff_mem_placed, hplaced]
    simp
  · intro front line hline hlt
    rw [isLine_iff_mem_placed, hplaced] at hline
    rcases List.mem_append.mp hline with hmem | hmem
    · simpa using hbefore _ hmem
    · -- This line and those after it have at least as many line feeds in front.
      rcases List.mem_cons.mp hmem with rfl | hmem
      · exact absurd hlt (Nat.lt_irrefl _)
      · have hgt := (List.pairwise_cons.mp hpairwise.2.1).1 _ hmem
        dsimp only at hgt
        omega

theorem firstFilled?_eq_none_iff {text : List Char} :
    firstFilled? text = none ↔ ∀ front line, IsLine text front line → trimChars line = [] := by
  unfold firstFilled?
  rw [List.find?_eq_none]
  constructor
  · intro h front line hline
    simpa using h _ (isLine_iff_mem_placed.mp hline)
  · rintro h ⟨front, line⟩ hmem
    simpa using h front line (isLine_iff_mem_placed.mpr hmem)

/-! Columns. -/

theorem Position.foldl_after_of_unbroken {cs : List Char} (hcs : '\n' ∉ cs) (p : Position) :
    cs.foldl Position.after p = ⟨p.line, p.column + cs.length⟩ := by
  induction cs generalizing p with
  | nil => rfl
  | cons c cs ih =>
    have hc : c ≠ '\n' := fun h => hcs (by simp [h])
    rw [List.foldl_cons, ih fun h => hcs (by simp [h])]
    simp only [Position.after, if_neg hc, List.length_cons, Position.mk.injEq, true_and]
    omega

theorem Position.past_of_starts {front : List Char} (hfront : ∀ c ∈ front.getLast?, c = '\n') :
    Position.past front = ⟨1 + front.count '\n', 1⟩ := by
  have hline := Position.past_line front
  rcases List.eq_nil_or_concat front with rfl | ⟨before, last, rfl⟩
  · rfl
  · rw [List.concat_eq_append] at hfront hline ⊢
    have hlast : last = '\n' := hfront last (by simp)
    rw [← hline, hlast]
    simp [Position.past, Position.after]

theorem Position.past_append_of_starts {front cs : List Char}
    (hfront : ∀ c ∈ front.getLast?, c = '\n') (hcs : '\n' ∉ cs) :
    Position.past (front ++ cs) = ⟨1 + front.count '\n', 1 + cs.length⟩ := by
  have hstart := Position.past_of_starts hfront
  unfold Position.past at hstart ⊢
  rw [List.foldl_append, hstart, Position.foldl_after_of_unbroken hcs]

theorem withoutEnd_concat_newline (piece : List Char) :
    withoutEnd (piece ++ ['\n']) = withoutEnd piece := by
  simp [withoutEnd, isLineEnd]

/-- What a line without line feeds loses at its end are carriage returns, and it loses all of
them. -/
theorem exists_returns {line : List Char} (hline : '\n' ∉ line) :
    ∃ returns, line = withoutEnd line ++ returns ∧ (∀ c ∈ returns, c = '\r') ∧
      ∀ c ∈ (withoutEnd line).getLast?, c ≠ '\r' := by
  have hwhole : withoutEnd line ++ line.rtakeWhile isLineEnd = line :=
    List.rdropWhile_append_rtakeWhile
  refine ⟨line.rtakeWhile isLineEnd, hwhole.symm, ?_, ?_⟩
  · intro c hc
    have hend : isLineEnd c = true := List.mem_rtakeWhile_imp hc
    have hfeed : c ≠ '\n' := by
      rintro rfl
      exact hline (hwhole ▸ List.mem_append_right _ hc)
    simpa [isLineEnd, hfeed] using hend
  · rintro c hc rfl
    have hne : line.rdropWhile isLineEnd ≠ [] := by
      intro hnil
      have : withoutEnd line = [] := hnil
      simp [this] at hc
    have hnot := List.rdropWhile_last_not isLineEnd line hne
    have hlast : (withoutEnd line).getLast? = some ((line.rdropWhile isLineEnd).getLast hne) :=
      List.getLast?_eq_some_getLast hne
    rw [hlast, Option.mem_some] at hc
    exact hnot (by simp [hc, isLineEnd])

end Text

namespace Listing

theorem entriesOf_eq_filterMap_placed (start : List Char) {pieces : List (List Char)}
    (hpieces : ∀ piece ∈ pieces, '\n' ∉ piece) :
    entriesOf (1 + start.count '\n') pieces =
      (placed start pieces).filterMap fun (front, line) =>
        (Command.ofLine? line).map (⟨1 + front.count '\n', ·⟩) := by
  induction pieces generalizing start with
  | nil => rfl
  | cons piece rest ih =>
    have hpiece : piece.count '\n' = 0 := List.count_eq_zero.mpr (hpieces piece (by simp))
    have hnext : 1 + (start ++ (piece ++ ['\n'])).count '\n' = 1 + start.count '\n' + 1 := by
      simp [hpiece]
      omega
    rw [entriesOf_cons, ← hnext, ih _ fun other hother => hpieces other (by simp [hother]),
      placed, List.filterMap_cons]
    dsimp only
    cases Command.ofLine? piece <;> rfl

theorem mem_ofSource_iff {source : String} {entry : NumberedCommand} :
    entry ∈ ofSource source ↔
      ∃ front line, IsLine source.toList front line ∧ entry.line = 1 + front.count '\n' ∧
        Command.ofLine? line = some entry.command := by
  have hplaced : ofSource source = _ := entriesOf_eq_filterMap_placed []
    fun piece hpiece hmem => (mem_of_mem_splitOn hpiece hmem).2 rfl
  rw [hplaced, List.mem_filterMap]
  constructor
  · rintro ⟨⟨front, line⟩, hmem, hentry⟩
    obtain ⟨c, hc, rfl⟩ := Option.map_eq_some_iff.mp hentry
    exact ⟨front, line, isLine_iff_mem_placed.mpr hmem, rfl, hc⟩
  · rintro ⟨front, line, hline, hnumber, hc⟩
    refine ⟨(front, line), isLine_iff_mem_placed.mp hline, ?_⟩
    dsimp only
    rw [hc, ← hnumber]
    rfl

end Listing

theorem Command.parseLine_spent (line : List Char) :
    parseLine .spent (String.ofList line) =
      if (trimChars line).isEmpty then .ok none else .error .budgetSpent := by
  unfold parseLine
  dsimp only
  rw [String.toList_ofList, recognize_spent]

namespace Listing

/-- Without a budget a line passes only if it is blank, and the first that is not is at fault. -/
theorem collect_cons_spent (name : String) (text : List Char) (l : SourceLine)
    (rest : List SourceLine) :
    collect .spent name text (l :: rest) =
      if (trimChars l.text).isEmpty then collect .spent name text rest
      else .error (.inDocument name text l.offset l.stop Refusal.budgetSpent.message) := by
  rw [collect, SourceLine.command?, Command.parseLine_spent]
  by_cases hblank : (trimChars l.text).isEmpty = true
  · rw [if_pos hblank, if_pos hblank]
    dsimp only
    cases collect .spent name text rest <;> rfl
  · rw [if_neg hblank, if_neg hblank]

def mark (name : String) (text : List Char) (place : List Char × List Char) : SyntaxError :=
  .inDocument name text (byteLength place.1) (byteLength place.1 + byteLength (withoutEnd place.2))
    Refusal.budgetSpent.message

theorem collect_locate_spent (name : String) (text : List Char) (number : Nat)
    (start : List Char) (pieces : List (List Char)) :
    collect .spent name text
        (SourceLine.locate number (byteLength start) (endedWith (· ++ ['\n']) pieces)) =
      match (placed start pieces).find? fun place => !(trimChars place.2).isEmpty with
      | none => .ok []
      | some place => .error (mark name text place) := by
  induction pieces generalizing number start with
  | nil => rfl
  | cons piece rest ih =>
    rw [placed, List.find?_cons]
    cases rest with
    | nil =>
      -- The last piece is a line only if it holds something, and else it is blank.
      cases piece with
      | nil => rfl
      | cons c cs =>
        rw [show endedWith (· ++ ['\n']) [c :: cs] = [c :: cs] from rfl, SourceLine.locate,
          collect_cons_spent]
        dsimp only
        rw [trimChars_withoutEnd]
        cases (trimChars (c :: cs)).isEmpty
        · rfl
        · rfl
    | cons second rest =>
      have hnext := ih (number + 1) (start ++ (piece ++ ['\n']))
      rw [byteLength_append] at hnext
      rw [endedWith_cons_cons, SourceLine.locate, collect_cons_spent, hnext]
      dsimp only
      rw [withoutEnd_concat_newline, trimChars_withoutEnd]
      cases (trimChars piece).isEmpty
      · rfl
      · rfl

theorem parse_spent (name source : String) :
    parse .spent name source =
      match firstFilled? source.toList with
      | none => .ok ⟨name, []⟩
      | some place => .error (mark name source.toList place) := by
  have hcollect := collect_locate_spent name source.toList 1 [] (source.toList.splitOn '\n')
  rw [byteLength_nil] at hcollect
  unfold parse SourceLine.ofText firstFilled?
  rw [linesWithEnds_eq_endedWith, hcollect]
  cases (placed [] (source.toList.splitOn '\n')).find? fun place =>
    !(trimChars place.2).isEmpty <;> rfl

end Listing

namespace Text.IsLine

variable {text front line : List Char}

theorem exists_tail (h : IsLine text front line) :
    ∃ tail, text = front ++ (withoutEnd line ++ tail) := by
  obtain ⟨rest, htext, -⟩ := h.ends
  obtain ⟨returns, hreturns, -, -⟩ := exists_returns h.unbroken
  refine ⟨returns ++ rest, ?_⟩
  rw [htext, ← List.append_assoc (withoutEnd line), ← hreturns]

theorem unbroken_withoutEnd (h : IsLine text front line) : '\n' ∉ withoutEnd line := by
  intro hmem
  obtain ⟨returns, hreturns, -, -⟩ := exists_returns h.unbroken
  exact h.unbroken (hreturns ▸ List.mem_append_left _ hmem)

theorem fits_span (h : IsLine text front line) :
    (Extent.span (byteLength front) (byteLength front + byteLength (withoutEnd line))).fits text =
      true := by
  obtain ⟨tail, rfl⟩ := h.exists_tail
  have hstop := isBoundary_append (front ++ withoutEnd line) tail
  rw [byteLength_append, List.append_assoc] at hstop
  simp [Extent.fits, hstop]

theorem slice_span (h : IsLine text front line) :
    slice (byteLength front) (byteLength front + byteLength (withoutEnd line)) text =
      withoutEnd line := by
  obtain ⟨tail, rfl⟩ := h.exists_tail
  exact slice_append front (withoutEnd line) tail

theorem positionAt_start (h : IsLine text front line) :
    positionAt text (byteLength front) = ⟨1 + front.count '\n', 1⟩ := by
  obtain ⟨tail, rfl⟩ := h.exists_tail
  rw [positionAt, takeBytes_append, Position.past_of_starts h.starts]

theorem positionAt_stop (h : IsLine text front line) :
    positionAt text (byteLength front + byteLength (withoutEnd line)) =
      ⟨1 + front.count '\n', 1 + (withoutEnd line).length⟩ := by
  have hunbroken := h.unbroken_withoutEnd
  obtain ⟨tail, rfl⟩ := h.exists_tail
  rw [positionAt, ← byteLength_append, ← List.append_assoc, takeBytes_append,
    Position.past_append_of_starts h.starts hunbroken]

end Text.IsLine

namespace Listing

theorem corners_mark (name : String) {text front line : List Char} (h : IsLine text front line) :
    (mark name text (front, line)).corners = .span ⟨1 + front.count '\n', 1⟩
      ⟨1 + front.count '\n', 1 + (withoutEnd line).length⟩ := by
  rw [← h.positionAt_start, ← h.positionAt_stop]
  rfl

theorem line_mark (name : String) {text front line : List Char} (h : IsLine text front line) :
    (mark name text (front, line)).line = 1 + front.count '\n' := by
  rw [SyntaxError.line, corners_mark name h]
  rfl

theorem parse_spent_eq_error_iff {name source : String} {e : SyntaxError} :
    parse .spent name source = .error e ↔
      ∃ place, firstFilled? source.toList = some place ∧ e = mark name source.toList place := by
  rw [parse_spent]
  cases firstFilled? source.toList <;> simp [eq_comm]

theorem entries_eq_nil_of_parse_spent {name source : String} {listing : Listing}
    (h : parse .spent name source = .ok listing) : listing.entries = [] := by
  rw [parse_spent] at h
  split at h
  · cases h
    rfl
  · cases h

theorem mem_entries_iff {budget : Budget} {name source : String} {listing : Listing}
    (h : parse budget name source = .ok listing) {entry : NumberedCommand} :
    entry ∈ listing.entries ↔
      ∃ front line, IsLine source.toList front line ∧ entry.line = 1 + front.count '\n' ∧
        Command.parseLine budget (String.ofList line) = .ok (some entry.command) := by
  cases budget with
  | unlimited =>
    rw [parse_unlimited] at h
    cases h
    rw [mem_ofSource_iff]
    simp only [Command.parseLine_unlimited, String.toList_ofList, Except.ok.injEq]
  | spent =>
    -- Without a budget no line holds a command, and a listing that is read is empty.
    constructor
    · intro hmem
      simp [entries_eq_nil_of_parse_spent h] at hmem
    · rintro ⟨front, line, -, -, hc⟩
      rw [Command.parseLine_spent] at hc
      split at hc <;> cases hc

theorem pairwise_line_of_parse {budget : Budget} {name source : String} {listing : Listing}
    (h : parse budget name source = .ok listing) :
    listing.entries.Pairwise fun earlier later => earlier.line < later.line := by
  cases budget with
  | unlimited =>
    rw [parse_unlimited] at h
    cases h
    exact pairwise_line_entriesOf 1 _
  | spent =>
    rw [entries_eq_nil_of_parse_spent h]
    exact .nil

/-- Numbers and marks agree with the text. The commands of a listing are those on the lines of
the source, each with one more than the number of line feeds in front of its line, and in
order. With the budget spent, reading fails exactly if some line is not blank; the first such
line is then marked from its first byte up to its trailing carriage returns, on the line that
its command would have, and translating fails on that line. -/
theorem parse_places (name source : String) :
    (∀ budget listing, parse budget name source = .ok listing →
      listing.entries.Pairwise (fun earlier later => earlier.line < later.line) ∧
      (∀ entry ∈ listing.entries, ∃ front line, IsLine source.toList front line ∧
        entry.line = 1 + front.count '\n') ∧
      ∀ front line c, IsLine source.toList front line →
        (⟨1 + front.count '\n', c⟩ ∈ listing.entries ↔
          Command.parseLine budget (String.ofList line) = .ok (some c))) ∧
    ((∃ e, parse .spent name source = .error e) ↔
      ∃ front line, IsLine source.toList front line ∧ trimChars line ≠ []) ∧
    ∀ e, parse .spent name source = .error e →
      ∃ front line marked returns, IsLine source.toList front line ∧ trimChars line ≠ [] ∧
        (∀ front' line', IsLine source.toList front' line' →
          front'.count '\n' < front.count '\n' → trimChars line' = []) ∧
        line = marked ++ returns ∧ (∀ c ∈ returns, c = '\r') ∧
        (∀ c ∈ marked.getLast?, c ≠ '\r') ∧
        e.extent = .span (byteLength front) (byteLength front + byteLength marked) ∧
        e.extent.fits source.toList = true ∧
        slice (byteLength front) (byteLength front + byteLength marked) source.toList = marked ∧
        e.corners = .span ⟨1 + front.count '\n', 1⟩ ⟨1 + front.count '\n', 1 + marked.length⟩ ∧
        e.line = 1 + front.count '\n' ∧
        (∀ index, ((Document.mk name source).translate .spent index).1 =
          .error ⟨name, e.line, .syntaxError e.message⟩) ∧
        ∀ listing c, parse .unlimited name source = .ok listing →
          Command.parseLine .unlimited (String.ofList line) = .ok (some c) →
            ⟨e.line, c⟩ ∈ listing.entries := by
  refine ⟨?_, ⟨?_, ?_⟩, ?_⟩
  · intro budget listing hlisting
    refine ⟨pairwise_line_of_parse hlisting, ?_, ?_⟩
    · intro entry hentry
      obtain ⟨front, line, hline, hnumber, -⟩ := (mem_entries_iff hlisting).mp hentry
      exact ⟨front, line, hline, hnumber⟩
    · intro front line c hline
      rw [mem_entries_iff hlisting]
      constructor
      · rintro ⟨front', line', hline', hnumber, hc⟩
        have hcount : front.count '\n' = front'.count '\n' := by
          dsimp only at hnumber
          omega
        rw [(hline.unique hline' hcount).2]
        exact hc
      · intro hc
        exact ⟨front, line, hline, rfl, hc⟩
  · rintro ⟨e, he⟩
    obtain ⟨place, hplace, -⟩ := parse_spent_eq_error_iff.mp he
    obtain ⟨hline, hfilled, -⟩ := firstFilled?_eq_some hplace
    exact ⟨place.1, place.2, hline, hfilled⟩
  · rintro ⟨front, line, hline, hfilled⟩
    cases hplace : firstFilled? source.toList with
    | none => exact absurd (firstFilled?_eq_none_iff.mp hplace front line hline) hfilled
    | some place => exact ⟨_, parse_spent_eq_error_iff.mpr ⟨place, hplace, rfl⟩⟩
  · intro e he
    obtain ⟨⟨front, line⟩, hplace, hmark⟩ := parse_spent_eq_error_iff.mp he
    obtain ⟨hline, hfilled, hfirst⟩ := firstFilled?_eq_some hplace
    obtain ⟨returns, hreturns, hall, hlast⟩ := exists_returns hline.unbroken
    have hcorners := corners_mark name hline
    have hnumber := line_mark name hline
    rw [← hmark] at hcorners hnumber
    have hextent : e.extent =
        .span (byteLength front) (byteLength front + byteLength (withoutEnd line)) := by
      rw [hmark]
      rfl
    refine ⟨front, line, withoutEnd line, returns, hline, hfilled, hfirst, hreturns, hall, hlast,
      hextent, hextent ▸ hline.fits_span, hline.slice_span, hcorners, hnumber, ?_, ?_⟩
    · intro index
      unfold Document.translate
      dsimp only
      rw [he]
    · intro listing c hlisting hc
      exact (mem_entries_iff hlisting).mpr ⟨front, line, hline, hnumber, hc⟩

theorem parse_places_refused :
    (∃ front line, IsLine "\r\n \n é;\r\r\nGOTO".toList front line ∧ trimChars line ≠ []) ∧
      ((Document.mk "part.apt" "\r\n \n é;\r\r\nGOTO").translate .spent 0).1 =
        .error ⟨"part.apt", 3, .syntaxError "call limit reached"⟩ := by
  have hrefused : parse .spent "part.apt" "\r\n \n é;\r\r\nGOTO" =
      .error ⟨"call limit reached", some "part.apt", .span 4 8, .span ⟨3, 1⟩ ⟨3, 4⟩⟩ := by
    decide +kernel
  obtain ⟨-, hfails, hplace⟩ := parse_places "part.apt" "\r\n \n é;\r\r\nGOTO"
  obtain ⟨_, _, _, _, -, -, -, -, -, -, -, -, -, -, -, htranslate, -⟩ := hplace _ hrefused
  exact ⟨hfails.mp ⟨_, hrefused⟩, htranslate 0⟩

end Listing
end PressPath
