import PressPath.Proofs.Pieces
import PressPath.Source.Command

/-! The tokens of a line. Repetition is greedy, so a piece goes on until the next
slash or the end of the line, and a comment goes on until the end. -/
namespace PressPath.Grammar
open Text

def segmentTokens (offset : Nat) : List (List Char) → List (Token Rule)
  | [] => []
  | segment :: rest =>
    ⟨.segment, offset + 1, offset + 1 + byteLength segment⟩ ::
      segmentTokens (offset + 1 + byteLength segment) rest

def commandTokens (input : List Char) : List (Token Rule) :=
  match input.splitOn '/' with
  | [] => []
  | head :: segments =>
    ⟨.command, 0, byteLength input⟩ :: ⟨.keyword, 0, byteLength head⟩ ::
      segmentTokens (byteLength head) segments

def lineTokens (input : List Char) : List (Token Rule) :=
  (if input.head? = some ';' then [⟨.comment, 0, byteLength input⟩] else commandTokens input) ++
    [⟨.endOfInput, byteLength input, byteLength input⟩]

theorem iterate_of_run_eq_none {ρ : Type} {step : Cursor → Matching ρ} {cursor : Cursor}
    (h : step cursor = none) (rounds : Nat) : iterate step rounds cursor = ([], cursor) := by
  cases rounds with
  | zero => rfl
  | succ rounds => simp [iterate, h]

theorem iterate_any {ρ : Type} (cs : List Char) (offset rounds : Nat)
    (hrounds : cs.length ≤ rounds) :
    iterate (Expr.any : Expr ρ).run rounds ⟨offset, cs⟩ = ([], ⟨offset + byteLength cs, []⟩) := by
  induction cs generalizing offset rounds with
  | nil => exact iterate_of_run_eq_none (by simp [Expr.run]) rounds
  | cons c cs ih =>
    cases rounds with
    | zero => simp at hrounds
    | succ rounds =>
      have hrest := ih (offset + c.utf8Size) rounds (by simpa using hrounds)
      simp [iterate, Expr.run, hrest, Nat.add_assoc]

/-- The rest of a text after a piece: nothing, or something that starts with a slash. -/
def EndsPiece (rest : List Char) : Prop := ∀ c ∈ rest.head?, c = '/'

theorem endsPiece_flatMap (segments : List (List Char)) :
    EndsPiece (segments.flatMap ('/' :: ·)) := by
  intro c hc
  cases segments with
  | nil => simp at hc
  | cons segment rest => simpa using hc.symm

theorem run_pieceStep (offset : Nat) (c : Char) (cs : List Char) :
    (Expr.seq (.absent separator) .any).run ⟨offset, c :: cs⟩ =
      if c = '/' then none else some ([], ⟨offset + c.utf8Size, cs⟩) := by
  by_cases h : c = '/' <;> simp [Expr.run, separator, h]

theorem iterate_pieceStep {front rest : List Char} (hfront : '/' ∉ front) (hrest : EndsPiece rest)
    (offset rounds : Nat) (hrounds : front.length ≤ rounds) :
    iterate (Expr.seq (.absent separator) .any).run rounds ⟨offset, front ++ rest⟩ =
      ([], ⟨offset + byteLength front, rest⟩) := by
  induction front generalizing offset rounds with
  | nil =>
    -- The step fails at a slash and at the end, so the loop stops even with rounds left.
    apply iterate_of_run_eq_none
    cases rest with
    | nil => simp [Expr.run, separator]
    | cons c cs => simp [run_pieceStep, hrest c rfl]
  | cons c front ih =>
    have hc : c ≠ '/' := fun h => hfront (by simp [h])
    cases rounds with
    | zero => simp at hrounds
    | succ rounds =>
      have hnext := ih (fun h => hfront (by simp [h])) (offset + c.utf8Size) rounds
        (by simpa using hrounds)
      simp [iterate, run_pieceStep, hc, hnext, Nat.add_assoc]

theorem run_piece {front rest : List Char} (hfront : '/' ∉ front) (hrest : EndsPiece rest)
    (offset : Nat) :
    piece.run ⟨offset, front ++ rest⟩ = some ([], ⟨offset + byteLength front, rest⟩) := by
  apply congrArg some
  exact iterate_pieceStep hfront hrest offset _ (by simp)

theorem run_segmentStep {front rest : List Char} (hfront : '/' ∉ front) (hrest : EndsPiece rest)
    (offset : Nat) :
    (Expr.seq separator segment).run ⟨offset, '/' :: (front ++ rest)⟩ =
      some ([⟨.segment, offset + 1, offset + 1 + byteLength front⟩],
        ⟨offset + 1 + byteLength front, rest⟩) := by
  have hslash : separator.run ⟨offset, '/' :: (front ++ rest)⟩ =
      some ([], ⟨offset + 1, front ++ rest⟩) := by
    simp [separator, Expr.run]
    decide
  simp [Expr.run, hslash, segment, run_piece hfront hrest]

theorem iterate_segmentStep {segments : List (List Char)}
    (hsegments : ∀ segment ∈ segments, '/' ∉ segment) (offset rounds : Nat)
    (hrounds : segments.length ≤ rounds) :
    iterate (Expr.seq separator segment).run rounds ⟨offset, segments.flatMap ('/' :: ·)⟩ =
      (segmentTokens offset segments,
        ⟨offset + byteLength (segments.flatMap ('/' :: ·)), []⟩) := by
  induction segments generalizing offset rounds with
  | nil => exact iterate_of_run_eq_none (by simp [Expr.run, separator]) rounds
  | cons first rest ih =>
    cases rounds with
    | zero => simp at hrounds
    | succ rounds =>
      have hstep := run_segmentStep (hsegments first (by simp)) (endsPiece_flatMap rest) offset
      have hnext := ih (fun other hother => hsegments other (by simp [hother]))
        (offset + 1 + byteLength first) rounds (by simpa using hrounds)
      have hsize : '/'.utf8Size = 1 := by decide
      have hlength : byteLength ((first :: rest).flatMap ('/' :: ·)) =
          1 + byteLength first + byteLength (rest.flatMap ('/' :: ·)) := by
        simp [hsize, Nat.add_assoc]
      rw [hlength]
      simp only [List.flatMap_cons, List.cons_append, iterate, hstep, hnext, segmentTokens]
      simp only [Nat.add_assoc, List.nil_append]

theorem run_command (input : List Char) :
    command.run (.ofInput input) = some (commandTokens input, ⟨byteLength input, []⟩) := by
  obtain ⟨head, segments, hsplit⟩ := List.exists_cons_of_ne_nil (List.splitOn_ne_nil '/' input)
  have hpieces := notMem_of_splitOn_eq_cons hsplit
  have hinput := eq_append_flatMap_of_splitOn hsplit
  -- The keyword takes what stands before the first slash, each round after it one segment.
  have hkeyword : keyword.run (.ofInput input) = some ([⟨.keyword, 0, byteLength head⟩],
      ⟨byteLength head, segments.flatMap ('/' :: ·)⟩) := by
    rw [hinput, keyword, Cursor.ofInput, Expr.run,
      run_piece (hpieces head (by simp)) (endsPiece_flatMap segments) 0]
    simp
  have hsegments := iterate_segmentStep (fun other h => hpieces other (by simp [h]))
    (byteLength head) (segments.flatMap ('/' :: ·)).length
    (length_le_length_flatMap_cons '/' segments)
  have hlength : byteLength input = byteLength head + byteLength (segments.flatMap ('/' :: ·)) := by
    rw [hinput, byteLength_append]
  unfold commandTokens
  rw [hsplit, hlength, command, Expr.run, Expr.run, hkeyword]
  dsimp only
  rw [Expr.run, hsegments]
  rfl

theorem run_comment (input : List Char) :
    comment.run (.ofInput input) =
      if input.head? = some ';' then
        some ([⟨.comment, 0, byteLength input⟩], ⟨byteLength input, []⟩)
      else none := by
  cases input with
  | nil => simp [comment, Expr.run, Cursor.ofInput]
  | cons c cs =>
    by_cases hc : c = ';'
    · simp [comment, Expr.run, Cursor.ofInput, hc, iterate_any]
    · simp [comment, Expr.run, Cursor.ofInput, hc]

theorem run_line (input : List Char) :
    line.run (.ofInput input) = some (lineTokens input, ⟨byteLength input, []⟩) := by
  have hstart : (Expr.inputStart : Expr Rule).run (.ofInput input) =
      some ([], .ofInput input) := by
    simp [Expr.run, Cursor.ofInput]
  have hend : endOfInput.run ⟨byteLength input, []⟩ =
      some ([⟨.endOfInput, byteLength input, byteLength input⟩], ⟨byteLength input, []⟩) := by
    simp [endOfInput, Expr.run]
  have hbody : (Expr.choice comment command).run (.ofInput input) =
      some (if input.head? = some ';' then [⟨.comment, 0, byteLength input⟩]
        else commandTokens input, ⟨byteLength input, []⟩) := by
    rw [Expr.run, run_comment, run_command]
    by_cases hcomment : input.head? = some ';'
    · rw [if_pos hcomment, if_pos hcomment]
    · rw [if_neg hcomment, if_neg hcomment]
  rw [line, Expr.run, hstart]
  dsimp only
  rw [Expr.run, hbody]
  dsimp only
  rw [hend]
  rfl

theorem recognize_of_run {rule : Rule} {input : List Char} {tokens : List (Token Rule)}
    {last : Cursor} (h : rule.expr.run (.ofInput input) = some (tokens, last)) :
    recognize .unlimited rule input = .ok tokens := by
  unfold recognize
  dsimp only
  rw [h]

theorem recognize_line (input : List Char) :
    recognize .unlimited .line input = .ok (lineTokens input) :=
  recognize_of_run (run_line input)

theorem rule_of_mem_segmentTokens {offset : Nat} {segments : List (List Char)} {t : Token Rule}
    (h : t ∈ segmentTokens offset segments) : t.rule = .segment := by
  induction segments generalizing offset with
  | nil => simp [segmentTokens] at h
  | cons segment rest ih =>
    rcases List.mem_cons.mp h with rfl | h
    · rfl
    · exact ih h

end PressPath.Grammar
