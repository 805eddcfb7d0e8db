import Mathlib.Tactic.TFAE
import PressPath.Proofs.NormalForm

/-! What a line is read as. Its tokens are a comment, or a command whose keyword
comes before its segments, and then the end of the input; so a reader that insists
on this order reads every line, and finds what cutting at the slashes finds. The
commands that some line holds are those that are read back from their own text. -/
namespace PressPath
open Grammar Text

def Grammar.Rule.isInner : Rule → Bool
  | keyword | segment => true
  | _ => false

/-- What no line has among its tokens: one outside a command that is neither a comment nor the
end of the input, or a command with nothing in it. -/
inductive Grammar.Misplaced where
  | stray (rule : Rule)
  | noKeyword
deriving Repr, DecidableEq

namespace Command

def ofInner? (text : List Char) (head : Token Rule) (segments : List (Token Rule)) :
    Option Command :=
  if (trim (tokenText text head)).isEmpty then none
  else some (ofParts (trim (tokenText text head)) (segments.map (tokenText text)))

/-- Go through the outer tokens up to the first command, and fail on what no line has. -/
def readTokens (text : List Char) : List (Token Rule) → Except Misplaced (Option Command)
  | [] => .ok none
  | token :: rest =>
    match token.rule with
    | .command =>
      match rest.takeWhile fun inner => inner.rule.isInner with
      | [] => .error .noKeyword
      | head :: segments => .ok (ofInner? text head segments)
    | .comment | .endOfInput => readTokens text rest
    | rule => .error (.stray rule)

theorem takeWhile_isInner_segmentTokens (offset stop : Nat) (segments : List (List Char)) :
    (segmentTokens offset segments ++ [(⟨.endOfInput, stop, stop⟩ : Token Rule)]).takeWhile
      (fun inner => inner.rule.isInner) = segmentTokens offset segments := by
  rw [List.takeWhile_append_of_pos]
  · simp [Rule.isInner]
  · intro token htoken
    rw [rule_of_mem_segmentTokens htoken]
    rfl

theorem readTokens_lineTokens (text : List Char) :
    readTokens text (lineTokens text) = .ok (ofTokens? text (lineTokens text)) := by
  unfold lineTokens
  by_cases hcomment : text.head? = some ';'
  · rw [if_pos hcomment]
    rfl
  · obtain ⟨head, segments, hsplit⟩ :=
      List.exists_cons_of_ne_nil (List.splitOn_ne_nil '/' text)
    rw [if_neg hcomment, commandTokens, hsplit]
    simp only [List.cons_append, readTokens, ofTokens?, filter_segmentTokens]
    -- The keyword and the segments lie within the command, the end of the input does not.
    rw [List.takeWhile_cons_of_pos (by rfl), takeWhile_isInner_segmentTokens]
    rfl

theorem ofLine?_of_splitOn {line head : List Char} {pieces : List (List Char)}
    (hsplit : (trimChars line).splitOn '/' = head :: pieces) :
    ofLine? line =
      if trimChars line = [] ∨ (trimChars line).head? = some ';' ∨ trimChars head = [] then none
      else some ⟨String.ofList (trimChars head),
        if pieces = [] ∨ [','].intercalate pieces = [] then none
        else some (String.ofList ([','].intercalate pieces))⟩ := by
  unfold ofLine?
  rw [hsplit]
  dsimp only
  rw [ofParts_map_ofList]
  by_cases hcomment : (trimChars line).head? = some ';'
  · rw [if_pos hcomment, if_pos (.inr (.inl hcomment))]
  · rw [if_neg hcomment]
    by_cases hhead : trimChars head = []
    · rw [if_pos (by simpa using hhead), if_pos (.inr (.inr hhead))]
    · have hline : trimChars line ≠ [] := by
        intro hnil
        rw [hnil, List.splitOn_nil] at hsplit
        cases hsplit
        exact hhead rfl
      have hcommand : ¬ (trimChars line = [] ∨ (trimChars line).head? = some ';' ∨
          trimChars head = []) := by
        simp [hline, hcomment, hhead]
      rw [if_neg (by simpa using hhead), if_neg hcommand]

/-- A line is read as cutting it reads it. The trimmed line is cut at its slashes; without a
keyword, or as a comment, it holds no command, and otherwise the keyword is the trimmed first
piece and the argument the other pieces as they are, with commas between them. The grammar
refuses no line, and its tokens are where a line has them. -/
theorem parseLine_eq_split (raw : String) :
    ∃ head pieces tokens found,
      (trimChars raw.toList).splitOn '/' = head :: pieces ∧
      recognize .unlimited .line (trimChars raw.toList) = .ok tokens ∧
      readTokens (trimChars raw.toList) tokens = .ok found ∧
      parseLine .unlimited raw = .ok found ∧
      found =
        if trimChars raw.toList = [] ∨ (trimChars raw.toList).head? = some ';' ∨
            trimChars head = [] then none
        else some ⟨String.ofList (trimChars head),
          if pieces = [] ∨ [','].intercalate pieces = [] then none
          else some (String.ofList ([','].intercalate pieces))⟩ := by
  obtain ⟨head, pieces, hsplit⟩ :=
    List.exists_cons_of_ne_nil (List.splitOn_ne_nil '/' (trimChars raw.toList))
  refine ⟨head, pieces, lineTokens (trimChars raw.toList), ofLine? raw.toList, hsplit,
    recognize_line _, ?_, parseLine_unlimited raw, ofLine?_of_splitOn hsplit⟩
  rw [readTokens_lineTokens, ofTokens?_lineTokens]

-- Pieces of the argument keep their blanks, and a slash at the end gives an empty piece.
example : parseLine .unlimited "\t GOTO / 1/2 / \r" = .ok (some ⟨"GOTO", some " 1,2 ,"⟩) := by
  decide +kernel

theorem writable_iff {c : Command} :
    c.Writable ↔ c.keyword ≠ "" ∧ trim c.keyword = c.keyword ∧ '/' ∉ c.keyword.toList ∧
      c.keyword.toList.head? ≠ some ';' ∧
      ∀ a ∈ c.argument, a ≠ "" ∧ '/' ∉ a.toList ∧
        ∀ last ∈ a.toList.getLast?, isBlank last = false := by
  have htrim : trim c.keyword = c.keyword ↔ Trimmed c.keyword.toList := by
    rw [← String.toList_inj, toList_trim]
    exact ⟨fun h => h ▸ trimmed_trimChars c.keyword.toList, Trimmed.trimChars_eq⟩
  rw [htrim]
  constructor
  · intro h
    refine ⟨?_, h.keyword_trimmed, h.keyword_slash, h.keyword_comment, ?_⟩
    · exact fun hempty => h.keyword_ne_nil (String.toList_eq_nil_iff.mpr hempty)
    · intro a ha
      refine ⟨?_, h.argument_slash a ha, h.argument_last a ha⟩
      exact fun hempty => h.argument_ne_nil a ha (String.toList_eq_nil_iff.mpr hempty)
  · rintro ⟨hne, htrimmed, hslash, hcomment, hargument⟩
    constructor
    case keyword_ne_nil => exact fun hnil => hne (String.toList_eq_nil_iff.mp hnil)
    case keyword_trimmed => exact htrimmed
    case keyword_slash => exact hslash
    case keyword_comment => exact hcomment
    case argument_ne_nil =>
      exact fun a ha hnil => (hargument a ha).1 (String.toList_eq_nil_iff.mp hnil)
    case argument_slash => exact fun a ha => (hargument a ha).2.1
    case argument_last => exact fun a ha => (hargument a ha).2.2

/-- The commands that lines hold are those that are read back from their own text, and these are
known by their form. -/
theorem parseLine_image (c : Command) :
    List.TFAE [
      ∃ raw, parseLine .unlimited raw = .ok (some c),
      parseLine .unlimited c.render = .ok (some c),
      c.keyword ≠ "" ∧ trim c.keyword = c.keyword ∧ '/' ∉ c.keyword.toList ∧
        c.keyword.toList.head? ≠ some ';' ∧
        ∀ a ∈ c.argument, a ≠ "" ∧ '/' ∉ a.toList ∧
          ∀ last ∈ a.toList.getLast?, isBlank last = false] := by
  rw [← writable_iff]
  tfae_have 1 → 3 := by
    rintro ⟨raw, hraw⟩
    rw [parseLine_unlimited] at hraw
    exact writable_of_ofLine? (Except.ok.inj hraw)
  tfae_have 3 → 2 := by
    intro hwritable
    rw [parseLine_unlimited, hwritable.ofLine?_render]
  tfae_have 2 → 1 := fun hread => ⟨c.render, hread⟩
  tfae_finish

end Command
end PressPath
