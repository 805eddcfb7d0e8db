import Mathlib.Data.List.DropRight
import PressPath.Text.Blank
import PressPath.Text.Lines

/-! Laws of trimming. A text is trimmed when it neither starts nor ends with a
blank; the line feeds and carriage returns that end a line are blank, so a line
and the same line without its end trim to the same text. -/
namespace PressPath.Text

variable {cs ds : List Char}

structure Trimmed (cs : List Char) : Prop where
  head : ∀ c ∈ cs.head?, isBlank c = false
  last : ∀ c ∈ cs.getLast?, isBlank c = false

theorem trimEnd_eq_rdropWhile (cs : List Char) : trimEnd cs = cs.rdropWhile isBlank := rfl

theorem trimStart_eq_self (hhead : ∀ c ∈ cs.head?, isBlank c = false) : trimStart cs = cs := by
  unfold trimStart
  cases cs with
  | nil => rfl
  | cons c cs => simp [hhead c rfl]

theorem exists_trimChars_append (cs : List Char) : ∃ tail, trimChars cs ++ tail = trimStart cs :=
  List.rdropWhile_prefix isBlank (trimStart cs)

theorem head?_trimChars (hhead : ∀ c ∈ cs.head?, isBlank c = false) (hne : trimChars cs ≠ []) :
    (trimChars cs).head? = cs.head? := by
  obtain ⟨tail, htail⟩ := exists_trimChars_append cs
  rw [trimStart_eq_self hhead] at htail
  conv_rhs => rw [← htail]
  rw [List.head?_append_of_ne_nil _ hne]

theorem Trimmed.trimChars_eq (h : Trimmed cs) : trimChars cs = cs := by
  unfold trimChars
  rw [trimStart_eq_self h.head, trimEnd_eq_rdropWhile, List.rdropWhile_eq_self_iff]
  intro hne
  simp [h.last _ (List.getLast?_eq_some_getLast hne)]

theorem trimmed_trimChars (cs : List Char) : Trimmed (trimChars cs) where
  head := by
    intro c hc
    have hhead : c ∈ (trimStart cs).head? := by
      obtain ⟨tail, htail⟩ := exists_trimChars_append cs
      rw [← htail, List.head?_append, Option.mem_def.mp hc]
      rfl
    have hnot := List.head?_dropWhile_not isBlank cs
    unfold trimStart at hhead
    rw [Option.mem_def.mp hhead] at hnot
    exact hnot
  last := by
    intro c hc
    have hne : trimChars cs ≠ [] := by
      intro hnil
      simp [hnil] at hc
    have hnot := List.rdropWhile_last_not isBlank (trimStart cs) hne
    rw [List.getLast?_eq_some_getLast hne] at hc
    cases Option.mem_some.mp hc
    exact Bool.eq_false_iff.mpr hnot

theorem trimChars_eq_nil_iff : trimChars cs = [] ↔ ∀ c ∈ cs, isBlank c = true := by
  unfold trimChars
  rw [trimEnd_eq_rdropWhile, List.rdropWhile_eq_nil_iff]
  constructor
  · intro h
    rw [← List.dropWhile_eq_nil_iff]
    by_contra hne
    have hhead := h _ (List.head_mem hne)
    rw [List.head_dropWhile_not isBlank hne] at hhead
    contradiction
  · intro h c hc
    exact h c ((List.dropWhile_sublist isBlank).subset hc)

theorem trimEnd_append_of_blank (hds : ∀ c ∈ ds, isBlank c = true) :
    trimEnd (cs ++ ds) = trimEnd cs := by
  unfold trimEnd
  rw [List.reverse_append, List.dropWhile_append_of_pos]
  simpa using hds

theorem trimChars_append_of_blank (hds : ∀ c ∈ ds, isBlank c = true) :
    trimChars (cs ++ ds) = trimChars cs := by
  unfold trimChars
  by_cases hcs : trimStart cs = []
  · have hblank : ∀ c ∈ cs ++ ds, isBlank c = true := by
      intro c hc
      rcases List.mem_append.mp hc with hc | hc
      · exact List.dropWhile_eq_nil_iff.mp hcs c hc
      · exact hds c hc
    have hboth : trimStart (cs ++ ds) = [] := List.dropWhile_eq_nil_iff.mpr hblank
    rw [hboth, hcs]
  · have hboth : trimStart (cs ++ ds) = trimStart cs ++ ds := by
      unfold trimStart at hcs ⊢
      rw [List.dropWhile_append, if_neg (by simpa using hcs)]
    rw [hboth, trimEnd_append_of_blank hds]

theorem trimChars_blank_append (hds : ∀ c ∈ ds, isBlank c = true) :
    trimChars (ds ++ cs) = trimChars cs := by
  unfold trimChars trimStart
  rw [List.dropWhile_append_of_pos hds]

theorem trimEnd_append_cons {c : Char} (hc : isBlank c = false) (cs ds : List Char) :
    trimEnd (cs ++ c :: ds) = cs ++ c :: trimEnd ds := by
  unfold trimEnd
  rw [List.reverse_append, List.reverse_cons, List.append_assoc, List.singleton_append,
    List.dropWhile_append]
  split
  · next hnil =>
    rw [List.dropWhile_cons_of_neg (by simp [hc]), List.isEmpty_iff.mp hnil]
    simp
  · simp

theorem trimChars_append_cons {c : Char} (hc : isBlank c = false) (cs ds : List Char) :
    trimChars (cs ++ c :: ds) = trimStart cs ++ c :: trimEnd ds := by
  have hstart : trimStart (cs ++ c :: ds) = trimStart cs ++ c :: ds := by
    unfold trimStart
    rw [List.dropWhile_append]
    split
    · next hnil =>
      rw [List.dropWhile_cons_of_neg (by simp [hc]), List.isEmpty_iff.mp hnil]
      simp
    · rfl
  unfold trimChars
  rw [hstart, trimEnd_append_cons hc]

theorem isBlank_of_isLineEnd {c : Char} (h : isLineEnd c = true) : isBlank c = true := by
  unfold isLineEnd at h
  rw [Bool.or_eq_true, beq_iff_eq, beq_iff_eq] at h
  rcases h with rfl | rfl <;> decide

theorem trimChars_withoutEnd (line : List Char) : trimChars (withoutEnd line) = trimChars line := by
  have hblank : ∀ c ∈ line.rtakeWhile isLineEnd, isBlank c = true :=
    fun c hc => isBlank_of_isLineEnd (List.mem_rtakeWhile_imp hc)
  have hline : withoutEnd line ++ line.rtakeWhile isLineEnd = line :=
    List.rdropWhile_append_rtakeWhile
  rw [← trimChars_append_of_blank hblank, hline]

theorem trimChars_withoutReturn (piece : List Char) :
    trimChars (withoutReturn piece) = trimChars piece := by
  unfold withoutReturn
  split
  · next front hfront =>
    have hpiece : piece = front.reverse ++ ['\r'] := by
      rw [← List.reverse_reverse piece, hfront, List.reverse_cons]
    rw [hpiece, trimChars_append_of_blank]
    intro c hc
    exact isBlank_of_isLineEnd (by simp [isLineEnd, List.mem_singleton.mp hc])
  · rfl

theorem trimChars_concat_newline (piece : List Char) :
    trimChars (piece ++ ['\n']) = trimChars piece := by
  apply trimChars_append_of_blank
  intro c hc
  exact isBlank_of_isLineEnd (by simp [isLineEnd, List.mem_singleton.mp hc])

end PressPath.Text
