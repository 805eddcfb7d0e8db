/-! Cutting a text at a separator, and putting pieces together so that they can
be cut apart again. -/
namespace PressPath.Text

variable {x : Char} {cs piece : List Char}

theorem mem_of_mem_splitOn {c : Char} (hpiece : piece ∈ cs.splitOn x) (hc : c ∈ piece) :
    c ∈ cs ∧ c ≠ x := by
  induction cs generalizing piece with
  | nil =>
    rw [List.splitOn_nil, List.mem_singleton] at hpiece
    simp [hpiece] at hc
  | cons d cs ih =>
    rw [List.splitOn_cons_eq_if_modifyHead] at hpiece
    split at hpiece
    · rcases List.mem_cons.mp hpiece with rfl | hpiece
      · simp at hc
      · obtain ⟨hmem, hne⟩ := ih hpiece hc
        exact ⟨List.mem_cons_of_mem d hmem, hne⟩
    · next hd =>
      obtain ⟨first, rest, hsplit⟩ := List.exists_cons_of_ne_nil (List.splitOn_ne_nil x cs)
      rw [hsplit, List.modifyHead_cons] at hpiece
      have hother (other : List Char) (hother : other ∈ first :: rest) (hmem : c ∈ other) :
          c ∈ d :: cs ∧ c ≠ x := by
        obtain ⟨hmem, hne⟩ := ih (hsplit ▸ hother) hmem
        exact ⟨List.mem_cons_of_mem d hmem, hne⟩
      rcases List.mem_cons.mp hpiece with rfl | hpiece
      · rcases List.mem_cons.mp hc with rfl | hc
        · exact ⟨List.mem_cons_self, by simpa using hd⟩
        · exact hother first (by simp) hc
      · exact hother piece (by simp [hpiece]) hc

theorem notMem_of_splitOn_eq_cons {first : List Char} {rest : List (List Char)}
    (hsplit : cs.splitOn x = first :: rest) : ∀ piece ∈ first :: rest, x ∉ piece := by
  intro piece hpiece hmem
  rw [← hsplit] at hpiece
  exact (mem_of_mem_splitOn hpiece hmem).2 rfl

theorem intercalate_cons_eq_append_flatMap (x : Char) (first : List Char)
    (rest : List (List Char)) :
    [x].intercalate (first :: rest) = first ++ rest.flatMap (x :: ·) := by
  induction rest generalizing first with
  | nil => simp
  | cons second rest ih =>
    rw [List.intercalate_cons_cons, ih, List.flatMap_cons]
    simp

/-- Of pieces that are joined, those before a piece are each followed by the separator and those
after it each follow one. -/
theorem intercalate_append_cons (x : Char) (before : List (List Char)) (piece : List Char)
    (after : List (List Char)) :
    [x].intercalate (before ++ piece :: after) =
      before.flatMap (· ++ [x]) ++ (piece ++ after.flatMap (x :: ·)) := by
  induction before with
  | nil => exact intercalate_cons_eq_append_flatMap x piece after
  | cons first before ih =>
    obtain ⟨second, rest, hrest⟩ : ∃ second rest, before ++ piece :: after = second :: rest :=
      List.exists_cons_of_ne_nil (by simp)
    rw [hrest] at ih
    rw [List.cons_append, hrest, List.intercalate_cons_cons, ih, List.flatMap_cons]
    simp

theorem eq_append_flatMap_of_splitOn {first : List Char} {rest : List (List Char)}
    (h : cs.splitOn x = first :: rest) : cs = first ++ rest.flatMap (x :: ·) := by
  rw [← intercalate_cons_eq_append_flatMap, ← h, List.intercalate_splitOn]

theorem length_le_length_flatMap_cons (x : Char) (pieces : List (List Char)) :
    pieces.length ≤ (pieces.flatMap (x :: ·)).length := by
  induction pieces with
  | nil => simp
  | cons piece rest ih =>
    simp only [List.flatMap_cons, List.length_append, List.length_cons]
    omega

theorem length_splitOn (x : Char) (cs : List Char) :
    (cs.splitOn x).length = cs.count x + 1 := by
  induction cs with
  | nil => simp
  | cons c cs ih =>
    rw [List.splitOn_cons_eq_if_modifyHead]
    by_cases hc : c = x
    · simp [hc, ih]
    · simp [hc, ih]

/-- Pieces that are each followed by the separator come back as they are, with nothing after
the last separator. -/
theorem splitOn_flatMap_concat {pieces : List (List Char)} (h : ∀ piece ∈ pieces, x ∉ piece) :
    (pieces.flatMap fun piece => piece ++ [x]).splitOn x = pieces ++ [[]] := by
  induction pieces with
  | nil => simp
  | cons piece rest ih =>
    have hpiece : x ∉ piece := h piece (by simp)
    have hrest := ih fun other hother => h other (by simp [hother])
    rw [List.flatMap_cons, List.append_assoc, List.singleton_append,
      List.splitOn_append_cons_self_of_not_mem hpiece, hrest, List.cons_append]

theorem flatMap_concat_splitOn (x : Char) (cs : List Char) :
    (cs.splitOn x).flatMap (· ++ [x]) = cs ++ [x] := by
  have hsplit : (cs ++ [x]).splitOn x = cs.splitOn x ++ [[]] := by
    rw [List.splitOn_append_cons_self, List.splitOn_nil]
  have hjoin : [x].intercalate ((cs ++ [x]).splitOn x) = cs ++ [x] := List.intercalate_splitOn x
  rw [hsplit, intercalate_append_cons] at hjoin
  simpa using hjoin

theorem append_cons_inj {α : Type} {x : α} {first second rest rest' : List α}
    (hfirst : x ∉ first) (hsecond : x ∉ second) (h : first ++ x :: rest = second ++ x :: rest') :
    first = second ∧ rest = rest' := by
  induction first generalizing second with
  | nil =>
    cases second with
    | nil => exact ⟨rfl, (List.cons.inj h).2⟩
    | cons b second => simp [(List.cons.inj h).1] at hsecond
  | cons a first ih =>
    cases second with
    | nil => simp [(List.cons.inj h).1] at hfirst
    | cons b second =>
      obtain ⟨rfl, htail⟩ := List.cons.inj h
      obtain ⟨rfl, hrest⟩ := ih (fun hx => hfirst (by simp [hx])) (fun hx => hsecond (by simp [hx]))
        htail
      exact ⟨rfl, hrest⟩

theorem append_cons_inj_last {α : Type} {x : α} {first second rest rest' : List α}
    (hrest : x ∉ rest) (hrest' : x ∉ rest') (h : first ++ x :: rest = second ++ x :: rest') :
    first = second ∧ rest = rest' := by
  have hreverse : rest.reverse ++ x :: first.reverse = rest'.reverse ++ x :: second.reverse := by
    simpa using congrArg List.reverse h
  obtain ⟨hafter, hbefore⟩ := append_cons_inj (by simpa using hrest) (by simpa using hrest')
    hreverse
  exact ⟨List.reverse_inj.mp hbefore, List.reverse_inj.mp hafter⟩

theorem intercalate_injective {separator : List Char} {first second : List (List Char)}
    (hfirst : ∀ piece ∈ first, x ∉ piece) (hsecond : ∀ piece ∈ second, x ∉ piece)
    (hlength : first.length = second.length)
    (h : (x :: separator).intercalate first = (x :: separator).intercalate second) :
    first = second := by
  induction first generalizing second with
  | nil => exact (List.length_eq_zero_iff.mp hlength.symm).symm
  | cons a first ih =>
    cases second with
    | nil => simp at hlength
    | cons b second =>
      have ha : x ∉ a := hfirst a (by simp)
      have hb : x ∉ b := hsecond b (by simp)
      cases first with
      | nil =>
        have hnil : second = [] := List.length_eq_zero_iff.mp (by simpa using hlength.symm)
        subst hnil
        simpa using h
      | cons a' first =>
        cases second with
        | nil => simp at hlength
        | cons b' second =>
          rw [List.intercalate_cons_cons, List.intercalate_cons_cons, List.append_assoc,
            List.append_assoc, List.cons_append, List.cons_append] at h
          obtain ⟨hab, hrest⟩ := append_cons_inj ha hb h
          rw [List.append_cancel_left_eq] at hrest
          rw [hab, ih (fun p hp => hfirst p (by simp [hp])) (fun p hp => hsecond p (by simp [hp]))
            (by simpa using hlength) hrest]

theorem toLower_of_isDigit {c : Char} (h : c.isDigit = true) : c.toLower = c := by
  have hle : c.val ≤ '9'.val := of_decide_eq_true (Bool.and_eq_true_iff.mp h).2
  apply dif_neg
  rintro ⟨hge, -⟩
  exact absurd (UInt32.le_trans hge hle) (by decide)

theorem map_toLower_toDigits (n : Nat) :
    (Nat.toDigits 10 n).map Char.toLower = Nat.toDigits 10 n := by
  refine (List.map_congr_left fun c hc => ?_).trans (List.map_id _)
  exact toLower_of_isDigit (Nat.isDigit_of_mem_toDigits (by decide) (by decide) hc)

end PressPath.Text
