import PressPath.Proofs.Frame

/-! Reading a module back. Legible statements with the same line are equal, remarks
apart, and the lines of the frame tell where a procedure ends; so the text of a
module determines its procedures. -/
namespace PressPath
open Grammar Text

theorem Pose.eq_of_fields_eq {a b : Pose} (h : a.fields = b.fields) : a = b := by
  cases a
  cases b
  simpa [fields] using h

theorem Pose.eq_of_render_eq {a b : Pose} (ha : a.Legible) (hb : b.Legible)
    (h : a.render = b.render) : a = b := by
  unfold render at h
  rw [String.append_left_inj, String.append_right_inj] at h
  have hjoined : (", ".toList).intercalate (a.fields.map String.toList) =
      (", ".toList).intercalate (b.fields.map String.toList) := by
    rw [← String.toList_intercalate, ← String.toList_intercalate, h]
  have hcomma {p : Pose} (hp : p.Legible) : ∀ piece ∈ p.fields.map String.toList, ',' ∉ piece := by
    intro piece hpiece
    obtain ⟨field, hfield, rfl⟩ := List.mem_map.mp hpiece
    exact (hp field hfield).1
  have hpieces := intercalate_injective (hcomma ha) (hcomma hb) rfl hjoined
  exact eq_of_fields_eq ((List.map_inj_right fun _ _ => String.toList_injective).mp hpieces)

namespace Statement

/-- Equal, or both remarks: the text of a remark does not tell its keyword from its value. -/
def Alike (s t : Statement) : Prop := s.isRemark = true ∧ t.isRemark = true ∨ s = t

def openings : List String :=
  ["  MoveJ ", "  FCPressLStart ", "  FCPressL ", "  FCPressEnd ", "  FEDRAT:", "! "]

theorem Legible.opening_mem {s : Statement} (hs : s.Legible) : s.opening ∈ openings := by
  cases s with
  | moduleHeader name => exact hs.elim
  | procHeader name => exact hs.elim
  | procFooter => exact hs.elim
  | moduleFooter => exact hs.elim
  | _ => simp [opening, openings]

theorem eq_of_isPrefix_of_mem_openings :
    ∀ first ∈ openings, ∀ second ∈ openings, first.toList <+: second.toList → first = second := by
  decide

theorem opening_eq_of_line_eq {m : Motion} {s t : Statement} (hm : m.OneLine) (hs : s.Legible)
    (ht : t.Legible) (h : s.line m = t.line m) : s.opening = t.opening := by
  have hprefix := opening_isPrefix_line hm hs
  rw [h] at hprefix
  rcases List.prefix_or_prefix_of_prefix hprefix (opening_isPrefix_line hm ht) with hle | hle
  · exact eq_of_isPrefix_of_mem_openings _ hs.opening_mem _ ht.opening_mem hle
  · exact (eq_of_isPrefix_of_mem_openings _ ht.opening_mem _ hs.opening_mem hle).symm

theorem eq_of_renderPress_eq {m : Motion} {instruction : String} {a b : Pose} (ha : a.Legible)
    (hb : b.Legible) (h : m.renderPress instruction a = m.renderPress instruction b) : a = b := by
  unfold Motion.renderPress at h
  rw [String.append_left_inj, String.append_right_inj] at h
  exact Pose.eq_of_render_eq ha hb h

theorem renderDirective_none_ne_some (keyword value : String) :
    renderDirective keyword none ≠ renderDirective keyword (some value) := by
  intro h
  simp only [renderDirective, String.append_assoc, String.append_right_inj] at h
  have hchars := congrArg String.toList h
  simp at hchars

theorem eq_of_renderDirective_eq {keyword : String} {v w : Option String}
    (h : renderDirective keyword v = renderDirective keyword w) : v = w := by
  cases v with
  | none =>
    cases w with
    | none => rfl
    | some value => exact absurd h (renderDirective_none_ne_some keyword value)
  | some value =>
    cases w with
    | none => exact absurd h.symm (renderDirective_none_ne_some keyword value)
    | some other =>
      simp only [renderDirective, String.append_left_inj, String.append_right_inj] at h
      rw [h]

/-- A line in the body of a procedure has one reading, up to what is a remark. -/
theorem alike_of_line_eq {m : Motion} {s t : Statement} (hm : m.OneLine) (hs : s.Legible)
    (ht : t.Legible) (h : s.line m = t.line m) : Alike s t := by
  have hopening := opening_eq_of_line_eq hm hs ht h
  have hrender : s.render m = t.render m := by
    rw [← String.toList_inj, toList_render hm hs, toList_render hm ht, h]
  cases s with
  | jointMove pose =>
    cases t with
    | jointMove other =>
      simp only [render, String.append_left_inj, String.append_right_inj] at hrender
      rw [Pose.eq_of_render_eq hs ht hrender]
      exact .inr rfl
    | _ => simp [opening] at hopening
  | pressStart pose =>
    cases t with
    | pressStart other => exact .inr (congrArg pressStart (eq_of_renderPress_eq hs ht hrender))
    | _ => simp [opening] at hopening
  | pressMove pose =>
    cases t with
    | pressMove other => exact .inr (congrArg pressMove (eq_of_renderPress_eq hs ht hrender))
    | _ => simp [opening] at hopening
  | pressEnd pose =>
    cases t with
    | pressEnd other => exact .inr (congrArg pressEnd (eq_of_renderPress_eq hs ht hrender))
    | _ => simp [opening] at hopening
  | directive keyword value =>
    cases t with
    | directive keyword' value' =>
      obtain ⟨rfl, -⟩ := hs
      obtain ⟨rfl, -⟩ := ht
      exact .inr (congrArg (directive "FEDRAT") (eq_of_renderDirective_eq hrender))
    | _ => simp [opening] at hopening
  | remark keyword value =>
    cases t with
    | remark keyword' value' => exact .inl ⟨rfl, rfl⟩
    | _ => simp [opening] at hopening
  | moduleHeader name => exact hs.elim
  | procHeader name => exact hs.elim
  | procFooter => exact hs.elim
  | moduleFooter => exact hs.elim

theorem forall₂_alike_of_map_line_eq {m : Motion} {first second : List Statement}
    (hm : m.OneLine) (hfirst : ∀ s ∈ first, s.Legible) (hsecond : ∀ s ∈ second, s.Legible)
    (h : first.map (line m) = second.map (line m)) : List.Forall₂ Alike first second := by
  induction first generalizing second with
  | nil =>
    rw [List.map_nil] at h
    rw [List.map_eq_nil_iff.mp h.symm]
    exact .nil
  | cons s first ih =>
    cases second with
    | nil => simp at h
    | cons t second =>
      obtain ⟨hline, hrest⟩ := List.cons.inj h
      refine .cons (alike_of_line_eq hm (hfirst s (by simp)) (hsecond t (by simp)) hline) ?_
      exact ih (fun u hu => hfirst u (by simp [hu])) (fun u hu => hsecond u (by simp [hu])) hrest

end Statement

def Procedure.Alike (p q : Procedure) : Prop :=
  p.name = q.name ∧ List.Forall₂ Statement.Alike p.body q.body

section Modules
variable {m : Motion}

theorem endproc_notMem_lines {body : List Statement} (hm : m.OneLine)
    (hbody : ∀ s ∈ body, s.Legible) : "ENDPROC".toList ∉ body.map (Statement.line m) := by
  intro hmem
  have hword : "ENDPROC" ∈ frameWords := by decide
  exact absurd (Statement.begins_of_mem_lines hm hbody hword hmem) (by decide)

theorem Procedure.alike_of_lines_eq {p q : Procedure} {rest rest' : List (List Char)}
    (hm : m.OneLine) (hp : ∀ s ∈ p.body, s.Legible) (hq : ∀ s ∈ q.body, s.Legible)
    (h : p.lines m ++ rest = q.lines m ++ rest') : p.Alike q ∧ rest = rest' := by
  unfold lines at h
  simp only [List.cons_append, List.append_assoc, List.nil_append] at h
  obtain ⟨hheader, htail⟩ := List.cons.inj h
  -- no line of a body is the footer, so the first footer ends the body on both sides
  obtain ⟨hbody, hrest⟩ := append_cons_inj (endproc_notMem_lines hm hp)
    (endproc_notMem_lines hm hq) htail
  rw [String.toList_inj, String.append_left_inj, String.append_right_inj] at hheader
  exact ⟨⟨hheader, Statement.forall₂_alike_of_map_line_eq hm hp hq hbody⟩,
    (List.cons.inj hrest).2⟩

theorem footer_ne_lines (p : Procedure) (rest : List (List Char)) :
    ["ENDMODULE".toList] ≠ p.lines m ++ rest := by
  intro h
  have hheader := (List.cons.inj h).1
  simp at hheader

theorem forall₂_alike_of_lines_eq {ps qs : List Procedure} (hm : m.OneLine)
    (hps : ∀ p ∈ ps, ∀ s ∈ p.body, s.Legible) (hqs : ∀ q ∈ qs, ∀ s ∈ q.body, s.Legible)
    (h : ps.flatMap (Procedure.lines m) ++ ["ENDMODULE".toList] =
      qs.flatMap (Procedure.lines m) ++ ["ENDMODULE".toList]) :
    List.Forall₂ Procedure.Alike ps qs := by
  induction ps generalizing qs with
  | nil =>
    cases qs with
    | nil => exact .nil
    | cons q qs =>
      rw [List.flatMap_cons, List.append_assoc] at h
      exact absurd h (footer_ne_lines q _)
  | cons p ps ih =>
    rw [List.flatMap_cons, List.append_assoc] at h
    cases qs with
    | nil => exact absurd h.symm (footer_ne_lines p _)
    | cons q qs =>
      rw [List.flatMap_cons, List.append_assoc] at h
      obtain ⟨halike, hrest⟩ := Procedure.alike_of_lines_eq hm (hps p (by simp))
        (hqs q (by simp)) h
      refine .cons halike ?_
      exact ih (fun u hu => hps u (by simp [hu])) (fun u hu => hqs u (by simp [hu])) hrest

theorem alike_of_moduleLines_eq {name name' : String} {ps qs : List Procedure} (hm : m.OneLine)
    (hps : ∀ p ∈ ps, ∀ s ∈ p.body, s.Legible) (hqs : ∀ q ∈ qs, ∀ s ∈ q.body, s.Legible)
    (h : moduleLines m name ps = moduleLines m name' qs) :
    name = name' ∧ List.Forall₂ Procedure.Alike ps qs := by
  unfold moduleLines at h
  obtain ⟨hheader, htail⟩ := List.cons.inj h
  rw [String.toList_inj, String.append_right_inj] at hheader
  exact ⟨hheader, forall₂_alike_of_lines_eq hm hps hqs (List.cons.inj htail).2⟩

end Modules

theorem Document.becomes_getElem {budget : Budget} {documents : List Document}
    {procedures : List Procedure}
    (h : List.Forall₂ (Becomes budget) documents.zipIdx procedures) {i : Nat}
    (hi : i < documents.length) (hp : i < procedures.length) :
    Becomes budget (documents[i], i) procedures[i] := by
  have hget := h.get (by simpa using hi) hp
  simpa using hget

/-- The text of a module determines its name, its procedures and their statements, except for
what the remarks say. -/
theorem Job.alike_of_text_eq {budget : Budget} {m : Motion} {naming naming' : Naming}
    {us vs : List Document} {result result' : RobotModule} (hm : m.OneLine)
    (hresult : (Job.translate budget ⟨naming, m⟩ us).1 = .ok result)
    (hresult' : (Job.translate budget ⟨naming', m⟩ vs).1 = .ok result')
    (htext : result.text = result'.text) :
    result.name = result'.name ∧ us.length = vs.length ∧
      ∀ (i : Nat) (hi : i < us.length) (hi' : i < vs.length),
        us[i].procName i = vs[i].procName i ∧
        ∃ body body',
          (us[i].translate budget i).1 = .ok (.procHeader (us[i].procName i) :: body ++
            [.procFooter]) ∧
          (vs[i].translate budget i).1 = .ok (.procHeader (vs[i].procName i) :: body' ++
            [.procFooter]) ∧
          List.Forall₂ Statement.Alike body body' := by
  obtain ⟨ps, hps, hlines⟩ := splitOn_text hm hresult
  obtain ⟨qs, hqs, hlines'⟩ := splitOn_text hm hresult'
  rw [htext, hlines'] at hlines
  obtain ⟨hname, halike⟩ := alike_of_moduleLines_eq hm (Document.legible_of_forall₂ hps)
    (Document.legible_of_forall₂ hqs) (List.append_cancel_right hlines).symm
  have hlength : ps.length = us.length := by rw [← hps.length_eq, List.length_zipIdx]
  have hlength' : qs.length = vs.length := by rw [← hqs.length_eq, List.length_zipIdx]
  refine ⟨hname, by rw [← hlength, ← hlength', halike.length_eq], ?_⟩
  intro i hi hi'
  have hp : i < ps.length := by omega
  have hq : i < qs.length := by omega
  have hbecomes := Document.becomes_getElem hps hi hp
  have hbecomes' := Document.becomes_getElem hqs hi' hq
  have hsame : ps[i].Alike qs[i] := halike.get hp hq
  refine ⟨?_, ps[i].body, qs[i].body, ?_, ?_, hsame.2⟩
  · exact hbecomes.1.symm.trans (hsame.1.trans hbecomes'.1)
  · rw [hbecomes.2, ← hbecomes.1]
    rfl
  · rw [hbecomes'.2, ← hbecomes'.1]
    rfl

namespace Readback

def tight : Document :=
  ⟨"u.apt", "PARTNO/X\nRAPID\nGOTO/1,2,] v1,4,5,6\nA/B\nFEDRAT"⟩

/-- Differs from the other document in its name, in its blanks and in how a remark is written. -/
def loose : Document :=
  ⟨"u.x", "PARTNO/X\r\n\nRAPID\nGOTO/1 , 2, ] v1,4,5,6\n  A: B\nFEDRAT/"⟩

def common : RobotModule :=
  ⟨"X", "MODULE X\n\nPROC Path_u_1()\n! PARTNO: X\n  MoveJ p[1, 2, ] v1, 4, 5, 6], v1000, z10, " ++
    "tool0;\n! A: B\n  FEDRAT:\nENDPROC\n\nENDMODULE\n"⟩

theorem alike_tight_loose :
    (Job.translate .unlimited {} [tight]).1 = .ok common ∧
      (Job.translate .unlimited ⟨.given "X", {}⟩ [loose]).1 = .ok common ∧
      ∃ body body',
        (tight.translate .unlimited 0).1 = .ok (.procHeader "u_1" :: body ++ [.procFooter]) ∧
        (loose.translate .unlimited 0).1 = .ok (.procHeader "u_1" :: body' ++ [.procFooter]) ∧
        List.Forall₂ Statement.Alike body body' := by
  have hm : Motion.OneLine {} := ⟨by decide, by decide, by decide, by decide⟩
  have htight : (Job.translate .unlimited {} [tight]).1 = .ok common := by decide +kernel
  have hloose : (Job.translate .unlimited ⟨.given "X", {}⟩ [loose]).1 = .ok common := by
    decide +kernel
  have halike := (Job.alike_of_text_eq hm htight hloose rfl).2.2 0 (by decide) (by decide)
  exact ⟨htight, hloose, halike.2⟩

end Readback
end PressPath
