import PressPath.Proofs.Assembly

/-! What a draft holds. A draft can be given statements one by one or many at once, and
module headers among them; its text is made of one header of its own and of the other
statements in order, however they were grouped. A draft that was given nothing is
empty, and gets its header when it is finished. -/
namespace PressPath
namespace Draft

inductive Edit where
  | push (statement : Statement)
  | extend (statements : List Statement)
deriving Repr, DecidableEq

def Edit.statements : Edit → List Statement
  | push statement => [statement]
  | extend statements => statements

def edit (m : Motion) (d : Draft) : Edit → Draft
  | .push statement => d.push m statement
  | .extend statements => d.extend m statements

def editAll (m : Motion) (d : Draft) (edits : List Edit) : Draft :=
  edits.foldl (edit m) d

def body (m : Motion) (statements : List Statement) : String :=
  String.join ((statements.filter fun s => !s.isModuleHeader).map (Statement.render m))

variable (m : Motion) (d : Draft)

theorem edit_eq_extend (e : Edit) : d.edit m e = d.extend m e.statements := by
  cases e <;> rfl

theorem editAll_eq_extend (edits : List Edit) :
    d.editAll m edits = d.extend m (edits.flatMap Edit.statements) := by
  induction edits generalizing d with
  | nil => rfl
  | cons e rest ih =>
    change (d.edit m e).editAll m rest = _
    rw [ih, edit_eq_extend, List.flatMap_cons, extend_append]

theorem withHeader_of_hasHeader {d : Draft} (h : d.hasHeader = true) : d.withHeader m = d :=
  if_pos h

theorem withHeader_text :
    (d.withHeader m).text =
      d.text ++ if d.hasHeader then "" else "MODULE " ++ d.name ++ "\n\n" := by
  unfold withHeader
  split
  · simp
  · rfl

@[simp] theorem withHeader_hasHeader : (d.withHeader m).hasHeader = true := by
  unfold withHeader
  split
  · assumption
  · rfl

@[simp] theorem push_hasHeader (statement : Statement) :
    (d.push m statement).hasHeader = true := by
  unfold push
  split <;> simp

theorem extend_hasHeader (statements : List Statement) :
    (d.extend m statements).hasHeader = (d.hasHeader || !statements.isEmpty) := by
  induction statements generalizing d with
  | nil => simp [extend]
  | cons statement rest ih =>
    change ((d.push m statement).extend m rest).hasHeader = _
    rw [ih]
    simp

theorem extend_text (statements : List Statement) :
    (d.extend m statements).text = d.text ++
      ((if d.hasHeader || statements.isEmpty then "" else "MODULE " ++ d.name ++ "\n\n") ++
        body m statements) := by
  cases statements with
  | nil => simp [extend, body]
  | cons statement rest =>
    have hheader : (d.extend m (statement :: rest)).hasHeader = true := by
      rw [extend_hasHeader]
      simp
    have htext := withHeader_extend_text m d (statement :: rest)
    rw [withHeader_of_hasHeader m hheader, withHeader_text, String.append_assoc] at htext
    simpa [body] using htext

theorem finish_eq :
    d.finish m = ⟨d.name,
      d.text ++ (if d.hasHeader then "" else "MODULE " ++ d.name ++ "\n\n") ++ "ENDMODULE\n"⟩ := by
  unfold finish
  dsimp only
  rw [withHeader_name, withHeader_text]
  rfl

/-- After any edits the text of a draft is empty if no statement was given, and otherwise its own
header with the texts of all statements that are not module headers. Only the list of the
statements counts, each edit adds to the text, and finishing adds the footer once more, after the
header if that is still missing. -/
theorem editAll_contents (name : String) (edits : List Edit) :
    (editAll m { name := name } edits).text =
      (if edits.flatMap Edit.statements = [] then ""
        else "MODULE " ++ name ++ "\n\n" ++ body m (edits.flatMap Edit.statements)) ∧
    (∀ others : List Edit,
      others.flatMap Edit.statements = edits.flatMap Edit.statements →
        editAll m { name := name } others = editAll m { name := name } edits) ∧
    (∀ e : Edit, ∃ added,
      (editAll m { name := name } (edits ++ [e])).text =
        (editAll m { name := name } edits).text ++ added) ∧
    (editAll m { name := name } edits).finish m = ⟨name,
      (if edits.flatMap Edit.statements = [] then "MODULE " ++ name ++ "\n\n"
        else (editAll m { name := name } edits).text) ++ "ENDMODULE\n"⟩ := by
  refine ⟨?_, ?_, ?_, ?_⟩
  · rw [editAll_eq_extend, extend_text]
    cases edits.flatMap Edit.statements with
    | nil => rfl
    | cons statement rest => simp
  · intro others hsame
    rw [editAll_eq_extend, editAll_eq_extend, hsame]
  · intro e
    rw [editAll, List.foldl_append]
    change ∃ added, ((editAll m { name := name } edits).edit m e).text = _
    rw [edit_eq_extend, extend_text]
    exact ⟨_, rfl⟩
  · rw [finish_eq, editAll_eq_extend, extend_name, extend_hasHeader]
    cases edits.flatMap Edit.statements with
    | nil => rfl
    | cons statement rest => simp

theorem editAll_contents_foreign_header :
    (editAll {} { name := "cell" }
      [.extend [], .push (.moduleHeader "other"), .extend [.remark "END" none, .moduleFooter],
        .push (.moduleHeader "cell")]).text = "MODULE cell\n\n! END\nENDMODULE\n" ∧
    editAll {} { name := "cell" } [.extend [.moduleHeader "other", .remark "END" none],
        .extend [], .extend [.moduleFooter, .moduleHeader "cell"]] =
      editAll {} { name := "cell" }
        [.extend [], .push (.moduleHeader "other"), .extend [.remark "END" none, .moduleFooter],
          .push (.moduleHeader "cell")] := by
  refine ⟨(editAll_contents {} "cell" _).1.trans ?_, (editAll_contents {} "cell" _).2.1 _ rfl⟩
  decide +kernel

end Draft
end PressPath
