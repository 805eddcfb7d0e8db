import PressPath.Proofs.Assembly

/-! The lines of a module. The text of a successful job is its header, the lines of
each procedure and its footer, whatever the sources hold; only the frame gives
lines that start with one of the words of the frame. -/
namespace PressPath
open Grammar Text

def Motion.OneLine (m : Motion) : Prop :=
  PressPath.OneLine m.speed ∧ PressPath.OneLine m.zone ∧ PressPath.OneLine m.tool ∧
    PressPath.OneLine m.workObject

theorem Motion.exists_jointTail {m : Motion} (hm : m.OneLine) :
    ∃ tail, PressPath.OneLine tail ∧ m.jointTail = tail ++ "\n" := by
  obtain ⟨hspeed, hzone, htool, -⟩ := hm
  refine ⟨", " ++ m.speed ++ ", " ++ m.zone ++ ", " ++ m.tool ++ ";", ?_, ?_⟩
  · simp only [oneLine_append]
    refine ⟨⟨⟨⟨⟨⟨?_, hspeed⟩, ?_⟩, hzone⟩, ?_⟩, htool⟩, ?_⟩ <;> decide
  · rw [String.append_assoc]
    rfl

theorem Motion.oneLine_renderDirection (m : Motion) : PressPath.OneLine m.renderDirection := by
  unfold renderDirection
  simp only [oneLine_append, Decimal.oneLine_render, and_true]
  decide

theorem Motion.exists_pressTail {m : Motion} (hm : m.OneLine) :
    ∃ tail, PressPath.OneLine tail ∧ m.pressTail = tail ++ "\n" := by
  obtain ⟨hspeed, hzone, htool, hwork⟩ := hm
  refine ⟨", " ++ m.speed ++ ", " ++ m.zone ++ ", " ++ m.workObject ++ ", " ++
    m.renderDirection ++ ", " ++ Decimal.render m.force ++ ", " ++ m.tool ++ ";", ?_, ?_⟩
  · simp only [oneLine_append, hspeed, hzone, htool, hwork, m.oneLine_renderDirection,
      Decimal.oneLine_render, and_true]
    decide
  · rw [String.append_assoc]
    rfl

theorem Pose.Legible.oneLine_render {pose : Pose} (h : pose.Legible) :
    OneLine pose.render := by
  unfold render
  simp only [oneLine_append]
  refine ⟨⟨by decide, ?_⟩, by decide⟩
  exact oneLine_intercalate (by decide) fun field hfield => (h field hfield).2

namespace Statement

def isRemark : Statement → Bool
  | remark _ _ => true
  | _ => false

def opening : Statement → String
  | jointMove _ => "  MoveJ "
  | pressStart _ => "  FCPressLStart "
  | pressMove _ => "  FCPressL "
  | pressEnd _ => "  FCPressEnd "
  | directive _ _ => "  FEDRAT:"
  | remark _ _ => "! "
  | moduleHeader _ | procHeader _ | procFooter | moduleFooter => ""

theorem oneLine_opening (s : Statement) : OneLine s.opening := by
  unfold opening
  split <;> decide

def line (m : Motion) (s : Statement) : List Char := (s.render m).toList.dropLast

theorem exists_rest_of_legible {m : Motion} {s : Statement} (hm : m.OneLine) (hs : s.Legible) :
    ∃ rest, OneLine rest ∧ s.render m = s.opening ++ rest ++ "\n" := by
  obtain ⟨jointTail, hjoint, hjointTail⟩ := Motion.exists_jointTail hm
  obtain ⟨pressTail, hpress, hpressTail⟩ := Motion.exists_pressTail hm
  have hpressed (instruction : String) (pose : Pose) :
      m.renderPress instruction pose =
        "  " ++ instruction ++ " " ++ (pose.render ++ pressTail) ++ "\n" := by
    simp only [Motion.renderPress, hpressTail, String.append_assoc]
  cases s with
  | jointMove pose =>
    refine ⟨pose.render ++ jointTail, oneLine_append.mpr ⟨hs.oneLine_render, hjoint⟩, ?_⟩
    simp only [render, opening, hjointTail, String.append_assoc]
  | pressStart pose =>
    exact ⟨_, oneLine_append.mpr ⟨hs.oneLine_render, hpress⟩, hpressed "FCPressLStart" pose⟩
  | pressMove pose =>
    exact ⟨_, oneLine_append.mpr ⟨hs.oneLine_render, hpress⟩, hpressed "FCPressL" pose⟩
  | pressEnd pose =>
    exact ⟨_, oneLine_append.mpr ⟨hs.oneLine_render, hpress⟩, hpressed "FCPressEnd" pose⟩
  | directive keyword value =>
    obtain ⟨rfl, hvalue⟩ := hs
    cases value with
    | none => exact ⟨"", by decide, rfl⟩
    | some text =>
      refine ⟨" " ++ text, oneLine_append.mpr ⟨by decide, hvalue text rfl⟩, ?_⟩
      simp only [render, renderDirective, opening, ← String.append_assoc]
      rfl
  | remark keyword value =>
    obtain ⟨hkeyword, hvalue⟩ := hs
    cases value with
    | none => exact ⟨keyword, hkeyword, rfl⟩
    | some text =>
      refine ⟨keyword ++ ": " ++ text, ?_, ?_⟩
      · simp only [oneLine_append]
        exact ⟨⟨hkeyword, by decide⟩, hvalue text rfl⟩
      · simp only [render, renderRemark, opening, String.append_assoc]
  | moduleHeader name => exact hs.elim
  | procHeader name => exact hs.elim
  | procFooter => exact hs.elim
  | moduleFooter => exact hs.elim

theorem line_eq_append {m : Motion} {s : Statement} {rest : String}
    (h : s.render m = s.opening ++ rest ++ "\n") :
    s.line m = s.opening.toList ++ rest.toList := by
  unfold line
  rw [h, String.toList_append, String.toList_append]
  exact List.dropLast_concat

variable {m : Motion} {s : Statement} (hm : m.OneLine) (hs : s.Legible)
include hm hs

theorem toList_render : (s.render m).toList = s.line m ++ ['\n'] := by
  obtain ⟨rest, -, hrest⟩ := exists_rest_of_legible hm hs
  rw [line_eq_append hrest, hrest, String.toList_append, String.toList_append]
  rfl

theorem newline_notMem_line : '\n' ∉ s.line m := by
  obtain ⟨rest, honeLine, hrest⟩ := exists_rest_of_legible hm hs
  rw [line_eq_append hrest, List.mem_append]
  exact fun hmem => hmem.elim s.oneLine_opening honeLine

theorem opening_isPrefix_line : s.opening.toList <+: s.line m := by
  obtain ⟨rest, -, hrest⟩ := exists_rest_of_legible hm hs
  rw [line_eq_append hrest]
  exact List.prefix_append _ _

end Statement

def frameWords : List String := ["MODULE", "PROC", "ENDPROC", "ENDMODULE"]

theorem mem_frameWords {word : String} : word ∈ frameWords ↔
    word = "MODULE" ∨ word = "PROC" ∨ word = "ENDPROC" ∨ word = "ENDMODULE" := by
  simp [frameWords]

/-- Whether the word comes first in the line, at whatever indentation. -/
def begins (word : String) (line : List Char) : Bool :=
  word.toList.isPrefixOf (trimStart line)

@[simp] theorem begins_cons_of_blank {word : String} {c : Char} {cs : List Char}
    (hc : isBlank c = true) : begins word (c :: cs) = begins word cs := by
  simp [begins, trimStart, hc]

@[simp] theorem begins_cons_of_not_blank {word : String} {c : Char} {cs : List Char}
    (hc : isBlank c = false) : begins word (c :: cs) = word.toList.isPrefixOf (c :: cs) := by
  simp [begins, trimStart, hc]

/-- Nothing in the body of a procedure can be taken for the frame. -/
theorem Statement.begins_line {m : Motion} {s : Statement} (hm : m.OneLine) (hs : s.Legible)
    {word : String} (hword : word ∈ frameWords) : begins word (s.line m) = false := by
  obtain ⟨rest, hrest⟩ := opening_isPrefix_line hm hs
  rw [← hrest]
  cases s with
  | moduleHeader name => exact hs.elim
  | procHeader name => exact hs.elim
  | procFooter => exact hs.elim
  | moduleFooter => exact hs.elim
  | _ =>
    rcases mem_frameWords.mp hword with rfl | rfl | rfl | rfl <;>
      simp (disch := decide) [opening, List.isPrefixOf]

theorem Statement.begins_of_mem_lines {m : Motion} {body : List Statement} (hm : m.OneLine)
    (hbody : ∀ s ∈ body, s.Legible) {word : String} (hword : word ∈ frameWords)
    {line : List Char} (hline : line ∈ body.map (Statement.line m)) :
    begins word line = false := by
  obtain ⟨s, hs, rfl⟩ := List.mem_map.mp hline
  exact begins_line hm (hbody s hs) hword

def Procedure.lines (m : Motion) (p : Procedure) : List (List Char) :=
  ("PROC Path_" ++ p.name ++ "()").toList :: p.body.map (Statement.line m) ++
    ["ENDPROC".toList, []]

def moduleLines (m : Motion) (name : String) (procedures : List Procedure) : List (List Char) :=
  ("MODULE " ++ name).toList :: [] :: procedures.flatMap (Procedure.lines m) ++
    ["ENDMODULE".toList]

section Lines
variable {m : Motion} {name : String} {p : Procedure} {procedures : List Procedure}

theorem Procedure.toList_join_render (hm : m.OneLine) (hp : ∀ s ∈ p.body, s.Legible) :
    (String.join (p.statements.map (Statement.render m))).toList =
      (p.lines m).flatMap (· ++ ['\n']) := by
  have hbody : (p.body.map (Statement.render m)).flatMap String.toList =
      (p.body.map (Statement.line m)).flatMap (· ++ ['\n']) := by
    rw [List.flatMap_map, List.flatMap_map]
    exact List.flatMap_congr fun s hs => Statement.toList_render hm (hp s hs)
  rw [String.toList_join]
  unfold statements lines
  simp only [List.map_append, List.map_cons, List.map_nil, List.flatMap_append, List.flatMap_cons,
    List.flatMap_nil, hbody]
  simp [Statement.render]

theorem toList_module (hm : m.OneLine) (hlegible : ∀ p ∈ procedures, ∀ s ∈ p.body, s.Legible) :
    (Statement.render m (.moduleHeader name) ++
      String.join ((procedures.flatMap Procedure.statements).map (Statement.render m)) ++
      Statement.render m .moduleFooter).toList =
    (moduleLines m name procedures).flatMap (· ++ ['\n']) := by
  have hjoin : (String.join ((procedures.flatMap Procedure.statements).map
      (Statement.render m))).toList =
      (procedures.flatMap (Procedure.lines m)).flatMap (· ++ ['\n']) := by
    rw [List.map_flatMap, String.toList_join, List.flatMap_assoc, List.flatMap_assoc]
    apply List.flatMap_congr
    intro p hp
    rw [← Procedure.toList_join_render hm (hlegible p hp), String.toList_join]
  rw [String.toList_append, String.toList_append, hjoin]
  unfold moduleLines
  simp [Statement.render]

theorem newline_notMem_moduleLines (hm : m.OneLine) (hname : OneLine name)
    (hnames : ∀ p ∈ procedures, OneLine p.name)
    (hlegible : ∀ p ∈ procedures, ∀ s ∈ p.body, s.Legible) :
    ∀ line ∈ moduleLines m name procedures, '\n' ∉ line := by
  intro line hline
  simp only [moduleLines, Procedure.lines, List.mem_append, List.mem_cons, List.mem_flatMap,
    List.mem_map, List.not_mem_nil, or_false] at hline
  rcases hline with (rfl | rfl | ⟨p, hp, (rfl | ⟨s, hs, rfl⟩) | rfl | rfl⟩) | rfl
  · exact oneLine_append.mpr ⟨by decide, hname⟩
  · exact List.not_mem_nil
  · exact oneLine_append.mpr ⟨oneLine_append.mpr ⟨by decide, hnames p hp⟩, by decide⟩
  · exact Statement.newline_notMem_line hm (hlegible p hp s hs)
  · decide
  · exact List.not_mem_nil
  · decide

variable {word : String} (hword : word ∈ frameWords)
include hword

theorem begins_nil : begins word [] = false := by
  rcases mem_frameWords.mp hword with rfl | rfl | rfl | rfl <;> decide

theorem begins_moduleHeader (name : String) :
    begins word ("MODULE " ++ name).toList = (word == "MODULE") := by
  rcases mem_frameWords.mp hword with rfl | rfl | rfl | rfl <;>
    simp (disch := decide) [List.isPrefixOf]

theorem begins_procHeader (name : String) :
    begins word ("PROC Path_" ++ name ++ "()").toList = (word == "PROC") := by
  rcases mem_frameWords.mp hword with rfl | rfl | rfl | rfl <;>
    simp (disch := decide) [List.isPrefixOf]

theorem Procedure.countP_lines (hm : m.OneLine) (hp : ∀ s ∈ p.body, s.Legible) :
    (p.lines m).countP (begins word) = ["PROC", "ENDPROC"].count word := by
  have hbody : (p.body.map (Statement.line m)).countP (begins word) = 0 := by
    rw [List.countP_eq_zero]
    intro line hline
    simp [Statement.begins_of_mem_lines hm hp hword hline]
  unfold lines
  rw [List.countP_append, List.countP_cons, hbody, begins_procHeader hword]
  rcases mem_frameWords.mp hword with rfl | rfl | rfl | rfl <;> decide

theorem countP_moduleLines (hm : m.OneLine)
    (hlegible : ∀ p ∈ procedures, ∀ s ∈ p.body, s.Legible) :
    (moduleLines m name procedures ++ [[]]).countP (begins word) =
      ["MODULE", "ENDMODULE"].count word + procedures.length * ["PROC", "ENDPROC"].count word := by
  have hinner : (procedures.flatMap (Procedure.lines m)).countP (begins word) =
      procedures.length * ["PROC", "ENDPROC"].count word := by
    induction procedures with
    | nil => simp
    | cons p rest ih =>
      rw [List.flatMap_cons, List.countP_append, Procedure.countP_lines hword hm
        (hlegible p (by simp)), ih fun q hq => hlegible q (by simp [hq]), List.length_cons,
        Nat.succ_mul, Nat.add_comm]
  have houter : (if begins word "ENDMODULE".toList then 1 else 0) +
      (if word == "MODULE" then 1 else 0) = ["MODULE", "ENDMODULE"].count word := by
    rcases mem_frameWords.mp hword with rfl | rfl | rfl | rfl <;> decide
  unfold moduleLines
  rw [List.countP_append, List.countP_append, List.countP_cons, List.countP_cons, hinner,
    begins_moduleHeader hword, List.countP_singleton, List.countP_singleton, begins_nil hword,
    ← houter]
  simp only [Bool.false_eq_true, if_false]
  omega

end Lines

theorem Statement.Legible.isFrame {s : Statement} (hs : s.Legible) : s.isFrame = false := by
  cases s with
  | moduleHeader name => exact hs.elim
  | procHeader name => exact hs.elim
  | procFooter => exact hs.elim
  | moduleFooter => exact hs.elim
  | _ => rfl

theorem Statement.margin_isPrefix_line {m : Motion} {s : Statement} (hm : m.OneLine)
    (hs : s.Legible) : (if s.isRemark then "! " else "  ").toList <+: s.line m := by
  refine List.IsPrefix.trans ?_ (opening_isPrefix_line hm hs)
  cases s with
  | moduleHeader name => exact hs.elim
  | procHeader name => exact hs.elim
  | procFooter => exact hs.elim
  | moduleFooter => exact hs.elim
  | _ => simp [isRemark, opening]

theorem Document.Becomes.oneLine_name {budget : Budget} {entry : Document × Nat} {p : Procedure}
    (h : Becomes budget entry p) : OneLine p.name := by
  rw [h.1]
  exact entry.1.oneLine_procName entry.2

namespace Job

theorem splitOn_text_of_becomes {budget : Budget} {job : Job} {documents : List Document}
    {result : RobotModule} {procedures : List Procedure} (hm : job.motion.OneLine)
    (hname : job.moduleName budget documents = .ok result.name)
    (hbecomes : List.Forall₂ (Document.Becomes budget) documents.zipIdx procedures)
    (htext : result.text = Statement.render job.motion (.moduleHeader result.name) ++
      String.join ((procedures.flatMap Procedure.statements).map (Statement.render job.motion)) ++
      Statement.render job.motion .moduleFooter) :
    result.text.toList.splitOn '\n' = moduleLines job.motion result.name procedures ++ [[]] := by
  have hnames (p : Procedure) (hp : p ∈ procedures) : OneLine p.name := by
    obtain ⟨entry, -, hentry⟩ := exists_mem_of_forall₂ hbecomes hp
    exact hentry.oneLine_name
  have hlegible := Document.legible_of_forall₂ hbecomes
  rw [htext, toList_module hm hlegible]
  exact splitOn_flatMap_concat
    (newline_notMem_moduleLines hm (oneLine_moduleName hname) hnames hlegible)

theorem splitOn_text {budget : Budget} {job : Job} {documents : List Document}
    {result : RobotModule} (hm : job.motion.OneLine)
    (h : (job.translate budget documents).1 = .ok result) :
    ∃ procedures, List.Forall₂ (Document.Becomes budget) documents.zipIdx procedures ∧
      result.text.toList.splitOn '\n' = moduleLines job.motion result.name procedures ++ [[]] := by
  obtain ⟨hname, procedures, hbecomes, htext⟩ := exists_procedures_of_translate h
  exact ⟨procedures, hbecomes, splitOn_text_of_becomes hm hname hbecomes htext⟩

/-- The frame of a module holds whatever the documents say: the text consists of the header
and the footer of the module and, for each document, of the header, one line for each
statement of the body and the footer of its procedure. -/
theorem translate_frame {budget : Budget} {job : Job} {documents : List Document}
    {result : RobotModule} (hm : job.motion.OneLine)
    (h : (job.translate budget documents).1 = .ok result) :
    job.moduleName budget documents = .ok result.name ∧
    (∃ procedures, List.Forall₂ (Document.Becomes budget) documents.zipIdx procedures ∧
      result.text.toList.splitOn '\n' = moduleLines job.motion result.name procedures ++ [[]] ∧
      ∀ p ∈ procedures, ∀ s ∈ p.body, s.isFrame = false ∧
        (s.render job.motion).toList = s.line job.motion ++ ['\n'] ∧
        (if s.isRemark then "! " else "  ").toList <+: s.line job.motion) ∧
    (result.text.toList.splitOn '\n').countP (begins "MODULE") = 1 ∧
    (result.text.toList.splitOn '\n').countP (begins "ENDMODULE") = 1 ∧
    (result.text.toList.splitOn '\n').countP (begins "PROC") = documents.length ∧
    (result.text.toList.splitOn '\n').countP (begins "ENDPROC") = documents.length := by
  obtain ⟨procedures, hbecomes, hlines⟩ := splitOn_text hm h
  have hlegible := Document.legible_of_forall₂ hbecomes
  have hlength : procedures.length = documents.length := by
    rw [← hbecomes.length_eq, List.length_zipIdx]
  refine ⟨(exists_procedures_of_translate h).1, ⟨procedures, hbecomes, hlines, ?_⟩, ?_⟩
  · intro p hp s hs
    have hsLegible := hlegible p hp s hs
    exact ⟨hsLegible.isFrame, Statement.toList_render hm hsLegible,
      Statement.margin_isPrefix_line hm hsLegible⟩
  · have hcount {word : String} (hword : word ∈ frameWords) :
        (result.text.toList.splitOn '\n').countP (begins word) =
          ["MODULE", "ENDMODULE"].count word +
            documents.length * ["PROC", "ENDPROC"].count word := by
      rw [hlines, countP_moduleLines hword hm hlegible, hlength]
    refine ⟨?_, ?_, ?_, ?_⟩
    · rw [hcount (by decide)]
      simp
    · rw [hcount (by decide)]
      simp
    · rw [hcount (by decide)]
      simp
    · rw [hcount (by decide)]
      simp

def forged : List Document :=
  [⟨"a()\nENDPROC.apt", "PARTNO/PROC Path_b()\nENDPROC\nGOTO/1,2,ENDMODULE,4,5,6\nRAPID"⟩,
    ⟨"ENDMODULE\n", "FEDRAT/1\rENDPROC\nRAPID\nGOTO/1,2,]; MODULE,4,5,6\nMODULE/x"⟩]

theorem translate_frame_forged :
    ∃ result, (Job.translate .unlimited {} forged).1 = .ok result ∧
      (result.text.toList.splitOn '\n').countP (begins "MODULE") = 1 ∧
      (result.text.toList.splitOn '\n').countP (begins "ENDMODULE") = 1 ∧
      (result.text.toList.splitOn '\n').countP (begins "PROC") = 2 ∧
      (result.text.toList.splitOn '\n').countP (begins "ENDPROC") = 2 := by
  have hok : (Job.translate .unlimited {} forged).1.toOption.isSome = true := by decide +kernel
  have hm : Motion.OneLine {} := ⟨by decide, by decide, by decide, by decide⟩
  cases h : (Job.translate .unlimited {} forged).1 with
  | error faults =>
    rw [h] at hok
    cases hok
  | ok result => exact ⟨result, rfl, (translate_frame hm h).2.2⟩

end Job

end PressPath
