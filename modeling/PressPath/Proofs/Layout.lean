import PressPath.Proofs.Places

/-! What does not matter about the layout of a source. Only the trimmed lines of a
source are read, and blank lines at its end are as good as none; so blanks around
lines, the kind of line ends and a last line end change neither the commands nor
their numbers, nor anything that is made of them. -/
namespace PressPath
open Grammar Text

def trimmedLines (source : String) : List (List Char) :=
  (source.toList.splitOn '\n').map trimChars

/-- Two sources have the same trimmed lines, up to empty ones at the end. -/
def SameLines (s t : String) : Prop :=
  ∃ m n, trimmedLines s ++ List.replicate m [] = trimmedLines t ++ List.replicate n []

namespace Listing

theorem entriesOf_map_trimChars (number : Nat) (lines : List (List Char)) :
    entriesOf number (lines.map trimChars) = entriesOf number lines := by
  induction lines generalizing number with
  | nil => rfl
  | cons line rest ih =>
    have hline : Command.ofLine? (trimChars line) = Command.ofLine? line :=
      Command.ofLine?_congr (trimmed_trimChars line).trimChars_eq
    rw [List.map_cons, entriesOf_cons, entriesOf_cons, ih, hline]

theorem entriesOf_append_empty (number : Nat) (lines : List (List Char)) (m : Nat) :
    entriesOf number (lines ++ List.replicate m []) = entriesOf number lines := by
  have hempty (k : Nat) : entriesOf k (List.replicate m []) = [] := by
    induction m generalizing k with
    | zero => rfl
    | succ m ih =>
      rw [List.replicate_succ, entriesOf_cons, ih]
      rfl
  rw [entriesOf_append, hempty, List.append_nil]

theorem ofSource_eq_entriesOf_trimmedLines (source : String) :
    ofSource source = entriesOf 1 (trimmedLines source) :=
  (entriesOf_map_trimChars 1 _).symm

end Listing

theorem SameLines.ofSource_eq {s t : String} (h : SameLines s t) :
    Listing.ofSource s = Listing.ofSource t := by
  obtain ⟨m, n, hlines⟩ := h
  rw [Listing.ofSource_eq_entriesOf_trimmedLines, Listing.ofSource_eq_entriesOf_trimmedLines,
    ← Listing.entriesOf_append_empty 1 _ m, hlines, Listing.entriesOf_append_empty]

namespace Text

theorem map_count_find?_placed (start : List Char) {pieces : List (List Char)}
    (hpieces : ∀ piece ∈ pieces, '\n' ∉ piece) :
    ((placed start pieces).find? fun place => !(trimChars place.2).isEmpty).map
        (fun place => place.1.count '\n') =
      ((pieces.map trimChars).findIdx? fun line => !line.isEmpty).map (start.count '\n' + ·) := by
  induction pieces generalizing start with
  | nil => rfl
  | cons piece rest ih =>
    have hpiece : piece.count '\n' = 0 := List.count_eq_zero.mpr (hpieces piece (by simp))
    have hrest := ih (start ++ (piece ++ ['\n'])) fun other hother =>
      hpieces other (by simp [hother])
    rw [placed, List.find?_cons, List.map_cons, List.findIdx?_cons]
    cases (trimChars piece).isEmpty with
    | false => simp
    | true =>
      simp only [Bool.not_true, Bool.false_eq_true, if_false]
      rw [hrest, Option.map_map]
      congr 1
      funext k
      simp [hpiece]
      omega

theorem map_count_firstFilled? (source : String) :
    (firstFilled? source.toList).map (fun place => place.1.count '\n') =
      (trimmedLines source).findIdx? fun line => !line.isEmpty := by
  have hpieces : ∀ piece ∈ source.toList.splitOn '\n', '\n' ∉ piece :=
    fun piece hpiece hmem => (mem_of_mem_splitOn hpiece hmem).2 rfl
  refine (map_count_find?_placed [] hpieces).trans ?_
  simp [trimmedLines]

end Text

theorem SameLines.count_firstFilled? {s t : String} (h : SameLines s t) :
    (firstFilled? s.toList).map (fun place => place.1.count '\n') =
      (firstFilled? t.toList).map (fun place => place.1.count '\n') := by
  have hempty (lines : List (List Char)) (m : Nat) :
      (lines ++ List.replicate m ([] : List Char)).findIdx? (fun line => !line.isEmpty) =
        lines.findIdx? fun line => !line.isEmpty := by
    simp [List.findIdx?_append]
  obtain ⟨m, n, hlines⟩ := h
  rw [map_count_firstFilled?, map_count_firstFilled?, ← hempty _ m, hlines, hempty]

variable {s t : String}

theorem SameLines.parse (h : SameLines s t) (budget : Budget) (name : String) :
    (∃ listing, Listing.parse budget name s = .ok listing ∧
      Listing.parse budget name t = .ok listing) ∨
    ∃ e e', Listing.parse budget name s = .error e ∧ Listing.parse budget name t = .error e' ∧
      e.line = e'.line ∧ e.message = e'.message := by
  cases budget with
  | unlimited =>
    refine .inl ⟨⟨name, Listing.ofSource s⟩, Listing.parse_unlimited name s, ?_⟩
    rw [Listing.parse_unlimited, h.ofSource_eq]
  | spent =>
    have hcount := h.count_firstFilled?
    rw [Listing.parse_spent, Listing.parse_spent]
    cases hs : firstFilled? s.toList with
    | none =>
      rw [hs, Option.map_none, eq_comm, Option.map_eq_none_iff] at hcount
      rw [hcount]
      exact .inl ⟨_, rfl, rfl⟩
    | some place =>
      rw [hs, Option.map_some, eq_comm, Option.map_eq_some_iff] at hcount
      obtain ⟨other, ht, hlines⟩ := hcount
      rw [ht]
      refine .inr ⟨_, _, rfl, rfl, ?_, rfl⟩
      rw [Listing.line_mark name (firstFilled?_eq_some hs).1,
        Listing.line_mark name (firstFilled?_eq_some ht).1, hlines]

theorem SameLines.translate_eq (h : SameLines s t) (budget : Budget) (name : String)
    (index : Nat) :
    (Document.mk name s).translate budget index = (Document.mk name t).translate budget index := by
  unfold Document.translate
  dsimp only
  obtain ⟨listing, hs, ht⟩ | ⟨e, e', hs, ht, hline, hmessage⟩ := h.parse budget name
  · rw [hs, ht]
    rfl
  · rw [hs, ht]
    dsimp only
    rw [hline, hmessage]

theorem Document.bareCommands_spent (d : Document) : d.bareCommands .spent = [] := by
  unfold bareCommands
  apply List.filterMap_eq_nil_iff.mpr
  intro line _
  rw [Command.parseLine_spent]
  cases (trimChars line).isEmpty <;> rfl

theorem SameLines.moduleName_eq (h : SameLines s t) (budget : Budget) (job : Job)
    (name : String) (rest others : List Document) :
    job.moduleName budget (⟨name, s⟩ :: rest) = job.moduleName budget (⟨name, t⟩ :: others) := by
  have hcommands : (Document.mk name s).bareCommands budget =
      (Document.mk name t).bareCommands budget := by
    cases budget with
    | unlimited =>
      rw [Document.bareCommands_unlimited, Document.bareCommands_unlimited, h.ofSource_eq]
    | spent => rw [Document.bareCommands_spent, Document.bareCommands_spent]
  have hraw : job.rawName budget (⟨name, s⟩ :: rest) =
      job.rawName budget (⟨name, t⟩ :: others) := by
    unfold Job.rawName
    cases job.naming with
    | given given => rfl
    | fromSource marker =>
      dsimp only [Document.markerArgument?]
      rw [hcommands]
  unfold Job.moduleName
  rw [hraw]

structure Document.SameLines (d other : Document) : Prop where
  name : d.name = other.name
  source : PressPath.SameLines d.source other.source

theorem Document.SameLines.translate_eq {d other : Document} (h : d.SameLines other)
    (budget : Budget) (index : Nat) : d.translate budget index = other.translate budget index := by
  obtain ⟨name, s⟩ := d
  obtain ⟨name', t⟩ := other
  obtain ⟨rfl, hsource⟩ := h
  exact hsource.translate_eq budget name index

namespace Job

theorem foldl_add_of_sameLines {documents others : List Document}
    (h : List.Forall₂ Document.SameLines documents others) (budget : Budget) (m : Motion)
    (first : Nat) (p : Progress) :
    (documents.zipIdx first).foldl (Progress.add budget m) p =
      (others.zipIdx first).foldl (Progress.add budget m) p := by
  induction h generalizing first p with
  | nil => rfl
  | cons hsame _ ih =>
    rw [List.zipIdx_cons, List.zipIdx_cons, List.foldl_cons, List.foldl_cons, ih]
    unfold Progress.add
    rw [hsame.translate_eq]

theorem moduleName_of_sameLines {documents others : List Document}
    (h : List.Forall₂ Document.SameLines documents others) (budget : Budget) (job : Job) :
    job.moduleName budget documents = job.moduleName budget others := by
  cases h with
  | nil => rfl
  | @cons d other rest rest' hsame _ =>
    obtain ⟨name, s⟩ := d
    obtain ⟨name', t⟩ := other
    obtain ⟨rfl, hsource⟩ := hsame
    exact hsource.moduleName_eq budget job name rest rest'

theorem translate_of_sameLines {documents others : List Document}
    (h : List.Forall₂ Document.SameLines documents others) (budget : Budget) (job : Job) :
    job.translate budget documents = job.translate budget others := by
  unfold translate
  rw [moduleName_of_sameLines h]
  cases job.moduleName budget others with
  | error fault => rfl
  | ok name =>
    dsimp only
    rw [foldl_add_of_sameLines h]

end Job

def returned (c : Char) : List Char := if c = '\n' then ['\r', '\n'] else [c]

def withReturns (source : String) : String := String.ofList (source.toList.flatMap returned)

def padded (pad : Nat → List Char × List Char) (source : String) : String :=
  String.ofList (['\n'].intercalate ((source.toList.splitOn '\n').mapIdx fun i line =>
    (pad i).1 ++ (line ++ (pad i).2)))

theorem sameLines_concat_newline (source : String) : SameLines source (source ++ "\n") := by
  refine ⟨1, 0, ?_⟩
  have hchars : (source ++ "\n").toList = source.toList ++ '\n' :: [] := by simp
  unfold trimmedLines
  rw [hchars, List.splitOn_append_cons_self]
  simp

theorem sameLines_padded {pad : Nat → List Char × List Char}
    (hpad : ∀ i, ∀ c ∈ (pad i).1 ++ (pad i).2, isBlank c = true ∧ c ≠ '\n') (source : String) :
    SameLines source (padded pad source) := by
  have hleft (i : Nat) : ∀ c ∈ (pad i).1, isBlank c = true ∧ c ≠ '\n' :=
    fun c hc => hpad i c (List.mem_append_left _ hc)
  have hright (i : Nat) : ∀ c ∈ (pad i).2, isBlank c = true ∧ c ≠ '\n' :=
    fun c hc => hpad i c (List.mem_append_right _ hc)
  have hsplit : (padded pad source).toList.splitOn '\n' =
      (source.toList.splitOn '\n').mapIdx fun i line => (pad i).1 ++ (line ++ (pad i).2) := by
    unfold padded
    rw [String.toList_ofList, List.splitOn_intercalate]
    · intro line hline hmem
      obtain ⟨i, hi, rfl⟩ := List.mem_mapIdx.mp hline
      rcases List.mem_append.mp hmem with hmem | hmem
      · exact (hleft i _ hmem).2 rfl
      · rcases List.mem_append.mp hmem with hmem | hmem
        · exact (mem_of_mem_splitOn (List.getElem_mem hi) hmem).2 rfl
        · exact (hright i _ hmem).2 rfl
    · simp
  have htrimmed : trimmedLines source = trimmedLines (padded pad source) := by
    unfold trimmedLines
    rw [hsplit]
    apply List.ext_getElem?
    intro i
    rw [List.getElem?_map, List.getElem?_map, List.getElem?_mapIdx, Option.map_map]
    apply Option.map_congr
    intro line _
    rw [Function.comp_apply, trimChars_blank_append fun c hc => (hleft i c hc).1,
      trimChars_append_of_blank fun c hc => (hright i c hc).1]
  exact ⟨0, 0, by rw [htrimmed]⟩

theorem flatMap_returned_of_unbroken {cs : List Char} (hcs : '\n' ∉ cs) :
    cs.flatMap returned = cs := by
  induction cs with
  | nil => rfl
  | cons c cs ih =>
    have hc : c ≠ '\n' := fun h => hcs (by simp [h])
    rw [List.flatMap_cons, ih fun h => hcs (by simp [h]), returned, if_neg hc]
    rfl

theorem map_trimChars_splitOn_returned {pieces : List (List Char)}
    (hpieces : ∀ piece ∈ pieces, '\n' ∉ piece) (hne : pieces ≠ []) :
    ((['\n'].intercalate pieces).flatMap returned |>.splitOn '\n').map trimChars =
      pieces.map trimChars := by
  induction pieces with
  | nil => contradiction
  | cons piece rest ih =>
    have hpiece : '\n' ∉ piece := hpieces piece (by simp)
    cases rest with
    | nil =>
      rw [List.intercalate_singleton, flatMap_returned_of_unbroken hpiece,
        List.splitOn_eq_singleton hpiece]
    | cons second rest =>
      have hrest := ih (fun other hother => hpieces other (by simp [hother])) (by simp)
      have hfirst : '\n' ∉ piece ++ ['\r'] := by simp [hpiece]
      have hchars : (['\n'].intercalate (piece :: second :: rest)).flatMap returned =
          (piece ++ ['\r']) ++
            '\n' :: (['\n'].intercalate (second :: rest)).flatMap returned := by
        rw [List.intercalate_cons_cons, List.flatMap_append, List.flatMap_append,
          flatMap_returned_of_unbroken hpiece]
        simp [returned]
      have hreturn : ∀ c ∈ ['\r'], isBlank c = true := by
        intro c hc
        rw [List.mem_singleton.mp hc]
        decide
      rw [hchars, List.splitOn_append_cons_self_of_not_mem hfirst, List.map_cons, hrest,
        trimChars_append_of_blank hreturn]
      rfl

theorem sameLines_withReturns (source : String) : SameLines source (withReturns source) := by
  have hpieces : ∀ piece ∈ source.toList.splitOn '\n', '\n' ∉ piece :=
    fun piece hpiece hmem => (mem_of_mem_splitOn hpiece hmem).2 rfl
  have hlines := map_trimChars_splitOn_returned hpieces (List.splitOn_ne_nil '\n' _)
  rw [List.intercalate_splitOn] at hlines
  refine ⟨0, 0, ?_⟩
  unfold trimmedLines withReturns
  rw [String.toList_ofList, hlines]

/-- The layout of a source does not matter. Sources with the same trimmed lines, up to empty ones
at the end, are read as the same numbered commands, are translated alike down to the lines of
their faults, and name a module alike; so jobs that differ in nothing else have the same module
text or the same faults. Carriage returns before the line feeds, blanks around the lines and a
last line feed are such differences. -/
theorem layout_insensitive :
    (∀ s t, SameLines s t →
      (∀ name, ∃ listing, Listing.parse .unlimited name s = .ok listing ∧
        Listing.parse .unlimited name t = .ok listing) ∧
      (∀ budget name index, (Document.mk name s).translate budget index =
        (Document.mk name t).translate budget index) ∧
      ∀ budget motion marker name rest,
        Job.moduleName budget ⟨.fromSource marker, motion⟩ (⟨name, s⟩ :: rest) =
          Job.moduleName budget ⟨.fromSource marker, motion⟩ (⟨name, t⟩ :: rest)) ∧
    (∀ budget job documents others, List.Forall₂ Document.SameLines documents others →
      Job.translate budget job documents = Job.translate budget job others) ∧
    ∀ source, SameLines source (withReturns source) ∧ SameLines source (source ++ "\n") ∧
      ∀ pad : Nat → List Char × List Char,
        (∀ i, ∀ c ∈ (pad i).1 ++ (pad i).2, isBlank c = true ∧ c ≠ '\n') →
          SameLines source (padded pad source) := by
  refine ⟨?_, ?_, ?_⟩
  · intro s t h
    refine ⟨?_, h.translate_eq, ?_⟩
    · intro name
      refine ⟨⟨name, Listing.ofSource s⟩, Listing.parse_unlimited name s, ?_⟩
      rw [Listing.parse_unlimited, h.ofSource_eq]
    · intro budget motion marker name rest
      exact h.moduleName_eq budget _ name rest rest
  · intro budget job documents others h
    exact Job.translate_of_sameLines h budget job
  · intro source
    exact ⟨sameLines_withReturns source, sameLines_concat_newline source,
      fun pad hpad => sameLines_padded hpad source⟩

theorem layout_insensitive_indented :
    (Document.mk "part.apt" "RAPID\nGOTO/1\n").translate .unlimited 0 =
      (Document.mk "part.apt" "\tRAPID\u2003\r\r\n GOTO/1").translate .unlimited 0 := by
  have hlines : SameLines "RAPID\nGOTO/1\n" "\tRAPID\u2003\r\r\n GOTO/1" :=
    ⟨0, 1, by decide +kernel⟩
  exact (layout_insensitive.1 _ _ hlines).2.1 .unlimited "part.apt" 0

end PressPath
