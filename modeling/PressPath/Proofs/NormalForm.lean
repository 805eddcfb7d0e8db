import PressPath.Proofs.Location

/-! The normal form of a document: its commands, one a line. A command that was
read from a line can be written without quoting, because nothing in it can be
taken for a slash, a comment or the end of the line; so a document and its normal
form mean the same. -/
namespace PressPath
open Grammar Text

namespace Text

variable {x y : Char} {pieces : List (List Char)}

theorem intercalate_eq_map (hpieces : ∀ piece ∈ pieces, x ∉ piece) :
    [y].intercalate pieces =
      ([x].intercalate pieces).map fun c => if c = x then y else c := by
  have hkeep : ∀ piece ∈ pieces, (piece.map fun c => if c = x then y else c) = piece := by
    intro piece hpiece
    refine (List.map_congr_left fun c hc => ?_).trans (List.map_id piece)
    have hne : c ≠ x := fun h => hpieces piece hpiece (h ▸ hc)
    simp [hne]
  clear hpieces
  induction pieces with
  | nil => simp
  | cons piece rest ih =>
    have hpiece := hkeep piece (by simp)
    have hrest := ih fun other hother => hkeep other (by simp [hother])
    cases rest with
    | nil => simp [hpiece]
    | cons second rest =>
      rw [List.intercalate_cons_cons, List.intercalate_cons_cons, hrest]
      simp [hpiece]

end Text

namespace Command

/-- What a command that stands on a line of its own looks like. -/
structure Writable (c : Command) : Prop where
  keyword_ne_nil : c.keyword.toList ≠ []
  keyword_trimmed : Trimmed c.keyword.toList
  keyword_slash : '/' ∉ c.keyword.toList
  keyword_comment : c.keyword.toList.head? ≠ some ';'
  argument_ne_nil : ∀ a ∈ c.argument, a.toList ≠ []
  argument_slash : ∀ a ∈ c.argument, '/' ∉ a.toList
  argument_last : ∀ a ∈ c.argument, ∀ last ∈ a.toList.getLast?, isBlank last = false

theorem ofParts_map_ofList (keyword : String) (pieces : List (List Char)) :
    ofParts keyword (pieces.map String.ofList) =
      ⟨keyword, if pieces = [] ∨ [','].intercalate pieces = [] then none
        else some (String.ofList ([','].intercalate pieces))⟩ := by
  have hjoin : ",".intercalate (pieces.map String.ofList) =
      String.ofList ([','].intercalate pieces) := by
    rw [← String.toList_inj, String.toList_intercalate, List.map_map]
    simp [Function.comp_def]
  have hempty : (pieces = [] ∨ [','].intercalate pieces = []) ↔ [','].intercalate pieces = [] := by
    constructor
    · rintro (rfl | h)
      · rfl
      · exact h
    · exact .inr
  unfold ofParts
  dsimp only
  rw [hjoin, if_congr hempty rfl rfl]
  by_cases hnil : [','].intercalate pieces = []
  · rw [if_pos hnil, hnil]
    rfl
  · rw [if_neg hnil, if_neg]
    rwa [String.isEmpty_iff, ← String.toList_eq_nil_iff, String.toList_ofList]

theorem argument_ofParts {keyword a : String} {segments : List (List Char)}
    (hsegments : ∀ segment ∈ segments, '/' ∉ segment)
    (h : a ∈ (ofParts keyword (segments.map String.ofList)).argument) :
    a.toList ≠ [] ∧ a.toList =
      (['/'].intercalate segments).map fun c => if c = '/' then ',' else c := by
  rw [ofParts_map_ofList] at h
  dsimp only at h
  split at h
  · simp at h
  · next hne =>
    cases Option.mem_some.mp h
    rw [String.toList_ofList, ← intercalate_eq_map hsegments]
    exact ⟨fun hnil => hne (.inr hnil), rfl⟩

theorem exists_parts_of_ofLine? {line : List Char} {c : Command} (h : ofLine? line = some c) :
    ∃ text head segments, Trimmed text ∧ text.head? ≠ some ';' ∧
      text.splitOn '/' = head :: segments ∧ trimChars head ≠ [] ∧
      c = ofParts (String.ofList (trimChars head)) (segments.map String.ofList) := by
  unfold ofLine? at h
  split at h
  · cases h
  · next hcomment =>
    split at h
    · cases h
    · next head segments hsplit =>
      split at h
      · cases h
      · next hblank =>
        exact ⟨trimChars line, head, segments, trimmed_trimChars line, hcomment, hsplit,
          by simpa using hblank, (Option.some.inj h).symm⟩

/-- A trimmed line does not end in a blank, so neither do its segments. -/
theorem isBlank_getLast_segments {text head : List Char} {segments : List (List Char)}
    (htrimmed : Trimmed text) (hsplit : text.splitOn '/' = head :: segments) :
    ∀ c ∈ (['/'].intercalate segments).getLast?, isBlank c = false := by
  intro c hc
  apply htrimmed.last c
  cases segments with
  | nil => simp at hc
  | cons segment rest =>
    rw [eq_append_flatMap_of_splitOn hsplit, List.flatMap_cons, List.cons_append,
      ← intercalate_cons_eq_append_flatMap, ← List.singleton_append, List.getLast?_append,
      List.getLast?_append, Option.mem_def.mp hc]
    rfl

theorem writable_of_ofLine? {line : List Char} {c : Command} (h : ofLine? line = some c) :
    c.Writable := by
  obtain ⟨text, head, segments, htrimmed, hcomment, hsplit, hblank, hc⟩ :=
    exists_parts_of_ofLine? h
  have hslash := notMem_of_splitOn_eq_cons hsplit
  have hkeyword : c.keyword.toList = trimChars head := by
    rw [hc, ofParts, String.toList_ofList]
  have hargument : ∀ a ∈ c.argument, a.toList ≠ [] ∧ a.toList =
      (['/'].intercalate segments).map fun c => if c = '/' then ',' else c := by
    intro a ha
    rw [hc] at ha
    exact argument_ofParts (fun segment hsegment => hslash segment (by simp [hsegment])) ha
  constructor
  case keyword_ne_nil => rwa [hkeyword]
  case keyword_trimmed => exact hkeyword ▸ trimmed_trimChars head
  case keyword_slash =>
    rw [hkeyword]
    exact fun hmem => hslash head (by simp) (mem_of_mem_trimChars hmem)
  case keyword_comment =>
    -- The trimmed line starts as its keyword does, and it is no comment.
    have hne : head ≠ [] := by
      rintro rfl
      exact hblank rfl
    have hfirst : text.head? = head.head? := by
      rw [eq_append_flatMap_of_splitOn hsplit, List.head?_append_of_ne_nil _ hne]
    rwa [hkeyword, head?_trimChars (hfirst ▸ htrimmed.head) hblank, ← hfirst]
  case argument_ne_nil => exact fun a ha => (hargument a ha).1
  case argument_slash =>
    intro a ha hmem
    rw [(hargument a ha).2] at hmem
    obtain ⟨x, -, hx⟩ := List.mem_map.mp hmem
    split at hx
    · simp at hx
    · contradiction
  case argument_last =>
    -- Segments are not trimmed themselves, but the line was before it was cut.
    intro a ha last hlast
    rw [(hargument a ha).2, List.getLast?_map] at hlast
    obtain ⟨x, hx, rfl⟩ := Option.map_eq_some_iff.mp hlast
    split
    · decide
    · exact isBlank_getLast_segments htrimmed hsplit x hx

theorem ofLine?_eq_some_of_splitOn {text head : List Char} {segments : List (List Char)}
    (htrimmed : Trimmed text) (hcomment : text.head? ≠ some ';')
    (hsplit : text.splitOn '/' = head :: segments) (hhead : Trimmed head) (hne : head ≠ []) :
    ofLine? text = some (ofParts (String.ofList head) (segments.map String.ofList)) := by
  unfold ofLine?
  rw [htrimmed.trimChars_eq, if_neg hcomment, hsplit]
  dsimp only
  rw [hhead.trimChars_eq, if_neg (by simpa using hne)]

theorem Writable.ofLine?_render {c : Command} (h : c.Writable) :
    ofLine? c.render.toList = some c := by
  obtain ⟨keyword, argument⟩ := c
  have hkeyword : keyword.toList ≠ [] := h.keyword_ne_nil
  have hslash : '/' ∉ keyword.toList := h.keyword_slash
  cases argument with
  | none =>
    have hsplit : keyword.toList.splitOn '/' = [keyword.toList] :=
      List.splitOn_eq_singleton hslash
    have hread := ofLine?_eq_some_of_splitOn h.keyword_trimmed h.keyword_comment hsplit
      h.keyword_trimmed hkeyword
    rw [String.ofList_toList] at hread
    exact hread
  | some a =>
    have hne : a.toList ≠ [] := h.argument_ne_nil a rfl
    have hchars : (Command.render ⟨keyword, some a⟩).toList =
        keyword.toList ++ '/' :: a.toList := by
      simp [render]
    have hhead : (keyword.toList ++ '/' :: a.toList).head? = keyword.toList.head? :=
      List.head?_append_of_ne_nil _ hkeyword
    have hlast : (keyword.toList ++ '/' :: a.toList).getLast? = a.toList.getLast? := by
      rw [← List.singleton_append, List.getLast?_append, List.getLast?_append,
        List.getLast?_eq_some_getLast hne]
      rfl
    have htrimmed : Trimmed (keyword.toList ++ '/' :: a.toList) :=
      ⟨hhead ▸ h.keyword_trimmed.head, hlast ▸ h.argument_last a rfl⟩
    have hsplit : (keyword.toList ++ '/' :: a.toList).splitOn '/' =
        [keyword.toList, a.toList] := by
      rw [List.splitOn_append_cons_self_of_not_mem hslash,
        List.splitOn_eq_singleton (h.argument_slash a rfl)]
    rw [hchars, ofLine?_eq_some_of_splitOn htrimmed (hhead ▸ h.keyword_comment) hsplit
      h.keyword_trimmed hkeyword]
    have hsome : a.isEmpty = false := by
      rwa [Bool.eq_false_iff, ne_eq, String.isEmpty_iff, ← String.toList_eq_nil_iff]
    simp [ofParts, hsome]

theorem OneLine.oneLine_render {c : Command} (h : c.OneLine) : PressPath.OneLine c.render := by
  unfold render
  split
  · next a ha =>
    rw [oneLine_append, oneLine_append]
    exact ⟨⟨h.1, by decide⟩, h.2 a ha⟩
  · exact h.1

end Command

namespace Listing

theorem oneLine_of_mem_ofSource {source : String} {entry : NumberedCommand}
    (h : entry ∈ ofSource source) : entry.command.OneLine :=
  oneLine_of_mem_commands (parse_unlimited "" source) (List.mem_map_of_mem h)

theorem exists_line_of_mem_entriesOf {number : Nat} {lines : List (List Char)}
    {entry : NumberedCommand} (h : entry ∈ entriesOf number lines) :
    ∃ line, Command.ofLine? line = some entry.command ∧ number ≤ entry.line := by
  obtain ⟨⟨line, n⟩, hmem, hentry⟩ := List.mem_filterMap.mp h
  obtain ⟨c, hc, rfl⟩ := Option.map_eq_some_iff.mp hentry
  exact ⟨line, hc, List.le_snd_of_mem_zipIdx hmem⟩

theorem pairwise_line_entriesOf (number : Nat) (lines : List (List Char)) :
    (entriesOf number lines).Pairwise fun earlier later => earlier.line < later.line := by
  induction lines generalizing number with
  | nil => exact .nil
  | cons line rest ih =>
    rw [entriesOf_cons, List.pairwise_append]
    refine ⟨?_, ih (number + 1), ?_⟩
    · cases Command.ofLine? line <;> simp
    · intro earlier hearlier later hlater
      obtain ⟨c, -, rfl⟩ := Option.map_eq_some_iff.mp (Option.mem_toList.mp hearlier)
      obtain ⟨_, -, hle⟩ := exists_line_of_mem_entriesOf hlater
      exact hle

theorem line_injective {source : String} {i j : Nat} {a b : NumberedCommand}
    (ha : (ofSource source)[i]? = some a) (hb : (ofSource source)[j]? = some b)
    (h : a.line = b.line) : i = j := by
  have hpairwise := pairwise_line_entriesOf 1 (source.toList.splitOn '\n')
  rw [List.pairwise_iff_getElem] at hpairwise
  obtain ⟨hi, rfl⟩ := List.getElem?_eq_some_iff.mp ha
  obtain ⟨hj, rfl⟩ := List.getElem?_eq_some_iff.mp hb
  rcases Nat.lt_trichotomy i j with hlt | heq | hgt
  · have hlines := hpairwise i j hi hj hlt
    unfold ofSource at h
    omega
  · exact heq
  · have hlines := hpairwise j i hj hi hgt
    unfold ofSource at h
    omega

def renumbered (l : Listing) : Listing :=
  ⟨l.name, (l.commands.zipIdx 1).map fun (c, n) => ⟨n, c⟩⟩

theorem commands_renumbered (l : Listing) : l.renumbered.commands = l.commands := by
  unfold renumbered
  rw [commands, List.map_map]
  exact List.zipIdx_map_fst 1 l.commands

theorem lines_renumbered (l : Listing) :
    l.renumbered.entries.map NumberedCommand.line = List.range' 1 l.entries.length := by
  unfold renumbered
  rw [List.map_map]
  refine (List.zipIdx_map_snd 1 l.commands).trans ?_
  rw [commands, List.length_map]

theorem render_renumbered (l : Listing) : l.renumbered.render = l.render := by
  unfold render
  rw [commands_renumbered]

theorem entriesOf_map_render (number : Nat) {commands : List Command}
    (h : ∀ c ∈ commands, c.Writable) :
    entriesOf number (commands.map fun c => c.render.toList) =
      (commands.zipIdx number).map fun (c, n) => ⟨n, c⟩ := by
  induction commands generalizing number with
  | nil => rfl
  | cons c rest ih =>
    rw [List.map_cons, entriesOf_cons, (h c (by simp)).ofLine?_render,
      ih (number + 1) fun d hd => h d (by simp [hd]), List.zipIdx_cons, List.map_cons]
    rfl

theorem splitOn_render {l : Listing} (h : ∀ c ∈ l.commands, c.OneLine) :
    l.render.toList.splitOn '\n' = l.commands.map (fun c => c.render.toList) ++ [[]] := by
  have hchars : l.render.toList =
      (l.commands.map fun c => c.render.toList).flatMap (· ++ ['\n']) := by
    simp [render, String.toList_join, List.flatMap_map]
  rw [hchars, splitOn_flatMap_concat]
  intro line hline
  obtain ⟨c, hc, rfl⟩ := List.mem_map.mp hline
  exact (h c hc).oneLine_render

theorem ofSource_render (name source : String) :
    ofSource (Listing.render ⟨name, ofSource source⟩) =
      (Listing.renumbered ⟨name, ofSource source⟩).entries := by
  have honeLine : ∀ c ∈ Listing.commands ⟨name, ofSource source⟩, c.OneLine := by
    intro c hc
    obtain ⟨entry, hentry, rfl⟩ := List.mem_map.mp hc
    exact oneLine_of_mem_ofSource hentry
  have hwritable : ∀ c ∈ Listing.commands ⟨name, ofSource source⟩, c.Writable := by
    intro c hc
    obtain ⟨entry, hentry, rfl⟩ := List.mem_map.mp hc
    obtain ⟨line, hline, -⟩ := exists_line_of_mem_entriesOf hentry
    exact Command.writable_of_ofLine? hline
  have hempty (number : Nat) : entriesOf number [[]] = [] := rfl
  rw [ofSource, splitOn_render honeLine, entriesOf_append, entriesOf_map_render 1 hwritable,
    hempty, List.append_nil]
  rfl

theorem exists_rejection_renumbered {l : Listing} {line found : Nat}
    (h : l.entries.findSome? NumberedCommand.rejection? = some (line, found)) :
    ∃ j entry, l.entries[j]? = some entry ∧ entry.line = line ∧
      l.renumbered.entries.findSome? NumberedCommand.rejection? = some (j + 1, found) := by
  obtain ⟨before, entry, after, hentries, hentry, hbefore⟩ := List.findSome?_eq_some_iff.mp h
  obtain ⟨number, hfound, hpair⟩ := Option.map_eq_some_iff.mp hentry
  cases hpair
  refine ⟨before.length, entry, by simp [hentries], rfl, ?_⟩
  unfold renumbered
  rw [List.findSome?_map]
  refine (findSome?_zipIdx_eq_some_iff (f := fun c : Command => c.role.found?)).mpr ?_
  refine ⟨before.length, entry.command, by simp [commands, hentries], hfound, by omega, ?_⟩
  intro i hi c hc
  have hmem : c ∈ before.map NumberedCommand.command := by
    rw [commands, hentries, List.map_append, List.getElem?_append_left (by simpa using hi)] at hc
    exact List.mem_of_getElem? hc
  obtain ⟨other, hother, rfl⟩ := List.mem_map.mp hmem
  exact Option.map_eq_none_iff.mp (hbefore other hother)

theorem findSome?_renumbered_eq_none {l : Listing}
    (h : l.entries.findSome? NumberedCommand.rejection? = none) :
    l.renumbered.entries.findSome? NumberedCommand.rejection? = none := by
  apply List.findSome?_eq_none_iff.mpr
  intro entry hentry
  obtain ⟨⟨c, n⟩, hmem, rfl⟩ := List.mem_map.mp hentry
  obtain ⟨other, hother, rfl⟩ := List.mem_map.mp (List.fst_mem_of_mem_zipIdx hmem)
  have hnone := List.findSome?_eq_none_iff.mp h other hother
  unfold NumberedCommand.rejection? at hnone ⊢
  rw [Option.map_eq_none_iff.mp hnone]
  rfl

end Listing

namespace Document

def normal (d : Document) : Document :=
  ⟨d.name, Listing.render ⟨d.name, Listing.ofSource d.source⟩⟩

theorem ofSource_normal (d : Document) :
    Listing.ofSource d.normal.source =
      (Listing.renumbered ⟨d.name, Listing.ofSource d.source⟩).entries :=
  Listing.ofSource_render d.name d.source

theorem commands_normal (d : Document) :
    (Listing.ofSource d.normal.source).map NumberedCommand.command =
      (Listing.ofSource d.source).map NumberedCommand.command := by
  rw [ofSource_normal]
  exact Listing.commands_renumbered ⟨d.name, Listing.ofSource d.source⟩

theorem procedure_normal (index : Nat) (d : Document) :
    d.normal.procedure index = d.procedure index := by
  unfold procedure
  rw [commands_normal]
  rfl

theorem markerArgument?_normal (marker : String) (d : Document) :
    d.normal.markerArgument? .unlimited marker = d.markerArgument? .unlimited marker := by
  unfold markerArgument?
  rw [bareCommands_unlimited, bareCommands_unlimited, commands_normal]

theorem exists_rejection_normal {d : Document} {line found : Nat}
    (h : d.rejection? = some (line, found)) :
    ∃ j entry, (Listing.ofSource d.source)[j]? = some entry ∧ entry.line = line ∧
      d.normal.rejection? = some (j + 1, found) := by
  obtain ⟨j, entry, hentry, hline, hrejection⟩ :=
    Listing.exists_rejection_renumbered (l := ⟨d.name, Listing.ofSource d.source⟩) h
  refine ⟨j, entry, hentry, hline, ?_⟩
  rw [rejection?, ofSource_normal]
  exact hrejection

theorem rejection?_normal_eq_none_iff {d : Document} :
    d.normal.rejection? = none ↔ d.rejection? = none := by
  constructor
  · intro h
    cases hrejection : d.rejection? with
    | none => rfl
    | some rejected =>
      obtain ⟨j, entry, -, -, hnormal⟩ := exists_rejection_normal hrejection
      rw [h] at hnormal
      cases hnormal
  · intro h
    rw [rejection?, ofSource_normal]
    exact Listing.findSome?_renumbered_eq_none (l := ⟨d.name, Listing.ofSource d.source⟩) h

theorem translate_normal_eq_ok_iff {index : Nat} {d : Document} {statements : List Statement} :
    (d.normal.translate .unlimited index).1 = .ok statements ↔
      (d.translate .unlimited index).1 = .ok statements := by
  rw [translate_eq_ok_iff, translate_eq_ok_iff, rejection?_normal_eq_none_iff, procedure_normal]

end Document

/-- The text of a listing is a normal form of the source it was read from. It reads as the same
commands on the lines from one on, and it is its own text. It is translated alike, except that
a fault at the j-th command is a fault on line j; and it names the module alike. -/
theorem Listing.render_normalForm (name source : String) :
    ∃ listing, parse .unlimited name source = .ok listing ∧
      (∃ again, parse .unlimited name listing.render = .ok again ∧
        again.commands = listing.commands ∧
        again.entries.map NumberedCommand.line = List.range' 1 listing.entries.length ∧
        again.render = listing.render) ∧
      (∀ index statements,
        ((Document.mk name listing.render).translate .unlimited index).1 = .ok statements ↔
          ((Document.mk name source).translate .unlimited index).1 = .ok statements) ∧
      (∀ index fault, ((Document.mk name source).translate .unlimited index).1 = .error fault →
        ∃ j entry, listing.entries[j]? = some entry ∧ entry.line = fault.line ∧
          (∀ i other, listing.entries[i]? = some other → other.line = fault.line → i = j) ∧
          ((Document.mk name listing.render).translate .unlimited index).1 =
            .error { fault with line := j + 1 }) ∧
      ∀ motion marker rest,
        Job.moduleName .unlimited ⟨.fromSource marker, motion⟩ (⟨name, listing.render⟩ :: rest) =
          Job.moduleName .unlimited ⟨.fromSource marker, motion⟩ (⟨name, source⟩ :: rest) := by
  have hnormal : Document.mk name (render ⟨name, ofSource source⟩) =
      Document.normal ⟨name, source⟩ := rfl
  refine ⟨⟨name, ofSource source⟩, parse_unlimited name source, ?_, ?_, ?_, ?_⟩
  · refine ⟨renumbered ⟨name, ofSource source⟩, ?_, commands_renumbered _, lines_renumbered _,
      render_renumbered _⟩
    rw [parse_unlimited, ofSource_render]
    rfl
  · intro index statements
    rw [hnormal]
    exact Document.translate_normal_eq_ok_iff
  · intro index fault hfault
    obtain ⟨line, found, hrejection, rfl⟩ := Document.translate_eq_error_iff.mp hfault
    obtain ⟨j, entry, hentry, hline, hrenumbered⟩ := Document.exists_rejection_normal hrejection
    refine ⟨j, entry, hentry, hline, ?_, ?_⟩
    · intro i other hother hsame
      exact line_injective hother hentry (hsame.trans hline.symm)
    · rw [hnormal]
      exact Document.translate_eq_error_iff.mpr ⟨j + 1, found, hrenumbered, rfl⟩
  · intro motion marker rest
    unfold Job.moduleName Job.rawName
    dsimp only
    rw [hnormal, Document.markerArgument?_normal]

end PressPath
