import PressPath.Job

/-! Texts that take up one line. A line of a document has no line feed in it, so
neither has anything that is cut out of it; identifiers and numbers are written
without one. -/
namespace PressPath

def OneLine (s : String) : Prop := '\n' ∉ s.toList

instance (s : String) : Decidable (OneLine s) :=
  inferInstanceAs (Decidable (¬ _))

@[simp] theorem oneLine_append {s t : String} : OneLine (s ++ t) ↔ OneLine s ∧ OneLine t := by
  simp [OneLine]

@[simp] theorem oneLine_ofList {cs : List Char} : OneLine (String.ofList cs) ↔ '\n' ∉ cs := by
  simp [OneLine]

theorem oneLine_intercalate {separator : String} {parts : List String}
    (hseparator : OneLine separator) (hparts : ∀ part ∈ parts, OneLine part) :
    OneLine (separator.intercalate parts) := by
  induction parts with
  | nil => simp [OneLine]
  | cons part rest ih =>
    have hpart : OneLine part := hparts part (by simp)
    have hrest := ih fun s hs => hparts s (by simp [hs])
    cases rest with
    | nil => simpa using hpart
    | cons next rest =>
      rw [String.intercalate_cons_cons]
      simp [hpart, hseparator, hrest]

namespace Text

theorem mem_of_mem_trimChars {c : Char} {cs : List Char} (h : c ∈ trimChars cs) : c ∈ cs := by
  unfold trimChars trimEnd trimStart at h
  have hdrop := (List.dropWhile_sublist isBlank).subset (List.mem_reverse.mp h)
  exact (List.dropWhile_sublist isBlank).subset (List.mem_reverse.mp hdrop)

theorem mem_of_mem_slice {c : Char} {start stop : Nat} {cs : List Char}
    (h : c ∈ slice start stop cs) : c ∈ cs := by
  unfold slice at h
  rw [← takeBytes_append_dropBytes start cs]
  apply List.mem_append_right
  rw [← takeBytes_append_dropBytes (stop - start) (dropBytes start cs)]
  exact List.mem_append_left _ h

theorem newline_notMem_dropLast {cs line : List Char} (h : line ∈ linesWithEnds cs) :
    '\n' ∉ line.dropLast := by
  induction cs generalizing line with
  | nil => simp [linesWithEnds] at h
  | cons c cs ih =>
    change line ∈ consLine c (linesWithEnds cs) at h
    unfold consLine at h
    split at h
    · rcases List.mem_cons.mp h with rfl | h
      · simp
      · exact ih h
    · next hc =>
      cases hlines : linesWithEnds cs with
      | nil =>
        rw [hlines] at h
        simp only [List.mem_singleton] at h
        simp [h]
      | cons first rest =>
        rw [hlines] at h
        rcases List.mem_cons.mp h with rfl | h
        · have hfirst : '\n' ∉ first.dropLast := ih (by simp [hlines])
          cases first with
          | nil => simp
          | cons d first => simpa [Ne.symm hc] using hfirst
        · exact ih (by simp [hlines, h])

theorem newline_notMem_withoutEnd {line : List Char} (h : '\n' ∉ line.dropLast) :
    '\n' ∉ withoutEnd line := by
  rcases List.eq_nil_or_concat line with rfl | ⟨front, last, rfl⟩
  · simp [withoutEnd]
  · rw [List.concat_eq_append, List.dropLast_concat] at h
    unfold withoutEnd
    rw [List.concat_eq_append, List.reverse_append, List.reverse_singleton,
      List.singleton_append, List.dropWhile_cons, List.mem_reverse]
    split
    · intro hmem
      exact h (List.mem_reverse.mp ((List.dropWhile_sublist isLineEnd).subset hmem))
    · next hlast =>
      have hne : last ≠ '\n' := by
        rintro rfl
        exact hlast rfl
      simp [h, Ne.symm hne]

end Text

namespace SourceLine
open Text

theorem exists_text_of_mem_locate {l : SourceLine} {number offset : Nat}
    {lines : List (List Char)} (h : l ∈ locate number offset lines) :
    ∃ line ∈ lines, l.text = withoutEnd line := by
  induction lines generalizing number offset with
  | nil => simp [locate] at h
  | cons line rest ih =>
    rcases List.mem_cons.mp h with rfl | h
    · exact ⟨line, by simp, rfl⟩
    · obtain ⟨found, hmem, htext⟩ := ih h
      exact ⟨found, by simp [hmem], htext⟩

theorem newline_notMem_text {l : SourceLine} {text : List Char} (h : l ∈ ofText text) :
    '\n' ∉ l.text := by
  obtain ⟨line, hmem, htext⟩ := exists_text_of_mem_locate h
  rw [htext]
  exact newline_notMem_withoutEnd (newline_notMem_dropLast hmem)

end SourceLine

namespace Command
open Text Grammar

def OneLine (c : Command) : Prop :=
  PressPath.OneLine c.keyword ∧ ∀ argument ∈ c.argument, PressPath.OneLine argument

theorem oneLine_tokenText {text : List Char} (h : '\n' ∉ text) (token : Token Rule) :
    PressPath.OneLine (tokenText text token) := by
  unfold tokenText
  rw [oneLine_ofList]
  intro hmem
  exact h (mem_of_mem_slice hmem)

theorem oneLine_ofParts {keyword : String} {segments : List String}
    (hkeyword : PressPath.OneLine keyword)
    (hsegments : ∀ segment ∈ segments, PressPath.OneLine segment) :
    (ofParts keyword segments).OneLine := by
  refine ⟨hkeyword, ?_⟩
  intro argument hargument
  unfold ofParts at hargument
  dsimp only at hargument
  split at hargument
  · simp at hargument
  · cases Option.mem_some.mp hargument
    exact oneLine_intercalate (by decide) hsegments

theorem oneLine_of_ofTokens? {text : List Char} {tokens : List (Token Rule)} {c : Command}
    (htext : '\n' ∉ text) (h : ofTokens? text tokens = some c) : c.OneLine := by
  unfold ofTokens? at h
  split at h
  · next head others =>
    dsimp only at h
    split at h
    · cases h
    · cases Option.some.inj h
      apply oneLine_ofParts
      · have hhead := oneLine_tokenText htext head
        unfold trim
        rw [oneLine_ofList]
        exact fun hmem => hhead (mem_of_mem_trimChars hmem)
      · intro segment hsegment
        obtain ⟨token, -, rfl⟩ := List.mem_map.mp hsegment
        exact oneLine_tokenText htext token
  · cases h

theorem oneLine_of_parseLine {budget : Budget} {text : String} {c : Command}
    (htext : PressPath.OneLine text) (h : parseLine budget text = .ok (some c)) : c.OneLine := by
  unfold parseLine at h
  dsimp only at h
  split at h
  · simp at h
  · split at h
    · cases h
    · exact oneLine_of_ofTokens? (fun hmem => htext (mem_of_mem_trimChars hmem))
        (Except.ok.inj h)

end Command

theorem SourceLine.parseLine_of_command? {budget : Grammar.Budget} {name : String}
    {text : List Char} {l : SourceLine} {entry : NumberedCommand}
    (h : l.command? budget name text = .ok (some entry)) :
    entry.line = l.number ∧
      Command.parseLine budget (String.ofList l.text) = .ok (some entry.command) := by
  unfold command? at h
  split at h
  · cases h
  · simp at h
  · next command hcommand =>
    cases Option.some.inj (Except.ok.inj h)
    exact ⟨rfl, hcommand⟩

namespace Listing
open Grammar Text

theorem exists_line_of_mem_collect {budget : Budget} {name : String} {text : List Char}
    {lines : List SourceLine} {entries : List NumberedCommand} {entry : NumberedCommand}
    (h : collect budget name text lines = .ok entries) (hmem : entry ∈ entries) :
    ∃ l ∈ lines, entry.line = l.number ∧
      Command.parseLine budget (String.ofList l.text) = .ok (some entry.command) := by
  induction lines generalizing entries with
  | nil =>
    cases Except.ok.inj h
    simp at hmem
  | cons l rest ih =>
    unfold collect at h
    split at h
    · cases h
    · next found hfound =>
      split at h
      · cases h
      · next others hothers =>
        cases Except.ok.inj h
        rcases List.mem_append.mp hmem with hmem | hmem
        · rw [Option.mem_toList.mp hmem] at hfound
          exact ⟨l, by simp, SourceLine.parseLine_of_command? hfound⟩
        · obtain ⟨line, hline, hentry⟩ := ih hothers hmem
          exact ⟨line, by simp [hline], hentry⟩

theorem oneLine_of_mem_commands {budget : Budget} {name source : String} {listing : Listing}
    {c : Command} (h : parse budget name source = .ok listing) (hmem : c ∈ listing.commands) :
    c.OneLine := by
  unfold parse at h
  split at h
  · cases h
  · next entries hentries =>
    cases Except.ok.inj h
    obtain ⟨entry, hentry, rfl⟩ := List.mem_map.mp hmem
    obtain ⟨l, hl, -, hparse⟩ := exists_line_of_mem_collect hentries hentry
    exact Command.oneLine_of_parseLine (oneLine_ofList.mpr (SourceLine.newline_notMem_text hl))
      hparse

end Listing

theorem notMem_toDigits {c : Char} (hc : c.isDigit = false) (n : Nat) : c ∉ Nat.toDigits 10 n := by
  intro hmem
  have hdigit := Nat.isDigit_of_mem_toDigits (by decide) (by decide) hmem
  rw [hc] at hdigit
  contradiction

namespace Decimal

theorem oneLine_zeros (n : Nat) : OneLine (zeros n) := by
  simp [zeros]

theorem oneLine_positional (d : Expansion) : OneLine (positional d) := by
  have hdigits : '\n' ∉ Nat.toDigits 10 d.digits := notMem_toDigits (by decide) d.digits
  have htake (n : Nat) : '\n' ∉ (Nat.toDigits 10 d.digits).take n :=
    fun hmem => hdigits (List.mem_of_mem_take hmem)
  have hdrop (n : Nat) : '\n' ∉ (Nat.toDigits 10 d.digits).drop n :=
    fun hmem => hdigits (List.mem_of_mem_drop hmem)
  unfold positional
  dsimp only
  split
  · simp [hdigits, oneLine_zeros]
  · split
    · simp only [oneLine_append, oneLine_ofList]
      exact ⟨⟨htake _, by decide⟩, hdrop _⟩
    · simp only [oneLine_append, oneLine_ofList]
      exact ⟨⟨by decide, oneLine_zeros _⟩, hdigits⟩

theorem oneLine_render (x : Float) : OneLine (render x) := by
  have hsign (negative : Bool) : OneLine (signText negative) := by
    cases negative <;> decide
  unfold render Number.render
  split
  · decide
  · exact oneLine_append.mpr ⟨hsign _, by decide⟩
  · exact oneLine_append.mpr ⟨hsign _, by decide⟩
  · exact oneLine_append.mpr ⟨hsign _, oneLine_positional _⟩

end Decimal

namespace Identifier

theorem isPart_of_mem_sanitize {s : String} {c : Char} (h : c ∈ (sanitize s).toList) :
    isPart c = true := by
  unfold sanitize at h
  rw [String.toList_ofList] at h
  obtain ⟨d, -, rfl⟩ := List.mem_map.mp h
  exact isPart_fit d

theorem oneLine_sanitize (s : String) : OneLine (sanitize s) :=
  fun hmem => absurd (isPart_of_mem_sanitize hmem) (by decide)

end Identifier

theorem Document.oneLine_procName (index : Nat) (d : Document) : OneLine (d.procName index) := by
  unfold procName Nat.repr
  rw [oneLine_append, oneLine_append]
  exact ⟨⟨Identifier.oneLine_sanitize _, by decide⟩,
    oneLine_ofList.mpr (notMem_toDigits (by decide) _)⟩

theorem Job.moduleName_eq_ok_iff {budget : Grammar.Budget} {job : Job}
    {documents : List Document} {name : String} :
    job.moduleName budget documents = .ok name ↔
      ∃ raw, (job.rawName budget documents).1 = some raw ∧ name = Identifier.sanitize raw ∧
        Identifier.isValid name = true := by
  unfold moduleName
  dsimp only
  cases (job.rawName budget documents).1 with
  | none => simp
  | some raw =>
    rw [Option.map_some]
    dsimp only
    constructor
    · intro h
      split at h
      · next hvalid =>
        cases h
        exact ⟨raw, rfl, rfl, hvalid⟩
      · cases h
    · rintro ⟨_, ⟨⟩, rfl, hvalid⟩
      rw [if_pos hvalid]

theorem Job.oneLine_moduleName {budget : Grammar.Budget} {job : Job} {documents : List Document}
    {name : String} (h : job.moduleName budget documents = .ok name) : OneLine name := by
  obtain ⟨raw, -, rfl, -⟩ := moduleName_eq_ok_iff.mp h
  exact Identifier.oneLine_sanitize raw

end PressPath
