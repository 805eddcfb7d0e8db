import PressPath.Proofs.Layout
import PressPath.Proofs.ModuleName
import PressPath.Proofs.Outcome

/-! What a module may be called. Whether a text can name a module depends on its first
character after trimming and on nothing else; the name has the length of the trimmed
text and differs from it only where a character does not fit. So the file of a module
is a visible one, right in the directory that it is stored into. -/
namespace PressPath
open Grammar Text

namespace Identifier

theorem isPart_of_isAlpha {c : Char} (h : c.isAlpha = true) : isPart c = true := by
  simp [isPart, Char.isAlphanum, h]

theorem fit_of_isPart {c : Char} (h : isPart c = true) : fit c = c := if_pos h

theorem fit_of_not_isPart {c : Char} (h : isPart c = false) : fit c = '_' :=
  if_neg (by simp [h])

theorem isAlpha_fit (c : Char) : (fit c).isAlpha = c.isAlpha := by
  cases hpart : isPart c with
  | true => rw [fit_of_isPart hpart]
  | false =>
    have hletter : c.isAlpha = false := by
      apply Bool.eq_false_iff.mpr
      intro h
      rw [isPart_of_isAlpha h] at hpart
      cases hpart
    rw [fit_of_not_isPart hpart, hletter]
    decide

theorem isBlank_of_isPart {c : Char} (h : isPart c = true) : isBlank c = false := by
  have hrange : (65 ≤ c.toNat ∧ c.toNat ≤ 90 ∨ 97 ≤ c.toNat ∧ c.toNat ≤ 122) ∨
      48 ≤ c.toNat ∧ c.toNat ≤ 57 ∨ c.toNat = 95 := by
    change (decide ('A'.val ≤ c.val ∧ c.val ≤ 'Z'.val) ||
      decide ('a'.val ≤ c.val) && decide (c.val ≤ 'z'.val) ||
      decide ('0'.val ≤ c.val) && decide (c.val ≤ '9'.val) || c == '_') = true at h
    simp only [Bool.or_eq_true, Bool.and_eq_true, decide_eq_true_eq, UInt32.le_iff_toNat_le,
      beq_iff_eq] at h
    rcases h with ((h | h) | h) | rfl
    · exact .inl (.inl h)
    · exact .inl (.inr h)
    · exact .inr (.inl h)
    · exact .inr (.inr rfl)
  simp only [isBlank, blankRanges, List.any_cons, List.any_nil, Bool.or_false,
    Bool.or_eq_false_iff, Bool.and_eq_false_iff, decide_eq_false_iff_not]
  omega

@[simp] theorem toList_sanitize (text : String) :
    (sanitize text).toList = (trim text).toList.map fit := by
  simp [sanitize]

theorem startsWithLetter_sanitize {raw : String} :
    StartsWithLetter (sanitize raw) ↔ StartsWithLetter (trim raw) := by
  unfold StartsWithLetter
  rw [toList_sanitize, List.head?_map]
  cases (trim raw).toList.head? with
  | none => simp
  | some c => simp [isAlpha_fit]

theorem isValid_sanitize_iff {raw : String} :
    isValid (sanitize raw) = true ↔ StartsWithLetter (trim raw) := by
  rw [isValid_iff, startsWithLetter_sanitize]
  exact and_iff_left fun c => isPart_of_mem_sanitize

theorem sanitize_of_isValid {name : String} (h : isValid name = true) : sanitize name = name := by
  have hpart := (isValid_iff.mp h).2
  have htrimmed : Trimmed name.toList :=
    ⟨fun c hc => isBlank_of_isPart (hpart c (List.mem_of_mem_head? hc)),
      fun c hc => isBlank_of_isPart (hpart c (List.mem_of_mem_getLast? hc))⟩
  rw [← String.toList_inj, toList_sanitize, toList_trim, htrimmed.trimChars_eq]
  exact (List.map_congr_left fun c hc => fit_of_isPart (hpart c hc)).trans (List.map_id _)

/-- The name has a character for each one of the text: the same where that fits, and an
underscore where it does not. -/
structure IsFittedTo (text name : String) : Prop where
  length : name.length = text.length
  kept : ∀ (i : Nat) (c : Char), text.toList[i]? = some c → isPart c = true →
    name.toList[i]? = some c
  replaced : ∀ (i : Nat) (c : Char), text.toList[i]? = some c → isPart c = false →
    name.toList[i]? = some '_'

theorem isFittedTo_sanitize (raw : String) : IsFittedTo (trim raw) (sanitize raw) where
  length := by
    rw [← String.length_toList, ← String.length_toList, toList_sanitize, List.length_map]
  kept i c hc hpart := by
    rw [toList_sanitize, List.getElem?_map, hc, Option.map_some, fit_of_isPart hpart]
  replaced i c hc hpart := by
    rw [toList_sanitize, List.getElem?_map, hc, Option.map_some, fit_of_not_isPart hpart]

end Identifier

theorem Command.not_isFirstMarked_nil (marker : String) (c : Command) :
    ¬ c.IsFirstMarked marker [] := by
  rintro ⟨-, before, after, hcommands, -⟩
  simp at hcommands

/-- The search for the marker and the listing agree on the first command that has it. If the
budget is spent then neither has a command. -/
theorem Document.isFirstMarked_bareCommands_iff {budget : Budget} {d : Document} {marker : String}
    {c : Command} :
    c.IsFirstMarked marker (d.bareCommands budget) ↔
      ∃ listing, Listing.parse budget d.name d.source = .ok listing ∧
        c.IsFirstMarked marker listing.commands := by
  cases budget with
  | unlimited =>
    rw [Listing.parse_unlimited, bareCommands_unlimited]
    constructor
    · intro hfirst
      exact ⟨_, rfl, hfirst⟩
    · rintro ⟨listing, hlisting, hfirst⟩
      cases hlisting
      exact hfirst
  | spent =>
    rw [bareCommands_spent]
    constructor
    · intro hfirst
      exact absurd hfirst (Command.not_isFirstMarked_nil marker c)
    · rintro ⟨listing, hlisting, hfirst⟩
      rw [Listing.commands, Listing.entries_eq_nil_of_parse_spent hlisting] at hfirst
      exact hfirst

namespace Job

/-- The text that a module's name is made from: the one that was given, or the argument of the
first command in the listing of the first document that has the marker for its keyword. -/
inductive IsRawName (budget : Budget) : Job → List Document → String → Prop
  | given (name : String) (motion : Motion) (documents : List Document) :
    IsRawName budget ⟨.given name, motion⟩ documents name
  | marked {marker raw : String} {d : Document} {listing : Listing} {c : Command}
    (motion : Motion) (rest : List Document)
    (hlisting : Listing.parse budget d.name d.source = .ok listing)
    (hfirst : c.IsFirstMarked marker listing.commands) (hargument : c.argument = some raw) :
    IsRawName budget ⟨.fromSource marker, motion⟩ (d :: rest) raw

theorem rawName_eq_some_iff {budget : Budget} {job : Job} {documents : List Document}
    {raw : String} :
    (job.rawName budget documents).1 = some raw ↔ IsRawName budget job documents raw := by
  constructor
  · intro h
    obtain ⟨naming, motion⟩ := job
    cases naming with
    | given name =>
      cases h
      exact .given raw motion documents
    | fromSource marker =>
      cases documents with
      | nil => cases h
      | cons d rest =>
        obtain ⟨c, hfound, hargument⟩ := Option.bind_eq_some_iff.mp h
        have hfirst := Command.find?_eq_some_iff_isFirstMarked.mp hfound
        obtain ⟨listing, hlisting, hfirst⟩ := Document.isFirstMarked_bareCommands_iff.mp hfirst
        exact .marked motion rest hlisting hfirst hargument
  · intro h
    cases h with
    | given => rfl
    | marked motion rest hlisting hfirst hargument =>
      have hfirst := Document.isFirstMarked_bareCommands_iff.mpr ⟨_, hlisting, hfirst⟩
      change Option.bind _ _ = _
      rw [Command.find?_eq_some_iff_isFirstMarked.mpr hfirst, Option.bind_some, hargument]

theorem moduleName_eq_ok_iff_raw {budget : Budget} {job : Job} {documents : List Document}
    {name : String} :
    job.moduleName budget documents = .ok name ↔
      ∃ raw, IsRawName budget job documents raw ∧ Identifier.StartsWithLetter (trim raw) ∧
        name = Identifier.sanitize raw := by
  rw [moduleName_eq_ok_iff]
  simp only [rawName_eq_some_iff]
  constructor
  · rintro ⟨raw, hraw, rfl, hvalid⟩
    exact ⟨raw, hraw, Identifier.isValid_sanitize_iff.mp hvalid, rfl⟩
  · rintro ⟨raw, hraw, hletter, rfl⟩
    exact ⟨raw, hraw, rfl, Identifier.isValid_sanitize_iff.mpr hletter⟩

end Job

namespace CommandLine

/-- A name that is one part of a path, is not hidden, and leads to its place in the directory
that it is stored into and to no other. -/
structure StaysInside (file : String) : Prop extends IsFileName file where
  parts : pathParts file = [file]
  visible : file.toList.head? ≠ some '.'
  inside : ∀ (fs : FileSystem) (directory : String) (place : Location), directory ≠ "" →
    fs.locate (storePath directory file) = .ok place →
      ∃ folder, fs.locate directory = .ok folder ∧ place = folder ++ [file]

theorem staysInside_of_isValid {name : String} (h : Identifier.isValid name = true) :
    StaysInside (name ++ ".mod") := by
  have hfile : IsFileName (name ++ ".mod") := @isFileName_fileName ⟨name, ""⟩ h
  refine ⟨hfile, ?_, ?_, ?_⟩
  · unfold pathParts
    rw [List.splitOn_eq_singleton hfile.slash]
    simp
  · obtain ⟨c, hc, hletter⟩ := (Identifier.isValid_iff.mp h).1
    rw [String.toList_append, List.head?_append, Option.mem_def.mp hc]
    rintro ⟨⟩
    exact absurd hletter (by decide)
  · intro fs directory place hdirectory hplace
    obtain ⟨folder, hfolder, -, rfl⟩ := (locate_storePath_iff hdirectory hfile).mp hplace
    exact ⟨folder, hfolder, rfl⟩

end CommandLine

/-- The commands of a document are those on its lines, cut at their slashes. There is a name for
the module exactly if there is a text to make it from which starts with
a letter once it is trimmed. The name is an identifier, has the trimmed text's length and differs
from it only where a character does not fit; given as it is, it stays as it is. Its file stays
in the directory that the module is stored into. -/
theorem Job.moduleName_safe (budget : Budget) (job : Job) (documents : List Document) :
    (∀ d : Document, ∃ listing, Listing.parse .unlimited d.name d.source = .ok listing ∧
      listing.commands = (d.source.toList.splitOn '\n').filterMap Command.ofLine?) ∧
    ((∃ name, job.moduleName budget documents = .ok name) ↔
      ∃ raw, IsRawName budget job documents raw ∧ Identifier.StartsWithLetter (trim raw)) ∧
    ∀ name, job.moduleName budget documents = .ok name →
      Identifier.isValid name = true ∧
      (∀ raw, IsRawName budget job documents raw → Identifier.IsFittedTo (trim raw) name) ∧
      (∀ (other : Budget) (motion : Motion) (others : List Document),
        moduleName other ⟨.given name, motion⟩ others = .ok name) ∧
      ∀ text, (RobotModule.mk name text).fileName = name ++ ".mod" ∧
        CommandLine.StaysInside (name ++ ".mod") := by
  simp only [moduleName_eq_ok_iff_raw]
  refine ⟨?_, ?_, ?_⟩
  · intro d
    exact ⟨_, Listing.parse_unlimited d.name d.source, Listing.map_command_entriesOf 1 _⟩
  · constructor
    · rintro ⟨_, raw, hraw, hletter, -⟩
      exact ⟨raw, hraw, hletter⟩
    · rintro ⟨raw, hraw, hletter⟩
      exact ⟨_, raw, hraw, hletter, rfl⟩
  · rintro _ ⟨raw, hraw, hletter, rfl⟩
    have hvalid := Identifier.isValid_sanitize_iff.mpr hletter
    refine ⟨hvalid, ?_, ?_, ?_⟩
    · intro other hother
      have hsame : some other = some raw :=
        (rawName_eq_some_iff.mpr hother).symm.trans (rawName_eq_some_iff.mpr hraw)
      rw [Option.some.inj hsame]
      exact Identifier.isFittedTo_sanitize raw
    · intro _ motion others
      have hfixed := Identifier.sanitize_of_isValid hvalid
      refine ⟨_, .given _ motion others, ?_, hfixed.symm⟩
      exact Identifier.isValid_sanitize_iff.mp (hfixed.symm ▸ hvalid)
    · intro text
      exact ⟨rfl, CommandLine.staysInside_of_isValid hvalid⟩

def Job.climbing : Document :=
  ⟨"part.apt", "RAPID\r\n; PARTNO/A\r\n\tPARTNO/ z../é x\u3000\r\nPARTNO/Late"⟩

theorem Job.moduleName_safe_climbing :
    moduleName .unlimited ⟨.fromSource "PARTNO", {}⟩ [climbing] = .ok "z_____x" ∧
      Identifier.IsFittedTo "z..,é x" "z_____x" ∧
      moduleName .unlimited ⟨.given "\u3000z../é x\t", {}⟩ [] = .ok "z_____x" ∧
      Identifier.IsFittedTo "z../é x" "z_____x" ∧
      moduleName .unlimited ⟨.given "z_____x", {}⟩ [] = .ok "z_____x" ∧
      CommandLine.StaysInside "z_____x.mod" := by
  have hsource : moduleName .unlimited ⟨.fromSource "PARTNO", {}⟩ [climbing] = .ok "z_____x" := by
    decide +kernel
  have hlisting : Listing.parse .unlimited climbing.name climbing.source =
      .ok ⟨"part.apt", [⟨1, ⟨"RAPID", none⟩⟩, ⟨3, ⟨"PARTNO", some " z..,é x"⟩⟩,
        ⟨4, ⟨"PARTNO", some "Late"⟩⟩]⟩ := by
    decide +kernel
  have hfirst : Command.IsFirstMarked "PARTNO" [⟨"RAPID", none⟩, ⟨"PARTNO", some " z..,é x"⟩,
      ⟨"PARTNO", some "Late"⟩] ⟨"PARTNO", some " z..,é x"⟩ :=
    ⟨rfl, [⟨"RAPID", none⟩], [⟨"PARTNO", some "Late"⟩], rfl, by simp⟩
  have hgiven : moduleName .unlimited ⟨.given "\u3000z../é x\t", {}⟩ [] = .ok "z_____x" := by
    decide +kernel
  have hmarkedText : trim " z..,é x" = "z..,é x" := by decide +kernel
  have hgivenText : trim "\u3000z../é x\t" = "z../é x" := by decide +kernel
  obtain ⟨-, hmarked, -⟩ := (moduleName_safe _ _ _).2.2 _ hsource
  obtain ⟨-, hfitted, hfixed, hfile⟩ := (moduleName_safe _ _ _).2.2 _ hgiven
  refine ⟨hsource, ?_, hgiven, ?_, hfixed _ _ _, (hfile "").2⟩
  · exact hmarkedText ▸ hmarked _ (.marked _ _ hlisting hfirst rfl)
  · exact hgivenText ▸ hfitted _ (.given _ _ _)

end PressPath
