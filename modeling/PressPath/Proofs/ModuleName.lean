import PressPath.Proofs.Reading

/-! Where a module's name comes from. The search for the marker cuts the source into
bare lines by itself and passes over lines it cannot read; it still sees the commands
of the listing, so the first one with the marker decides, and no later one. -/
namespace PressPath
open Grammar Text

structure Command.IsFirstMarked (marker : String) (commands : List Command) (c : Command) :
    Prop where
  keyword : c.keyword = marker
  first : ∃ before after, commands = before ++ c :: after ∧
    ∀ earlier ∈ before, earlier.keyword ≠ marker

theorem Command.find?_eq_some_iff_isFirstMarked {marker : String} {commands : List Command}
    {c : Command} :
    (commands.find? fun command => command.keyword == marker) = some c ↔
      c.IsFirstMarked marker commands := by
  rw [List.find?_eq_some_iff_append]
  constructor
  · rintro ⟨hkeyword, before, after, hcommands, hbefore⟩
    exact ⟨by simpa using hkeyword, before, after, hcommands,
      fun earlier hearlier => by simpa using hbefore earlier hearlier⟩
  · rintro ⟨hkeyword, before, after, hcommands, hbefore⟩
    exact ⟨by simpa using hkeyword, before, after, hcommands,
      fun earlier hearlier => by simpa using hbefore earlier hearlier⟩

namespace Job

def nameOf (document raw : String) : Except Fault String :=
  if Identifier.isValid (Identifier.sanitize raw) then .ok (Identifier.sanitize raw)
  else .error ⟨document, 0, .missingModuleName⟩

theorem moduleName_fromSource_cons (marker : String) (motion : Motion) (d : Document)
    (rest : List Document) :
    moduleName .unlimited ⟨.fromSource marker, motion⟩ (d :: rest) =
      match d.markerArgument? .unlimited marker with
      | some argument => nameOf d.name argument
      | none => .error ⟨d.name, 0, .missingModuleName⟩ := by
  unfold moduleName rawName nameOf
  dsimp only
  cases d.markerArgument? .unlimited marker <;> rfl

/-- The search for the marker sees the commands of the first document's listing. The first of them
that has the marker as its keyword gives the name, if it has an argument. Otherwise there is no
name, even if a later one has an argument; nor is there one if no command has the marker, or if
there is no document. -/
theorem moduleName_firstMarked (marker : String) (motion : Motion) :
    moduleName .unlimited ⟨.fromSource marker, motion⟩ [] =
      .error ⟨"", 0, .missingModuleName⟩ ∧
    ∀ (name source : String) (rest : List Document),
      ∃ listing, Listing.parse .unlimited name source = .ok listing ∧
        (Document.mk name source).bareCommands .unlimited = listing.commands ∧
        (∀ c argument, Command.IsFirstMarked marker listing.commands c →
          c.argument = some argument →
          moduleName .unlimited ⟨.fromSource marker, motion⟩ (⟨name, source⟩ :: rest) =
            nameOf name argument) ∧
        (∀ c, Command.IsFirstMarked marker listing.commands c → c.argument = none →
          moduleName .unlimited ⟨.fromSource marker, motion⟩ (⟨name, source⟩ :: rest) =
            .error ⟨name, 0, .missingModuleName⟩) ∧
        ((∀ c ∈ listing.commands, c.keyword ≠ marker) →
          moduleName .unlimited ⟨.fromSource marker, motion⟩ (⟨name, source⟩ :: rest) =
            .error ⟨name, 0, .missingModuleName⟩) := by
  refine ⟨rfl, ?_⟩
  intro name source rest
  have hcommands : (Document.mk name source).bareCommands .unlimited =
      Listing.commands ⟨name, Listing.ofSource source⟩ :=
    Document.bareCommands_unlimited ⟨name, source⟩
  have hmodule := moduleName_fromSource_cons marker motion ⟨name, source⟩ rest
  unfold Document.markerArgument? at hmodule
  rw [hcommands] at hmodule
  refine ⟨⟨name, Listing.ofSource source⟩, Listing.parse_unlimited name source, hcommands,
    ?_, ?_, ?_⟩
  · intro c argument hfirst hargument
    rw [hmodule, Command.find?_eq_some_iff_isFirstMarked.mpr hfirst, Option.bind_some, hargument]
  · intro c hfirst hargument
    rw [hmodule, Command.find?_eq_some_iff_isFirstMarked.mpr hfirst, Option.bind_some, hargument]
  · intro hnone
    rw [hmodule, List.find?_eq_none.mpr fun c hc => by simpa using hnone c hc, Option.bind_none]

/-- The comment does not count; the first command with the marker is bare. -/
def bareFirst : Document :=
  ⟨"part.apt", "\r\n; PARTNO/A\r\n PARTNO/\r\r\nPARTNO/Late"⟩

def namedFirst : Document :=
  ⟨"part.apt", "RAPID\r\r\n\tPARTNO / Cell 1/b\u2003\r\nPARTNO/Late\r"⟩

theorem moduleName_firstMarked_decides :
    moduleName .unlimited ⟨.fromSource "PARTNO", {}⟩ [bareFirst] =
      .error ⟨"part.apt", 0, .missingModuleName⟩ ∧
    moduleName .unlimited ⟨.fromSource "TITLE", {}⟩ [bareFirst, namedFirst] =
      .error ⟨"part.apt", 0, .missingModuleName⟩ ∧
    moduleName .unlimited ⟨.fromSource "PARTNO", {}⟩ [namedFirst, bareFirst] =
      .ok "Cell_1_b" := by
  have hbare : Listing.parse .unlimited bareFirst.name bareFirst.source =
      .ok ⟨"part.apt", [⟨3, ⟨"PARTNO", none⟩⟩, ⟨4, ⟨"PARTNO", some "Late"⟩⟩]⟩ := by
    decide +kernel
  have hnamed : Listing.parse .unlimited namedFirst.name namedFirst.source =
      .ok ⟨"part.apt", [⟨1, ⟨"RAPID", none⟩⟩, ⟨2, ⟨"PARTNO", some " Cell 1,b"⟩⟩,
        ⟨3, ⟨"PARTNO", some "Late"⟩⟩]⟩ := by
    decide +kernel
  refine ⟨?_, ?_, ?_⟩
  · obtain ⟨listing, hlisting, -, -, hfirst, -⟩ :=
      (moduleName_firstMarked "PARTNO" {}).2 bareFirst.name bareFirst.source []
    cases hbare.symm.trans hlisting
    exact hfirst ⟨"PARTNO", none⟩ ⟨rfl, [], [⟨"PARTNO", some "Late"⟩], rfl, by simp⟩ rfl
  · obtain ⟨listing, hlisting, -, -, -, hnone⟩ :=
      (moduleName_firstMarked "TITLE" {}).2 bareFirst.name bareFirst.source [namedFirst]
    cases hbare.symm.trans hlisting
    exact hnone (by decide)
  · obtain ⟨listing, hlisting, -, hfirst, -, -⟩ :=
      (moduleName_firstMarked "PARTNO" {}).2 namedFirst.name namedFirst.source [bareFirst]
    cases hnamed.symm.trans hlisting
    refine (hfirst ⟨"PARTNO", some " Cell 1,b"⟩ " Cell 1,b" ?_ rfl).trans (by decide +kernel)
    exact ⟨rfl, [⟨"RAPID", none⟩], [⟨"PARTNO", some "Late"⟩], rfl, by simp⟩

end Job
end PressPath
