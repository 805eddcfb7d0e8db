import PressPath.Proofs.Arguments
import PressPath.Proofs.Batch
import PressPath.Proofs.Location
import PressPath.Proofs.SortedRuns

/-! What a run of the program comes to. It goes through reading, translating and
storing, and the first of these that fails decides: then the run shows nothing but
the reason and leaves all files as they are. -/
namespace PressPath
open Grammar

namespace CommandLine

/-! ## What is asked for -/

/-- The same files, in the order of the names that they end in. Files whose names do not call
for another order stay in the order in which they were given. -/
structure SortedFrom (files order : List String) : Prop where
  perm : order.Perm files
  ordered : order.Pairwise InByteOrder
  stable : ∀ first second, InByteOrder first second → [first, second].Sublist files →
    [first, second].Sublist order

theorem sortedFrom_sortByName (files : List String) : SortedFrom files (sortByName files) where
  perm := sortByName_perm files
  ordered := (pairwise_sortByName files).imp fun hnames => namesInOrder_iff.mp hnames
  stable _ _ hnames hfiles :=
    sublist_sortByName (List.pairwise_pair.mpr (namesInOrder_iff.mpr hnames)) hfiles

structure Lists (pieces : List Piece) (order : List String) : Prop where
  given : .sort ∉ pieces → order = pieces.filterMap Piece.file?
  sorted : .sort ∈ pieces → SortedFrom (pieces.filterMap Piece.file?) order

structure Configures (pieces : List Piece) (job : Job) : Prop where
  given : ∀ name, valueOf? .moduleName pieces = some name → job.naming = .given name
  marked : valueOf? .moduleName pieces = none →
    job.naming = .fromSource ((valueOf? .marker pieces).getD "PARTNO")
  speed : job.motion.speed = (valueOf? .speed pieces).getD "v1000"
  zone : job.motion.zone = (valueOf? .zone pieces).getD "z10"
  tool : job.motion.tool = (valueOf? .tool pieces).getD "tool0"
  force : ∀ text, valueOf? .force pieces = some text →
    Decimal.read? text = some job.motion.force
  usualForce : valueOf? .force pieces = none → job.motion.force = 10.0
  workObject : job.motion.workObject = "force_sensor_object"
  forceDirection : job.motion.forceDirection = (0.0, 0.0, -10.0)

theorem Invocation.order_perm (inv : Invocation) : inv.order.Perm inv.files := by
  unfold order
  split
  · exact sortByName_perm inv.files
  · exact .refl _

namespace Asks
variable {pieces : List Piece} {inv : Invocation}

theorem lists_order (h : Asks pieces inv) : Lists pieces inv.order := by
  unfold Invocation.order
  rw [h.files]
  constructor
  · intro hsort
    exact if_neg (h.sorts.not.mpr hsort)
  · intro hsort
    rw [if_pos (h.sorts.mpr hsort)]
    exact sortedFrom_sortByName _

theorem configures_job (h : Asks pieces inv) : Configures pieces inv.job := by
  have hname : inv.moduleName = _ := h.has .moduleName
  have hmarker : inv.marker = _ := h.has .marker
  have hspeed : inv.speed = _ := h.has .speed
  have hzone : inv.zone = _ := h.has .zone
  have htool : inv.tool = _ := h.has .tool
  have hforce : inv.force.map some = _ := h.has .force
  constructor
  case given =>
    intro name hgiven
    simp [Invocation.job, Invocation.naming, hname, hgiven]
  case marked =>
    intro hnone
    simp [Invocation.job, Invocation.naming, hname, hnone, hmarker, Naming.defaultMarker]
  case speed => exact congrArg (Option.getD · "v1000") hspeed
  case zone => exact congrArg (Option.getD · "z10") hzone
  case tool => exact congrArg (Option.getD · "tool0") htool
  case force =>
    intro text htext
    rw [htext, Option.map_some, Option.map_eq_some_iff] at hforce
    obtain ⟨value, hvalue, hread⟩ := hforce
    rw [← hread]
    exact congrArg some (by simp [Invocation.job, Invocation.motion, hvalue])
  case usualForce =>
    intro hnone
    rw [hnone, Option.map_none, Option.map_eq_none_iff] at hforce
    simp [Invocation.job, Invocation.motion, hforce]
  case workObject => rfl
  case forceDirection => rfl

end Asks

/-! ## Reading files -/

theorem fromUTF8?_eq_some_iff {content : ByteArray} {text : String} :
    String.fromUTF8? content = some text ↔ content = text.toUTF8 := by
  unfold String.fromUTF8?
  split
  · constructor
    · rintro ⟨⟩
      rfl
    · rintro rfl
      rfl
  · next hinvalid =>
    constructor
    · rintro ⟨⟩
    · rintro rfl
      exact absurd text.isValidUTF8 hinvalid

theorem decodeText_eq_ok_iff {content : ByteArray} {text : String} :
    decodeText content = .ok text ↔ content = text.toUTF8 := by
  rw [← fromUTF8?_eq_some_iff, decodeText]
  cases String.fromUTF8? content <;> simp

/-- A file goes by the name that its path ends in, or by the path if that ends in none. -/
def GoesBy (path name : String) : Prop :=
  EndsIn path name ∨ (∀ other, ¬ EndsIn path other) ∧ name = path

theorem documentName_eq_iff {path name : String} : documentName path = name ↔ GoesBy path name := by
  unfold documentName GoesBy
  simp only [← lastName?_eq_some_iff]
  cases lastName? path with
  | none => simp [eq_comm]
  | some last => simp

theorem GoesBy.ne_empty {path name : String} (h : GoesBy path name) (hpath : path ≠ "") :
    name ≠ "" := by
  rcases h with hname | ⟨-, rfl⟩
  · exact hname.ne_empty
  · exact hpath

def Holds (read : String → Except FileFault ByteArray) (path text : String) : Prop :=
  read path = .ok text.toUTF8

structure Loads (read : String → Except FileFault ByteArray) (path : String) (d : Document) :
    Prop where
  name : GoesBy path d.name
  source : Holds read path d.source

variable {read : String → Except FileFault ByteArray}

theorem readText_eq_ok_iff {path text : String} :
    read path >>= decodeText = .ok text ↔ Holds read path text := by
  rw [bind_eq_ok_iff]
  constructor
  · rintro ⟨content, hread, hdecode⟩
    rw [Holds, hread, decodeText_eq_ok_iff.mp hdecode]
  · intro hholds
    exact ⟨_, hholds, decodeText_eq_ok_iff.mpr rfl⟩

theorem gather_eq_ok_iff {paths : List String} {documents : List Document} :
    gather read paths = .ok documents ↔ List.Forall₂ (Loads read) paths documents := by
  induction paths generalizing documents with
  | nil => simp [gather, eq_comm]
  | cons path rest ih =>
    rw [gather, List.forall₂_cons_left_iff]
    constructor
    · intro h
      split at h
      · cases h
      · next source hsource =>
        split at h
        · cases h
        · next others hothers =>
          cases h
          exact ⟨_, others, ⟨documentName_eq_iff.mp rfl, readText_eq_ok_iff.mp hsource⟩,
            ih.mp hothers, rfl⟩
    · rintro ⟨⟨name, source⟩, others, ⟨hname, hsource⟩, hothers, rfl⟩
      rw [readText_eq_ok_iff.mpr hsource]
      dsimp only
      rw [ih.mpr hothers, documentName_eq_iff.mpr hname]

/-- The file does not hold text, for the given reason: it cannot be read at all, or what it
holds is no text. -/
structure Unreadable (read : String → Except FileFault ByteArray) (path : String)
    (fault : FileFault) : Prop where
  not_holds : ∀ text, ¬ Holds read path text
  cause : read path = .error fault ∨ (∃ content, read path = .ok content) ∧ fault = .notText

theorem Asks.name_ne_empty {pieces : List Piece} {inv : Invocation} (h : Asks pieces inv)
    {documents : List Document} (hloads : List.Forall₂ (Loads read) inv.order documents) :
    ∀ d ∈ documents, d.name ≠ "" := by
  intro d hd
  obtain ⟨path, hpath, hloads⟩ := exists_mem_of_forall₂ hloads hd
  exact hloads.name.ne_empty (h.file_ne_empty path (inv.order_perm.mem_iff.mp hpath))

theorem unreadable_of_readText_eq_error {path : String} {fault : FileFault}
    (h : read path >>= decodeText = .error fault) : Unreadable read path fault := by
  constructor
  · intro text hholds
    rw [readText_eq_ok_iff.mpr hholds] at h
    cases h
  · cases hread : read path with
    | error found =>
      rw [hread] at h
      cases h
      exact .inl rfl
    | ok content =>
      rw [hread] at h
      change decodeText content = .error fault at h
      unfold decodeText at h
      split at h
      · cases h
      · exact .inr ⟨⟨content, rfl⟩, (Except.error.inj h).symm⟩

theorem exists_first_of_gather_eq_error {paths : List String} {failure : ReadFailure}
    (h : gather read paths = .error failure) :
    ∃ before rest, paths = before ++ failure.path :: rest ∧
      (∀ earlier ∈ before, ∃ text, Holds read earlier text) ∧
      Unreadable read failure.path failure.fault := by
  induction paths with
  | nil => cases h
  | cons path rest ih =>
    unfold gather at h
    split at h
    · next fault hfault =>
      cases h
      exact ⟨[], rest, rfl, by simp, unreadable_of_readText_eq_error hfault⟩
    · next source hsource =>
      split at h
      · next other hother =>
        cases h
        obtain ⟨before, after, rfl, hbefore, hpath⟩ := ih hother
        refine ⟨path :: before, after, rfl, ?_, hpath⟩
        intro earlier hearlier
        rcases List.mem_cons.mp hearlier with rfl | hearlier
        · exact ⟨source, readText_eq_ok_iff.mp hsource⟩
        · exact hbefore earlier hearlier
      · cases h

theorem exists_documents_of_holds {paths : List String}
    (h : ∀ path ∈ paths, ∃ text, Holds read path text) :
    ∃ documents, gather read paths = .ok documents := by
  cases hread : gather read paths with
  | ok documents => exact ⟨documents, rfl⟩
  | error failure =>
    obtain ⟨before, rest, rfl, -, hfailure⟩ := exists_first_of_gather_eq_error hread
    obtain ⟨text, htext⟩ := h failure.path (by simp)
    exact absurd htext (hfailure.not_holds text)

theorem exists_failure_of_not_holds {paths : List String} {path : String} (hmem : path ∈ paths)
    (h : ∀ text, ¬ Holds read path text) : ∃ failure, gather read paths = .error failure := by
  cases hread : gather read paths with
  | error failure => exact ⟨failure, rfl⟩
  | ok documents =>
    obtain ⟨d, -, hloads⟩ := exists_mem_of_forall₂ (gather_eq_ok_iff.mp hread).flip hmem
    exact absurd hloads.source (h d.source)

/-! ## Faults -/

inductive Explains : Fault → String → Prop
  | malformed {document : String} {line : Nat} (hdocument : document ≠ "") (hline : line ≠ 0)
    (found : Nat) :
    Explains ⟨document, line, .malformedMove found⟩
      ("Error in " ++ document ++ " line " ++ Nat.repr line ++
        ": move needs 6 pose fields, found " ++ Nat.repr found)
  | unmarked {document : String} (hdocument : document ≠ "") :
    Explains ⟨document, 0, .missingModuleName⟩
      ("Error in " ++ document ++ ": no usable module name given or found in the source")
  | unusable :
    Explains ⟨"", 0, .missingModuleName⟩
      "Error: no usable module name given or found in the source"

section Faults
variable {job : Job} {documents : List Document} {fault : Fault}

theorem explains_malformed {document : String} {line : Nat} (hdocument : document ≠ "")
    (hline : line ≠ 0) (found : Nat) :
    Explains ⟨document, line, .malformedMove found⟩
      (Fault.message ⟨document, line, .malformedMove found⟩) := by
  have hwords : ": move needs 6 pose fields, found " =
      ": " ++ ("move needs " ++ (Nat.repr Pose.arity ++ " pose fields, found ")) := by decide
  have hexplains := Explains.malformed hdocument hline found
  rw [hwords] at hexplains
  simpa [Fault.message, Fault.place, Cause.message, hdocument, hline, String.append_assoc]
    using hexplains

theorem explains_missing (document : String) :
    Explains ⟨document, 0, .missingModuleName⟩
      (Fault.message ⟨document, 0, .missingModuleName⟩) := by
  by_cases hdocument : document = ""
  · subst hdocument
    exact .unusable
  · have hwords : ": no usable module name given or found in the source" =
        ": " ++ Cause.missingModuleName.message := by decide
    have hexplains := Explains.unmarked hdocument
    rw [hwords] at hexplains
    simpa [Fault.message, Fault.place, hdocument, String.append_assoc] using hexplains

theorem explains_of_moduleName (h : job.moduleName .unlimited documents = .error fault) :
    Explains fault fault.message := by
  unfold Job.moduleName at h
  dsimp only at h
  split at h
  · split at h
    · cases h
    · cases h
      exact explains_missing _
  · cases h
    exact explains_missing _

theorem explains_of_mem_faults (hnames : ∀ d ∈ documents, d.name ≠ "")
    (h : fault ∈ Job.faults .unlimited documents) : Explains fault fault.message := by
  obtain ⟨i, d, hd, hfault⟩ := Job.mem_faults_iff.mp h
  obtain ⟨line, found, hrejection, rfl⟩ := Document.translate_eq_error_iff.mp hfault
  obtain ⟨k, -, -, -, rfl, -⟩ := Document.rejection?_eq_some_iff.mp hrejection
  exact explains_malformed (hnames d (List.mem_of_getElem? hd)) (Nat.succ_ne_zero k) found

theorem explains_of_translate {faults : List Fault} {events : List Event}
    (hnames : ∀ d ∈ documents, d.name ≠ "")
    (h : job.translate .unlimited documents = (.error faults, events)) :
    List.Forall₂ Explains faults (faults.map Fault.message) := by
  rw [List.forall₂_map_right_iff, List.forall₂_same]
  intro fault hfault
  cases hname : job.moduleName .unlimited documents with
  | error missing =>
    rw [Job.translate_of_moduleName_eq_error hname] at h
    cases h
    rw [List.mem_singleton.mp hfault]
    exact explains_of_moduleName hname
  | ok name =>
    rw [Job.translate_of_moduleName_eq_ok hname] at h
    have hresult := congrArg Prod.fst h
    dsimp only at hresult
    split at hresult
    · cases hresult
    · cases hresult
      exact explains_of_mem_faults hnames hfault

end Faults

/-! ## Stages of a run -/

theorem isValid_of_moduleName {budget : Budget} {job : Job} {documents : List Document}
    {name : String} (h : job.moduleName budget documents = .ok name) :
    Identifier.isValid name = true := by
  obtain ⟨raw, -, -, hvalid⟩ := Job.moduleName_eq_ok_iff.mp h
  exact hvalid

theorem isFileName_fileName {result : RobotModule} (h : Identifier.isValid result.name = true) :
    IsFileName result.fileName := by
  have hlength : 4 ≤ result.fileName.length := by
    rw [RobotModule.fileName, String.length_append]
    exact Nat.le_add_left _ _
  refine ⟨?_, ?_, ?_, ?_⟩
  · intro hslash
    rw [RobotModule.fileName, String.toList_append, List.mem_append] at hslash
    rcases hslash with hslash | hslash
    · exact absurd ((Identifier.isValid_iff.mp h).2 _ hslash) (by decide)
    · exact absurd hslash (by decide)
  all_goals
    intro heq
    rw [heq] at hlength
    exact absurd hlength (by decide)

namespace Invocation

variable {inv : Invocation} {fs after : FileSystem} {documents : List Document}
  {events : List Event} {result : RobotModule}

theorem failure_accessReport {action heading : String} (hheading : heading = "Error: " ++ action ++ " ")
    (events : List Event) (path : String) (fault : FileFault) :
    inv.failure events (accessReport action path fault) =
      ⟨1, "", Event.report inv.verbosity events ++ heading ++ path ++ "\n\nCaused by:\n    " ++
        fault.message ++ "\n"⟩ := by
  rw [hheading, failure]
  simp only [accessReport, String.append_assoc]

theorem run_of_gather_eq_error {failure : ReadFailure}
    (h : gather fs.read inv.order = .error failure) :
    inv.run fs = (inv.failure [] (accessReport "Reading" failure.path failure.fault), fs) := by
  unfold run
  rw [h]
  rfl

theorem run_of_faults {faults : List Fault} (hread : gather fs.read inv.order = .ok documents)
    (h : inv.job.translate .unlimited documents = (.error faults, events)) :
    inv.run fs = (inv.failure events (Fault.report faults), fs) := by
  unfold run plan
  rw [hread]
  dsimp only
  rw [h]

theorem run_of_no_output (hread : gather fs.read inv.order = .ok documents)
    (h : inv.job.translate .unlimited documents = (.ok result, events))
    (houtput : inv.output = none) : inv.run fs = (inv.success events result.text, fs) := by
  unfold run plan
  rw [hread]
  dsimp only
  rw [h, houtput]

theorem run_of_write_eq_ok {directory : String}
    (hread : gather fs.read inv.order = .ok documents)
    (h : inv.job.translate .unlimited documents = (.ok result, events))
    (houtput : inv.output = some directory)
    (hwrite : fs.write (storePath directory result.fileName) result.text.toUTF8 = .ok after) :
    inv.run fs =
      (inv.success (events ++ [.moduleWritten (storePath directory result.fileName)]) "",
        after) := by
  unfold run plan
  rw [hread]
  dsimp only
  rw [h, houtput]
  dsimp only
  rw [hwrite]

theorem run_of_write_eq_error {directory : String} {fault : FileFault}
    (hread : gather fs.read inv.order = .ok documents)
    (h : inv.job.translate .unlimited documents = (.ok result, events))
    (houtput : inv.output = some directory)
    (hwrite : fs.write (storePath directory result.fileName) result.text.toUTF8 = .error fault) :
    inv.run fs =
      (inv.failure events (accessReport "Writing" (storePath directory result.fileName) fault),
        fs) := by
  unfold run plan
  rw [hread]
  dsimp only
  rw [h, houtput]
  dsimp only
  rw [hwrite]

theorem unchanged_of_exitCode (h : (inv.run fs).1.exitCode = 1) :
    (inv.run fs).1.stdout = "" ∧ (inv.run fs).2 = fs := by
  cases hread : gather fs.read inv.order with
  | error failure =>
    rw [run_of_gather_eq_error hread]
    exact ⟨rfl, rfl⟩
  | ok documents =>
    rcases htranslate : inv.job.translate .unlimited documents with ⟨faults | result, events⟩
    · rw [run_of_faults hread htranslate]
      exact ⟨rfl, rfl⟩
    · cases houtput : inv.output with
      | none =>
        rw [run_of_no_output hread htranslate houtput] at h
        cases h
      | some directory =>
        cases hwrite : fs.write (storePath directory result.fileName) result.text.toUTF8 with
        | ok after =>
          rw [run_of_write_eq_ok hread htranslate houtput hwrite] at h
          cases h
        | error fault =>
          rw [run_of_write_eq_error hread htranslate houtput hwrite]
          exact ⟨rfl, rfl⟩

theorem isFileName_of_translate {job : Job}
    (h : job.translate .unlimited documents = (.ok result, events)) :
    IsFileName result.fileName := by
  have hresult : (job.translate .unlimited documents).1 = .ok result := by rw [h]
  exact isFileName_fileName (isValid_of_moduleName (Job.translate_eq_ok_iff.mp hresult).1)

end Invocation

/-- The folder holds the module in a file named after it, and every other place is as it was. -/
structure Stored (fs after : FileSystem) (folder : Location) (result : RobotModule) : Prop where
  directory : fs.find? folder = some .directory
  file : after.find? (folder ++ [result.name ++ ".mod"]) = some (.file result.text.toUTF8)
  elsewhere : ∀ place, place ≠ folder ++ [result.name ++ ".mod"] →
    after.find? place = fs.find? place

theorem storePath_eq (directory file : String) :
    storePath directory file =
      (if directory.toList.getLast? = some '/' then directory else directory ++ "/") ++ file := by
  unfold storePath
  split <;> rfl

theorem stored_of_write {fs after : FileSystem} {directory : String} {result : RobotModule}
    (hdirectory : directory ≠ "") (hfile : IsFileName result.fileName)
    (h : fs.write (storePath directory result.fileName) result.text.toUTF8 = .ok after) :
    ∃ folder, fs.locate directory = .ok folder ∧ Stored fs after folder result := by
  obtain ⟨folder, hfolder, hfound, -, rfl⟩ := (write_storePath_eq_ok_iff hdirectory hfile).mp h
  refine ⟨folder, hfolder, hfound, ?_, ?_⟩
  · exact FileSystem.find?_put_self fs _ _ (by simp)
  · intro place hplace
    exact FileSystem.find?_put_of_ne fs _ place _ hplace

theorem taken_of_write_eq_error {fs : FileSystem} {directory file : String} {content : ByteArray}
    {fault : FileFault} (hdirectory : directory ≠ "") (hfile : IsFileName file)
    (h : fs.write (storePath directory file) content = .error fault) (folder : Location)
    (hfolder : fs.locate directory = .ok folder) (hfound : fs.find? folder = some .directory) :
    fs.find? (folder ++ [file]) = some .directory := by
  by_contra hfree
  have hwrite : fs.write (storePath directory file) content = .ok _ :=
    (write_storePath_eq_ok_iff hdirectory hfile).mpr ⟨folder, hfolder, hfound, hfree, rfl⟩
  rw [h] at hwrite
  cases hwrite

/-- What a run comes to. The arguments spell out pieces, which list the files and configure the
job. The first file that holds no text ends the run; then the faults of the documents do.
Otherwise the module is printed, or stored if a directory is given and can take it. A run that
fails prints nothing and leaves all files as they are. -/
theorem perform_outcome {arguments : List String} {inv : Invocation} {fs after : FileSystem}
    {outcome : Outcome} (harguments : readArguments arguments = .ok (.run inv))
    (hrun : Request.perform fs (.run inv) = (outcome, after)) :
    (∃ pieces, Spells arguments pieces) ∧
    ∀ pieces, Spells arguments pieces →
      (∀ option, (pieces.filterMap (Piece.value? option)).length ≤ 1) ∧
      ∃ order job, Lists pieces order ∧ Configures pieces job ∧
        ((∃ path ∈ order, ∀ text, ¬ Holds fs.read path text) →
          ∃ before path rest fault, order = before ++ path :: rest ∧
            (∀ earlier ∈ before, ∃ text, Holds fs.read earlier text) ∧
            Unreadable fs.read path fault ∧
            outcome =
              ⟨1, "", "Error: Reading " ++ path ++ "\n\nCaused by:\n    " ++ fault.message ++
                "\n"⟩) ∧
        ((∀ path ∈ order, ∃ text, Holds fs.read path text) →
          ∃ documents, List.Forall₂ (Loads fs.read) order documents ∧
            (∀ faults events, job.translate .unlimited documents = (.error faults, events) →
              ∃ texts, List.Forall₂ Explains faults texts ∧
                outcome =
                  ⟨1, "", Event.report (pieces.count .verbose) events ++ "Error: " ++
                    "\n".intercalate texts ++ "\n"⟩) ∧
            ∀ result events, job.translate .unlimited documents = (.ok result, events) →
              (valueOf? .output pieces = none →
                outcome = ⟨0, result.text, Event.report (pieces.count .verbose) events⟩ ∧
                  after = fs) ∧
              ∀ directory path, valueOf? .output pieces = some directory →
                path = (if directory.toList.getLast? = some '/' then directory
                  else directory ++ "/") ++ (result.name ++ ".mod") →
                (outcome =
                    ⟨0, "", Event.report (pieces.count .verbose)
                      (events ++ [.moduleWritten path])⟩ ∧
                  after.read path = .ok result.text.toUTF8 ∧
                  ∃ folder, fs.locate directory = .ok folder ∧ Stored fs after folder result) ∨
                ∃ fault, fs.write path result.text.toUTF8 = .error fault ∧
                  (∀ folder, fs.locate directory = .ok folder →
                    fs.find? folder = some .directory →
                    fs.find? (folder ++ [result.name ++ ".mod"]) = some .directory) ∧
                  outcome =
                    ⟨1, "", Event.report (pieces.count .verbose) events ++ "Error: Writing " ++
                      path ++ "\n\nCaused by:\n    " ++ fault.message ++ "\n"⟩) ∧
        (outcome.exitCode = 1 → outcome.stdout = "" ∧ after = fs) := by
  obtain ⟨hspells, hasks⟩ := asks_of_readArguments harguments
  change inv.run fs = (outcome, after) at hrun
  refine ⟨hspells, ?_⟩
  intro pieces hpieces
  have hasks := hasks pieces hpieces
  obtain ⟨houtput, hdirected⟩ := hasks.has .output
  rw [← hasks.verbosity, ← houtput]
  rw [← houtput] at hdirected
  refine ⟨hasks.once, inv.order, inv.job, hasks.lists_order, hasks.configures_job, ?_, ?_, ?_⟩
  · rintro ⟨path, hmem, hpath⟩
    obtain ⟨failure, hread⟩ := exists_failure_of_not_holds hmem hpath
    obtain ⟨before, rest, horder, hbefore, hfailure⟩ := exists_first_of_gather_eq_error hread
    rw [Invocation.run_of_gather_eq_error hread] at hrun
    cases hrun
    refine ⟨before, failure.path, rest, failure.fault, horder, hbefore, hfailure, ?_⟩
    have hheading : "Error: Reading " = "Error: " ++ "Reading" ++ " " := by decide
    rw [Invocation.failure_accessReport hheading, Event.report_nil, String.empty_append]
  · intro hall
    obtain ⟨documents, hread⟩ := exists_documents_of_holds hall
    have hloads := gather_eq_ok_iff.mp hread
    refine ⟨documents, hloads, ?_, ?_⟩
    · intro faults events htranslate
      rw [Invocation.run_of_faults hread htranslate] at hrun
      cases hrun
      exact ⟨_, explains_of_translate (hasks.name_ne_empty hloads) htranslate, rfl⟩
    · intro result events htranslate
      refine ⟨?_, ?_⟩
      · intro houtput
        rw [Invocation.run_of_no_output hread htranslate houtput] at hrun
        cases hrun
        exact ⟨rfl, rfl⟩
      · rintro directory path houtput hpath
        rw [← storePath_eq] at hpath
        subst hpath
        have hdirectory : directory ≠ "" := by
          rintro rfl
          exact hdirected houtput
        have hfile := Invocation.isFileName_of_translate htranslate
        cases hwrite : fs.write (storePath directory result.fileName) result.text.toUTF8 with
        | ok stored =>
          rw [Invocation.run_of_write_eq_ok hread htranslate houtput hwrite] at hrun
          cases hrun
          exact .inl ⟨rfl, FileSystem.read_of_write hwrite,
            stored_of_write hdirectory hfile hwrite⟩
        | error fault =>
          rw [Invocation.run_of_write_eq_error hread htranslate houtput hwrite] at hrun
          cases hrun
          have hheading : "Error: Writing " = "Error: " ++ "Writing" ++ " " := by decide
          exact .inr ⟨fault, hwrite, taken_of_write_eq_error hdirectory hfile hwrite,
            Invocation.failure_accessReport hheading _ _ _⟩
  · intro hcode
    have hunchanged : (inv.run fs).1.exitCode = 1 → _ := Invocation.unchanged_of_exitCode
    rw [hrun] at hunchanged
    exact hunchanged hcode

def titled : Document := ⟨"a.cl", "TITLE/Cell 1\r\nRAPID\r\nGOTO/1,2,3,4,5,6\r\n"⟩

def untitled : Document := ⟨"z.cl", "; z\nRAPID\nGOTO/6,5,4,3,2,1"⟩

def titledModule : RobotModule :=
  ⟨"Cell_1", "MODULE Cell_1\n\nPROC Path_a_1()\n! TITLE: Cell 1\n" ++
    "  MoveJ p[1, 2, 3, 4, 5, 6], v1000, z10, gripper;\nENDPROC\n\nPROC Path_z_2()\n" ++
    "  MoveJ p[6, 5, 4, 3, 2, 1], v1000, z10, gripper;\nENDPROC\n\nENDMODULE\n"⟩

def stocked : FileSystem :=
  { entries := [(["b"], .directory), (["b", "z.cl"], .file untitled.source.toUTF8),
      (["a.cl"], .file titled.source.toUTF8), (["out"], .directory)] }

def storing : Invocation :=
  { files := ["b/z.cl", "./a.cl"], marker := some "TITLE", output := some "out",
    tool := some "gripper", force := some 12.5, sorts := true, verbosity := 1 }

theorem perform_outcome_stored :
    readArguments ["b/z.cl", "--sort", "-vo", "out", "--tool=gripper", "--force", "12.5",
      "--marker", "TITLE", "./a.cl"] = .ok (.run storing) ∧
    ∃ after, Request.perform stocked (.run storing) =
        (⟨0, "", "[INFO] translated a.cl into Path_a_1 (2 statements)\n" ++
          "[INFO] translated z.cl into Path_z_2 (1 statements)\n[INFO] wrote out/Cell_1.mod\n"⟩,
          after) ∧
      after.read "out/Cell_1.mod" = .ok titledModule.text.toUTF8 ∧
      ∀ place, place ≠ ["out", "Cell_1.mod"] → after.find? place = stocked.find? place := by
  have harguments : readArguments ["b/z.cl", "--sort", "-vo", "out", "--tool=gripper",
      "--force", "12.5", "--marker", "TITLE", "./a.cl"] = .ok (.run storing) := rfl
  have hplain (text : String) (h : text.toList.head? ≠ some '-') : Plain text := .inr h
  have htool : Opens "--tool=gripper" [.value .tool "gripper"] none := .joined .tool "gripper"
  have hletters : Opens "-vo" [.verbose] (some .output) := .cluster (.verbose (.apart rfl))
  have hpieces := Spells.whole (.file (hplain "b/z.cl" (by decide))) <| .whole .sort <|
    .apart hletters (hplain "out" (by decide)) <| .whole htool <|
    .apart (.apart .force) (hplain "12.5" (by decide)) <|
    .apart (.apart .marker) (hplain "TITLE" (by decide)) <|
    .whole (.file (hplain "./a.cl" (by decide))) .done
  refine ⟨harguments, ?_⟩
  cases hrun : Request.perform stocked (.run storing) with
  | mk outcome after =>
    obtain ⟨-, order, job, hlists, hjob, -, hread, -⟩ :=
      (perform_outcome harguments hrun).2 _ hpieces
    have hsorted : SortedFrom ["b/z.cl", "./a.cl"] order := hlists.sorted (by simp)
    have hordered : ¬ InByteOrder "b/z.cl" "./a.cl" := namesInOrder_iff.not.mp (by decide +kernel)
    have horder : order = ["./a.cl", "b/z.cl"] := by
      obtain ⟨first, second, rfl⟩ := List.length_eq_two.mp hsorted.perm.length_eq
      obtain ⟨hfirst, hsecond⟩ := List.cons_perm_iff_perm_erase.mp hsorted.perm
      have hnames := List.rel_of_pairwise_cons hsorted.ordered (List.mem_singleton_self second)
      simp only [List.mem_cons, List.not_mem_nil, or_false] at hfirst
      rcases hfirst with rfl | rfl
      · cases List.perm_singleton.mp hsecond
        exact absurd hnames hordered
      · cases List.perm_singleton.mp hsecond
        rfl
    subst horder
    have hgather : gather stocked.read ["./a.cl", "b/z.cl"] = .ok [titled, untitled] := by
      decide +kernel
    obtain ⟨documents, hdocuments, -, hresult⟩ := hread fun path hpath => by
      obtain ⟨d, -, hloads⟩ := exists_mem_of_forall₂ (gather_eq_ok_iff.mp hgather).flip hpath
      exact ⟨d.source, hloads.source⟩
    cases hgather.symm.trans (gather_eq_ok_iff.mpr hdocuments)
    have hsettings : job = ⟨.fromSource "TITLE", { tool := "gripper", force := 12.5 }⟩ := by
      obtain ⟨naming, speed, zone, tool, workObject, forceDirection, force⟩ := job
      cases hjob.marked rfl
      cases hjob.speed
      cases hjob.zone
      cases hjob.tool
      cases hjob.workObject
      cases hjob.forceDirection
      have hforce : some 12.5 = some force := hjob.force "12.5" rfl
      cases hforce
      rfl
    subst hsettings
    have htranslate : Job.translate .unlimited
        ⟨.fromSource "TITLE", { tool := "gripper", force := 12.5 }⟩ [titled, untitled] =
        (.ok titledModule, [.moduleNamed "Cell_1", .documentTranslated "a.cl" "a_1" 2,
          .documentTranslated "z.cl" "z_2" 1]) := by
      decide +kernel
    obtain ⟨-, hstored⟩ := hresult _ _ htranslate
    rcases hstored "out" "out/Cell_1.mod" rfl (by decide) with
      ⟨rfl, hfile, folder, hfolder, hafter⟩ | ⟨fault, -, htaken, -⟩
    · refine ⟨after, congrArg (·, after) (by decide +kernel), hfile, ?_⟩
      have hplace : stocked.locate "out" = .ok ["out"] := by decide +kernel
      cases hplace.symm.trans hfolder
      exact hafter.elsewhere
    · have hfree := htaken ["out"] (by decide +kernel) (by decide +kernel)
      exact absurd hfree (by decide +kernel)

end CommandLine
end PressPath
