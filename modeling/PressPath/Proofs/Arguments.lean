import Mathlib.Data.List.Basic
import PressPath.CommandLine.Arguments

/-! What arguments ask for. A list of arguments spells out a list of pieces: files, values
of options, and switches. Reading the arguments comes to taking in the pieces one after
another, so what a run was asked for can be said of the pieces alone. -/
namespace PressPath.CommandLine

theorem bind_eq_ok_iff {ε α β : Type} {x : Except ε α} {f : α → Except ε β} {b : β} :
    x >>= f = .ok b ↔ ∃ a, x = .ok a ∧ f a = .ok b := by
  cases x with
  | error e => simp [bind, Except.bind]
  | ok a => simp [bind, Except.bind]

/-! ## Spelling -/

inductive Piece where
  | file (path : String)
  | value (option : ValueOption) (text : String)
  | sort
  | verbose
deriving DecidableEq

namespace Piece

def file? : Piece → Option String
  | file path => some path
  | _ => none

def value? (option : ValueOption) : Piece → Option String
  | value other text => if other = option then some text else none
  | _ => none

end Piece

/-- A text that is a file or a value by itself: a single dash is one, other texts that start
with a dash are not. -/
def Plain (text : String) : Prop := text = "-" ∨ text.toList.head? ≠ some '-'

def ValueOption.letter? : ValueOption → Option Char
  | moduleName => some 'm'
  | output => some 'o'
  | _ => none

/-- What letters after a single dash spell, and the option that is left without its value. -/
inductive Cluster : List Char → List Piece → Option ValueOption → Prop
  | nil : Cluster [] [] none
  | verbose {letters : List Char} {pieces : List Piece} {awaiting : Option ValueOption}
    (hrest : Cluster letters pieces awaiting) :
    Cluster ('v' :: letters) (.verbose :: pieces) awaiting
  | apart {option : ValueOption} {c : Char} (hletter : option.letter? = some c) :
    Cluster [c] [] (some option)
  | equals {option : ValueOption} {c : Char} (hletter : option.letter? = some c)
    (text : String) : Cluster (c :: '=' :: text.toList) [.value option text] none
  | joined {option : ValueOption} {c first : Char} (hletter : option.letter? = some c)
    (hfirst : first ≠ '=') (rest : List Char) :
    Cluster (c :: first :: rest) [.value option (String.ofList (first :: rest))] none

/-- What one argument spells, and the option that is left without its value. -/
inductive Opens : String → List Piece → Option ValueOption → Prop
  | file {path : String} (hpath : Plain path) : Opens path [.file path] none
  | sort : Opens "--sort" [.sort] none
  | verbose : Opens "--verbose" [.verbose] none
  | apart (option : ValueOption) : Opens option.name [] (some option)
  | joined (option : ValueOption) (text : String) :
    Opens (option.name ++ "=" ++ text) [.value option text] none
  | cluster {c : Char} {letters : List Char} {pieces : List Piece}
    {awaiting : Option ValueOption} (hletters : Cluster (c :: letters) pieces awaiting) :
    Opens (String.ofList ('-' :: c :: letters)) pieces awaiting

inductive Spells : List String → List Piece → Prop
  | done : Spells [] []
  | files (paths : List String) : Spells ("--" :: paths) (paths.map .file)
  | whole {argument : String} {pieces others : List Piece} {rest : List String}
    (hargument : Opens argument pieces none) (hrest : Spells rest others) :
    Spells (argument :: rest) (pieces ++ others)
  | apart {argument value : String} {option : ValueOption} {pieces others : List Piece}
    {rest : List String} (hargument : Opens argument pieces (some option)) (hvalue : Plain value)
    (hrest : Spells rest others) :
    Spells (argument :: value :: rest) (pieces ++ .value option value :: others)

/-! ## Reading -/

def Meaning.name : Meaning → String
  | takes option => option.name
  | flips switch => switch.name

def Invocation.take (inv : Invocation) : Piece → Except Stop Invocation
  | .file path => inv.addFile path
  | .value option text => inv.set option text
  | .sort => inv.flip .sort
  | .verbose => inv.flip .verbose

namespace Reading

variable {inv : Invocation}

theorem isValue_iff {text : String} : isValue text.toList = true ↔ Plain text := by
  have hdash : text.toList = ['-'] ↔ text = "-" := by
    rw [← String.toList_inj]
    rfl
  simp [isValue, Plain, hdash]

theorem shortName?_eq_takes_iff {c : Char} {option : ValueOption} :
    shortName? c = some (.takes option) ↔ option.letter? = some c := by
  constructor
  · intro h
    unfold shortName? at h
    split at h <;> cases h <;> rfl
  · intro h
    cases option <;> cases h <;> rfl

theorem name_eq_of_longName? {name : String} {meaning : Meaning}
    (h : longName? name = some meaning) : meaning.name = "--" ++ name := by
  unfold longName? at h
  split at h <;> cases h <;> decide

theorem foldlM_singleton (piece : Piece) (inv : Invocation) (f : Invocation → Except Stop Reading) :
    [piece].foldlM Invocation.take inv >>= f = inv.take piece >>= f := by
  rw [List.foldlM_cons]
  simp only [List.foldlM_nil, bind_pure]

theorem short_joined (r : Reading) {c first : Char} {option : ValueOption}
    (hname : shortName? c = some (.takes option)) (hfirst : first ≠ '=') (rest : List Char) :
    short r (c :: first :: rest) = r.set option (String.ofList (first :: rest)) := by
  unfold short
  rw [hname]
  dsimp only
  split
  · contradiction
  · next heq => exact absurd (List.cons.inj heq).1 hfirst
  · rfl

theorem short_of_cluster {letters : List Char} {pieces : List Piece}
    {awaiting : Option ValueOption} (h : Cluster letters pieces awaiting) :
    short { invocation := inv } letters =
      pieces.foldlM Invocation.take inv >>= fun next =>
        .ok { invocation := next, awaiting := awaiting } := by
  induction h generalizing inv with
  | nil => rfl
  | verbose _ ih =>
    rw [List.foldlM_cons]
    exact ih
  | apart hletter =>
    unfold short
    rw [shortName?_eq_takes_iff.mpr hletter]
    rfl
  | equals hletter text =>
    unfold short
    rw [shortName?_eq_takes_iff.mpr hletter, foldlM_singleton]
    simp only [String.ofList_toList]
    rfl
  | joined hletter hfirst rest =>
    rw [short_joined _ (shortName?_eq_takes_iff.mpr hletter) hfirst, foldlM_singleton]
    rfl

theorem exists_cluster {letters : List Char} {r : Reading}
    (h : short { invocation := inv } letters = .ok r) :
    ∃ pieces awaiting next, Cluster letters pieces awaiting ∧
      r = { invocation := next, awaiting := awaiting } := by
  induction letters generalizing inv with
  | nil =>
    cases h
    exact ⟨[], none, inv, .nil, rfl⟩
  | cons c letters ih =>
    cases hname : shortName? c with
    | none =>
      rw [short, hname] at h
      cases h
    | some meaning =>
      cases meaning with
      | flips switch =>
        rw [short, hname] at h
        unfold shortName? at hname
        split at hname <;> cases hname
        · obtain ⟨pieces, awaiting, next, hletters, hr⟩ := ih h
          exact ⟨.verbose :: pieces, awaiting, next, .verbose hletters, hr⟩
        all_goals cases h
      | takes option =>
        have hletter := shortName?_eq_takes_iff.mp hname
        cases letters with
        | nil =>
          rw [short, hname] at h
          cases h
          exact ⟨[], some option, inv, .apart hletter, rfl⟩
        | cons first rest =>
          by_cases hfirst : first = '='
          · rw [hfirst, short, hname] at h
            obtain ⟨next, -, hr⟩ := bind_eq_ok_iff.mp h
            cases hr
            refine ⟨[.value option (String.ofList rest)], none, next, ?_, rfl⟩
            simpa [hfirst] using Cluster.equals hletter (String.ofList rest)
          · rw [short_joined _ hname hfirst] at h
            obtain ⟨next, -, hr⟩ := bind_eq_ok_iff.mp h
            cases hr
            exact ⟨_, none, next, .joined hletter hfirst rest, rfl⟩

theorem exists_longName (option : ValueOption) :
    ∃ word, option.name.toList = '-' :: '-' :: word ∧ '=' ∉ word ∧
      longName? (String.ofList word) = some (.takes option) := by
  cases option <;> exact ⟨_, rfl, by decide, rfl⟩

theorem long_append_equals (r : Reading) {name : List Char} {option : ValueOption}
    (hequals : '=' ∉ name) (hname : longName? (String.ofList name) = some (.takes option))
    (text : String) : r.long (name ++ '=' :: text.toList) = r.set option text := by
  have hall : ∀ c ∈ name, (c != '=') = true := by
    intro c hc
    rw [bne_iff_ne]
    rintro rfl
    exact hequals hc
  unfold long
  dsimp only
  rw [List.takeWhile_append_of_pos hall, List.dropWhile_append_of_pos hall]
  simp [hname]

/-! An argument is a double dash, a long option, letters after a dash, or plain. -/

theorem step_double_dash : step { invocation := inv } "--" =
    .ok { invocation := inv, onlyFiles := true } := rfl

theorem step_long {argument : String} {text : List Char} (htext : text ≠ [])
    (h : argument.toList = '-' :: '-' :: text) :
    step { invocation := inv } argument = long { invocation := inv } text := by
  obtain ⟨c, cs, rfl⟩ := List.exists_cons_of_ne_nil htext
  unfold step
  rw [h]
  rfl

theorem step_short {argument : String} {c : Char} {letters : List Char} (hc : c ≠ '-')
    (h : argument.toList = '-' :: c :: letters) :
    step { invocation := inv } argument = short { invocation := inv } (c :: letters) := by
  unfold step
  rw [h]
  simp [hc]

theorem step_plain {argument : String} (h : Plain argument) :
    step { invocation := inv } argument = addFile { invocation := inv } argument := by
  rcases h with rfl | h
  · rfl
  · unfold step
    dsimp only
    split
    · contradiction
    · split
      · next heq => simp [heq] at h
      · next heq => simp [heq] at h
      · next heq => simp [heq] at h
      · rfl

theorem argument_cases (argument : String) :
    argument = "--" ∨ (∃ text, text ≠ [] ∧ argument.toList = '-' :: '-' :: text) ∨
      (∃ c letters, c ≠ '-' ∧ argument.toList = '-' :: c :: letters) ∨ Plain argument := by
  have heq (text : String) : argument.toList = text.toList ↔ argument = text := String.toList_inj
  by_cases hplain : Plain argument
  · exact .inr (.inr (.inr hplain))
  obtain ⟨hone, hdash⟩ := not_or.mp hplain
  obtain ⟨rest, hrest⟩ := List.head?_eq_some_iff.mp (not_not.mp hdash)
  cases rest with
  | nil => exact absurd ((heq "-").mp hrest) hone
  | cons c letters =>
    by_cases hc : c = '-'
    · subst hc
      by_cases hnil : letters = []
      · subst hnil
        exact .inl ((heq "--").mp hrest)
      · exact .inr (.inl ⟨letters, hnil, hrest⟩)
    · exact .inr (.inr (.inl ⟨c, letters, hc, hrest⟩))

theorem step_of_opens {argument : String} {pieces : List Piece} {awaiting : Option ValueOption}
    (h : Opens argument pieces awaiting) :
    step { invocation := inv } argument =
      pieces.foldlM Invocation.take inv >>= fun next =>
        .ok { invocation := next, awaiting := awaiting } := by
  cases h with
  | file hpath =>
    rw [foldlM_singleton, step_plain hpath]
    rfl
  | sort =>
    rw [foldlM_singleton]
    rfl
  | verbose => rfl
  | apart option => cases option <;> rfl
  | joined option text =>
    obtain ⟨word, hword, hequals, hname⟩ := exists_longName option
    have hargument : (option.name ++ "=" ++ text).toList =
        '-' :: '-' :: (word ++ '=' :: text.toList) := by
      simp [hword]
    rw [foldlM_singleton, step_long (by simp) hargument, long_append_equals _ hequals hname]
    rfl
  | @cluster c letters _ _ hletters =>
    have hdash : c ≠ '-' := by
      cases hletters with
      | verbose => decide
      | @apart option _ hletter | @equals option _ hletter | @joined option _ _ hletter =>
        cases option <;> cases hletter <;> decide
    rw [step_short hdash String.toList_ofList, short_of_cluster hletters]

theorem exists_opens_long {argument : String} {text : List Char} {r : Reading}
    (hargument : argument.toList = '-' :: '-' :: text)
    (h : long { invocation := inv } text = .ok r) :
    ∃ pieces awaiting next, Opens argument pieces awaiting ∧
      r = { invocation := next, awaiting := awaiting } := by
  have htext := List.takeWhile_append_dropWhile (p := (· != '=')) (l := text)
  have hequals := List.head?_dropWhile_not (· != '=') text
  unfold long at h
  dsimp only at h
  generalize text.takeWhile (· != '=') = name at h htext
  generalize text.dropWhile (· != '=') = rest at h htext hequals
  subst htext
  cases hname : longName? (String.ofList name) with
  | none =>
    rw [hname] at h
    cases h
  | some meaning =>
    have hstart : argument = meaning.name ++ String.ofList rest := by
      rw [name_eq_of_longName? hname, ← String.toList_inj, hargument]
      simp
    rw [hname] at h
    cases rest with
    | nil =>
      rw [String.ofList_nil, String.append_empty] at hstart
      subst hstart
      cases meaning with
      | takes option =>
        cases h
        exact ⟨[], some option, inv, .apart option, rfl⟩
      | flips switch =>
        obtain ⟨next, hnext, hr⟩ := bind_eq_ok_iff.mp h
        cases hr
        cases switch with
        | sort => exact ⟨[.sort], none, next, .sort, rfl⟩
        | verbose => exact ⟨[.verbose], none, next, .verbose, rfl⟩
        | help => cases hnext
        | version => cases hnext
    | cons c value =>
      obtain rfl : c = '=' := by simpa using hequals
      cases meaning with
      | takes option =>
        obtain ⟨next, -, hr⟩ := bind_eq_ok_iff.mp h
        cases hr
        refine ⟨[.value option (String.ofList value)], none, next, ?_, rfl⟩
        have hjoined : argument = option.name ++ "=" ++ String.ofList value := by
          rw [hstart, ← String.toList_inj]
          simp [Meaning.name]
        exact hjoined ▸ .joined option _
      | flips switch => cases h

theorem exists_opens {argument : String} {r : Reading}
    (h : step { invocation := inv } argument = .ok r) :
    argument = "--" ∨ ∃ pieces awaiting next, Opens argument pieces awaiting ∧
      r = { invocation := next, awaiting := awaiting } := by
  rcases argument_cases argument with
    hdash | ⟨text, htext, hargument⟩ | ⟨c, letters, hc, hargument⟩ | hplain
  · exact .inl hdash
  · rw [step_long htext hargument] at h
    exact .inr (exists_opens_long hargument h)
  · rw [step_short hc hargument] at h
    obtain ⟨pieces, awaiting, next, hletters, hr⟩ := exists_cluster h
    have heq : argument = String.ofList ('-' :: c :: letters) := by
      rw [← hargument, String.ofList_toList]
    exact .inr ⟨pieces, awaiting, next, heq ▸ .cluster hletters, hr⟩
  · rw [step_plain hplain] at h
    obtain ⟨next, -, hr⟩ := bind_eq_ok_iff.mp h
    cases hr
    exact .inr ⟨_, none, next, .file hplain, rfl⟩

theorem step_value {option : ValueOption} {value : String} (hvalue : Plain value) :
    step { invocation := inv, awaiting := some option } value =
      inv.set option value >>= fun next => .ok { invocation := next } := by
  unfold step
  rw [isValue_iff.mpr hvalue]
  rfl

theorem plain_of_step {option : ValueOption} {value : String} {r : Reading}
    (h : step { invocation := inv, awaiting := some option } value = .ok r) : Plain value := by
  unfold step at h
  dsimp only at h
  split at h
  · next hvalue => exact isValue_iff.mp hvalue
  · cases h

theorem foldlM_step_files (paths : List String) :
    paths.foldlM step { invocation := inv, onlyFiles := true } =
      (paths.map .file).foldlM Invocation.take inv >>= fun next =>
        .ok { invocation := next, onlyFiles := true } := by
  induction paths generalizing inv with
  | nil => rfl
  | cons path rest ih =>
    have hstep : step { invocation := inv, onlyFiles := true } path =
        inv.take (.file path) >>= fun next => .ok { invocation := next, onlyFiles := true } := rfl
    rw [List.foldlM_cons, List.map_cons, List.foldlM_cons, hstep, bind_assoc, bind_assoc]
    exact bind_congr fun next => ih

/-- Reading arguments comes to taking in the pieces that they spell. -/
theorem foldlM_step_of_spells {arguments : List String} {pieces : List Piece}
    (h : Spells arguments pieces) :
    arguments.foldlM step { invocation := inv } >>= finish =
      pieces.foldlM Invocation.take inv >>= fun last => finish { invocation := last } := by
  induction h generalizing inv with
  | done => rfl
  | files paths =>
    rw [List.foldlM_cons, step_double_dash]
    change paths.foldlM step { invocation := inv, onlyFiles := true } >>= finish = _
    rw [foldlM_step_files, bind_assoc]
    rfl
  | whole hargument _ ih =>
    rw [List.foldlM_cons, step_of_opens hargument, List.foldlM_append]
    simp only [bind_assoc]
    exact bind_congr fun next => ih
  | apart hargument hvalue _ ih =>
    rw [List.foldlM_cons, step_of_opens hargument, List.foldlM_append]
    simp only [bind_assoc]
    refine bind_congr fun next => ?_
    change List.foldlM step _ (_ :: _) >>= finish = _
    rw [List.foldlM_cons, step_value hvalue, List.foldlM_cons, bind_assoc, bind_assoc, bind_assoc]
    exact bind_congr fun next => ih

theorem exists_spells {arguments : List String} {last : Invocation} :
    (∀ inv : Invocation, arguments.foldlM step { invocation := inv } >>= finish = .ok last →
      ∃ pieces, Spells arguments pieces) ∧
    ∀ (inv : Invocation) (option : ValueOption),
      arguments.foldlM step { invocation := inv, awaiting := some option } >>= finish = .ok last →
      ∃ value rest pieces, arguments = value :: rest ∧ Plain value ∧ Spells rest pieces := by
  -- An option may wait for the next argument, so the induction is on both states at once.
  induction arguments with
  | nil =>
    constructor
    · intro inv _
      exact ⟨[], .done⟩
    · intro inv option h
      cases h
  | cons argument rest ih =>
    obtain ⟨ihread, ihvalue⟩ := ih
    constructor
    · intro inv h
      rw [List.foldlM_cons, bind_assoc] at h
      obtain ⟨r, hstep, hrest⟩ := bind_eq_ok_iff.mp h
      rcases exists_opens hstep with rfl | ⟨pieces, awaiting, next, hargument, rfl⟩
      · exact ⟨_, .files rest⟩
      · cases awaiting with
        | none =>
          obtain ⟨others, hothers⟩ := ihread next hrest
          exact ⟨_, .whole hargument hothers⟩
        | some option =>
          obtain ⟨value, rest, others, rfl, hvalue, hothers⟩ := ihvalue next option hrest
          exact ⟨_, .apart hargument hvalue hothers⟩
    · intro inv option h
      rw [List.foldlM_cons, bind_assoc] at h
      obtain ⟨r, hstep, hrest⟩ := bind_eq_ok_iff.mp h
      by_cases hvalue : Plain argument
      · rw [step_value hvalue] at hstep
        obtain ⟨next, -, hr⟩ := bind_eq_ok_iff.mp hstep
        cases hr
        obtain ⟨others, hothers⟩ := ihread next hrest
        exact ⟨argument, rest, others, rfl, hvalue, hothers⟩
      · exact absurd (plain_of_step hstep) hvalue

end Reading

/-! ## Meaning -/

def valueOf? (option : ValueOption) (pieces : List Piece) : Option String :=
  pieces.findSome? (Piece.value? option)

/-- The option has the value, or none; the force has it as a number. -/
def Invocation.Has (inv : Invocation) : ValueOption → Option String → Prop
  | .moduleName, text => inv.moduleName = text
  | .marker, text => inv.marker = text
  | .output, text => inv.output = text ∧ text ≠ some ""
  | .speed, text => inv.speed = text
  | .zone, text => inv.zone = text
  | .tool, text => inv.tool = text
  | .force, text => inv.force.map some = text.map Decimal.read?

structure Valued (pieces : List Piece) (inv : Invocation) : Prop where
  has : ∀ option, inv.Has option (valueOf? option pieces)
  once : ∀ option, (pieces.filterMap (Piece.value? option)).length ≤ 1

structure Asks (pieces : List Piece) (inv : Invocation) : Prop extends Valued pieces inv where
  files : inv.files = pieces.filterMap Piece.file?
  file_ne_empty : ∀ path ∈ inv.files, path ≠ ""
  sorts : inv.sorts = true ↔ .sort ∈ pieces
  verbosity : inv.verbosity = pieces.count .verbose

theorem nonemptyPath_eq_ok_iff {path other : String} :
    nonemptyPath path = .ok other ↔ path ≠ "" ∧ other = path := by
  unfold nonemptyPath
  split
  · next h => simp [String.isEmpty_iff.mp h]
  · next h =>
    rw [String.isEmpty_iff] at h
    simp [h, eq_comm]

theorem setOnce_eq_ok_iff {α : Type} {option : ValueOption} {old new : Option α} {value : α} :
    setOnce option old value = .ok new ↔ old = none ∧ new = some value := by
  cases old with
  | none => simp [setOnce, eq_comm]
  | some value => simp [setOnce]

theorem number_eq_ok_iff {text : String} {value : Float} :
    number text = .ok value ↔ Decimal.read? text = some value := by
  unfold number
  cases Decimal.read? text <;> simp

namespace Invocation
variable {inv next : Invocation}

structure Sets (inv next : Invocation) (option : ValueOption) (text : String) : Prop where
  unset : inv.Has option none
  has : next.Has option (some text)
  others : ∀ other value, other ≠ option → inv.Has other value → next.Has other value
  files : next.files = inv.files
  sorts : next.sorts = inv.sorts
  verbosity : next.verbosity = inv.verbosity

theorem sets_of_set {option : ValueOption} {text : String} (h : inv.set option text = .ok next) :
    inv.Sets next option text := by
  have hframe : ∀ {next : Invocation}, (∀ other, other ≠ option → next.Has other = inv.Has other) →
      ∀ other value, other ≠ option → inv.Has other value → next.Has other value := by
    intro next hsame other value hne hvalue
    rwa [hsame other hne]
  cases option with
  | output =>
    obtain ⟨path, hpath, h⟩ := bind_eq_ok_iff.mp h
    obtain ⟨output, houtput, hnext⟩ := bind_eq_ok_iff.mp h
    cases hnext
    obtain ⟨hne, rfl⟩ := nonemptyPath_eq_ok_iff.mp hpath
    obtain ⟨hold, rfl⟩ := setOnce_eq_ok_iff.mp houtput
    refine ⟨⟨hold, nofun⟩, ⟨rfl, by simpa using hne⟩, ?_, rfl, rfl, rfl⟩
    exact hframe fun other hother => by cases other <;> first | contradiction | rfl
  | force =>
    obtain ⟨value, hvalue, h⟩ := bind_eq_ok_iff.mp h
    obtain ⟨force, hforce, hnext⟩ := bind_eq_ok_iff.mp h
    cases hnext
    obtain ⟨hold, rfl⟩ := setOnce_eq_ok_iff.mp hforce
    refine ⟨?_, ?_, ?_, rfl, rfl, rfl⟩
    · simp [Has, hold]
    · simp [Has, number_eq_ok_iff.mp hvalue]
    · exact hframe fun other hother => by cases other <;> first | contradiction | rfl
  | moduleName | marker | speed | zone | tool =>
    obtain ⟨set, hset, hnext⟩ := bind_eq_ok_iff.mp h
    cases hnext
    obtain ⟨hold, rfl⟩ := setOnce_eq_ok_iff.mp hset
    refine ⟨hold, rfl, ?_, rfl, rfl, rfl⟩
    exact hframe fun other hother => by cases other <;> first | contradiction | rfl

theorem eq_none_of_has {option : ValueOption} {text : Option String} (hnone : inv.Has option none)
    (h : inv.Has option text) : text = none := by
  cases option with
  | output => exact h.1.symm.trans hnone.1
  | force =>
    have hmap := h.symm.trans hnone
    simpa using hmap
  | moduleName | marker | speed | zone | tool => exact h.symm.trans hnone

end Invocation

section Taking
variable {pieces : List Piece} {inv next : Invocation}

theorem Valued.of_not_value {piece : Piece} (hvalued : Valued pieces inv)
    (hpiece : ∀ option, piece.value? option = none)
    (hnext : ∀ option, next.Has option = inv.Has option) : Valued (pieces ++ [piece]) next where
  has option := by
    simpa [valueOf?, List.findSome?_append, hpiece, hnext] using hvalued.has option
  once option := by
    simpa [List.filterMap_append, List.filterMap_cons, hpiece] using hvalued.once option

theorem Valued.set {option : ValueOption} {text : String} (hvalued : Valued pieces inv)
    (hset : inv.Sets next option text) : Valued (pieces ++ [.value option text]) next := by
  have hunset : ∀ piece ∈ pieces, piece.value? option = none :=
    List.findSome?_eq_none_iff.mp (Invocation.eq_none_of_has hset.unset (hvalued.has option))
  constructor
  · intro other
    by_cases hne : option = other
    · subst hne
      rw [valueOf?, List.findSome?_append, List.findSome?_eq_none_iff.mpr hunset]
      simpa [Piece.value?] using hset.has
    · simpa [valueOf?, List.findSome?_append, Piece.value?, hne] using
        hset.others other _ (Ne.symm hne) (hvalued.has other)
  · intro other
    by_cases hne : option = other
    · subst hne
      rw [List.filterMap_append, List.filterMap_eq_nil_iff.mpr hunset]
      simp [Piece.value?]
    · simpa [List.filterMap_append, List.filterMap_cons, Piece.value?, hne] using
        hvalued.once other

theorem Asks.take {piece : Piece} (hasks : Asks pieces inv) (h : inv.take piece = .ok next) :
    Asks (pieces ++ [piece]) next := by
  cases piece with
  | file path =>
    obtain ⟨_, hpath, hnext⟩ := bind_eq_ok_iff.mp h
    cases hnext
    obtain ⟨hne, rfl⟩ := nonemptyPath_eq_ok_iff.mp hpath
    refine ⟨hasks.of_not_value (fun _ => rfl) ?_, ?_, ?_, ?_, ?_⟩
    · intro option
      cases option <;> rfl
    · simp [hasks.files, Piece.file?]
    · intro other hother
      rcases List.mem_append.mp hother with hother | hother
      · exact hasks.file_ne_empty other hother
      · rwa [List.mem_singleton.mp hother]
    · simpa using hasks.sorts
    · simpa using hasks.verbosity
  | value option text =>
    have hset := Invocation.sets_of_set h
    refine ⟨hasks.set hset, ?_, ?_, ?_, ?_⟩
    · simpa [List.filterMap_cons, Piece.file?] using hset.files.trans hasks.files
    · rw [hset.files]
      exact hasks.file_ne_empty
    · simpa [hset.sorts] using hasks.sorts
    · simpa [hset.verbosity] using hasks.verbosity
  | sort =>
    unfold Invocation.take Invocation.flip at h
    dsimp only at h
    split at h
    · cases h
    · cases h
      refine ⟨hasks.of_not_value (fun _ => rfl) ?_, ?_, hasks.file_ne_empty, ?_, ?_⟩
      · intro option
        cases option <;> rfl
      · simpa [List.filterMap_cons, Piece.file?] using hasks.files
      · simp
      · simpa using hasks.verbosity
  | verbose =>
    cases h
    refine ⟨hasks.of_not_value (fun _ => rfl) ?_, ?_, hasks.file_ne_empty, ?_, ?_⟩
    · intro option
      cases option <;> rfl
    · simpa [List.filterMap_cons, Piece.file?] using hasks.files
    · simpa using hasks.sorts
    · simp [hasks.verbosity]

end Taking

theorem Asks.foldlM {done rest : List Piece} {inv last : Invocation} (hasks : Asks done inv)
    (h : rest.foldlM Invocation.take inv = .ok last) : Asks (done ++ rest) last := by
  induction rest generalizing done inv with
  | nil =>
    cases h
    simpa using hasks
  | cons piece rest ih =>
    rw [List.foldlM_cons] at h
    obtain ⟨next, hnext, hrest⟩ := bind_eq_ok_iff.mp h
    simpa using ih (hasks.take hnext) hrest

theorem foldlM_of_readArguments {arguments : List String} {inv : Invocation}
    (h : readArguments arguments = .ok (.run inv)) :
    arguments.foldlM Reading.step {} >>= Reading.finish = .ok inv := by
  unfold readArguments at h
  split at h
  · next found hfound =>
    cases h
    exact hfound
  all_goals cases h

theorem asks_nil : Asks [] {} where
  has option := by cases option <;> simp [Invocation.Has, valueOf?]
  once _ := Nat.zero_le 1
  files := rfl
  file_ne_empty _ h := nomatch h
  sorts := by simp
  verbosity := rfl

/-- Arguments that ask for a run spell out pieces, and the run is what these ask for. -/
theorem asks_of_readArguments {arguments : List String} {inv : Invocation}
    (h : readArguments arguments = .ok (.run inv)) :
    (∃ pieces, Spells arguments pieces) ∧ ∀ pieces, Spells arguments pieces → Asks pieces inv := by
  have hread := foldlM_of_readArguments h
  refine ⟨Reading.exists_spells.1 {} hread, ?_⟩
  intro pieces hpieces
  change arguments.foldlM Reading.step { invocation := {} } >>= Reading.finish = .ok inv at hread
  rw [Reading.foldlM_step_of_spells hpieces] at hread
  obtain ⟨last, hlast, hfinish⟩ := bind_eq_ok_iff.mp hread
  unfold Reading.finish at hfinish
  dsimp only at hfinish
  split at hfinish
  · cases hfinish
  · cases hfinish
    exact asks_nil.foldlM hlast

end PressPath.CommandLine
