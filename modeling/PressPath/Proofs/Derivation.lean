import PressPath.Grammar.Rules

/-! What a parsing expression means, as rules. A choice tries its second part only after
the first has failed, a repetition goes on for as long as its body matches, and an absence
test fails where its body matches. There is at most one outcome, and a run finds it
whenever the body of every repetition consumes something; so in this grammar the limit on
the rounds of a repetition is never what ends it. -/
namespace PressPath.Grammar

variable {ρ : Type}

inductive Derives : Expr ρ → Cursor → Matching ρ → Prop where
  | any {offset : Nat} {c : Char} {cs : List Char} :
      Derives .any ⟨offset, c :: cs⟩ (some ([], ⟨offset + c.utf8Size, cs⟩))
  | anyAtEnd {offset : Nat} : Derives .any ⟨offset, []⟩ none
  | char {c : Char} {offset : Nat} {cs : List Char} :
      Derives (.char c) ⟨offset, c :: cs⟩ (some ([], ⟨offset + c.utf8Size, cs⟩))
  | charOther {c d : Char} {offset : Nat} {cs : List Char} (other : c ≠ d) :
      Derives (.char d) ⟨offset, c :: cs⟩ none
  | charAtEnd {c : Char} {offset : Nat} : Derives (.char c) ⟨offset, []⟩ none
  | inputStart {cursor : Cursor} (start : cursor.offset = 0) :
      Derives .inputStart cursor (some ([], cursor))
  | inputStartLater {cursor : Cursor} (later : cursor.offset ≠ 0) :
      Derives .inputStart cursor none
  | inputEnd {cursor : Cursor} (finished : cursor.rest = []) :
      Derives .inputEnd cursor (some ([], cursor))
  | inputEndBefore {cursor : Cursor} (before : cursor.rest ≠ []) : Derives .inputEnd cursor none
  | seq {first second : Expr ρ} {cursor middle last : Cursor} {tokens others : List (Token ρ)}
      (head : Derives first cursor (some (tokens, middle)))
      (tail : Derives second middle (some (others, last))) :
      Derives (.seq first second) cursor (some (tokens ++ others, last))
  | seqFirst {first second : Expr ρ} {cursor : Cursor} (head : Derives first cursor none) :
      Derives (.seq first second) cursor none
  | seqSecond {first second : Expr ρ} {cursor middle : Cursor} {tokens : List (Token ρ)}
      (head : Derives first cursor (some (tokens, middle)))
      (tail : Derives second middle none) :
      Derives (.seq first second) cursor none
  | choiceFirst {first second : Expr ρ} {cursor : Cursor} {found : List (Token ρ) × Cursor}
      (head : Derives first cursor (some found)) :
      Derives (.choice first second) cursor (some found)
  | choiceSecond {first second : Expr ρ} {cursor : Cursor} {outcome : Matching ρ}
      (head : Derives first cursor none) (tail : Derives second cursor outcome) :
      Derives (.choice first second) cursor outcome
  | manyStop {body : Expr ρ} {cursor : Cursor} (stop : Derives body cursor none) :
      Derives (.many body) cursor (some ([], cursor))
  | manyMore {body : Expr ρ} {cursor next last : Cursor} {tokens others : List (Token ρ)}
      (round : Derives body cursor (some (tokens, next)))
      (more : Derives (.many body) next (some (others, last))) :
      Derives (.many body) cursor (some (tokens ++ others, last))
  | absent {body : Expr ρ} {cursor : Cursor} (without : Derives body cursor none) :
      Derives (.absent body) cursor (some ([], cursor))
  | absentFound {body : Expr ρ} {cursor : Cursor} {found : List (Token ρ) × Cursor}
      (inside : Derives body cursor (some found)) :
      Derives (.absent body) cursor none
  | token {rule : ρ} {body : Expr ρ} {cursor last : Cursor} {tokens : List (Token ρ)}
      (inside : Derives body cursor (some (tokens, last))) :
      Derives (.token rule body) cursor
        (some (⟨rule, cursor.offset, last.offset⟩ :: tokens, last))
  | tokenNone {rule : ρ} {body : Expr ρ} {cursor : Cursor} (inside : Derives body cursor none) :
      Derives (.token rule body) cursor none

theorem Derives.unique {e : Expr ρ} {cursor : Cursor} {outcome other : Matching ρ}
    (h : Derives e cursor outcome) (h' : Derives e cursor other) : outcome = other := by
  induction h generalizing other with
  | seq _ _ ihhead ihtail =>
    cases h' with
    | seq head tail =>
      cases ihhead head
      cases ihtail tail
      rfl
    | seqFirst head => cases ihhead head
    | seqSecond head tail =>
      cases ihhead head
      cases ihtail tail
  | seqFirst _ ihhead =>
    cases h' with
    | seq head _ => cases ihhead head
    | seqFirst _ => rfl
    | seqSecond head _ => cases ihhead head
  | seqSecond _ _ ihhead ihtail =>
    cases h' with
    | seq head tail =>
      cases ihhead head
      cases ihtail tail
    | seqFirst _ => rfl
    | seqSecond _ _ => rfl
  | choiceFirst _ ihhead =>
    cases h' with
    | choiceFirst head => exact ihhead head
    | choiceSecond head _ => cases ihhead head
  | choiceSecond _ _ ihhead ihtail =>
    cases h' with
    | choiceFirst head => cases ihhead head
    | choiceSecond _ tail => exact ihtail tail
  | manyStop _ ihstop =>
    cases h' with
    | manyStop _ => rfl
    | manyMore round _ => cases ihstop round
  | manyMore _ _ ihround ihmore =>
    cases h' with
    | manyStop stop => cases ihround stop
    | manyMore round more =>
      cases ihround round
      cases ihmore more
      rfl
  | absent _ ihbody =>
    cases h' with
    | absent _ => rfl
    | absentFound inside => cases ihbody inside
  | absentFound _ ihbody =>
    cases h' with
    | absent without => cases ihbody without
    | absentFound _ => rfl
  | token _ ihbody =>
    cases h' with
    | token inside =>
      cases ihbody inside
      rfl
    | tokenNone inside => cases ihbody inside
  | tokenNone _ ihbody =>
    cases h' with
    | token inside => cases ihbody inside
    | tokenNone _ => rfl
  | _ => cases h' <;> simp_all

/-! ## Consuming -/

namespace Expr

def consumes : Expr ρ → Bool
  | any | char _ => true
  | inputStart | inputEnd | many _ | absent _ => false
  | seq first second => first.consumes || second.consumes
  | choice first second => first.consumes && second.consumes
  | token _ body => body.consumes

def loopsConsume : Expr ρ → Bool
  | any | char _ | inputStart | inputEnd => true
  | seq first second | choice first second => first.loopsConsume && second.loopsConsume
  | many body => body.consumes && body.loopsConsume
  | absent body | token _ body => body.loopsConsume

end Expr

theorem Derives.length_rest_le {e : Expr ρ} {cursor : Cursor} {outcome : Matching ρ}
    (h : Derives e cursor outcome) :
    ∀ tokens next, outcome = some (tokens, next) → next.rest.length ≤ cursor.rest.length := by
  induction h with
  | seq _ _ ihhead ihtail =>
    rintro _ _ ⟨⟩
    exact Nat.le_trans (ihtail _ _ rfl) (ihhead _ _ rfl)
  | choiceFirst _ ihhead => exact ihhead
  | choiceSecond _ _ _ ihtail => exact ihtail
  | manyMore _ _ ihround ihmore =>
    rintro _ _ ⟨⟩
    exact Nat.le_trans (ihmore _ _ rfl) (ihround _ _ rfl)
  | token _ ihbody =>
    rintro _ _ ⟨⟩
    exact ihbody _ _ rfl
  | _ => simp

theorem Derives.length_rest_lt {e : Expr ρ} {cursor : Cursor} {outcome : Matching ρ}
    (h : Derives e cursor outcome) (hconsumes : e.consumes = true) :
    ∀ tokens next, outcome = some (tokens, next) → next.rest.length < cursor.rest.length := by
  induction h with
  | seq head tail ihhead ihtail =>
    rintro _ _ ⟨⟩
    rcases Bool.or_eq_true_iff.mp hconsumes with hfirst | hsecond
    · exact Nat.lt_of_le_of_lt (tail.length_rest_le _ _ rfl) (ihhead hfirst _ _ rfl)
    · exact Nat.lt_of_lt_of_le (ihtail hsecond _ _ rfl) (head.length_rest_le _ _ rfl)
  | choiceFirst _ ihhead => exact ihhead (Bool.and_eq_true_iff.mp hconsumes).1
  | choiceSecond _ _ _ ihtail => exact ihtail (Bool.and_eq_true_iff.mp hconsumes).2
  | token _ ihbody =>
    rintro _ _ ⟨⟩
    exact ihbody hconsumes _ _ rfl
  | _ => simp_all [Expr.consumes]

/-! ## Runs -/

/-- With a round for each character that is left, a repetition whose body consumes goes on until
its body fails. -/
theorem derives_iterate {body : Expr ρ} (hbody : ∀ cursor, Derives body cursor (body.run cursor))
    (hconsumes : body.consumes = true) (rounds : Nat) (cursor : Cursor)
    (hrounds : cursor.rest.length ≤ rounds) :
    Derives (.many body) cursor (some (iterate body.run rounds cursor)) := by
  induction rounds generalizing cursor with
  | zero =>
    have hround := hbody cursor
    cases hmatch : body.run cursor with
    | none =>
      rw [hmatch] at hround
      exact .manyStop hround
    | some found =>
      have hlt := hround.length_rest_lt hconsumes found.1 found.2 hmatch
      omega
  | succ rounds ih =>
    have hround := hbody cursor
    rw [iterate]
    cases hmatch : body.run cursor with
    | none =>
      rw [hmatch] at hround
      exact .manyStop hround
    | some found =>
      have hlt := hround.length_rest_lt hconsumes found.1 found.2 hmatch
      rw [hmatch] at hround
      exact .manyMore hround (ih found.2 (by omega))

theorem derives_run {e : Expr ρ} (hloops : e.loopsConsume = true) (cursor : Cursor) :
    Derives e cursor (e.run cursor) := by
  induction e generalizing cursor with
  | any =>
    obtain ⟨offset, _ | ⟨c, cs⟩⟩ := cursor
    · exact .anyAtEnd
    · exact .any
  | char d =>
    obtain ⟨offset, _ | ⟨c, cs⟩⟩ := cursor
    · exact .charAtEnd
    · rw [Expr.run]
      split
      · next hc => exact hc ▸ .char
      · next hc => exact .charOther hc
  | inputStart =>
    rw [Expr.run]
    split
    · next hstart => exact .inputStart hstart
    · next hlater => exact .inputStartLater hlater
  | inputEnd =>
    rw [Expr.run]
    split
    · next hend => exact .inputEnd (List.isEmpty_iff.mp hend)
    · next hbefore => exact .inputEndBefore fun hnil => hbefore (List.isEmpty_iff.mpr hnil)
  | seq first second ihfirst ihsecond =>
    obtain ⟨hfirst, hsecond⟩ := Bool.and_eq_true_iff.mp hloops
    have hhead := ihfirst hfirst cursor
    rw [Expr.run]
    cases hmatch : first.run cursor with
    | none => exact .seqFirst (hmatch ▸ hhead)
    | some found =>
      have htail := ihsecond hsecond found.2
      rw [hmatch] at hhead
      dsimp only
      cases hmatch' : second.run found.2 with
      | none => exact .seqSecond hhead (hmatch' ▸ htail)
      | some others => exact .seq hhead (hmatch' ▸ htail)
  | choice first second ihfirst ihsecond =>
    obtain ⟨hfirst, hsecond⟩ := Bool.and_eq_true_iff.mp hloops
    have hhead := ihfirst hfirst cursor
    rw [Expr.run]
    cases hmatch : first.run cursor with
    | none => exact .choiceSecond (hmatch ▸ hhead) (ihsecond hsecond cursor)
    | some found => exact .choiceFirst (hmatch ▸ hhead)
  | many body ihbody =>
    obtain ⟨hconsumes, hbody⟩ := Bool.and_eq_true_iff.mp hloops
    exact derives_iterate (ihbody hbody) hconsumes _ cursor (Nat.le_refl _)
  | absent body ihbody =>
    have hinside := ihbody hloops cursor
    rw [Expr.run]
    cases hmatch : body.run cursor with
    | none => exact .absent (hmatch ▸ hinside)
    | some found => exact .absentFound (hmatch ▸ hinside)
  | token rule body ihbody =>
    have hinside := ihbody hloops cursor
    rw [Expr.run]
    cases hmatch : body.run cursor with
    | none => exact .tokenNone (hmatch ▸ hinside)
    | some found => exact .token (hmatch ▸ hinside)

/-- What the rules derive is what a run finds. -/
theorem derives_iff {e : Expr ρ} (hloops : e.loopsConsume = true) {cursor : Cursor}
    {outcome : Matching ρ} : Derives e cursor outcome ↔ outcome = e.run cursor := by
  constructor
  · intro h
    exact h.unique (derives_run hloops cursor)
  · rintro rfl
    exact derives_run hloops cursor

theorem Rule.loopsConsume_expr (rule : Rule) : rule.expr.loopsConsume = true := by
  cases rule <;> rfl

end PressPath.Grammar
