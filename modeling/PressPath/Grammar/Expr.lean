/-! Parsing expressions. Choice is ordered, repetition is greedy and takes back
nothing, and an absence test consumes nothing. A match yields the tokens of its
named parts, a token before the tokens inside it, with offsets in bytes. -/
namespace PressPath.Grammar

structure Token (ρ : Type) where
  rule : ρ
  start : Nat
  stop : Nat
deriving Repr, DecidableEq

inductive Expr (ρ : Type) where
  | any
  | char (c : Char)
  | inputStart
  | inputEnd
  | seq (first second : Expr ρ)
  | choice (first second : Expr ρ)
  | many (body : Expr ρ)
  | absent (body : Expr ρ)
  | token (rule : ρ) (body : Expr ρ)
deriving Repr

structure Cursor where
  offset : Nat
  rest : List Char
deriving Repr, DecidableEq

def Cursor.ofInput (cs : List Char) : Cursor := ⟨0, cs⟩

abbrev Matching (ρ : Type) := Option (List (Token ρ) × Cursor)

variable {ρ : Type}

def iterate (step : Cursor → Matching ρ) : Nat → Cursor → List (Token ρ) × Cursor
  | 0, cursor => ([], cursor)
  | rounds + 1, cursor =>
    match step cursor with
    | none => ([], cursor)
    | some (tokens, next) =>
      let (others, last) := iterate step rounds next
      (tokens ++ others, last)

/-- Match an expression at a cursor. A repetition is cut off after one round for each
character that is left, which is no restriction when every round consumes one. -/
def Expr.run : Expr ρ → Cursor → Matching ρ
  | any, ⟨offset, c :: cs⟩ => some ([], ⟨offset + c.utf8Size, cs⟩)
  | any, ⟨_, []⟩ => none
  | char d, ⟨offset, c :: cs⟩ => if c = d then some ([], ⟨offset + c.utf8Size, cs⟩) else none
  | char _, ⟨_, []⟩ => none
  | inputStart, cursor => if cursor.offset = 0 then some ([], cursor) else none
  | inputEnd, cursor => if cursor.rest.isEmpty then some ([], cursor) else none
  | seq first second, cursor =>
    match first.run cursor with
    | none => none
    | some (tokens, middle) =>
      match second.run middle with
      | none => none
      | some (others, last) => some (tokens ++ others, last)
  | choice first second, cursor =>
    match first.run cursor with
    | some found => some found
    | none => second.run cursor
  | many body, cursor => some (iterate body.run cursor.rest.length cursor)
  | absent body, cursor =>
    match body.run cursor with
    | some _ => none
    | none => some ([], cursor)
  | token rule body, cursor =>
    match body.run cursor with
    | none => none
    | some (tokens, last) => some (⟨rule, cursor.offset, last.offset⟩ :: tokens, last)

end PressPath.Grammar
