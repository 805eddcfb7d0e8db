import PressPath.Grammar.Expr

/-! The grammar of a source line. A line is a comment, which starts with a
semicolon, or a command: a keyword and segments, with a slash before each
segment. Every text is a line. -/
namespace PressPath.Grammar

inductive Rule where
  | separator
  | comment
  | keyword
  | segment
  | command
  | line
  | endOfInput
deriving Repr, DecidableEq

namespace Rule

def all : List Rule := [separator, comment, keyword, segment, command, line, endOfInput]

def name : Rule → String
  | separator => "sep"
  | comment => "comment"
  | keyword => "keyword"
  | segment => "segment"
  | command => "command"
  | line => "line"
  | endOfInput => "EOI"

def ofName? (name : String) : Option Rule :=
  all.find? fun rule => rule.name == name

theorem ofName?_name (rule : Rule) : ofName? rule.name = some rule := by
  cases rule <;> decide

/-- A silent rule gives no token and is never named as what was expected. -/
def isSilent : Rule → Bool
  | separator | line => true
  | _ => false

end Rule

def separator : Expr Rule := .char '/'

def piece : Expr Rule := .many (.seq (.absent separator) .any)

def comment : Expr Rule := .token .comment (.seq (.char ';') (.many .any))

def keyword : Expr Rule := .token .keyword piece

def segment : Expr Rule := .token .segment piece

def command : Expr Rule := .token .command (.seq keyword (.many (.seq separator segment)))

def endOfInput : Expr Rule := .token .endOfInput .inputEnd

def line : Expr Rule := .seq .inputStart (.seq (.choice comment command) endOfInput)

def Rule.expr : Rule → Expr Rule
  | .separator => Grammar.separator
  | .comment => Grammar.comment
  | .keyword => Grammar.keyword
  | .segment => Grammar.segment
  | .command => Grammar.command
  | .line => Grammar.line
  | .endOfInput => Grammar.endOfInput

/-- How much work the recognizer may still do. With a spent budget it refuses every input. -/
inductive Budget where
  | unlimited
  | spent
deriving Repr, DecidableEq

/-- Why an input was refused. A rule that can fail does so on the first character, so the
place is always the start of the input. -/
inductive Refusal where
  | budgetSpent
  | expected (rule : Rule)
  | unexplained
deriving Repr, DecidableEq

def Refusal.message : Refusal → String
  | budgetSpent => "call limit reached"
  | expected rule => "expected " ++ rule.name
  | unexplained => "unknown parsing error"

def Rule.refusal (rule : Rule) : Refusal :=
  if rule.isSilent then .unexplained else .expected rule

def recognize (budget : Budget) (rule : Rule) (input : List Char) :
    Except Refusal (List (Token Rule)) :=
  match budget with
  | .spent => .error .budgetSpent
  | .unlimited =>
    match rule.expr.run (.ofInput input) with
    | some (tokens, _) => .ok tokens
    | none => .error rule.refusal

@[simp] theorem recognize_spent (rule : Rule) (input : List Char) :
    recognize .spent rule input = .error .budgetSpent := rfl

end PressPath.Grammar
