/-! Places in a text. Offsets count bytes of the text's UTF-8 form, columns
count characters; lines and columns are numbered from one. -/
namespace PressPath.Text

def byteLength (cs : List Char) : Nat :=
  cs.foldr (fun c length => c.utf8Size + length) 0

@[simp] theorem byteLength_nil : byteLength [] = 0 := rfl

@[simp] theorem byteLength_cons (c : Char) (cs : List Char) :
    byteLength (c :: cs) = c.utf8Size + byteLength cs := rfl

@[simp] theorem byteLength_append (cs ds : List Char) :
    byteLength (cs ++ ds) = byteLength cs + byteLength ds := by
  induction cs with
  | nil => simp
  | cons c cs ih => simp [ih, Nat.add_assoc]

def takeBytes : Nat → List Char → List Char
  | 0, _ => []
  | _ + 1, [] => []
  | n + 1, c :: cs => c :: takeBytes (n + 1 - c.utf8Size) cs

def dropBytes : Nat → List Char → List Char
  | 0, cs => cs
  | _ + 1, [] => []
  | n + 1, c :: cs => dropBytes (n + 1 - c.utf8Size) cs

/-- Whether some character begins at offset `n`, or the text ends there. -/
def isBoundary : Nat → List Char → Bool
  | 0, _ => true
  | _ + 1, [] => false
  | n + 1, c :: cs => decide (c.utf8Size ≤ n + 1) && isBoundary (n + 1 - c.utf8Size) cs

theorem takeBytes_append_dropBytes (n : Nat) (cs : List Char) :
    takeBytes n cs ++ dropBytes n cs = cs := by
  induction cs generalizing n with
  | nil => cases n <;> rfl
  | cons c cs ih =>
    cases n with
    | zero => rfl
    | succ n => simp [takeBytes, dropBytes, ih]

@[simp] theorem takeBytes_append (cs ds : List Char) : takeBytes (byteLength cs) (cs ++ ds) = cs := by
  induction cs with
  | nil => simp [takeBytes]
  | cons c cs ih =>
    obtain ⟨n, hn⟩ := Nat.exists_eq_add_one_of_ne_zero (Nat.ne_of_gt c.utf8Size_pos)
    have he : byteLength (c :: cs) = n + byteLength cs + 1 := by simp [hn]; omega
    rw [he]
    simp only [List.cons_append, takeBytes]
    rw [show n + byteLength cs + 1 - c.utf8Size = byteLength cs by omega, ih]

@[simp] theorem dropBytes_append (cs ds : List Char) : dropBytes (byteLength cs) (cs ++ ds) = ds := by
  have h := takeBytes_append_dropBytes (byteLength cs) (cs ++ ds)
  rw [takeBytes_append] at h
  exact List.append_cancel_left h

@[simp] theorem isBoundary_append (cs ds : List Char) :
    isBoundary (byteLength cs) (cs ++ ds) = true := by
  induction cs with
  | nil => simp [isBoundary]
  | cons c cs ih =>
    obtain ⟨n, hn⟩ := Nat.exists_eq_add_one_of_ne_zero (Nat.ne_of_gt c.utf8Size_pos)
    have he : byteLength (c :: cs) = n + byteLength cs + 1 := by simp [hn]; omega
    rw [he]
    simp only [List.cons_append, isBoundary, Bool.and_eq_true, decide_eq_true_eq]
    refine ⟨by omega, ?_⟩
    rw [show n + byteLength cs + 1 - c.utf8Size = byteLength cs by omega, ih]

def slice (start stop : Nat) (cs : List Char) : List Char :=
  takeBytes (stop - start) (dropBytes start cs)

structure Position where
  line : Nat
  column : Nat
deriving Repr, DecidableEq, Inhabited

def Position.first : Position := ⟨1, 1⟩

def Position.after (p : Position) (c : Char) : Position :=
  if c = '\n' then ⟨p.line + 1, 1⟩ else ⟨p.line, p.column + 1⟩

def Position.past (front : List Char) : Position :=
  front.foldl Position.after Position.first

theorem Position.foldl_after_line (p : Position) (cs : List Char) :
    (cs.foldl Position.after p).line = p.line + cs.count '\n' := by
  induction cs generalizing p with
  | nil => rfl
  | cons c cs ih =>
    rw [List.foldl_cons, ih]
    by_cases h : c = '\n'
    · simp [Position.after, h]
      omega
    · simp [Position.after, h]

theorem Position.past_line (front : List Char) :
    (Position.past front).line = 1 + front.count '\n' :=
  Position.foldl_after_line Position.first front

def positionAt (cs : List Char) (offset : Nat) : Position :=
  Position.past (takeBytes offset cs)

inductive Extent (α : Type) where
  | point (place : α)
  | span (start stop : α)
deriving Repr, DecidableEq

namespace Extent
variable {α β : Type}

def start : Extent α → α
  | point place => place
  | span start _ => start

def map (f : α → β) : Extent α → Extent β
  | point place => point (f place)
  | span start stop => span (f start) (f stop)

def toList : Extent α → List α
  | point place => [place]
  | span start stop => [start, stop]

/-- Whether an extent in bytes can be marked in the text: its points are on
character boundaries within the text, and in order. -/
def fits (cs : List Char) : Extent Nat → Bool
  | point place => isBoundary place cs
  | span start stop => decide (start ≤ stop) && isBoundary start cs && isBoundary stop cs

def line? (cs : List Char) (extent : Extent Nat) : Option Nat :=
  if extent.fits cs then some (positionAt cs extent.start).line else none

end Extent
end PressPath.Text
