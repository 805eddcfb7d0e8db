import Mathlib.Algebra.Group.Nat.Defs
import Mathlib.Tactic.SplitIfs

/-! Order by bytes. The code of a character is a lead byte, which is the greater the
longer the code is, and digits of six bits from the highest down; so to compare texts
character by character is to compare their codes byte by byte. -/
namespace PressPath.Text

def byteList (s : String) : List UInt8 := s.toUTF8.data.toList

theorem byteList_eq_flatMap (s : String) :
    byteList s = s.toList.flatMap String.utf8EncodeChar := by
  have hbytes : s.toUTF8 = s.toList.utf8Encode := by
    rw [String.toUTF8_eq_toByteArray, ← String.toByteArray_ofList, String.ofList_toList]
  rw [byteList, hbytes, List.utf8Encode]
  simp

/-! ## Codes -/

namespace Utf8

/-- How many bytes follow the lead byte of a code point. -/
def following (v : Nat) : Nat :=
  if v ≤ 127 then 0 else if v ≤ 2047 then 1 else if v ≤ 65535 then 2 else 3

/-- The lead byte's value without the digits in it, by the number of bytes that follow. -/
def mark : Nat → Nat
  | 0 => 0
  | 1 => 192
  | 2 => 224
  | _ => 240

/-- The last `n` digits of six bits, each in a byte of its own. -/
def digits : Nat → Nat → List UInt8
  | 0, _ => []
  | n + 1, v => UInt8.ofNat (v / 64 ^ n % 64 + 128) :: digits n v

def lead (v : Nat) : Nat := v / 64 ^ following v + mark (following v)

theorem toNat_val_lt (c : Char) : c.val.toNat < 0x110000 := by
  have := c.valid
  omega

theorem utf8EncodeChar_eq (c : Char) :
    String.utf8EncodeChar c =
      UInt8.ofNat (lead c.val.toNat) :: digits (following c.val.toNat) c.val.toNat := by
  have hmax := toNat_val_lt c
  unfold String.utf8EncodeChar lead following
  dsimp only
  generalize c.val.toNat = v at hmax ⊢
  split_ifs with hone htwo hthree
  · simp [digits, mark]
  · have hdigit : v / 64 % 32 = v / 64 := by omega
    simp [digits, mark, hdigit]
  · have hdigit : v / 4096 % 16 = v / 4096 := by omega
    simp [digits, mark, hdigit]
  · have hdigit : v / 262144 % 8 = v / 262144 := by omega
    simp [digits, mark, hdigit]

theorem lead_lt (v : Nat) (h : v < 0x110000) : lead v < 256 := by
  unfold lead following
  split_ifs <;> simp only [mark, Nat.reducePow] <;> omega

theorem lead_lt_lead {v w : Nat} (h : following v < following w) : lead v < lead w := by
  unfold lead
  unfold following at h ⊢
  split_ifs at h ⊢ <;> simp only [mark, Nat.reducePow] <;> omega

theorem following_le {v w : Nat} (h : v ≤ w) : following v ≤ following w := by
  unfold following
  split_ifs <;> omega

/-! ## Comparing codes -/

theorem cons_ofNat_lt {a b : Nat} {as bs : List UInt8} (hb : b < 256) (hle : a ≤ b)
    (hrest : a = b → as < bs) : UInt8.ofNat a :: as < UInt8.ofNat b :: bs := by
  apply List.cons_lt_cons_iff.mpr
  rcases Nat.lt_or_eq_of_le hle with hlt | heq
  · exact .inl ((UInt8.ofNat_lt_iff_lt (Nat.lt_trans hlt hb) hb).mpr hlt)
  · exact .inr ⟨by rw [heq], hrest heq⟩

theorem digits_append_lt {n v w : Nat} (h : v % 64 ^ n < w % 64 ^ n) (xs ys : List UInt8) :
    digits n v ++ xs < digits n w ++ ys := by
  induction n with
  | zero => simp [Nat.mod_one] at h
  | succ n ih =>
    rw [Nat.mod_pow_succ, Nat.mod_pow_succ] at h
    have hw : w % 64 ^ n < 64 ^ n := Nat.mod_lt _ (Nat.pow_pos (by decide))
    have hdigit : w / 64 ^ n % 64 < 64 := Nat.mod_lt _ (by decide)
    have hle : v / 64 ^ n % 64 ≤ w / 64 ^ n % 64 := by
      refine Nat.le_of_not_lt fun hgt => ?_
      have hmul := Nat.mul_le_mul_left (64 ^ n) (Nat.succ_le_of_lt hgt)
      rw [Nat.mul_succ] at hmul
      omega
    apply cons_ofNat_lt (by omega) (by omega)
    intro heq
    have hsame : v / 64 ^ n % 64 = w / 64 ^ n % 64 := by omega
    rw [hsame] at h
    exact ih (by omega)

/-- The code of a character comes before that of a greater one, whatever follows them. -/
theorem utf8EncodeChar_append_lt {c d : Char} (h : c < d) (xs ys : List UInt8) :
    String.utf8EncodeChar c ++ xs < String.utf8EncodeChar d ++ ys := by
  have hlt : c.val.toNat < d.val.toNat := h
  have hmax := toNat_val_lt d
  rw [utf8EncodeChar_eq, utf8EncodeChar_eq, List.cons_append, List.cons_append]
  generalize c.val.toNat = v at hlt ⊢
  generalize d.val.toNat = w at hlt hmax ⊢
  have hlead := lead_lt w hmax
  have hle : v ≤ w := Nat.le_of_lt hlt
  rcases Nat.lt_or_eq_of_le (following_le hle) with hshorter | hsame
  · have hless := lead_lt_lead hshorter
    exact cons_ofNat_lt hlead (Nat.le_of_lt hless) fun heq => absurd heq (Nat.ne_of_lt hless)
  · have hdiv : v / 64 ^ following w ≤ w / 64 ^ following w := Nat.div_le_div_right hle
    unfold lead at hlead ⊢
    rw [hsame]
    apply cons_ofNat_lt hlead (by omega)
    intro heq
    -- With the same highest digits, the lower ones decide.
    apply digits_append_lt
    have hv := Nat.div_add_mod v (64 ^ following w)
    have hw := Nat.div_add_mod w (64 ^ following w)
    have htop : v / 64 ^ following w = w / 64 ^ following w := by omega
    rw [htop] at hv
    omega

end Utf8

theorem flatMap_utf8EncodeChar_lt {cs ds : List Char} (h : cs < ds) :
    cs.flatMap String.utf8EncodeChar < ds.flatMap String.utf8EncodeChar := by
  induction cs generalizing ds with
  | nil =>
    cases ds with
    | nil => exact absurd h (List.lt_irrefl _)
    | cons d ds =>
      rw [List.flatMap_cons, Utf8.utf8EncodeChar_eq]
      exact List.nil_lt_cons _ _
  | cons c cs ih =>
    cases ds with
    | nil => exact absurd h (List.not_lt_nil _)
    | cons d ds =>
      rw [List.flatMap_cons, List.flatMap_cons]
      rcases List.cons_lt_cons_iff.mp h with hlt | ⟨rfl, hrest⟩
      · exact Utf8.utf8EncodeChar_append_lt hlt _ _
      · exact List.append_left_lt (ih hrest)

theorem byteList_lt {s t : String} (h : s < t) : byteList s < byteList t := by
  rw [byteList_eq_flatMap, byteList_eq_flatMap]
  exact flatMap_utf8EncodeChar_lt h

theorem le_iff_byteList_le {s t : String} : s ≤ t ↔ byteList s ≤ byteList t := by
  constructor
  · intro h hlt
    by_cases hst : s < t
    · exact List.lt_asymm (byteList_lt hst) hlt
    · rw [String.le_antisymm h (String.not_lt.mp hst)] at hlt
      exact List.lt_irrefl _ hlt
  · intro h hlt
    exact h (byteList_lt hlt)

end PressPath.Text
