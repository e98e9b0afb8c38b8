import SourceMend.Text.Basic

/-!
Bytes shown as text. Bytes that are no UTF-8 are replaced: each longest beginning of a character
that does not go on, and each byte that begins none, becomes one replacement character.
-/
namespace SourceMend.Text

/-- What may follow the first byte of a character: how many bytes, and the least and the greatest
that the first of them can be. -/
def followers? (b : UInt8) : Option (Nat × UInt8 × UInt8) :=
  if b ≤ 0x7f then some (0, 0x80, 0xbf)
  else if b < 0xc2 then none
  else if b ≤ 0xdf then some (1, 0x80, 0xbf)
  else if b ≤ 0xef then some (2, if b = 0xe0 then 0xa0 else 0x80, if b = 0xed then 0x9f else 0xbf)
  else if b ≤ 0xf4 then some (3, if b = 0xf0 then 0x90 else 0x80, if b = 0xf4 then 0x8f else 0xbf)
  else none

/-- The bytes at the front that go on with a character, at most `n`. -/
def continuing : (n : Nat) → (low high : UInt8) → List UInt8 → List UInt8
  | 0, _, _, _ | _ + 1, _, _, [] => []
  | n + 1, low, high, b :: bs =>
    if low ≤ b ∧ b ≤ high then b :: continuing n 0x80 0xbf bs else []

/-- The character of a first byte and the bytes that follow it. -/
def assemble (b : UInt8) (rest : List UInt8) : Char :=
  let first := if rest.isEmpty then b.toNat else b.toNat % (64 >>> rest.length)
  Char.ofNat (rest.foldl (fun n c => n * 64 + c.toNat % 64) first)

def ofBytesLossy : List UInt8 → Text
  | [] => []
  | b :: bs =>
    match followers? b with
    | none => '\uFFFD' :: ofBytesLossy bs
    | some (n, low, high) =>
      let rest := continuing n low high bs
      let c := if rest.length = n then assemble b rest else '\uFFFD'
      c :: ofBytesLossy (bs.drop rest.length)
  termination_by bs => bs.length
  decreasing_by all_goals simp only [List.length_drop, List.length_cons]; omega

/-- A cut character, a byte that begins none, and two characters that are whole. -/
example : ofBytesLossy [0x61, 0xe2, 0x82, 0xff, 0xc3, 0xa9, 0xf0, 0x9f, 0x98, 0x80] =
    ['a', '\uFFFD', '\uFFFD', 'é', '😀'] := by decide +kernel

end SourceMend.Text
