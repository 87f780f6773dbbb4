/-!
# Text from bytes

UTF-8 is decoded without failing: every longest run of bytes that begins a character but does not
complete one, and every byte that begins none, becomes a replacement character.
-/

namespace FormulaBar.Text

/-- The character that stands for bytes that are no text. -/
def replacement : Char := '\uFFFD'

/-- Whether a byte continues a character. -/
def isContinuation (b : UInt8) : Bool := decide (0x80 ≤ b.toNat ∧ b.toNat ≤ 0xBF)

/-- Whether `b` may follow the first byte `a` of a three-byte character: short forms and surrogates
are left out. -/
def isSecondOfThree (a b : UInt8) : Bool :=
  if a.toNat = 0xE0 then decide (0xA0 ≤ b.toNat ∧ b.toNat ≤ 0xBF)
  else if a.toNat = 0xED then decide (0x80 ≤ b.toNat ∧ b.toNat ≤ 0x9F)
  else isContinuation b

/-- Whether `b` may follow the first byte `a` of a four-byte character: short forms and numbers
beyond the last character are left out. -/
def isSecondOfFour (a b : UInt8) : Bool :=
  if a.toNat = 0xF0 then decide (0x90 ≤ b.toNat ∧ b.toNat ≤ 0xBF)
  else if a.toNat = 0xF4 then decide (0x80 ≤ b.toNat ∧ b.toNat ≤ 0x8F)
  else isContinuation b

/-- The character whose leading byte holds the bits `lead`, followed by continuation bytes. -/
def joinBytes (lead : Nat) (rest : List UInt8) : Char :=
  Char.ofNat (rest.foldl (fun n b => n * 64 + b.toNat % 64) lead)

/-- The characters of a run of bytes. -/
def decode : List UInt8 → List Char
  | [] => []
  | a :: rest =>
    let n := a.toNat
    if n < 0x80 then Char.ofNat n :: decode rest
    else if 0xC2 ≤ n ∧ n ≤ 0xDF then
      match rest with
      | b :: bs =>
        if isContinuation b then joinBytes (n % 32) [b] :: decode bs
        else replacement :: decode (b :: bs)
      | [] => [replacement]
    else if 0xE0 ≤ n ∧ n ≤ 0xEF then
      match rest with
      | b :: bs =>
        if isSecondOfThree a b then
          match bs with
          | c :: cs =>
            if isContinuation c then joinBytes (n % 16) [b, c] :: decode cs
            else replacement :: decode (c :: cs)
          | [] => [replacement]
        else replacement :: decode (b :: bs)
      | [] => [replacement]
    else if 0xF0 ≤ n ∧ n ≤ 0xF4 then
      match rest with
      | b :: bs =>
        if isSecondOfFour a b then
          match bs with
          | c :: cs =>
            if isContinuation c then
              match cs with
              | d :: ds =>
                if isContinuation d then joinBytes (n % 8) [b, c, d] :: decode ds
                else replacement :: decode (d :: ds)
              | [] => [replacement]
            else replacement :: decode (c :: cs)
          | [] => [replacement]
        else replacement :: decode (b :: bs)
      | [] => [replacement]
    else replacement :: decode rest

end FormulaBar.Text
