import Mathlib.Data.List.Basic
import Mathlib.Data.UInt

/-!
# Bytes in groups of six bits

The regrouping that Base64 rests on, whatever its alphabet and without padding: three bytes
are four sextets, and one or two bytes at the end are two or three, the last of which ends in
zero bits.

`bytes_sextets` is the round trip. In the other direction (`sextets_bytes_iff`) a list of
sextets comes back exactly when it is `Padded`: not of length 1 modulo 4, and with zeros in
the bits at the end that no byte uses.
-/

namespace Sextets

/-- The sextets of a list of bytes. -/
def sextets : List UInt8 → List (Fin 64)
  | [] => []
  | [a] => [⟨a.toNat / 4, by have := a.toNat_lt; omega⟩, ⟨a.toNat % 4 * 16, by omega⟩]
  | [a, b] => [⟨a.toNat / 4, by have := a.toNat_lt; omega⟩,
      ⟨a.toNat % 4 * 16 + b.toNat / 16, by have := b.toNat_lt; omega⟩,
      ⟨b.toNat % 16 * 4, by omega⟩]
  | a :: b :: c :: rest => ⟨a.toNat / 4, by have := a.toNat_lt; omega⟩ ::
      ⟨a.toNat % 4 * 16 + b.toNat / 16, by have := b.toNat_lt; omega⟩ ::
      ⟨b.toNat % 16 * 4 + c.toNat / 64, by have := c.toNat_lt; omega⟩ ::
      ⟨c.toNat % 64, by omega⟩ :: sextets rest

/-- The byte that a group starts with. -/
def firstByte (x y : Fin 64) : UInt8 := .ofNat (x * 4 + y / 16)

def secondByte (y z : Fin 64) : UInt8 := .ofNat (y % 16 * 16 + z / 4)

/-- The byte that a group ends with, when it is complete. -/
def thirdByte (z w : Fin 64) : UInt8 := .ofNat (z % 4 * 64 + w)

/-- The bytes of a list of sextets. -/
def bytes : List (Fin 64) → List UInt8
  | [] => []
  | [_] => []
  | [x, y] => [firstByte x y]
  | [x, y, z] => [firstByte x y, secondByte y z]
  | x :: y :: z :: w :: rest =>
    firstByte x y :: secondByte y z :: thirdByte z w :: bytes rest

variable {x y z w : Fin 64}

@[simp] theorem toNat_firstByte : (firstByte x y).toNat = x * 4 + y / 16 :=
  UInt8.toNat_ofNat_of_lt' (by change _ < 256; omega)

@[simp] theorem toNat_secondByte : (secondByte y z).toNat = y % 16 * 16 + z / 4 :=
  UInt8.toNat_ofNat_of_lt' (by change _ < 256; omega)

@[simp] theorem toNat_thirdByte : (thirdByte z w).toNat = z % 4 * 64 + w :=
  UInt8.toNat_ofNat_of_lt' (by change _ < 256; omega)

/-! ## Lengths -/

/-- Eight bits a byte, in sixes, rounded up. -/
theorem length_sextets (l : List UInt8) : (sextets l).length = (l.length * 8 + 5) / 6 := by
  induction l using sextets.induct with
  | case1 => rfl
  | case2 a => simp [sextets]
  | case3 a b => simp [sextets]
  | case4 a b c rest ih =>
    simp only [sextets, List.length_cons, ih]
    omega

/-- Six bits a sextet, in eights, rounded down. -/
theorem length_bytes (l : List (Fin 64)) : (bytes l).length = l.length * 6 / 8 := by
  induction l using bytes.induct with
  | case1 => rfl
  | case2 x => simp [bytes]
  | case3 x y => simp [bytes]
  | case4 x y z => simp [bytes]
  | case5 x y z w rest ih =>
    simp only [bytes, List.length_cons, ih]
    omega

/-! ## Round trips -/

/-- What is grouped comes back. -/
@[simp] theorem bytes_sextets (l : List UInt8) : bytes (sextets l) = l := by
  induction l using sextets.induct with
  | case1 => rfl
  | case2 a =>
    have ha := a.toNat_lt
    simp only [sextets, bytes, List.cons.injEq, and_true, ← UInt8.toNat_inj, toNat_firstByte]
    omega
  | case3 a b =>
    have ha := a.toNat_lt
    have hb := b.toNat_lt
    simp only [sextets, bytes, List.cons.injEq, and_true, ← UInt8.toNat_inj, toNat_firstByte,
      toNat_secondByte]
    omega
  | case4 a b c rest ih =>
    have ha := a.toNat_lt
    have hb := b.toNat_lt
    have hc := c.toNat_lt
    simp only [sextets, bytes, ih, List.cons.injEq, and_true, ← UInt8.toNat_inj,
      toNat_firstByte, toNat_secondByte, toNat_thirdByte]
    omega

/-- Different bytes are grouped differently. -/
theorem sextets_injective : Function.Injective sextets :=
  Function.LeftInverse.injective bytes_sextets

/-- The bits at the end that no byte uses are zero. -/
def Padded : List (Fin 64) → Prop
  | [] => True
  | [_] => False
  | [_, y] => y.val % 16 = 0
  | [_, _, z] => z.val % 4 = 0
  | _ :: _ :: _ :: _ :: rest => Padded rest

instance decidablePadded : DecidablePred Padded
  | [] => isTrue trivial
  | [_] => isFalse id
  | [_, y] => inferInstanceAs (Decidable (y.val % 16 = 0))
  | [_, _, z] => inferInstanceAs (Decidable (z.val % 4 = 0))
  | _ :: _ :: _ :: _ :: rest => decidablePadded rest

/-- Sextets come back exactly when they are padded. -/
theorem sextets_bytes_iff (l : List (Fin 64)) : sextets (bytes l) = l ↔ Padded l := by
  induction l using bytes.induct with
  | case1 => simp [bytes, sextets, Padded]
  | case2 x => simp [bytes, sextets, Padded]
  | case3 x y =>
    simp only [bytes, sextets, Padded, List.cons.injEq, and_true, Fin.ext_iff, toNat_firstByte]
    omega
  | case4 x y z =>
    simp only [bytes, sextets, Padded, List.cons.injEq, and_true, Fin.ext_iff, toNat_firstByte,
      toNat_secondByte]
    omega
  | case5 x y z w rest ih =>
    simp only [bytes, sextets, Padded, List.cons.injEq, Fin.ext_iff, toNat_firstByte,
      toNat_secondByte, toNat_thirdByte, ih]
    constructor
    · rintro ⟨-, -, -, -, hrest⟩
      exact hrest
    · intro hrest
      exact ⟨by omega, by omega, by omega, by omega, hrest⟩

end Sextets
