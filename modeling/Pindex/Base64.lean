import Pindex.Library.Sextets
import Mathlib.Data.Vector.Basic

/-!
# `BCryptSwift`: Base64

bcrypt writes salts and hashes in a Base64 of its own: another alphabet, and no padding.
`encodeData` and `decode_base64` are the two directions, with the bytes as the bit patterns
of the source's `Int8`.

`encodeData_eq` and `decodeLoop_map` say what they do in terms of sextets, whatever the
lengths they are given. `decode_encodeData` is one round trip; `encode_decode_iff` says which
texts make the other.
-/

namespace Pindex.BCryptSwift

open Sextets

/-! ## The tables -/

/-- Table for Base64 encoding. -/
def base64_code : Vector Char 64 := #v[
  '.', '/', 'A', 'B', 'C', 'D', 'E', 'F', 'G', 'H', 'I', 'J', 'K', 'L', 'M', 'N',
  'O', 'P', 'Q', 'R', 'S', 'T', 'U', 'V', 'W', 'X', 'Y', 'Z', 'a', 'b', 'c', 'd',
  'e', 'f', 'g', 'h', 'i', 'j', 'k', 'l', 'm', 'n', 'o', 'p', 'q', 'r', 's', 't',
  'u', 'v', 'w', 'x', 'y', 'z', '0', '1', '2', '3', '4', '5', '6', '7', '8', '9']

/-- Table for Base64 decoding. -/
def index_64 : List Int8 := [
  -1, -1, -1, -1, -1, -1, -1, -1, -1, -1, -1, -1, -1, -1, -1, -1,
  -1, -1, -1, -1, -1, -1, -1, -1, -1, -1, -1, -1, -1, -1, -1, -1,
  -1, -1, -1, -1, -1, -1, -1, -1, -1, -1, -1, -1, -1, -1,  0,  1,
  54, 55, 56, 57, 58, 59, 60, 61, 62, 63, -1, -1, -1, -1, -1, -1,
  -1,  2,  3,  4,  5,  6,  7,  8,  9, 10, 11, 12, 13, 14, 15, 16,
  17, 18, 19, 20, 21, 22, 23, 24, 25, 26, 27, -1, -1, -1, -1, -1,
  -1, 28, 29, 30, 31, 32, 33, 34, 35, 36, 37, 38, 39, 40, 41, 42,
  43, 44, 45, 46, 47, 48, 49, 50, 51, 52, 53, -1, -1, -1, -1, -1]

/-! ## The functions -/

/-- `base64_code[Int(x & 0x3f)]`. -/
def code (x : UInt8) : Char := base64_code.get (Fin.ofNat 64 (x &&& 0x3f).toNat)

/-- The `while` loop of `encodeData`, on the data that is left. -/
def encodeLoop : List UInt8 → List Char
  | [] => []
  | [c1] => [code (c1 >>> 2), code ((c1 &&& 0x03) <<< 4)]
  | [c1, c2] => [code (c1 >>> 2), code (((c1 &&& 0x03) <<< 4) ||| ((c2 >>> 4) &&& 0x0f)),
      code ((c2 &&& 0x0f) <<< 2)]
  | c1 :: c2 :: c3 :: rest => code (c1 >>> 2) ::
      code (((c1 &&& 0x03) <<< 4) ||| ((c2 >>> 4) &&& 0x0f)) ::
      code (((c2 &&& 0x0f) <<< 2) ||| ((c3 >>> 6) &&& 0x03)) :: code c3 :: encodeLoop rest

def encodeData (data : List UInt8) (length : ℕ) : List Char :=
  if data.length = 0 ∨ length = 0 then [] else encodeLoop (data.take length)

/-- The first UTF-16 code unit. -/
def utf16Value (x : Char) : ℕ :=
  if x.toNat < 0x10000 then x.toNat else 0xd800 + (x.toNat - 0x10000) / 0x400

def char64of (x : Char) : Int8 :=
  let xAsInt := utf16Value x
  if xAsInt > 128 - 1 then -1 else index_64.getD xAsInt (-1)

/-- The `while` loop of `decode_base64`, on the characters that are left and the room that
is left in the result. -/
def decodeLoop : List Char → ℕ → List UInt8
  | s1 :: s2 :: rest, room + 1 =>
    let c1 := char64of s1
    let c2 := char64of s2
    if c1 = -1 ∨ c2 = -1 then [] else
      ((c1.toUInt8 <<< 2) ||| ((c2.toUInt8 &&& 0x30) >>> 4)) ::
      match rest, room with
      | s3 :: rest, room + 1 =>
        let c3 := char64of s3
        if c3 = -1 then [] else
          (((c2.toUInt8 &&& 0x0f) <<< 4) ||| ((c3.toUInt8 &&& 0x3c) >>> 2)) ::
          match rest, room with
          -- the fourth character is not checked
          | s4 :: rest, room + 1 =>
            (((c3.toUInt8 &&& 0x03) <<< 6) ||| (char64of s4).toUInt8) :: decodeLoop rest room
          | _, _ => []
      | _, _ => []
  | _, _ => []

def decode_base64 (s : List Char) (maxolen : ℕ) : List UInt8 := decodeLoop s maxolen

/-! ## Masks and shifts as arithmetic -/

section Fields

variable {x y m : UInt8} {n i k : ℕ}

theorem toNat_low (hm : m.toNat = 2 ^ k - 1) : (x &&& m).toNat = x.toNat % 2 ^ k := by
  rw [UInt8.toNat_and, hm]
  exact Nat.and_two_pow_sub_one_eq_mod x.toNat k

/-- The low `k` bits, moved to the left. -/
theorem toNat_low_shiftLeft {s : UInt8} (hm : m.toNat = 2 ^ k - 1) (hs : s.toNat % 8 = i)
    (hki : k + i ≤ 8) : ((x &&& m) <<< s).toNat = x.toNat % 2 ^ k * 2 ^ i := by
  have hlow : x.toNat % 2 ^ k < 2 ^ k := Nat.mod_lt _ (Nat.two_pow_pos k)
  have hlt : x.toNat % 2 ^ k * 2 ^ i < 2 ^ 8 := by
    calc x.toNat % 2 ^ k * 2 ^ i < 2 ^ k * 2 ^ i :=
          Nat.mul_lt_mul_of_pos_right hlow (Nat.two_pow_pos i)
      _ = 2 ^ (k + i) := (Nat.pow_add 2 k i).symm
      _ ≤ 2 ^ 8 := Nat.pow_le_pow_right (by decide) hki
  rw [UInt8.toNat_shiftLeft, toNat_low hm, hs, Nat.shiftLeft_eq]
  exact Nat.mod_eq_of_lt hlt

/-- The bits from `i` on, when the mask keeps them all. -/
theorem toNat_shiftRight_low {s : UInt8} (hm : m.toNat = 2 ^ k - 1) (hs : s.toNat % 8 = i)
    (hki : 8 ≤ k + i) : ((x >>> s) &&& m).toNat = x.toNat / 2 ^ i := by
  rw [toNat_low hm, UInt8.toNat_shiftRight, hs, Nat.shiftRight_eq_div_pow]
  refine Nat.mod_eq_of_lt (Nat.div_lt_of_lt_mul ?_)
  calc x.toNat < 2 ^ 8 := x.toNat_lt
    _ ≤ 2 ^ (i + k) := Nat.pow_le_pow_right (by decide) (by omega)
    _ = 2 ^ i * 2 ^ k := Nat.pow_add 2 i k

/-- The high bits of one byte next to the low bits of another. -/
theorem toNat_or_of_lt (hx : x.toNat = n * 2 ^ i) (hy : y.toNat < 2 ^ i) :
    (x ||| y).toNat = n * 2 ^ i + y.toNat := by
  rw [UInt8.toNat_or, hx, ← Nat.shiftLeft_eq, Nat.shiftLeft_add_eq_or_of_lt hy]

end Fields

/-! ## `encodeData` -/

/-- Only the low six bits matter. -/
theorem code_eq {x : UInt8} {n : Fin 64} (h : x.toNat % 64 = n) :
    code x = base64_code.get n := by
  have hlow : (x &&& 0x3f).toNat = x.toNat % 64 := toNat_low (k := 6) rfl
  have hn : Fin.ofNat 64 (x &&& 0x3f).toNat = n := by
    apply Fin.ext
    rw [hlow, h]
    exact Nat.mod_eq_of_lt n.isLt
  rw [code, hn]

theorem code_first {c1 : UInt8} {n : Fin 64} (h : n.val = c1.toNat / 4) :
    code (c1 >>> 2) = base64_code.get n := by
  have hshift : (c1 >>> 2).toNat = c1.toNat / 2 ^ 2 := by
    rw [UInt8.toNat_shiftRight]
    exact Nat.shiftRight_eq_div_pow c1.toNat 2
  exact code_eq (by rw [hshift]; omega)

/-- The two bits that the first byte leaves, and the four that the second starts with. -/
theorem code_second {c1 c2 : UInt8} {n : Fin 64} (h : n.val = c1.toNat % 4 * 16 + c2.toNat / 16) :
    code (((c1 &&& 0x03) <<< 4) ||| ((c2 >>> 4) &&& 0x0f)) = base64_code.get n := by
  have hc2 := c2.toNat_lt
  have hhigh : ((c1 &&& 0x03) <<< 4).toNat = c1.toNat % 4 * 2 ^ 4 :=
    toNat_low_shiftLeft (k := 2) rfl rfl (by decide)
  have hlow : ((c2 >>> 4) &&& 0x0f).toNat = c2.toNat / 2 ^ 4 :=
    toNat_shiftRight_low (k := 4) rfl rfl (by decide)
  exact code_eq (by rw [toNat_or_of_lt hhigh (by omega), hlow]; omega)

theorem code_third {c2 c3 : UInt8} {n : Fin 64} (h : n.val = c2.toNat % 16 * 4 + c3.toNat / 64) :
    code (((c2 &&& 0x0f) <<< 2) ||| ((c3 >>> 6) &&& 0x03)) = base64_code.get n := by
  have hc3 := c3.toNat_lt
  have hhigh : ((c2 &&& 0x0f) <<< 2).toNat = c2.toNat % 16 * 2 ^ 2 :=
    toNat_low_shiftLeft (k := 4) rfl rfl (by decide)
  have hlow : ((c3 >>> 6) &&& 0x03).toNat = c3.toNat / 2 ^ 6 :=
    toNat_shiftRight_low (k := 2) rfl rfl (by decide)
  exact code_eq (by rw [toNat_or_of_lt hhigh (by omega), hlow]; omega)

theorem code_second_last {c1 : UInt8} {n : Fin 64} (h : n.val = c1.toNat % 4 * 16) :
    code ((c1 &&& 0x03) <<< 4) = base64_code.get n := by
  have hlast : ((c1 &&& 0x03) <<< 4).toNat = c1.toNat % 4 * 2 ^ 4 :=
    toNat_low_shiftLeft (k := 2) rfl rfl (by decide)
  exact code_eq (by rw [hlast]; omega)

theorem code_third_last {c2 : UInt8} {n : Fin 64} (h : n.val = c2.toNat % 16 * 4) :
    code ((c2 &&& 0x0f) <<< 2) = base64_code.get n := by
  have hlast : ((c2 &&& 0x0f) <<< 2).toNat = c2.toNat % 16 * 2 ^ 2 :=
    toNat_low_shiftLeft (k := 4) rfl rfl (by decide)
  exact code_eq (by rw [hlast]; omega)

/-- The loop writes the sextets of the data, one character each. -/
theorem encodeLoop_eq (data : List UInt8) :
    encodeLoop data = (sextets data).map base64_code.get := by
  induction data using sextets.induct with
  | case1 => rfl
  | case2 c1 =>
    show [_, _] = [base64_code.get _, base64_code.get _]
    congr 1
    · exact code_first rfl
    · exact congrArg (· :: []) (code_second_last rfl)
  | case3 c1 c2 =>
    show [_, _, _] = [base64_code.get _, base64_code.get _, base64_code.get _]
    congr 1
    · exact code_first rfl
    · congr 1
      · exact code_second rfl
      · exact congrArg (· :: []) (code_third_last rfl)
  | case4 c1 c2 c3 rest ih =>
    show _ :: _ :: _ :: _ :: encodeLoop rest =
      base64_code.get _ :: base64_code.get _ :: base64_code.get _ :: base64_code.get _ :: _
    rw [ih]
    congr 1
    · exact code_first rfl
    · congr 1
      · exact code_second rfl
      · congr 1
        · exact code_third rfl
        · exact congrArg (· :: _) (code_eq rfl)

/-- `encodeData` writes the sextets of the first `length` bytes. -/
theorem encodeData_eq (data : List UInt8) (length : ℕ) :
    encodeData data length = (sextets (data.take length)).map base64_code.get := by
  unfold encodeData
  split
  · rename_i hnone
    have htake : data.take length = [] := by
      rcases hnone with hdata | hlength
      · rw [List.length_eq_zero_iff.mp hdata, List.take_nil]
      · rw [hlength, List.take_zero]
    rw [htake]
    rfl
  · exact encodeLoop_eq _

/-! ## `decode_base64` -/

/-- The two tables belong together. -/
theorem char64of_code : ∀ x : Fin 64, char64of (base64_code.get x) ≠ -1 ∧
    (char64of (base64_code.get x)).toUInt8 = .ofNat x := by
  decide

theorem firstByte_eq (x y : Fin 64) :
    ((UInt8.ofNat x <<< 2) ||| ((UInt8.ofNat y &&& 0x30) >>> 4)) = firstByte x y := by
  have hhigh : ∀ x : Fin 64, (UInt8.ofNat x <<< 2).toNat = x * 2 ^ 2 := by decide
  have hlow : ∀ y : Fin 64, ((UInt8.ofNat y &&& 0x30) >>> 4).toNat = y / 16 := by decide
  have hy := hlow y
  rw [← UInt8.toNat_inj, toNat_or_of_lt (hhigh x) (by omega), hy, toNat_firstByte]
  rfl

theorem secondByte_eq (y z : Fin 64) :
    (((UInt8.ofNat y &&& 0x0f) <<< 4) ||| ((UInt8.ofNat z &&& 0x3c) >>> 2)) = secondByte y z := by
  have hhigh : ∀ y : Fin 64, ((UInt8.ofNat y &&& 0x0f) <<< 4).toNat = y % 16 * 2 ^ 4 := by decide
  have hlow : ∀ z : Fin 64, ((UInt8.ofNat z &&& 0x3c) >>> 2).toNat = z / 4 := by decide
  have hz := hlow z
  rw [← UInt8.toNat_inj, toNat_or_of_lt (hhigh y) (by omega), hz, toNat_secondByte]
  rfl

theorem thirdByte_eq (z w : Fin 64) :
    (((UInt8.ofNat z &&& 0x03) <<< 6) ||| UInt8.ofNat w) = thirdByte z w := by
  have hhigh : ∀ z : Fin 64, ((UInt8.ofNat z &&& 0x03) <<< 6).toNat = z % 4 * 2 ^ 6 := by decide
  have hlow : (UInt8.ofNat w).toNat = w := UInt8.toNat_ofNat_of_lt' (by change _ < 256; omega)
  rw [← UInt8.toNat_inj, toNat_or_of_lt (hhigh z) (by omega), hlow, toNat_thirdByte]
  rfl

@[simp] theorem decodeLoop_zero (s : List Char) : decodeLoop s 0 = [] := by
  rcases s with _ | ⟨s1, _ | ⟨s2, rest⟩⟩ <;> rfl

/-- From characters of the alphabet the loop reads their bytes, as far as there is room. -/
theorem decodeLoop_map (xs : List (Fin 64)) (room : ℕ) :
    decodeLoop (xs.map base64_code.get) room = (bytes xs).take room := by
  induction xs using bytes.induct generalizing room with
  | case1 => simp [decodeLoop, bytes]
  | case2 x => simp [decodeLoop, bytes]
  | case3 x y =>
    cases room with
    | zero => simp
    | succ room => simp [decodeLoop, bytes, char64of_code, firstByte_eq]
  | case4 x y z =>
    rcases room with _ | _ | room
    · simp
    · simp [decodeLoop, bytes, char64of_code, firstByte_eq]
    · simp [decodeLoop, bytes, char64of_code, firstByte_eq, secondByte_eq]
  | case5 x y z w rest ih =>
    rcases room with _ | _ | _ | room
    · simp
    · simp [decodeLoop, bytes, char64of_code, firstByte_eq]
    · simp [decodeLoop, bytes, char64of_code, firstByte_eq, secondByte_eq]
    · simp [decodeLoop, bytes, char64of_code, firstByte_eq, secondByte_eq, thirdByte_eq, ih]

/-- What `encodeData` writes reads back, up to the room for it. -/
theorem decode_encodeData (data : List UInt8) (length maxolen : ℕ) :
    decode_base64 (encodeData data length) maxolen = (data.take length).take maxolen := by
  rw [decode_base64, encodeData_eq, decodeLoop_map, bytes_sextets]

/-- A text is written back as it was read exactly when there is room for all of it, every
character is in the alphabet, and the bits at its end that no byte uses are zero. -/
theorem encode_decode_iff (s : List Char) (maxolen : ℕ) :
    encodeData (decode_base64 s maxolen) (decode_base64 s maxolen).length = s ↔
      s.length * 6 / 8 ≤ maxolen ∧ ∃ xs, Padded xs ∧ s = xs.map base64_code.get := by
  rw [encodeData_eq, List.take_length]
  constructor
  · intro hs
    generalize hdata : decode_base64 s maxolen = data at hs
    have hlength : s.length * 6 / 8 = data.length := by
      rw [← hs, List.length_map, ← length_bytes, bytes_sextets]
    -- reading again what was written gives no more than there is room for
    have htake : data.take maxolen = data := by
      calc data.take maxolen = decode_base64 s maxolen := by
            rw [← hs, decode_base64, decodeLoop_map, bytes_sextets]
        _ = data := hdata
    refine ⟨?_, sextets data, ?_, hs.symm⟩
    · rw [hlength]
      exact List.take_eq_self_iff data |>.mp htake
    · exact (sextets_bytes_iff _).mp (by rw [bytes_sextets])
  · rintro ⟨hroom, xs, hpadded, rfl⟩
    have hread : decode_base64 (xs.map base64_code.get) maxolen = bytes xs := by
      rw [decode_base64, decodeLoop_map]
      apply List.take_of_length_le
      rw [List.length_map] at hroom
      rwa [length_bytes]
    rw [hread, (sextets_bytes_iff xs).mpr hpadded]

/-- The characters that a full result takes, of which every fourth may be anything. -/
def Readable (s : List Char) (maxolen : ℕ) : Prop :=
  (maxolen * 8 + 5) / 6 ≤ s.length ∧
    ∀ i < (maxolen * 8 + 5) / 6, i % 4 ≠ 3 → char64of (s.getD i '.') ≠ -1

instance (s : List Char) (maxolen : ℕ) : Decidable (Readable s maxolen) :=
  inferInstanceAs (Decidable ((maxolen * 8 + 5) / 6 ≤ s.length ∧
    ∀ i < (maxolen * 8 + 5) / 6, i % 4 ≠ 3 → char64of (s.getD i '.') ≠ -1))

/-- Three more bytes take four more characters. -/
theorem readable_cons {s1 s2 s3 s4 : Char} {rest : List Char} {room : ℕ} :
    Readable (s1 :: s2 :: s3 :: s4 :: rest) (room + 3) ↔
      char64of s1 ≠ -1 ∧ char64of s2 ≠ -1 ∧ char64of s3 ≠ -1 ∧ Readable rest room := by
  have hcount : ((room + 3) * 8 + 5) / 6 = (room * 8 + 5) / 6 + 4 := by omega
  unfold Readable
  rw [hcount]
  constructor
  · rintro ⟨hlength, hread⟩
    refine ⟨hread 0 (by omega) (by omega), hread 1 (by omega) (by omega),
      hread 2 (by omega) (by omega), by simpa using hlength, fun i hi hmod => ?_⟩
    exact hread (i + 4) (by omega) (by omega)
  · rintro ⟨h1, h2, h3, hlength, hread⟩
    refine ⟨by simpa using hlength, fun i hi hmod => ?_⟩
    match i with
    | 0 => exact h1
    | 1 => exact h2
    | 2 => exact h3
    | 3 => exact absurd rfl hmod
    | i + 4 => exact hread i (by omega) (by omega)

theorem readable_one {s : List Char} :
    Readable s 1 ↔ ∃ s1 s2 rest, s = s1 :: s2 :: rest ∧ char64of s1 ≠ -1 ∧ char64of s2 ≠ -1 := by
  constructor
  · rintro ⟨hlength, hread⟩
    match s with
    | [] => simp at hlength
    | [s1] => simp at hlength
    | s1 :: s2 :: rest =>
      exact ⟨s1, s2, rest, rfl, hread 0 (by omega) (by omega), hread 1 (by omega) (by omega)⟩
  · rintro ⟨s1, s2, rest, rfl, h1, h2⟩
    refine ⟨by simp, fun i hi hmod => ?_⟩
    match i with
    | 0 => exact h1
    | 1 => exact h2
    | i + 2 => omega

theorem readable_two {s : List Char} : Readable s 2 ↔ ∃ s1 s2 s3 rest,
    s = s1 :: s2 :: s3 :: rest ∧ char64of s1 ≠ -1 ∧ char64of s2 ≠ -1 ∧ char64of s3 ≠ -1 := by
  constructor
  · rintro ⟨hlength, hread⟩
    match s with
    | [] => simp at hlength
    | [s1] => simp at hlength
    | [s1, s2] => simp at hlength
    | s1 :: s2 :: s3 :: rest =>
      exact ⟨s1, s2, s3, rest, rfl, hread 0 (by omega) (by omega), hread 1 (by omega) (by omega),
        hread 2 (by omega) (by omega)⟩
  · rintro ⟨s1, s2, s3, rest, rfl, h1, h2, h3⟩
    refine ⟨by simp, fun i hi hmod => ?_⟩
    match i with
    | 0 => exact h1
    | 1 => exact h2
    | 2 => exact h3
    | i + 3 => omega

theorem not_readable_of_short {s : List Char} {room : ℕ} (h : s.length < (room * 8 + 5) / 6) :
    ¬ Readable s room :=
  fun hread => absurd hread.1 (by omega)

/-- The result is full exactly when the characters it takes are there and can be read. -/
theorem length_decodeLoop_eq_iff (s : List Char) (room : ℕ) :
    (decodeLoop s room).length = room ↔ Readable s room := by
  -- the induction follows the loop, which makes three bytes in each turn
  induction room using Nat.strong_induction_on generalizing s with
  | _ room ih =>
  match s, room with
  | s, 0 => simp [Readable]
  | [], room + 1 =>
    exact iff_of_false (by simp [decodeLoop]) (not_readable_of_short (by simp; omega))
  | [s1], room + 1 =>
    exact iff_of_false (by simp [decodeLoop]) (not_readable_of_short (by simp; omega))
  | s1 :: s2 :: rest, 1 =>
    rw [readable_one]
    by_cases h : char64of s1 = -1 ∨ char64of s2 = -1
    · exact iff_of_false (by simp [decodeLoop, h]) (by simp; tauto)
    · exact iff_of_true (by cases rest <;> simp [decodeLoop, h]) (by simp; tauto)
  | [s1, s2], room + 2 =>
    refine iff_of_false ?_ (not_readable_of_short (by simp; omega))
    unfold decodeLoop
    dsimp only
    split <;> simp
  | s1 :: s2 :: s3 :: rest, 2 =>
    rw [readable_two]
    by_cases h : char64of s1 = -1 ∨ char64of s2 = -1
    · exact iff_of_false (by simp [decodeLoop, h]) (by simp; tauto)
    · by_cases h3 : char64of s3 = -1
      · exact iff_of_false (by simp [decodeLoop, h, h3]) (by simp [h3])
      · exact iff_of_true (by cases rest <;> simp [decodeLoop, h, h3]) (by simp; tauto)
  | [s1, s2, s3], room + 3 =>
    refine iff_of_false ?_ (not_readable_of_short (by simp; omega))
    unfold decodeLoop
    dsimp only
    split
    · simp
    · split <;> simp
  | s1 :: s2 :: s3 :: s4 :: rest, room + 3 =>
    rw [readable_cons, ← ih room (by omega) rest]
    by_cases h : char64of s1 = -1 ∨ char64of s2 = -1
    · exact iff_of_false (by simp [decodeLoop, h]) (by tauto)
    · by_cases h3 : char64of s3 = -1
      · exact iff_of_false (by simp [decodeLoop, h, h3]) (by tauto)
      · rw [not_or] at h
        simp [decodeLoop, h, h3]

end Pindex.BCryptSwift
