import Pindex.Library.Repetition
import Pindex.Platform

/-!
# `BCryptSwift`: the key material of a password

`hashPassword` sees of a password only the words that `streamToWordWithData` takes from its
bytes: the `plen` words that the subkeys are combined with, in `enhanceKeyScheduleWithData`
and again in each round of `key`, always from the first byte on. This module embeds that
part; `Blowfish` and `HashPassword` embed the cipher and the rest. Laws that need hashes to be
distinct assume `Platform.HashesKey`: equal results exactly on equal words.

`keyWords_eq_iff` says what of the bytes the words hold: the letters of their endless
repetition, as far as the words reach.
-/

namespace Pindex

open Repetition

/-! ## The bytes of a password -/

/-- The `utf8` view of a string. -/
def utf8 (s : String) : List UInt8 := s.toList.flatMap String.utf8EncodeChar

@[simp] theorem utf8_append (s t : String) : utf8 (s ++ t) = utf8 s ++ utf8 t := by
  rw [utf8, String.toList_append, List.flatMap_append, utf8, utf8]

/-- No character of the string is NUL. -/
def NulFree (s : String) : Prop := ∀ c ∈ s.toList, c.toNat ≠ 0

instance : DecidablePred NulFree := fun s =>
  List.decidableBAll (fun c : Char => c.toNat ≠ 0) s.toList

theorem zero_not_mem_utf8EncodeChar {c : Char} (h : c.toNat ≠ 0) :
    0 ∉ String.utf8EncodeChar c := by
  have hzero : ∀ n : ℕ, 0 < n → n < 256 → (0 : UInt8) ≠ UInt8.ofNat n := by
    intro n hpos hlt heq
    have hnat := congrArg UInt8.toNat heq
    rw [UInt8.toNat_ofNat_of_lt' hlt] at hnat
    change 0 = n at hnat
    omega
  unfold String.utf8EncodeChar
  change c.val.toNat ≠ 0 at h
  generalize c.val.toNat = v at h
  dsimp only
  -- the encodings of one, two, three and four bytes
  split
  · simp only [List.mem_cons, List.not_mem_nil, or_false]
    exact hzero _ (by omega) (by omega)
  · split
    · simp only [List.mem_cons, List.not_mem_nil, or_false, not_or]
      exact ⟨hzero _ (by omega) (by omega), hzero _ (by omega) (by omega)⟩
    · split
      · simp only [List.mem_cons, List.not_mem_nil, or_false, not_or]
        exact ⟨hzero _ (by omega) (by omega), hzero _ (by omega) (by omega),
          hzero _ (by omega) (by omega)⟩
      · simp only [List.mem_cons, List.not_mem_nil, or_false, not_or]
        exact ⟨hzero _ (by omega) (by omega), hzero _ (by omega) (by omega),
          hzero _ (by omega) (by omega), hzero _ (by omega) (by omega)⟩

theorem NulFree.zero_not_mem {s : String} (h : NulFree s) : 0 ∉ utf8 s := by
  intro hmem
  obtain ⟨c, hc, hzero⟩ := List.mem_flatMap.mp hmem
  exact zero_not_mem_utf8EncodeChar (h c hc) hzero

namespace BCryptSwift

/-- The bytes that are hashed: the salt has the revision `a`, which appends a "\0". -/
def passwordData (password : String) : List UInt8 := utf8 password ++ [0]

/-! ## The words of the key schedule -/

/-- How many subkeys there are. -/
def plen : ℕ := 18

/-- One turn of the loop of `streamToWordWithData`, on the word and the offset. -/
def streamByte (data : List UInt8) (acc : ℕ × ℕ) : ℕ × ℕ :=
  ((acc.1 <<< 8) ||| (data.getD acc.2 0).toNat, (acc.2 + 1) % data.length)

/-- The next word of the data, and the offset after it. The word is the 32 bits of the
`Int32`, as a number. -/
def streamToWordWithData (data : List UInt8) (off : ℕ) : ℕ × ℕ :=
  (List.range 4).foldl (fun acc _ => streamByte data acc) (0, off)

/-- The words that `key` takes from the data, one for each of the next `n` subkeys. -/
def keyWords (data : List UInt8) : ℕ → ℕ → List ℕ
  | 0, _ => []
  | n + 1, off =>
    (streamToWordWithData data off).1 :: keyWords data n (streamToWordWithData data off).2

/-- The offset runs around the data, so a byte is a letter of its repetition. -/
theorem streamByte_eq (data : List UInt8) (word i : ℕ) :
    streamByte data (word, i % data.length) =
      (word * 256 + (letter data 0 i).toNat, (i + 1) % data.length) := by
  have hbyte : (letter data 0 i).toNat < 2 ^ 8 := UInt8.toNat_lt _
  rw [streamByte, Nat.mod_add_mod]
  change ((word <<< 8) ||| (letter data 0 i).toNat, _) = _
  rw [← Nat.shiftLeft_add_eq_or_of_lt hbyte, Nat.shiftLeft_eq]

theorem streamToWordWithData_eq (data : List UInt8) (i : ℕ) :
    streamToWordWithData data (i % data.length) =
      ((((letter data 0 i).toNat * 256 + (letter data 0 (i + 1)).toNat) * 256 +
          (letter data 0 (i + 2)).toNat) * 256 + (letter data 0 (i + 3)).toNat,
        (i + 4) % data.length) := by
  change streamByte data (streamByte data (streamByte data (streamByte data _))) = _
  rw [streamByte_eq, streamByte_eq, streamByte_eq, streamByte_eq, Nat.zero_mul, Nat.zero_add]

/-- Four bytes can be read off the number they make. -/
theorem bytes_of_word_eq {a b c d a' b' c' d' : UInt8}
    (h : ((a.toNat * 256 + b.toNat) * 256 + c.toNat) * 256 + d.toNat =
      ((a'.toNat * 256 + b'.toNat) * 256 + c'.toNat) * 256 + d'.toNat) :
    a = a' ∧ b = b' ∧ c = c' ∧ d = d' := by
  have hb := b.toNat_lt
  have hc := c.toNat_lt
  have hd := d.toNat_lt
  have hb' := b'.toNat_lt
  have hc' := c'.toNat_lt
  have hd' := d'.toNat_lt
  simp only [← UInt8.toNat_inj]
  omega

/-- Two passwords have the same words exactly when the repetitions of their data agree as
far as the words reach. -/
theorem keyWords_eq_iff {data data' : List UInt8} {n i : ℕ} :
    keyWords data n (i % data.length) = keyWords data' n (i % data'.length) ↔
      ∀ j < 4 * n, letter data 0 (i + j) = letter data' 0 (i + j) := by
  induction n generalizing i with
  | zero => simp [keyWords]
  | succ n ih =>
    rw [keyWords, keyWords, streamToWordWithData_eq, streamToWordWithData_eq, List.cons.injEq, ih]
    constructor
    · rintro ⟨hword, hrest⟩ j hj
      obtain ⟨h0, h1, h2, h3⟩ := bytes_of_word_eq hword
      by_cases hlt : j < 4
      · obtain rfl | rfl | rfl | rfl : j = 0 ∨ j = 1 ∨ j = 2 ∨ j = 3 := by omega
        · exact h0
        · exact h1
        · exact h2
        · exact h3
      · have hj4 := hrest (j - 4) (by omega)
        rwa [show i + 4 + (j - 4) = i + j by omega] at hj4
    · intro h
      refine ⟨?_, fun j hj => ?_⟩
      · have h0 : letter data 0 i = letter data' 0 i := h 0 (by omega)
        rw [h0, h 1 (by omega), h 2 (by omega), h 3 (by omega)]
      · rw [Nat.add_assoc]
        exact h (4 + j) (by omega)

end BCryptSwift

/-! ## What is relied on of the hash -/

/-- `hashPassword` with the salt of the app gives equal results, on the passwords in `S`,
exactly when it takes equal words from them. One way is a fact about `BCryptSwift`; the other
is that nothing in `S` collides, which no hash can promise of all strings. -/
def Platform.HashesKey (P : Platform) (S : String → Prop) : Prop :=
  ∀ ⦃password password' : String⦄, S password → S password' →
    (P.hashPassword password salt = P.hashPassword password' salt ↔
      BCryptSwift.keyWords (BCryptSwift.passwordData password) BCryptSwift.plen 0 =
        BCryptSwift.keyWords (BCryptSwift.passwordData password') BCryptSwift.plen 0)

/-- The first 72 bytes of the endless repetition of the password's UTF-8 bytes and a zero
byte are the same. -/
def SameKey (password password' : String) : Prop :=
  ∀ i < 72, letter (BCryptSwift.passwordData password) 0 i =
    letter (BCryptSwift.passwordData password') 0 i

instance (password password' : String) : Decidable (SameKey password password') :=
  inferInstanceAs (Decidable (∀ i < 72, letter (BCryptSwift.passwordData password) 0 i =
    letter (BCryptSwift.passwordData password') 0 i))

variable {P : Platform} {S : String → Prop} {password password' : String}

/-- The 18 words of four bytes hold the first 72 bytes. -/
theorem keyWords_passwordData : BCryptSwift.keyWords (BCryptSwift.passwordData password)
      BCryptSwift.plen 0 =
    BCryptSwift.keyWords (BCryptSwift.passwordData password') BCryptSwift.plen 0 ↔
      SameKey password password' := by
  have hwords := @BCryptSwift.keyWords_eq_iff (BCryptSwift.passwordData password)
    (BCryptSwift.passwordData password') BCryptSwift.plen 0
  simp only [Nat.zero_mod, Nat.zero_add] at hwords
  exact hwords

theorem passwordValue_eq_iff (hP : P.HashesKey S) (h : S password) (h' : S password') :
    P.passwordValue password = P.passwordValue password' ↔ SameKey password password' := by
  have hoption : ∀ a b : Option String, Value.ofOptional a = Value.ofOptional b ↔ a = b := by
    intro a b
    cases a <;> cases b <;> simp [Value.ofOptional]
  rw [Platform.passwordValue, Platform.passwordValue, hoption, hP h h', keyWords_passwordData]

/-- Without NUL, the zero byte closes the password: two passwords have the same key when
their bytes are the same, or when both fill the key before they differ. -/
theorem sameKey_iff (h : NulFree password) (h' : NulFree password') :
    SameKey password password' ↔ utf8 password = utf8 password' ∨
      (72 ≤ (utf8 password).length ∧ 72 ≤ (utf8 password').length ∧
        (utf8 password).take 72 = (utf8 password').take 72) :=
  agree_iff h.zero_not_mem h'.zero_not_mem

end Pindex
