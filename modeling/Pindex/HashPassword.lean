import Pindex.Base64
import Pindex.Blowfish

/-!
# `BCryptSwift`: `hashPassword` and `verifyPassword`

`hashPassword` reads its settings off the salt (the revision, the number of rounds and 16
bytes of salt data), hashes the password's bytes, and writes the settings and the hash into
one string. `verifyPassword` gives that string to `hashPassword` as the salt.

Swift counts and subscripts a text by its `Character`s, which may be clusters of several scalars:
"\r\n" is one, and so is a letter with the accents behind it. A salt is the list of its
`Character`s here, so that it does not matter how a text falls into them.
-/

namespace Pindex.BCryptSwift

/-- A `Character`: a scalar, with the scalars that it makes one cluster with. -/
structure Character where
  scalar : Char
  marks : List Char := []
deriving DecidableEq

namespace Character

instance : Coe Char Character := ⟨fun c => { scalar := c }⟩

/-- All scalars of a cluster. -/
def scalars (c : Character) : List Char := c.scalar :: c.marks

/-- `Character`s are compared scalar by scalar. Swift normalizes them first, which does not take
one across "$", the only `Character` that anything is compared with. -/
instance : LT Character := ⟨fun c d => c.scalars < d.scalars⟩

instance (c d : Character) : Decidable (c < d) :=
  inferInstanceAs (Decidable (c.scalars < d.scalars))

end Character

/-- A text without clusters. -/
def characters (s : List Char) : List Character := s.map fun c => { scalar := c }

/-- The texts that the app takes for salts, its own and the hashes, are ASCII without "\r\n". -/
instance : Coe String (List Character) := ⟨fun s => characters s.toList⟩

def BCRYPT_SALT_LEN : ℕ := 16

/-- `Int(_:)`: an optional sign and decimal digits, or `nil`. -/
def parseInt (s : List Char) : Option ℤ :=
  match s with
  | '-' :: digits => (parseDigits digits).map fun n => -(n : ℤ)
  | '+' :: digits => (parseDigits digits).map Int.ofNat
  | digits => (parseDigits digits).map Int.ofNat
where
  parseDigits (digits : List Char) : Option ℕ :=
    if digits ≠ [] ∧ digits.all Char.isDigit then
      some (digits.foldl (fun n c => n * 10 + (c.toNat - '0'.toNat)) 0)
    else none

/-- What `hashPassword` takes from its salt: the revision (NUL when there is none), the rounds,
and the characters of the salt data, of which `char64of` looks at the first scalar only. -/
structure Settings where
  minor : Char
  rounds : ℤ
  realSalt : List Char
deriving DecidableEq

/-- How the beginning of `hashPassword` ends. -/
inductive SaltResult where
  | trap
  | invalid
  | valid (settings : Settings)
deriving DecidableEq

/-- The revision and the offset after the "$" that follows it. -/
def readRevision (salt : List Character) : Option (Char × ℕ) :=
  if salt.getD 2 '\x00' = '$' then some ('\x00', 3)
  else
    let minor := salt.getD 2 '\x00'
    if (minor ≠ 'y' ∧ minor ≠ 'a' ∧ minor ≠ 'b') ∨ salt.getD 3 '\x00' ≠ '$' then none
    else some (minor.scalar, 4)

/-- The lines of `hashPassword` up to `realSalt`. -/
def readSalt (salt : List Character) : SaltResult :=
  if salt.length < 16 then .invalid
  else if salt.getD 0 '\x00' ≠ '$' ∨ salt.getD 1 '\x00' ≠ '2' then .invalid
  else match readRevision salt with
    | none => .invalid
    | some (minor, off) =>
      -- Missing salt rounds
      if salt.getD (off + 2) '\x00' > '$' then .invalid
      else match parseInt (((salt.drop off).take 2).flatMap Character.scalars) with
        | none => .invalid
        | some rounds =>
          -- the range `off + 3 ..< off + 25` of a shorter string traps
          if salt.length < off + 25 then .trap
          else .valid ⟨minor, rounds, ((salt.drop (off + 3)).take 22).map Character.scalar⟩

/-- `streamToWordWithData` traps on these: `% Int32(length)`, where `Int32(length)` has to
be a positive `Int32`. -/
def Traps (password : List UInt8) : Prop := password.length = 0 ∨ 2 ^ 31 ≤ password.length

instance : DecidablePred Traps := fun password =>
  inferInstanceAs (Decidable (password.length = 0 ∨ 2 ^ 31 ≤ password.length))

/-- The bytes that are hashed. -/
def passwordBytes (minor : Char) (password : String) : List UInt8 :=
  utf8 (if minor ≥ 'a' then password ++ "\x00" else password)

/-- "\(n)". -/
def decimal (n : ℤ) : List Char := n.repr.toList

/-- The settings as they stand at the start of a hash. -/
def writeSettings (minor : Char) (rounds : ℤ) (saltData : List UInt8) : List Char :=
  ['$', '2'] ++ (if minor ≥ 'a' then [minor] else []) ++ ['$'] ++
    (if rounds < 10 then ['0'] else []) ++ decimal rounds ++ ['$'] ++
    encodeData saltData saltData.length

/-- `hashPassword(_:withSalt:)`; the outer `none` is a trap. -/
def hashPassword (password : String) (salt : List Character) : Option (Option String) :=
  match readSalt salt with
  | .trap => none
  | .invalid => some none
  | .valid ⟨minor, rounds, realSalt⟩ =>
    let passwordData := passwordBytes minor password
    let saltData := decode_base64 realSalt BCRYPT_SALT_LEN
    match hashData passwordData saltData rounds with
    | none => some none
    | some dataHashed =>
      if Traps passwordData then none
      else some (some (.ofList (writeSettings minor rounds saltData ++ encodeData dataHashed 23)))

/-- `verifyPassword(_:matchesHash:)`, next to the `==` of strings. -/
def verifyPassword (stringEq : String → String → Bool) (password hash : String) :
    Option (Option Bool) :=
  (hashPassword password hash).map fun hashedPassword =>
    hashedPassword.map fun hashed => stringEq hashed hash

end Pindex.BCryptSwift
