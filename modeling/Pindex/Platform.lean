import Pindex.Library.DocStore
import Mathlib.Data.Rat.Defs

/-!
# What the app is built on

The values a Firestore document holds, the forced casts the completions read them with,
and the two functions whose results matter to the app: BCryptSwift's `hashPassword` and
Swift's `==` on strings, gathered in a `Platform`. Most of the app does not depend on what
these are; `Platform.RunsBCrypt` says that the first is the vendored one.
-/

namespace Pindex

open DocStore

/-- A field value. Integers and doubles are compared as numbers; `other` stands for the
types that no code here looks into (bytes, references, geo points, arrays, maps). -/
inductive Value where
  | null
  | bool (b : Bool)
  | number (q : ℚ)
  | timestamp (t : ℕ)
  | string (s : String)
  | other (description : String)
deriving DecidableEq, Repr

/-- A Swift `String?` as a field value or a filter value: `nil` is Firestore's null. -/
def Value.ofOptional : Option String → Value
  | some s => .string s
  | none => .null

/-- The forced cast `documentDict[field] as! String`; `none` is the trap. -/
def stringField (document : Document Value) (field : String) : Option String :=
  match document.get? field with
  | some (.string s) => some s
  | _ => none

theorem stringField_eq_some {document : Document Value} {field s : String} :
    stringField document field = some s ↔ document.get? field = some (.string s) := by
  unfold stringField
  split <;> simp_all

/-- The forced cast `document.get(field)! as! Double`; `none` is the trap. Booleans are cast as
numbers, and a number is what some double is equal to: no integer of more than 53 binary
digits, trailing zeros apart. -/
def doubleField (document : Document Value) (field : String) : Option ℚ :=
  match document.get? field with
  | some (.number q) =>
    if q.den = 1 ∧ q.num.natAbs % Nat.pow 2 (q.num.natAbs.log2 - 52) ≠ 0 then none else some q
  | some (.bool b) => some (if b then 1 else 0)
  | _ => none

/-- The numbers of at most 53 binary digits, with zeros behind them. -/
theorem mod_log2_eq_zero_iff {n : ℕ} :
    n % Nat.pow 2 (n.log2 - 52) = 0 ↔ ∃ m k : ℕ, m < Nat.pow 2 53 ∧ n = m * Nat.pow 2 k := by
  constructor
  · intro h
    have hlt : n < 2 ^ (n.log2 + 1) := Nat.lt_log2_self
    refine ⟨n / Nat.pow 2 (n.log2 - 52), n.log2 - 52, ?_, ?_⟩
    · apply Nat.div_lt_of_lt_mul
      show n < 2 ^ (n.log2 - 52) * 2 ^ 53
      rw [← Nat.pow_add]
      exact hlt.trans_le (Nat.pow_le_pow_right (by omega) (by omega))
    · exact (Nat.div_mul_cancel (Nat.dvd_of_mod_eq_zero h)).symm
  · intro ⟨m, k, hm, hn⟩
    by_cases hzero : n = 0
    · rw [hzero]
      rfl
    -- no more digits are left behind the first 53 than there are zeros
    have hlt : n < 2 ^ (53 + k) := by
      rw [hn, Nat.pow_add]
      exact Nat.mul_lt_mul_of_pos_right hm (Nat.two_pow_pos k)
    have hlog : n.log2 < 53 + k := (Nat.log2_lt hzero).mpr hlt
    have hdvd : 2 ^ (n.log2 - 52) ∣ 2 ^ k := Nat.pow_dvd_pow 2 (by omega)
    have hzeros : 2 ^ k ∣ n := by
      rw [hn]
      exact Nat.dvd_mul_left _ _
    exact Nat.mod_eq_zero_of_dvd (Nat.dvd_trans hdvd hzeros)

theorem doubleField_number {document : Document Value} {field : String} {q : ℚ}
    (h : document.get? field = some (.number q)) : doubleField document field = none ↔
      q.den = 1 ∧ ¬ ∃ m k : ℕ, m < Nat.pow 2 53 ∧ q.num.natAbs = m * Nat.pow 2 k := by
  unfold doubleField
  rw [h, ← mod_log2_eq_zero_iff]
  dsimp only
  split <;> simp_all

/-- What the app calls: `hashPassword password salt` is `BCryptSwift.hashPassword(_:withSalt:)`,
and `stringEq` is Swift's `==`, canonical equivalence of Unicode strings. -/
structure Platform where
  hashPassword : String → String → Option String
  stringEq : String → String → Bool
  stringEq_equivalence : Equivalence fun s t => stringEq s t = true

/-- A platform for concrete runs: hashes are distinct for distinct passwords, and strings
without combining characters are equal when they are the same. -/
def Platform.plain : Platform where
  hashPassword password salt := some (salt ++ password)
  stringEq s t := s == t
  stringEq_equivalence := by simpa using eq_equivalence

/-- The one salt of the app (`AppDelegate.swift`). -/
def salt : String := "$2a$10$klnsfCDZT0nnQeMHl0R2pu"

/-- The stored and the queried form of a password. -/
def Platform.passwordValue (P : Platform) (password : String) : Value :=
  .ofOptional (P.hashPassword password salt)

/-- The two collections the app writes to. -/
inductive CollectionName where
  | user
  | post
deriving DecidableEq, Repr

end Pindex
