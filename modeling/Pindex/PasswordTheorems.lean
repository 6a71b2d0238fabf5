import Pindex.BCryptSwift
import Pindex.InputTheorems
import Pindex.LoginView

/-!
# Which passwords open an account

`processInput` stores the hash of the password, and a login queries for the hash of what is
typed. Both see of a password its key only (`login_matches_iff`), while the form compares
the two password fields with `==` on strings. Two consequences:

* a password other than the stored one opens the account exactly when the two share a key,
  which takes 72 bytes (`unlocks_only_own_iff`);
* the confirmed spelling of the password opens the account exactly when it has the key of
  the first (`confirmed_logs_in_iff`), and `==` does not see to that.
-/

namespace Pindex

open DocStore Repetition

/-- The query of a tap on Login. -/
def LoginView.query (P : Platform) (view : LoginView) : Query Value :=
  credentialQuery (view.login P).1 (view.login P).2

variable {P : Platform} {S : String → Prop} {view view' : CreateAccountView} {documentID : ℕ}
  {r : Response Value} {fields : Fields Value}

/-- A login finds the document of an account when the usernames are the same and the
passwords have the same key. -/
theorem login_matches_iff (hP : P.HashesKey S)
    (stored : view.processInputCompletion P documentID r = some (view', some fields))
    (login : LoginView) (hp : S view.password) (hq : S login.password) :
    (login.query P).Matches ⟨documentID, fields⟩ ↔
      view.username = login.username ∧ SameKey view.password login.password := by
  obtain ⟨-, rfl⟩ := (CreateAccountView.completion_adds stored).mp rfl
  rw [LoginView.query, LoginView.credentialQuery_matches, Document.get?, Document.get?,
    CreateAccountView.userFields_username, CreateAccountView.userFields_password,
    Option.some.injEq, Option.some.injEq, Value.string.injEq]
  exact and_congr_right fun _ => passwordValue_eq_iff hP hp hq

/-- The canonical decomposition, for strings with no precomposed letter but `é`. -/
def decompose (s : String) : List Char :=
  s.toList.flatMap fun c => if c.toNat = 0xE9 then ['e', Char.ofNat 0x301] else [c]

theorem decompose_equivalence :
    Equivalence fun s t : String => (decompose s == decompose t) = true := by
  simpa using eq_equivalence.comap decompose

/-- A platform for concrete runs: the hash of a password is its key. -/
def Platform.keyed : Platform where
  hashPassword password salt := some (salt ++ String.ofList ((List.range 72).map fun i =>
    Char.ofNat (letter (BCryptSwift.passwordData password) 0 i).toNat))
  stringEq s t := decompose s == decompose t
  stringEq_equivalence := decompose_equivalence

theorem keyed_hashesKey : Platform.keyed.HashesKey S := by
  intro password password' _ _
  have hbyte : ∀ b : UInt8, (Char.ofNat b.toNat).toNat = b.toNat := by
    intro b
    have hb := b.toNat_lt
    have hvalid : b.toNat.isValidChar := Or.inl (by omega)
    rw [Char.ofNat, dif_pos hvalid]
    rfl
  have hchar : ∀ b b' : UInt8, Char.ofNat b.toNat = Char.ofNat b'.toNat ↔ b = b' := by
    intro b b'
    rw [← Char.toNat_inj, hbyte, hbyte, UInt8.toNat_inj]
  rw [keyWords_passwordData]
  show some (salt ++ String.ofList _) = some (salt ++ String.ofList _) ↔ _
  rw [Option.some.injEq, String.append_right_inj, String.ofList_inj, List.map_inj_left]
  simp only [hchar, List.mem_range]
  rfl

/-! ## A password of somebody else -/

/-- The key holds 72 bytes, so a different password opens an account exactly when both fill
the key and differ only behind it. -/
theorem unlocks_only_own_iff (hP : P.HashesKey NulFree)
    (stored : view.processInputCompletion P documentID r = some (view', some fields))
    {q : String} (hp : NulFree view.password) (hq : NulFree q)
    (hne : utf8 view.password ≠ utf8 q) :
    (∀ login : LoginView, login.password = q →
        ¬ (login.query P).Matches ⟨documentID, fields⟩) ↔
      ¬ (72 ≤ (utf8 view.password).length ∧ 72 ≤ (utf8 q).length ∧
        (utf8 view.password).take 72 = (utf8 q).take 72) := by
  have hkey : SameKey view.password q ↔ 72 ≤ (utf8 view.password).length ∧
      72 ≤ (utf8 q).length ∧ (utf8 view.password).take 72 = (utf8 q).take 72 :=
    (sameKey_iff hp hq).trans (or_iff_right hne)
  rw [← hkey]
  constructor
  · intro hlocked hsame
    let login : LoginView := { username := view.username, password := q }
    exact hlocked login rfl ((login_matches_iff hP stored login hp hq).mpr ⟨rfl, hsame⟩)
  · rintro hdiffer login rfl hmatches
    exact hdiffer ((login_matches_iff hP stored login hp hq).mp hmatches).2

/-- A form that is about to create an account for `harry`. -/
def registration (password confirmPassword : String) : CreateAccountView :=
  { username := "harry", password := password, confirmPassword := confirmPassword }

/-- The account is created when `==` takes the passwords for the same. -/
theorem registration_stored {password confirmPassword : String}
    (h : P.stringEq password confirmPassword = true) :
    (registration password confirmPassword).processInputCompletion P 0 (.snapshot []) =
      some ({ registration password confirmPassword with ref := some 0, dismissed := true },
        some ((registration password confirmPassword).userFields P)) :=
  CreateAccountView.completion_of_creates ⟨rfl, rfl, rfl, rfl, rfl, rfl, h⟩

theorem gryffindor_is_locked_to_others :
    isPasswordValid "Gryffindor01" = true ∧ ∀ login : LoginView, login.password = "Gryffindor10" →
      ¬ (login.query .keyed).Matches
        ⟨0, (registration "Gryffindor01" "Gryffindor01").userFields .keyed⟩ := by
  have hstored := registration_stored (Platform.keyed.stringEq_equivalence.refl "Gryffindor01")
  exact ⟨by decide, (unlocks_only_own_iff keyed_hashesKey hstored (by decide) (by decide)
    (by decide)).mpr (by decide)⟩

/-- A password of 72 bytes. -/
def gryffindors : String :=
  "Gryffindor01Gryffindor01Gryffindor01Gryffindor01Gryffindor01Gryffindor01"

/-- What is typed behind the 72nd byte does not matter. -/
theorem exclamation_is_not_hashed :
    ¬ ∀ (P : Platform) (view view' : CreateAccountView) (documentID : ℕ) (r : Response Value)
      (fields : Fields Value) (q : String), P.HashesKey NulFree →
        isPasswordValid view.password = true → NulFree view.password → NulFree q →
        utf8 view.password ≠ utf8 q →
        view.processInputCompletion P documentID r = some (view', some fields) →
        ∀ login : LoginView, login.password = q →
          ¬ (login.query P).Matches ⟨documentID, fields⟩ := by
  intro hall
  let view := registration (gryffindors ++ "!") (gryffindors ++ "!")
  have hstored := registration_stored (Platform.keyed.stringEq_equivalence.refl view.password)
  have hvalid : isPasswordValid view.password = true := by decide
  have hp : NulFree view.password := by decide
  have hq : NulFree gryffindors := by decide
  have hbytes : utf8 view.password = utf8 gryffindors ++ utf8 "!" := utf8_append _ _
  have hlength : (utf8 gryffindors).length = 72 := by decide
  have hne : utf8 view.password ≠ utf8 gryffindors := by
    rw [hbytes]
    intro heq
    exact absurd (List.append_right_eq_self.mp heq) (by decide)
  have hsame : SameKey view.password gryffindors := by
    refine (sameKey_iff hp hq).mpr (.inr ⟨?_, hlength.ge, ?_⟩)
    · rw [hbytes, List.length_append]
      omega
    · rw [hbytes, List.take_append_of_le_length hlength.ge]
  let login : LoginView := { username := "harry", password := gryffindors }
  have hmatches := (login_matches_iff keyed_hashesKey hstored login hp hq).mpr ⟨rfl, hsame⟩
  exact hall .keyed view _ 0 _ _ gryffindors keyed_hashesKey hvalid hp hq hne hstored login rfl
    hmatches

/-! ## The confirmed password -/

/-- The account opens with the password as it was confirmed exactly when the two fields
have the same key. -/
theorem confirmed_logs_in_iff
    (hP : P.HashesKey fun password => password = view.password ∨ password = view.confirmPassword)
    (stored : view.processInputCompletion P documentID r = some (view', some fields)) :
    (∀ login : LoginView, login.username = view.username →
        login.password = view.confirmPassword →
          (login.query P).Matches ⟨documentID, fields⟩) ↔
      SameKey view.password view.confirmPassword := by
  constructor
  · intro hopens
    let login : LoginView := { username := view.username, password := view.confirmPassword }
    have hmatches := hopens login rfl rfl
    exact ((login_matches_iff hP stored login (.inl rfl) (.inr rfl)).mp hmatches).2
  · intro hsame login husername hpassword
    rw [login_matches_iff hP stored login (.inl rfl) (.inr hpassword), husername, hpassword]
    exact ⟨rfl, hsame⟩

theorem gryffindor_logs_in_confirmed :
    isPasswordMatch .keyed "Gryffindor01" "Gryffindor01" = true ∧ ∀ login : LoginView,
      login.username = "harry" → login.password = "Gryffindor01" →
        (login.query .keyed).Matches
          ⟨0, (registration "Gryffindor01" "Gryffindor01").userFields .keyed⟩ := by
  have hmatch := Platform.keyed.stringEq_equivalence.refl "Gryffindor01"
  exact ⟨hmatch, (confirmed_logs_in_iff keyed_hashesKey (registration_stored hmatch)).mpr
    (by decide)⟩

/-- A keyboard that types `é` as one character, and one that types the accent by itself. -/
theorem decomposed_accent_is_locked_out :
    ¬ ∀ (P : Platform) (view view' : CreateAccountView) (documentID : ℕ) (r : Response Value)
      (fields : Fields Value), P.HashesKey (fun _ => True) →
        isPasswordValid view.password = true →
        isPasswordMatch P view.password view.confirmPassword = true →
        view.processInputCompletion P documentID r = some (view', some fields) →
        ∀ login : LoginView, login.username = view.username →
          login.password = view.confirmPassword →
            (login.query P).Matches ⟨documentID, fields⟩ := by
  intro hall
  have hmatch : Platform.keyed.stringEq "Gryffindor01\u00e9" "Gryffindor01e\u0301" = true := by
    decide
  have hstored := registration_stored hmatch
  let login : LoginView := { username := "harry", password := "Gryffindor01e\u0301" }
  have hmatches := hall _ (registration _ _) _ _ _ _ keyed_hashesKey (by decide) hmatch hstored
    login rfl rfl
  have hsame := ((login_matches_iff (keyed_hashesKey (S := fun _ => True)) hstored login trivial
    trivial).mp hmatches).2
  exact absurd hsame (by decide)

end Pindex
