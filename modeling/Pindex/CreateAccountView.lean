import Pindex.Library.Pattern
import Pindex.Platform

/-!
# `CreateAccountView`: the registration form

`processInput` has two halves. The first runs at the tap on Create Account: it sets the
four error flags from the fields and, if both format checks pass, asks the `User`
collection for the username. The second, the query's completion, runs some time later
and reads the fields and the flags as they are then.

`Form` is one form with its pending queries, and `Form.Step` everything that can happen
to it.
-/

namespace Pindex

open DocStore

/-! ## The input checks -/

/-- The characters a dot does not match. -/
def isLineTerminator (c : Char) : Bool :=
  (0x0A ≤ c.toNat && c.toNat ≤ 0x0D) || c.toNat == 0x85 || c.toNat == 0x2028 || c.toNat == 0x2029

/-- `.` -/
def dot : Pattern Char := .symbol fun c => !isLineTerminator c

/-- `(?=.*[c])` for a character class `c`. -/
def containsAhead (c : Char → Bool) : Pattern Char :=
  .lookahead (.seq (.atLeast dot 0) (.symbol c))

/-- `(?=.*[a-zA-Z0-9]).{5,20}` -/
def usernameRegexPattern : Pattern Char :=
  .seq (containsAhead Char.isAlphanum) (.between dot 5 20)

/-- `(?=.*[A-Z])(?=.*[0-9])(?=.*[a-z]).{8,}` -/
def passwordRegexPattern : Pattern Char :=
  .seq (containsAhead Char.isUpper)
    (.seq (containsAhead Char.isDigit) (.seq (containsAhead Char.isLower) (.atLeast dot 8)))

def isUsernameValid (username : String) : Bool :=
  usernameRegexPattern.WholeMatch username.toList

def isPasswordValid (password : String) : Bool :=
  passwordRegexPattern.WholeMatch password.toList

def isPasswordMatch (P : Platform) (passwordOne passwordTwo : String) : Bool :=
  P.stringEq passwordOne passwordTwo

/-! ## The view and `processInput` -/

/-- The `@State` of a form, with `dismissed` for `mode.wrappedValue.dismiss()`. -/
structure CreateAccountView where
  firstName : String := ""
  lastName : String := ""
  username : String := ""
  password : String := ""
  confirmPassword : String := ""
  displayUsernameError : Bool := false
  displayUsernameFormatError : Bool := false
  displayPasswordFormatError : Bool := false
  displayPasswordsMatchError : Bool := false
  ref : Option ℕ := none
  dismissed : Bool := false

inductive FormField where
  | firstName
  | lastName
  | username
  | password
  | confirmPassword
deriving DecidableEq, Repr

namespace CreateAccountView

/-- Typing into a text field. -/
def edit (view : CreateAccountView) (text : String) : FormField → CreateAccountView
  | .firstName => { view with firstName := text }
  | .lastName => { view with lastName := text }
  | .username => { view with username := text }
  | .password => { view with password := text }
  | .confirmPassword => { view with confirmPassword := text }

/-- `processInput` up to the query: the flags it sets, and the username it asks the
`User` collection for, if it gets that far. -/
def processInput (P : Platform) (view : CreateAccountView) :
    CreateAccountView × Option String :=
  let view := { view with
    displayUsernameError := false
    displayUsernameFormatError := !isUsernameValid view.username
    displayPasswordFormatError := !isPasswordValid view.password
    displayPasswordsMatchError := !isPasswordMatch P view.password view.confirmPassword }
  if view.displayPasswordFormatError == false && view.displayUsernameFormatError == false then
    (view, some view.username)
  else
    (view, none)

/-- `collection("User").whereField("Username", isEqualTo: username)` -/
def usernameQuery (username : String) : Query Value :=
  Query.all.whereField "Username" (.string username)

/-- The document `processInput` adds. -/
def userFields (P : Platform) (view : CreateAccountView) : Fields Value :=
  [("First_Name", .string view.firstName),
   ("Last_Name", .string view.lastName),
   ("ID", .number 0),
   ("Username", .string view.username),
   ("Password", P.passwordValue view.password)]

@[simp] theorem userFields_username (P : Platform) (view : CreateAccountView) :
    (view.userFields P).lookup "Username" = some (.string view.username) := rfl

@[simp] theorem userFields_password (P : Platform) (view : CreateAccountView) :
    (view.userFields P).lookup "Password" = some (P.passwordValue view.password) := rfl

/-- The query's completion: the form afterwards and the document it adds to `User`
under the identifier `documentID`, if any. `none` is a trap. -/
def processInputCompletion (P : Platform) (documentID : ℕ) (r : Response Value)
    (view : CreateAccountView) : Option (CreateAccountView × Option (Fields Value)) :=
  match r.err with
  | some _ => some (view, none)
  | none => do
    -- `querySnapshot!`
    let documents ← r.querySnapshot
    let userExists := documents.foldl (fun _ _ => true) false
    if userExists == false && view.displayPasswordsMatchError == false &&
        view.displayUsernameFormatError == false && view.displayPasswordFormatError == false &&
        view.displayUsernameError == false then
      if P.stringEq view.password view.confirmPassword then
        let view' := { view with ref := some documentID }
        -- `print(self.ref!.documentID)`
        let _ ← view'.ref
        some ({ view' with dismissed := true }, some (view.userFields P))
      else
        some ({ view with displayPasswordsMatchError := true }, none)
    else
      some ({ view with displayUsernameError := true }, none)

/-! ## What the two halves do -/

/-- All five text fields of the two forms agree. -/
structure SameFields (view view' : CreateAccountView) : Prop where
  firstName : view'.firstName = view.firstName
  lastName : view'.lastName = view.lastName
  username : view'.username = view.username
  password : view'.password = view.password
  confirmPassword : view'.confirmPassword = view.confirmPassword

theorem SameFields.refl (view : CreateAccountView) : SameFields view view :=
  ⟨rfl, rfl, rfl, rfl, rfl⟩

theorem SameFields.trans {view view' view'' : CreateAccountView} (h : SameFields view view')
    (h' : SameFields view' view'') : SameFields view view'' :=
  ⟨h'.firstName.trans h.firstName, h'.lastName.trans h.lastName, h'.username.trans h.username,
    h'.password.trans h.password, h'.confirmPassword.trans h.confirmPassword⟩

/-- The document is built from the text fields alone. -/
theorem SameFields.userFields_eq {view view' : CreateAccountView} (h : SameFields view view')
    (P : Platform) : view'.userFields P = view.userFields P := by
  rw [userFields, h.firstName, h.lastName, h.username, h.password, userFields]

/-- The branch of the completion that creates the account is taken. -/
structure Creates (P : Platform) (view : CreateAccountView) (r : Response Value) : Prop where
  err : r.err = none
  noUser : r.querySnapshot = some []
  passwordsMatch : view.displayPasswordsMatchError = false
  usernameFormat : view.displayUsernameFormatError = false
  passwordFormat : view.displayPasswordFormatError = false
  usernameFree : view.displayUsernameError = false
  samePasswords : P.stringEq view.password view.confirmPassword = true

variable {P : Platform} {view view' : CreateAccountView} {documentID : ℕ}
  {r : Response Value} {out : Option (Fields Value)}

theorem foldl_userExists (documents : List (Document Value)) (b : Bool) :
    documents.foldl (fun _ _ => true) b = (b || !documents.isEmpty) := by
  induction documents generalizing b with
  | nil => simp
  | cons d documents ih => simp [ih]

/-- Everything a completion can do: report the error, create the account, find that the
passwords differ, or show "That username already exists!". -/
theorem completion_cases
    (h : view.processInputCompletion P documentID r = some (view', out)) :
    (r.err ≠ none ∧ view' = view ∧ out = none) ∨
    (view.Creates P r ∧ out = some (view.userFields P) ∧
      view' = { view with ref := some documentID, dismissed := true }) ∨
    (r.err = none ∧ r.querySnapshot = some [] ∧ view.displayUsernameError = false ∧
      P.stringEq view.password view.confirmPassword = false ∧ out = none ∧
      view' = { view with displayPasswordsMatchError := true }) ∨
    (r.err = none ∧ ¬ view.Creates P r ∧ out = none ∧
      view' = { view with displayUsernameError := true }) := by
  unfold processInputCompletion at h
  split at h
  · rename_i e he
    simp only [Option.some.injEq, Prod.mk.injEq] at h
    exact .inl ⟨by simp [he], h.1.symm, h.2.symm⟩
  · rename_i herr
    right
    obtain ⟨documents, hdocs⟩ : ∃ documents, r.querySnapshot = some documents := by
      cases hs : r.querySnapshot with
      | none => simp [hs] at h
      | some documents => exact ⟨documents, rfl⟩
    simp only [hdocs, Option.bind_eq_bind, Option.bind_some, foldl_userExists, Bool.false_or]
      at h
    split at h
    · rename_i hguard
      simp only [Bool.and_eq_true, beq_iff_eq, Bool.not_eq_false', List.isEmpty_iff] at hguard
      obtain ⟨⟨⟨⟨rfl, hm⟩, hu⟩, hp⟩, hn⟩ := hguard
      split at h
      · rename_i heq
        simp only [Option.some.injEq, Prod.mk.injEq] at h
        exact .inl ⟨⟨herr, hdocs, hm, hu, hp, hn, heq⟩, h.2.symm, h.1.symm⟩
      · rename_i hne
        simp only [Option.some.injEq, Prod.mk.injEq] at h
        exact .inr (.inl ⟨herr, hdocs, hn, by simpa using hne, h.2.symm, h.1.symm⟩)
    · rename_i hguard
      simp only [Option.some.injEq, Prod.mk.injEq] at h
      refine .inr (.inr ⟨herr, fun hc => hguard ?_, h.2.symm, h.1.symm⟩)
      obtain rfl : documents = [] := Option.some.inj (hdocs.symm.trans hc.noUser)
      simp [hc.passwordsMatch, hc.usernameFormat, hc.passwordFormat, hc.usernameFree]

/-- A completion that is called without an error is called with a snapshot, and then it
does not trap. -/
theorem completion_isSome (h : r.err = none → r.querySnapshot ≠ none) :
    (view.processInputCompletion P documentID r).isSome := by
  unfold processInputCompletion
  split
  · rfl
  · rename_i herr
    obtain ⟨documents, hdocs⟩ := Option.ne_none_iff_exists'.mp (h herr)
    simp only [hdocs, Option.bind_eq_bind, Option.bind_some]
    split
    · split <;> rfl
    · rfl

/-- The completion adds a document exactly in the creating branch, and then the one
built from the fields it finds. -/
theorem completion_adds (h : view.processInputCompletion P documentID r = some (view', out))
    {fields : Fields Value} :
    out = some fields ↔ view.Creates P r ∧ fields = view.userFields P := by
  rcases completion_cases h with ⟨herr, -, rfl⟩ | ⟨hc, rfl, -⟩ | ⟨-, -, -, hne, rfl, -⟩ |
    ⟨-, hnc, rfl, -⟩
  · simpa using fun hc : view.Creates P r => absurd hc.err herr
  · simp [hc, eq_comm]
  · simpa using fun hc : view.Creates P r => absurd hc.samePasswords (by simp [hne])
  · simpa using fun hc : view.Creates P r => absurd hc hnc

theorem completion_of_creates (hc : view.Creates P r) :
    view.processInputCompletion P documentID r =
      some ({ view with ref := some documentID, dismissed := true }, some (view.userFields P)) := by
  simp [processInputCompletion, hc.err, hc.noUser, hc.passwordsMatch, hc.usernameFormat,
    hc.passwordFormat, hc.usernameFree, hc.samePasswords]

/-- Users that were found and passwords that differed at the tap end in one branch. -/
theorem completion_of_taken (herr : r.err = none) {documents : List (Document Value)}
    (hdocs : r.querySnapshot = some documents)
    (h : documents ≠ [] ∨ view.displayPasswordsMatchError = true) :
    view.processInputCompletion P documentID r =
      some ({ view with displayUsernameError := true }, none) := by
  have hguard : ((documents.foldl (fun _ _ => true) false) == false &&
      view.displayPasswordsMatchError == false) = false := by
    rw [foldl_userExists]
    rcases h with h | h
    · simp [h]
    · simp [h]
  simp only [processInputCompletion, herr, hdocs, Option.bind_eq_bind, Option.bind_some, hguard,
    Bool.false_and, Bool.false_eq_true, if_false]

/-- A completion never changes the text fields. -/
theorem completion_sameFields
    (h : view.processInputCompletion P documentID r = some (view', out)) :
    SameFields view view' := by
  rcases completion_cases h with ⟨-, rfl, -⟩ | ⟨-, -, rfl⟩ | ⟨-, -, -, -, -, rfl⟩ |
    ⟨-, -, -, rfl⟩ <;>
    exact ⟨rfl, rfl, rfl, rfl, rfl⟩

/-- The flags after the first half are those of the fields at the tap. -/
theorem processInput_view : (view.processInput P).1 = { view with
    displayUsernameError := false
    displayUsernameFormatError := !isUsernameValid view.username
    displayPasswordFormatError := !isPasswordValid view.password
    displayPasswordsMatchError := !isPasswordMatch P view.password view.confirmPassword } := by
  unfold processInput
  dsimp only
  split <;> rfl

/-- The query is issued exactly when both format checks pass, for the username field. -/
theorem processInput_query {username : String} : (view.processInput P).2 = some username ↔
    isUsernameValid view.username = true ∧ isPasswordValid view.password = true ∧
      username = view.username := by
  unfold processInput
  dsimp only
  split
  · rename_i h
    simp only [Bool.and_eq_true, beq_iff_eq, Bool.not_eq_false'] at h
    simp [h, eq_comm]
  · rename_i h
    simp only [Bool.and_eq_true, beq_iff_eq, Bool.not_eq_false'] at h
    simpa using fun hu hp _ => h ⟨hp, hu⟩

end CreateAccountView

/-! ## A form and its pending queries -/

/-- A pending query of a form: the tap that issued it, the username it searches for and
the size of the `User` collection at the call. -/
structure UserQuery where
  tap : ℕ
  username : String
  since : ℕ
deriving DecidableEq, Repr

def UserQuery.query (q : UserQuery) : Query Value :=
  CreateAccountView.usernameQuery q.username

structure Form where
  view : CreateAccountView := {}
  pending : List UserQuery := []
  taps : ℕ := 0

inductive FormEvent where
  | edit (field : FormField) (text : String)
  | tap
  | complete (q : UserQuery) (r : Response Value)

namespace Form

/-- A tap on Create Account while `User` has `since` documents. -/
def tap (P : Platform) (since : ℕ) (form : Form) : Form where
  view := (form.view.processInput P).1
  pending := form.pending ++
    ((form.view.processInput P).2.map fun username => ⟨form.taps, username, since⟩).toList
  taps := form.taps + 1

/-- One event of a form, next to a `User` collection; the last argument is the document
it adds, if any. -/
inductive Step (P : Platform) (users : Collection Value) :
    Form → FormEvent → Form → Option (Fields Value) → Prop
  | edit (form : Form) (field : FormField) (text : String) :
      Step P users form (.edit field text) { form with view := form.view.edit text field } none
  | tap (form : Form) :
      Step P users form .tap (form.tap P users.docs.length) none
  | complete {form : Form} {q : UserQuery} {r : Response Value} {view : CreateAccountView}
      {out : Option (Fields Value)} (pending : q ∈ form.pending)
      (delivered : users.Delivers q.query q.since r)
      (completion : form.view.processInputCompletion P users.nextId r = some (view, out)) :
      Step P users form (.complete q r)
        { form with view := view, pending := form.pending.erase q } out

/-- The event is a completion that traps. -/
def Traps (P : Platform) (users : Collection Value) (form : Form) : FormEvent → Prop
  | .complete q r => q ∈ form.pending ∧ users.Delivers q.query q.since r ∧
      form.view.processInputCompletion P users.nextId r = none
  | _ => False

/-- Every forced unwrap of the completion succeeds. -/
theorem not_traps {P : Platform} {users : Collection Value} {form : Form} {e : FormEvent} :
    ¬ form.Traps P users e := by
  cases e with
  | edit => exact id
  | tap => exact id
  | complete q r =>
    rintro ⟨-, hdel, htrap⟩
    have hsnapshot : r.err = none → r.querySnapshot ≠ none := fun herr => by
      obtain ⟨docs, hdocs, -⟩ := hdel herr
      simp [hdocs]
    have hsome : (form.view.processInputCompletion P users.nextId r).isSome :=
      CreateAccountView.completion_isSome hsnapshot
    simp [htrap] at hsome

end Form

end Pindex
