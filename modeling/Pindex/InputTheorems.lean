import Pindex.CreateAccountView

/-!
# The registration form: which input it accepts, and what it reports

The two format checks match a pattern with lookaheads. `isUsernameValid_iff` and
`isPasswordValid_iff` say in plain terms what they accept: the password check what the form
says it does (`password_grammar`), the username check more than that
(`username_grammar_iff`).

`reports_right_error_iff` follows one submission through both halves of `processInput` and
says when the flags it leaves name the right errors.
-/

namespace Pindex

open DocStore Pattern

/-! ## The language of the checks -/

/-- The characters that a dot matches are those that are not line terminators. -/
def SingleLine (s : String) : Prop := ∀ c ∈ s.toList, (!isLineTerminator c) = true

instance : DecidablePred SingleLine := fun s =>
  List.decidableBAll (fun c => (!isLineTerminator c) = true) s.toList

/-- The lookahead `(?=.*[c])` before a pattern that matches single lines only. -/
theorem matches_containsAhead {c : Char → Bool} {r : Pattern Char} {w v : List Char}
    (hr : Matches r w v → ∀ a ∈ w, (!isLineTerminator a) = true) :
    Matches (.seq (containsAhead c) r) w v ↔ (∃ a ∈ w, c a = true) ∧ Matches r w v := by
  rw [containsAhead, dot, matches_lookahead_seq]
  exact and_congr_left fun hmatch => exists_matches_symbol (hr hmatch)

theorem isUsernameValid_iff {username : String} : isUsernameValid username = true ↔
    (∃ c ∈ username.toList, c.isAlphanum = true) ∧
      5 ≤ username.length ∧ username.length ≤ 20 ∧ SingleLine username := by
  have hbetween {w : List Char} : Matches (.between dot 5 20) w [] ↔
      5 ≤ w.length ∧ w.length ≤ 20 ∧ ∀ a ∈ w, (!isLineTerminator a) = true :=
    matches_between_symbol (by omega)
  rw [isUsernameValid, wholeMatch_iff, usernameRegexPattern,
    matches_containsAhead fun h => (hbetween.mp h).2.2, hbetween, String.length_toList]
  rfl

theorem isPasswordValid_iff {password : String} : isPasswordValid password = true ↔
    (∃ c ∈ password.toList, c.isUpper = true) ∧ (∃ c ∈ password.toList, c.isDigit = true) ∧
      (∃ c ∈ password.toList, c.isLower = true) ∧ 8 ≤ password.length ∧ SingleLine password := by
  have hatLeast {w : List Char} : Matches (.atLeast dot 8) w [] ↔
      8 ≤ w.length ∧ ∀ a ∈ w, (!isLineTerminator a) = true :=
    matches_atLeast_symbol
  have hlower {w : List Char} := matches_containsAhead (c := Char.isLower) (w := w)
    (r := .atLeast dot 8) (v := []) fun h => (hatLeast.mp h).2
  have hdigit {w : List Char} := matches_containsAhead (c := Char.isDigit) (w := w)
    (r := .seq (containsAhead Char.isLower) (.atLeast dot 8)) (v := [])
    fun h => (hatLeast.mp (hlower.mp h).2).2
  rw [isPasswordValid, wholeMatch_iff, passwordRegexPattern,
    matches_containsAhead fun h => (hatLeast.mp (hlower.mp (hdigit.mp h).2).2).2, hdigit, hlower,
    hatLeast, String.length_toList]
  rfl

/-- What the error text says of a username: "between 5-20 characters (only digits and
letters allowed)". -/
def UsernameSpec (username : String) : Prop :=
  5 ≤ username.length ∧ username.length ≤ 20 ∧ ∀ c ∈ username.toList, c.isAlphanum = true

theorem not_isLineTerminator_of_isAlphanum {c : Char} (h : c.isAlphanum = true) :
    (!isLineTerminator c) = true := by
  change ((decide ('A'.val ≤ c.val ∧ c.val ≤ 'Z'.val) ||
    decide ('a'.val ≤ c.val) && decide (c.val ≤ 'z'.val)) ||
    decide ('0'.val ≤ c.val) && decide (c.val ≤ '9'.val)) = true at h
  simp only [Bool.or_eq_true, Bool.and_eq_true, decide_eq_true_eq, UInt32.le_iff_toNat_le] at h
  change ((65 ≤ c.toNat ∧ c.toNat ≤ 90) ∨ (97 ≤ c.toNat ∧ c.toNat ≤ 122)) ∨
    (48 ≤ c.toNat ∧ c.toNat ≤ 57) at h
  have hne : c.toNat ≠ 0x85 ∧ c.toNat ≠ 0x2028 ∧ c.toNat ≠ 0x2029 := by omega
  have hlt : ¬ c.toNat ≤ 0x0D := by omega
  simp [isLineTerminator, hne, hlt]

/-- Whatever meets the error text is accepted. -/
theorem UsernameSpec.isUsernameValid {username : String} (h : UsernameSpec username) :
    isUsernameValid username = true := by
  obtain ⟨hfive, htwenty, hall⟩ := h
  rw [isUsernameValid_iff]
  refine ⟨?_, hfive, htwenty, fun c hc => not_isLineTerminator_of_isAlphanum (hall c hc)⟩
  have hne : username.toList ≠ [] := by
    intro hnil
    rw [← String.length_toList, hnil, List.length_nil] at hfive
    omega
  obtain ⟨c, hc⟩ := List.exists_mem_of_ne_nil _ hne
  exact ⟨c, hc, hall c hc⟩

/-- The lookahead asks for one letter or digit and the dots take any character, so the check
goes wrong exactly on the lines of a right length that mix a letter or digit with
something else. -/
theorem username_grammar_iff (username : String) :
    (isUsernameValid username = true ↔ UsernameSpec username) ↔
      ¬ (5 ≤ username.length ∧ username.length ≤ 20 ∧ SingleLine username ∧
        (∃ c ∈ username.toList, c.isAlphanum = true) ∧
        ∃ c ∈ username.toList, c.isAlphanum = false) := by
  constructor
  · rintro hiff ⟨hfive, htwenty, hline, hsome, c, hc, hother⟩
    have hvalid : isUsernameValid username = true :=
      isUsernameValid_iff.mpr ⟨hsome, hfive, htwenty, hline⟩
    have halnum := (hiff.mp hvalid).2.2 c hc
    simp [hother] at halnum
  · intro hnot
    refine ⟨fun hvalid => ?_, UsernameSpec.isUsernameValid⟩
    obtain ⟨hsome, hfive, htwenty, hline⟩ := isUsernameValid_iff.mp hvalid
    refine ⟨hfive, htwenty, fun c hc => ?_⟩
    by_contra hother
    exact hnot ⟨hfive, htwenty, hline, hsome, c, hc, by simpa using hother⟩

/-- An exclamation mark is neither a letter nor a digit. -/
theorem alice_bang_is_valid :
    ¬ ∀ username : String, isUsernameValid username = true ↔ UsernameSpec username := by
  intro hall
  have hspec := (hall "alice!").mp (by decide)
  exact absurd (hspec.2.2 '!' (by decide)) (by decide)

/-- The password check accepts what its comment says: on one line, 8 characters or more with
an upper case letter, a lower case letter and a digit, in any order. -/
theorem password_grammar (password : String) (hline : SingleLine password) :
    isPasswordValid password = true ↔
      8 ≤ password.length ∧ (∃ c ∈ password.toList, c.isUpper = true) ∧
        (∃ c ∈ password.toList, c.isLower = true) ∧ ∃ c ∈ password.toList, c.isDigit = true := by
  rw [isPasswordValid_iff]
  constructor
  · rintro ⟨hupper, hdigit, hlower, hlength, -⟩
    exact ⟨hlength, hupper, hlower, hdigit⟩
  · rintro ⟨hlength, hupper, hlower, hdigit⟩
    exact ⟨hupper, hdigit, hlower, hlength, hline⟩

theorem gryffindor_grammar : isPasswordValid "Gryffindor01" = true ↔
    8 ≤ "Gryffindor01".length ∧ (∃ c ∈ "Gryffindor01".toList, c.isUpper = true) ∧
      (∃ c ∈ "Gryffindor01".toList, c.isLower = true) ∧
      ∃ c ∈ "Gryffindor01".toList, c.isDigit = true :=
  password_grammar "Gryffindor01" (by decide)

/-! ## Which error a submission reports -/

namespace CreateAccountView

/-- A `User` document with this `Username` exists. -/
def UsernameTaken (users : Collection Value) (username : String) : Prop :=
  ∃ document ∈ users.docs, document.get? "Username" = some (.string username)

/-- One submission of a form while nothing else happens: the view after `processInput` and,
if it asked for the username, the completion, and the document that it adds. -/
inductive Submission (P : Platform) (users : Collection Value) (view : CreateAccountView) :
    CreateAccountView → Option (Fields Value) → Prop
  | unasked (query : (view.processInput P).2 = none) :
      Submission P users view (view.processInput P).1 none
  | asked {username : String} {r : Response Value} {view' : CreateAccountView}
      {out : Option (Fields Value)} (query : (view.processInput P).2 = some username)
      (delivered : users.Delivers (usernameQuery username) users.docs.length r)
      (noError : r.err = none)
      (completion : (view.processInput P).1.processInputCompletion P users.nextId r =
        some (view', out)) :
      Submission P users view view' out

/-- The flags that are set name what is wrong, and the account is created when nothing is. -/
structure ReportsRightError (P : Platform) (users : Collection Value)
    (view view' : CreateAccountView) (out : Option (Fields Value)) : Prop where
  usernameFormat :
    view'.displayUsernameFormatError = true ↔ isUsernameValid view.username = false
  passwordFormat :
    view'.displayPasswordFormatError = true ↔ isPasswordValid view.password = false
  passwordsMatch : view'.displayPasswordsMatchError = true ↔
    isPasswordMatch P view.password view.confirmPassword = false
  username : isUsernameValid view.username = true → isPasswordValid view.password = true →
    (view'.displayUsernameError = true ↔ UsernameTaken users view.username)
  added : out.isSome ↔ view'.displayUsernameFormatError = false ∧
    view'.displayPasswordFormatError = false ∧ view'.displayPasswordsMatchError = false ∧
    view'.displayUsernameError = false

variable {P : Platform} {users : Collection Value} {view view' : CreateAccountView}
  {out : Option (Fields Value)}

/-- The answer to the query is empty exactly when the username is free. -/
theorem usernameQuery_answers {username : String} {documents : List (Document Value)}
    (h : users.Answers (usernameQuery username) users.docs.length documents) :
    documents ≠ [] ↔ UsernameTaken users username := by
  rw [Collection.answers_now] at h
  constructor
  · intro hne
    obtain ⟨document, hmem⟩ := List.exists_mem_of_ne_nil _ hne
    have hfound := List.mem_filter.mp (h.mem_iff.mp hmem)
    refine ⟨document, hfound.1, ?_⟩
    simpa [usernameQuery] using hfound.2
  · rintro ⟨document, hmem, hname⟩ rfl
    have hfound : document ∈ users.docs.filter fun d => (usernameQuery username).Matches d :=
      List.mem_filter.mpr ⟨hmem, by simpa [usernameQuery] using hname⟩
    exact absurd (h.mem_iff.mpr hfound) List.not_mem_nil

/-- What a submission can come to: no query, the account, or "That username already
exists!". -/
theorem Submission.cases (h : Submission P users view view' out) :
    (¬ (isUsernameValid view.username = true ∧ isPasswordValid view.password = true) ∧
      view' = (view.processInput P).1 ∧ out = none) ∨
    ((isUsernameValid view.username = true ∧ isPasswordValid view.password = true) ∧
      (isPasswordMatch P view.password view.confirmPassword = true ∧
        ¬ UsernameTaken users view.username) ∧
      view' = { (view.processInput P).1 with ref := some users.nextId, dismissed := true } ∧
      out.isSome) ∨
    ((isUsernameValid view.username = true ∧ isPasswordValid view.password = true) ∧
      ¬ (isPasswordMatch P view.password view.confirmPassword = true ∧
        ¬ UsernameTaken users view.username) ∧
      view' = { (view.processInput P).1 with displayUsernameError := true } ∧ out = none) := by
  cases h with
  | unasked query =>
    refine .inl ⟨fun ⟨husername, hpassword⟩ => ?_, rfl, rfl⟩
    have hasked : (view.processInput P).2 = some view.username :=
      processInput_query.mpr ⟨husername, hpassword, rfl⟩
    simp [query] at hasked
  | @asked _ r _ _ query delivered noError completion =>
    right
    obtain ⟨husername, hpassword, rfl⟩ := processInput_query.mp query
    obtain ⟨documents, hdocs, hanswer⟩ := delivered noError
    have htaken := usernameQuery_answers hanswer
    by_cases hcreate : isPasswordMatch P view.password view.confirmPassword = true ∧
        ¬ UsernameTaken users view.username
    · left
      have hnil : documents = [] := by
        by_contra hne
        exact hcreate.2 (htaken.mp hne)
      have hc : (view.processInput P).1.Creates P r := by
        rw [processInput_view]
        exact ⟨noError, hnil ▸ hdocs, by simp [hcreate.1], by simp [husername],
          by simp [hpassword], rfl, hcreate.1⟩
      rw [completion_of_creates hc, Option.some.injEq, Prod.mk.injEq] at completion
      obtain ⟨rfl, rfl⟩ := completion
      exact ⟨⟨husername, hpassword⟩, hcreate, rfl, rfl⟩
    · right
      have hbranch : documents ≠ [] ∨
          (view.processInput P).1.displayPasswordsMatchError = true := by
        by_cases hmatch : isPasswordMatch P view.password view.confirmPassword = true
        · left
          by_contra hnil
          exact hcreate ⟨hmatch, fun ht => htaken.mpr ht hnil⟩
        · right
          rw [processInput_view]
          simpa using hmatch
      rw [completion_of_taken noError hdocs hbranch, Option.some.injEq, Prod.mk.injEq]
        at completion
      obtain ⟨rfl, rfl⟩ := completion
      exact ⟨⟨husername, hpassword⟩, hcreate, rfl, rfl⟩

/-- Every form can be submitted. -/
theorem submission_exists (P : Platform) (users : Collection Value) (view : CreateAccountView) :
    ∃ view' out, Submission P users view view' out := by
  cases hquery : (view.processInput P).2 with
  | none => exact ⟨_, _, .unasked hquery⟩
  | some username =>
    have hdelivers : users.Delivers (usernameQuery username) users.docs.length
        (.snapshot (users.docs.filter fun d => (usernameQuery username).Matches d)) :=
      fun _ => ⟨_, rfl, Collection.answers_now.mpr (List.Perm.refl _)⟩
    have hsome : ((view.processInput P).1.processInputCompletion P users.nextId
        (.snapshot (users.docs.filter fun d => (usernameQuery username).Matches d))).isSome :=
      completion_isSome fun _ => Option.some_ne_none _
    obtain ⟨⟨view', out⟩, hcompletion⟩ := Option.isSome_iff_exists.mp hsome
    exact ⟨view', out, .asked hquery hdelivers rfl hcompletion⟩

/-- A submission is a tap on the form, and the completion of its query if there is one. -/
theorem Submission.steps {form : Form} (h : Submission P users form.view view' out) :
    (Form.Step P users form .tap (form.tap P users.docs.length) out ∧
      (form.tap P users.docs.length).view = view') ∨
    ∃ q r form', Form.Step P users form .tap (form.tap P users.docs.length) none ∧
      Form.Step P users (form.tap P users.docs.length) (.complete q r) form' out ∧
      form'.view = view' := by
  cases h with
  | unasked query => exact .inl ⟨.tap form, rfl⟩
  | @asked username r _ _ query delivered noError completion =>
    right
    have hpending : ⟨form.taps, username, users.docs.length⟩ ∈
        (form.tap P users.docs.length).pending := by
      show _ ∈ form.pending ++ _
      rw [query]
      exact List.mem_append_right _ (List.mem_singleton_self _)
    exact ⟨_, r, _, .tap form, .complete hpending delivered completion, rfl⟩

/-- The completion blames the username whenever the account is not created, so the flags go
wrong exactly for two different passwords under a valid form and a free username. -/
theorem reports_right_error_iff (h : Submission P users view view' out) :
    ReportsRightError P users view view' out ↔
      (isUsernameValid view.username = true → isPasswordValid view.password = true →
        isPasswordMatch P view.password view.confirmPassword = false →
          UsernameTaken users view.username) := by
  rcases h.cases with ⟨hformat, rfl, rfl⟩ | ⟨⟨husername, hpassword⟩, ⟨hmatch, hfree⟩, rfl, hout⟩ |
    ⟨⟨husername, hpassword⟩, hbranch, rfl, rfl⟩
  · refine ⟨fun _ hu hp _ => absurd ⟨hu, hp⟩ hformat, fun _ => ?_⟩
    rw [processInput_view]
    refine ⟨by simp, by simp, by simp, fun hu hp => absurd ⟨hu, hp⟩ hformat, ?_⟩
    simpa using fun hu hp => absurd ⟨hu, hp⟩ hformat
  · refine ⟨fun _ _ _ hdiffer => by simp [hmatch] at hdiffer, fun _ => ?_⟩
    rw [processInput_view]
    exact ⟨by simp, by simp, by simp, fun _ _ => by simpa using hfree,
      by simp [hout, husername, hpassword, hmatch]⟩
  · rw [processInput_view]
    constructor
    · intro hright _ _ _
      exact (hright.username husername hpassword).mp rfl
    · intro htaken
      have htaken' : UsernameTaken users view.username := by
        by_contra hfree
        refine hfree (htaken husername hpassword ?_)
        simpa using fun hmatch => hbranch ⟨hmatch, hfree⟩
      exact ⟨by simp, by simp, by simp, fun _ _ => by simpa using htaken', by simp⟩

/-- A form whose two passwords differ, under a username nobody has. -/
def mistyped : CreateAccountView :=
  { username := "alice", password := "Passw0rd", confirmPassword := "Passw0rd1" }

theorem mistyped_submission : Submission .plain .empty mistyped
    { (mistyped.processInput .plain).1 with displayUsernameError := true } none :=
  .asked (r := .snapshot []) rfl (fun _ => ⟨[], rfl, 0, le_rfl, le_rfl, List.Perm.refl _⟩) rfl rfl

/-- The form with the password typed right. -/
def retyped : CreateAccountView := { mistyped with confirmPassword := "Passw0rd" }

/-- The submission creates the account and shows nothing. -/
theorem retyped_is_reported_right :
    ∃ view' out, Submission .plain .empty retyped view' out ∧
      ReportsRightError .plain .empty retyped view' out := by
  have hsubmission : Submission .plain .empty retyped _ _ :=
    .asked (r := .snapshot []) rfl (fun _ => ⟨[], rfl, 0, le_rfl, le_rfl, List.Perm.refl _⟩) rfl rfl
  exact ⟨_, _, hsubmission, (reports_right_error_iff hsubmission).mpr fun _ _ hdiffer =>
    absurd hdiffer (by decide)⟩

/-- The form says that the username exists, and there is no user. -/
theorem mistyped_is_blamed_on_username :
    ¬ ∀ (P : Platform) (users : Collection Value) (view view' : CreateAccountView)
      (out : Option (Fields Value)), Submission P users view view' out →
        ReportsRightError P users view view' out := by
  intro hall
  have hright := hall _ _ _ _ _ mistyped_submission
  obtain ⟨document, hmem, -⟩ := (hright.username (by decide) (by decide)).mp rfl
  exact absurd hmem List.not_mem_nil

end CreateAccountView

end Pindex
