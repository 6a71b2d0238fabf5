import Mathlib.Data.List.Induction
import Mathlib.Logic.Function.Basic
import Pindex.Platform

/-!
# `LoginView`: logging in, and the session of a device

A tap on Login issues a query for the username and the password's hash. Its completion
writes the global `account` from every document of the snapshot and then opens `MapView`
if `account` is not nil. Log Out, on `MapView`, sets `account` to nil and shows a fresh
`LoginView`.

A `Session` is the global `account` of a device together with the chain of `LoginView`s
that Log Out builds and their pending queries; `Session.Step` is everything that can
happen to it.
-/

namespace Pindex

open DocStore

structure UserAccount where
  fName : String
  lName : String
  username : String
deriving DecidableEq, Repr

/-- `UserAccount.init` with its three forced casts; `none` is a trap. -/
def UserAccount.ofDocument (document : Document Value) : Option UserAccount := do
  let fName ← stringField document "First_Name"
  let lName ← stringField document "Last_Name"
  let username ← stringField document "Username"
  some { fName, lName, username }

/-- The `@State` of a login screen. -/
structure LoginView where
  username : String := ""
  password : String := ""
  switchView : Bool := false
  isLoggedIn : Bool := false
  displayLoginError : Bool := false

namespace LoginView

/-- `collection("User")` restricted to a username and a stored password. -/
def credentialQuery (username : String) (password : Value) : Query Value :=
  (Query.all.whereField "Username" (.string username)).whereField "Password" password

theorem credentialQuery_matches {username : String} {password : Value} {d : Document Value} :
    (credentialQuery username password).Matches d ↔
      d.get? "Username" = some (.string username) ∧ d.get? "Password" = some password := by
  simp [credentialQuery]

/-- What a tap on Login submits. -/
def login (P : Platform) (view : LoginView) : String × Value :=
  (view.username, P.passwordValue view.password)

/-- The query's completion: the global `account` and the view afterwards. `none` is a
trap. -/
def loginCompletion (r : Response Value) (account : Option UserAccount) (view : LoginView) :
    Option (Option UserAccount × LoginView) :=
  match r.err with
  | some _ => some (account, view)
  | none => do
    -- `querySnapshot!`
    let documents ← r.querySnapshot
    let account ← documents.foldlM
      (fun _ document => (UserAccount.ofDocument document).map some) account
    -- `account != nil`
    if account.isSome then
      some (account,
        { view with isLoggedIn := true, displayLoginError := false, switchView := true })
    else
      some (account, { view with displayLoginError := true })

/-! ## What the completion does -/

/-- The account left by the loop over a snapshot: the one of its last document. -/
def lastAccount (documents : List (Document Value)) (account : Option UserAccount) :
    Option UserAccount :=
  match documents.getLast? with
  | some document => UserAccount.ofDocument document
  | none => account

@[simp] theorem lastAccount_nil (account : Option UserAccount) :
    lastAccount [] account = account := rfl

@[simp] theorem lastAccount_concat (documents : List (Document Value))
    (document : Document Value) (account : Option UserAccount) :
    lastAccount (documents ++ [document]) account = UserAccount.ofDocument document := by
  simp [lastAccount]

/-- The loop runs through exactly when every document casts. -/
theorem foldlM_account (documents : List (Document Value))
    (account account' : Option UserAccount) :
    documents.foldlM (fun _ document => (UserAccount.ofDocument document).map some) account =
        some account' ↔
      (∀ document ∈ documents, (UserAccount.ofDocument document).isSome) ∧
        account' = lastAccount documents account := by
  induction documents using List.reverseRecOn generalizing account' with
  | nil =>
    simp only [List.foldlM_nil, Option.pure_def, Option.some.injEq, List.not_mem_nil,
      false_implies, implies_true, true_and, lastAccount_nil]
    exact eq_comm
  | append_singleton documents document ih =>
    simp only [List.foldlM_append, List.foldlM_cons, List.foldlM_nil, Option.bind_eq_bind,
      Option.bind_eq_some_iff, Option.pure_def, lastAccount_concat, List.forall_mem_append,
      List.forall_mem_singleton]
    constructor
    · rintro ⟨a, ha, b, hb, hab⟩
      obtain rfl := Option.some.inj hab
      rw [ih] at ha
      obtain ⟨u, hu, rfl⟩ := Option.map_eq_some_iff.mp hb
      exact ⟨⟨ha.1, by simp [hu]⟩, hu.symm⟩
    · rintro ⟨⟨hall, hlast⟩, rfl⟩
      obtain ⟨u, hu⟩ := Option.isSome_iff_exists.mp hlast
      exact ⟨_, (ih _).mpr ⟨hall, rfl⟩, some u, by rw [hu]; rfl, by rw [hu]⟩

/-- After a snapshot whose documents cast, some account is set unless the snapshot is
empty and none was before. -/
theorem isSome_lastAccount {documents : List (Document Value)}
    (h : ∀ document ∈ documents, (UserAccount.ofDocument document).isSome)
    (account : Option UserAccount) :
    (lastAccount documents account).isSome ↔ documents ≠ [] ∨ account.isSome := by
  induction documents using List.reverseRecOn with
  | nil => simp
  | append_singleton documents document => simp [h document (by simp)]

variable {r : Response Value} {account account' : Option UserAccount} {view view' : LoginView}

/-- Everything a completion can do: report the error, or run through its snapshot. -/
theorem completion_cases (h : view.loginCompletion r account = some (account', view')) :
    (r.err ≠ none ∧ account' = account ∧ view' = view) ∨
    (r.err = none ∧ ∃ documents, r.querySnapshot = some documents ∧
      (∀ document ∈ documents, (UserAccount.ofDocument document).isSome) ∧
      account' = lastAccount documents account ∧
      view' = if account'.isSome then
          { view with isLoggedIn := true, displayLoginError := false, switchView := true }
        else { view with displayLoginError := true }) := by
  unfold loginCompletion at h
  split at h
  · rename_i e he
    simp only [Option.some.injEq, Prod.mk.injEq] at h
    exact .inl ⟨by simp [he], h.1.symm, h.2.symm⟩
  · rename_i herr
    simp only [Option.bind_eq_bind, Option.bind_eq_some_iff] at h
    obtain ⟨documents, hdocs, a, hloop, hif⟩ := h
    obtain ⟨hall, rfl⟩ := (foldlM_account _ _ _).mp hloop
    refine .inr ⟨herr, documents, hdocs, hall, ?_⟩
    split at hif
    · rename_i hsome
      simp only [Option.some.injEq, Prod.mk.injEq] at hif
      obtain ⟨rfl, rfl⟩ := hif
      exact ⟨rfl, by rw [if_pos hsome]⟩
    · rename_i hnone
      simp only [Option.some.injEq, Prod.mk.injEq] at hif
      obtain ⟨rfl, rfl⟩ := hif
      exact ⟨rfl, by rw [if_neg hnone]⟩

/-- The completion runs through when it is called with an error, or with a snapshot
whose documents all cast. -/
theorem completion_isSome (h : r.err = none → ∃ documents, r.querySnapshot = some documents ∧
    ∀ document ∈ documents, (UserAccount.ofDocument document).isSome) :
    (view.loginCompletion r account).isSome := by
  unfold loginCompletion
  split
  · rfl
  · rename_i herr
    obtain ⟨documents, hdocs, hall⟩ := h herr
    have hloop := (foldlM_account documents account _).mpr ⟨hall, rfl⟩
    simp only [hdocs, Option.bind_eq_bind, Option.bind_some, hloop]
    split <;> rfl

end LoginView

/-! ## The session of a device -/

/-- A pending login attempt: the login screen it was tapped on, what it submitted and
the size of the `User` collection at the call. -/
structure Attempt where
  view : ℕ
  username : String
  password : Value
  since : ℕ
deriving DecidableEq, Repr

def Attempt.query (q : Attempt) : Query Value :=
  LoginView.credentialQuery q.username q.password

/-- The global `account` and the chain of login screens: screen `0` is the one the scene
shows, and Log Out on the `MapView` opened from screen `top` shows screen `top + 1`. -/
structure Session where
  account : Option UserAccount := none
  views : ℕ → LoginView := fun _ => {}
  top : ℕ := 0
  pending : List Attempt := []

inductive SessionEvent where
  | editUsername (text : String)
  | editPassword (text : String)
  | login
  | complete (q : Attempt) (r : Response Value)
  | logOut

namespace Session

/-- The last login screen has opened its `MapView`. -/
def mapOpen (s : Session) : Bool := (s.views s.top).switchView

/-- The attempt a tap on Login issues while `User` has `since` documents. -/
def attempt (P : Platform) (since : ℕ) (s : Session) : Attempt where
  view := s.top
  username := ((s.views s.top).login P).1
  password := ((s.views s.top).login P).2
  since := since

/-- Log Out on the open `MapView`: `isLoggedIn` is bound to the screen below it. -/
def logOut (s : Session) : Session where
  account := none
  views := Function.update
    (Function.update s.views s.top { s.views s.top with isLoggedIn := false }) (s.top + 1) {}
  top := s.top + 1
  pending := s.pending

/-- One event of a session, next to a `User` collection. -/
inductive Step (P : Platform) (users : Collection Value) :
    Session → SessionEvent → Session → Prop
  | editUsername (s : Session) (text : String) (shown : s.mapOpen = false) :
      Step P users s (.editUsername text) { s with
        views := Function.update s.views s.top { s.views s.top with username := text } }
  | editPassword (s : Session) (text : String) (shown : s.mapOpen = false) :
      Step P users s (.editPassword text) { s with
        views := Function.update s.views s.top { s.views s.top with password := text } }
  | login (s : Session) (shown : s.mapOpen = false) :
      Step P users s .login { s with pending := s.pending ++ [s.attempt P users.docs.length] }
  | complete {s : Session} {q : Attempt} {r : Response Value} {account : Option UserAccount}
      {view : LoginView} (pending : q ∈ s.pending) (delivered : users.Delivers q.query q.since r)
      (completion : (s.views q.view).loginCompletion r s.account = some (account, view)) :
      Step P users s (.complete q r) { s with
        account := account
        views := Function.update s.views q.view view
        pending := s.pending.erase q }
  | logOut (s : Session) (shown : s.mapOpen = true) : Step P users s .logOut s.logOut

/-- The event is a completion that traps. -/
def Traps (users : Collection Value) (s : Session) : SessionEvent → Prop
  | .complete q r => q ∈ s.pending ∧ users.Delivers q.query q.since r ∧
      (s.views q.view).loginCompletion r s.account = none
  | _ => False

end Session

end Pindex
