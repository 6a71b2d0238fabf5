import Pindex.HashTheorems
import Pindex.PasswordTheorems
import Pindex.StoreTheorems

/-!
# Passwords in the store

`CreateAccountView` stores the hash of a password, and `LoginView` searches for the hash of
what is typed; nobody calls `verifyPassword`. With the `hashPassword` of `BCryptSwift`, the
search finds an account exactly when `verifyPassword` would accept what is typed for the
stored hash, in every world the app can bring about (`World.stored_password`), and any
password with the same key opens the account (`same_key_opens`).
-/

namespace Pindex

open DocStore Transition BCryptSwift

/-- `hashPassword` is the one of `BCryptSwift` for the salt of the app, where it does not trap. -/
def Platform.RunsBCrypt (P : Platform) : Prop := ∀ ⦃password : String⦄ ⦃hash : Option String⦄,
  BCryptSwift.hashPassword password salt = some hash → P.hashPassword password salt = hash

/-- On ASCII, canonical equivalence is equality. -/
def Platform.ComparesPlain (P : Platform) : Prop :=
  ∀ s t, IsPlain s → IsPlain t → (P.stringEq s t = true ↔ s = t)

/-- A platform for concrete runs. -/
def Platform.bcrypt : Platform where
  hashPassword password salt := (BCryptSwift.hashPassword password salt).getD none
  stringEq s t := s == t
  stringEq_equivalence := Platform.plain.stringEq_equivalence

theorem bcrypt_hashPassword (password salt : String) : Platform.bcrypt.hashPassword password salt =
    (BCryptSwift.hashPassword password salt).getD none := rfl

theorem bcrypt_runsBCrypt : Platform.bcrypt.RunsBCrypt := by
  intro password hash h
  rw [bcrypt_hashPassword, h, Option.getD_some]

theorem bcrypt_comparesPlain : Platform.bcrypt.ComparesPlain := fun _ _ _ _ => beq_iff_eq

variable {P : Platform} {password password' : String}

theorem passwordValue_of_hash (hP : P.RunsBCrypt) {hash : String}
    (h : BCryptSwift.hashPassword password salt = some (some hash)) :
    P.passwordValue password = .string hash := by
  unfold Platform.passwordValue
  rw [hP h]
  rfl

/-- What is stored for a password accepts exactly the passwords that are stored alike. -/
theorem verifyPassword_iff_passwordValue (hP : P.RunsBCrypt) (hEq : P.ComparesPlain)
    (hfits' : Fits password') {hash : String}
    (h : BCryptSwift.hashPassword password salt = some (some hash)) (hplain : IsPlain hash) :
    verifyPassword P.stringEq password' hash = some (some true) ↔
      P.passwordValue password' = .string hash := by
  obtain ⟨hash', hhash', hplain', -⟩ := hashPassword_salt hfits'
  rw [verifyPassword_hash h, hhash', passwordValue_of_hash hP hhash']
  show some (some (P.stringEq hash' hash)) = _ ↔ _
  rw [Option.some.injEq, Option.some.injEq, hEq _ _ hplain' hplain, Value.string.injEq]

theorem passwordValue_of_sameKey (hP : P.RunsBCrypt) (hfits : Fits password)
    (hfits' : Fits password') (hkey : SameKey password password') :
    P.passwordValue password = P.passwordValue password' := by
  obtain ⟨hash, hhash, -⟩ := hashPassword_salt hfits
  rw [passwordValue_of_hash hP hhash,
    passwordValue_of_hash hP ((hashPassword_salt_congr hfits hfits' hkey).symm.trans hhash)]

/-- With the `hashPassword` of `BCryptSwift`, `HashesKey` asks no more than that no two of the
passwords collide. -/
theorem hashesKey_iff (hP : P.RunsBCrypt) {S : String → Prop} (hS : ∀ p, S p → Fits p) :
    P.HashesKey S ↔ ∀ p p', S p → S p' →
      P.passwordValue p = P.passwordValue p' → SameKey p p' := by
  constructor
  · intro hkey p p' hp hp' heq
    exact (passwordValue_eq_iff hkey hp hp').mp heq
  · intro hinjective p p' hp hp'
    rw [keyWords_passwordData]
    constructor
    · intro heq
      refine hinjective p p' hp hp' ?_
      unfold Platform.passwordValue
      rw [heq]
    · intro hkey
      obtain ⟨hash, hhash, -⟩ := hashPassword_salt (hS p hp)
      rw [hP hhash, hP ((hashPassword_salt_congr (hS p hp) (hS p' hp') hkey).symm.trans hhash)]

/-- The account of a form opens with every password that has the key of the one it was
created with. -/
theorem same_key_opens (hP : P.RunsBCrypt) {view view' : CreateAccountView} {documentID : ℕ}
    {r : Response Value} {fields : Fields Value}
    (stored : view.processInputCompletion P documentID r = some (view', some fields))
    (hfits : Fits view.password) {login : LoginView} (hlogin : Fits login.password)
    (husername : login.username = view.username) (hkey : SameKey view.password login.password) :
    (login.query P).Matches ⟨documentID, fields⟩ := by
  obtain ⟨-, rfl⟩ := (CreateAccountView.completion_adds stored).mp rfl
  rw [LoginView.query, LoginView.credentialQuery_matches, Document.get?, Document.get?,
    CreateAccountView.userFields_username, CreateAccountView.userFields_password,
    passwordValue_of_sameKey hP hfits hlogin hkey, ← husername]
  exact ⟨rfl, rfl⟩

/-- What is typed behind the 72nd byte does not lock anybody out. -/
theorem gryffindors_open : ∃ view login, view.password = gryffindors ++ "!" ∧
    login.password = gryffindors ∧
      (LoginView.query .bcrypt login).Matches ⟨0, CreateAccountView.userFields .bcrypt view⟩ := by
  let view := registration (gryffindors ++ "!") (gryffindors ++ "!")
  let login : LoginView := { username := "harry", password := gryffindors }
  have hbytes : utf8 view.password = utf8 gryffindors ++ utf8 "!" := utf8_append _ _
  have hlength : (utf8 gryffindors).length = 72 := by decide
  -- 72 bytes are the same, and no more are used
  have hkey : SameKey view.password login.password := by
    refine (sameKey_iff (by decide) (by decide)).mpr (.inr ⟨?_, hlength.ge, ?_⟩)
    · rw [hbytes, List.length_append]
      omega
    · rw [hbytes, List.take_append_of_le_length hlength.ge]
  have hstored := registration_stored (Platform.bcrypt.stringEq_equivalence.refl view.password)
  exact ⟨view, login, rfl, rfl, same_key_opens bcrypt_runsBCrypt hstored (by decide) (by decide)
    rfl hkey⟩

namespace World

variable {w₀ w : World} {d : Document Value}

theorem exists_form_of_reaches (hi : w₀.Initial) (hempty : (w₀.store .user).docs = [])
    (h : Reaches (Step P) w₀ w) :
    ∀ d ∈ (w.store .user).sent, ∃ view : CreateAccountView, d.data = view.userFields P := by
  refine h.invariant (I := fun w => ∀ d ∈ (w.store .user).sent,
    ∃ view : CreateAccountView, d.data = view.userFields P) ?_
    fun _ _ _ ih step => (step.store_evolves .user).schema (fun _ hw => hw) ih
  intro d hd
  rw [Collection.sent, hempty, hi.inFlight] at hd
  cases hd

/-- In every world that the app brings about from empty collections, every account was
created from some form, and the search of a login finds it exactly when `verifyPassword`
accepts what is typed for the hash in it, a text of 60 characters that starts with the salt. -/
theorem stored_password (hP : P.RunsBCrypt) (hEq : P.ComparesPlain) (hi : w₀.Initial)
    (hempty : (w₀.store .user).docs = []) (h : Reaches (Step P) w₀ w)
    (hd : d ∈ (w.store .user).docs) :
    (∃ view : CreateAccountView, d.data = view.userFields P) ∧
    ∀ view : CreateAccountView, d.data = view.userFields P → Fits view.password → ∃ hash,
      d.get? "Password" = some (.string hash) ∧ hash.toList.length = 60 ∧
      salt.toList <+: hash.toList ∧ ∀ login : LoginView, Fits login.password →
        ((login.query P).Matches d ↔ view.username = login.username ∧
          verifyPassword P.stringEq login.password hash = some (some true)) := by
  refine ⟨exists_form_of_reaches hi hempty h d (Collection.mem_sent_of_mem_docs hd),
    fun view hview hfits => ?_⟩
  have husername : d.get? "Username" = some (.string view.username) := by
    rw [Document.get?, hview, CreateAccountView.userFields_username]
  obtain ⟨hash, hhash, hplain, hlen, hprefix⟩ := hashPassword_salt hfits
  have hpassword : d.get? "Password" = some (.string hash) := by
    rw [Document.get?, hview, CreateAccountView.userFields_password, passwordValue_of_hash hP hhash]
  refine ⟨hash, hpassword, hlen, hprefix, fun login hlogin => ?_⟩
  rw [LoginView.query, LoginView.credentialQuery_matches, husername, hpassword,
    verifyPassword_iff_passwordValue hP hEq hlogin hhash hplain, Option.some.injEq,
    Option.some.injEq, Value.string.injEq]
  exact and_congr_right fun _ => eq_comm

/-- The account that a form creates is stored under the next identifier. -/
theorem exists_stored {c f : ℕ} {q : UserQuery} {r : Response Value} {w' : World}
    (step : Step P w (.client c (.form f (.complete q r))) w')
    (hc : (w.form c f).view.Creates P r) : ∃ w₁, Reaches (Step P) w w₁ ∧
      ⟨(w.store .user).nextId, (w.form c f).view.userFields P⟩ ∈ (w₁.store .user).docs := by
  have hadds : w'.store .user = (w.store .user).add ((w.form c f).view.userFields P) :=
    (addsUser_iff step).mpr ⟨hc, rfl⟩
  have hsent : ⟨(w.store .user).nextId, (w.form c f).view.userFields P⟩ ∈
      (w'.store .user).inFlight := by
    rw [hadds]
    exact List.mem_append_right _ (List.mem_singleton_self _)
  refine ⟨_, ((Reaches.refl w).step step).step (.commit .user _ hsent), ?_⟩
  dsimp only
  rw [Function.update_self, Collection.docs_commit]
  exact List.mem_append_right _ (List.mem_singleton_self _)

/-- `alice` registers, and whoever types a password that her hash accepts gets in. -/
theorem alice_is_verified : ∃ w d, Reaches (Step .bcrypt) empty w ∧ d ∈ (w.store .user).docs ∧
    ∃ username hash, d.get? "Password" = some (.string hash) ∧ ∀ login : LoginView,
      Fits login.password → ((login.query .bcrypt).Matches d ↔ username = login.username ∧
        verifyPassword Platform.bcrypt.stringEq login.password hash = some (some true)) := by
  obtain ⟨w, w', hreach, hregister, hcreates, hfits⟩ : ∃ w w', Reaches (Step .bcrypt) empty w ∧
      Step .bcrypt w (.client 0 (.form 0 (.complete ⟨0, "alice", 0⟩ (.snapshot [])))) w' ∧
      (w.form 0 0).view.Creates .bcrypt (.snapshot []) ∧ Fits (w.form 0 0).view.password := by
    refine ⟨empty.after .bcrypt (typing 0 0 "alice" "Passw0rd" ++ [.client 0 (.form 0 .tap)]), _,
      (run_trace .bcrypt empty _ (by decide)).reaches, step_next .bcrypt _ _ (by decide), ?_, ?_⟩
    · exact ⟨rfl, rfl, by decide, by decide, by decide, by decide, by decide⟩
    · decide
  obtain ⟨w₁, hlater, hstored⟩ := exists_stored hregister hcreates
  have hreached := hreach.trans hlater
  obtain ⟨hash, hpassword, -, -, hverifies⟩ := (stored_password bcrypt_runsBCrypt
    bcrypt_comparesPlain initial_empty rfl hreached hstored).2 _ rfl hfits
  exact ⟨w₁, _, hreached, hstored, _, hash, hpassword, hverifies⟩

end World

end Pindex
