import Pindex.Replay

/-!
# Registration: what `processInput` guarantees, and when

The username check is a query, and the document is added by the query's completion from
whatever the form holds by then. Three laws are stated over every run of the world, each
with the exact condition under which a run keeps it:

* the stored document passes the input checks and has the username that was searched
  for (`stores_valid_users_iff`);
* no two `User` documents have the same username (`usernames_distinct_iff`);
* a submission's outcome does not depend on the other submissions of the form
  (`submission_registers_iff`).

Each is followed by a run that keeps the law and a run that breaks it.
-/

namespace Pindex

open DocStore Transition

namespace World

variable {P : Platform} {w₀ w w₁ w₂ w₃ : World} {tr : List (Move World Event)}

/-! ## The stored document passes the checks -/

/-- A pending query searches for a username that was valid at the tap. -/
theorem pending_username_valid (hi : w₀.Initial) (h : Reaches (Step P) w₀ w) (c f : ℕ) :
    ∀ q ∈ (w.form c f).pending, isUsernameValid q.username = true := by
  refine h.invariant (I := fun w => ∀ q ∈ (w.form c f).pending,
    isUsernameValid q.username = true) ?_ ?_
  · simp [form, hi.clients c]
  · intro w e w' ih step q hq
    rcases step.form_cases c f with ⟨hsame, -⟩ | ⟨fe, out, -, hstep, -⟩
    · exact ih q (hsame ▸ hq)
    · generalize w'.form c f = form' at hstep hq
      cases hstep with
      | edit => exact ih q hq
      | complete => exact ih q (List.mem_of_mem_erase hq)
      | tap =>
        simp only [Form.tap, List.mem_append, Option.mem_toList, Option.map_eq_some_iff] at hq
        rcases hq with hq | ⟨username, hu, rfl⟩
        · exact ih q hq
        · obtain ⟨hvalid, -, rfl⟩ := CreateAccountView.processInput_query.mp hu
          exact hvalid

/-- The move adds a document with these fields to `User`. -/
def AddsUser (m : Move World Event) (fields : Fields Value) : Prop :=
  m.target.store .user = (m.source.store .user).add fields

/-- A completion of a form adds a document exactly in the creating branch, and then the
one built from the form's fields. -/
theorem addsUser_iff {c f : ℕ} {q : UserQuery} {r : Response Value}
    (step : Step P w (.client c (.form f (.complete q r))) w₁) {fields : Fields Value} :
    AddsUser ⟨w, .client c (.form f (.complete q r)), w₁⟩ fields ↔
      (w.form c f).view.Creates P r ∧ fields = (w.form c f).view.userFields P := by
  obtain ⟨-, -, view, out, completion, -, hstore⟩ := step.form_complete
  rw [← CreateAccountView.completion_adds completion, AddsUser, hstore]
  cases out with
  | none => simpa [Store.send] using (Collection.add_ne_self (w.store .user) fields).symm
  | some out => simp [Store.send]

/-- What registration promises of the document stored by the completion of `q`. -/
structure ValidUser (P : Platform) (q : UserQuery) (fields : Fields Value) : Prop where
  username : ∃ username, fields.lookup "Username" = some (.string username) ∧
    isUsernameValid username = true ∧ username = q.username
  password : ∃ password, fields.lookup "Password" = some (P.passwordValue password) ∧
    isPasswordValid password = true

/-- Every document a completion adds is valid. -/
def StoresValidUsers (P : Platform) (m : Move World Event) : Prop :=
  ∀ c f q r fields, m.event = .client c (.form f (.complete q r)) →
    AddsUser m fields → ValidUser P q fields

/-- When a completion creates an account, the username field still holds what the query
searched for, and the password field a string with the hash of an accepted password. -/
def FindsCheckedInput (P : Platform) (m : Move World Event) : Prop :=
  ∀ c f q r, m.event = .client c (.form f (.complete q r)) →
    (m.source.form c f).view.Creates P r →
    (m.source.form c f).view.username = q.username ∧
    ∃ password, isPasswordValid password = true ∧
      P.passwordValue password = P.passwordValue (m.source.form c f).view.password

theorem validUser_userFields {q : UserQuery} {view : CreateAccountView} :
    ValidUser P q (view.userFields P) ↔
      (isUsernameValid view.username = true ∧ view.username = q.username) ∧
      ∃ password, isPasswordValid password = true ∧
        P.passwordValue password = P.passwordValue view.password := by
  constructor
  · rintro ⟨⟨username, hu, hvalid, hq⟩, password, hp, hok⟩
    simp only [CreateAccountView.userFields_username, CreateAccountView.userFields_password,
      Option.some.injEq, Value.string.injEq] at hu hp
    exact ⟨⟨hu ▸ hvalid, hu.trans hq⟩, password, hok, hp.symm⟩
  · rintro ⟨⟨hvalid, hq⟩, password, hok, hp⟩
    exact ⟨⟨_, rfl, hvalid, hq⟩, password, congrArg some hp.symm, hok⟩

theorem storesValidUsers_iff (hi : w₀.Initial) {m : Move World Event}
    (h : Reaches (Step P) w₀ m.source) (step : Step P m.source m.event m.target) :
    StoresValidUsers P m ↔ FindsCheckedInput P m := by
  obtain ⟨w, e, w'⟩ := m
  constructor
  · rintro hm c f q r rfl hc
    have hvalid := hm c f q r _ rfl ((addsUser_iff step).mpr ⟨hc, rfl⟩)
    have hfields := validUser_userFields.mp hvalid
    exact ⟨hfields.1.2, hfields.2⟩
  · rintro hm c f q r fields rfl hadds
    obtain ⟨hc, rfl⟩ := (addsUser_iff step).mp hadds
    obtain ⟨hu, hp⟩ := hm c f q r rfl hc
    -- the query is pending, so its username passed the check at the tap
    have hvalid : isUsernameValid q.username = true :=
      pending_username_valid hi h c f q step.form_complete.1
    exact validUser_userFields.mpr ⟨⟨hu ▸ hvalid, hu⟩, hp⟩

/-- Every document that `processInput` adds in a run passes the checks, and has the
username its query did not find, exactly when every creating completion finds the input
that was checked. -/
theorem stores_valid_users_iff (hi : w₀.Initial) (run : Run (Step P) w₀ tr w) :
    (∀ m ∈ tr, StoresValidUsers P m) ↔ ∀ m ∈ tr, FindsCheckedInput P m := by
  have hiff : ∀ m ∈ tr, (StoresValidUsers P m ↔ FindsCheckedInput P m) := fun m hm =>
    storesValidUsers_iff hi (run.move_of_mem hm).1 (run.move_of_mem hm).2
  exact forall₂_congr hiff

/-- Typing a username, and one password twice, into form `f` of client `c`. -/
def typing (c f : ℕ) (username password : String) : List Event :=
  [.client c (.form f (.edit .username username)),
   .client c (.form f (.edit .password password)),
   .client c (.form f (.edit .confirmPassword password))]

/-- One submission of the first form, found to be free and stored. -/
def submission (username password : String) : List Event :=
  typing 0 0 username password ++
    [.client 0 (.form 0 .tap), .client 0 (.form 0 (.complete ⟨0, username, 0⟩ (.snapshot [])))]

/-- The only completion of a submission is its last move. -/
theorem forall_mem_submission {username password : String} {Q : Move World Event → Prop}
    (hother : ∀ m : Move World Event, (∀ c f q r, m.event ≠ .client c (.form f (.complete q r))) →
      Q m)
    (hcompletes : ∀ m : Move World Event,
      m.source = empty.after .plain (typing 0 0 username password ++ [.client 0 (.form 0 .tap)]) →
      m.event = .client 0 (.form 0 (.complete ⟨0, username, 0⟩ (.snapshot []))) → Q m) :
    ∀ m ∈ empty.trace .plain (submission username password), Q m := by
  simp only [submission, typing, trace, List.cons_append, List.nil_append, List.forall_mem_cons,
    List.not_mem_nil, false_implies, implies_true, and_true]
  exact ⟨hother _ (by simp), hother _ (by simp), hother _ (by simp), hother _ (by simp),
    hcompletes _ rfl rfl⟩

theorem submission_stores_valid_user :
    empty.replays .plain (submission "alice" "Passw0rd") ∧
    ∀ m ∈ empty.trace .plain (submission "alice" "Passw0rd"), StoresValidUsers .plain m := by
  have hreplays : empty.replays .plain (submission "alice" "Passw0rd") := by decide
  refine ⟨hreplays, (stores_valid_users_iff initial_empty (run_trace _ _ _ hreplays)).mpr ?_⟩
  refine forall_mem_submission (fun m hother c f q r he => absurd he (hother c f q r)) ?_
  intro m hsource hevent c f q r he _
  cases hevent.symm.trans he
  rw [hsource]
  exact ⟨rfl, "Passw0rd", by decide, rfl⟩

/-- The username is edited between the tap and the completion, and the new one is stored
although no check accepts it. -/
def editedSubmission : List Event :=
  typing 0 0 "alice" "Passw0rd" ++
    [.client 0 (.form 0 .tap), .client 0 (.form 0 (.edit .username "x"))]

theorem edited_submission_stores_invalid_user :
    ∃ tr w, empty.Initial ∧ Run (Step .plain) empty tr w ∧
      ¬ ∀ m ∈ tr, StoresValidUsers .plain m := by
  have hrun := run_trace .plain empty editedSubmission (by decide)
  have hlast := step_next .plain (empty.after .plain editedSubmission)
    (.client 0 (.form 0 (.complete ⟨0, "alice", 0⟩ (.snapshot [])))) (by decide)
  refine ⟨_, _, initial_empty, hrun.snoc hlast, fun hall => ?_⟩
  have hstored := hall _ (List.mem_append_right _ (List.mem_singleton_self _))
  have hfinds := (storesValidUsers_iff initial_empty hrun.reaches hlast).mp hstored
  -- the completion creates an account, and the username field holds "x" by then
  have hcreates : ((empty.after .plain editedSubmission).form 0 0).view.Creates .plain
      (.snapshot []) := ⟨rfl, rfl, rfl, rfl, rfl, rfl, rfl⟩
  have hsame := (hfinds 0 0 _ _ rfl hcreates).1
  exact absurd hsame (by decide)

/-! ## Usernames are distinct -/

/-- The usernames in a list of documents. -/
def usernames (docs : List (Document Value)) : List Value :=
  docs.filterMap fun d => d.get? "Username"

def DistinctUsernames (docs : List (Document Value)) : Prop := (usernames docs).Nodup

instance (docs : List (Document Value)) : Decidable (DistinctUsernames docs) :=
  inferInstanceAs (Decidable (usernames docs).Nodup)

theorem DistinctUsernames.perm {docs docs' : List (Document Value)} (h : docs.Perm docs') :
    DistinctUsernames docs ↔ DistinctUsernames docs' :=
  (h.filterMap _).nodup_iff

theorem DistinctUsernames.sublist {docs docs' : List (Document Value)} (h : docs.Sublist docs')
    (hdistinct : DistinctUsernames docs') : DistinctUsernames docs :=
  (h.filterMap _).nodup hdistinct

theorem distinctUsernames_concat {docs : List (Document Value)} {d : Document Value}
    {username : Value} (hd : d.get? "Username" = some username) :
    DistinctUsernames (docs ++ [d]) ↔
      DistinctUsernames docs ∧ ∀ d' ∈ docs, d'.get? "Username" ≠ some username := by
  have hsplit : usernames (docs ++ [d]) = usernames docs ++ [username] := by
    simp [usernames, hd]
  have hmem : username ∉ usernames docs ↔ ∀ d' ∈ docs, d'.get? "Username" ≠ some username := by
    simp [usernames]
  rw [DistinctUsernames, hsplit, List.nodup_append_comm, List.singleton_append,
    List.nodup_cons, hmem, and_comm]
  rfl

/-- The store applies one of the writes in flight to `User`. -/
def AppliesUser (P : Platform) (w : World) (e : Event) (w' : World) : Prop :=
  Step P w e w' ∧ ∃ d, e = .commit .user d

/-- Applying writes reorders what was sent. -/
theorem sent_applied (h : Reaches (AppliesUser P) w w₁) :
    (w₁.store .user).sent.Perm (w.store .user).sent := by
  refine h.invariant (I := fun u => (u.store .user).sent.Perm (w.store .user).sent)
    (List.Perm.refl _) ?_
  rintro u _ u' ih ⟨step, d, rfl⟩
  cases step with
  | commit _ _ sent =>
    have hcommit := (u.store .user).sent_commit_perm sent
    simpa using hcommit.trans ih

/-- All the writes in flight can be applied. -/
theorem exists_applied (P : Platform) (w : World) : ∃ w', Reaches (AppliesUser P) w w' ∧
    (w'.store .user).docs.Perm (w.store .user).sent := by
  -- the induction is on the number of writes in flight
  induction hn : (w.store .user).inFlight.length generalizing w with
  | zero =>
    have hnone : (w.store .user).inFlight = [] := List.length_eq_zero_iff.mp hn
    exact ⟨w, .refl w, by simp [Collection.sent, hnone]⟩
  | succ n ih =>
    obtain ⟨d, hd⟩ : ∃ d, d ∈ (w.store .user).inFlight :=
      List.exists_mem_of_length_pos (by omega)
    let w₁ : World :=
      { w with store := Function.update w.store .user ((w.store .user).commit d hd) }
    have hstep : AppliesUser P w (.commit .user d) w₁ := ⟨.commit .user d hd, d, rfl⟩
    have hstore : w₁.store .user = (w.store .user).commit d hd := by
      simp [w₁]
    have hlen : (w₁.store .user).inFlight.length = n := by
      rw [hstore]
      show ((w.store .user).inFlight.erase d).length = n
      rw [List.length_erase_of_mem hd, hn]
      omega
    obtain ⟨w', hreach, hperm⟩ := ih w₁ hlen
    refine ⟨w', ((Reaches.refl w).step hstep).trans hreach, hperm.trans ?_⟩
    rw [hstore]
    exact (w.store .user).sent_commit_perm hd

/-- Usernames stay distinct whatever the store applies next, exactly when those of the
documents written or in flight are distinct. -/
theorem distinctUsernames_sent : DistinctUsernames (w.store .user).sent ↔
    ∀ w', Reaches (AppliesUser P) w w' → DistinctUsernames (w'.store .user).docs := by
  constructor
  · intro h w' hreach
    have hsent : DistinctUsernames (w'.store .user).sent :=
      (DistinctUsernames.perm (sent_applied hreach)).mpr h
    exact hsent.sublist (List.sublist_append_left _ _)
  · intro h
    obtain ⟨w', hreach, hperm⟩ := exists_applied P w
    exact (DistinctUsernames.perm hperm).mp (h w' hreach)

/-- When a completion creates an account, no document written or in flight has the
username. -/
def FindsNameFree (P : Platform) (m : Move World Event) : Prop :=
  ∀ c f q r, m.event = .client c (.form f (.complete q r)) →
    (m.source.form c f).view.Creates P r →
    ∀ d ∈ (m.source.store .user).sent,
      d.get? "Username" ≠ some (.string (m.source.form c f).view.username)

/-- A step keeps the usernames sent distinct exactly when it does not create an account
under one of them. -/
theorem distinctUsernames_step {m : Move World Event}
    (h : DistinctUsernames (m.source.store .user).sent)
    (step : Step P m.source m.event m.target) :
    DistinctUsernames (m.target.store .user).sent ↔ FindsNameFree P m := by
  obtain ⟨w, e, w'⟩ := m
  rcases step.user_cases with hs | ⟨c, f, q, r, rfl, hc, hs⟩ | ⟨d, sent, rfl, hs⟩ | ⟨d, rfl, hs⟩
  · -- nothing was added, so no account was created
    refine iff_of_true (by rw [hs]; exact h) ?_
    rintro c f q r rfl hc
    have hadd : w'.store .user = (w.store .user).add _ := (addsUser_iff step).mpr ⟨hc, rfl⟩
    exact absurd (hadd.symm.trans hs) (Collection.add_ne_self _ _)
  · show DistinctUsernames (w'.store .user).sent ↔ _
    rw [hs, Collection.sent_add, distinctUsernames_concat rfl]
    constructor
    · rintro ⟨-, hfree⟩ c' f' q' r' he -
      cases he
      exact hfree
    · intro hfree
      exact ⟨h, hfree c f q r rfl hc⟩
  · have hperm : (w'.store .user).sent.Perm (w.store .user).sent := by
      rw [hs]
      exact (w.store .user).sent_commit_perm sent
    exact iff_of_true ((DistinctUsernames.perm hperm).mpr h) (by rintro c f q r ⟨⟩)
  · have hsub : (w'.store .user).sent.Sublist (w.store .user).sent := by
      rw [hs]
      exact (w.store .user).sent_reject_sublist
    exact iff_of_true (h.sublist hsub) (by rintro c f q r ⟨⟩)

/-- In a run from distinct usernames, no two `User` documents ever have the same username,
whatever the store applies next, exactly when every completion that creates an account
finds its username free. -/
theorem usernames_distinct_iff (hi : w₀.Initial) (h0 : DistinctUsernames (w₀.store .user).docs)
    (run : Run (Step P) w₀ tr w) :
    (∀ m ∈ tr, ∀ w', Reaches (AppliesUser P) m.target w' →
      DistinctUsernames (w'.store .user).docs) ↔ ∀ m ∈ tr, FindsNameFree P m := by
  have h0' : DistinctUsernames (w₀.store .user).sent := by
    rw [Collection.sent, hi.inFlight .user, List.append_nil]
    exact h0
  have hsent := run.forall_target_iff (P := fun w => DistinctUsernames (w.store .user).sent) h0'
    fun m _ h step => distinctUsernames_step h step
  rw [← hsent]
  exact forall₂_congr fun m _ => distinctUsernames_sent.symm

/-- Two devices register two users, and both documents are stored. -/
def twoSubmissions : List Event :=
  let document (id : ℕ) (username : String) : Document Value :=
    ⟨id, CreateAccountView.userFields .plain
      { username := username, password := "Passw0rd", confirmPassword := "Passw0rd" }⟩
  submission "alice" "Passw0rd" ++ typing 1 0 "bobby" "Passw0rd" ++
    [.client 1 (.form 0 .tap), .client 1 (.form 0 (.complete ⟨0, "bobby", 0⟩ (.snapshot []))),
     .commit .user (document 1 "alice"), .commit .user (document 2 "bobby")]

theorem submissions_keep_usernames_distinct : empty.replays .plain twoSubmissions ∧
    usernames ((empty.after .plain twoSubmissions).store .user).docs =
      [.string "alice", .string "bobby"] ∧
    ∀ m ∈ empty.trace .plain twoSubmissions, ∀ w',
      Reaches (AppliesUser .plain) m.target w' → DistinctUsernames (w'.store .user).docs := by
  have hreplays : empty.replays .plain twoSubmissions := by decide
  have h0 : DistinctUsernames (empty.store .user).docs := List.nodup_nil
  refine ⟨hreplays, by decide,
    (usernames_distinct_iff initial_empty h0 (run_trace _ _ _ hreplays)).mpr ?_⟩
  intro m hm c f q r he hc
  simp only [twoSubmissions, submission, typing, trace, List.cons_append, List.nil_append,
    List.mem_cons, List.not_mem_nil, or_false] at hm
  -- the two completions, each with what has been sent by then
  rcases hm with rfl | rfl | rfl | rfl | rfl | rfl | rfl | rfl | rfl | rfl | rfl | rfl <;> cases he
  · decide
  · decide

/-- Create Account is tapped twice, both queries find nothing, and both documents are
stored. -/
def doubleSubmission : List Event :=
  let document (id : ℕ) : Document Value := ⟨id, CreateAccountView.userFields .plain
    { username := "alice", password := "Passw0rd", confirmPassword := "Passw0rd" }⟩
  typing 0 0 "alice" "Passw0rd" ++
    [.client 0 (.form 0 .tap), .client 0 (.form 0 .tap),
     .client 0 (.form 0 (.complete ⟨0, "alice", 0⟩ (.snapshot []))),
     .client 0 (.form 0 (.complete ⟨1, "alice", 0⟩ (.snapshot []))),
     .commit .user (document 1), .commit .user (document 2)]

theorem double_submission_repeats_username : ∃ tr w, empty.Initial ∧
    DistinctUsernames (empty.store .user).docs ∧ Run (Step .plain) empty tr w ∧
    ¬ DistinctUsernames (w.store .user).docs :=
  ⟨_, _, initial_empty, by decide, run_trace _ _ doubleSubmission (by decide), by decide⟩

/-! ## One submission among the others of its form -/

/-- The fields of a submission pass all three checks. -/
structure Accepted (P : Platform) (view : CreateAccountView) : Prop where
  username : isUsernameValid view.username = true
  password : isPasswordValid view.password = true
  samePasswords : isPasswordMatch P view.password view.confirmPassword = true

/-- The form still has the fields of the submission, and the flags its tap computed
from them. -/
structure Awaits (submitted view : CreateAccountView) : Prop where
  fields : CreateAccountView.SameFields submitted view
  usernameFormat : view.displayUsernameFormatError = false
  passwordFormat : view.displayPasswordFormatError = false
  passwordsMatch : view.displayPasswordsMatchError = false

def EditsForm (c f : ℕ) (m : Move World Event) : Prop :=
  ∃ field text, m.event = .client c (.form f (.edit field text))

def TapsForm (c f : ℕ) (m : Move World Event) : Prop := m.event = .client c (.form f .tap)

/-- A completion of the form finds a user with the username it searched for. -/
def FindsUser (c f : ℕ) (m : Move World Event) : Prop :=
  ∃ q r, m.event = .client c (.form f (.complete q r)) ∧ r.err = none ∧ r.querySnapshot ≠ some []

section Submission

variable {c f : ℕ} {submitted view view' : CreateAccountView} {mid : List (Move World Event)}

/-- A tap on a form with the fields of an accepted submission clears all flags. -/
theorem awaits_tap (hok : Accepted P submitted)
    (h : CreateAccountView.SameFields submitted view) :
    Awaits submitted (view.processInput P).1 ∧
      (view.processInput P).1.displayUsernameError = false := by
  rw [CreateAccountView.processInput_view]
  refine ⟨⟨⟨h.firstName, h.lastName, h.username, h.password, h.confirmPassword⟩, ?_, ?_, ?_⟩, rfl⟩
  · simp only [h.username, hok.username, Bool.not_true]
  · simp only [h.password, hok.password, Bool.not_true]
  · simp only [h.password, h.confirmPassword, hok.samePasswords, Bool.not_true]

/-- While a submission is awaited, a completion leaves the username error as it is, or
sets it because it finds a user. -/
theorem awaits_completion (hok : Accepted P submitted) (h : Awaits submitted view)
    {documentID : ℕ} {r : Response Value} {out : Option (Fields Value)}
    (hcomp : view.processInputCompletion P documentID r = some (view', out)) :
    Awaits submitted view' ∧ (view'.displayUsernameError = true ↔
      (r.err = none ∧ r.querySnapshot ≠ some []) ∨ view.displayUsernameError = true) := by
  have hsame : P.stringEq view.password view.confirmPassword = true := by
    have := hok.samePasswords
    rwa [isPasswordMatch, ← h.fields.password, ← h.fields.confirmPassword] at this
  have hfields : CreateAccountView.SameFields submitted view' :=
    h.fields.trans (CreateAccountView.completion_sameFields hcomp)
  rcases CreateAccountView.completion_cases hcomp with ⟨herr, rfl, -⟩ | ⟨hc, -, rfl⟩ |
    ⟨-, -, -, hne, -, -⟩ | ⟨herr, hnc, -, rfl⟩
  · exact ⟨h, by simp [herr]⟩
  · exact ⟨⟨hfields, h.usernameFormat, h.passwordFormat, h.passwordsMatch⟩,
      by simp [hc.noUser, hc.usernameFree]⟩
  · exact absurd hsame (by simp [hne])
  · refine ⟨⟨hfields, h.usernameFormat, h.passwordFormat, h.passwordsMatch⟩, ?_⟩
    refine iff_of_true rfl ?_
    -- the creating branch was not taken although only the username error can forbid it
    by_contra hnot
    rw [not_or] at hnot
    have hempty : r.querySnapshot = some [] := by
      by_contra hne
      exact hnot.1 ⟨herr, hne⟩
    exact hnc ⟨herr, hempty, h.passwordsMatch, h.usernameFormat, h.passwordFormat,
      by simpa using hnot.2, hsame⟩

/-- From its tap on, while nobody edits the form, a submission is awaited, and the
username error is set exactly when a completion has found a user since the last tap. -/
theorem awaits_run (hok : Accepted P submitted) (h : Awaits submitted (w₁.form c f).view)
    (hclear : (w₁.form c f).view.displayUsernameError = false)
    (run : Run (Step P) w₁ mid w₂) (hedit : ∀ m ∈ mid, ¬ EditsForm c f m) :
    Awaits submitted (w₂.form c f).view ∧ ((w₂.form c f).view.displayUsernameError = true ↔
      Since (FindsUser c f) (fun m => ¬ TapsForm c f m) mid) := by
  induction run with
  | nil => exact ⟨h, by simp [hclear]⟩
  | @snoc w w' mid e run step ih =>
    obtain ⟨hawaits, hiff⟩ := ih fun m hm => hedit m (List.mem_append_left _ hm)
    have hlast := hedit ⟨w, e, w'⟩ (by simp)
    rw [since_snoc, ← hiff]
    rcases step.form_cases c f with ⟨hsame, hne⟩ | ⟨fe, out, rfl, hstep, -⟩
    · have hnotap : ¬ TapsForm c f ⟨w, e, w'⟩ := hne .tap
      have hnofind : ¬ FindsUser c f ⟨w, e, w'⟩ := by
        rintro ⟨q, r, he, -⟩
        exact hne _ he
      rw [hsame]
      exact ⟨hawaits, by simp [hnotap, hnofind]⟩
    · generalize w'.form c f = form' at hstep ⊢
      cases hstep with
      | edit field text => exact absurd ⟨field, text, rfl⟩ hlast
      | tap =>
        obtain ⟨htap, hflag⟩ := awaits_tap hok hawaits.fields
        refine ⟨htap, iff_of_false (by simpa [Form.tap] using hflag) ?_⟩
        rintro (⟨q, r, he, -⟩ | ⟨hnotap, -⟩)
        · cases he
        · exact hnotap rfl
      | @complete q r view out pending delivered completion =>
        obtain ⟨hcomp, hflag⟩ := awaits_completion hok hawaits completion
        refine ⟨hcomp, hflag.trans (or_congr ?_ ?_)⟩
        · constructor
          · rintro ⟨herr, hfound⟩
            exact ⟨q, r, rfl, herr, hfound⟩
          · rintro ⟨q', r', he, hfound⟩
            cases he
            exact hfound
        · have hnotap : ¬ TapsForm c f ⟨w, .client c (.form f (.complete q r)), w'⟩ := by
            rintro ⟨⟩
          simp [hnotap]

/-- The query of a tap on the form. -/
def tapQuery (w : World) (c f : ℕ) : UserQuery :=
  ⟨(w.form c f).taps, (w.form c f).view.username, (w.store .user).docs.length⟩

/-- An accepted submission, not edited before its completion and completed with an empty
snapshot, registers its fields and dismisses the form without a username error, exactly
when no completion has found a user since the form was last tapped. -/
theorem submission_registers_iff (tap : Step P w (.client c (.form f .tap)) w₁)
    (hok : Accepted P (w.form c f).view) (run : Run (Step P) w₁ mid w₂)
    (hedit : ∀ m ∈ mid, ¬ EditsForm c f m) {r : Response Value} (herr : r.err = none)
    (hempty : r.querySnapshot = some [])
    (completion : Step P w₂ (.client c (.form f (.complete (w.tapQuery c f) r))) w₃) :
    (AddsUser ⟨w₂, .client c (.form f (.complete (w.tapQuery c f) r)), w₃⟩
        ((w.form c f).view.userFields P) ∧
      (w₃.form c f).view.dismissed = true ∧ (w₃.form c f).view.displayUsernameError = false) ↔
    ¬ Since (FindsUser c f) (fun m => ¬ TapsForm c f m) mid := by
  -- the tap clears the flags, and only a completion that finds a user sets one again
  have htap : (w₁.form c f).view = ((w.form c f).view.processInput P).1 := by
    rw [tap.form_tap]
    rfl
  obtain ⟨hstart, hclear⟩ := awaits_tap (P := P) hok (.refl _)
  rw [← htap] at hstart hclear
  obtain ⟨hawaits, hiff⟩ := awaits_run hok hstart hclear run hedit
  have hsame : isPasswordMatch P (w₂.form c f).view.password
      (w₂.form c f).view.confirmPassword = true := by
    rw [hawaits.fields.password, hawaits.fields.confirmPassword]
    exact hok.samePasswords
  rw [← hiff, ← hawaits.fields.userFields_eq, addsUser_iff completion]
  constructor
  · rintro ⟨⟨hc, -⟩, -, -⟩
    simp [hc.usernameFree]
  · intro hfree
    have hc : (w₂.form c f).view.Creates P r := ⟨herr, hempty, hawaits.passwordsMatch,
      hawaits.usernameFormat, hawaits.passwordFormat, by simpa using hfree, hsame⟩
    obtain ⟨-, -, view, out, hcomp, hform, -⟩ := completion.form_complete
    rw [CreateAccountView.completion_of_creates hc, Option.some.injEq, Prod.mk.injEq] at hcomp
    obtain ⟨rfl, -⟩ := hcomp
    rw [hform]
    exact ⟨⟨hc, rfl⟩, rfl, hc.usernameFree⟩

end Submission

/-- A second tap on an unchanged form does not keep the first submission from registering. -/
theorem submission_registers_after_second_tap : ∃ w w₁ w₂ w₃,
    Step .plain w (.client 0 (.form 0 .tap)) w₁ ∧
    Step .plain w₁ (.client 0 (.form 0 .tap)) w₂ ∧
    Step .plain w₂ (.client 0 (.form 0 (.complete (w.tapQuery 0 0) (.snapshot [])))) w₃ ∧
    AddsUser ⟨w₂, .client 0 (.form 0 (.complete (w.tapQuery 0 0) (.snapshot []))), w₃⟩
      ((w.form 0 0).view.userFields .plain) := by
  let w := empty.after .plain (typing 0 0 "alice" "Passw0rd")
  have htap := step_next .plain w (.client 0 (.form 0 .tap)) (by decide)
  have htap' := step_next .plain (w.next .plain (.client 0 (.form 0 .tap)))
    (.client 0 (.form 0 .tap)) (by decide)
  have hcomp := step_next .plain
    ((w.next .plain (.client 0 (.form 0 .tap))).next .plain (.client 0 (.form 0 .tap)))
    (.client 0 (.form 0 (.complete (w.tapQuery 0 0) (.snapshot [])))) (by decide)
  have hedit : ∀ u v, ¬ EditsForm 0 0 ⟨u, .client 0 (.form 0 .tap), v⟩ := by
    rintro u v ⟨field, text, he⟩
    cases he
  have hfind : ∀ u v, ¬ FindsUser 0 0 ⟨u, .client 0 (.form 0 .tap), v⟩ := by
    rintro u v ⟨q, r, he, -⟩
    cases he
  refine ⟨_, _, _, _, htap, htap', hcomp, ?_⟩
  have hiff := submission_registers_iff htap ⟨by decide, by decide, by decide⟩
    ((Run.nil _).snoc htap') (by simpa using hedit _ _) rfl rfl hcomp
  exact (hiff.mpr (by simpa using hfind _ _)).1

/-- The form is submitted for a username that is taken, then for one that is free; the
first query completes first. -/
theorem submission_disturbed : ∃ w₀ w w₁ mid w₂ w₃, w₀.Initial ∧ Reaches (Step .plain) w₀ w ∧
    Step .plain w (.client 0 (.form 0 .tap)) w₁ ∧ Accepted .plain (w.form 0 0).view ∧
    Run (Step .plain) w₁ mid w₂ ∧ (∀ m ∈ mid, ¬ EditsForm 0 0 m) ∧
    Step .plain w₂ (.client 0 (.form 0 (.complete (w.tapQuery 0 0) (.snapshot [])))) w₃ ∧
    ¬ AddsUser ⟨w₂, .client 0 (.form 0 (.complete (w.tapQuery 0 0) (.snapshot []))), w₃⟩
      ((w.form 0 0).view.userFields .plain) := by
  let taken : Document Value := ⟨1, CreateAccountView.userFields .plain { username := "alice" }⟩
  let w₀ := ofDocs [taken] [] (List.nodup_singleton _) List.nodup_nil
  let w := w₀.after .plain (typing 0 0 "alice" "Passw0rd" ++
    [.client 0 (.form 0 .tap), .client 0 (.form 0 (.edit .username "alison"))])
  let w₁ := w.next .plain (.client 0 (.form 0 .tap))
  let found : Event := .client 0 (.form 0 (.complete ⟨0, "alice", 1⟩ (.snapshot [taken])))
  let w₂ := w₁.after .plain [found]
  let own : Event := .client 0 (.form 0 (.complete (w.tapQuery 0 0) (.snapshot [])))
  have hreach := (run_trace .plain w₀ (typing 0 0 "alice" "Passw0rd" ++
    [.client 0 (.form 0 .tap), .client 0 (.form 0 (.edit .username "alison"))]) (by decide)).reaches
  have htap := step_next .plain w (.client 0 (.form 0 .tap)) (by decide)
  have hmid := run_trace .plain w₁ [found] (by decide)
  have hcomp := step_next .plain w₂ own (by decide)
  have hok : Accepted .plain (w.form 0 0).view := ⟨by decide, by decide, by decide⟩
  refine ⟨w₀, w, w₁, _, w₂, _, initial_ofDocs, hreach, htap, hok, hmid, ?_, hcomp, ?_⟩
  · simp [trace, EditsForm, found]
  · intro hadds
    -- the form shows "That username already exists!" from the first completion on
    have hfree := ((addsUser_iff hcomp).mp hadds).1.usernameFree
    exact absurd hfree (by decide)

end World

end Pindex
