import Pindex.RegistrationTheorems
import Pindex.SessionTheorems

/-!
# The document schema that writers and readers share

`processInput` and `NewPost` write the only documents there are, and `LoginView`,
`BulletinBoardView` and `CreateAccountView` read them back with forced casts. Both sides
agree on the fields of `Schema`, which every document of every reachable collection has:

* no reader ever traps (`readers_never_trap`);
* who registers can log in, whatever happens in between (`registered_account_logs_in`).
-/

namespace Pindex

open DocStore Transition

/-! ## The schema -/

/-- The fields that the readers of a collection cast. -/
def Schema : CollectionName → Fields Value → Prop
  | .user, fields => ∃ fName lName username, fields.lookup "First_Name" = some (.string fName) ∧
      fields.lookup "Last_Name" = some (.string lName) ∧
      fields.lookup "Username" = some (.string username)
  | .post, fields => ∃ title content, fields.lookup "Title" = some (.string title) ∧
      fields.lookup "Content" = some (.string content)

/-- What the app writes has these fields, whatever was typed. -/
theorem schema_of_writes {P : Platform} {name : CollectionName} {fields : Fields Value}
    (h : World.Writes P name fields) : Schema name fields := by
  cases name with
  | user =>
    obtain ⟨view, rfl⟩ := h
    exact ⟨_, _, _, rfl, rfl, rfl⟩
  | post =>
    obtain ⟨form, board, rfl⟩ := h
    exact ⟨_, _, rfl, rfl⟩

theorem ofDocument_isSome_of_schema {d : Document Value} (h : Schema .user d.data) :
    (UserAccount.ofDocument d).isSome := by
  obtain ⟨fName, lName, username, hf, hl, hu⟩ := h
  simp [UserAccount.ofDocument, stringField_eq_some.mpr hf, stringField_eq_some.mpr hl,
    stringField_eq_some.mpr hu]

theorem postCasts_of_schema {d : Document Value} (h : Schema .post d.data) : PostCasts d := h

namespace World

variable {P : Platform} {w₀ w w' w₁ w₂ w₃ w₄ w₅ : World} {c f : ℕ}

/-- Every document of the collections has the fields of the schema. -/
def SchemaHolds (w : World) : Prop :=
  ∀ name, ∀ d ∈ (w.store name).sent, Schema name d.data

theorem schemaHolds_initial (hi : w₀.Initial)
    (h0 : ∀ name, ∀ d ∈ (w₀.store name).docs, Schema name d.data) : w₀.SchemaHolds := by
  intro name d hd
  rw [Collection.sent, hi.inFlight name, List.append_nil] at hd
  exact h0 name d hd

theorem schemaHolds_of_reaches (h0 : w₀.SchemaHolds) (h : Reaches (Step P) w₀ w) :
    w.SchemaHolds := by
  refine h.invariant h0 fun u e u' ih step name => ?_
  exact (step.store_evolves name).schema (fun _ => schema_of_writes) (ih name)

/-! ## No reader traps -/

section Readers

variable {q : Query Value} {since : ℕ} {r : Response Value}

/-- What a completion is called with: a snapshot of documents with the schema's fields,
unless there is an error. -/
theorem delivers_schema (h : w.SchemaHolds) {name : CollectionName}
    (hdel : (w.store name).Delivers q since r) (herr : r.err = none) :
    ∃ docs, r.querySnapshot = some docs ∧ ∀ d ∈ docs, Schema name d.data := by
  obtain ⟨docs, hdocs, hanswers⟩ := hdel herr
  exact ⟨docs, hdocs, fun d hd =>
    h name d (Collection.mem_sent_of_mem_docs (hanswers.sound hd).1)⟩

theorem loginCompletion_isSome (h : w.SchemaHolds) (hdel : (w.store .user).Delivers q since r)
    (view : LoginView) (account : Option UserAccount) :
    (view.loginCompletion r account).isSome := by
  refine LoginView.completion_isSome fun herr => ?_
  obtain ⟨docs, hdocs, hschema⟩ := delivers_schema h hdel herr
  exact ⟨docs, hdocs, fun d hd => ofDocument_isSome_of_schema (hschema d hd)⟩

theorem processInputCompletion_isSome (hdel : (w.store .user).Delivers q since r)
    (view : CreateAccountView) (documentID : ℕ) :
    (view.processInputCompletion P documentID r).isSome := by
  refine CreateAccountView.completion_isSome fun herr => ?_
  obtain ⟨docs, hdocs, -⟩ := hdel herr
  simp [hdocs]

/-- The completions that read posts, whatever they number the entries with. -/
theorem readPosts_isSome (h : w.SchemaHolds) (hdel : (w.store .post).Delivers q since r)
    (firstID : ℕ) (posts : List Post) : (readPosts firstID r posts).isSome := by
  cases herr : r.err with
  | some e => simp [readPosts, herr]
  | none =>
    obtain ⟨docs, hdocs, hschema⟩ := delivers_schema h hdel herr
    have happend := appendPosts_isSome (fun d hd => postCasts_of_schema (hschema d hd)) posts
      firstID
    simpa [readPosts, herr, hdocs] using happend

theorem getNumberOfPostsCompletion_isSome (hdel : (w.store .post).Delivers q since r)
    (numOfPosts : ℕ) : (getNumberOfPostsCompletion r numOfPosts).isSome := by
  cases herr : r.err with
  | some e => simp [getNumberOfPostsCompletion, herr]
  | none =>
    obtain ⟨docs, hdocs, -⟩ := hdel herr
    simp [getNumberOfPostsCompletion, herr, hdocs]

end Readers

/-- Every read completion runs through on every snapshot it can receive, and no app has
crashed. -/
structure ReadersRunThrough (P : Platform) (w : World) : Prop where
  login : ∀ q since r, (w.store .user).Delivers q since r →
    ∀ (view : LoginView) account, (view.loginCompletion r account).isSome
  processInput : ∀ q since r, (w.store .user).Delivers q since r →
    ∀ (view : CreateAccountView) documentID, (view.processInputCompletion P documentID r).isSome
  getPosts : ∀ q since r, (w.store .post).Delivers q since r →
    ∀ posts, (getPostsCompletion r posts).isSome
  getPostsPaging : ∀ q since r, (w.store .post).Delivers q since r →
    ∀ startNum posts, (getPostsPagingCompletion startNum r posts).isSome
  getNumberOfPosts : ∀ q since r, (w.store .post).Delivers q since r →
    ∀ numOfPosts, (getNumberOfPostsCompletion r numOfPosts).isSome
  running : ∀ c, (w.clients c).crashed = false

theorem not_traps (h : w.SchemaHolds) {client : Client} {ce : ClientEvent} :
    ¬ client.Traps P w.store ce := by
  cases ce with
  | selectPin => exact id
  | form f fe => exact Form.not_traps
  | session se =>
    cases se with
    | complete q r =>
      rintro ⟨-, hdel, htrap⟩
      have hsome := loginCompletion_isSome h hdel (client.session.views q.view)
        client.session.account
      rw [htrap] at hsome
      cases hsome
    | _ => exact id
  | board v be =>
    cases be with
    | complete q r =>
      rintro ⟨-, hdel, htrap⟩
      have hsome : (q.read.completion r (client.boards v).view.posts).isSome := by
        cases q.read with
        | count =>
          have := getNumberOfPostsCompletion_isSome hdel 0
          simpa [PostRead.completion] using this
        | page startNum => exact readPosts_isSome h hdel startNum _
      rw [htrap] at hsome
      cases hsome
    | _ => exact id

/-- While the schema holds, no step crashes a client. -/
theorem running_step {e : Event} (h : w.SchemaHolds) (step : Step P w e w') (c : ℕ)
    (hrunning : (w.clients c).crashed = false) : (w'.clients c).crashed = false := by
  rcases step.client_cases c with ⟨hsame, -⟩ | ⟨ce, out, -, -, hstep, -⟩
  · rw [hsame]
    exact hrunning
  · generalize w'.clients c = client' at hstep ⊢
    cases hstep with
    | trap traps => exact absurd traps (not_traps h)
    | _ => exact hrunning

/-- From empty collections, the app's own writes never crash a reader. -/
theorem readers_never_trap (hi : w₀.Initial) (hempty : ∀ name, (w₀.store name).docs = [])
    (h : Reaches (Step P) w₀ w) : ReadersRunThrough P w := by
  have h0 : w₀.SchemaHolds := schemaHolds_initial hi fun name d hd => by
    rw [hempty name] at hd
    cases hd
  have hschema := schemaHolds_of_reaches h0 h
  exact {
    login := fun q since r hdel view account => loginCompletion_isSome hschema hdel view account
    processInput := fun q since r hdel view id => processInputCompletion_isSome hdel view id
    getPosts := fun q since r hdel posts => readPosts_isSome hschema hdel 0 posts
    getPostsPaging := fun q since r hdel startNum posts =>
      readPosts_isSome hschema hdel startNum posts
    getNumberOfPosts := fun q since r hdel n => getNumberOfPostsCompletion_isSome hdel n
    running := by
      have hinv := h.invariant (I := fun w => w.SchemaHolds ∧ ∀ c, (w.clients c).crashed = false)
        ⟨h0, fun c => by rw [hi.clients c]⟩ ?_
      · exact hinv.2
      · intro u e u' ⟨hu, hrunning⟩ step
        exact ⟨schemaHolds_of_reaches hu ((Reaches.refl u).step step),
          fun c => running_step hu step c (hrunning c)⟩ }

/-- A user and a post have been stored. -/
def storedEvents : List Event :=
  submission "alice" "Passw0rd" ++
    [.commit .user ⟨1, CreateAccountView.userFields .plain
      { username := "alice", password := "Passw0rd" }⟩,
     .client 1 (.board 0 (.createPost {})),
     .commit .post ⟨1, NewPost.postFields "B Board" {}⟩]

theorem stored_documents_read_back :
    ReadersRunThrough .plain (empty.after .plain storedEvents) := by
  have hrun := run_trace .plain empty storedEvents (by decide)
  refine readers_never_trap initial_empty (fun name => ?_) hrun.reaches
  cases name <;> rfl

/-! ## Registered accounts stay reachable -/

/-- A login screen after a login, and the account it was given: that of one stored
document with the username and the password submitted. -/
structure LoggedIn (w : World) (c v : ℕ) (username : String) (password : Value) : Prop where
  isLoggedIn : ((w.session c).views v).isLoggedIn = true
  switchView : ((w.session c).views v).switchView = true
  displayLoginError : ((w.session c).views v).displayLoginError = false
  account : ∃ d ∈ (w.store .user).docs, d.get? "Username" = some (.string username) ∧
    d.get? "Password" = some password ∧ ∃ fName lName,
      d.get? "First_Name" = some (.string fName) ∧ d.get? "Last_Name" = some (.string lName) ∧
      (w.session c).account = some ⟨fName, lName, username⟩

theorem ofDocument_eq_some {d : Document Value} {user : UserAccount} :
    UserAccount.ofDocument d = some user ↔ d.get? "First_Name" = some (.string user.fName) ∧
      d.get? "Last_Name" = some (.string user.lName) ∧
      d.get? "Username" = some (.string user.username) := by
  simp only [UserAccount.ofDocument, Option.bind_eq_bind, Option.bind_eq_some_iff,
    stringField_eq_some, Option.some.injEq]
  constructor
  · rintro ⟨fName, hf, lName, hl, username, hu, rfl⟩
    exact ⟨hf, hl, hu⟩
  · rintro ⟨hf, hl, hu⟩
    exact ⟨_, hf, _, hl, _, hu, rfl⟩

/-- A completion of a login runs through while the schema holds. -/
theorem Step.session_complete (hschema : w.SchemaHolds) {q : Attempt} {r : Response Value}
    (h : Step P w (.client c (.session (.complete q r))) w') :
    (w.store .user).Delivers q.query q.since r ∧ w'.store = w.store ∧ ∃ account view,
      ((w.session c).views q.view).loginCompletion r (w.session c).account =
        some (account, view) ∧
      w'.session c = { w.session c with
        account := account
        views := Function.update (w.session c).views q.view view
        pending := (w.session c).pending.erase q } := by
  rcases h.session_cases c with ⟨-, hne⟩ | ⟨se, he, hstore, hstep⟩ | ⟨se, he, -, -, htraps⟩
  · exact absurd rfl (hne _)
  · obtain rfl : SessionEvent.complete q r = se := by simpa using he
    generalize w'.session c = session' at hstep ⊢
    cases hstep with
    | complete _ delivered completion => exact ⟨delivered, hstore, _, _, completion, rfl⟩
  · obtain rfl : SessionEvent.complete q r = se := by simpa using he
    have hsome := loginCompletion_isSome hschema htraps.2.1 ((w.session c).views q.view)
      (w.session c).account
    rw [htraps.2.2] at hsome
    cases hsome

/-- A completion that is called without an error, for a query that a document written
before its call matches, logs in. -/
theorem loggedIn_of_stored (hschema : w.SchemaHolds) {q : Attempt} {r : Response Value}
    (herr : r.err = none) (h : Step P w (.client c (.session (.complete q r))) w')
    {user : Document Value} (hstored : user ∈ (w.store .user).docs.take q.since)
    (hmatch : q.query.Matches user) : LoggedIn w' c q.view q.username q.password := by
  obtain ⟨hdel, hstore, account, view, hcomp, htarget⟩ := h.session_complete hschema
  obtain ⟨docs, hdocs, hanswers⟩ := hdel herr
  have hne : docs ≠ [] := List.ne_nil_of_mem (hanswers.complete hstored hmatch)
  rcases LoginView.completion_cases hcomp with ⟨herr', -⟩ | ⟨-, docs', hdocs', hcasts, hlast, hview⟩
  · exact absurd herr herr'
  obtain rfl : docs = docs' := Option.some.inj (hdocs.symm.trans hdocs')
  have hsome : account.isSome := by
    rw [hlast]
    exact (LoginView.isSome_lastAccount hcasts _).mpr (.inl hne)
  rw [if_pos hsome] at hview
  -- the account is that of the last document of the snapshot
  let last := docs.getLast hne
  have hmem : last ∈ docs := List.getLast_mem hne
  obtain ⟨hdoc, hcredentials⟩ := hanswers.sound hmem
  obtain ⟨hu, hp⟩ := query_matches.mp hcredentials
  obtain ⟨found, hfound⟩ := Option.isSome_iff_exists.mp (hcasts last hmem)
  have haccount : account = some found := by
    rw [hlast, LoginView.lastAccount, List.getLast?_eq_getLast_of_ne_nil hne]
    exact hfound
  obtain ⟨hf, hl, hu'⟩ := ofDocument_eq_some.mp hfound
  have hname : found.username = q.username := by
    have heq := hu'.symm.trans hu
    simpa using heq
  have hscreen : (w'.session c).views q.view = view := by
    rw [htarget]
    exact Function.update_self ..
  refine ⟨?_, ?_, ?_, last, ?_, hu, hp, found.fName, found.lName, hf, hl, ?_⟩
  · rw [hscreen, hview]
  · rw [hscreen, hview]
  · rw [hscreen, hview]
  · rw [hstore]
    exact hdoc
  · rw [htarget, ← hname]
    exact haccount

/-- Whoever registers can log in with the same username and password, on any device and
whatever happens in between. -/
theorem registered_account_logs_in (hi : w₀.Initial)
    (hschema : ∀ name, ∀ d ∈ (w₀.store name).docs, Schema name d.data)
    (hreach : Reaches (Step P) w₀ w) {q : UserQuery} {r : Response Value} {fields : Fields Value}
    (register : Step P w (.client c (.form f (.complete q r))) w₁)
    (adds : AddsUser ⟨w, .client c (.form f (.complete q r)), w₁⟩ fields)
    (later : Reaches (Step P) w₁ w₂) {user : Document Value}
    (hid : user.id = (w.store .user).nextId) (stored : user ∈ (w₂.store .user).docs) {c' : ℕ}
    (tap : Step P w₂ (.client c' (.session .login)) w₃)
    (username : ((w₂.session c').views (w₂.session c').top).username =
      (w.form c f).view.username)
    (password : ((w₂.session c').views (w₂.session c').top).password =
      (w.form c f).view.password)
    (later' : Reaches (Step P) w₃ w₄) {r' : Response Value} (noError : r'.err = none)
    (completion : Step P w₄ (.client c' (.session (.complete
      ((w₂.session c').attempt P (w₂.store .user).docs.length) r'))) w₅) :
    LoggedIn w₅ c' (w₂.session c').top (w.form c f).view.username
      (P.passwordValue (w.form c f).view.password) := by
  have hstart := schemaHolds_initial hi hschema
  have hreach₂ : Reaches (Step P) w₀ w₂ := (hreach.step register).trans later
  have hquery : Reaches (Step P) w₂ w₄ := ((Reaches.refl w₂).step tap).trans later'
  have hschema₄ := schemaHolds_of_reaches hstart (hreach₂.trans hquery)
  -- the document is the one that was sent, and it was written before the tap
  obtain ⟨-, rfl⟩ := (addsUser_iff register).mp adds
  have hdata := added_data adds later (Collection.mem_sent_of_mem_docs stored) hid
  obtain ⟨tr, hrun⟩ := hquery
  have hwritten : user ∈ (w₄.store .user).docs.take (w₂.store .user).docs.length := by
    rw [← List.prefix_iff_eq_take.mp (docs_grow hrun .user)]
    exact stored
  have hmatch : ((w₂.session c').attempt P (w₂.store .user).docs.length).query.Matches user := by
    refine query_matches.mpr ⟨?_, ?_⟩
    · rw [Document.get?, hdata, CreateAccountView.userFields_username, ← username]
      rfl
    · rw [Document.get?, hdata, CreateAccountView.userFields_password, ← password]
      rfl
  have hlogged := loggedIn_of_stored hschema₄ noError completion hwritten hmatch
  rw [← username, ← password]
  exact hlogged

/-- `alice` registers on one device and logs in on another. -/
theorem alice_logs_in : ∃ w, Reaches (Step .plain) empty w ∧
    LoggedIn w 1 0 "alice" (Platform.plain.passwordValue "Passw0rd") := by
  let user : Document Value := ⟨1, CreateAccountView.userFields .plain
    { username := "alice", password := "Passw0rd" }⟩
  let w := empty.after .plain (typing 0 0 "alice" "Passw0rd" ++ [.client 0 (.form 0 .tap)])
  let w₁ := w.next .plain (.client 0 (.form 0 (.complete ⟨0, "alice", 0⟩ (.snapshot []))))
  let typed : List Event := [.commit .user user,
    .client 1 (.session (.editUsername "alice")), .client 1 (.session (.editPassword "Passw0rd"))]
  let w₂ := w₁.after .plain typed
  let w₃ := w₂.next .plain (.client 1 (.session .login))
  have hreach : Reaches (Step .plain) empty w := (run_trace .plain empty _ (by decide)).reaches
  have hregister := step_next .plain w
    (.client 0 (.form 0 (.complete ⟨0, "alice", 0⟩ (.snapshot [])))) (by decide)
  have hlater : Reaches (Step .plain) w₁ w₂ := (run_trace .plain w₁ typed (by decide)).reaches
  have htap := step_next .plain w₂ (.client 1 (.session .login)) (by decide)
  have hcomp := step_next .plain w₃ (.client 1 (.session (.complete
    ((w₂.session 1).attempt .plain (w₂.store .user).docs.length) (.snapshot [user])))) (by decide)
  have hcreates : (w.form 0 0).view.Creates .plain (.snapshot []) :=
    ⟨rfl, rfl, by decide, by decide, by decide, by decide, by decide⟩
  have hadds := (addsUser_iff hregister).mpr ⟨hcreates, rfl⟩
  have hid : user.id = (w.store .user).nextId := by decide
  have hstored : user ∈ (w₂.store .user).docs := by decide
  have hfields : (w.form 0 0).view.username = "alice" ∧
      (w.form 0 0).view.password = "Passw0rd" := by
    decide
  have htyped : (w₂.session 1).top = 0 ∧
      ((w₂.session 1).views (w₂.session 1).top).username = (w.form 0 0).view.username ∧
      ((w₂.session 1).views (w₂.session 1).top).password = (w.form 0 0).view.password := by
    decide
  have hlogged := registered_account_logs_in initial_empty
    (fun name d hd => by cases name <;> cases hd) hreach hregister hadds hlater hid hstored htap
    htyped.2.1 htyped.2.2 (.refl w₃) rfl hcomp
  rw [htyped.1, hfields.1, hfields.2] at hlogged
  exact ⟨_, (((hreach.step hregister).trans hlater).step htap).step hcomp, hlogged⟩

end World

end Pindex
