import Pindex.Library.Run
import Pindex.CreateAccountView
import Pindex.LoginView
import Pindex.BulletinBoardView

/-!
# The whole system: devices and the two collections

A `Client` is one running app as far as the collections go: its session, its registration
forms, its boards and the global `currentBulletinBoard`. A `World` is any number of clients next
to the `User` and `Post` collections, and `World.Step` one event of it: something happens in one
client, or the store decides a write. A trap in any view ends its client.

The second half of the file says what a step does to each part of the world: to one
form, one session, one board and either collection. Every later proof goes through
these lemmas.
-/

namespace Pindex

open DocStore Transition

/-! ## Clients -/

structure Client where
  session : Session := {}
  currentBulletinBoard : String := "B Board"
  forms : ℕ → Form := fun _ => {}
  boards : ℕ → Board := fun _ => {}
  crashed : Bool := false

inductive ClientEvent where
  | session (e : SessionEvent)
  | form (f : ℕ) (e : FormEvent)
  | board (v : ℕ) (e : BoardEvent)
  /-- The action of a `MapPin`. -/
  | selectPin (board : String)

abbrev Store := CollectionName → Collection Value

namespace Client

/-- The event is a completion that traps. -/
def Traps (P : Platform) (store : Store) (client : Client) : ClientEvent → Prop
  | .session e => client.session.Traps (store .user) e
  | .form f e => (client.forms f).Traps P (store .user) e
  | .board v e => (client.boards v).Traps (store .post) e
  | .selectPin _ => False

/-- One event of a client; the last argument is the write it sends, if any. -/
inductive Step (P : Platform) (store : Store) :
    Client → ClientEvent → Client → Option (CollectionName × Fields Value) → Prop
  | session {client : Client} {e : SessionEvent} {session : Session}
      (step : Session.Step P (store .user) client.session e session) :
      Step P store client (.session e) { client with session := session } none
  | form {client : Client} (f : ℕ) {e : FormEvent} {form : Form} {out : Option (Fields Value)}
      (step : Form.Step P (store .user) (client.forms f) e form out) :
      Step P store client (.form f e)
        { client with forms := Function.update client.forms f form }
        (out.map (Prod.mk .user))
  | board {client : Client} (v : ℕ) {e : BoardEvent} {board : Board}
      {out : Option (Fields Value)}
      (step : Board.Step (store .post) client.currentBulletinBoard (client.boards v) e board out) :
      Step P store client (.board v e)
        { client with boards := Function.update client.boards v board }
        (out.map (Prod.mk .post))
  | selectPin (client : Client) (board : String) :
      Step P store client (.selectPin board) { client with currentBulletinBoard := board } none
  | trap {client : Client} {e : ClientEvent} (traps : client.Traps P store e) :
      Step P store client e { client with crashed := true } none

end Client

/-! ## Worlds -/

structure World where
  store : Store
  clients : ℕ → Client

inductive Event where
  | client (c : ℕ) (e : ClientEvent)
  | commit (name : CollectionName) (d : Document Value)
  | reject (name : CollectionName) (d : Document Value)

/-- The store after a client has sent a write. -/
def Store.send (store : Store) : Option (CollectionName × Fields Value) → Store
  | none => store
  | some (name, fields) => Function.update store name ((store name).add fields)

namespace World

def session (w : World) (c : ℕ) : Session := (w.clients c).session
def form (w : World) (c f : ℕ) : Form := (w.clients c).forms f
def board (w : World) (c v : ℕ) : Board := (w.clients c).boards v

/-- One event of the world: one of a running client, or a decision of the store. -/
inductive Step (P : Platform) : World → Event → World → Prop
  | client {w : World} (c : ℕ) {e : ClientEvent} {client : Client}
      {out : Option (CollectionName × Fields Value)} (running : (w.clients c).crashed = false)
      (step : Client.Step P w.store (w.clients c) e client out) :
      Step P w (.client c e)
        { store := w.store.send out, clients := Function.update w.clients c client }
  | commit {w : World} (name : CollectionName) (d : Document Value)
      (sent : d ∈ (w.store name).inFlight) :
      Step P w (.commit name d)
        { w with store := Function.update w.store name ((w.store name).commit d sent) }
  | reject {w : World} (name : CollectionName) (d : Document Value)
      (sent : d ∈ (w.store name).inFlight) :
      Step P w (.reject name d)
        { w with store := Function.update w.store name ((w.store name).reject d) }

/-- Every app has just been started, and no write is in flight. -/
structure Initial (w : World) : Prop where
  clients : ∀ c, w.clients c = {}
  inFlight : ∀ name, (w.store name).inFlight = []

/-- A world with the given documents in its collections. -/
def ofDocs (users posts : List (Document Value)) (hu : (users.map Document.id).Nodup)
    (hp : (posts.map Document.id).Nodup) : World where
  store
    | .user => .ofDocs users hu
    | .post => .ofDocs posts hp
  clients _ := {}

/-- Nothing has been written yet. -/
def empty : World := ofDocs [] [] List.nodup_nil List.nodup_nil

theorem initial_ofDocs {users posts : List (Document Value)} {hu : (users.map Document.id).Nodup}
    {hp : (posts.map Document.id).Nodup} : (ofDocs users posts hu hp).Initial :=
  ⟨fun _ => rfl, fun name => by cases name <;> rfl⟩

theorem initial_empty : empty.Initial := initial_ofDocs

/-! ## What a step does to each part -/

variable {P : Platform} {w w' : World} {e : Event}

/-- Only the client named by the event changes. -/
theorem Step.client_cases (h : Step P w e w') (c : ℕ) :
    (w'.clients c = w.clients c ∧ ∀ ce, e ≠ .client c ce) ∨
    ∃ ce out, e = .client c ce ∧ (w.clients c).crashed = false ∧
      Client.Step P w.store (w.clients c) ce (w'.clients c) out ∧ w'.store = w.store.send out := by
  cases h with
  | client c' running step =>
    by_cases hc : c' = c
    · subst hc
      exact .inr ⟨_, _, rfl, running, by simpa using step, rfl⟩
    · exact .inl ⟨Function.update_of_ne (Ne.symm hc) _ _, by simp [hc]⟩
  | commit => exact .inl ⟨rfl, by simp⟩
  | reject => exact .inl ⟨rfl, by simp⟩

/-- What a step does to one form. A form never traps. -/
theorem Step.form_cases (h : Step P w e w') (c f : ℕ) :
    (w'.form c f = w.form c f ∧ ∀ fe, e ≠ .client c (.form f fe)) ∨
    ∃ fe out, e = .client c (.form f fe) ∧
      Form.Step P (w.store .user) (w.form c f) fe (w'.form c f) out ∧
      w'.store = w.store.send (out.map (Prod.mk .user)) := by
  unfold form
  rcases h.client_cases c with ⟨hc, hne⟩ | ⟨ce, out, rfl, -, step, hstore⟩
  · exact .inl ⟨by rw [hc], fun fe => hne _⟩
  generalize w'.clients c = client' at step ⊢
  cases step with
  | session => exact .inl ⟨rfl, by simp⟩
  | board => exact .inl ⟨rfl, by simp⟩
  | selectPin => exact .inl ⟨rfl, by simp⟩
  | form f' step =>
    by_cases hf : f' = f
    · subst hf
      exact .inr ⟨_, _, rfl, by simpa using step, hstore⟩
    · exact .inl ⟨Function.update_of_ne (Ne.symm hf) _ _, by simp [hf]⟩
  | trap traps =>
    refine .inl ⟨rfl, fun fe hfe => ?_⟩
    obtain rfl : ce = .form f fe := by simpa using hfe
    exact Form.not_traps traps

theorem Step.form_tap {c f : ℕ} (h : Step P w (.client c (.form f .tap)) w') :
    w'.form c f = (w.form c f).tap P (w.store .user).docs.length := by
  rcases h.form_cases c f with ⟨-, hne⟩ | ⟨fe, out, he, hstep, -⟩
  · exact absurd rfl (hne _)
  obtain rfl : FormEvent.tap = fe := by simpa using he
  generalize w'.form c f = form' at hstep ⊢
  cases hstep with
  | tap => rfl

/-- A completion of a form is the one of a pending query, called with an answer. -/
theorem Step.form_complete {c f : ℕ} {q : UserQuery} {r : Response Value}
    (h : Step P w (.client c (.form f (.complete q r))) w') :
    q ∈ (w.form c f).pending ∧ (w.store .user).Delivers q.query q.since r ∧
    ∃ view out, (w.form c f).view.processInputCompletion P (w.store .user).nextId r =
        some (view, out) ∧
      w'.form c f = { w.form c f with view := view, pending := (w.form c f).pending.erase q } ∧
      w'.store = w.store.send (out.map (Prod.mk .user)) := by
  rcases h.form_cases c f with ⟨-, hne⟩ | ⟨fe, out, he, hstep, hstore⟩
  · exact absurd rfl (hne _)
  obtain rfl : FormEvent.complete q r = fe := by simpa using he
  generalize w'.form c f = form' at hstep ⊢
  cases hstep with
  | complete pending delivered completion =>
    exact ⟨pending, delivered, _, out, completion, rfl, hstore⟩

/-- What a step does to one session. -/
theorem Step.session_cases (h : Step P w e w') (c : ℕ) :
    (w'.session c = w.session c ∧ ∀ se, e ≠ .client c (.session se)) ∨
    (∃ se, e = .client c (.session se) ∧ w'.store = w.store ∧
      Session.Step P (w.store .user) (w.session c) se (w'.session c)) ∨
    (∃ se, e = .client c (.session se) ∧ w'.store = w.store ∧ w'.session c = w.session c ∧
      (w.session c).Traps (w.store .user) se) := by
  unfold session
  rcases h.client_cases c with ⟨hc, hne⟩ | ⟨ce, out, rfl, -, step, hstore⟩
  · exact .inl ⟨by rw [hc], fun se => hne _⟩
  generalize w'.clients c = client' at step ⊢
  cases step with
  | session step => exact .inr (.inl ⟨_, rfl, hstore, step⟩)
  | form => exact .inl ⟨rfl, by simp⟩
  | board => exact .inl ⟨rfl, by simp⟩
  | selectPin => exact .inl ⟨rfl, by simp⟩
  | trap traps =>
    cases ce with
    | session se => exact .inr (.inr ⟨se, rfl, hstore, rfl, traps⟩)
    | _ => exact .inl ⟨rfl, by simp⟩

/-- What a step does to one board. -/
theorem Step.board_cases (h : Step P w e w') (c v : ℕ) :
    (w'.board c v = w.board c v ∧ ∀ be, e ≠ .client c (.board v be)) ∨
    (∃ be out, e = .client c (.board v be) ∧
      Board.Step (w.store .post) (w.clients c).currentBulletinBoard (w.board c v) be
        (w'.board c v) out ∧
      w'.store = w.store.send (out.map (Prod.mk .post))) ∨
    (∃ be, e = .client c (.board v be) ∧ w'.store = w.store ∧ w'.board c v = w.board c v ∧
      (w.board c v).Traps (w.store .post) be) := by
  unfold board
  rcases h.client_cases c with ⟨hc, hne⟩ | ⟨ce, out, rfl, -, step, hstore⟩
  · exact .inl ⟨by rw [hc], fun be => hne _⟩
  generalize w'.clients c = client' at step ⊢
  cases step with
  | session => exact .inl ⟨rfl, by simp⟩
  | form => exact .inl ⟨rfl, by simp⟩
  | selectPin => exact .inl ⟨rfl, by simp⟩
  | board v' step =>
    by_cases hv : v' = v
    · subst hv
      exact .inr (.inl ⟨_, _, rfl, by simpa using step, hstore⟩)
    · exact .inl ⟨Function.update_of_ne (Ne.symm hv) _ _, by simp [hv]⟩
  | trap traps =>
    cases ce with
    | board v' be =>
      by_cases hv : v' = v
      · subst hv
        exact .inr (.inr ⟨be, rfl, hstore, rfl, traps⟩)
      · exact .inl ⟨rfl, by simp [hv]⟩
    | _ => exact .inl ⟨rfl, by simp⟩

/-- What a step does to the `User` collection: only the creating branch of a form's
completion adds to it. -/
theorem Step.user_cases (h : Step P w e w') :
    w'.store .user = w.store .user ∨
    (∃ c f q r, e = .client c (.form f (.complete q r)) ∧ (w.form c f).view.Creates P r ∧
      w'.store .user = (w.store .user).add ((w.form c f).view.userFields P)) ∨
    (∃ d, ∃ sent : d ∈ (w.store .user).inFlight, e = .commit .user d ∧
      w'.store .user = (w.store .user).commit d sent) ∨
    (∃ d, e = .reject .user d ∧ w'.store .user = (w.store .user).reject d) := by
  cases h with
  | client c running step =>
    cases step with
    | session => exact .inl rfl
    | selectPin => exact .inl rfl
    | trap => exact .inl rfl
    | board v step =>
      left
      cases step <;> simp [Store.send]
    | @form f _ _ out step =>
      cases step with
      | edit => exact .inl rfl
      | tap => exact .inl rfl
      | complete pending delivered completion =>
        cases out with
        | none => exact .inl rfl
        | some fields =>
          obtain ⟨hc, rfl⟩ := (CreateAccountView.completion_adds completion).mp rfl
          exact .inr (.inl ⟨c, f, _, _, rfl, hc, by simp [Store.send, form]⟩)
  | commit name d sent =>
    cases name with
    | user => exact .inr (.inr (.inl ⟨d, sent, rfl, by simp⟩))
    | post => exact .inl (by simp)
  | reject name d sent =>
    cases name with
    | user => exact .inr (.inr (.inr ⟨d, rfl, by simp⟩))
    | post => exact .inl (by simp)

/-- What a step does to the `Post` collection: only Create Post adds to it. -/
theorem Step.post_cases (h : Step P w e w') :
    w'.store .post = w.store .post ∨
    (∃ c v form, e = .client c (.board v (.createPost form)) ∧
      w'.store .post =
        (w.store .post).add (form.postFields (w.clients c).currentBulletinBoard)) ∨
    (∃ d, ∃ sent : d ∈ (w.store .post).inFlight, e = .commit .post d ∧
      w'.store .post = (w.store .post).commit d sent) ∨
    (∃ d, e = .reject .post d ∧ w'.store .post = (w.store .post).reject d) := by
  cases h with
  | client c running step =>
    cases step with
    | session => exact .inl rfl
    | selectPin => exact .inl rfl
    | trap => exact .inl rfl
    | @form f _ _ out step =>
      left
      cases step with
      | edit => rfl
      | tap => rfl
      | complete pending delivered completion =>
        cases out <;> simp [Store.send]
    | board v step =>
      cases step with
      | onAppear => exact .inl rfl
      | onDisappear => exact .inl rfl
      | complete => exact .inl rfl
      | createPost form =>
        exact .inr (.inl ⟨c, v, form, rfl, by simp [Store.send, NewPost.createPost]⟩)
  | commit name d sent =>
    cases name with
    | user => exact .inl (by simp)
    | post => exact .inr (.inr (.inl ⟨d, sent, rfl, by simp⟩))
  | reject name d sent =>
    cases name with
    | user => exact .inl (by simp)
    | post => exact .inr (.inr (.inr ⟨d, rfl, by simp⟩))

/-- The field maps the app writes. -/
def Writes (P : Platform) : CollectionName → Fields Value → Prop
  | .user, fields => ∃ view : CreateAccountView, fields = view.userFields P
  | .post, fields => ∃ (form : NewPost) (board : String), fields = form.postFields board

theorem Step.store_evolves (h : Step P w e w') (name : CollectionName) :
    (w.store name).Evolves (Writes P name) (w'.store name) := by
  cases name with
  | user =>
    rcases h.user_cases with hs | ⟨c, f, q, r, -, -, hs⟩ | ⟨d, sent, -, hs⟩ | ⟨d, -, hs⟩
    · exact hs ▸ .same
    · exact hs ▸ .add _ ⟨_, rfl⟩
    · exact hs ▸ .commit d sent
    · exact hs ▸ .reject d
  | post =>
    rcases h.post_cases with hs | ⟨c, v, form, -, hs⟩ | ⟨d, sent, -, hs⟩ | ⟨d, -, hs⟩
    · exact hs ▸ .same
    · exact hs ▸ .add _ ⟨form, _, rfl⟩
    · exact hs ▸ .commit d sent
    · exact hs ▸ .reject d

/-- A collection only grows at its end. -/
theorem docs_grow {tr : List (Move World Event)} (run : Run (Step P) w tr w')
    (name : CollectionName) : (w.store name).docs <+: (w'.store name).docs :=
  run.invariant (I := fun u => (w.store name).docs <+: (u.store name).docs) (List.prefix_refl _)
    fun _ _ _ ih step => ih.trans (step.store_evolves name).docs_grow

/-- A document keeps the data it was sent with. -/
theorem added_data {w₁ w₂ : World} {name : CollectionName} {fields : Fields Value}
    (hadd : w₁.store name = (w.store name).add fields) (hreach : Reaches (Step P) w₁ w₂)
    {d : Document Value} (hd : d ∈ (w₂.store name).sent) (hid : d.id = (w.store name).nextId) :
    d.data = fields := by
  have hinv := hreach.invariant (I := fun u => (w.store name).nextId < (u.store name).nextId ∧
    ∀ d ∈ (u.store name).sent, d.id = (w.store name).nextId → d.data = fields) ?_ ?_
  · exact hinv.2 d hd hid
  · rw [hadd]
    refine ⟨Nat.lt_succ_self _, fun d hd hid => ?_⟩
    rw [Collection.sent_add] at hd
    rcases List.mem_append.mp hd with hd | hd
    · exact absurd hid (Collection.id_lt_nextId hd).ne
    · obtain rfl := List.mem_singleton.mp hd
      rfl
  · rintro u e u' ⟨hlt, hdata⟩ step
    have hev := step.store_evolves name
    refine ⟨hlt.trans_le hev.nextId_le, fun d hd hid => ?_⟩
    rcases hev.mem_sent hd with hd | ⟨hnew, -⟩
    · exact hdata d hd hid
    · omega

end World

end Pindex
