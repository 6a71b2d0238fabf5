import Pindex.World

/-!
# Replaying events

`World.exec` computes the step an event makes, `none` where the event cannot happen, and
`World.after` and `World.trace` replay a list of events. `step_of_exec` and `run_trace` tie
them to the step relation, so that a concrete run is found by evaluation.
-/

namespace Pindex

open DocStore Transition

/-! ## Deciding what the store may answer -/

/-- The prefixes of the documents from `since` on are tried one by one. -/
instance (c : Collection Value) (q : Query Value) (since : ℕ) (docs : List (Document Value)) :
    Decidable (c.Answers q since docs) :=
  decidable_of_iff ((List.range (c.docs.length + 1)).any fun n =>
      decide (since ≤ n) && docs.isPerm ((c.docs.take n).filter fun d => q.Matches d)) <| by
    simp only [Collection.Answers, List.any_eq_true, List.mem_range, Nat.lt_succ_iff,
      Bool.and_eq_true, decide_eq_true_eq, List.isPerm_iff]
    exact exists_congr fun n => by tauto

instance (c : Collection Value) (q : Query Value) (since : ℕ) (r : Response Value) :
    Decidable (c.Delivers q since r) :=
  decidable_of_iff (r.err = none → ∃ docs ∈ r.querySnapshot, c.Answers q since docs) <| by
    simp only [Collection.Delivers, Option.mem_def]

/-! ## One event of each part

The outer `none` is an event that cannot happen, the inner one a trap. -/

/-- One event of a registration form. -/
def Form.exec (P : Platform) (users : Collection Value) (form : Form) :
    FormEvent → Option (Option (Form × Option (Fields Value)))
  | .edit field text => some (some ({ form with view := form.view.edit text field }, none))
  | .tap => some (some (form.tap P users.docs.length, none))
  | .complete q r =>
    if q ∈ form.pending ∧ users.Delivers q.query q.since r then
      some ((form.view.processInputCompletion P users.nextId r).map fun result =>
        ({ form with view := result.1, pending := form.pending.erase q }, result.2))
    else none

/-- One event of a session. The text fields and the button are there while no map is open. -/
def Session.exec (P : Platform) (users : Collection Value) (s : Session) :
    SessionEvent → Option (Option Session)
  | .editUsername text =>
    if s.mapOpen = false then
      some (some { s with
        views := Function.update s.views s.top { s.views s.top with username := text } })
    else none
  | .editPassword text =>
    if s.mapOpen = false then
      some (some { s with
        views := Function.update s.views s.top { s.views s.top with password := text } })
    else none
  | .login =>
    if s.mapOpen = false then
      some (some { s with pending := s.pending ++ [s.attempt P users.docs.length] })
    else none
  | .complete q r =>
    if q ∈ s.pending ∧ users.Delivers q.query q.since r then
      some (((s.views q.view).loginCompletion r s.account).map fun result => { s with
        account := result.1
        views := Function.update s.views q.view result.2
        pending := s.pending.erase q })
    else none
  | .logOut => if s.mapOpen = true then some (some s.logOut) else none

/-- One event of a board. -/
def Board.exec (collection : Collection Value) (currentBulletinBoard : String) (board : Board) :
    BoardEvent → Option (Option (Board × Option (Fields Value)))
  | .onAppear => some (some ({
      view := { board.view with posts := [] }
      pending := board.pending ++ (PostRead.count :: (List.range 30).map PostRead.page).map
        fun read => ⟨read, currentBulletinBoard, collection.docs.length, board.removals + 1⟩
      removals := board.removals + 1
      origins := [] }, none))
  | .onDisappear => some (some (board.onDisappear, none))
  | .createPost form =>
    some (some (board.createPost currentBulletinBoard collection.nextId form,
      some (form.createPost currentBulletinBoard collection.nextId board.view.posts).2.2))
  | .complete q r =>
    if q ∈ board.pending ∧ collection.Delivers q.query q.since r then
      some ((q.read.completion r board.view.posts).map fun posts =>
        (board.complete q r posts, none))
    else none

/-- One event of a client, with the write it sends; what traps in a part crashes the client. -/
def Client.exec (P : Platform) (store : Store) (client : Client) :
    ClientEvent → Option (Client × Option (CollectionName × Fields Value))
  | .session e => (client.session.exec P (store .user) e).map fun
    | some session => ({ client with session := session }, none)
    | none => ({ client with crashed := true }, none)
  | .form f e => ((client.forms f).exec P (store .user) e).map fun
    | some (form, out) => ({ client with forms := Function.update client.forms f form },
        out.map (Prod.mk .user))
    | none => ({ client with crashed := true }, none)
  | .board v e =>
    ((client.boards v).exec (store .post) client.currentBulletinBoard e).map fun
    | some (board, out) => ({ client with boards := Function.update client.boards v board },
        out.map (Prod.mk .post))
    | none => ({ client with crashed := true }, none)
  | .selectPin board => some ({ client with currentBulletinBoard := board }, none)

/-! ## What is computed is a step

One lemma for each part: a computed result is a step of the part, and `none` a trap. -/

theorem Form.step_of_exec {P : Platform} {users : Collection Value} {form : Form} {e : FormEvent}
    {result : Option (Form × Option (Fields Value))} (h : form.exec P users e = some result) :
    (∀ form' out, result = some (form', out) → Form.Step P users form e form' out) ∧
      (result = none → form.Traps P users e) := by
  cases e with
  | edit field text =>
    obtain rfl := Option.some.inj h
    refine ⟨fun form' out heq => ?_, fun hnone => by cases hnone⟩
    cases heq
    exact .edit form field text
  | tap =>
    obtain rfl := Option.some.inj h
    refine ⟨fun form' out heq => ?_, fun hnone => by cases hnone⟩
    cases heq
    exact .tap form
  | complete q r =>
    simp only [exec, Option.ite_none_right_eq_some, Option.some.injEq] at h
    obtain ⟨⟨hq, hr⟩, rfl⟩ := h
    constructor
    · intro form' out heq
      obtain ⟨⟨view, out'⟩, hcomp, heq⟩ := Option.map_eq_some_iff.mp heq
      cases heq
      exact .complete hq hr hcomp
    · intro hnone
      exact ⟨hq, hr, Option.map_eq_none_iff.mp hnone⟩

theorem Session.step_of_exec {P : Platform} {users : Collection Value} {s : Session}
    {e : SessionEvent} {result : Option Session} (h : s.exec P users e = some result) :
    (∀ s', result = some s' → Session.Step P users s e s') ∧
      (result = none → s.Traps users e) := by
  cases e with
  | complete q r =>
    simp only [exec, Option.ite_none_right_eq_some, Option.some.injEq] at h
    obtain ⟨⟨hq, hr⟩, rfl⟩ := h
    constructor
    · intro s' heq
      obtain ⟨⟨account, view⟩, hcomp, rfl⟩ := Option.map_eq_some_iff.mp heq
      exact .complete hq hr hcomp
    · intro hnone
      exact ⟨hq, hr, Option.map_eq_none_iff.mp hnone⟩
  | _ =>
    simp only [exec, Option.ite_none_right_eq_some, Option.some.injEq] at h
    obtain ⟨hshown, rfl⟩ := h
    refine ⟨fun s' heq => ?_, fun hnone => by cases hnone⟩
    cases heq
    constructor
    exact hshown

theorem Board.step_of_exec {collection : Collection Value} {currentBulletinBoard : String}
    {board : Board} {e : BoardEvent} {result : Option (Board × Option (Fields Value))}
    (h : board.exec collection currentBulletinBoard e = some result) :
    (∀ board' out, result = some (board', out) →
      Board.Step collection currentBulletinBoard board e board' out) ∧
    (result = none → board.Traps collection e) := by
  cases e with
  | onAppear =>
    obtain rfl := Option.some.inj h
    refine ⟨fun board' out heq => ?_, fun hnone => by cases hnone⟩
    cases heq
    rw [← Board.onAppear_eq]
    exact .onAppear board
  | onDisappear =>
    obtain rfl := Option.some.inj h
    refine ⟨fun board' out heq => ?_, fun hnone => by cases hnone⟩
    cases heq
    exact .onDisappear board
  | createPost form =>
    obtain rfl := Option.some.inj h
    refine ⟨fun board' out heq => ?_, fun hnone => by cases hnone⟩
    cases heq
    exact .createPost board form
  | complete q r =>
    simp only [exec, Option.ite_none_right_eq_some, Option.some.injEq] at h
    obtain ⟨⟨hq, hr⟩, rfl⟩ := h
    constructor
    · intro board' out heq
      obtain ⟨posts, hcomp, heq⟩ := Option.map_eq_some_iff.mp heq
      cases heq
      exact .complete hq hr hcomp
    · intro hnone
      exact ⟨hq, hr, Option.map_eq_none_iff.mp hnone⟩

/-- The parts together: a client has no inner `none`, since a trap is one of its steps. -/
theorem Client.step_of_exec {P : Platform} {store : Store} {client client' : Client}
    {e : ClientEvent} {out : Option (CollectionName × Fields Value)}
    (h : client.exec P store e = some (client', out)) :
    Client.Step P store client e client' out := by
  cases e with
  | selectPin board =>
    cases h
    exact .selectPin client board
  | session e =>
    obtain ⟨result, hresult, h⟩ := Option.map_eq_some_iff.mp h
    obtain ⟨hstep, htrap⟩ := Session.step_of_exec hresult
    cases result with
    | none =>
      cases h
      exact .trap (htrap rfl)
    | some session =>
      cases h
      exact .session (hstep session rfl)
  | form f e =>
    obtain ⟨result, hresult, h⟩ := Option.map_eq_some_iff.mp h
    obtain ⟨hstep, htrap⟩ := Form.step_of_exec hresult
    cases result with
    | none =>
      cases h
      exact .trap (htrap rfl)
    | some result =>
      cases h
      exact .form f (hstep result.1 result.2 rfl)
  | board v e =>
    obtain ⟨result, hresult, h⟩ := Option.map_eq_some_iff.mp h
    obtain ⟨hstep, htrap⟩ := Board.step_of_exec hresult
    cases result with
    | none =>
      cases h
      exact .trap (htrap rfl)
    | some result =>
      cases h
      exact .board v (hstep result.1 result.2 rfl)

/-! ## Events of the world -/

namespace World

/-- One event of the world, `none` where it cannot happen. -/
def exec (P : Platform) (w : World) : Event → Option World
  | .client c e =>
    if (w.clients c).crashed = false then
      ((w.clients c).exec P w.store e).map fun result =>
        { store := w.store.send result.2, clients := Function.update w.clients c result.1 }
    else none
  | .commit name d =>
    if h : d ∈ (w.store name).inFlight then
      some { w with store := Function.update w.store name ((w.store name).commit d h) }
    else none
  | .reject name d =>
    if d ∈ (w.store name).inFlight then
      some { w with store := Function.update w.store name ((w.store name).reject d) }
    else none

/-- What is computed is a step of the world. -/
theorem step_of_exec {P : Platform} {w w' : World} {e : Event} (h : w.exec P e = some w') :
    Step P w e w' := by
  cases e with
  | client c e =>
    simp only [exec, Option.ite_none_right_eq_some, Option.map_eq_some_iff] at h
    obtain ⟨hrunning, ⟨client, out⟩, hclient, rfl⟩ := h
    exact .client c hrunning (Client.step_of_exec hclient)
  | commit name d =>
    simp only [exec] at h
    split at h
    · obtain rfl := Option.some.inj h
      exact .commit name d _
    · cases h
  | reject name d =>
    simp only [exec, Option.ite_none_right_eq_some, Option.some.injEq] at h
    obtain ⟨hsent, rfl⟩ := h
    exact .reject name d hsent

/-- The world after an event, unchanged where the event cannot happen. -/
def next (P : Platform) (w : World) (e : Event) : World := (w.exec P e).getD w

/-- The world after the events. -/
def after (P : Platform) (w : World) (events : List Event) : World := events.foldl (next P) w

/-- Every event can happen in its turn. -/
def replays (P : Platform) (w : World) : List Event → Bool
  | [] => true
  | e :: events => (w.exec P e).isSome && (next P w e).replays P events

/-- An event that can happen leads to the next world. -/
theorem step_next (P : Platform) (w : World) (e : Event) (h : (w.exec P e).isSome = true) :
    Step P w e (next P w e) := by
  obtain ⟨w', hw'⟩ := Option.isSome_iff_exists.mp h
  rw [next, hw']
  exact step_of_exec hw'

/-- The moves the events make. -/
def trace (P : Platform) (w : World) : List Event → List (Move World Event)
  | [] => []
  | e :: events => ⟨w, e, next P w e⟩ :: trace P (next P w e) events

/-- Events that can all happen in their turn are a run. -/
theorem run_trace (P : Platform) (w : World) (events : List Event)
    (h : w.replays P events = true) :
    Run (Step P) w (w.trace P events) (w.after P events) := by
  induction events generalizing w with
  | nil => exact .nil w
  | cons e events ih =>
    simp only [replays, Bool.and_eq_true] at h
    have hfirst : Run (Step P) w [⟨w, e, next P w e⟩] (next P w e) :=
      (Run.nil w).snoc (step_next P w e h.1)
    exact hfirst.append (ih _ h.2)

theorem event_mem_of_mem_trace {P : Platform} {w : World} {events : List Event}
    {m : Move World Event} (hm : m ∈ w.trace P events) : m.event ∈ events := by
  induction events generalizing w with
  | nil => cases hm
  | cons e events ih =>
    rcases List.mem_cons.mp hm with rfl | hm
    · exact List.mem_cons_self
    · exact List.mem_cons_of_mem e (ih hm)

end World

end Pindex
