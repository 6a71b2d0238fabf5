import Pindex.BoardIsolation
import Pindex.StoreTheorems

/-!
# The user can always go on

A device crashes on one thing: a document of `Location` without its two coordinates
(`System.crashed_iff`).

As long as none comes, it never gets stuck. A map can lose a tap on a pin for good: late handlers
reset the link that opens the board, and MapKit does not report the pin again. But from every
state, however late its handlers and completions are, the user can go back to the map, log out
and in again with a stored username and password; the map that this opens is a new one, and on
a new map every pin opens its board (`System.board_in_reach`).
-/

namespace Pindex

open DocStore Transition

/-! ## What crashes an app -/

namespace Device

variable {P : Platform} {store : Store} {d d' : Device} {e : DeviceEvent}
  {out : Option (CollectionName × Fields Value)}

/-- A step of a running device is none that crashes, or it traps. -/
theorem Step.crashed_cases (h : Step P store d e d' out) :
    (d'.crashed = d.crashed ∧ ∀ read document, e = .locate read document →
      Locations.Placed document) ∨ (d.Traps P store e ∧ d'.crashed = some e.crash) := by
  cases h with
  | trap traps => exact .inr ⟨traps, rfl⟩
  | locate read document pending completion =>
    refine .inl ⟨rfl, fun read' document' he => ?_⟩
    obtain ⟨-, rfl⟩ := DeviceEvent.locate.inj he
    by_contra hplaced
    rw [Locations.completion_eq_none_iff.mpr hplaced] at completion
    cases completion
  | deliver i hd => exact .inl ⟨by cases hd <;> rfl, fun _ _ he => by cases he⟩
  | _ => exact .inl ⟨rfl, fun _ _ he => by cases he⟩

theorem Step.crashed_location (running : d.crashed = none) (h : Step P store d e d' out) :
    d'.crashed = some .location ↔
      ∃ read document, e = .locate read document ∧ ¬ Locations.Placed document := by
  rcases h.crashed_cases with ⟨hsame, hplaced⟩ | ⟨htraps, hcrashed⟩
  · rw [hsame, running]
    refine iff_of_false (by simp) ?_
    intro ⟨read, document, he, hmisplaced⟩
    exact hmisplaced (hplaced read document he)
  · rw [hcrashed]
    rcases traps_cases htraps with ⟨ce, he, -, hcrash⟩ | ⟨read, document, rfl, hplaced⟩
    · rw [hcrash]
      refine iff_of_false (by simp) ?_
      rintro ⟨read, document, rfl, -⟩
      cases he
    · exact iff_of_true rfl ⟨read, document, rfl, hplaced⟩

end Device

namespace System

variable {P : Platform} {u₀ u u' : System} {e : SystemEvent} {c : ℕ}
  {tr : List (Move System SystemEvent)}

theorem crashed_location_step (step : Step P u e u') : (u'.devices c).crashed = some .location ↔
    (u.devices c).crashed = some .location ∨ Misplaces c ⟨u, e, u'⟩ := by
  cases step with
  | commit => simp [Misplaces]
  | reject => simp [Misplaces]
  | @device c' de d out running step =>
    show (Function.update u.devices c' d c).crashed = some .location ↔ _
    by_cases hc : c = c'
    · subst hc
      rw [Function.update_self, step.crashed_location running, running]
      simp [Misplaces]
    · rw [Function.update_of_ne hc]
      simp [Misplaces, Ne.symm hc]

theorem crashed_location_iff (hi : u₀.Initial) (run : Run (Step P) u₀ tr u) :
    (u.devices c).crashed = some .location ↔ ∃ m ∈ tr, Misplaces c m := by
  induction run with
  | nil => simp [hi.devices c]
  | snoc run step ih =>
    rw [crashed_location_step step, ih]
    simp only [List.mem_append, List.mem_singleton, or_and_right, exists_or, exists_eq_left]

/-- Nothing that the app stores crashes it. -/
theorem not_crashed_written (hi : u₀.Initial)
    (hschema : ∀ name, ∀ d ∈ (u₀.store name).docs, Schema name d.data)
    (h : Reaches (Step P) u₀ u) :
    u.world.SchemaHolds ∧ ∀ c, (u.devices c).crashed ≠ some .written := by
  have h0 : u₀.world.SchemaHolds := World.schemaHolds_initial (initial_world hi) hschema
  obtain ⟨hholds, hrunning⟩ := ((simulation P).reaches h).invariant
    (I := fun w => w.SchemaHolds ∧ ∀ c, (w.clients c).crashed = false)
    ⟨h0, fun c => congrArg Client.crashed ((initial_world hi).clients c)⟩
    fun w e w' ⟨hw, hrunning⟩ step =>
      ⟨World.schemaHolds_of_reaches hw ((Reaches.refl w).step step),
        fun c => World.running_step hw step c (hrunning c)⟩
  refine ⟨hholds, fun c hcrashed => ?_⟩
  have hclient : ((u.devices c).crashed == some .written) = false := hrunning c
  rw [hcrashed] at hclient
  cases hclient

theorem running_iff (hi : u₀.Initial)
    (hschema : ∀ name, ∀ d ∈ (u₀.store name).docs, Schema name d.data)
    (run : Run (Step P) u₀ tr u) :
    (u.devices c).crashed = none ↔ ∀ m ∈ tr, ¬ Misplaces c m := by
  have hlocation := crashed_location_iff (c := c) hi run
  have hwritten := (not_crashed_written hi hschema run.reaches).2 c
  cases hcrashed : (u.devices c).crashed with
  | none =>
    rw [hcrashed] at hlocation
    simpa using hlocation
  | some crash =>
    cases crash with
    | written => exact absurd hcrashed hwritten
    | location =>
      rw [hcrashed] at hlocation
      simpa using hlocation

theorem schema_aliceSystem (name : CollectionName) :
    ∀ d ∈ (aliceSystem.store name).docs, Schema name d.data := by
  intro d hd
  cases name with
  | user =>
    obtain rfl := List.mem_singleton.mp hd
    exact ⟨_, _, _, rfl, rfl, rfl⟩
  | post => cases hd

end System

/-! ## Logging in -/

namespace Session

variable {P : Platform} {users : Collection Value} {s : Session}

/-- The session goes on, and stays. -/
def Acts (P : Platform) (users : Collection Value) (s : Session) (e : SessionEvent)
    (s' : Session) : Prop :=
  e ≠ .logOut ∧ Step P users s e s'

/-- The credentials are typed into the screen that is shown. -/
theorem exists_typed (P : Platform) (users : Collection Value) (closed : s.mapOpen = false)
    (username password : String) :
    ∃ s', Reaches (Acts P users) s s' ∧ s'.top = s.top ∧ s'.mapOpen = false ∧
      (s'.views s'.top).username = username ∧ (s'.views s'.top).password = password := by
  let typed : Session := { s with
    views := Function.update s.views s.top { s.views s.top with username := username } }
  have htyped : typed.views typed.top = { s.views s.top with username := username } :=
    Function.update_self ..
  have closed' : typed.mapOpen = false := by
    show (typed.views typed.top).switchView = false
    rw [htyped]
    exact closed
  have hname : Acts P users s (.editUsername username) typed :=
    ⟨by simp, .editUsername s username closed⟩
  have hpassword : Acts P users typed (.editPassword password) _ :=
    ⟨by simp, .editPassword typed password closed'⟩
  refine ⟨_, ((Reaches.refl s).step hname).step hpassword, rfl, ?_, ?_, ?_⟩
  · show (Function.update typed.views typed.top _ typed.top).switchView = false
    rw [Function.update_self]
    exact closed'
  · show (Function.update typed.views typed.top _ typed.top).username = username
    rw [Function.update_self, htyped]
  · show (Function.update typed.views typed.top _ typed.top).password = password
    rw [Function.update_self]

/-- A login with a stored username and password opens the map. -/
theorem exists_login (closed : s.mapOpen = false)
    (casts : ∀ d ∈ users.docs, (UserAccount.ofDocument d).isSome) {d : Document Value}
    (stored : d ∈ users.docs) {username password : String}
    (husername : d.get? "Username" = some (.string username))
    (hpassword : d.get? "Password" = some (P.passwordValue password)) :
    ∃ s', Reaches (Acts P users) s s' ∧ s'.top = s.top ∧ s'.mapOpen = true := by
  obtain ⟨s₁, hreaches, htop, closed₁, husername₁, hpassword₁⟩ :=
    exists_typed P users closed username password
  let q := s₁.attempt P users.docs.length
  have hmatches : q.query.Matches d := by
    rw [← husername₁] at husername
    rw [← hpassword₁] at hpassword
    exact LoginView.credentialQuery_matches.mpr ⟨husername, hpassword⟩
  -- the query is answered with what matches now
  let docs := users.docs.filter fun x => q.query.Matches x
  have hdelivers : users.Delivers q.query q.since (.snapshot docs) := by
    intro _
    exact ⟨docs, rfl, Collection.answers_now.mpr (.refl _)⟩
  have hnonempty : docs ≠ [] :=
    List.ne_nil_of_mem (List.mem_filter.mpr ⟨stored, decide_eq_true hmatches⟩)
  have hcasts : ∀ x ∈ docs, (UserAccount.ofDocument x).isSome := fun x hx =>
    casts x (List.mem_of_mem_filter hx)
  have hruns : ((s₁.views q.view).loginCompletion (.snapshot docs) s₁.account).isSome :=
    LoginView.completion_isSome fun _ => ⟨docs, rfl, hcasts⟩
  obtain ⟨⟨account, view⟩, hcompletion⟩ := Option.isSome_iff_exists.mp hruns
  -- the snapshot is not empty, so an account is set and the map opens
  have hopens : view.switchView = true := by
    rcases LoginView.completion_cases hcompletion with ⟨herr, -⟩ |
      ⟨-, docs', hdocs', hcasts', haccount, hview⟩
    · exact absurd rfl herr
    · obtain rfl : docs = docs' := Option.some.inj hdocs'
      have hsome : account.isSome := by
        rw [haccount]
        exact (LoginView.isSome_lastAccount hcasts' _).mpr (.inl hnonempty)
      rw [hview, if_pos hsome]
  have hlogin : Acts P users s₁ .login _ := ⟨by simp, .login s₁ closed₁⟩
  have hcomplete : Acts P users { s₁ with pending := s₁.pending ++ [q] }
      (.complete q (.snapshot docs)) _ := ⟨by simp, .complete
        (List.mem_append_right _ (List.mem_singleton_self q)) hdelivers hcompletion⟩
  refine ⟨_, (hreaches.step hlogin).step hcomplete, htop, ?_⟩
  show (Function.update s₁.views s₁.top view s₁.top).switchView = true
  rw [Function.update_self]
  exact hopens

end Session

/-! ## One device by itself -/

namespace Device

variable {P : Platform} {store : Store} {d : Device} {i : ℕ}

/-- A running device goes on, and writes nothing. -/
def Acts (P : Platform) (store : Store) (d : Device) (e : DeviceEvent) (d' : Device) : Prop :=
  d.crashed = none ∧ Step P store d e d' none

/-- The session goes on by itself, except that the pins of a map that it opens are made. -/
theorem acts_session {s : Session} (running : d.crashed = none)
    (h : Reaches (Session.Acts P (store .user)) d.session s) :
    ∃ d', Reaches (Acts P store) d d' ∧ d'.crashed = none ∧ d'.session = s ∧
      d'.navigations = d.navigations := by
  obtain ⟨tr, run⟩ := h
  induction run with
  | nil => exact ⟨d, .refl d, running, rfl, rfl⟩
  | snoc _ step ih =>
    obtain ⟨d', hreaches, running', rfl, hnavigations⟩ := ih
    exact ⟨_, hreaches.step ⟨running', .session step.1 step.2⟩, running', rfl, hnavigations⟩

/-- The device is on the same screens of the session, and what is over map `i` is `n`. -/
structure OnMap (d : Device) (i : ℕ) (n : Navigation) (d' : Device) : Prop where
  running : d'.crashed = none
  session : d'.session = d.session
  navigation : d'.navigation i = n

theorem OnMap.shows {n : Navigation} {d' : Device} (h : OnMap d i n d') (shown : d.Shows i) :
    d'.Shows i := by
  unfold Shows
  rw [h.session]
  exact shown

theorem navigation_setNavigation (n : Navigation) : (d.setNavigation i n).navigation i = n := by
  show { Function.update d.navigations i n i with
    currentBulletinBoard := n.currentBulletinBoard } = n
  rw [Function.update_self]

theorem exists_navigation (P : Platform) (store : Store) {n n' : Navigation} {e : NavigationEvent}
    (running : d.crashed = none) (shown : d.Shows i) (h : d.navigation i = n)
    (onScreen : e.onScreen = true) (step : Navigation.Step n e n') :
    ∃ d', Reaches (Acts P store) d d' ∧ OnMap d i n' d' := by
  subst h
  have hstep : Acts P store d (.navigation i e) (d.setNavigation i n') :=
    ⟨running, .navigation onScreen shown step⟩
  exact ⟨_, (Reaches.refl d).step hstep, running, rfl, navigation_setNavigation n'⟩

/-- The hidden text appears. -/
theorem exists_textOnAppear (P : Platform) (store : Store) {n : Navigation}
    (running : d.crashed = none) (shown : d.Shows i) (h : d.navigation i = n)
    (pending : .textOnAppear ∈ n.pending) : ∃ d', Reaches (Acts P store) d d' ∧ OnMap d i { n with
      mapView := n.mapView.textOnAppear, pending := n.pending.erase .textOnAppear } d' := by
  subst h
  have hopened : (d.session.views i).switchView = true := by
    rw [shown.1]
    exact shown.2
  have hstep : Acts P store d (.navigation i (.deliver .textOnAppear)) _ :=
    ⟨running, .deliver d i .textOnAppear hopened pending⟩
  exact ⟨_, (Reaches.refl d).step hstep, running, rfl, navigation_setNavigation _⟩

/-- The back buttons lead to the map. -/
theorem exists_uncovered (P : Platform) (store : Store) (running : d.crashed = none)
    (shown : d.Shows i) :
    ∃ d', Reaches (Acts P store) d d' ∧ d'.crashed = none ∧ d'.session = d.session ∧
      (d'.navigation i).top = .map := by
  cases htop : (d.navigation i).top with
  | map => exact ⟨d, .refl d, running, rfl, htop⟩
  | board v =>
    obtain ⟨d₁, hreaches, hmap⟩ := exists_navigation P store running shown rfl
      rfl (.closeBoard _ htop)
    refine ⟨d₁, hreaches, hmap.running, hmap.session, ?_⟩
    rw [hmap.navigation]
    rfl
  | post v p =>
    obtain ⟨d₁, hreaches₁, hboard⟩ := exists_navigation P store running shown rfl
      rfl (.closePost _ htop)
    obtain ⟨d₂, hreaches₂, hmap⟩ := exists_navigation P store hboard.running
      (hboard.shows shown) hboard.navigation rfl (.closeBoard _ rfl)
    refine ⟨d₂, hreaches₁.trans hreaches₂, hmap.running, hmap.session.trans hboard.session, ?_⟩
    rw [hmap.navigation]
    rfl

/-- A login screen is never far. -/
theorem exists_closed (P : Platform) (store : Store) (running : d.crashed = none) :
    ∃ d', Reaches (Acts P store) d d' ∧ d'.crashed = none ∧ d'.session.mapOpen = false := by
  cases hopen : d.session.mapOpen with
  | false => exact ⟨d, .refl d, running, hopen⟩
  | true =>
    -- Log Out is a button of the map, which has to be uncovered for it
    obtain ⟨d₁, hreaches, running₁, hsession, hmap⟩ :=
      exists_uncovered P store running ⟨rfl, hopen⟩
    rw [← hsession] at hopen hmap
    refine ⟨d₁.logOut, hreaches.step ⟨running₁, .logOut d₁ hopen hmap⟩, running₁, ?_⟩
    show d₁.session.logOut.mapOpen = false
    simp [Session.logOut, Session.mapOpen]

/-- On a new map every pin opens its board: the pin is tapped, the hidden text is shown and
appears, and the link pushes the board. -/
theorem exists_board (P : Platform) (store : Store) (running : d.crashed = none)
    (shown : d.Shows i) (new : d.navigations i = {}) {pin : MapPin} (hpin : pin ∈ addPins) :
    ∃ d', Reaches (Acts P store) d d' ∧ d'.Shows i ∧ (d'.navigations i).top = .board 0 ∧
      d'.currentBulletinBoard = pin.board := by
  have hnew : d.navigation i = { currentBulletinBoard := d.currentBulletinBoard } := by
    unfold navigation
    rw [new]
  obtain ⟨d₁, hreaches₁, htapped⟩ := exists_navigation P store running shown hnew
    rfl (.tapPin _ pin rfl hpin (by simp))
  have shown₁ := htapped.shows shown
  obtain ⟨d₂, hreaches₂, hrendered⟩ := exists_navigation P store htapped.running
    shown₁ htapped.navigation rfl (.render _)
  have shown₂ := hrendered.shows shown₁
  -- the first rendering shows the hidden text, and its `onAppear` sets the action
  obtain ⟨d₃, hreaches₃, happeared⟩ := exists_textOnAppear P store
    hrendered.running shown₂ hrendered.navigation
    (List.mem_append_right _ (List.mem_singleton_self _))
  have shown₃ := happeared.shows shown₂
  obtain ⟨d₄, hreaches₄, hpushed⟩ := exists_navigation P store happeared.running
    shown₃ happeared.navigation rfl (.render _)
  refine ⟨d₄, ((hreaches₁.trans hreaches₂).trans hreaches₃).trans hreaches₄, hpushed.shows shown₃,
    ?_, ?_⟩
  · show (d₄.navigation i).top = .board 0
    rw [hpushed.navigation]
    rfl
  · show (d₄.navigation i).currentBulletinBoard = pin.board
    rw [hpushed.navigation]
    rfl

/-- From a login screen, a stored username and password lead to the board of every pin. -/
theorem exists_board_of_closed (running : d.crashed = none) (closed : d.session.mapOpen = false)
    (unopened : d.navigations d.session.top = {})
    (casts : ∀ x ∈ (store .user).docs, (UserAccount.ofDocument x).isSome) {user : Document Value}
    (stored : user ∈ (store .user).docs) {username password : String}
    (husername : user.get? "Username" = some (.string username))
    (hpassword : user.get? "Password" = some (P.passwordValue password)) {pin : MapPin}
    (hpin : pin ∈ addPins) : ∃ d' i, Reaches (Acts P store) d d' ∧ d'.Shows i ∧
      (d'.navigations i).top = .board 0 ∧ d'.currentBulletinBoard = pin.board := by
  obtain ⟨s, hsession, htop, hopen⟩ :=
    Session.exists_login closed casts stored husername hpassword
  obtain ⟨d₁, hreaches, running₁, rfl, hnavigations⟩ := acts_session running hsession
  rw [← htop, ← hnavigations] at unopened
  obtain ⟨d', hreaches', hboard⟩ := exists_board P store running₁ ⟨rfl, hopen⟩ unopened hpin
  exact ⟨d', _, hreaches.trans hreaches', hboard⟩

end Device

/-! ## The device in the system -/

namespace System

variable {P : Platform} {u₀ u : System} {c : ℕ} {past : List (Move System SystemEvent)}

/-- What a device does by itself is a run of the system, in which nothing else changes. -/
theorem run_of_acts {d : Device} (h : Reaches (Device.Acts P u.store) (u.devices c) d) :
    ∃ tr, Run (Step P) u tr { u with devices := Function.update u.devices c d } ∧
      ∀ m ∈ tr, ∃ e, m.event = .device c e := by
  obtain ⟨tr, run⟩ := h
  induction run with
  | nil =>
    rw [Function.update_eq_self]
    exact ⟨[], .nil u, fun m hm => absurd hm List.not_mem_nil⟩
  | @snoc d d' tr e run step ih =>
    obtain ⟨tr', run', hall⟩ := ih
    -- the store has not changed, so the step is one of the device in the system
    have hrunning : (Function.update u.devices c d c).crashed = none := by
      rw [Function.update_self]
      exact step.1
    have hacts : Device.Step P u.store (Function.update u.devices c d c) e d' none := by
      rw [Function.update_self]
      exact step.2
    have hstep := Step.device (u := { u with devices := Function.update u.devices c d }) c
      hrunning hacts
    change Step P _ _ { u with devices := Function.update (Function.update u.devices c d) c d' }
      at hstep
    rw [Function.update_idem] at hstep
    refine ⟨_, run'.snoc hstep, fun m hm => ?_⟩
    rcases List.mem_append.mp hm with hm | hm
    · exact hall m hm
    · exact ⟨e, by rw [List.mem_singleton.mp hm]⟩

/-- Whatever else has happened, a device can by itself come to the board of every pin, for a
user with a stored username and password. -/
theorem board_in_reach (hi : u₀.Initial)
    (hschema : ∀ name, ∀ d ∈ (u₀.store name).docs, Schema name d.data)
    (run : Run (Step P) u₀ past u) (placed : ∀ m ∈ past, ¬ Misplaces c m) {user : Document Value}
    (stored : user ∈ (u.store .user).docs) {username password : String}
    (husername : user.get? "Username" = some (.string username))
    (hpassword : user.get? "Password" = some (P.passwordValue password)) {pin : MapPin}
    (hpin : pin ∈ addPins) : ∃ tr d i, Run (Step P) u tr
        { u with devices := Function.update u.devices c d } ∧
      (∀ m ∈ tr, ∃ e, m.event = .device c e) ∧ d.Shows i ∧
      (d.navigations i).top = .board 0 ∧ d.currentBulletinBoard = pin.board := by
  have hrunning : (u.devices c).crashed = none := (running_iff hi hschema run).mpr placed
  obtain ⟨d₁, hreaches₁, running₁, closed⟩ := Device.exists_closed P u.store hrunning
  -- a map that has not been opened is a new one
  have hnew : d₁.navigations d₁.session.top = {} := by
    obtain ⟨tr₁, run₁, -⟩ := run_of_acts hreaches₁
    have hapart := boardsApart_of_run hi (run.append run₁) c
    have hdevice : Function.update u.devices c d₁ c = d₁ := Function.update_self ..
    change (Function.update u.devices c d₁ c).BoardsApart _ at hapart
    rw [hdevice] at hapart
    exact hapart.unopened _ closed
  obtain ⟨hholds, -⟩ := not_crashed_written hi hschema run.reaches
  have hcasts : ∀ x ∈ (u.store .user).docs, (UserAccount.ofDocument x).isSome := fun x hx =>
    ofDocument_isSome_of_schema (hholds .user x (Collection.mem_sent_of_mem_docs hx))
  obtain ⟨d, i, hreaches, hboard⟩ := Device.exists_board_of_closed running₁ closed hnew hcasts
    stored husername hpassword hpin
  obtain ⟨tr, run', hall⟩ := run_of_acts (hreaches₁.trans hreaches)
  exact ⟨tr, d, i, run', hall, hboard⟩

/-- Alice has posted to one board, and handlers and queries are pending; she comes to the other
board. -/
theorem alice_reaches_the_library : ∃ past u, Run (Step .plain) aliceSystem past u ∧ Visits u ∧
    ∃ tr d i, Run (Step .plain) u tr { u with devices := Function.update u.devices 0 d } ∧
      (∀ m ∈ tr, ∃ e, m.event = .device 0 e) ∧ d.Shows i ∧ (d.navigations i).top = .board 0 ∧
      d.currentBulletinBoard = "18th avenue library" := by
  obtain ⟨past, u, u', run, step, visits, hplaced⟩ := exists_posting
  have hpin : Navigation.library ∈ addPins := by decide
  exact ⟨_, u', run.snoc step, visits, board_in_reach initial_aliceSystem schema_aliceSystem
    (run.snoc step) (not_misplaces_snoc hplaced (by simp)) visits.stored rfl rfl hpin⟩

end System

end Pindex
