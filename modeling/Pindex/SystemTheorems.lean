import Pindex.CenteringTheorems
import Pindex.DeviceTheorems

/-!
# The app as one: what holds in every run

Three laws that need what the parts of the user interface ask of each other:

* a map is used only on a device that has found an account since its last Log Out
  (`System.map_used_after_login`);
* so is what is posted, and it goes to the board of a pin (`System.posted_by_user`);
* when a board has been closed, the next location moves the map
  (`System.recentred_after_board`).
-/

namespace Pindex

open DocStore Transition

/-! ## An open map has an account behind it -/

theorem World.account_of_mapOpen {P : Platform} {w₀ w : World} (hi : w₀.Initial)
    (h : Reaches (World.Step P) w₀ w) (c : ℕ) :
    (w.session c).mapOpen = true → (w.session c).account.isSome := by
  refine h.invariant (I := fun w => (w.session c).mapOpen = true →
    (w.session c).account.isSome) ?_ ?_
  · unfold World.session
    rw [hi.clients c]
    intro hopen
    cases hopen
  · intro w e w' ih step hopen
    have hopen' : ((w'.session c).views (w'.session c).top).switchView = true := hopen
    cases step.session_move c with
    | idle account top views =>
      rw [top, views] at hopen'
      rw [account]
      exact ih hopen'
    | stale _ _ _ isSome account => rw [account]; exact isSome
    | finds _ _ finds _ _ account => rw [account]; exact finds.isSome
    | logOut _ _ target =>
      have hclosed : (w'.session c).mapOpen = false := by
        rw [target]
        simp [Session.logOut, Session.mapOpen]
      rw [hclosed] at hopen
      cases hopen

namespace System

variable {P : Platform} {u₀ u u' : System} {e : SystemEvent} {c : ℕ}
  {tr past : List (Move System SystemEvent)} {m : Move System SystemEvent}

def LogsOut (c : ℕ) (m : Move System SystemEvent) : Prop :=
  m.event = .device c (.session .logOut)

/-- The completion of a login attempt is called with a snapshot that is not empty, and whose
documents all read back as accounts. -/
def FindsAccount (c : ℕ) (m : Move System SystemEvent) : Prop :=
  ∃ q r docs, m.event = .device c (.session (.complete q r)) ∧ r.err = none ∧
    r.querySnapshot = some docs ∧ docs ≠ [] ∧ ∀ d ∈ docs, (UserAccount.ofDocument d).isSome

/-- The user does something on a map or on what covers it, or SwiftUI renders it. MapKit's own
gestures ask nothing of the app, and a location may come at any time: neither counts. -/
def UsesMap (c : ℕ) (m : Move System SystemEvent) : Prop :=
  LogsOut c m ∨ ∃ i e, m.event = .device c (.navigation i e) ∧
    (e.onScreen = true ∨ ∃ form, e = .createPost form)

/-- What happens to a map is for the client the choice of a pin, or is about a board. -/
theorem clientEvent_navigation {d : Device} {i : ℕ} {ne : NavigationEvent} {ce : ClientEvent}
    (h : d.clientEvent (.navigation i ne) = some ce) :
    (∃ board, ce = .selectPin board) ∨ ∃ v be, ce = .board v be := by
  cases ne with
  | tapPin pin => exact .inl ⟨_, (Option.some.inj h).symm⟩
  | render =>
    obtain ⟨pin, -, rfl⟩ := Option.map_eq_some_iff.mp h
    exact .inl ⟨_, rfl⟩
  | complete v q r => exact .inr ⟨_, _, (Option.some.inj h).symm⟩
  | deliver hd =>
    cases hd with
    | boardOnAppear v => exact .inr ⟨_, _, (Option.some.inj h).symm⟩
    | boardOnDisappear v => exact .inr ⟨_, _, (Option.some.inj h).symm⟩
    | _ => cases h
  | createPost form =>
    simp only [Device.clientEvent] at h
    split at h
    · exact .inr ⟨_, _, (Option.some.inj h).symm⟩
    · cases h
  | _ => cases h

/-- The events of sessions and forms are the same in a system and in its world. -/
theorem clientEvent_session {d : Device} {e : DeviceEvent} {se : SessionEvent} :
    d.clientEvent e = some (.session se) ↔ e = .session se := by
  constructor
  · intro h
    cases e with
    | session se' => rw [ClientEvent.session.inj (Option.some.inj h)]
    | form => cases h
    | map => cases h
    | makeMapView => cases h
    | locate => cases h
    | navigation => rcases clientEvent_navigation h with ⟨_, h⟩ | ⟨_, _, h⟩ <;> cases h
  · rintro rfl
    rfl

theorem clientEvent_form {d : Device} {e : DeviceEvent} {f : ℕ} {fe : FormEvent} :
    d.clientEvent e = some (.form f fe) ↔ e = .form f fe := by
  constructor
  · intro h
    cases e with
    | session => cases h
    | form f' fe' =>
      obtain ⟨rfl, rfl⟩ := ClientEvent.form.inj (Option.some.inj h)
      rfl
    | map => cases h
    | makeMapView => cases h
    | locate => cases h
    | navigation => rcases clientEvent_navigation h with ⟨_, h⟩ | ⟨_, _, h⟩ <;> cases h
  · rintro rfl
    rfl

theorem worldEvent_client {u : System} {e : SystemEvent} {ce : ClientEvent} :
    u.worldEvent e = some (.client c ce) ↔
      ∃ de, e = .device c de ∧ (u.devices c).clientEvent de = some ce := by
  cases e with
  | commit => simp [worldEvent]
  | reject => simp [worldEvent]
  | device c' de =>
    show ((u.devices c').clientEvent de).map (Event.client c') = _ ↔ _
    rw [Option.map_eq_some_iff]
    constructor
    · rintro ⟨ce', hce, heq⟩
      obtain ⟨rfl, rfl⟩ := Event.client.inj heq
      exact ⟨de, rfl, hce⟩
    · rintro ⟨de', heq, hce⟩
      obtain ⟨rfl, rfl⟩ := SystemEvent.device.inj heq
      exact ⟨ce, hce, rfl⟩

theorem worldEvent_session {u : System} {e : SystemEvent} {se : SessionEvent} :
    u.worldEvent e = some (.client c (.session se)) ↔ e = .device c (.session se) := by
  rw [worldEvent_client]
  simp [clientEvent_session]

theorem worldEvent_form {u : System} {e : SystemEvent} {f : ℕ} {fe : FormEvent} :
    u.worldEvent e = some (.client c (.form f fe)) ↔ e = .device c (.form f fe) := by
  rw [worldEvent_client]
  simp [clientEvent_form]

/-- Accounts are found, and Log Out is tapped, in a system when they are in its world. -/
theorem since_found_iff : Since (World.FindsAccount c) (fun m => ¬ World.LogsOut c m)
    ((simulation P).trace tr) ↔ Since (FindsAccount c) (fun m => ¬ LogsOut c m) tr := by
  have hevent : ∀ {m : Move System SystemEvent} {se : SessionEvent},
      m.event = .device c (.session se) ↔
        m.source.worldEvent m.event = some (.client c (.session se)) :=
    worldEvent_session.symm
  apply Simulation.since_trace
  · intro m m' hmove
    obtain ⟨we, hwe, rfl⟩ := Option.map_eq_some_iff.mp hmove
    have hwe' : m.source.worldEvent m.event = some we := hwe
    refine ⟨⟨?_, ?_⟩, not_congr ⟨?_, ?_⟩⟩
    · rintro ⟨q, docs, ⟨r, he, herr, hdocs⟩, hne, hcasts⟩
      have he' : we = .client c (.session (.complete q r)) := he
      exact ⟨q, r, docs, hevent.mpr (he' ▸ hwe'), herr, hdocs, hne, hcasts⟩
    · rintro ⟨q, r, docs, he, herr, hdocs, hne, hcasts⟩
      rw [hevent, hwe'] at he
      exact ⟨q, docs, ⟨r, Option.some.inj he, herr, hdocs⟩, hne, hcasts⟩
    · intro he
      have he' : we = .client c (.session .logOut) := he
      exact hevent.mpr (he' ▸ hwe')
    · intro he
      rw [LogsOut, hevent, hwe'] at he
      exact Option.some.inj he
  -- a move that is nothing in the world is no event of a session
  · intro m hmove
    have hnone : m.source.worldEvent m.event = none := Option.map_eq_none_iff.mp hmove
    refine ⟨?_, ?_⟩
    · rintro ⟨q, r, docs, he, -⟩
      rw [hevent, hnone] at he
      cases he
    · intro he
      rw [LogsOut, hevent, hnone] at he
      cases he

/-- A map that is used is open. -/
theorem mapOpen_of_usesMap (step : Step P m.source m.event m.target) (h : UsesMap c m) :
    (m.source.devices c).session.mapOpen = true := by
  obtain ⟨source, e, target⟩ := m
  change Step P source e target at step
  rcases h with he | ⟨i, ne, he, huses⟩
  · obtain rfl : e = _ := he
    cases step with
    | device _ running step =>
      cases step with
      | session stays _ => exact absurd rfl stays
      | logOut shown uncovered => exact shown
      | trap traps => exact traps.elim
  · obtain rfl : e = _ := he
    cases step with
    | device _ running step =>
      cases step with
      | navigation onScreen shown _ => exact shown.2
      | createPost shown covers step => exact shown.2
      | deliver => simp [NavigationEvent.onScreen] at huses
      | complete => simp [NavigationEvent.onScreen] at huses
      | trap traps =>
        cases ne with
        | complete => simp [NavigationEvent.onScreen] at huses
        | _ => exact traps.elim

theorem account_of_mapOpen (hi : u₀.Initial) (run : Run (Step P) u₀ tr u)
    (hopen : (u.devices c).session.mapOpen = true) : (u.devices c).session.account.isSome := by
  have hreaches : Reaches (World.Step P) u₀.world u.world := (simulation P).reaches run.reaches
  exact World.account_of_mapOpen (initial_world hi) hreaches c hopen

/-- While a map is open, an account has been found since the last Log Out. -/
theorem logged_in_of_mapOpen (hi : u₀.Initial) (run : Run (Step P) u₀ tr u)
    (hopen : (u.devices c).session.mapOpen = true) :
    Since (FindsAccount c) (fun m => ¬ LogsOut c m) tr := by
  have hrun : Run (World.Step P) u₀.world ((simulation P).trace tr) u.world :=
    (simulation P).run run
  rw [← since_found_iff, ← World.account_isSome_iff (initial_world hi) hrun c]
  exact account_of_mapOpen hi run hopen

/-- Nobody uses a map without a login that has found an account since the last Log Out. -/
theorem map_used_after_login (hi : u₀.Initial) (run : Run (Step P) u₀ tr u)
    (hpast : past ++ [m] <+: tr) (h : UsesMap c m) :
    Since (FindsAccount c) (fun m => ¬ LogsOut c m) past := by
  obtain ⟨hrun, hstep⟩ := run.of_past hpast
  exact logged_in_of_mapOpen hi hrun (mapOpen_of_usesMap hstep h)

/-- The apps are started next to the collections of `World.aliceWorld`. -/
def aliceSystem : System where
  store := World.aliceWorld.store
  devices _ := {}

theorem initial_aliceSystem : aliceSystem.Initial :=
  ⟨fun _ => rfl, World.initial_ofDocs.inFlight⟩

def firstPost : NewPost := { eventName := "Hello" }

/-- A read of `Location` of device `c` is answered with a document that lacks a coordinate. -/
def Misplaces (c : ℕ) (m : Move System SystemEvent) : Prop :=
  ∃ read document, m.event = .device c (.locate read document) ∧ ¬ Locations.Placed document

theorem not_misplaces_snoc (h : ∀ m ∈ tr, ¬ Misplaces c m)
    (he : ∀ read document, e = .device c (.locate read document) → Locations.Placed document) :
    ∀ m ∈ tr ++ [⟨u, e, u'⟩], ¬ Misplaces c m := by
  refine List.forall_mem_append.mpr ⟨h, List.forall_mem_singleton.mpr ?_⟩
  intro ⟨read, document, hevent, hplaced⟩
  exact hplaced (he read document hevent)

/-- Where `akul` is. -/
def campus : Document Value := ⟨0, [("latitude", .number 40), ("longitude", .number (-83))]⟩

theorem placed_campus : Locations.Placed (some campus) := by
  intro d hd
  obtain rfl := Option.some.inj hd
  exact ⟨rfl, rfl⟩

/-- The first device shows the board of a pin with one post, over a map that has been made. -/
structure Visits (u : System) : Prop where
  running : (u.devices 0).crashed = none
  shown : (u.devices 0).Shows 0
  top : ((u.devices 0).navigations 0).top = .board 0
  posts : (((u.devices 0).navigations 0).boards 0).view.posts = [⟨"Hello", "", 0⟩]
  current : (u.devices 0).currentBulletinBoard = "akul"
  sent : ∃ d, (u.store .post).sent = [d]
  stored : World.alice ∈ (u.store .user).docs
  handler : .mapOnDisappear ∈ ((u.devices 0).navigations 0).pending
  queries : (((u.devices 0).navigations 0).boards 0).pending ≠ []
  initialized : 0 < (u.devices 0).maps.initialized
  made : 0 < (u.devices 0).maps.made

/-- The first device after a login, with nothing done on the map yet. -/
def loggedIn (s : Session) : System := { aliceSystem with
  devices := Function.update aliceSystem.devices 0
    { session := s, locations := Locations.addPins {} } }

/-- What a device was in between is gone. -/
theorem run_update {store : Store} {devices : ℕ → Device} {d d' : Device}
    (run : Run (Step P) u₀ tr ⟨store, Function.update (Function.update devices c d) c d'⟩) :
    Run (Step P) u₀ tr ⟨store, Function.update devices c d'⟩ := by
  rwa [Function.update_idem] at run

/-- Alice logs in. -/
theorem exists_loggedIn : ∃ tr s, Run (Step .plain) aliceSystem tr (loggedIn s) ∧ s.top = 0 ∧
    (s.views 0).switchView = true ∧ ∀ m ∈ tr, ¬ Misplaces 0 m := by
  have h1 := (Run.nil aliceSystem).snoc
    (Step.device (P := .plain) 0 rfl (.session (by simp) (.editUsername _ "alice" rfl)))
  have h2 := run_update (h1.snoc
    (.device 0 rfl (.session (by simp) (.editPassword _ "Passw0rd" rfl))))
  have h3 := run_update (h2.snoc (.device 0 rfl (.session (by simp) (.login _ rfl))))
  have h4 := run_update (h3.snoc (.device 0 rfl (.session (by simp) (.complete
    (q := World.aliceAttempt) (r := .snapshot [World.alice]) (by decide) (by decide) rfl))))
  refine ⟨_, _, h4, rfl, rfl, ?_⟩
  repeat refine not_misplaces_snoc ?_ (by simp)
  simp

/-- Alice logs in, the pin of `akul` is put in its place, and she opens its board and posts to
it. -/
theorem exists_posting : ∃ past u u', Run (Step .plain) aliceSystem past u ∧
    Step .plain u (.device 0 (.navigation 0 (.createPost firstPost))) u' ∧ Visits u' ∧
    ∀ m ∈ past, ¬ Misplaces 0 m := by
  obtain ⟨tr, s, hlogin, htop, hopened, hplaced⟩ := exists_loggedIn
  have hshown : 0 = s.top ∧ s.mapOpen = true := by
    unfold Session.mapOpen
    rw [htop]
    exact ⟨rfl, hopened⟩
  have hcoordinate : Locations.completion (some campus) ⟨0, 0⟩ = some ⟨40, -83⟩ := rfl
  have hpin : Navigation.akul ∈ addPins := by decide
  have h1 := hlogin.snoc (.device 0 rfl (.locate _ ⟨0, "akul"⟩ (some campus) List.mem_cons_self
    hcoordinate))
  have h2 := h1.snoc (.device 0 rfl (.map (e := .body 0 addPins none) ⟨hopened, rfl, rfl⟩
    (.body _ 0 addPins none)))
  have h3 := h2.snoc (.device 0 rfl (.map (e := .makeUIView 0) trivial (.makeUIView _ 0 {} rfl)))
  have h4 := h3.snoc (.device 0 rfl (.navigation (i := 0) rfl hshown
    (.tapPin _ Navigation.akul rfl hpin (fun h => by cases h))))
  have h5 := h4.snoc (.device 0 rfl (.navigation (i := 0) rfl hshown (.render _)))
  have h6 := h5.snoc (.device 0 rfl (.deliver _ 0 .textOnAppear hopened
    (show _ ∈ [Handler.mapOnAppear, .textOnAppear] by decide)))
  have h7 := h6.snoc (.device 0 rfl (.navigation (i := 0) rfl hshown (.render _)))
  have h8 := h7.snoc (.device 0 rfl (.deliver _ 0 (.boardOnAppear 0) hopened
    (show _ ∈ [Handler.mapOnAppear, .mapOnDisappear, .boardOnAppear 0] by decide)))
  refine ⟨_, _, _, h8, .device 0 rfl (.createPost (i := 0) (v := 0) hshown rfl
    (.createPost _ firstPost)), ?_, ?_⟩
  · exact ⟨rfl, hshown, rfl, rfl, rfl, ⟨_, rfl⟩, List.mem_singleton_self _,
      show _ ∈ [Handler.mapOnAppear, .mapOnDisappear] by decide, List.cons_ne_nil _ _,
      Nat.zero_lt_one, Nat.zero_lt_one⟩
  · repeat refine not_misplaces_snoc ?_ (by simp [placed_campus])
    exact hplaced

theorem alice_posts_after_login : ∃ past m u, Run (Step .plain) aliceSystem (past ++ [m]) u ∧
    UsesMap 0 m ∧ Since (FindsAccount 0) (fun m => ¬ LogsOut 0 m) past := by
  obtain ⟨past, u, u', run, step, -, -⟩ := exists_posting
  have huses : UsesMap 0 ⟨u, _, u'⟩ := .inr ⟨0, _, rfl, .inr ⟨firstPost, rfl⟩⟩
  exact ⟨past, _, u', run.snoc step, huses, map_used_after_login initial_aliceSystem
    (run.snoc step) (List.prefix_refl _) huses⟩

end System

/-! ## What a write does to the store -/

namespace Store

variable (store : Store) (name : CollectionName)

@[simp] theorem docs_send (out : Option (CollectionName × Fields Value)) :
    ((store.send out) name).docs = (store name).docs := by
  cases out with
  | none => rfl
  | some write =>
    obtain ⟨name', fields⟩ := write
    show (Function.update store name' ((store name').add fields) name).docs = _
    by_cases hname : name = name'
    · subst hname
      rw [Function.update_self, Collection.docs_add]
    · rw [Function.update_of_ne hname]

theorem mem_sent_send (fields : Fields Value) :
    ⟨(store name).nextId, fields⟩ ∈ ((store.send (some (name, fields))) name).sent := by
  show _ ∈ (Function.update store name ((store name).add fields) name).sent
  rw [Function.update_self, Collection.sent_add]
  exact List.mem_append_right _ (List.mem_singleton_self _)

variable {store name}

theorem mem_sent_of_send {out : Option (CollectionName × Fields Value)} {d : Document Value}
    (hd : d ∈ ((store.send out) name).sent) : d ∈ (store name).sent ∨
      ∃ fields, out = some (name, fields) ∧ d = ⟨(store name).nextId, fields⟩ := by
  cases out with
  | none => exact .inl hd
  | some write =>
    obtain ⟨name', fields⟩ := write
    change d ∈ (Function.update store name' ((store name').add fields) name).sent at hd
    by_cases hname : name = name'
    · subst hname
      rw [Function.update_self, Collection.sent_add] at hd
      rcases List.mem_append.mp hd with hd | hd
      · exact .inl hd
      · exact .inr ⟨fields, rfl, List.mem_singleton.mp hd⟩
    · rw [Function.update_of_ne hname] at hd
      exact .inl hd

/-- A decision of the store sends nothing. -/
theorem mem_sent_of_decided {name' : CollectionName} {collection : Collection Value}
    (hsent : ∀ d ∈ collection.sent, d ∈ (store name').sent) {d : Document Value}
    (hd : d ∈ (Function.update store name' collection name).sent) : d ∈ (store name).sent := by
  by_cases hname : name = name'
  · subst hname
    rw [Function.update_self] at hd
    exact hsent d hd
  · rwa [Function.update_of_ne hname] at hd

end Store

/-! ## The boards there are -/

namespace Navigation

variable {s s' : Navigation} {e : NavigationEvent}

/-- No pin has been selected on this map yet. -/
structure Untouched (s : Navigation) : Prop where
  top : s.top = .map
  selectedPin : s.mapView.selectedPin = none
  action : s.mapView.action ≠ some 1
  pending : .textOnAppear ∉ s.pending

theorem Untouched.render (h : s.Untouched) : s.render.Untouched := by
  -- without an action there is no board to push
  rcases render_cases s with ⟨-, hpushed⟩ | ⟨-, htop, hpending⟩
  · exfalso
    have hstays : s.render.top = s.top := by
      have hframe := updateUIView_frame s.showText
      have hview : s.showText.updateUIView.mapView = s.mapView := updateUIView_mapView _
      unfold Navigation.render pushBoard
      rw [if_neg]
      · exact hframe.1
      · rintro ⟨-, haction⟩
        rw [hview] at haction
        exact h.action haction
    obtain ⟨v, hv⟩ := hpushed.1
    rw [hstays, h.top] at hv
    cases hv
  · refine ⟨htop.trans h.top, ?_, ?_, ?_⟩
    · rw [render_mapView]
      exact h.selectedPin
    · rw [render_mapView]
      exact h.action
    -- and without a selected pin the hidden text does not appear
    · rw [hpending, mem_showText_pending]
      rintro (hmem | ⟨-, hselected, -⟩)
      · exact h.pending hmem
      · rw [h.selectedPin] at hselected
        cases hselected

theorem Untouched.deliver (h : s.Untouched) {hd : Handler} (hmem : hd ∈ s.pending) (since : ℕ) :
    ({ s with pending := s.pending.erase hd }.handle since hd).Untouched := by
  have herase : .textOnAppear ∉ s.pending.erase hd := fun ht => h.pending (List.mem_of_mem_erase ht)
  have hzero : (some 0 : Option ℤ) ≠ some 1 := by decide
  cases hd with
  | textOnAppear => exact absurd hmem h.pending
  | mapOnAppear => exact ⟨h.top, h.selectedPin, hzero, herase⟩
  | mapOnDisappear => exact ⟨h.top, rfl, h.action, herase⟩
  | boardOnAppear v => exact ⟨h.top, h.selectedPin, h.action, herase⟩
  | boardOnDisappear v => exact ⟨h.top, h.selectedPin, hzero, herase⟩

/-- The pins of the map are the hardcoded ones, and one of them is selected, if any. -/
structure PinsKnown (s : Navigation) : Prop where
  pins : s.mapView.pins = addPins
  selected : ∀ pin, s.mapView.selectedPin = some pin → pin ∈ addPins

theorem PinsKnown.onScreen (h : s.PinsKnown) (step : Step s e s') (onScreen : e.onScreen = true) :
    s'.PinsKnown := by
  cases step with
  | tapPin pin shown known =>
    obtain ⟨-, -, -, -, hselected⟩ := tapPin_frame s pin
    constructor
    · unfold tapPin
      split <;> exact h.pins
    · intro pin' hpin'
      obtain rfl : pin = pin' := Option.some.inj (hselected.symm.trans hpin')
      exact h.pins ▸ known
  | tapMap => exact ⟨h.pins, fun pin hpin => by cases hpin⟩
  | render =>
    constructor
    · rw [render_mapView]
      exact h.pins
    · rw [render_mapView]
      exact h.selected
  | deliver => cases onScreen
  | complete => cases onScreen
  | createPost => cases onScreen
  | _ => exact ⟨h.pins, h.selected⟩

/-- A step on the screen selects the board of a pin, or the current one stays. -/
theorem PinsKnown.current (h : s.PinsKnown) (step : Step s e s') (onScreen : e.onScreen = true) :
    (∃ pin ∈ addPins, s'.currentBulletinBoard = pin.board) ∨
      (s'.currentBulletinBoard = s.currentBulletinBoard ∧ (s.Untouched → s'.Untouched)) := by
  cases step with
  | tapPin pin shown known =>
    exact .inl ⟨pin, h.pins ▸ known, (tapPin_boards s pin).2⟩
  | tapMap shown selected =>
    exact .inr ⟨rfl, fun hu => ⟨hu.top, rfl, hu.action, hu.pending⟩⟩
  | render =>
    -- a rendering selects the pin of the map anew, if there is one
    cases hselected : s.mapView.selectedPin with
    | some pin =>
      refine .inl ⟨pin, h.selected pin hselected, ?_⟩
      rw [render_current, hselected]
    | none =>
      refine .inr ⟨?_, Untouched.render⟩
      rw [render_current, hselected]
  | openPost p shown => exact .inr ⟨rfl, fun hu => by rw [hu.top] at shown; cases shown⟩
  | closePost shown => exact .inr ⟨rfl, fun hu => by rw [hu.top] at shown; cases shown⟩
  | closeBoard shown => exact .inr ⟨rfl, fun hu => by rw [hu.top] at shown; cases shown⟩
  | closeLink shown =>
    refine .inr ⟨rfl, fun hu => ?_⟩
    rw [hu.top] at shown
    simp at shown
  | deliver => cases onScreen
  | complete => cases onScreen
  | createPost => cases onScreen

end Navigation

namespace Device

variable {P : Platform} {store : Store} {d d' : Device} {e : DeviceEvent}
  {out : Option (CollectionName × Fields Value)}

/-- The current bulletin board is the one of a pin as soon as a pin has been selected on one of
the maps. -/
structure PinsOnly (navigations : ℕ → Navigation) (currentBulletinBoard : String) : Prop where
  known : ∀ i, (navigations i).PinsKnown
  chosen : (∃ pin ∈ addPins, currentBulletinBoard = pin.board) ∨ ∀ i, (navigations i).Untouched

theorem pinsOnly_initial : PinsOnly (fun _ => {}) "B Board" where
  known _ := ⟨rfl, fun _ h => by cases h⟩
  chosen := .inr fun _ => ⟨rfl, rfl, by decide, by decide⟩

theorem PinsOnly.update {navigations : ℕ → Navigation} {current current' : String} {i : ℕ}
    {n : Navigation} (h : PinsOnly navigations current) (known : n.PinsKnown)
    (hn : (∃ pin ∈ addPins, current' = pin.board) ∨
      (current' = current ∧ ((navigations i).Untouched → n.Untouched))) :
    PinsOnly (Function.update navigations i n) current' := by
  refine ⟨fun j => ?_, ?_⟩
  · by_cases hj : j = i
    · rw [hj, Function.update_self]
      exact known
    · rw [Function.update_of_ne hj]
      exact h.known j
  · rcases hn with hchosen | ⟨rfl, huntouched⟩
    · exact .inl hchosen
    · refine h.chosen.imp_right fun hall j => ?_
      by_cases hj : j = i
      · rw [hj, Function.update_self]
        exact huntouched (hall i)
      · rw [Function.update_of_ne hj]
        exact hall j

/-- Whoever has a board on the screen has selected a pin. -/
theorem PinsOnly.of_board {navigations : ℕ → Navigation} {current : String} {i v : ℕ}
    (h : PinsOnly navigations current) (covers : (navigations i).top = .board v) :
    ∃ pin ∈ addPins, current = pin.board := by
  apply h.chosen.resolve_right
  intro hall
  have htop := (hall i).top
  rw [covers] at htop
  cases htop

theorem PinsOnly.step (h : PinsOnly d.navigations d.currentBulletinBoard)
    (step : Device.Step P store d e d' out) :
    PinsOnly d'.navigations d'.currentBulletinBoard := by
  -- a completion or a new post changes a board of map `i`, and nothing else of it
  have hboard : ∀ (i v : ℕ) (board : Board), PinsOnly (d.setBoard i v board).navigations
      (d.setBoard i v board).currentBulletinBoard := by
    intro i v board
    exact h.update ⟨(h.known i).pins, (h.known i).selected⟩ (.inr ⟨rfl, fun hu =>
      ⟨hu.top, hu.selectedPin, hu.action, hu.pending⟩⟩)
  cases step with
  | session => exact h
  | form => exact h
  | map => exact h
  | makeMapView => exact h
  | locate => exact h
  | trap => exact h
  | complete i v step => exact hboard i v _
  | createPost shown covers step => exact hboard _ _ _
  -- the map that is left has its `onDisappear` pending, which is not the text's handler
  | logOut shown uncovered =>
    refine h.update ⟨(h.known _).pins, (h.known _).selected⟩ (.inr ⟨rfl, fun hu => ?_⟩)
    refine ⟨hu.top, hu.selectedPin, hu.action, fun ht => ?_⟩
    rcases List.mem_append.mp ht with ht | ht
    · exact hu.pending ht
    · cases List.mem_singleton.mp ht
  | @navigation i ne n onScreen shown step =>
    have hknown : (d.navigation i).PinsKnown := ⟨(h.known i).pins, (h.known i).selected⟩
    apply h.update (hknown.onScreen step onScreen)
    rcases hknown.current step onScreen with hchosen | ⟨hcurrent, huntouched⟩
    · exact .inl hchosen
    · exact .inr ⟨hcurrent, fun hu => huntouched ⟨hu.top, hu.selectedPin, hu.action, hu.pending⟩⟩
  | deliver i hd opened pending =>
    have hkept := h.known i
    have hdelivered : PinsOnly (Function.update d.navigations i
        ({ d.navigation i with pending := (d.navigation i).pending.erase hd }.handle
          (store .post).docs.length hd)) d.currentBulletinBoard := by
      refine h.update ?_ (.inr ⟨rfl, fun hu => ?_⟩)
      · cases hd with
        | mapOnDisappear => exact ⟨hkept.pins, fun pin hpin => by cases hpin⟩
        | _ => exact ⟨hkept.pins, hkept.selected⟩
      · have hu' : (d.navigation i).Untouched := ⟨hu.top, hu.selectedPin, hu.action, hu.pending⟩
        exact hu'.deliver pending _
    cases hd <;> exact hdelivered

/-- Only Create Post, tapped over a board, writes to `Post`. -/
theorem Step.post_write (h : Device.Step P store d e d' out) {fields : Fields Value}
    (hout : out = some (.post, fields)) : ∃ i v form, e = .navigation i (.createPost form) ∧
      d.Shows i ∧ (d.navigations i).top = .board v ∧
      fields = form.postFields d.currentBulletinBoard := by
  cases h with
  | session => cases hout
  | logOut => cases hout
  | navigation => cases hout
  | deliver => cases hout
  | map => cases hout
  | makeMapView => cases hout
  | locate => cases hout
  | trap => cases hout
  | form f shown step =>
    obtain ⟨_, -, hpair⟩ := Option.map_eq_some_iff.mp hout
    cases hpair
  | complete i v step =>
    cases step with
    | complete => cases hout
  | createPost shown covers step =>
    cases step with
    | createPost =>
      cases hout
      exact ⟨_, _, _, rfl, shown, covers, rfl⟩

end Device

namespace System

variable {P : Platform} {u₀ u : System} {tr : List (Move System SystemEvent)} {d : Document Value}

theorem pinsOnly_of_reaches (hi : u₀.Initial) (h : Reaches (Step P) u₀ u) (c : ℕ) :
    Device.PinsOnly (u.devices c).navigations (u.devices c).currentBulletinBoard := by
  refine h.invariant (I := fun u =>
    Device.PinsOnly (u.devices c).navigations (u.devices c).currentBulletinBoard) ?_ ?_
  · rw [hi.devices c]
    exact Device.pinsOnly_initial
  · intro u e u' ih step
    cases step with
    | commit => exact ih
    | reject => exact ih
    | @device c' de d out running step =>
      show Device.PinsOnly (Function.update u.devices c' d c).navigations
        (Function.update u.devices c' d c).currentBulletinBoard
      by_cases hc : c = c'
      · subst hc
        rw [Function.update_self]
        exact ih.step step
      · rw [Function.update_of_ne hc]
        exact ih

/-- Create Post is tapped over a board of device `c`, and sends the document. -/
structure Posts (c : ℕ) (form : NewPost) (d : Document Value) (m : Move System SystemEvent) :
    Prop where
  tapped : ∃ i v, m.event = .device c (.navigation i (.createPost form)) ∧
    (m.source.devices c).Shows i ∧ ((m.source.devices c).navigations i).top = .board v
  document : d = ⟨(m.source.store .post).nextId,
    form.postFields (m.source.devices c).currentBulletinBoard⟩

/-- A document of `Post` was there at the start, or Create Post has sent it. -/
theorem sent_posted (hi : u₀.Initial) (run : Run (Step P) u₀ tr u)
    (hd : d ∈ (u.store .post).sent) : d ∈ (u₀.store .post).docs ∨
      ∃ past m c form, past ++ [m] <+: tr ∧ Posts c form d m := by
  induction run with
  | nil =>
    rw [Collection.sent, hi.inFlight, List.append_nil] at hd
    exact .inl hd
  | @snoc u u' tr e run step ih =>
    -- a document that was there before the step is taken care of
    have hbefore : d ∈ (u.store .post).sent → d ∈ (u₀.store .post).docs ∨
        ∃ past m c form, past ++ [m] <+: tr ++ [⟨u, e, u'⟩] ∧ Posts c form d m := by
      intro hsent
      refine (ih hsent).imp_right ?_
      rintro ⟨past, m, c, form, hpast, hposts⟩
      exact ⟨past, m, c, form, hpast.trans (List.prefix_append _ _), hposts⟩
    cases step with
    | commit name d' sent =>
      apply hbefore
      apply Store.mem_sent_of_decided (fun x hx => ?_) hd
      exact ((u.store name).sent_commit_perm sent).mem_iff.mp hx
    | reject name d' sent =>
      apply hbefore
      apply Store.mem_sent_of_decided (fun x hx => ?_) hd
      exact (u.store name).sent_reject_sublist.mem hx
    | @device c de d' out running step =>
      rcases Store.mem_sent_of_send hd with hsent | ⟨fields, hfields, hnew⟩
      · exact hbefore hsent
      · obtain ⟨i, v, form, rfl, shown, covers, rfl⟩ := step.post_write hfields
        exact .inr ⟨tr, _, c, form, List.prefix_refl _, ⟨i, v, rfl, shown, covers⟩, hnew⟩

/-- Whatever is posted is posted to the board of a pin, on a device that has found an account
since its last Log Out. -/
theorem posted_by_user (hi : u₀.Initial) (run : Run (Step P) u₀ tr u)
    (hd : d ∈ (u.store .post).sent) : d ∈ (u₀.store .post).docs ∨
      ∃ past m c form, past ++ [m] <+: tr ∧ Posts c form d m ∧
        (∃ pin ∈ addPins, (m.source.devices c).currentBulletinBoard = pin.board) ∧
        Since (FindsAccount c) (fun m => ¬ LogsOut c m) past := by
  refine (sent_posted hi run hd).imp_right ?_
  rintro ⟨past, m, c, form, hpast, hposts⟩
  obtain ⟨i, v, -, shown, covers⟩ := hposts.tapped
  obtain ⟨hrun, -⟩ := run.of_past hpast
  exact ⟨past, m, c, form, hpast, hposts, (pinsOnly_of_reaches hi hrun.reaches c).of_board covers,
    logged_in_of_mapOpen hi hrun shown.2⟩

theorem alice_posts_to_pin : ∃ tr u d, Run (Step .plain) aliceSystem tr u ∧
    d ∈ (u.store .post).sent ∧ (d ∈ (aliceSystem.store .post).docs ∨
      ∃ past m c form, past ++ [m] <+: tr ∧ Posts c form d m ∧
        (∃ pin ∈ addPins, (m.source.devices c).currentBulletinBoard = pin.board) ∧
        Since (FindsAccount c) (fun m => ¬ LogsOut c m) past) := by
  obtain ⟨past, u, u', run, step, visits, -⟩ := exists_posting
  obtain ⟨d, hsent⟩ := visits.sent
  have hd : d ∈ (u'.store .post).sent := by
    rw [hsent]
    exact List.mem_singleton_self d
  exact ⟨_, u', d, run.snoc step, hd, posted_by_user initial_aliceSystem (run.snoc step) hd⟩

end System

/-! ## The maps of a device -/

/-- A raised flag stays raised until a location is delivered. -/
theorem Maps.flag_kept {s s' : Maps} {e : MapEvent} (h : s.needToCenterLocation = true)
    (step : Maps.Step s e s')
    (quiet : ∀ k locations, e = .didUpdateLocations k locations → locations = []) :
    s'.needToCenterLocation = true := by
  -- only a delivery that moves the map lowers the flag, and an empty one moves nothing
  rcases Maps.step_centre step with ⟨-, -, hflag⟩ | ⟨⟨k, locations, rfl⟩, hrecentres, -⟩ |
    ⟨-, -, hflag⟩ | ⟨-, -, hflag⟩
  · exact hflag.trans h
  · obtain rfl := quiet k locations rfl
    cases step with
    | didUpdateLocations => exact absurd rfl hrecentres
  · exact hflag
  · exact hflag.trans h

namespace Device

/-- What an event of a device is for its maps. -/
def mapEvent : DeviceEvent → Option MapEvent
  | .map e => some e
  | .navigation _ (.deliver (.boardOnDisappear _)) => some .boardOnDisappear
  | _ => none

variable {P : Platform} {store : Store} {d d' : Device} {e : DeviceEvent}
  {out : Option (CollectionName × Fields Value)}

/-- A step of a device is one of its maps, or it leaves them alone. -/
theorem Step.maps_cases (h : Step P store d e d' out) :
    (∃ me, mapEvent e = some me ∧ Maps.Step d.maps me d'.maps) ∨
      (mapEvent e = none ∧ d'.maps = d.maps) := by
  cases h with
  | session => exact .inr ⟨rfl, rfl⟩
  | logOut => exact .inr ⟨rfl, rfl⟩
  | form => exact .inr ⟨rfl, rfl⟩
  | @navigation i ne n onScreen shown step =>
    cases ne with
    | deliver => cases onScreen
    | _ => exact .inr ⟨rfl, rfl⟩
  | deliver i hd opened pending =>
    cases hd with
    | boardOnDisappear v => exact .inl ⟨_, rfl, .boardOnDisappear _ _⟩
    | _ => exact .inr ⟨rfl, rfl⟩
  | complete => exact .inr ⟨rfl, rfl⟩
  | createPost => exact .inr ⟨rfl, rfl⟩
  | map fits step => exact .inl ⟨_, rfl, step⟩
  | makeMapView => exact .inr ⟨rfl, rfl⟩
  | locate => exact .inr ⟨rfl, rfl⟩
  | trap traps =>
    cases e with
    | map => exact traps.elim
    | navigation i ne =>
      cases ne with
      | complete => exact .inr ⟨rfl, rfl⟩
      | _ => exact traps.elim
    | _ => exact .inr ⟨rfl, rfl⟩

end Device

namespace System

variable {P : Platform} {u₀ u u' : System} {e : SystemEvent} {c : ℕ}
  {before mid : List (Move System SystemEvent)} {m m' : Move System SystemEvent}

/-- What an event of a system is for the maps of device `c`. -/
def mapEvent (c : ℕ) : SystemEvent → Option MapEvent
  | .device c' e => if c' = c then Device.mapEvent e else none
  | _ => none

theorem mapEvent_eq_some {me : MapEvent} : mapEvent c e = some me ↔
    ∃ de, e = .device c de ∧ Device.mapEvent de = some me := by
  cases e with
  | commit => simp [mapEvent]
  | reject => simp [mapEvent]
  | device c' de =>
    by_cases hc : c' = c
    · simp [mapEvent, hc]
    · simp [mapEvent, hc]

theorem mapEvent_eq_map {me : MapEvent} (h : me ≠ .boardOnDisappear) :
    mapEvent c e = some me ↔ e = .device c (.map me) := by
  rw [mapEvent_eq_some]
  constructor
  · rintro ⟨de, rfl, hme⟩
    cases de with
    | map me' =>
      obtain rfl := Option.some.inj hme
      rfl
    | navigation i ne =>
      cases ne with
      | deliver hd =>
        cases hd <;> cases hme
        exact absurd rfl h
      | _ => cases hme
    | _ => cases hme
  · rintro rfl
    exact ⟨_, rfl, rfl⟩

theorem Step.maps_cases (h : Step P u e u') (c : ℕ) :
    (∃ me, mapEvent c e = some me ∧ Maps.Step (u.devices c).maps me (u'.devices c).maps) ∨
      (mapEvent c e = none ∧ (u'.devices c).maps = (u.devices c).maps) := by
  cases h with
  | commit => exact .inr ⟨rfl, rfl⟩
  | reject => exact .inr ⟨rfl, rfl⟩
  | @device c' de d out running step =>
    unfold mapEvent
    dsimp only
    by_cases hc : c' = c
    · subst hc
      rw [if_pos rfl, Function.update_self]
      exact step.maps_cases
    · rw [if_neg hc, Function.update_of_ne (Ne.symm hc)]
      exact .inr ⟨rfl, rfl⟩

/-- The maps of a device, step by step. -/
def mapsSimulation (P : Platform) (c : ℕ) : Simulation (Step P) Maps.Step where
  state u := (u.devices c).maps
  event _ := mapEvent c
  step_some := by
    intro u u' e me step he
    rcases step.maps_cases c with ⟨me', he', hstep⟩ | ⟨he', -⟩
    · obtain rfl := Option.some.inj (he.symm.trans he')
      exact hstep
    · rw [he] at he'
      cases he'
  step_none := by
    intro u u' e step he
    rcases step.maps_cases c with ⟨me', he', -⟩ | ⟨-, hsame⟩
    · rw [he] at he'
      cases he'
    · exact hsame

theorem mapsSimulation_initial (hi : u₀.Initial) (c : ℕ) : (mapsSimulation P c).state u₀ = {} := by
  show (u₀.devices c).maps = {}
  rw [hi.devices c]

/-- The device's `didUpdateLocations` is called with a location. -/
def Locates (c : ℕ) (m : Move System SystemEvent) : Prop :=
  ∃ k locations, m.event = .device c (.map (.didUpdateLocations k locations)) ∧ locations ≠ []

/-- What maps keep as long as no location is delivered, they keep in a system. -/
theorem maps_kept {I : Maps → Prop} (hI : ∀ {s s' : Maps} {e : MapEvent}, I s → Maps.Step s e s' →
      (∀ k locations, e = .didUpdateLocations k locations → locations = []) → I s')
    (run : Run (Step P) u mid u') (h : I (u.devices c).maps) (quiet : ∀ m ∈ mid, ¬ Locates c m) :
    I (u'.devices c).maps := by
  refine (run.guarded (I := fun u => I (u.devices c).maps) (G := fun m => ¬ Locates c m) h
    (fun m _ h step quiet => ?_) quiet).1
  rcases step.maps_cases c with ⟨me, he, hstep⟩ | ⟨-, hsame⟩
  · apply hI h hstep
    rintro k locations rfl
    by_contra hlocations
    exact quiet ⟨k, locations, (mapEvent_eq_map (by simp)).mp he, hlocations⟩
  · show I (m.target.devices c).maps
    rw [hsame]
    exact h

/-- When a board has been closed and a map made, the next location moves the map, whatever
happens in between, and only that one. -/
theorem recentred_after_board (hi : u₀.Initial)
    (run : Run (Step P) u₀ (before ++ m :: (mid ++ [m'])) u) {i v : ℕ}
    (closed : m.event = .device c (.navigation i (.deliver (.boardOnDisappear v))))
    (quiet : ∀ m ∈ mid, ¬ Locates c m) (locates : Locates c m')
    (made : 0 < (m'.source.devices c).maps.made) :
    (∃ view center, (m'.target.devices c).maps.centred =
      (m'.source.devices c).maps.centred ++ [(view, center)]) ∧
      (m'.target.devices c).maps.needToCenterLocation = false := by
  have hraised : (m.target.devices c).maps.needToCenterLocation = true := by
    obtain ⟨-, step⟩ := run.move_of_mem (m := m) (by simp)
    rcases step.maps_cases c with ⟨me, he, hstep⟩ | ⟨he, -⟩
    · rw [closed] at he
      obtain ⟨de, hde, hme⟩ := mapEvent_eq_some.mp he
      cases hde
      cases hme
      generalize (m.target.devices c).maps = target at hstep ⊢
      cases hstep with
      | boardOnDisappear => rfl
    · rw [closed] at he
      simp [mapEvent, Device.mapEvent] at he
  -- the flag is kept up to the delivery, which finds a view and a context
  have run' : Run (Step P) u₀ (before ++ m :: (mid ++ m' :: [])) u := run
  have hbetween : Run (Step P) m.target mid m'.source := run'.between
  have hflag : (m'.source.devices c).maps.needToCenterLocation = true :=
    maps_kept (I := fun s => s.needToCenterLocation = true) Maps.flag_kept hbetween hraised quiet
  obtain ⟨hreaches, step⟩ := run.move_of_mem (m := m') (by simp)
  have hmaps : Reaches Maps.Step {} (m'.source.devices c).maps := by
    rw [← mapsSimulation_initial (P := P) hi c]
    exact (mapsSimulation P c).reaches hreaches
  obtain ⟨hview, hcontext⟩ := Maps.mapKnown_of_reaches hmaps made
  obtain ⟨k, locations, hevent, hlocations⟩ := locates
  have hevent' : mapEvent c m'.event = some (.didUpdateLocations k locations) :=
    mapEvent_eq_some.mpr ⟨_, hevent, rfl⟩
  have hstep : Maps.Step (m'.source.devices c).maps (.didUpdateLocations k locations)
      (m'.target.devices c).maps := (mapsSimulation P c).step_some step hevent'
  have hserved : ∃ view center, (m'.target.devices c).maps.centred =
      (m'.source.devices c).maps.centred ++ [(view, center)] := by
    generalize (m'.target.devices c).maps = target at hstep ⊢
    cases hstep with
    | didUpdateLocations => exact Maps.didUpdateLocations_serves hflag hview hcontext hlocations
  -- whatever moves the map lowers the flag
  refine ⟨hserved, ?_⟩
  obtain ⟨view, center, hcentred⟩ := hserved
  exact (Maps.serves_of_recentres hstep (by simp) (Maps.recentres_of_centred hcentred)).2

/-- Alice goes back to the map, and is located. -/
theorem alice_recentres_the_map : ∃ tr u u', Run (Step .plain) aliceSystem tr u ∧
    Step .plain u (.device 0 (.map (.didUpdateLocations 0 [Maps.home]))) u' ∧
    (∃ view center, (u'.devices 0).maps.centred =
      (u.devices 0).maps.centred ++ [(view, center)]) ∧
    (u'.devices 0).maps.needToCenterLocation = false := by
  obtain ⟨past, u, u₁, run, step, visits, -⟩ := exists_posting
  have h1 := (run.snoc step).snoc (.device 0 visits.running
    (.navigation (i := 0) rfl visits.shown (.closeBoard _ visits.top)))
  have hopened : ((u₁.devices 0).session.views 0).switchView = true := by
    obtain ⟨htop, hopen⟩ := visits.shown
    unfold Session.mapOpen at hopen
    rwa [← htop] at hopen
  have hpending : .boardOnDisappear 0 ∈
      (((u₁.devices 0).navigation 0).popBoard 0 none).pending :=
    List.mem_append_right _ List.mem_cons_self
  have h2 := h1.snoc (.device 0 visits.running (.deliver _ 0 (.boardOnDisappear 0) hopened
    hpending))
  have h3 := h2.snoc (.device 0 visits.running (.map (e := .didUpdateLocations 0 [Maps.home])
    trivial (.didUpdateLocations _ [Maps.home] visits.initialized)))
  have hstep := h3.snoc_inv.2.1
  rw [List.append_assoc] at h3
  exact ⟨_, _, _, h2, hstep, recentred_after_board initial_aliceSystem h3 rfl (by simp)
    ⟨0, _, rfl, by simp⟩ visits.made⟩

end System

end Pindex
