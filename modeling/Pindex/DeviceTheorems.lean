import Pindex.Device
import Pindex.NavigationTheorems
import Pindex.SessionTheorems

/-!
# The app as one: a system is a world

Each device looks like a client, and each event of it like one of the client or like nothing,
so a `System` is a `World` (`System.simulation`): every law of the worlds holds of the app as
a whole, whatever its parts ask of each other.
-/

namespace Pindex

open DocStore Transition

/-! ## What is on the screen leaves the boards alone -/

namespace Navigation

variable {s s' : Navigation} {e : NavigationEvent}

theorem tapPin_boards (s : Navigation) (pin : MapPin) : (s.tapPin pin).boards = s.boards ∧
    (s.tapPin pin).currentBulletinBoard = pin.board := by
  unfold tapPin
  split <;> exact ⟨rfl, rfl⟩

/-- A rendering selects the selected pin again. -/
theorem render_current (s : Navigation) : s.render.currentBulletinBoard =
    match s.mapView.selectedPin with
    | some pin => pin.board
    | none => s.currentBulletinBoard := by
  have hupdate : s.showText.updateUIView.currentBulletinBoard =
      match s.mapView.selectedPin with
      | some pin => pin.board
      | none => s.currentBulletinBoard := by
    unfold updateUIView
    show Navigation.currentBulletinBoard (match s.mapView.selectedPin with
      | some pin => s.showText.select pin
      | none => { s.showText with selectedAnnotation := none }) = _
    split <;> rfl
  unfold render pushBoard
  split <;> exact hupdate

theorem boards_of_onScreen (step : Step s e s') (h : e.onScreen = true) :
    s'.boards = s.boards := by
  cases step with
  | tapPin pin => exact (tapPin_boards s pin).1
  | render => exact render_boards s
  | deliver => cases h
  | complete => cases h
  | createPost => cases h
  | _ => rfl

end Navigation

/-! ## A system is a world -/

namespace Device

variable {P : Platform} {store : Store} {d d' : Device} {e : DeviceEvent} {i v : ℕ}
  {out : Option (CollectionName × Fields Value)}

/-- A running device is a running client. -/
theorem client_running (running : d.crashed = none) : d.client.crashed = false := by
  show (d.crashed == some .written) = false
  rw [running]
  rfl

theorem client_boards (d : Device) (i v : ℕ) :
    d.client.boards (Nat.pair i v) = (d.navigations i).boards v := by
  show (d.navigations (Nat.pair i v).unpair.1).boards (Nat.pair i v).unpair.2 = _
  rw [Nat.unpair_pair]

/-- What a change of one map's screens means for the client. -/
theorem client_setNavigation (i : ℕ) (n : Navigation) (d : Device)
    (h : n.boards = (d.navigations i).boards) : (d.setNavigation i n).client =
      { d.client with currentBulletinBoard := n.currentBulletinBoard } := by
  have hboards : (d.setNavigation i n).client.boards = d.client.boards := by
    funext m
    show (Function.update d.navigations i n m.unpair.1).boards m.unpair.2 =
      (d.navigations m.unpair.1).boards m.unpair.2
    by_cases hi : m.unpair.1 = i
    · rw [hi, Function.update_self, h]
    · rw [Function.update_of_ne hi]
  calc (d.setNavigation i n).client = { d.client with
        currentBulletinBoard := n.currentBulletinBoard
        boards := (d.setNavigation i n).client.boards } := rfl
    _ = _ := by rw [hboards]

theorem client_update_board (i v : ℕ) (n : Navigation) (board : Board) (d : Device)
    (h : n.boards = Function.update (d.navigations i).boards v board)
    (hcurrent : n.currentBulletinBoard = d.currentBulletinBoard) :
    (d.setNavigation i n).client = { d.client with
      boards := Function.update d.client.boards (Nat.pair i v) board } := by
  have hboards : (d.setNavigation i n).client.boards =
      Function.update d.client.boards (Nat.pair i v) board := by
    funext m
    show (Function.update d.navigations i n m.unpair.1).boards m.unpair.2 = _
    by_cases hm : m = Nat.pair i v
    · subst hm
      rw [Function.update_self, Nat.unpair_pair, Function.update_self, h, Function.update_self]
    · rw [Function.update_of_ne hm]
      -- another board of map `i`, or a board of another map
      by_cases hi : m.unpair.1 = i
      · have hv : m.unpair.2 ≠ v := by
          intro hv
          rw [← hi, ← hv, Nat.pair_unpair] at hm
          exact hm rfl
        rw [hi, Function.update_self, h, Function.update_of_ne hv, ← hi]
        rfl
      · rw [Function.update_of_ne hi]
        rfl
  calc (d.setNavigation i n).client = { d.client with
        currentBulletinBoard := n.currentBulletinBoard
        boards := (d.setNavigation i n).client.boards } := rfl
    _ = { d.client with
        currentBulletinBoard := d.currentBulletinBoard
        boards := Function.update d.client.boards (Nat.pair i v) board } := by
        rw [hboards, hcurrent]
    _ = _ := rfl

/-- Handlers other than the board's only touch their own map. -/
theorem client_deliver (since i : ℕ) (h : Handler) (d : Device) :
    (d.deliver since i h).client = match h with
      | .boardOnAppear v => { d.client with
          boards := Function.update d.client.boards (Nat.pair i v)
            (((d.navigations i).boards v).onAppear d.currentBulletinBoard since) }
      | .boardOnDisappear v => { d.client with
          boards := Function.update d.client.boards (Nat.pair i v)
            ((d.navigations i).boards v).onDisappear }
      | _ => d.client := by
  cases h with
  | boardOnAppear v => exact client_update_board i v _ _ d rfl rfl
  | boardOnDisappear v => exact client_update_board i v _ _ d rfl rfl
  | textOnAppear => exact client_setNavigation i _ d rfl
  | mapOnAppear => exact client_setNavigation i _ d rfl
  | mapOnDisappear => exact client_setNavigation i _ d rfl

theorem client_setBoard (i v : ℕ) (board : Board) (d : Device) :
    (d.setBoard i v board).client = { d.client with
      boards := Function.update d.client.boards (Nat.pair i v) board } :=
  client_update_board i v _ board d rfl rfl

/-- Log Out is for the client what it is for the session. -/
theorem client_logOut (d : Device) :
    d.logOut.client = { d.client with session := d.session.logOut } := by
  have hboards : d.logOut.client.boards = d.client.boards := by
    funext m
    show (Function.update d.navigations d.session.top _ m.unpair.1).boards m.unpair.2 =
      (d.navigations m.unpair.1).boards m.unpair.2
    by_cases hi : m.unpair.1 = d.session.top
    · rw [hi, Function.update_self]
    · rw [Function.update_of_ne hi]
  calc d.logOut.client = { d.client with
        session := d.session.logOut
        boards := d.logOut.client.boards } := rfl
    _ = _ := by rw [hboards]

/-- The step of a board of a device is one of a board of its client. -/
theorem client_board_step {be : BoardEvent} {board : Board} {fields : Option (Fields Value)}
    (step : Board.Step (store .post) d.currentBulletinBoard ((d.navigations i).boards v) be board
      fields) : Client.Step P store d.client (.board (Nat.pair i v) be)
        { d.client with boards := Function.update d.client.boards (Nat.pair i v) board }
        (fields.map (Prod.mk .post)) := by
  apply Client.Step.board
  rw [client_boards]
  exact step

/-- A step on the screen is the choice of a pin for the client, or nothing. -/
theorem client_navigation {ne : NavigationEvent} {n : Navigation} (onScreen : ne.onScreen = true)
    (step : Navigation.Step (d.navigation i) ne n) :
    (d.setNavigation i n).client = { d.client with
      currentBulletinBoard := match d.clientEvent (.navigation i ne) with
        | some (.selectPin board) => board
        | _ => d.currentBulletinBoard } := by
  have hboards : n.boards = (d.navigation i).boards :=
    Navigation.boards_of_onScreen step onScreen
  rw [client_setNavigation i n d hboards]
  have hcurrent : n.currentBulletinBoard = match d.clientEvent (.navigation i ne) with
      | some (.selectPin board) => board
      | _ => d.currentBulletinBoard := by
    cases step with
    | tapPin pin => exact (Navigation.tapPin_boards _ pin).2
    | render =>
      -- `updateUIView` selects the pin once more, which runs its action again
      rw [Navigation.render_current]
      show (match (d.navigations i).mapView.selectedPin with
        | some pin => pin.board
        | none => d.currentBulletinBoard) =
        match (d.navigations i).mapView.selectedPin.map fun pin =>
          ClientEvent.selectPin pin.board with
        | some (.selectPin board) => board
        | _ => d.currentBulletinBoard
      cases (d.navigations i).mapView.selectedPin <;> rfl
    | deliver => cases onScreen
    | complete => cases onScreen
    | createPost => cases onScreen
    | _ => rfl
  rw [hcurrent]

/-- A device traps on what its client traps on, or on a document of `Location`. -/
theorem traps_cases (h : d.Traps P store e) :
    (∃ ce, d.clientEvent e = some ce ∧ d.client.Traps P store ce ∧ e.crash = .written) ∨
      ∃ read document, e = .locate read document ∧ ¬ Locations.Placed document := by
  cases e with
  | session se => exact .inl ⟨_, rfl, h, rfl⟩
  | form f fe => exact .inl ⟨_, rfl, h, rfl⟩
  | map me => exact h.elim
  | makeMapView i => exact h.elim
  | locate read document =>
    exact .inr ⟨read, document, rfl, Locations.completion_eq_none_iff.mp h.2⟩
  | navigation i ne =>
    cases ne with
    | complete v q r =>
      refine .inl ⟨_, rfl, ?_, rfl⟩
      show (d.client.boards (Nat.pair i v)).Traps (store .post) (.complete q r)
      rw [client_boards]
      exact h
    | _ => exact h.elim

/-- A step of a device is one of its client. -/
theorem Step.client_some (h : Step P store d e d' out) {ce : ClientEvent}
    (he : d.clientEvent e = some ce) : Client.Step P store d.client ce d'.client out := by
  cases h with
  | session stays step =>
    cases he
    exact .session step
  | logOut shown uncovered =>
    cases he
    rw [client_logOut]
    exact .session (.logOut d.session shown)
  | form f shown step =>
    cases he
    exact .form f step
  | @navigation i ne n onScreen shown step =>
    rw [client_navigation onScreen step, he]
    obtain ⟨board, rfl⟩ : ∃ board, ce = .selectPin board := by
      cases ne with
      | tapPin pin => exact ⟨_, (Option.some.inj he).symm⟩
      | render =>
        obtain ⟨pin, -, rfl⟩ := Option.map_eq_some_iff.mp he
        exact ⟨_, rfl⟩
      | deliver => cases onScreen
      | complete => cases onScreen
      | createPost => cases onScreen
      | _ => cases he
    exact .selectPin d.client board
  | deliver i h opened pending =>
    rw [client_deliver]
    -- of the handlers only those of a board are events of the client
    cases h with
    | boardOnAppear v =>
      cases he
      exact client_board_step (.onAppear _)
    | boardOnDisappear v =>
      cases he
      exact client_board_step (.onDisappear _)
    | _ => cases he
  | complete i v step =>
    cases he
    rw [client_setBoard]
    exact client_board_step step
  | createPost shown covers step =>
    simp only [clientEvent, covers, Option.some.injEq] at he
    subst he
    rw [client_setBoard]
    exact client_board_step step
  | map fits step => cases he
  | makeMapView => cases he
  | locate => cases he
  | trap traps =>
    rcases traps_cases traps with ⟨ce', he', htraps, hcrash⟩ | ⟨read, document, rfl, -⟩
    · obtain rfl : ce' = ce := Option.some.inj (he'.symm.trans he)
      rw [hcrash]
      exact .trap htraps
    · cases he

/-- A step of a device that is nothing for its client changes nothing of it, and writes
nothing. -/
theorem Step.client_none (running : d.crashed = none) (h : Step P store d e d' out)
    (he : d.clientEvent e = none) : d'.client = d.client ∧ out = none := by
  cases h with
  | session => cases he
  | logOut => cases he
  | form => cases he
  | navigation onScreen shown step =>
    rw [client_navigation onScreen step, he]
    exact ⟨rfl, rfl⟩
  | deliver i h opened pending =>
    rw [client_deliver]
    cases h with
    | boardOnAppear v => cases he
    | boardOnDisappear v => cases he
    | _ => exact ⟨rfl, rfl⟩
  | complete => cases he
  | createPost shown covers step => simp [clientEvent, covers] at he
  | map fits step => exact ⟨rfl, rfl⟩
  | makeMapView => exact ⟨rfl, rfl⟩
  | locate => exact ⟨rfl, rfl⟩
  | trap traps =>
    rcases traps_cases traps with ⟨ce, he', -⟩ | ⟨read, document, rfl, -⟩
    · rw [he] at he'
      cases he'
    -- a document of `Location` ends the app without its client
    · exact ⟨congrArg (fun crashed => { d.client with crashed := crashed })
        (client_running running).symm, rfl⟩

end Device

namespace System

variable {P : Platform} {u u' u₀ : System} {e : SystemEvent} {c : ℕ}
  {tr past : List (Move System SystemEvent)}

/-- The world that a system is. -/
def world (u : System) : World where
  store := u.store
  clients c := (u.devices c).client

/-- What an event of a system is for its world. -/
def worldEvent (u : System) : SystemEvent → Option Event
  | .device c e => ((u.devices c).clientEvent e).map (.client c)
  | .commit name d => some (.commit name d)
  | .reject name d => some (.reject name d)

theorem world_update (store : Store) (c : ℕ) (d : Device) (u : System) :
    world { store := store, devices := Function.update u.devices c d } =
      { store := store, clients := Function.update u.world.clients c d.client } := by
  have hclients : (fun c' => (Function.update u.devices c d c').client) =
      Function.update u.world.clients c d.client := by
    funext c'
    by_cases hc : c' = c
    · subst hc
      rw [Function.update_self, Function.update_self]
    · rw [Function.update_of_ne hc, Function.update_of_ne hc]
      rfl
  unfold world at hclients ⊢
  rw [← hclients]

/-- A system is a world, step by step. -/
def simulation (P : Platform) : Simulation (Step P) (World.Step P) where
  state := world
  event := worldEvent
  step_some := by
    intro u u' e e' step he
    cases step with
    | commit name d sent =>
      cases he
      exact .commit (w := u.world) name d sent
    | reject name d sent =>
      cases he
      exact .reject (w := u.world) name d sent
    | device c running step =>
      obtain ⟨ce, hce, rfl⟩ := Option.map_eq_some_iff.mp he
      rw [world_update]
      exact .client (w := u.world) c (Device.client_running running) (step.client_some hce)
  step_none := by
    intro u u' e step he
    cases step with
    | commit => cases he
    | reject => cases he
    | @device c de d out running step =>
      obtain ⟨hclient, rfl⟩ := step.client_none running (Option.map_eq_none_iff.mp he)
      -- the device changes in what its client does not hold
      rw [world_update, hclient]
      have hclients : Function.update u.world.clients c (u.devices c).client = u.world.clients :=
        Function.update_eq_self c u.world.clients
      rw [hclients]
      rfl

/-- A system that has just been started is such a world. -/
theorem initial_world (hi : u.Initial) : u.world.Initial where
  clients c := by
    show (u.devices c).client = {}
    rw [hi.devices]
    rfl
  inFlight := hi.inFlight

end System

end Pindex
