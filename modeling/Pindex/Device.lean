import Mathlib.Data.Nat.Pairing
import Pindex.Library.Simulation
import Pindex.Map
import Pindex.World

/-!
# The app as one: login, map, boards and forms on a device

The parts of the app have their own models: `Session`, `Form`, `Navigation`, `Maps` and
`Locations`. A `Device` is all of them together, with the globals they share and with what one
part of the user interface asks of another: the registration forms are reached from a login
screen, a `MapView` from the login screen that opened it, boards and `NewPost` over that map, and
Log Out is a button of the map that the board's bar covers.

A `System` is any number of devices next to the collections. Each device looks like a `Client`
(`Device.client`), whose boards are those over all of its maps.
-/

namespace Pindex

open DocStore Transition

/-! ## Devices -/

/-- What an app can crash on: documents of the collections that it writes to, or a document of
`Location`. -/
inductive Crash where
  | written
  | location
deriving DecidableEq, Repr

/-- A running app. Login screen `i` opens map `i`; the current board of a `Navigation` is the
global one while its map is in use. -/
structure Device where
  session : Session := {}
  forms : ℕ → Form := fun _ => {}
  navigations : ℕ → Navigation := fun _ => {}
  currentBulletinBoard : String := "B Board"
  maps : Maps := {}
  locations : Locations := {}
  crashed : Option Crash := none

inductive DeviceEvent where
  | session (e : SessionEvent)
  | form (f : ℕ) (e : FormEvent)
  /-- Something happens to map `i` or to the screens over it. -/
  | navigation (i : ℕ) (e : NavigationEvent)
  | map (e : MapEvent)
  /-- Login screen `i` evaluates its `body` again, and makes its `MapView` once more. SwiftUI
  drops the new pins, but `addPins` has run. -/
  | makeMapView (i : ℕ)
  /-- A read of `Location` is answered, with a document or without. -/
  | locate (read : LocationRead) (document : Option (Document Value))

/-- What a completion that traps has crashed on. -/
def DeviceEvent.crash : DeviceEvent → Crash
  | .locate _ _ => .location
  | _ => .written

/-- The user does it, or SwiftUI renders the map, which is on the screen. -/
def NavigationEvent.onScreen : NavigationEvent → Bool
  | .deliver _ => false
  | .complete _ _ _ => false
  | .createPost _ => false
  | _ => true

/-- It is done in the text fields and with the button of the form. -/
def FormEvent.onScreen : FormEvent → Bool
  | .complete _ _ => false
  | _ => true

namespace Device

/-- Map `i` and the screens over it, with the global `currentBulletinBoard`. -/
def navigation (d : Device) (i : ℕ) : Navigation :=
  { d.navigations i with currentBulletinBoard := d.currentBulletinBoard }

/-- The screens of map `i` change, and the global with them. -/
def setNavigation (i : ℕ) (n : Navigation) (d : Device) : Device := { d with
  navigations := Function.update d.navigations i n
  currentBulletinBoard := n.currentBulletinBoard }

/-- The session goes on. When it opens a map, the map is made of new pins. -/
def setSession (session : Session) (d : Device) : Device := { d with
  session := session
  locations := if session.mapOpen && !d.session.mapOpen then d.locations.addPins
    else d.locations }

/-- Map `i` is the one that the user is on. -/
def Shows (d : Device) (i : ℕ) : Prop := i = d.session.top ∧ d.session.mapOpen = true

/-- Log Out: the map leaves the screen. -/
def logOut (d : Device) : Device := { d with
  session := d.session.logOut
  navigations := Function.update d.navigations d.session.top
    { d.navigations d.session.top with
      pending := (d.navigations d.session.top).pending ++ [.mapOnDisappear] } }

/-- A handler of map `i` runs; the `onDisappear` of a board raises the flag of the maps. -/
def deliver (since i : ℕ) (h : Handler) (d : Device) : Device :=
  let n := d.navigation i
  let d := d.setNavigation i ({ n with pending := n.pending.erase h }.handle since h)
  match h with
  | .boardOnDisappear v => { d with maps := d.maps.boardOnDisappear (n.boards v).view }
  | _ => d

/-- Board `v` over map `i` changes. -/
def setBoard (i v : ℕ) (board : Board) (d : Device) : Device :=
  d.setNavigation i { d.navigation i with
    boards := Function.update (d.navigation i).boards v board }

/-- What a `Map` is made of comes from its map's screens; the board's `onDisappear` is the
handler. -/
def MapEventFits (d : Device) : MapEvent → Prop
  | .body i pins selectedPin => (d.session.views i).switchView = true ∧
      pins = (d.navigation i).mapView.pins ∧ selectedPin = (d.navigation i).mapView.selectedPin
  | .boardOnDisappear => False
  | _ => True

/-- The event is a completion that traps. -/
def Traps (P : Platform) (store : Store) (d : Device) : DeviceEvent → Prop
  | .session e => d.session.Traps (store .user) e
  | .form f e => (d.forms f).Traps P (store .user) e
  | .navigation i (.complete v q r) =>
    ((d.navigations i).boards v).Traps (store .post) (.complete q r)
  | .locate read document => read ∈ d.locations.reads ∧
    Locations.completion document (d.locations.coordinates read.pin) = none
  | _ => False

/-- One event of a device; the last argument is the write it sends, if any. -/
inductive Step (P : Platform) (store : Store) :
    Device → DeviceEvent → Device → Option (CollectionName × Fields Value) → Prop
  | session {d : Device} {e : SessionEvent} {session : Session} (stays : e ≠ .logOut)
      (step : Session.Step P (store .user) d.session e session) :
      Step P store d (.session e) (d.setSession session) none
  | logOut (d : Device) (shown : d.session.mapOpen = true)
      (uncovered : (d.navigations d.session.top).top = .map) :
      Step P store d (.session .logOut) d.logOut none
  | form {d : Device} (f : ℕ) {e : FormEvent} {form : Form} {out : Option (Fields Value)}
      (shown : e.onScreen = true → d.session.mapOpen = false)
      (step : Form.Step P (store .user) (d.forms f) e form out) :
      Step P store d (.form f e) { d with forms := Function.update d.forms f form }
        (out.map (Prod.mk .user))
  | navigation {d : Device} {i : ℕ} {e : NavigationEvent} {n : Navigation}
      (onScreen : e.onScreen = true) (shown : d.Shows i)
      (step : Navigation.Step (d.navigation i) e n) :
      Step P store d (.navigation i e) (d.setNavigation i n) none
  | deliver (d : Device) (i : ℕ) (h : Handler) (opened : (d.session.views i).switchView = true)
      (pending : h ∈ (d.navigations i).pending) :
      Step P store d (.navigation i (.deliver h))
        (d.deliver (store .post).docs.length i h) none
  | complete {d : Device} (i v : ℕ) {q : PostQuery} {r : Response Value} {board : Board}
      {out : Option (Fields Value)}
      (step : Board.Step (store .post) d.currentBulletinBoard ((d.navigations i).boards v)
        (.complete q r) board out) :
      Step P store d (.navigation i (.complete v q r)) (d.setBoard i v board)
        (out.map (Prod.mk .post))
  | createPost {d : Device} {i v : ℕ} {form : NewPost} {board : Board}
      {out : Option (Fields Value)} (shown : d.Shows i)
      (covers : (d.navigations i).top = .board v)
      (step : Board.Step (store .post) d.currentBulletinBoard ((d.navigations i).boards v)
        (.createPost form) board out) :
      Step P store d (.navigation i (.createPost form)) (d.setBoard i v board)
        (out.map (Prod.mk .post))
  | map {d : Device} {e : MapEvent} {maps : Maps} (fits : d.MapEventFits e)
      (step : Maps.Step d.maps e maps) : Step P store d (.map e) { d with maps := maps } none
  | makeMapView (d : Device) (i : ℕ) (opened : (d.session.views i).switchView = true) :
      Step P store d (.makeMapView i) { d with locations := d.locations.addPins } none
  | locate (d : Device) (read : LocationRead) (document : Option (Document Value))
      {coordinate : CLLocationCoordinate2D} (pending : read ∈ d.locations.reads)
      (completion : Locations.completion document (d.locations.coordinates read.pin) =
        some coordinate) : Step P store d (.locate read document)
        { d with locations := d.locations.place read coordinate } none
  | trap {d : Device} {e : DeviceEvent} (traps : d.Traps P store e) :
      Step P store d e { d with crashed := some e.crash } none

end Device

/-! ## Systems -/

structure System where
  store : Store
  devices : ℕ → Device

inductive SystemEvent where
  | device (c : ℕ) (e : DeviceEvent)
  | commit (name : CollectionName) (d : Document Value)
  | reject (name : CollectionName) (d : Document Value)

namespace System

/-- One event of the system: one of a running device, or a decision of the store. -/
inductive Step (P : Platform) : System → SystemEvent → System → Prop
  | device {u : System} (c : ℕ) {e : DeviceEvent} {d : Device}
      {out : Option (CollectionName × Fields Value)} (running : (u.devices c).crashed = none)
      (step : Device.Step P u.store (u.devices c) e d out) :
      Step P u (.device c e)
        { store := u.store.send out, devices := Function.update u.devices c d }
  | commit {u : System} (name : CollectionName) (d : Document Value)
      (sent : d ∈ (u.store name).inFlight) :
      Step P u (.commit name d)
        { u with store := Function.update u.store name ((u.store name).commit d sent) }
  | reject {u : System} (name : CollectionName) (d : Document Value)
      (sent : d ∈ (u.store name).inFlight) :
      Step P u (.reject name d)
        { u with store := Function.update u.store name ((u.store name).reject d) }

/-- Every app has just been started, and no write is in flight. -/
structure Initial (u : System) : Prop where
  devices : ∀ c, u.devices c = {}
  inFlight : ∀ name, (u.store name).inFlight = []

end System

/-! ## A device is a client -/

namespace Device

/-- The client that a device is, with the boards over all maps in one sequence. `Location` is
none of its collections. -/
def client (d : Device) : Client where
  session := d.session
  currentBulletinBoard := d.currentBulletinBoard
  forms := d.forms
  boards n := (d.navigations n.unpair.1).boards n.unpair.2
  crashed := d.crashed == some .written

/-- What an event of a device is for its client. -/
def clientEvent (d : Device) : DeviceEvent → Option ClientEvent
  | .session e => some (.session e)
  | .form f e => some (.form f e)
  | .navigation _ (.tapPin pin) => some (.selectPin pin.board)
  | .navigation i .render =>
    (d.navigations i).mapView.selectedPin.map fun pin => .selectPin pin.board
  | .navigation i (.deliver (.boardOnAppear v)) => some (.board (Nat.pair i v) .onAppear)
  | .navigation i (.deliver (.boardOnDisappear v)) => some (.board (Nat.pair i v) .onDisappear)
  | .navigation i (.complete v q r) => some (.board (Nat.pair i v) (.complete q r))
  | .navigation i (.createPost form) => match (d.navigations i).top with
    | .board v => some (.board (Nat.pair i v) (.createPost form))
    | _ => none
  | _ => none

end Device

end Pindex
