import Mathlib.Data.Rat.Defs
import Pindex.MapView

/-!
# `Map` and `LocationManager`: where the pins are, and what moves the map

`addPins` makes two pins at the origin and begins to read where they belong. The completions
cast what they read by force, each time a `MapView` is made: `Locations`.

Two functions of the app set the centre of a map: `updateUIView`, which SwiftUI calls after
each change it is told of, and `didUpdateLocations`, which Core Location calls, and which
looks at the global `needToCenterLocation` first. The flag is raised by `makeUIView` and by
the board's `onDisappear`.

`Maps` is the four globals with the objects they refer to: the `LocationManager`s, the
`MKMapView`s and, for each place of a `Map` on the screen, a `MapNode`. `Maps.Step` is
everything that can happen to them.
-/

namespace Pindex

open DocStore

/-! ## MapKit and Core Location -/

structure CLLocationCoordinate2D where
  latitude : ℚ := 0
  longitude : ℚ := 0
deriving DecidableEq, Repr

structure MKCoordinateSpan where
  latitudeDelta : ℚ := 0
  longitudeDelta : ℚ := 0
deriving DecidableEq, Repr

structure MKCoordinateRegion where
  center : CLLocationCoordinate2D := {}
  span : MKCoordinateSpan := {}
deriving DecidableEq, Repr

structure CLLocation where
  coordinate : CLLocationCoordinate2D
deriving DecidableEq, Repr

inductive CLAuthorizationStatus where
  | notDetermined
  | restricted
  | denied
  | authorizedAlways
  | authorizedWhenInUse
deriving DecidableEq, Repr

structure MKMapView where
  region : MKCoordinateRegion := {}
  showsUserLocation : Bool := false
  annotations : List MapPin := []
  selectedAnnotation : Option MapPin := none
deriving DecidableEq, Repr

namespace MKMapView

def setRegion (region : MKCoordinateRegion) (view : MKMapView) : MKMapView :=
  { view with region := region }

def setCenter (center : CLLocationCoordinate2D) (view : MKMapView) : MKMapView :=
  { view with region := { view.region with center := center } }

end MKMapView

/-! ## Where the pins are -/

/-- A read of the collection `Location` that `addPins` begins, to place pin number `pin`. -/
structure LocationRead where
  pin : ℕ
  document : String
deriving DecidableEq, Repr

/-- The pins that the app has made, numbered in that order: where they stand, and the reads
that have not been answered. -/
structure Locations where
  made : ℕ := 0
  coordinates : ℕ → CLLocationCoordinate2D := fun _ => ⟨0, 0⟩
  reads : List LocationRead := []

namespace Locations

/-- `addPins()` makes two pins. The document of the second one is not named like its board. -/
def addPins (s : Locations) : Locations := { s with
  made := s.made + 2
  reads := s.reads ++ [⟨s.made, "akul"⟩, ⟨s.made + 1, "18th ave library"⟩] }

/-- The completion of a read, on the coordinate of its pin; `none` for the document stands for
one that does not exist and for an error, `none` for the result for the trap. -/
def completion (document : Option (Document Value)) (coordinate : CLLocationCoordinate2D) :
    Option CLLocationCoordinate2D :=
  match document with
  | some document => do
    let latitude ← doubleField document "latitude"
    let longitude ← doubleField document "longitude"
    some ⟨latitude, longitude⟩
  | none => some coordinate

/-- A read has been answered. -/
def place (read : LocationRead) (coordinate : CLLocationCoordinate2D) (s : Locations) :
    Locations := { s with
  coordinates := Function.update s.coordinates read.pin coordinate
  reads := s.reads.erase read }

/-- A document that is there has its two coordinates. -/
def Placed (document : Option (Document Value)) : Prop :=
  ∀ d, document = some d → (doubleField d "latitude").isSome ∧ (doubleField d "longitude").isSome

theorem completion_eq_none_iff {document : Option (Document Value)}
    {coordinate : CLLocationCoordinate2D} :
    completion document coordinate = none ↔ ¬ Placed document := by
  cases document with
  | none => simp [completion, Placed]
  | some d =>
    cases hlatitude : doubleField d "latitude" <;> cases hlongitude : doubleField d "longitude" <;>
      simp [completion, Placed, hlatitude, hlongitude]

end Locations

/-! ## The state -/

/-- The `@Published` properties. -/
structure LocationManager where
  locationStatus : Option CLAuthorizationStatus := none
  lastLocation : Option CLLocation := none
deriving DecidableEq, Repr

/-- A value of `Map`: the number of its `LocationManager`, and its bindings. -/
structure Map where
  locationManager : ℕ
  pins : List MapPin
  selectedPin : Option MapPin
deriving DecidableEq, Repr

/-- What SwiftUI keeps for one `Map` on the screen: its last value, the number of its
`MKMapView`, and whether `updateUIView` is due. -/
structure MapNode where
  map : Option Map := none
  uiView : Option ℕ := none
  due : Bool := false
deriving DecidableEq, Repr

/-- The `@ObservedObject` of the node is location manager `k`. -/
def MapNode.observes (k : ℕ) (node : MapNode) : Bool :=
  node.map.any fun map => map.locationManager == k

/-- Location managers and views are numbered in the order in which they are made; `centred`
lists the centres that the app has set so far, with the number of the view. -/
structure Maps where
  needToCenterLocation : Bool := true
  mStruct : Option Map := none
  mStructView : Option ℕ := none
  mStructContext : Option ℕ := none
  locationManagers : ℕ → LocationManager := fun _ => {}
  initialized : ℕ := 0
  views : ℕ → MKMapView := fun _ => {}
  made : ℕ := 0
  nodes : ℕ → MapNode := fun _ => {}
  centred : List (ℕ × CLLocationCoordinate2D) := []

inductive MapEvent where
  | body (i : ℕ) (pins : List MapPin) (selectedPin : Option MapPin)
  | makeUIView (i : ℕ)
  | updateUIView (i : ℕ)
  | didUpdateLocations (k : ℕ) (locations : List CLLocation)
  | didChangeAuthorization (k : ℕ) (status : CLAuthorizationStatus)
  | boardOnDisappear
  | userMoves (v : ℕ) (region : MKCoordinateRegion)

namespace Maps

/-- The app calls `setRegion` on view `v`. -/
def setRegion (v : ℕ) (region : MKCoordinateRegion) (s : Maps) : Maps := { s with
  views := Function.update s.views v ((s.views v).setRegion region)
  centred := s.centred ++ [(v, region.center)] }

/-- The app calls `setCenter` on view `v`. -/
def setCenter (v : ℕ) (center : CLLocationCoordinate2D) (s : Maps) : Maps := { s with
  views := Function.update s.views v ((s.views v).setCenter center)
  centred := s.centred ++ [(v, center)] }

/-! ## The functions of `Map` and `LocationManager` -/

/-- `MapView` evaluates its `body`, as its `pins` or `selectedPin` have changed: a new `Map`,
with a `LocationManager` of its own. -/
def body (i : ℕ) (pins : List MapPin) (selectedPin : Option MapPin) (s : Maps) : Maps := { s with
  locationManagers := Function.update s.locationManagers s.initialized {}
  initialized := s.initialized + 1
  nodes := Function.update s.nodes i
    { s.nodes i with map := some ⟨s.initialized, pins, selectedPin⟩, due := true } }

/-- `MKMapView(frame: .zero)` shows some `region`. -/
def makeUIView (i : ℕ) (region : MKCoordinateRegion) (s : Maps) : Maps := { s with
  needToCenterLocation := true
  mStructView := some s.made
  mStructContext := some i
  views := Function.update s.views s.made { region := region }
  made := s.made + 1
  nodes := Function.update s.nodes i { s.nodes i with uiView := some s.made, due := true } }

/-- `updateUIView` of `map` at node `i`, on view `v`. What `selectAnnotation` has MapKit
report to the delegate is in `Navigation.updateUIView`. -/
def updateUIView (i v : ℕ) (map : Map) (s : Maps) : Maps :=
  let s := { s with mStruct := some map }
  let center := match (s.locationManagers map.locationManager).lastLocation with
    | some location => location.coordinate
    | none => ⟨40, -82⟩
  let s := s.setRegion v ⟨center, ⟨0.02, 0.02⟩⟩
  { s with
    views := Function.update s.views v { s.views v with
      showsUserLocation := true
      annotations := map.pins
      selectedAnnotation := map.selectedPin }
    nodes := Function.update s.nodes i { s.nodes i with due := false } }

/-- A `@Published` property of location manager `k` is set. -/
def publish (k : ℕ) (manager : LocationManager) (s : Maps) : Maps := { s with
  locationManagers := Function.update s.locationManagers k manager
  nodes := fun i =>
    if (s.nodes i).observes k then { s.nodes i with due := true } else s.nodes i }

def didChangeAuthorization (k : ℕ) (status : CLAuthorizationStatus) (s : Maps) : Maps :=
  s.publish k { s.locationManagers k with locationStatus := some status }

def didUpdateLocations (k : ℕ) (locations : List CLLocation) (s : Maps) : Maps :=
  match locations.getLast? with
  | none => s
  | some location =>
    let s := s.publish k { s.locationManagers k with lastLocation := some location }
    match s.mStructView, s.mStructContext, s.needToCenterLocation with
    | some v, some _, true =>
      let s := { s with needToCenterLocation := false }
      let center := match s.mStruct.bind fun map =>
          (s.locationManagers map.locationManager).lastLocation with
        | some location => location.coordinate
        | none => ⟨45, 55⟩
      s.setCenter v center
    | _, _, _ => s

/-- The `onDisappear` of `board`, as far as the maps go. -/
def boardOnDisappear (board : BulletinBoardView) (s : Maps) : Maps :=
  { s with needToCenterLocation := board.onDisappear.2 }

/-- The user pans or zooms view `v`. -/
def userMoves (v : ℕ) (region : MKCoordinateRegion) (s : Maps) : Maps :=
  { s with views := Function.update s.views v { s.views v with region := region } }

/-- One event. -/
inductive Step : Maps → MapEvent → Maps → Prop
  | body (s : Maps) (i : ℕ) (pins : List MapPin) (selectedPin : Option MapPin) :
      Step s (.body i pins selectedPin) (s.body i pins selectedPin)
  | makeUIView (s : Maps) (i : ℕ) (region : MKCoordinateRegion)
      (shown : (s.nodes i).map.isSome = true) : Step s (.makeUIView i) (s.makeUIView i region)
  /-- SwiftUI may run one update for several changes. -/
  | updateUIView (s : Maps) {i v : ℕ} {map : Map} (shown : (s.nodes i).map = some map)
      (made : (s.nodes i).uiView = some v) (due : (s.nodes i).due = true) :
      Step s (.updateUIView i) (s.updateUIView i v map)
  | didUpdateLocations (s : Maps) {k : ℕ} (locations : List CLLocation)
      (initialized : k < s.initialized) :
      Step s (.didUpdateLocations k locations) (s.didUpdateLocations k locations)
  | didChangeAuthorization (s : Maps) {k : ℕ} (status : CLAuthorizationStatus)
      (initialized : k < s.initialized) :
      Step s (.didChangeAuthorization k status) (s.didChangeAuthorization k status)
  | boardOnDisappear (s : Maps) (board : BulletinBoardView) :
      Step s .boardOnDisappear (s.boardOnDisappear board)
  | userMoves (s : Maps) {v : ℕ} (region : MKCoordinateRegion) (made : v < s.made) :
      Step s (.userMoves v region) (s.userMoves v region)

end Maps

end Pindex
