import Pindex.BulletinBoardView
import Pindex.Library.Run

/-!
# `MapView`: pins, the link to a board, and the screens over the map

A tap on a pin sets `selectedPin`; the hidden `Text` that is shown from then on sets `action`
to 1 when it appears; and the `NavigationLink` bound to `action` pushes a board. Three more
handlers undo this: `MapView`'s `onAppear` and `onDisappear`, and the board's `onDisappear`.

`Navigation` is the map with the screens over it. Handlers do not run at once: the step that
pushes, pops or shows something leaves them `pending`, and they are delivered one by one, in
any order, between the user's actions and the renderings.
-/

namespace Pindex

open DocStore

/-- A pin. Its action makes `board` the current bulletin board. -/
structure MapPin where
  title : String
  board : String
deriving DecidableEq, Repr

/-- The hardcoded pins. -/
def addPins : List MapPin :=
  [⟨"AKUL", "akul"⟩, ⟨"18th avenue library", "18th avenue library"⟩]

/-- The part of `MapView`'s `@State` that the handlers below touch. -/
structure MapView where
  pins : List MapPin := addPins
  selectedPin : Option MapPin := none
  action : Option ℤ := some 0

namespace MapView

/-- `mapView(_:didSelect:)` in `Map.Coordinator`: the view and the new
`currentBulletinBoard`. -/
def didSelect (pin : MapPin) (view : MapView) : MapView × String :=
  ({ view with selectedPin := some pin }, pin.board)

/-- `mapView(_:didDeselect:)` in `Map.Coordinator`. -/
def didDeselect (view : MapView) : MapView := { view with selectedPin := none }

/-- `onAppear` of the hidden `Text`. -/
def textOnAppear (view : MapView) : MapView := { view with action := some 1 }

def onAppear (view : MapView) : MapView := { view with action := some 0 }

def onDisappear (view : MapView) : MapView := { view with selectedPin := none }

end MapView

/-! ## The screens -/

/-- What is on top: the map, board number `v` over it, or a `PostView` over that board. -/
inductive Screen where
  | map
  | board (v : ℕ)
  | post (v : ℕ) (p : Post)
deriving DecidableEq, Repr

/-- A handler that waits to be delivered. -/
inductive Handler where
  | textOnAppear
  | mapOnAppear
  | mapOnDisappear
  | boardOnAppear (v : ℕ)
  | boardOnDisappear (v : ℕ)
deriving DecidableEq, Repr

/-- Both set `action` to 0. -/
def Handler.resetsAction : Handler → Bool
  | .mapOnAppear => true
  | .boardOnDisappear _ => true
  | _ => false

/-- The map and the screens over it. `selectedAnnotation` is MapKit's own selection,
`textShown` says whether the last rendering showed the hidden `Text`, and the boards are
numbered in the order in which they are pushed. -/
structure Navigation where
  mapView : MapView := {}
  currentBulletinBoard : String := "B Board"
  needToCenterLocation : Bool := true
  selectedAnnotation : Option MapPin := none
  textShown : Bool := false
  top : Screen := .map
  pushed : ℕ := 0
  boards : ℕ → Board := fun _ => {}
  pending : List Handler := [.mapOnAppear]

inductive NavigationEvent where
  | tapPin (pin : MapPin)
  | tapMap
  | render
  | deliver (h : Handler)
  | openPost (p : Post)
  | back
  | closeLink
  | complete (v : ℕ) (q : PostQuery) (r : Response Value)
  | createPost (form : NewPost)

namespace Navigation

def select (pin : MapPin) (s : Navigation) : Navigation := { s with
  mapView := (s.mapView.didSelect pin).1
  currentBulletinBoard := (s.mapView.didSelect pin).2
  selectedAnnotation := some pin }

def deselect (s : Navigation) : Navigation := { s with
  mapView := s.mapView.didDeselect
  selectedAnnotation := none }

/-- A tap on a pin: MapKit deselects the pin that was selected before. -/
def tapPin (pin : MapPin) (s : Navigation) : Navigation :=
  if s.selectedAnnotation.isSome then s.deselect.select pin else s.select pin

/-- `updateUIView` puts the annotations anew and selects the one of `selectedPin`. -/
def updateUIView (s : Navigation) : Navigation :=
  match s.mapView.selectedPin with
  | some pin => s.select pin
  | none => { s with selectedAnnotation := none }

/-- The `if selectedPin != nil` of the body. -/
def showText (s : Navigation) : Navigation := { s with
  textShown := s.mapView.selectedPin.isSome
  pending := s.pending ++
    if s.mapView.selectedPin.isSome && !s.textShown then [.textOnAppear] else [] }

/-- The `NavigationLink` of the body. -/
def pushBoard (s : Navigation) : Navigation :=
  if s.top = .map ∧ s.mapView.action = some 1 then { s with
    top := .board s.pushed
    pushed := s.pushed + 1
    pending := s.pending ++ [.mapOnDisappear, .boardOnAppear s.pushed] }
  else s

/-- One rendering of `MapView`. -/
def render (s : Navigation) : Navigation := s.showText.updateUIView.pushBoard

/-- A handler runs, while `Post` has `since` documents. -/
def handle (since : ℕ) (s : Navigation) : Handler → Navigation
  | .textOnAppear => { s with mapView := s.mapView.textOnAppear }
  | .mapOnAppear => { s with mapView := s.mapView.onAppear }
  | .mapOnDisappear => { s with mapView := s.mapView.onDisappear }
  | .boardOnAppear v => { s with
      boards := Function.update s.boards v
        ((s.boards v).onAppear s.currentBulletinBoard since) }
  | .boardOnDisappear v => { s with
      -- `mapAction` is bound to `action`
      mapView := { s.mapView with action := (s.boards v).onDisappear.view.mapAction }
      boards := Function.update s.boards v (s.boards v).onDisappear
      needToCenterLocation := (s.boards v).view.onDisappear.2 }

/-- A board leaves the screen for good. -/
def popBoard (v : ℕ) (action : Option ℤ) (s : Navigation) : Navigation := { s with
  mapView := { s.mapView with action := action }
  top := .map
  pending := s.pending ++ [.boardOnDisappear v, .mapOnAppear] }

/-- One event, next to whatever the `Post` collection is then. -/
inductive Step : Navigation → NavigationEvent → Navigation → Prop
  /-- MapKit reports a tap only on a pin that is not selected already. -/
  | tapPin (s : Navigation) (pin : MapPin) (shown : s.top = .map) (known : pin ∈ s.mapView.pins)
      (unselected : s.selectedAnnotation ≠ some pin) : Step s (.tapPin pin) (s.tapPin pin)
  | tapMap (s : Navigation) (shown : s.top = .map) (selected : s.selectedAnnotation ≠ none) :
      Step s .tapMap s.deselect
  | render (s : Navigation) : Step s .render s.render
  | deliver (s : Navigation) (h : Handler) (collection : Collection Value)
      (pending : h ∈ s.pending) : Step s (.deliver h)
        ({ s with pending := s.pending.erase h }.handle collection.docs.length h)
  | openPost (s : Navigation) {v : ℕ} (p : Post) (shown : s.top = .board v)
      (listed : p ∈ (s.boards v).view.posts) : Step s (.openPost p)
        { s with top := .post v p, pending := s.pending ++ [.boardOnDisappear v] }
  | closePost (s : Navigation) {v : ℕ} {p : Post} (shown : s.top = .post v p) : Step s .back
      { s with top := .board v, pending := s.pending ++ [.boardOnAppear v] }
  /-- The back button of a board sets the link's selection to `nil`. -/
  | closeBoard (s : Navigation) {v : ℕ} (shown : s.top = .board v) :
      Step s .back (s.popBoard v none)
  /-- A link may close as soon as its selection is not 1. -/
  | closeLink (s : Navigation) {v : ℕ}
      (shown : s.top = .board v ∨ ∃ p, s.top = .post v p) (inactive : s.mapView.action ≠ some 1) :
      Step s .closeLink (s.popBoard v s.mapView.action)
  | complete (s : Navigation) (v : ℕ) {q : PostQuery} {r : Response Value} {board : Board}
      {out : Option (Fields Value)} (collection : Collection Value)
      (step : Board.Step collection s.currentBulletinBoard (s.boards v) (.complete q r) board out) :
      Step s (.complete v q r) { s with boards := Function.update s.boards v board }
  | createPost (s : Navigation) {v : ℕ} {form : NewPost} {board : Board}
      {out : Option (Fields Value)} (collection : Collection Value) (shown : s.top = .board v)
      (step : Board.Step collection s.currentBulletinBoard (s.boards v) (.createPost form) board
        out) :
      Step s (.createPost form) { s with boards := Function.update s.boards v board }

end Navigation

end Pindex
