import Pindex.Map

/-!
# Who moves the map

`needToCenterLocation` is a request to move the map to the user. `ServesRequests` is the law
that the map is moved on request only: every step that sets a centre finds the flag raised
and lowers it.

`didUpdateLocations` keeps to the law, and `updateUIView` never does, as it neither reads the
flag nor lowers it: a run serves its requests exactly when it has no `updateUIView`
(`servesRequests_iff`), and a map that has been brought up to date has had one
(`not_servesRequests_of_updated`).
-/

namespace Pindex

open Transition

namespace Maps

variable {s s' t : Maps} {e : MapEvent} {i k v : ℕ} {tr : List (Move Maps MapEvent)}

/-! ## Requests -/

/-- The app calls `setRegion` or `setCenter`. -/
def Recentres (m : Move Maps MapEvent) : Prop := m.target.centred ≠ m.source.centred

/-- The flag is raised. -/
def Requests (m : Move Maps MapEvent) : Prop :=
  m.source.needToCenterLocation = false ∧ m.target.needToCenterLocation = true

/-- A location is delivered while a request waits and there is a map to move. -/
def MustServe (m : Move Maps MapEvent) : Prop :=
  m.source.needToCenterLocation = true ∧ m.source.mStructView.isSome = true ∧
    m.source.mStructContext.isSome = true ∧
    ∃ k locations, m.event = .didUpdateLocations k locations ∧ locations ≠ []

/-- The map is moved on request, and once for each request; what the user does to it stays. -/
structure ServesRequests (tr : List (Move Maps MapEvent)) : Prop where
  requested : ∀ m ∈ tr, Recentres m → m.source.needToCenterLocation = true
  lowered : ∀ m ∈ tr, Recentres m → m.target.needToCenterLocation = false
  once : ∀ before m mid m' after, tr = before ++ m :: (mid ++ m' :: after) →
    Recentres m → Recentres m' → ∃ r ∈ mid, Requests r
  served : ∀ m ∈ tr, MustServe m → Recentres m
  kept : ∀ m ∈ tr, ¬ Recentres m → (∀ v region, m.event ≠ .userMoves v region) →
    ∀ v < m.source.made, (m.target.views v).region = (m.source.views v).region

/-! ## What the functions do to the flag and to the centre -/

@[simp] theorem updateUIView_flag (s : Maps) (i v : ℕ) (map : Map) :
    (s.updateUIView i v map).needToCenterLocation = s.needToCenterLocation := rfl

theorem updateUIView_centred (s : Maps) (i v : ℕ) (map : Map) :
    ∃ center, (s.updateUIView i v map).centred = s.centred ++ [(v, center)] :=
  ⟨_, rfl⟩

/-- `didUpdateLocations` sets no centre, or it serves a request. -/
theorem didUpdateLocations_cases (s : Maps) (k : ℕ) (locations : List CLLocation) :
    ((s.didUpdateLocations k locations).centred = s.centred ∧
      (s.didUpdateLocations k locations).views = s.views ∧
      (s.didUpdateLocations k locations).needToCenterLocation = s.needToCenterLocation) ∨
    (s.needToCenterLocation = true ∧
      (s.didUpdateLocations k locations).needToCenterLocation = false ∧
      ∃ v center, (s.didUpdateLocations k locations).centred = s.centred ++ [(v, center)]) := by
  unfold didUpdateLocations
  split
  · exact .inl ⟨rfl, rfl, rfl⟩
  · dsimp only
    split
    · rename_i hflag
      exact .inr ⟨hflag, rfl, _, _, rfl⟩
    · exact .inl ⟨rfl, rfl, rfl⟩

/-- A raised flag and a map are enough for a location to serve the request. -/
theorem didUpdateLocations_serves {locations : List CLLocation}
    (hflag : s.needToCenterLocation = true) (hview : s.mStructView.isSome = true)
    (hcontext : s.mStructContext.isSome = true) (hlocations : locations ≠ []) :
    ∃ v center, (s.didUpdateLocations k locations).centred = s.centred ++ [(v, center)] := by
  obtain ⟨v, hv⟩ := Option.isSome_iff_exists.mp hview
  obtain ⟨i, hi⟩ := Option.isSome_iff_exists.mp hcontext
  unfold didUpdateLocations
  rw [List.getLast?_eq_getLast_of_ne_nil hlocations]
  dsimp only [publish]
  rw [hv, hi, hflag]
  exact ⟨v, _, rfl⟩

theorem recentres_of_centred {c : ℕ × CLLocationCoordinate2D} (h : s'.centred = s.centred ++ [c]) :
    Recentres ⟨s, e, s'⟩ := by
  show s'.centred ≠ s.centred
  rw [h]
  simp

/-! ## One step -/

/-- All that a step can do to the centre and the flag: an update sets a centre and leaves the
flag, a location serves a request, a new map or a closed board raises the flag, and every
other step does nothing to either. -/
theorem step_centre (step : Step s e s') :
    ((∃ i, e = .updateUIView i) ∧ Recentres ⟨s, e, s'⟩ ∧
      s'.needToCenterLocation = s.needToCenterLocation) ∨
    ((∃ k locations, e = .didUpdateLocations k locations) ∧ Recentres ⟨s, e, s'⟩ ∧
      s.needToCenterLocation = true ∧ s'.needToCenterLocation = false) ∨
    ((e = .boardOnDisappear ∨ ∃ i, e = .makeUIView i) ∧ ¬ Recentres ⟨s, e, s'⟩ ∧
      s'.needToCenterLocation = true) ∨
    ((∀ i, e ≠ .updateUIView i) ∧ ¬ Recentres ⟨s, e, s'⟩ ∧
      s'.needToCenterLocation = s.needToCenterLocation) := by
  cases step with
  | @updateUIView i v map shown made due =>
    obtain ⟨center, hcentred⟩ := updateUIView_centred s i v map
    exact .inl ⟨⟨i, rfl⟩, recentres_of_centred hcentred, updateUIView_flag s i v map⟩
  | didUpdateLocations locations initialized =>
    rcases didUpdateLocations_cases s _ locations with
      ⟨hcentred, -, hflag⟩ | ⟨hraised, hlowered, v, center, hcentred⟩
    · exact .inr (.inr (.inr ⟨by simp, fun h => h hcentred, hflag⟩))
    · exact .inr (.inl ⟨⟨_, locations, rfl⟩, recentres_of_centred hcentred, hraised, hlowered⟩)
  | makeUIView i => exact .inr (.inr (.inl ⟨.inr ⟨i, rfl⟩, fun h => h rfl, rfl⟩))
  | boardOnDisappear => exact .inr (.inr (.inl ⟨.inl rfl, fun h => h rfl, rfl⟩))
  | body => exact .inr (.inr (.inr ⟨by simp, fun h => h rfl, rfl⟩))
  | didChangeAuthorization => exact .inr (.inr (.inr ⟨by simp, fun h => h rfl, rfl⟩))
  | userMoves => exact .inr (.inr (.inr ⟨by simp, fun h => h rfl, rfl⟩))

/-- An update sets a centre and leaves the flag as it is, raised or not. -/
theorem recentres_of_updateUIView (step : Step s (.updateUIView i) s') :
    Recentres ⟨s, .updateUIView i, s'⟩ ∧ s'.needToCenterLocation = s.needToCenterLocation := by
  rcases step_centre step with ⟨-, h⟩ | ⟨⟨k, locations, he⟩, -⟩ | ⟨he, -⟩ | ⟨he, -⟩
  · exact h
  · cases he
  · simp at he
  · exact absurd rfl (he i)

/-- Every other step that sets a centre serves a request. -/
theorem serves_of_recentres (step : Step s e s') (he : ∀ i, e ≠ .updateUIView i)
    (h : Recentres ⟨s, e, s'⟩) :
    s.needToCenterLocation = true ∧ s'.needToCenterLocation = false := by
  rcases step_centre step with ⟨⟨i, hi⟩, -⟩ | ⟨-, -, hserves⟩ | ⟨-, hsame, -⟩ | ⟨-, hsame, -⟩
  · exact absurd hi (he i)
  · exact hserves
  · exact absurd h hsame
  · exact absurd h hsame

/-- The flag is raised by `makeUIView` and by the closing of a board, and by nothing else. -/
theorem event_of_requests (step : Step s e s') (h : Requests ⟨s, e, s'⟩) :
    e = .boardOnDisappear ∨ ∃ i, e = .makeUIView i := by
  have hs : s.needToCenterLocation = false := h.1
  have hs' : s'.needToCenterLocation = true := h.2
  rcases step_centre step with ⟨-, -, hflag⟩ | ⟨-, -, hraised, -⟩ | ⟨he, -⟩ | ⟨-, -, hflag⟩
  · simp [hs, hs'] at hflag
  · simp [hs] at hraised
  · exact he
  · simp [hs, hs'] at hflag

/-- A view's region changes only if the app sets its centre or the user moves it. -/
theorem region_kept (step : Step s e s') (h : ¬ Recentres ⟨s, e, s'⟩)
    (he : ∀ v region, e ≠ .userMoves v region) (hv : v < s.made) :
    (s'.views v).region = (s.views v).region := by
  cases step with
  | updateUIView shown made due =>
    exact absurd (recentres_of_updateUIView (.updateUIView s shown made due)).1 h
  | didUpdateLocations locations initialized =>
    rcases didUpdateLocations_cases s _ locations with ⟨-, hviews, -⟩ | ⟨-, -, _, _, hcentred⟩
    · rw [hviews]
    · exact absurd (recentres_of_centred hcentred) h
  | makeUIView i region shown =>
    have hne : v ≠ s.made := by omega
    show (Function.update s.views s.made _ v).region = _
    rw [Function.update_of_ne hne]
  | userMoves region made => exact absurd rfl (he _ _)
  | body => rfl
  | didChangeAuthorization => rfl
  | boardOnDisappear => rfl

theorem recentres_of_mustServe (step : Step s e s') (h : MustServe ⟨s, e, s'⟩) :
    Recentres ⟨s, e, s'⟩ := by
  obtain ⟨hflag, hview, hcontext, k, locations, he, hlocations⟩ := h
  have he' : e = .didUpdateLocations k locations := he
  subst he'
  cases step with
  | didUpdateLocations =>
    obtain ⟨v, center, hcentred⟩ := didUpdateLocations_serves hflag hview hcontext hlocations
    exact recentres_of_centred hcentred

/-! ## Runs -/

theorem recentres_of_mem {m : Move Maps MapEvent} (run : Run Step s tr t) (hm : m ∈ tr)
    (he : m.event = .updateUIView i) :
    Recentres m ∧ m.target.needToCenterLocation = m.source.needToCenterLocation := by
  obtain ⟨s₁, e, s₂⟩ := m
  have he' : e = .updateUIView i := he
  subst he'
  exact recentres_of_updateUIView (run.move_of_mem hm).2

/-- One update is enough to break the law: with the flag down it moves the map unasked, and
with the flag up it does not serve the request. -/
theorem not_servesRequests_of_mem {m : Move Maps MapEvent} (run : Run Step s tr t) (hm : m ∈ tr)
    (he : m.event = .updateUIView i) : ¬ ServesRequests tr := by
  intro h
  obtain ⟨hrecentres, hflag⟩ := recentres_of_mem run hm he
  have hraised : m.source.needToCenterLocation = true := h.requested m hm hrecentres
  have hlowered : m.target.needToCenterLocation = false := h.lowered m hm hrecentres
  rw [hflag, hraised] at hlowered
  cases hlowered

/-- A run serves its requests exactly when the maps are not updated in it. -/
theorem servesRequests_iff (run : Run Step s tr t) :
    ServesRequests tr ↔ ∀ m ∈ tr, ∀ i, m.event ≠ .updateUIView i := by
  constructor
  · intro h m hm i he
    exact not_servesRequests_of_mem run hm he h
  · intro h
    have hserves : ∀ m ∈ tr, Recentres m → m.source.needToCenterLocation = true ∧
        m.target.needToCenterLocation = false := fun m hm =>
      serves_of_recentres (run.move_of_mem hm).2 (h m hm)
    refine ⟨fun m hm hr => (hserves m hm hr).1, fun m hm hr => (hserves m hm hr).2, ?_, ?_, ?_⟩
    -- the first of two services lowers the flag, and the second finds it raised again
    · rintro before m mid m' after rfl hr hr'
      have hlowered : m.target.needToCenterLocation = false := (hserves m (by simp) hr).2
      have hraised : m'.source.needToCenterLocation = true := (hserves m' (by simp) hr').1
      obtain ⟨r, hmem, hbefore, hafter⟩ := run.between.exists_change
        (I := fun s => s.needToCenterLocation = true) (by simp [hlowered]) hraised
      exact ⟨r, hmem, by simpa using hbefore, hafter⟩
    · exact fun m hm => recentres_of_mustServe (run.move_of_mem hm).2
    · exact fun m hm hr huser v hv => region_kept (run.move_of_mem hm).2 hr huser hv

def home : CLLocation := ⟨⟨40, -83⟩⟩

def street : CLLocation := ⟨⟨41, -83⟩⟩

/-- Two requests, two locations, and the map is moved twice (to the place that stands for a
missing location, as `mStruct` is nil until the first update). -/
theorem two_requests_served : ∃ tr s, Run Step {} tr s ∧
    s.centred = [(0, ⟨45, 55⟩), (0, ⟨45, 55⟩)] ∧ ServesRequests tr := by
  have h1 := (Run.nil ({} : Maps)).snoc (Step.body _ 0 addPins none)
  have h2 := h1.snoc (.makeUIView _ 0 {} rfl)
  have h3 := h2.snoc (.didUpdateLocations _ (k := 0) [home] (by decide))
  have h4 := (h3.snoc (.boardOnDisappear _ {})).snoc
    (.didUpdateLocations _ (k := 0) [street] (by decide))
  refine ⟨_, _, h4, rfl, (servesRequests_iff h4).mpr ?_⟩
  simp

/-- The user looks at another place after the request has been served, and walks on: the
next location takes the map back, with the flag down. -/
theorem update_moves_map_unasked : ∃ tr s m elsewhere, Run Step {} tr s ∧ m ∈ tr ∧ Recentres m ∧
    m.source.needToCenterLocation = false ∧ (m.source.views 0).region = elsewhere ∧
    (m.target.views 0).region.center = street.coordinate ∧
    elsewhere.center ≠ street.coordinate ∧ ¬ ServesRequests tr := by
  have h1 := (Run.nil ({} : Maps)).snoc (Step.body _ 0 addPins none)
  have h2 := h1.snoc (.makeUIView _ 0 {} rfl)
  have h3 := h2.snoc (.updateUIView _ (i := 0) rfl rfl rfl)
  have h4 := h3.snoc (.didUpdateLocations _ (k := 0) [home] (by decide))
  have h5 := h4.snoc (.updateUIView _ (i := 0) rfl rfl rfl)
  have h6 := h5.snoc (.userMoves _ (v := 0) ⟨⟨51, 0⟩, ⟨1, 1⟩⟩ (by decide))
  have h7 := h6.snoc (.didUpdateLocations _ (k := 0) [street] (by decide))
  have h8 := h7.snoc (.updateUIView _ (i := 0) rfl rfl rfl)
  refine ⟨_, _, _, _, h8, List.mem_append_right _ (List.mem_singleton_self _),
    recentres_of_centred rfl, rfl, rfl, rfl, by decide, fun h => ?_⟩
  have hraised := h.requested _ (List.mem_append_right _ (List.mem_singleton_self _))
    (recentres_of_centred rfl)
  cases hraised

/-! ## Updates that are due -/

@[simp] theorem makeUIView_due (s : Maps) (i : ℕ) (region : MKCoordinateRegion) :
    ((s.makeUIView i region).nodes i).due = true := by
  show (Function.update s.nodes i _ i).due = true
  rw [Function.update_self]

/-- A published change makes the updates of all observers due, and no other. -/
@[simp] theorem publish_due (s : Maps) (k i : ℕ) (manager : LocationManager) :
    ((s.publish k manager).nodes i).due = ((s.nodes i).observes k || (s.nodes i).due) := by
  unfold publish
  dsimp only
  by_cases h : (s.nodes i).observes k = true
  · rw [if_pos h, h, Bool.true_or]
  · rw [if_neg h, Bool.eq_false_of_not_eq_true h, Bool.false_or]

/-- Whatever `didUpdateLocations` does to the map, it publishes the location. -/
theorem didUpdateLocations_nodes {locations : List CLLocation} {location : CLLocation}
    (h : locations.getLast? = some location) : (s.didUpdateLocations k locations).nodes =
      (s.publish k { s.locationManagers k with lastLocation := some location }).nodes := by
  unfold didUpdateLocations
  rw [h]
  dsimp only
  split <;> rfl

theorem update_due {node : MapNode} {j : ℕ} (h : (s.nodes i).due = true) (hnode : node.due = true) :
    (Function.update s.nodes j node i).due = true := by
  by_cases hj : i = j
  · rw [hj, Function.update_self]
    exact hnode
  · rw [Function.update_of_ne hj]
    exact h

/-- An update stays due until it runs. -/
theorem due_step (h : (s.nodes i).due = true) (step : Step s e s') (he : e ≠ .updateUIView i) :
    (s'.nodes i).due = true := by
  cases step with
  | body j pins selectedPin => exact update_due h rfl
  | makeUIView j region shown => exact update_due h rfl
  | @updateUIView j v map shown made due =>
    have hj : i ≠ j := fun hj => he (by rw [hj])
    show (Function.update s.nodes j _ i).due = true
    rw [Function.update_of_ne hj]
    exact h
  | didUpdateLocations locations initialized =>
    by_cases hlast : locations.getLast? = none
    · unfold didUpdateLocations
      rw [hlast]
      exact h
    · obtain ⟨location, hlocation⟩ := Option.ne_none_iff_exists'.mp hlast
      rw [didUpdateLocations_nodes hlocation, publish_due, h, Bool.or_true]
  | didChangeAuthorization status initialized =>
    unfold didChangeAuthorization
    rw [publish_due, h, Bool.or_true]
  | boardOnDisappear => exact h
  | userMoves => exact h

/-- An update that was due and is not any more has set a centre and has left the flag as
it was. -/
theorem recentred_of_due (run : Run Step s tr t) (h : (s.nodes i).due = true)
    (hdone : (t.nodes i).due = false) : ∃ m ∈ tr, m.event = .updateUIView i ∧ Recentres m ∧
      m.target.needToCenterLocation = m.source.needToCenterLocation := by
  by_contra hnone
  have hother : ∀ m ∈ tr, m.event ≠ .updateUIView i := by
    intro m hm he
    exact hnone ⟨m, hm, he, recentres_of_mem run hm he⟩
  have hdue := run.guarded (I := fun s => (s.nodes i).due = true) h
    (fun m _ hs step he => due_step hs step he) hother
  rw [hdone] at hdue
  cases hdue.1

/-- Each location that is delivered to the manager of a map on the screen moves the map
once more, when SwiftUI has run the update. -/
theorem recentred_after_delivery {locations : List CLLocation}
    (step : Step s (.didUpdateLocations k locations) s') (run : Run Step s' tr t)
    (hlocations : locations ≠ []) (hobserves : (s.nodes i).observes k = true)
    (hdone : (t.nodes i).due = false) : ∃ m ∈ tr, m.event = .updateUIView i ∧ Recentres m ∧
      m.target.needToCenterLocation = m.source.needToCenterLocation := by
  refine recentred_of_due run ?_ hdone
  cases step with
  | didUpdateLocations =>
    rw [didUpdateLocations_nodes (List.getLast?_eq_getLast_of_ne_nil hlocations), publish_due,
      hobserves, Bool.true_or]

/-- A run that makes a map and leaves it up to date breaks the law. -/
theorem not_servesRequests_of_updated {m : Move Maps MapEvent} (run : Run Step s tr t)
    (hm : m ∈ tr) (hmade : m.event = .makeUIView i) (hdone : (t.nodes i).due = false) :
    ¬ ServesRequests tr := by
  obtain ⟨before, after, rfl⟩ := List.append_of_mem hm
  have step : Step m.source (.makeUIView i) m.target := hmade ▸ (run.move_of_mem hm).2
  have hdue : (m.target.nodes i).due = true := by
    generalize m.target = s₁ at step
    cases step with
    | makeUIView => exact makeUIView_due _ _ _
  obtain ⟨m', hm', he, -⟩ := recentred_of_due run.after hdue hdone
  exact not_servesRequests_of_mem run (by simp [hm']) he

/-! ## Requests are answered -/

/-- A delivery leaves the maps that there are. -/
theorem didUpdateLocations_frame (s : Maps) (k : ℕ) (locations : List CLLocation) :
    (s.didUpdateLocations k locations).made = s.made ∧
      (s.didUpdateLocations k locations).mStructView = s.mStructView ∧
      (s.didUpdateLocations k locations).mStructContext = s.mStructContext := by
  unfold didUpdateLocations
  split
  · exact ⟨rfl, rfl, rfl⟩
  · dsimp only
    split <;> exact ⟨rfl, rfl, rfl⟩

/-- Once a map has been made, the globals refer to one. -/
def MapKnown (s : Maps) : Prop :=
  0 < s.made → s.mStructView.isSome = true ∧ s.mStructContext.isSome = true

theorem mapKnown_step (h : MapKnown s) (step : Step s e s') : MapKnown s' := by
  cases step with
  | makeUIView => exact fun _ => ⟨rfl, rfl⟩
  | didUpdateLocations locations initialized =>
    obtain ⟨hmade, hview, hcontext⟩ := didUpdateLocations_frame s _ locations
    unfold MapKnown
    rw [hmade, hview, hcontext]
    exact h
  | body => exact h
  | updateUIView => exact h
  | didChangeAuthorization => exact h
  | boardOnDisappear => exact h
  | userMoves => exact h

theorem mapKnown_of_reaches (h : Reaches Step {} s) : MapKnown s :=
  h.invariant (I := MapKnown) (fun hmade => absurd hmade (Nat.lt_irrefl 0))
    fun _ _ _ => mapKnown_step

/-- When a map has been made, a request is served by the next location, and the flag is
lowered. -/
theorem request_answered {locations : List CLLocation} (h : Reaches Step {} s)
    (hmade : 0 < s.made) (hflag : s.needToCenterLocation = true) (hlocations : locations ≠ [])
    (step : Step s (.didUpdateLocations k locations) s') :
    Recentres ⟨s, .didUpdateLocations k locations, s'⟩ ∧ s'.needToCenterLocation = false := by
  obtain ⟨hview, hcontext⟩ := mapKnown_of_reaches h hmade
  have hrecentres := recentres_of_mustServe step
    ⟨hflag, hview, hcontext, k, locations, rfl, hlocations⟩
  exact ⟨hrecentres, (serves_of_recentres step (by simp) hrecentres).2⟩

/-! ## The screens over the map -/

variable {n n' : Navigation} {ne : NavigationEvent}
  {moves : List (Move Navigation NavigationEvent)}

/-- A board's `onDisappear` is delivered. -/
def closesBoard : NavigationEvent → Bool
  | .deliver (.boardOnDisappear _) => true
  | _ => false

/-- The screens raise the flag when a board's `onDisappear` is delivered, and do not touch it
otherwise. -/
theorem navigation_flag (step : Navigation.Step n ne n') : n'.needToCenterLocation =
    if closesBoard ne then true else n.needToCenterLocation := by
  cases step with
  | tapPin pin =>
    show (n.tapPin pin).needToCenterLocation = n.needToCenterLocation
    unfold Navigation.tapPin
    split <;> rfl
  | render =>
    show n.render.needToCenterLocation = n.needToCenterLocation
    unfold Navigation.render Navigation.pushBoard Navigation.updateUIView
    split <;> split <;> rfl
  | deliver hd => cases hd <;> rfl
  | tapMap => rfl
  | openPost => rfl
  | closePost => rfl
  | closeBoard => rfl
  | closeLink => rfl
  | complete => rfl
  | createPost => rfl

/-- A run of the screens is, for the flag, the run of its board closings. -/
theorem exists_run_of_navigation (run : Run Navigation.Step n moves n')
    (h : s.needToCenterLocation = n.needToCenterLocation) : ∃ tr s', Run Step s tr s' ∧
      s'.needToCenterLocation = n'.needToCenterLocation ∧
      tr.map (·.event) =
        (moves.filter fun m => closesBoard m.event).map fun _ => .boardOnDisappear := by
  induction run with
  | nil => exact ⟨[], s, .nil s, h, rfl⟩
  | @snoc n₁ n₂ moves ne run step ih =>
    obtain ⟨tr, s₁, hrun, hflag, hevents⟩ := ih
    have hstep := navigation_flag step
    by_cases hcloses : closesBoard ne = true
    · rw [if_pos hcloses] at hstep
      refine ⟨_, _, hrun.snoc (.boardOnDisappear s₁ {}), hstep.symm, ?_⟩
      simp [hevents, hcloses]
    · rw [if_neg hcloses] at hstep
      refine ⟨tr, s₁, hrun, hflag.trans hstep.symm, ?_⟩
      simp [hevents, hcloses]

/-- `updateUIView` here and the one among the screens select the same pin. -/
theorem updateUIView_selectedAnnotation {map : Map}
    (h : map.selectedPin = n.mapView.selectedPin) :
    MKMapView.selectedAnnotation ((s.updateUIView i v map).views v) =
      n.updateUIView.selectedAnnotation := by
  have hselected :
      MKMapView.selectedAnnotation ((s.updateUIView i v map).views v) = map.selectedPin := by
    unfold updateUIView
    dsimp only
    rw [Function.update_self]
  rw [hselected, h]
  unfold Navigation.updateUIView
  split
  · rename_i pin hpin
    exact hpin
  · rename_i hnone
    exact hnone

end Maps

end Pindex
