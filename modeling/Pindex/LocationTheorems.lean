import Pindex.SystemTheorems

/-!
# Where the map goes

A centre comes from the `LocationManager` of a `Map`: of the one that is updated, or of
`mStruct`. `System.centred_at` says which place that is in every run: the last location that
Core Location has delivered to this very manager, or one of two fixed places where it has
delivered none.

Each `Map` makes a `LocationManager` of its own, so a `body` forgets where the user is, and the
next update takes the map to the fixed place (`System.sent_away_after_body`).
-/

namespace Pindex

open Transition

/-! ## What a manager knows -/

namespace Maps

variable {s s' : Maps} {e : MapEvent} {k : ℕ} {tr past : List (Move Maps MapEvent)}
  {m : Move Maps MapEvent}

/-- Core Location calls `didUpdateLocations` of manager `k`, with `location` last. -/
def Delivers (k : ℕ) (location : CLLocation) (m : Move Maps MapEvent) : Prop :=
  ∃ locations, m.event = .didUpdateLocations k locations ∧ locations.getLast? = some location

theorem didUpdateLocations_managers {locations : List CLLocation} {location : CLLocation}
    (h : locations.getLast? = some location) : (s.didUpdateLocations k locations).locationManagers =
      Function.update s.locationManagers k
        { s.locationManagers k with lastLocation := some location } := by
  unfold didUpdateLocations
  rw [h]
  dsimp only
  split <;> rfl

theorem didUpdateLocations_of_none {locations : List CLLocation}
    (h : locations.getLast? = none) : s.didUpdateLocations k locations = s := by
  unfold didUpdateLocations
  rw [h]

/-- No location has been delivered to a manager that has not been made. -/
theorem lastLocation_of_le (h : Reaches Step {} s) (hk : s.initialized ≤ k) :
    (s.locationManagers k).lastLocation = none := by
  have hinv : ∀ k, s.initialized ≤ k → (s.locationManagers k).lastLocation = none := by
    apply h.invariant (I := fun s => ∀ k, s.initialized ≤ k →
      (s.locationManagers k).lastLocation = none)
    · exact fun _ _ => rfl
    intro t e u ih step k hk
    cases step with
    | body i pins selectedPin =>
      have hne : k ≠ t.initialized := Nat.ne_of_gt hk
      show (Function.update t.locationManagers t.initialized {} k).lastLocation = none
      rw [Function.update_of_ne hne]
      exact ih k (Nat.le_of_succ_le hk)
    | @didUpdateLocations k' locations initialized =>
      cases hlast : locations.getLast? with
      | none =>
        rw [didUpdateLocations_of_none hlast] at hk ⊢
        exact ih k hk
      | some location =>
        have hsame : (t.didUpdateLocations k' locations).initialized = t.initialized := by
          unfold didUpdateLocations
          rw [hlast]
          dsimp only
          split <;> rfl
        rw [hsame] at hk
        rw [didUpdateLocations_managers hlast,
          Function.update_of_ne (Nat.ne_of_gt (Nat.lt_of_lt_of_le initialized hk))]
        exact ih k hk
    | @didChangeAuthorization k' status initialized =>
      have hne : k ≠ k' := Nat.ne_of_gt (Nat.lt_of_lt_of_le initialized hk)
      show (Function.update t.locationManagers k' _ k).lastLocation = none
      rw [Function.update_of_ne hne]
      exact ih k hk
    | makeUIView => exact ih k hk
    | updateUIView => exact ih k hk
    | boardOnDisappear => exact ih k hk
    | userMoves => exact ih k hk
  exact hinv k hk

/-- A step that delivers no location to manager `k` leaves what it knows. -/
theorem lastLocation_kept (h : Reaches Step {} s) (step : Step s e s')
    (hnone : ¬ ∃ location, Delivers k location ⟨s, e, s'⟩) :
    (s'.locationManagers k).lastLocation = (s.locationManagers k).lastLocation := by
  cases step with
  | body i pins selectedPin =>
    show (Function.update s.locationManagers s.initialized {} k).lastLocation = _
    by_cases hk : k = s.initialized
    · -- the new manager knows as little as its number did
      rw [hk, Function.update_self, lastLocation_of_le h (Nat.le_refl _)]
    · rw [Function.update_of_ne hk]
  | @didUpdateLocations k' locations initialized =>
    cases hlast : locations.getLast? with
    | none => rw [didUpdateLocations_of_none hlast]
    | some location =>
      have hne : k ≠ k' := by
        rintro rfl
        exact hnone ⟨location, locations, rfl, hlast⟩
      rw [didUpdateLocations_managers hlast, Function.update_of_ne hne]
  | @didChangeAuthorization k' status initialized =>
    show (Function.update s.locationManagers k' _ k).lastLocation = _
    by_cases hk : k = k'
    · rw [hk, Function.update_self]
    · rw [Function.update_of_ne hk]
  | makeUIView => rfl
  | updateUIView => rfl
  | boardOnDisappear => rfl
  | userMoves => rfl

theorem lastLocation_set (step : Step s e s') {location : CLLocation}
    (h : Delivers k location ⟨s, e, s'⟩) :
    (s'.locationManagers k).lastLocation = some location := by
  obtain ⟨locations, he, hlast⟩ := h
  obtain rfl : e = .didUpdateLocations k locations := he
  cases step with
  | didUpdateLocations =>
    rw [didUpdateLocations_managers hlast, Function.update_self]

/-- `lastLocation` is what its name says. -/
theorem last_lastLocation (run : Run Step {} tr s) (k : ℕ) :
    Last (Delivers k) tr (s.locationManagers k).lastLocation :=
  run.last (f := fun s => (s.locationManagers k).lastLocation) rfl
    (fun _ _ step _ hx => lastLocation_set step hx)
    (fun _ hreaches step hnone => lastLocation_kept hreaches step hnone)

/-! ## Where the centre comes from -/

/-- The place that `updateUIView` and `didUpdateLocations` make of a `lastLocation`, where
`unknown` stands for a missing one. -/
def placeOf (unknown : CLLocationCoordinate2D) (known : Option CLLocation) :
    CLLocationCoordinate2D :=
  (known.map (·.coordinate)).getD unknown

theorem updateUIView_place (s : Maps) (i v : ℕ) (map : Map) :
    (s.updateUIView i v map).centred = s.centred ++
      [(v, placeOf ⟨40, -82⟩ (s.locationManagers map.locationManager).lastLocation)] := by
  unfold updateUIView setRegion placeOf
  dsimp only
  cases (s.locationManagers map.locationManager).lastLocation <;> rfl

/-- What serves a request looks at the manager of `mStruct`, not at the one that is told. -/
theorem didUpdateLocations_place {locations : List CLLocation}
    (h : (s.didUpdateLocations k locations).centred ≠ s.centred) : ∃ v place,
    (s.didUpdateLocations k locations).centred = s.centred ++ [(v, place)] ∧
      ((∃ map, s.mStruct = some map ∧ place = placeOf ⟨45, 55⟩
        ((s.didUpdateLocations k locations).locationManagers map.locationManager).lastLocation) ∨
      (s.mStruct = none ∧ place = ⟨45, 55⟩)) := by
  cases hlast : locations.getLast? with
  | none =>
    rw [didUpdateLocations_of_none hlast] at h
    exact absurd rfl h
  | some location =>
    rw [didUpdateLocations_managers hlast]
    unfold didUpdateLocations at h ⊢
    rw [hlast] at h ⊢
    dsimp only [publish] at h ⊢
    split at h
    · rename_i v i hview hcontext hflag
      rw [hview, hcontext]
      refine ⟨v, _, rfl, ?_⟩
      cases hstruct : s.mStruct with
      | none => exact .inr ⟨rfl, rfl⟩
      | some map =>
        refine .inl ⟨map, rfl, ?_⟩
        simp only [Option.bind_some, placeOf]
        cases (Function.update s.locationManagers k
          { s.locationManagers k with lastLocation := some location }
          map.locationManager).lastLocation <;> rfl
    · exact absurd rfl h

/-- The centre that the move `m` sets, and where it comes from: the manager of the map that is
updated, or the one of `mStruct`. `Knows k known` says what manager `k` knows. -/
def CentresOn (Knows : ℕ → Option CLLocation → Prop) (m : Move Maps MapEvent)
    (place : CLLocationCoordinate2D) : Prop :=
  (∃ i map known, m.event = .updateUIView i ∧ (m.source.nodes i).map = some map ∧
    Knows map.locationManager known ∧ place = placeOf ⟨40, -82⟩ known) ∨
  (∃ k locations, m.event = .didUpdateLocations k locations ∧
    ((∃ map known, m.source.mStruct = some map ∧ Knows map.locationManager known ∧
      place = placeOf ⟨45, 55⟩ known) ∨ (m.source.mStruct = none ∧ place = ⟨45, 55⟩)))

theorem step_centresOn (step : Step s e s') (moved : s'.centred ≠ s.centred) :
    ∃ view place, s'.centred = s.centred ++ [(view, place)] ∧
      CentresOn (fun k known => known = (s'.locationManagers k).lastLocation) ⟨s, e, s'⟩ place := by
  cases step with
  | @updateUIView i v map shown made due =>
    exact ⟨v, _, updateUIView_place s i v map, .inl ⟨i, map, _, rfl, shown, rfl, rfl⟩⟩
  | @didUpdateLocations k locations initialized =>
    obtain ⟨v, place, hcentred, ⟨map, hstruct, hplace⟩ | hnone⟩ := didUpdateLocations_place moved
    · exact ⟨v, place, hcentred, .inr ⟨k, locations, rfl, .inl ⟨map, _, hstruct, rfl, hplace⟩⟩⟩
    · exact ⟨v, place, hcentred, .inr ⟨k, locations, rfl, .inr hnone⟩⟩
  | body => exact absurd rfl moved
  | makeUIView => exact absurd rfl moved
  | didChangeAuthorization => exact absurd rfl moved
  | boardOnDisappear => exact absurd rfl moved
  | userMoves => exact absurd rfl moved

theorem CentresOn.mono {Knows Knows' : ℕ → Option CLLocation → Prop}
    {place : CLLocationCoordinate2D} (h : CentresOn Knows m place)
    (hKnows : ∀ k known, Knows k known → Knows' k known) : CentresOn Knows' m place := by
  rcases h with ⟨i, map, known, he, hmap, hknown, hplace⟩ |
    ⟨k, locations, he, ⟨map, known, hstruct, hknown, hplace⟩ | hnone⟩
  · exact .inl ⟨i, map, known, he, hmap, hKnows _ _ hknown, hplace⟩
  · exact .inr ⟨k, locations, he, .inl ⟨map, known, hstruct, hKnows _ _ hknown, hplace⟩⟩
  · exact .inr ⟨k, locations, he, .inr hnone⟩

/-! ## A new manager -/

/-- The manager of the map at node `i` knows no location. -/
def Unlocated (i : ℕ) (s : Maps) : Prop :=
  ∃ map, (s.nodes i).map = some map ∧ (s.locationManagers map.locationManager).lastLocation = none

theorem body_nodes (s : Maps) (i : ℕ) (pins : List MapPin) (selectedPin : Option MapPin) :
    (s.body i pins selectedPin).nodes i =
      { s.nodes i with map := some ⟨s.initialized, pins, selectedPin⟩, due := true } :=
  Function.update_self ..

theorem unlocated_body (s : Maps) (i : ℕ) (pins : List MapPin) (selectedPin : Option MapPin) :
    (s.body i pins selectedPin).Unlocated i := by
  refine ⟨⟨s.initialized, pins, selectedPin⟩, ?_, ?_⟩
  · rw [body_nodes]
  · show LocationManager.lastLocation (Function.update s.locationManagers _ {} s.initialized) = _
    rw [Function.update_self]

/-- What changes neither the map at a node nor the locations leaves it unlocated. -/
theorem Unlocated.congr {i : ℕ} (h : s.Unlocated i) (hmap : (s'.nodes i).map = (s.nodes i).map)
    (hlocation : ∀ k, (s.locationManagers k).lastLocation = none →
      (s'.locationManagers k).lastLocation = none) : s'.Unlocated i := by
  obtain ⟨map, hi, hnone⟩ := h
  exact ⟨map, hmap.trans hi, hlocation _ hnone⟩

theorem update_map {i j : ℕ} {node : MapNode} (h : node.map = (s.nodes j).map) :
    (Function.update s.nodes j node i).map = (s.nodes i).map := by
  by_cases hi : i = j
  · rw [hi, Function.update_self, h]
  · rw [Function.update_of_ne hi]

theorem publish_map (s : Maps) (k i : ℕ) (manager : LocationManager) :
    ((s.publish k manager).nodes i).map = (s.nodes i).map := by
  unfold publish
  dsimp only
  split <;> rfl

/-- Without a location the manager of a map stays as new. -/
theorem unlocated_step {i : ℕ} (h : s.Unlocated i) (step : Step s e s')
    (quiet : ∀ k locations, e = .didUpdateLocations k locations → locations = []) :
    s'.Unlocated i := by
  cases step with
  | body j pins selectedPin =>
    by_cases hi : i = j
    · rw [hi]
      exact unlocated_body s j pins selectedPin
    · refine h.congr ?_ fun k hnone => ?_
      · show MapNode.map (Function.update s.nodes j _ i) = _
        rw [Function.update_of_ne hi]
      · show LocationManager.lastLocation (Function.update s.locationManagers _ {} k) = none
        by_cases hk : k = s.initialized
        · rw [hk, Function.update_self]
        · rw [Function.update_of_ne hk]
          exact hnone
  | makeUIView j region shown => exact h.congr (update_map rfl) fun _ hnone => hnone
  | updateUIView shown made due => exact h.congr (update_map rfl) fun _ hnone => hnone
  | @didUpdateLocations k locations initialized =>
    obtain rfl := quiet k locations rfl
    exact h
  | @didChangeAuthorization k status initialized =>
    refine h.congr (publish_map s k i _) fun k' hnone => ?_
    show LocationManager.lastLocation (Function.update s.locationManagers k _ k') = none
    by_cases hk : k' = k
    · subst hk
      rw [Function.update_self]
      exact hnone
    · rw [Function.update_of_ne hk]
      exact hnone
  | boardOnDisappear => exact h
  | userMoves => exact h

/-- The update of an unlocated map goes to the fixed place, wherever the user is. -/
theorem updateUIView_of_unlocated {i : ℕ} (h : s.Unlocated i) (step : Step s (.updateUIView i) s') :
    ∃ v, (s.nodes i).uiView = some v ∧ s'.centred = s.centred ++ [(v, ⟨40, -82⟩)] ∧
      (s'.views v).region = ⟨⟨40, -82⟩, ⟨0.02, 0.02⟩⟩ := by
  obtain ⟨map, hi, hnone⟩ := h
  cases step with
  | @updateUIView _ v map' shown made due =>
    obtain rfl : map = map' := Option.some.inj (hi.symm.trans shown)
    refine ⟨v, made, ?_, ?_⟩
    · rw [updateUIView_place, hnone]
      rfl
    · unfold updateUIView setRegion MKMapView.setRegion
      simp only [Function.update_self, hnone]

end Maps

/-! ## The maps of a system -/

namespace System

variable {P : Platform} {u₀ u : System} {c i k : ℕ}
  {past before mid tr : List (Move System SystemEvent)} {m m' : Move System SystemEvent}

/-- Core Location calls `didUpdateLocations` of manager `k` on device `c`, with `location`
last. -/
def Delivers (c k : ℕ) (location : CLLocation) (m : Move System SystemEvent) : Prop :=
  ∃ locations, m.event = .device c (.map (.didUpdateLocations k locations)) ∧
    locations.getLast? = some location

/-- Managers know in a system what they know on their device. -/
theorem last_delivered {known : Option CLLocation} :
    Last (Maps.Delivers k) ((mapsSimulation P c).trace tr) known ↔
      Last (Delivers c k) tr known := by
  apply Simulation.last_trace
  · intro m m' hmove location
    obtain ⟨me, hme, rfl⟩ := Option.map_eq_some_iff.mp hmove
    refine exists_congr fun locations => and_congr_left fun _ => ?_
    rw [← mapEvent_eq_map (by simp)]
    show me = .didUpdateLocations k locations ↔ mapEvent c m.event = _
    rw [show mapEvent c m.event = some me from hme, Option.some.injEq]
  · rintro m hmove ⟨location, locations, he, -⟩
    have hnone : mapEvent c m.event = none := Option.map_eq_none_iff.mp hmove
    rw [(mapEvent_eq_map (by simp)).mpr he] at hnone
    cases hnone

/-- Whatever moves the map of a device moves it to the last location that has been delivered to
the manager it asks, or to the fixed place of its function if none has. -/
theorem centred_at (hi : u₀.Initial) (run : Run (Step P) u₀ (past ++ [m]) u)
    (moved : (m.target.devices c).maps.centred ≠ (m.source.devices c).maps.centred) :
    ∃ e view place, mapEvent c m.event = some e ∧
      (m.target.devices c).maps.centred = (m.source.devices c).maps.centred ++ [(view, place)] ∧
      Maps.CentresOn (fun k known => Last (Delivers c k) (past ++ [m]) known)
        ⟨(m.source.devices c).maps, e, (m.target.devices c).maps⟩ place := by
  obtain ⟨-, step, rfl⟩ := run.snoc_inv
  rcases step.maps_cases c with ⟨e, he, hstep⟩ | ⟨-, hsame⟩
  · obtain ⟨view, place, hcentred, hplace⟩ := Maps.step_centresOn hstep moved
    refine ⟨e, view, place, he, hcentred, hplace.mono fun k known hknown => ?_⟩
    have hrun := (mapsSimulation P c).run run
    rw [mapsSimulation_initial hi] at hrun
    rw [hknown, ← last_delivered (P := P)]
    exact Maps.last_lastLocation hrun k
  · exact absurd (congrArg Maps.centred hsame) moved

/-- The map of the first device has been made, and Core Location has told its manager where the
user is. -/
structure Located (u : System) : Prop where
  running : (u.devices 0).crashed = none
  fits : (u.devices 0).MapEventFits (.body 0 addPins none)
  node : (u.devices 0).maps.nodes 0 = ⟨some ⟨0, addPins, none⟩, some 0, true⟩
  known : ((u.devices 0).maps.locationManagers 0).lastLocation = some Maps.home

/-- Alice logs in, and is located. -/
theorem exists_located : ∃ past u, Run (Step .plain) aliceSystem past u ∧ Located u := by
  obtain ⟨tr, s, hlogin, -, hopened, -⟩ := exists_loggedIn
  have h1 := hlogin.snoc (.device 0 rfl (.map (e := .body 0 addPins none) ⟨hopened, rfl, rfl⟩
    (.body _ 0 addPins none)))
  have h2 := h1.snoc (.device 0 rfl (.map (e := .makeUIView 0) trivial (.makeUIView _ 0 {} rfl)))
  have h3 := h2.snoc (.device 0 rfl (.map (e := .didUpdateLocations 0 [Maps.home]) trivial
    (.didUpdateLocations _ [Maps.home] Nat.zero_lt_one)))
  exact ⟨_, _, h3, rfl, ⟨hopened, rfl, rfl⟩, rfl, rfl⟩

theorem Located.update {u : System} (h : Located u) :
    Maps.Step (u.devices 0).maps (.updateUIView 0)
      ((u.devices 0).maps.updateUIView 0 0 ⟨0, addPins, none⟩) :=
  .updateUIView _ (by rw [h.node]) (by rw [h.node]) (by rw [h.node])

/-- The update shows Alice where she is. -/
theorem alice_is_shown_home : ∃ past m u, Run (Step .plain) aliceSystem (past ++ [m]) u ∧
    (m.target.devices 0).maps.centred =
      (m.source.devices 0).maps.centred ++ [(0, Maps.home.coordinate)] ∧
    ∃ e view place, mapEvent 0 m.event = some e ∧
      (m.target.devices 0).maps.centred = (m.source.devices 0).maps.centred ++ [(view, place)] ∧
      Maps.CentresOn (fun k known => Last (Delivers 0 k) (past ++ [m]) known)
        ⟨(m.source.devices 0).maps, e, (m.target.devices 0).maps⟩ place := by
  obtain ⟨past, u, run, located⟩ := exists_located
  have hrun := run.snoc (.device 0 located.running
    (.map (e := .updateUIView 0) trivial located.update))
  have hcentred := Maps.updateUIView_place (u.devices 0).maps 0 0 ⟨0, addPins, none⟩
  rw [located.known] at hcentred
  refine ⟨past, _, _, hrun, hcentred, centred_at initial_aliceSystem hrun fun hsame => ?_⟩
  exact List.cons_ne_nil _ _ (List.append_right_eq_self.mp (hcentred.symm.trans hsame))

/-- Each time `MapView` has evaluated its `body`, the next update takes the map away to a fixed
place, unless a location has come in between: what the manager before knew is lost. -/
theorem sent_away_after_body (run : Run (Step P) u₀ (before ++ m :: (mid ++ [m'])) u)
    {pins : List MapPin} {selectedPin : Option MapPin}
    (body : m.event = .device c (.map (.body i pins selectedPin)))
    (quiet : ∀ m ∈ mid, ¬ Locates c m)
    (updated : m'.event = .device c (.map (.updateUIView i))) :
    ∃ view, ((m'.source.devices c).maps.nodes i).uiView = some view ∧
      (m'.target.devices c).maps.centred =
        (m'.source.devices c).maps.centred ++ [(view, ⟨40, -82⟩)] ∧
      ((m'.target.devices c).maps.views view).region = ⟨⟨40, -82⟩, ⟨0.02, 0.02⟩⟩ := by
  have hnew : (m.target.devices c).maps.Unlocated i := by
    obtain ⟨-, step⟩ := run.move_of_mem (m := m) (by simp)
    have hstep : Maps.Step _ (.body i pins selectedPin) (m.target.devices c).maps :=
      (mapsSimulation P c).step_some step ((mapEvent_eq_map (by simp)).mpr body)
    generalize (m.target.devices c).maps = target at hstep ⊢
    cases hstep with
    | body => exact Maps.unlocated_body _ i pins selectedPin
  have run' : Run (Step P) u₀ (before ++ m :: (mid ++ m' :: [])) u := run
  have hbetween : Run (Step P) m.target mid m'.source := run'.between
  have hkept : (m'.source.devices c).maps.Unlocated i :=
    maps_kept Maps.unlocated_step hbetween hnew quiet
  obtain ⟨-, step⟩ := run.move_of_mem (m := m') (by simp)
  exact Maps.updateUIView_of_unlocated hkept
    ((mapsSimulation P c).step_some step ((mapEvent_eq_map (by simp)).mpr updated))

/-- Alice is located, and `MapView` evaluates its `body` once more. -/
theorem alice_is_sent_away : ∃ before m mid m' u,
    Run (Step .plain) aliceSystem (before ++ m :: (mid ++ [m'])) u ∧ Located m.source ∧
    ∃ view, ((m'.source.devices 0).maps.nodes 0).uiView = some view ∧
      (m'.target.devices 0).maps.centred =
        (m'.source.devices 0).maps.centred ++ [(view, ⟨40, -82⟩)] ∧
      ((m'.target.devices 0).maps.views view).region = ⟨⟨40, -82⟩, ⟨0.02, 0.02⟩⟩ := by
  obtain ⟨past, u, run, located⟩ := exists_located
  have h1 := run.snoc (.device 0 located.running
    (.map located.fits (.body _ 0 addPins none)))
  have hview : (((u.devices 0).maps.body 0 addPins none).nodes 0).uiView = some 0 := by
    rw [Maps.body_nodes, located.node]
  have hbody : (((u.devices 0).maps.body 0 addPins none).nodes 0).map =
      some ⟨(u.devices 0).maps.initialized, addPins, none⟩ := by
    rw [Maps.body_nodes]
  have h2 := h1.snoc (.device 0 located.running (.map (e := .updateUIView 0) trivial
    (.updateUIView _ hbody hview rfl)))
  rw [List.append_assoc] at h2
  exact ⟨past, _, [], _, _, h2, located,
    sent_away_after_body h2 rfl (fun _ h => absurd h List.not_mem_nil) rfl⟩

end System

end Pindex
