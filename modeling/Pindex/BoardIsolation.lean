import Pindex.SystemTheorems

/-!
# The board on the screen

A board's handlers and completions run late: when another board is shown, when a post covers
the board, after Log Out, and each reads the global `currentBulletinBoard` or answers a query
that has read it. `BoardsApart` is the invariant that keeps the boards apart all the same, and
`System.displayed_on_board` says what it is for: the user sees only what has been posted to the
board whose name the screen shows, in the list and in a post that is open.
-/

namespace Pindex

open DocStore Transition

/-! ## One board -/

/-- The board that a handler is about. -/
def Handler.board : Handler → Option ℕ
  | .boardOnAppear v => some v
  | .boardOnDisappear v => some v
  | _ => none

/-- The entry shows one of the documents in `K`, and that is of the board `name`. -/
def Post.OfBoard (K : Document Value → Prop) (name : String) (p : Post) : Prop :=
  ∃ d, K d ∧ Shows p d ∧ d.get? "ID" = some (.string name)

/-- What the board lists, or still asks for, is of the board `name`. -/
structure Board.OnlyOf (K : Document Value → Prop) (name : String) (board : Board) : Prop where
  asks : ∀ q ∈ board.pending, q.board = name
  lists : ∀ p ∈ board.view.posts, p.OfBoard K name

theorem Post.OfBoard.mono {K K' : Document Value → Prop} {name : String} {p : Post}
    (h : p.OfBoard K name) (hK : ∀ d, K d → K' d) : p.OfBoard K' name := by
  obtain ⟨d, hd, hshows⟩ := h
  exact ⟨d, hK d hd, hshows⟩

namespace Board

variable {K K' : Document Value → Prop} {name : String} {board board' : Board} {be : BoardEvent}
  {collection : Collection Value} {out : Option (Fields Value)}

theorem onlyOf_empty : ({} : Board).OnlyOf K name :=
  ⟨fun _ hq => absurd hq List.not_mem_nil, fun _ hp => absurd hp List.not_mem_nil⟩

theorem OnlyOf.mono (h : board.OnlyOf K name) (hK : ∀ d, K d → K' d) : board.OnlyOf K' name :=
  ⟨h.asks, fun p hp => (h.lists p hp).mono hK⟩

/-- A step of a board keeps it to the name that it runs under. -/
theorem OnlyOf.step (h : board.OnlyOf K name)
    (step : Board.Step collection name board be board' out) (hdocs : ∀ d ∈ collection.docs, K d)
    (hout : ∀ fields, out = some fields → K ⟨collection.nextId, fields⟩) :
    board'.OnlyOf K name := by
  cases step with
  | onAppear =>
    rw [onAppear_eq]
    refine ⟨fun q hq => ?_, fun _ hp => absurd hp List.not_mem_nil⟩
    rcases List.mem_append.mp hq with hq | hq
    · exact h.asks q hq
    · obtain ⟨read, -, rfl⟩ := List.mem_map.mp hq
      rfl
  | onDisappear => exact ⟨h.asks, fun _ hp => absurd hp List.not_mem_nil⟩
  | createPost form =>
    refine ⟨h.asks, fun p hp => ?_⟩
    rcases List.mem_append.mp hp with hp | hp
    · exact h.lists p hp
    · obtain rfl := List.mem_singleton.mp hp
      exact ⟨_, hout _ rfl, ⟨rfl, rfl⟩, rfl⟩
  | @complete q r _ pending delivered completion =>
    -- what is appended matches the query, which asks for the board that it was issued for
    obtain ⟨new, rfl, hnew, -⟩ := PostRead.completion_appends completion
    refine ⟨fun q' hq' => h.asks q' (List.mem_of_mem_erase hq'), fun p hp => ?_⟩
    rcases List.mem_append.mp hp with hp | hp
    · exact h.lists p hp
    · obtain ⟨d, hd, hshows⟩ := (forall₂_shows hnew).2 p hp
      obtain ⟨hmem, -, -, hid, -⟩ := PostQuery.delivered_sound delivered hd
      exact ⟨d, hdocs d hmem, hshows, hid.trans (by rw [h.asks q pending])⟩

end Board

/-! ## One map -/

namespace Navigation

variable {s s' : Navigation} {e : NavigationEvent} {v : ℕ}

/-- Board `v` is over the map, with a post over it or without. -/
def ShowsBoard (s : Navigation) (v : ℕ) : Prop := s.top = .board v ∨ ∃ p, s.top = .post v p

/-- Boards that have not been pushed yet are as new, and no handler is about them. -/
structure Fresh (s : Navigation) : Prop where
  boards : ∀ v, s.pushed ≤ v → s.boards v = {}
  pending : ∀ h ∈ s.pending, ∀ v, h.board = some v → v < s.pushed
  shown : ∀ v, s.ShowsBoard v → v < s.pushed

theorem not_showsBoard (h : s.top = .map) : ¬ s.ShowsBoard v := by
  unfold ShowsBoard
  rw [h]
  simp

theorem fresh_initial : Fresh {} where
  boards _ _ := rfl
  pending h hh v hv := by
    obtain rfl := List.mem_singleton.mp hh
    cases hv
  shown v hv := absurd hv (not_showsBoard rfl)

/-- Handlers are left pending about no board but the one shown. -/
theorem Fresh.append (h : s.Fresh) (new : List Handler) (hboards : s'.boards = s.boards)
    (hpushed : s'.pushed = s.pushed) (htop : ∀ v, s'.ShowsBoard v → s.ShowsBoard v)
    (hpending : s'.pending = s.pending ++ new)
    (hnew : ∀ hd ∈ new, ∀ v, hd.board = some v → s.ShowsBoard v) : s'.Fresh where
  boards v hv := by
    rw [hboards]
    exact h.boards v (hpushed ▸ hv)
  pending hd hhd v hv := by
    rw [hpushed]
    rw [hpending] at hhd
    rcases List.mem_append.mp hhd with hhd | hhd
    · exact h.pending hd hhd v hv
    · exact h.shown v (hnew hd hhd v hv)
  shown v hv := hpushed ▸ h.shown v (htop v hv)

theorem Fresh.popBoard (h : s.Fresh) (shown : s.ShowsBoard v) (action : Option ℤ) :
    (s.popBoard v action).Fresh := by
  refine h.append _ rfl rfl (fun v' hv' => absurd hv' (not_showsBoard rfl)) rfl
    fun hd hhd v' hv' => ?_
  simp only [List.mem_cons, List.not_mem_nil, or_false] at hhd
  rcases hhd with rfl | rfl
  · obtain rfl := Option.some.inj hv'
    exact shown
  · cases hv'

/-- A rendering pushes the next board, or covers the map with nothing new. -/
theorem render_shown (h : s.render.ShowsBoard v) : v = s.pushed ∨ s.ShowsBoard v := by
  have hframe := updateUIView_frame s.showText
  have hpushed : s.showText.updateUIView.pushed = s.pushed := by
    unfold updateUIView
    split <;> rfl
  unfold render pushBoard at h
  split at h
  · rcases h with h | ⟨p, h⟩
    · have hv : Screen.board s.showText.updateUIView.pushed = .board v := h
      rw [hpushed] at hv
      exact .inl (Screen.board.inj hv).symm
    · cases h
  · unfold ShowsBoard at h ⊢
    rw [hframe.1] at h
    exact .inr h

theorem fresh_render (h : s.Fresh) : s.render.Fresh := by
  have hshown : s.showText.updateUIView.Fresh := by
    obtain ⟨htop, -, hboards, hpending⟩ := updateUIView_frame s.showText
    refine h.append _ hboards ?_ (fun v hv => ?_) hpending fun hd hhd v hv => ?_
    · unfold updateUIView
      split <;> rfl
    · unfold ShowsBoard at hv ⊢
      rw [htop] at hv
      exact hv
    · split at hhd
      · obtain rfl := List.mem_singleton.mp hhd
        cases hv
      · cases hhd
  -- the board that the link pushes counts as pushed, so its `onAppear` may be pending
  show (pushBoard s.showText.updateUIView).Fresh
  generalize s.showText.updateUIView = t at hshown
  unfold pushBoard
  split
  · refine ⟨fun v hv => hshown.boards v (Nat.le_of_succ_le hv), fun hd hhd v hv => ?_,
      fun v hv => ?_⟩
    · show v < t.pushed + 1
      rcases List.mem_append.mp hhd with hhd | hhd
      · exact Nat.lt_succ_of_lt (hshown.pending hd hhd v hv)
      · simp only [List.mem_cons, List.not_mem_nil, or_false] at hhd
        rcases hhd with rfl | rfl
        · cases hv
        · obtain rfl := Option.some.inj hv
          exact Nat.lt_succ_self _
    · show v < t.pushed + 1
      rcases hv with hv | ⟨p, hv⟩
      · obtain rfl := Screen.board.inj hv
        exact Nat.lt_succ_self _
      · cases hv
  · exact hshown

theorem Fresh.onScreen (h : s.Fresh) (step : Step s e s') (onScreen : e.onScreen = true) :
    s'.Fresh := by
  cases step with
  | tapPin pin shown =>
    obtain ⟨htop, -, hpending, -⟩ := tapPin_frame s pin
    refine h.append [] (tapPin_boards s pin).1 ?_ (fun v hv => ?_) ?_
      fun hd hhd => absurd hhd List.not_mem_nil
    · unfold tapPin
      split <;> rfl
    · unfold ShowsBoard at hv ⊢
      rw [htop] at hv
      exact hv
    · rw [hpending, List.append_nil]
  | tapMap =>
    refine h.append _ rfl rfl (fun v hv => hv) (List.append_nil _).symm
      fun hd hhd => absurd hhd List.not_mem_nil
  | render => exact fresh_render h
  | @openPost v p shown =>
    refine h.append _ rfl rfl (fun v' hv' => ?_) rfl fun hd hhd v' hv' => ?_
    · rcases hv' with hv' | ⟨p', hv'⟩
      · cases hv'
      · obtain ⟨rfl, -⟩ := Screen.post.inj hv'
        exact .inl shown
    · obtain rfl := List.mem_singleton.mp hhd
      obtain rfl := Option.some.inj hv'
      exact .inl shown
  | @closePost v p shown =>
    refine h.append _ rfl rfl (fun v' hv' => ?_) rfl fun hd hhd v' hv' => ?_
    · rcases hv' with hv' | ⟨p', hv'⟩
      · obtain rfl := Screen.board.inj hv'
        exact .inr ⟨p, shown⟩
      · cases hv'
    · obtain rfl := List.mem_singleton.mp hhd
      obtain rfl := Option.some.inj hv'
      exact .inr ⟨p, shown⟩
  | closeBoard shown => exact h.popBoard (.inl shown) _
  | closeLink shown => exact h.popBoard shown _
  | deliver => cases onScreen
  | complete => cases onScreen
  | createPost => cases onScreen

/-- A pending handler is delivered. -/
theorem Fresh.deliver (h : s.Fresh) {hd : Handler} (hmem : hd ∈ s.pending) (since : ℕ) :
    ({ s with pending := s.pending.erase hd }.handle since hd).Fresh := by
  have herase : ∀ hd' ∈ s.pending.erase hd, ∀ v, hd'.board = some v → v < s.pushed :=
    fun hd' hhd' => h.pending hd' (List.mem_of_mem_erase hhd')
  -- the handler is about a board that has been pushed, and leaves those to come as they are
  have hboards : ∀ v', hd.board = some v' → ∀ board v, s.pushed ≤ v →
      Function.update s.boards v' board v = {} := by
    intro v' hv' board v hv
    have hlt := h.pending hd hmem v' hv'
    have hne : v ≠ v' := by omega
    rw [Function.update_of_ne hne]
    exact h.boards v hv
  cases hd with
  | boardOnAppear v' => exact ⟨hboards v' rfl _, herase, h.shown⟩
  | boardOnDisappear v' => exact ⟨hboards v' rfl _, herase, h.shown⟩
  | textOnAppear => exact ⟨h.boards, herase, h.shown⟩
  | mapOnAppear => exact ⟨h.boards, herase, h.shown⟩
  | mapOnDisappear => exact ⟨h.boards, herase, h.shown⟩

/-- A board that has been pushed changes. -/
theorem Fresh.setBoard (h : s.Fresh) (hv : v < s.pushed) (board : Board) :
    { s with boards := Function.update s.boards v board }.Fresh := by
  refine ⟨fun v' hv' => ?_, h.pending, h.shown⟩
  have hne : v' ≠ v := by
    have hle : s.pushed ≤ v' := hv'
    omega
  show Function.update s.boards v board v' = {}
  rw [Function.update_of_ne hne]
  exact h.boards v' hv'

/-- The current board is the one of the selected pin. -/
def SelectsCurrent (s : Navigation) : Prop :=
  ∀ pin, s.mapView.selectedPin = some pin → s.currentBulletinBoard = pin.board

theorem SelectsCurrent.render (h : s.SelectsCurrent) :
    s.render.currentBulletinBoard = s.currentBulletinBoard := by
  rw [render_current]
  split
  · rename_i pin hpin
    exact (h pin hpin).symm
  · rfl

theorem SelectsCurrent.onScreen (h : s.SelectsCurrent) (step : Step s e s')
    (onScreen : e.onScreen = true) : s'.SelectsCurrent := by
  cases step with
  | tapPin pin =>
    intro pin' hpin'
    obtain ⟨-, -, -, -, hselected⟩ := tapPin_frame s pin
    obtain rfl : pin = pin' := Option.some.inj (hselected.symm.trans hpin')
    exact (tapPin_boards s pin).2
  | tapMap => exact fun pin hpin => by cases hpin
  | render =>
    intro pin hpin
    rw [render_mapView] at hpin
    rw [h.render]
    exact h pin hpin
  | deliver => cases onScreen
  | complete => cases onScreen
  | createPost => cases onScreen
  | _ => exact h

/-- A board that comes to the screen is a new one, and one that stays keeps its name. -/
theorem showsBoard_onScreen (h : s.SelectsCurrent) (step : Step s e s')
    (onScreen : e.onScreen = true) (hv : s'.ShowsBoard v) :
    v = s.pushed ∨ (s.ShowsBoard v ∧ s'.currentBulletinBoard = s.currentBulletinBoard) := by
  cases step with
  | tapPin pin shown => exact absurd hv (not_showsBoard ((tapPin_frame s pin).1.trans shown))
  | tapMap shown => exact absurd hv (not_showsBoard shown)
  | render =>
    rcases render_shown hv with hpushed | hshown
    · exact .inl hpushed
    · exact .inr ⟨hshown, h.render⟩
  | @openPost v' p shown =>
    rcases hv with hv | ⟨p', hv⟩
    · cases hv
    · obtain ⟨rfl, -⟩ := Screen.post.inj hv
      exact .inr ⟨.inl shown, rfl⟩
  | @closePost v' p shown =>
    rcases hv with hv | ⟨p', hv⟩
    · obtain rfl := Screen.board.inj hv
      exact .inr ⟨.inr ⟨p, shown⟩, rfl⟩
    · cases hv
  | closeBoard => exact absurd hv (not_showsBoard rfl)
  | closeLink => exact absurd hv (not_showsBoard rfl)
  | deliver => cases onScreen
  | complete => cases onScreen
  | createPost => cases onScreen

/-- A post that comes to the screen is one that its board lists. -/
theorem post_onScreen (step : Step s e s') (onScreen : e.onScreen = true) {p : Post}
    (hp : s'.top = .post v p) :
    s.top = .post v p ∨ (s.top = .board v ∧ p ∈ (s.boards v).view.posts) := by
  have hscreen : ∀ {t : Screen}, t = .post v p → t ≠ .map := fun ht hmap => by
    rw [hmap] at ht
    cases ht
  cases step with
  | tapPin pin shown => exact absurd ((tapPin_frame s pin).1.trans shown) (hscreen hp)
  | tapMap shown => exact absurd shown (hscreen hp)
  | closeBoard => cases hp
  | closeLink => cases hp
  | closePost => cases hp
  | render =>
    -- when a rendering changes what is on top, it is a board and no post
    left
    have hframe := updateUIView_frame s.showText
    unfold Navigation.render pushBoard at hp
    split at hp
    · cases hp
    · exact hframe.1.symm.trans hp
  | @openPost v' p' shown listed =>
    obtain ⟨rfl, rfl⟩ := Screen.post.inj hp
    exact .inr ⟨shown, listed⟩
  | deliver => cases onScreen
  | complete => cases onScreen
  | createPost => cases onScreen

/-- What is shown over the map, a board or a post, is of the current bulletin board. -/
structure OnlyOf (K : Document Value → Prop) (s : Navigation) : Prop where
  boards : ∀ v, s.ShowsBoard v → (s.boards v).OnlyOf K s.currentBulletinBoard
  post : ∀ v p, s.top = .post v p → p.OfBoard K s.currentBulletinBoard

variable {K K' : Document Value → Prop}

/-- The user sees the entry: the board that is shown lists it, or it is open over its board. -/
def Displays (s : Navigation) (p : Post) : Prop :=
  (∃ v, s.ShowsBoard v ∧ p ∈ (s.boards v).view.posts) ∨ ∃ v, s.top = .post v p

/-- What is displayed is of the current board. -/
theorem OnlyOf.displays {p : Post} (h : s.OnlyOf K) (hp : s.Displays p) :
    p.OfBoard K s.currentBulletinBoard := by
  rcases hp with ⟨v, hv, hlisted⟩ | ⟨v, hopen⟩
  · exact (h.boards v hv).lists p hlisted
  · exact h.post v p hopen

/-- Nothing is displayed on the bare map. -/
theorem onlyOf_of_map (h : s.top = .map) : s.OnlyOf K where
  boards v hv := absurd hv (not_showsBoard h)
  post v p hp := by
    rw [h] at hp
    cases hp

theorem OnlyOf.mono (h : s.OnlyOf K) (hK : ∀ x, K x → K' x) : s.OnlyOf K' where
  boards v hv := (h.boards v hv).mono hK
  post v p hp := (h.post v p hp).mono hK

theorem OnlyOf.onScreen (h : s.OnlyOf K) (fresh : s.Fresh) (selects : s.SelectsCurrent)
    (step : Step s e s') (onScreen : e.onScreen = true) : s'.OnlyOf K := by
  constructor
  · intro v hv
    rw [boards_of_onScreen step onScreen]
    -- a board that was pushed just now lists nothing and has asked for nothing
    rcases showsBoard_onScreen selects step onScreen hv with rfl | ⟨hshown, hcurrent⟩
    · rw [fresh.boards _ le_rfl]
      exact Board.onlyOf_empty
    · rw [hcurrent]
      exact h.boards v hshown
  · intro v p hp
    have hopened := post_onScreen step onScreen hp
    have hshown : s.ShowsBoard v := by
      rcases hopened with hopen | ⟨hboard, -⟩
      · exact .inr ⟨p, hopen⟩
      · exact .inl hboard
    -- the board under the post has been pushed before, so the name is kept
    have hold : v ≠ s.pushed := (fresh.shown v hshown).ne
    obtain ⟨-, hcurrent⟩ :=
      (showsBoard_onScreen selects step onScreen (.inr ⟨p, hp⟩)).resolve_left hold
    rw [hcurrent]
    rcases hopened with hopen | ⟨hboard, hlisted⟩
    · exact h.post v p hopen
    · exact (h.boards v (.inl hboard)).lists p hlisted

/-- One board steps, and the others stay as they are. -/
theorem OnlyOf.board {be : BoardEvent} {board : Board} {collection : Collection Value}
    {out : Option (Fields Value)} (h : s.OnlyOf K) (hK : ∀ x, K x → K' x)
    (step : Board.Step collection s.currentBulletinBoard (s.boards v) be board out)
    (hdocs : ∀ x ∈ collection.docs, K' x)
    (hout : ∀ fields, out = some fields → K' ⟨collection.nextId, fields⟩)
    (hboards : s'.boards = Function.update s.boards v board) (htop : s'.top = s.top)
    (hcurrent : s'.currentBulletinBoard = s.currentBulletinBoard) : s'.OnlyOf K' := by
  constructor
  · intro v' hv'
    unfold ShowsBoard at hv'
    rw [htop] at hv'
    have hold := (h.boards v' hv').mono hK
    rw [hboards, hcurrent]
    by_cases hv : v' = v
    · subst hv
      rw [Function.update_self]
      exact hold.step step hdocs hout
    · rw [Function.update_of_ne hv]
      exact hold
  · intro v' p hp
    rw [hcurrent]
    exact (h.post v' p (htop ▸ hp)).mono hK

end Navigation

/-! ## One device -/

/-- No screen above the shown one has opened a map. -/
theorem World.switchView_above_top {P : Platform} {w₀ w : World} (hi : w₀.Initial)
    (h : Reaches (World.Step P) w₀ w) (c : ℕ) :
    ∀ v, (w.session c).top < v → ((w.session c).views v).switchView = false := by
  obtain ⟨tr, run⟩ := h
  induction run with
  | nil =>
    unfold World.session
    rw [hi.clients c]
    exact fun v _ => rfl
  | @snoc w w' tr e run step ih =>
    intro v hv
    have hle := World.pending_view_le_top hi run.reaches c
    cases step.session_move c with
    | idle _ top views =>
      rw [views]
      exact ih v (top ▸ hv)
    -- a completion may open the screen of its attempt, which is not above the last one
    | stale q _ pending _ _ top views =>
      have hlt : (w.session c).top < v := top ▸ hv
      have hview := hle q pending
      rw [views, decide_eq_false (by omega), Bool.false_or]
      exact ih v hlt
    | finds q _ _ pending _ _ top views =>
      have hlt : (w.session c).top < v := top ▸ hv
      have hview := hle q pending
      rw [views, decide_eq_false (by omega), Bool.false_or]
      exact ih v hlt
    | logOut _ _ target =>
      rw [target] at hv ⊢
      have hlt : (w.session c).top + 1 < v := hv
      show (Function.update (Function.update (w.session c).views (w.session c).top _)
        ((w.session c).top + 1) {} v).switchView = false
      rw [Function.update_of_ne (by omega), Function.update_of_ne (by omega)]
      exact ih v (by omega)

namespace Device

variable {P : Platform} {store : Store} {K K' : Document Value → Prop} {d d' : Device}
  {e : DeviceEvent} {i v : ℕ} {n : Navigation} {out : Option (CollectionName × Fields Value)}

/-- What every device keeps: a map that has not been opened is as new, and the board over the
map that the user is on is of the current bulletin board. -/
structure BoardsApart (K : Document Value → Prop) (d : Device) : Prop where
  unopened : ∀ i, (d.session.views i).switchView = false → d.navigations i = {}
  fresh : ∀ i, (d.navigations i).Fresh
  selects : ∀ i, d.Shows i → (d.navigation i).SelectsCurrent
  onlyOf : ∀ i, d.Shows i → (d.navigation i).OnlyOf K

theorem boardsApart_initial : BoardsApart K {} where
  unopened _ _ := rfl
  fresh _ := Navigation.fresh_initial
  selects _ h := by cases h.2
  onlyOf _ h := by cases h.2

theorem BoardsApart.mono (h : d.BoardsApart K) (hK : ∀ x, K x → K' x) : d.BoardsApart K' where
  unopened := h.unopened
  fresh := h.fresh
  selects := h.selects
  onlyOf i shows := (h.onlyOf i shows).mono hK

theorem BoardsApart.fresh_navigation (h : d.BoardsApart K) (i : ℕ) : (d.navigation i).Fresh :=
  ⟨(h.fresh i).boards, (h.fresh i).pending, (h.fresh i).shown⟩

/-- Only the shown map may change the current bulletin board. -/
theorem BoardsApart.setNavigation (h : d.BoardsApart K) (hK : ∀ x, K x → K' x)
    (opened : (d.session.views i).switchView = true) (fresh : n.Fresh)
    (current : d.Shows i ∨ n.currentBulletinBoard = d.currentBulletinBoard)
    (selects : d.Shows i → n.SelectsCurrent)
    (onlyOf : d.Shows i → n.OnlyOf K') : (d.setNavigation i n).BoardsApart K' := by
  -- when another map is the shown one, map `i` leaves the global alone
  have hother : ∀ {j}, d.Shows j → j ≠ i → n.currentBulletinBoard = d.currentBulletinBoard := by
    intro j hshows hj
    rcases current with hi | hcurrent
    · exact absurd (hshows.1.trans hi.1.symm) hj
    · exact hcurrent
  refine ⟨fun j hclosed => ?_, fun j => ?_, fun j shows => ?_, fun j shows => ?_⟩
  · have hj : j ≠ i := by
      rintro rfl
      rw [show (d.session.views j).switchView = false from hclosed] at opened
      cases opened
    show Function.update d.navigations i n j = {}
    rw [Function.update_of_ne hj]
    exact h.unopened j hclosed
  · show (Function.update d.navigations i n j).Fresh
    by_cases hj : j = i
    · rw [hj, Function.update_self]
      exact fresh
    · rw [Function.update_of_ne hj]
      exact h.fresh j
  · have shows' : d.Shows j := shows
    show ({ Function.update d.navigations i n j with
      currentBulletinBoard := n.currentBulletinBoard } : Navigation).SelectsCurrent
    by_cases hj : j = i
    · subst hj
      rw [Function.update_self]
      exact selects shows'
    · rw [Function.update_of_ne hj, hother shows' hj]
      exact h.selects j shows'
  · have shows' : d.Shows j := shows
    show ({ Function.update d.navigations i n j with
      currentBulletinBoard := n.currentBulletinBoard } : Navigation).OnlyOf K'
    by_cases hj : j = i
    · subst hj
      rw [Function.update_self]
      exact onlyOf shows'
    · rw [Function.update_of_ne hj, hother shows' hj]
      exact (h.onlyOf j shows').mono hK

/-- The board of the shown map steps, or a board that is not on the screen. -/
theorem BoardsApart.setBoard {be : BoardEvent} {board : Board} {fields : Option (Fields Value)}
    (h : d.BoardsApart K) (hK : ∀ x, K x → K' x)
    (opened : (d.session.views i).switchView = true) (hv : v < (d.navigations i).pushed)
    (step : Board.Step (store .post) d.currentBulletinBoard ((d.navigations i).boards v) be board
      fields)
    (hdocs : ∀ x ∈ (store .post).docs, K' x)
    (hout : ∀ fs, fields = some fs → K' ⟨(store .post).nextId, fs⟩) :
    (d.setBoard i v board).BoardsApart K' := by
  apply h.setNavigation hK opened ((h.fresh_navigation i).setBoard hv board) (.inr rfl)
    (h.selects i)
  intro shows
  exact (h.onlyOf i shows).board hK step hdocs hout rfl rfl rfl

theorem BoardsApart.deliver {hd : Handler} (h : d.BoardsApart K) (hK : ∀ x, K x → K' x)
    (opened : (d.session.views i).switchView = true) (pending : hd ∈ (d.navigations i).pending)
    (hdocs : ∀ x ∈ (store .post).docs, K' x) :
    (d.deliver (store .post).docs.length i hd).BoardsApart K' := by
  have hkept : (d.setNavigation i ({ d.navigation i with
      pending := (d.navigation i).pending.erase hd }.handle (store .post).docs.length
        hd)).BoardsApart K' := by
    have hcurrent : ({ d.navigation i with
        pending := (d.navigation i).pending.erase hd }.handle (store .post).docs.length
          hd).currentBulletinBoard = d.currentBulletinBoard := by
      cases hd <;> rfl
    apply h.setNavigation hK opened ((h.fresh_navigation i).deliver pending _) (.inr hcurrent)
    · intro shows
      have hselects := h.selects i shows
      cases hd with
      | mapOnDisappear => exact fun pin hpin => by cases hpin
      | _ => exact hselects
    · intro shows
      have hold := h.onlyOf i shows
      have hnothing : ∀ fields, (none : Option (Fields Value)) = some fields →
          K' ⟨(store .post).nextId, fields⟩ := fun _ hout => by cases hout
      cases hd with
      | boardOnAppear v => exact hold.board hK (.onAppear _) hdocs hnothing rfl rfl rfl
      | boardOnDisappear v => exact hold.board hK (.onDisappear _) hdocs hnothing rfl rfl rfl
      | textOnAppear => exact ⟨(hold.mono hK).boards, (hold.mono hK).post⟩
      | mapOnAppear => exact ⟨(hold.mono hK).boards, (hold.mono hK).post⟩
      | mapOnDisappear => exact ⟨(hold.mono hK).boards, (hold.mono hK).post⟩
  cases hd with
  | boardOnDisappear v => exact ⟨hkept.unopened, hkept.fresh, hkept.selects, hkept.onlyOf⟩
  | _ => exact hkept

/-- A session event leaves what has been opened open, and the map that it may open is new. -/
theorem BoardsApart.session {se : SessionEvent} {session : Session} (h : d.BoardsApart K)
    (stays : se ≠ .logOut) (step : Session.Step P (store .user) d.session se session) :
    (d.setSession session).BoardsApart K := by
  have hframe : session.top = d.session.top ∧
      ∀ j, (session.views j).switchView = false → (d.session.views j).switchView = false := by
    cases step with
    | editUsername text =>
      refine ⟨rfl, fun j hj => ?_⟩
      rw [← hj]
      symm
      apply World.switchView_update
      rfl
    | editPassword text =>
      refine ⟨rfl, fun j hj => ?_⟩
      rw [← hj]
      symm
      apply World.switchView_update
      rfl
    | login => exact ⟨rfl, fun _ hj => hj⟩
    | @complete q r account view pending delivered completion =>
      refine ⟨rfl, fun j hj => ?_⟩
      change (Function.update d.session.views q.view view j).switchView = false at hj
      by_cases hview : j = q.view
      · subst hview
        rw [Function.update_self] at hj
        rcases LoginView.completion_cases completion with ⟨-, -, rfl⟩ | ⟨-, _, -, -, -, rfl⟩
        · exact hj
        · split at hj
          · cases hj
          · exact hj
      · rwa [Function.update_of_ne hview] at hj
    | logOut => exact absurd rfl stays
  obtain ⟨htop, hopened⟩ := hframe
  -- a map that is on the screen now and was not before has been opened just now
  have hnew : ∀ {j}, (d.setSession session).Shows j →
      d.Shows j ∨ d.navigations j = {} := by
    intro j shows
    obtain ⟨hj, hopen⟩ := shows
    have hj' : j = d.session.top := hj.trans htop
    cases hbefore : (d.session.views j).switchView with
    | false => exact .inr (h.unopened j hbefore)
    | true =>
      rw [hj'] at hbefore
      exact .inl ⟨hj', hbefore⟩
  refine ⟨fun j hj => h.unopened j (hopened j hj), h.fresh, fun j shows => ?_,
    fun j shows => ?_⟩
  · rcases hnew shows with hshows | hempty
    · exact h.selects j hshows
    · intro pin hpin
      change (d.navigations j).mapView.selectedPin = some pin at hpin
      rw [hempty] at hpin
      cases hpin
  · rcases hnew shows with hshows | hempty
    · exact h.onlyOf j hshows
    · apply Navigation.onlyOf_of_map
      show (d.navigations j).top = .map
      rw [hempty]

/-- Log Out shows a login screen whose map has not been opened. -/
theorem BoardsApart.logOut (h : d.BoardsApart K) (shown : d.session.mapOpen = true)
    (above : ∀ j, d.session.top < j → (d.session.views j).switchView = false) :
    d.logOut.BoardsApart K := by
  have hclosed : d.session.logOut.mapOpen = false := by
    simp [Session.logOut, Session.mapOpen]
  have hshows : ∀ j, ¬ d.logOut.Shows j := by
    intro j hj
    rw [show d.session.logOut.mapOpen = true from hj.2] at hclosed
    cases hclosed
  refine ⟨fun j hj => ?_, fun j => ?_, fun j hj => absurd hj (hshows j),
    fun j hj => absurd hj (hshows j)⟩
  · have hj' : (d.session.logOut.views j).switchView = false := hj
    have hne : j ≠ d.session.top := by
      rintro rfl
      have hopen : (d.session.views d.session.top).switchView = true := shown
      simp [Session.logOut, hopen] at hj'
    show Function.update d.navigations d.session.top _ j = {}
    rw [Function.update_of_ne hne]
    -- the new login screen, and every other one that has not been left
    by_cases htop : j = d.session.top + 1
    · exact h.unopened j (above j (by omega))
    · simp only [Session.logOut, Function.update_of_ne htop, Function.update_of_ne hne] at hj'
      exact h.unopened j hj'
  · show (Function.update d.navigations d.session.top _ j).Fresh
    by_cases hj : j = d.session.top
    · rw [hj, Function.update_self]
      have hfresh := h.fresh d.session.top
      refine hfresh.append [.mapOnDisappear] rfl rfl (fun v hv => hv) rfl fun hd hhd v hv => ?_
      obtain rfl := List.mem_singleton.mp hhd
      cases hv
    · rw [Function.update_of_ne hj]
      exact h.fresh j

/-- What one step of a device keeps. -/
theorem BoardsApart.step (h : d.BoardsApart K) (step : Device.Step P store d e d' out)
    (above : ∀ j, d.session.top < j → (d.session.views j).switchView = false)
    (hK : ∀ x, K x → K' x) (hdocs : ∀ x ∈ (store .post).docs, K' x)
    (hout : ∀ fields, out = some (.post, fields) → K' ⟨(store .post).nextId, fields⟩) :
    d'.BoardsApart K' := by
  -- a board that something happens to has been pushed, over a map that has been opened
  have hboard : ∀ {i v : ℕ} {q : PostQuery}, q ∈ ((d.navigations i).boards v).pending →
      (d.session.views i).switchView = true ∧ v < (d.navigations i).pushed := by
    intro i v q hq
    constructor
    · by_contra hclosed
      rw [h.unopened i (Bool.eq_false_of_not_eq_true hclosed)] at hq
      cases hq
    · by_contra hv
      rw [(h.fresh i).boards v (Nat.le_of_not_lt hv)] at hq
      cases hq
  have hsent : ∀ {fields : Option (Fields Value)}, out = fields.map (Prod.mk .post) →
      ∀ fs, fields = some fs → K' ⟨(store .post).nextId, fs⟩ := by
    rintro fields hfields fs rfl
    exact hout fs hfields
  cases step with
  | session stays step => exact (h.session stays step).mono hK
  | logOut shown => exact (h.logOut shown above).mono hK
  | form => exact ⟨h.unopened, h.fresh, h.selects, (h.mono hK).onlyOf⟩
  | map => exact ⟨h.unopened, h.fresh, h.selects, (h.mono hK).onlyOf⟩
  | makeMapView => exact ⟨h.unopened, h.fresh, h.selects, (h.mono hK).onlyOf⟩
  | locate => exact ⟨h.unopened, h.fresh, h.selects, (h.mono hK).onlyOf⟩
  | trap => exact ⟨h.unopened, h.fresh, h.selects, (h.mono hK).onlyOf⟩
  | @navigation i ne n onScreen shown step =>
    have hopened : (d.session.views i).switchView = true := by
      rw [shown.1]
      exact shown.2
    have hselects := h.selects i shown
    apply h.setNavigation hK hopened ((h.fresh_navigation i).onScreen step onScreen) (.inl shown)
    · exact fun _ => hselects.onScreen step onScreen
    · intro _
      exact ((h.onlyOf i shown).onScreen (h.fresh_navigation i) hselects step onScreen).mono hK
  | deliver i hd opened pending => exact h.deliver hK opened pending hdocs
  | complete i v step =>
    cases step with
    | complete pending delivered completion =>
      obtain ⟨hopened, hv⟩ := hboard pending
      exact h.setBoard hK hopened hv (.complete pending delivered completion) hdocs (hsent rfl)
  | @createPost i v form board fields shown covers step =>
    have hopened : (d.session.views i).switchView = true := by
      rw [shown.1]
      exact shown.2
    exact h.setBoard hK hopened ((h.fresh i).shown v (.inl covers)) step hdocs (hsent rfl)

end Device

/-! ## The system -/

namespace System

variable {P : Platform} {u₀ u : System} {c : ℕ} {tr : List (Move System SystemEvent)}
  {m : Move System SystemEvent}

/-- The documents of posts that there have been so far, in flight or stored. -/
def Known (tr : List (Move System SystemEvent)) (d : Document Value) : Prop :=
  ∃ m ∈ tr, d ∈ (m.target.store .post).sent

theorem known_snoc {d : Document Value} (h : Known tr d) : Known (tr ++ [m]) d := by
  obtain ⟨m', hm', hd⟩ := h
  exact ⟨m', List.mem_append_left _ hm', hd⟩

/-- What a run keeps on each device. -/
theorem boardsApart_of_run (hi : u₀.Initial) (run : Run (Step P) u₀ tr u) (c : ℕ) :
    (u.devices c).BoardsApart (Known tr) := by
  induction run with
  | nil =>
    rw [hi.devices c]
    exact Device.boardsApart_initial
  | @snoc u u' tr e run step ih =>
    have hreaches : Reaches (World.Step P) u₀.world u.world := (simulation P).reaches run.reaches
    have hknown : ∀ x ∈ (u'.store .post).sent, Known (tr ++ [⟨u, e, u'⟩]) x :=
      fun x hx => ⟨⟨u, e, u'⟩, by simp, hx⟩
    cases step with
    | commit => exact ih.mono fun x => known_snoc
    | reject => exact ih.mono fun x => known_snoc
    | @device c' de d out running step =>
      show (Function.update u.devices c' d c).BoardsApart _
      by_cases hc : c = c'
      · subst hc
        rw [Function.update_self]
        refine ih.step step (World.switchView_above_top (initial_world hi) hreaches c)
          (fun x => known_snoc) (fun x hx => hknown x ?_) fun fields hout => hknown _ ?_
        · show x ∈ ((u.store.send out) .post).sent
          apply Collection.mem_sent_of_mem_docs
          rw [Store.docs_send]
          exact hx
        · rw [hout]
          exact Store.mem_sent_send u.store .post fields
      · rw [Function.update_of_ne hc]
        exact ih.mono fun x => known_snoc

/-- A document that there has been was there at the start, or Create Post has sent it. -/
theorem known_posted (hi : u₀.Initial) (run : Run (Step P) u₀ tr u) {d : Document Value}
    (h : Known tr d) : d ∈ (u₀.store .post).docs ∨
      ∃ past m c form, past ++ [m] <+: tr ∧ Posts c form d m := by
  obtain ⟨m, hm, hd⟩ := h
  obtain ⟨past, hpast, hrun⟩ := run.exists_past hm
  have hrun' : Run (Step P) u₀ (past ++ [m]) m.target := hrun.snoc (run.of_past hpast).2
  refine (sent_posted hi hrun' hd).imp_right ?_
  rintro ⟨past', m', c, form, hpast', hposts⟩
  exact ⟨past', m', c, form, hpast'.trans hpast, hposts⟩

/-- Whatever arrives late, the user sees only what has been posted to the board whose name the
screen shows, on whatever device, or was stored for that board at the start. -/
theorem displayed_on_board (hi : u₀.Initial) (run : Run (Step P) u₀ tr u) {i : ℕ}
    (shown : (u.devices c).Shows i) {p : Post} (hp : ((u.devices c).navigation i).Displays p) :
    ∃ d, Shows p d ∧ d.get? "ID" = some (.string (u.devices c).currentBulletinBoard) ∧
      (d ∈ (u₀.store .post).docs ∨ ∃ past m c' form, past ++ [m] <+: tr ∧ Posts c' form d m ∧
        p.title = form.eventName ∧ p.content = form.eventContent ∧
        (m.source.devices c').currentBulletinBoard = (u.devices c).currentBulletinBoard) := by
  obtain ⟨d, hknown, hshows, hid⟩ := ((boardsApart_of_run hi run c).onlyOf i shown).displays hp
  refine ⟨d, hshows, hid, (known_posted hi run hknown).imp_right ?_⟩
  rintro ⟨past, m, c', form, hpast, hposts⟩
  refine ⟨past, m, c', form, hpast, hposts, ?_, ?_, ?_⟩
  · have htitle := hshows.title
    rw [hposts.document] at htitle
    exact (Value.string.inj (Option.some.inj htitle)).symm
  · have hcontent := hshows.content
    rw [hposts.document] at hcontent
    exact (Value.string.inj (Option.some.inj hcontent)).symm
  · rw [hposts.document] at hid
    exact Value.string.inj (Option.some.inj hid)

theorem alice_sees_her_post : ∃ tr u, Run (Step .plain) aliceSystem tr u ∧
    ∃ d, Shows ⟨"Hello", "", 0⟩ d ∧ d.get? "ID" = some (.string "akul") ∧
      (d ∈ (aliceSystem.store .post).docs ∨ ∃ past m c form, past ++ [m] <+: tr ∧
        Posts c form d m ∧ "Hello" = form.eventName ∧ "" = form.eventContent ∧
        (m.source.devices c).currentBulletinBoard = "akul") := by
  obtain ⟨past, u, u', run, step, visits, -⟩ := exists_posting
  have hlisted : ⟨"Hello", "", 0⟩ ∈ (((u'.devices 0).navigations 0).boards 0).view.posts := by
    rw [visits.posts]
    exact List.mem_singleton_self _
  have hsees := displayed_on_board initial_aliceSystem (run.snoc step) visits.shown
    (.inl ⟨0, .inl visits.top, hlisted⟩)
  rw [visits.current] at hsees
  exact ⟨_, u', run.snoc step, hsees⟩

end System

end Pindex
