import Pindex.MapView

/-!
# The screens over the map

Two laws about every run of pin taps, board and post openings and returns, whatever the
order in which the pending handlers are delivered:

* an open post keeps the link below it: `action` stays 1 and the post stays in `posts`
  (`link_intact_iff`);
* the map is never left with a selected pin that opens nothing (`never_stuck`).

Both depend on when the handlers that set `action` back to 0 are delivered, and both
theorems name the deliveries that matter.
-/

namespace Pindex

open DocStore Transition

/-! ## What renderings and handlers change -/

/-- Between two clearings `posts` only grows. -/
theorem Board.Step.mem_posts {collection : Collection Value} {currentBulletinBoard : String}
    {board board' : Board} {be : BoardEvent} {out : Option (Fields Value)} {p : Post}
    (h : Board.Step collection currentBulletinBoard board be board' out)
    (hp : p ∈ board.view.posts) (happear : be ≠ .onAppear) (hdisappear : be ≠ .onDisappear) :
    p ∈ board'.view.posts := by
  cases h with
  | onAppear => exact absurd rfl happear
  | onDisappear => exact absurd rfl hdisappear
  | createPost => exact List.mem_append_left _ hp
  | complete _ _ completion =>
    obtain ⟨new, rfl, -⟩ := PostRead.completion_appends completion
    exact List.mem_append_left _ hp

namespace Navigation

variable {s s' s₀ : Navigation} {e : NavigationEvent} {tr : List (Move Navigation NavigationEvent)}

/-- `updateUIView` selects again what is selected. -/
theorem updateUIView_mapView (s : Navigation) : s.updateUIView.mapView = s.mapView := by
  unfold updateUIView
  split
  · rename_i pin hpin
    show { s.mapView with selectedPin := some pin } = s.mapView
    rw [← hpin]
  · rfl

theorem updateUIView_frame (s : Navigation) : s.updateUIView.top = s.top ∧
    s.updateUIView.textShown = s.textShown ∧ s.updateUIView.boards = s.boards ∧
    s.updateUIView.pending = s.pending := by
  unfold updateUIView
  split <;> exact ⟨rfl, rfl, rfl, rfl⟩

@[simp] theorem render_mapView (s : Navigation) : s.render.mapView = s.mapView := by
  unfold render pushBoard
  split <;> exact updateUIView_mapView _

@[simp] theorem render_boards (s : Navigation) : s.render.boards = s.boards := by
  unfold render pushBoard
  split <;> exact (updateUIView_frame _).2.2.1

/-- A rendering shows the hidden `Text` if a pin is selected, and then pushes a board if the
map is on top and `action` is 1. -/
theorem render_cases (s : Navigation) :
    (s.top = .map ∧ (∃ v, s.render.top = .board v) ∧ .mapOnDisappear ∈ s.render.pending) ∨
    ((s.top = .map → s.mapView.action ≠ some 1) ∧ s.render.top = s.top ∧
      s.render.pending = s.showText.pending) := by
  obtain ⟨htop, -, -, hpending⟩ := updateUIView_frame s.showText
  have hview : s.showText.updateUIView.mapView = s.mapView := updateUIView_mapView _
  unfold render pushBoard
  split
  · rename_i h
    exact .inl ⟨htop.symm.trans h.1, ⟨_, rfl⟩, by simp⟩
  · rename_i h
    refine .inr ⟨fun hmap haction => h ⟨htop.trans hmap, ?_⟩, htop, hpending⟩
    rw [hview, haction]

/-- The hidden `Text`'s handler is pending after the rendering that shows it. -/
theorem mem_showText_pending {h : Handler} : h ∈ s.showText.pending ↔
    h ∈ s.pending ∨ (h = .textOnAppear ∧ s.mapView.selectedPin.isSome = true ∧
      s.textShown = false) := by
  show h ∈ s.pending ++ _ ↔ _
  rw [List.mem_append]
  split
  · rename_i hc
    simp only [Bool.and_eq_true, Bool.not_eq_true'] at hc
    simp [hc]
  · rename_i hc
    simp only [Bool.and_eq_true, Bool.not_eq_true'] at hc
    simp [hc]

/-! ## An open post and the link below it -/

/-- While a post is on top, the link's selection is 1 and the post is in its board's
`posts`. -/
def LinkIntact (s : Navigation) : Prop :=
  ∀ v p, s.top = .post v p → s.mapView.action = some 1 ∧ p ∈ (s.boards v).view.posts

/-- While a post is on top, no handler is delivered that sets `action` to 0 or clears the
board's `posts`; and a post is opened only while `action` is 1. -/
structure KeepsLink (m : Move Navigation NavigationEvent) : Prop where
  deliver : ∀ v p h, m.source.top = .post v p → m.event = .deliver h →
    h.resetsAction = false ∧ h ≠ .boardOnAppear v
  openPost : ∀ p, m.event = .openPost p → m.source.mapView.action = some 1

theorem linkIntact_of_top (h : ∀ v p, s.top ≠ .post v p) : LinkIntact s := by
  intro v p htop
  exact absurd htop (h v p)

/-- Handlers do not move between the screens. -/
theorem handle_top (since : ℕ) (s : Navigation) (h : Handler) :
    (s.handle since h).top = s.top := by
  cases h <;> rfl

theorem handle_resetsAction {since : ℕ} {h : Handler} (hr : h.resetsAction = true) :
    (s.handle since h).mapView = { s.mapView with action := some 0 } := by
  cases h with
  | mapOnAppear => rfl
  | boardOnDisappear v => rfl
  | textOnAppear => cases hr
  | mapOnDisappear => cases hr
  | boardOnAppear v => cases hr

/-- What is left of `action` and of a board's `posts` after a handler. -/
theorem handle_intact {since : ℕ} {h : Handler} {v : ℕ} {p : Post}
    (haction : s.mapView.action = some 1) (hp : p ∈ (s.boards v).view.posts) :
    ((s.handle since h).mapView.action = some 1 ∧ p ∈ ((s.handle since h).boards v).view.posts) ↔
      h.resetsAction = false ∧ h ≠ .boardOnAppear v := by
  by_cases hr : h.resetsAction = true
  · refine iff_of_false (fun hintact => ?_) (by simp [hr])
    have hzero : some (0 : ℤ) = some 1 := by
      rw [← hintact.1, handle_resetsAction hr]
    simp at hzero
  · cases h with
    | mapOnAppear => exact absurd rfl hr
    | boardOnDisappear v' => exact absurd rfl hr
    | textOnAppear => exact iff_of_true ⟨rfl, hp⟩ ⟨rfl, by simp⟩
    | mapOnDisappear => exact iff_of_true ⟨haction, hp⟩ ⟨rfl, by simp⟩
    | boardOnAppear v' =>
      by_cases hv : v = v'
      · subst hv
        refine iff_of_false (fun hintact => ?_) (by simp)
        have hempty : p ∈ (Function.update s.boards v
          ((s.boards v).onAppear s.currentBulletinBoard since) v).view.posts := hintact.2
        rw [Function.update_self, Board.onAppear_eq] at hempty
        cases hempty
      · refine iff_of_true ⟨haction, ?_⟩ ⟨rfl, by simpa using Ne.symm hv⟩
        show p ∈ (Function.update s.boards v' _ v).view.posts
        rw [Function.update_of_ne hv]
        exact hp

theorem keepsLink_of_ne (hdeliver : ∀ h, e ≠ .deliver h) (hopen : ∀ p, e ≠ .openPost p) :
    KeepsLink ⟨s, e, s'⟩ :=
  ⟨fun _ _ h _ he => absurd he (hdeliver h), fun p he => absurd he (hopen p)⟩

theorem linkIntact_deliver (h : LinkIntact s) (since : ℕ) (hd : Handler) :
    LinkIntact ({ s with pending := s.pending.erase hd }.handle since hd) ↔
      KeepsLink ⟨s, .deliver hd, s'⟩ := by
  let t : Navigation := { s with pending := s.pending.erase hd }
  have hsame : (t.handle since hd).top = s.top := handle_top _ t hd
  constructor
  · intro hs'
    refine ⟨fun v p h' htop he => ?_, fun p he => (by cases he)⟩
    obtain rfl : hd = h' := by simpa using he
    obtain ⟨haction, hp⟩ := h v p htop
    exact (handle_intact (s := t) haction hp).mp (hs' v p (hsame.trans htop))
  · intro hk v p htop
    have htop' : s.top = .post v p := hsame.symm.trans htop
    obtain ⟨haction, hp⟩ := h v p htop'
    exact (handle_intact (s := t) haction hp).mpr (hk.deliver v p hd htop' rfl)

/-- A step keeps the link intact exactly when it meets the condition. -/
theorem linkIntact_step (h : LinkIntact s) (step : Step s e s') :
    LinkIntact s' ↔ KeepsLink ⟨s, e, s'⟩ := by
  cases step with
  | tapPin pin shown =>
    have htop : (s.tapPin pin).top = .map := by
      unfold tapPin
      split <;> exact shown
    refine iff_of_true (linkIntact_of_top ?_) (keepsLink_of_ne (by simp) (by simp))
    simp [htop]
  | tapMap shown =>
    have htop : s.deselect.top = .map := shown
    refine iff_of_true (linkIntact_of_top ?_) (keepsLink_of_ne (by simp) (by simp))
    simp [htop]
  | render =>
    refine iff_of_true ?_ (keepsLink_of_ne (by simp) (by simp))
    intro v p htop
    show s.render.mapView.action = _ ∧ p ∈ (s.render.boards v).view.posts
    rw [render_mapView, render_boards]
    rcases render_cases s with ⟨-, ⟨v', hboard⟩, -⟩ | ⟨-, hsame, -⟩
    · cases hboard.symm.trans htop
    · exact h v p (hsame.symm.trans htop)
  | deliver hd collection pending => exact linkIntact_deliver h _ hd
  | openPost p shown listed =>
    constructor
    · intro hs'
      refine ⟨fun v' p' h' htop he => (by cases he), fun p' he => ?_⟩
      exact (hs' _ p rfl).1
    · intro hk v' p' htop
      obtain ⟨rfl, rfl⟩ : _ = v' ∧ p = p' := by simpa using htop
      exact ⟨hk.openPost p rfl, listed⟩
  | closePost shown =>
    exact iff_of_true (linkIntact_of_top (by simp)) (keepsLink_of_ne (by simp) (by simp))
  | closeBoard shown =>
    refine iff_of_true (linkIntact_of_top ?_) (keepsLink_of_ne (by simp) (by simp))
    simp [popBoard]
  | closeLink shown =>
    refine iff_of_true (linkIntact_of_top ?_) (keepsLink_of_ne (by simp) (by simp))
    simp [popBoard]
  | @complete v' q r board out collection step =>
    refine iff_of_true ?_ (keepsLink_of_ne (by simp) (by simp))
    intro v p htop
    obtain ⟨haction, hp⟩ := h v p htop
    refine ⟨haction, ?_⟩
    show p ∈ (Function.update s.boards v' board v).view.posts
    by_cases hv : v = v'
    · subst hv
      rw [Function.update_self]
      exact step.mem_posts hp (by simp) (by simp)
    · rw [Function.update_of_ne hv]
      exact hp
  | createPost collection shown step =>
    refine iff_of_true (linkIntact_of_top ?_) (keepsLink_of_ne (by simp) (by simp))
    simp [shown]

/-- In a run, every post that is open keeps the link below it, exactly when every step meets
the condition. -/
theorem link_intact_iff (run : Run Step {} tr s) :
    (∀ m ∈ tr, LinkIntact m.target) ↔ ∀ m ∈ tr, KeepsLink m :=
  run.forall_target_iff (linkIntact_of_top (by simp)) fun _ _ h step => linkIntact_step h step

/-- No condition is put on the steps that find no post on top and open none. -/
theorem keepsLink_of_top (htop : ∀ v p, s.top ≠ .post v p)
    (hopen : ∀ p, e = .openPost p → s.mapView.action = some 1) : KeepsLink ⟨s, e, s'⟩ :=
  ⟨fun v p _ hp => absurd hp (htop v p), hopen⟩

def akul : MapPin := ⟨"AKUL", "akul"⟩

def library : MapPin := ⟨"18th avenue library", "18th avenue library"⟩

def sale : Post := ⟨"Sale", "", 0⟩

/-- A pin is tapped, its board opens, a post is created there and opened. -/
theorem opens_post : ∃ tr s, Run Step {} tr s ∧ s.top = .post 0 sale ∧
    .boardOnDisappear 0 ∈ s.pending ∧ ∀ m ∈ tr, KeepsLink m := by
  have h1 := (Run.nil ({} : Navigation)).snoc (Step.deliver _ .mapOnAppear .empty (by decide))
  have h2 := h1.snoc (.tapPin _ akul rfl (by decide) (by decide))
  have h3 := (h2.snoc (.render _)).snoc (.deliver _ .textOnAppear .empty (by decide))
  have h4 := (h3.snoc (.render _)).snoc (.deliver _ .mapOnDisappear .empty (by decide))
  have h5 := h4.snoc (.deliver _ (.boardOnAppear 0) .empty (by decide))
  have h6 := h5.snoc (.createPost _ .empty (v := 0) rfl (.createPost _ { eventName := "Sale" }))
  refine ⟨_, _, h6.snoc (.openPost _ sale (v := 0) rfl (by decide)), rfl, by decide, ?_⟩
  simp only [List.forall_mem_append, List.forall_mem_singleton, List.not_mem_nil, false_implies,
    implies_true, true_and]
  and_intros
  all_goals
    apply keepsLink_of_top
    · intro v p hp
      cases hp
    · intro p hp
      first | rfl | cases hp

theorem opened_post_keeps_link : ∃ tr s, Run Step {} tr s ∧ s.top = .post 0 sale ∧
    ∀ m ∈ tr, LinkIntact m.target := by
  obtain ⟨tr, s, run, htop, -, h⟩ := opens_post
  exact ⟨tr, s, run, htop, (link_intact_iff run).mpr h⟩

/-- The board's `onDisappear` is delivered, as the post covers the board. -/
theorem covered_board_breaks_link : ∃ tr s, Run Step {} tr s ∧ s.top = .post 0 sale ∧
    ¬ ∀ m ∈ tr, LinkIntact m.target := by
  obtain ⟨tr, s, run, htop, hpending, -⟩ := opens_post
  have hdisappear := run.snoc (.deliver s (.boardOnDisappear 0) .empty hpending)
  refine ⟨_, _, hdisappear, htop, fun h => ?_⟩
  have hintact := h _ (List.mem_append_right _ (List.mem_singleton_self _))
  have haction : some (0 : ℤ) = some 1 := (hintact 0 sale htop).1
  simp at haction

/-! ## A selected pin that opens nothing -/

/-- A pin is selected on the map, but its board does not open: nothing is pending, the hidden
`Text` has appeared, and `action` is not 1. -/
structure Stuck (s : Navigation) : Prop where
  top : s.top = .map
  pending : s.pending = []
  selected : s.mapView.selectedPin ≠ none
  textShown : s.textShown = true
  action : s.mapView.action ≠ some 1

/-- On the map, the hidden `Text` is shown and its `onAppear` has run, and no `onDisappear`
of the map is pending that would remove it. -/
structure Spent (s : Navigation) : Prop where
  top : s.top = .map
  textShown : s.textShown = true
  textAppeared : .textOnAppear ∉ s.pending
  noDisappear : .mapOnDisappear ∉ s.pending

/-- Whatever is pending, the selected pin will not open its board. -/
structure Lost (s : Navigation) : Prop extends Spent s where
  selected : s.mapView.selectedPin ≠ none
  action : s.mapView.action ≠ some 1

/-- While the hidden `Text` is spent, no handler sets `action` from 1 back to 0 under a
selected pin, and no pin is selected anew unless `action` is 1. -/
structure KeepsPinUsable (m : Move Navigation NavigationEvent) : Prop where
  deliver : ∀ h, m.event = .deliver h → h.resetsAction = true → m.source.Spent →
    m.source.mapView.selectedPin ≠ none → m.source.mapView.action ≠ some 1
  tapPin : ∀ pin, m.event = .tapPin pin → m.source.Spent →
    m.source.mapView.selectedPin = none → m.source.mapView.action = some 1

theorem Stuck.lost (h : Stuck s) : Lost s :=
  ⟨⟨h.top, h.textShown, by simp [h.pending], by simp [h.pending]⟩, h.selected, h.action⟩

/-- Under another screen, a pin is selected only until the map's `onDisappear` has run. -/
def Covered (s : Navigation) : Prop :=
  s.top ≠ .map → s.mapView.selectedPin ≠ none → .mapOnDisappear ∈ s.pending

/-- Selecting a pin changes the selection and the current bulletin board, nothing else. -/
theorem tapPin_frame (s : Navigation) (pin : MapPin) :
    (s.tapPin pin).top = s.top ∧ (s.tapPin pin).textShown = s.textShown ∧
    (s.tapPin pin).pending = s.pending ∧ (s.tapPin pin).mapView.action = s.mapView.action ∧
    (s.tapPin pin).mapView.selectedPin = some pin := by
  unfold tapPin
  split <;> exact ⟨rfl, rfl, rfl, rfl, rfl⟩

theorem Spent.congr (h : Spent s) (htop : s'.top = s.top) (htext : s'.textShown = s.textShown)
    (htextAppear : .textOnAppear ∈ s'.pending → .textOnAppear ∈ s.pending)
    (hdisappear : .mapOnDisappear ∈ s'.pending → .mapOnDisappear ∈ s.pending) : Spent s' :=
  ⟨htop.trans h.top, htext.trans h.textShown, fun hp => h.textAppeared (htextAppear hp),
    fun hp => h.noDisappear (hdisappear hp)⟩

/-- A handler other than the two that `Spent` is about leaves the hidden `Text` spent or not. -/
theorem spent_handle {since : ℕ} {h : Handler} (htext : h ≠ .textOnAppear)
    (hdisappear : h ≠ .mapOnDisappear) :
    Spent ({ s with pending := s.pending.erase h }.handle since h) ↔ Spent s := by
  have hmem (h' : Handler) (hne : h' ≠ h) : h' ∈ s.pending.erase h ↔ h' ∈ s.pending :=
    List.mem_erase_of_ne hne
  have hsame : ({ s with pending := s.pending.erase h }.handle since h).pending =
      s.pending.erase h := by
    cases h <;> rfl
  have htop : ({ s with pending := s.pending.erase h }.handle since h).top = s.top := by
    cases h <;> rfl
  have hshown : ({ s with pending := s.pending.erase h }.handle since h).textShown =
      s.textShown := by
    cases h <;> rfl
  constructor
  · intro hspent
    refine hspent.congr htop.symm hshown.symm ?_ ?_
    · rw [hsame, hmem _ htext.symm]
      exact id
    · rw [hsame, hmem _ hdisappear.symm]
      exact id
  · intro hspent
    refine hspent.congr htop hshown ?_ ?_
    · rw [hsame, hmem _ htext.symm]
      exact id
    · rw [hsame, hmem _ hdisappear.symm]
      exact id

theorem covered_step (h : Covered s) (step : Step s e s') : Covered s' := by
  intro htop hselected
  cases step with
  | tapPin pin shown => exact absurd ((tapPin_frame s pin).1.trans shown) htop
  | tapMap shown => exact absurd shown htop
  | render =>
    rw [render_mapView] at hselected
    rcases render_cases s with ⟨-, -, hpending⟩ | ⟨-, hsame, hpending⟩
    · exact hpending
    · rw [hpending, mem_showText_pending]
      exact .inl (h (hsame ▸ htop) hselected)
  | deliver hd collection pending =>
    cases hd with
    | mapOnDisappear => exact absurd rfl hselected
    | _ => exact (List.mem_erase_of_ne (by simp)).mpr (h htop hselected)
  | openPost p shown => exact List.mem_append_left _ (h (by simp [shown]) hselected)
  | closePost shown => exact List.mem_append_left _ (h (by simp [shown]) hselected)
  | closeBoard shown => exact absurd rfl htop
  | closeLink shown => exact absurd rfl htop
  | complete => exact h htop hselected
  | createPost => exact h htop hselected

theorem keepsPinUsable_of_ne (hdeliver : ∀ h, e ≠ .deliver h) (htap : ∀ pin, e ≠ .tapPin pin) :
    KeepsPinUsable ⟨s, e, s'⟩ :=
  ⟨fun h he => absurd he (hdeliver h), fun pin he => absurd he (htap pin)⟩

/-- A board that leaves the screen finds no pin selected, or the map's `onDisappear`
pending. -/
theorem not_lost_popBoard (h : Covered s) (htop : s.top ≠ .map) (v : ℕ) (action : Option ℤ) :
    ¬ Lost (s.popBoard v action) := by
  intro hlost
  exact hlost.noDisappear (List.mem_append_left _ (h htop hlost.selected))

/-- A delivery leads to a lost selection exactly when it takes the 1 from a spent one. -/
theorem not_lost_deliver (h : ¬ Lost s) (since : ℕ) (hd : Handler) :
    ¬ Lost ({ s with pending := s.pending.erase hd }.handle since hd) ↔
      KeepsPinUsable ⟨s, .deliver hd, s'⟩ := by
  by_cases hr : hd.resetsAction = true
  · have hview : ({ s with pending := s.pending.erase hd }.handle since hd).mapView =
        { s.mapView with action := some 0 } := handle_resetsAction hr
    have hspent : Spent ({ s with pending := s.pending.erase hd }.handle since hd) ↔ Spent s :=
      spent_handle (by rintro rfl; cases hr) (by rintro rfl; cases hr)
    constructor
    · intro hlost
      refine ⟨fun h' he _ hs hselected => absurd ?_ hlost, fun pin he => (by cases he)⟩
      exact ⟨hspent.mpr hs, by rwa [hview], by simp [hview]⟩
    · intro hk hlost
      have hs : Spent s := hspent.mp hlost.toSpent
      have hselected : s.mapView.selectedPin ≠ none := by
        have := hlost.selected
        rwa [hview] at this
      exact h ⟨hs, hselected, hk.deliver hd rfl hr hs hselected⟩
  · refine iff_of_true (fun hlost => ?_) ⟨fun h' he hr' => ?_, fun pin he => (by cases he)⟩
    · cases hd with
      | textOnAppear => exact hlost.action rfl
      | mapOnDisappear => exact hlost.selected rfl
      | boardOnAppear v =>
        have hspent := (spent_handle (by simp) (by simp)).mp hlost.toSpent
        exact h ⟨hspent, hlost.selected, hlost.action⟩
      | mapOnAppear => exact hr rfl
      | boardOnDisappear v => exact hr rfl
    · obtain rfl : hd = h' := by simpa using he
      exact absurd hr' hr

/-- A step leads to a lost selection exactly when it breaks the condition. -/
theorem not_lost_step (hcovered : Covered s) (h : ¬ Lost s) (step : Step s e s') :
    ¬ Lost s' ↔ KeepsPinUsable ⟨s, e, s'⟩ := by
  cases step with
  | tapPin pin shown =>
    obtain ⟨htop, htext, hpending, haction, hselected⟩ := tapPin_frame s pin
    constructor
    · intro hs'
      refine ⟨fun h' he => (by cases he), fun pin' he hspent _ => ?_⟩
      by_contra hne
      refine hs' ⟨hspent.congr htop htext ?_ ?_, by simp [hselected], by rwa [haction]⟩
      · exact fun hp => hpending ▸ hp
      · exact fun hp => hpending ▸ hp
    · intro hk hlost
      have hspent : Spent s := by
        refine hlost.toSpent.congr htop.symm htext.symm ?_ ?_
        · exact fun hp => hpending.symm ▸ hp
        · exact fun hp => hpending.symm ▸ hp
      have hne : s.mapView.action ≠ some 1 := haction ▸ hlost.action
      by_cases hnone : s.mapView.selectedPin = none
      · exact hne (hk.tapPin pin rfl hspent hnone)
      · exact h ⟨hspent, hnone, hne⟩
  | tapMap =>
    refine iff_of_true (fun hlost => ?_) (keepsPinUsable_of_ne (by simp) (by simp))
    exact hlost.selected rfl
  | render =>
    refine iff_of_true (fun hlost => ?_) (keepsPinUsable_of_ne (by simp) (by simp))
    have hselected : s.mapView.selectedPin ≠ none := render_mapView s ▸ hlost.selected
    have haction : s.mapView.action ≠ some 1 := render_mapView s ▸ hlost.action
    rcases render_cases s with ⟨-, ⟨v, hboard⟩, -⟩ | ⟨-, hsame, hpending⟩
    · cases hboard.symm.trans hlost.top
    -- the text was shown before, since its handler is not pending
    · have htext := hlost.textAppeared
      have hdisappear := hlost.noDisappear
      rw [hpending, mem_showText_pending, not_or] at htext hdisappear
      refine h ⟨⟨hsame.symm.trans hlost.top, ?_, htext.1, hdisappear.1⟩, hselected, haction⟩
      by_contra hhidden
      exact htext.2 ⟨rfl, Option.isSome_iff_ne_none.mpr hselected, by simpa using hhidden⟩
  | deliver hd collection pending => exact not_lost_deliver h _ hd
  | openPost p shown =>
    refine iff_of_true (fun hlost => ?_) (keepsPinUsable_of_ne (by simp) (by simp))
    cases hlost.top
  | closePost shown =>
    refine iff_of_true (fun hlost => ?_) (keepsPinUsable_of_ne (by simp) (by simp))
    cases hlost.top
  | closeBoard shown =>
    refine iff_of_true ?_ (keepsPinUsable_of_ne (by simp) (by simp))
    exact not_lost_popBoard hcovered (by simp [shown]) _ _
  | closeLink shown =>
    refine iff_of_true ?_ (keepsPinUsable_of_ne (by simp) (by simp))
    refine not_lost_popBoard hcovered ?_ _ _
    rcases shown with shown | ⟨p, shown⟩ <;> simp [shown]
  | complete =>
    refine iff_of_true (fun hlost => h ?_) (keepsPinUsable_of_ne (by simp) (by simp))
    exact ⟨⟨hlost.top, hlost.textShown, hlost.textAppeared, hlost.noDisappear⟩, hlost.selected,
      hlost.action⟩
  | createPost _ shown =>
    refine iff_of_true (fun hlost => ?_) (keepsPinUsable_of_ne (by simp) (by simp))
    cases shown.symm.trans hlost.top

theorem covered_of_reaches (h : Reaches Step {} s) : Covered s :=
  h.invariant (fun htop _ => absurd rfl htop) fun _ _ _ => covered_step

/-- A run never loses a selection exactly when every step meets the condition. -/
theorem never_lost_iff (run : Run Step {} tr s) :
    (∀ m ∈ tr, ¬ Lost m.target) ↔ ∀ m ∈ tr, KeepsPinUsable m :=
  run.forall_target_iff (P := fun s => ¬ Lost s) (fun h => h.selected rfl)
    fun _ hreach h step => not_lost_step (covered_of_reaches hreach) h step

/-- None of the handlers that a lost selection waits for brings it back. -/
theorem lost_deliver (h : Lost s) (since : ℕ) {hd : Handler} (hmem : hd ∈ s.pending) :
    Lost ({ s with pending := s.pending.erase hd }.handle since hd) := by
  have htext : hd ≠ .textOnAppear := fun he => h.textAppeared (he ▸ hmem)
  have hdisappear : hd ≠ .mapOnDisappear := fun he => h.noDisappear (he ▸ hmem)
  refine ⟨(spent_handle htext hdisappear).mpr h.toSpent, ?_, ?_⟩
  · cases hd with
    | mapOnDisappear => exact absurd rfl hdisappear
    | _ => exact h.selected
  · cases hd with
    | textOnAppear => exact absurd rfl htext
    | mapOnDisappear => exact h.action
    | boardOnAppear v => exact h.action
    | mapOnAppear => exact fun hzero => by cases hzero
    | boardOnDisappear v => exact fun hzero => by cases hzero

/-- Once a selection is lost, the map is stuck as soon as what is pending has run. -/
theorem stuck_of_lost (h : Lost s) : ∃ s', Reaches Step s s' ∧ Stuck s' := by
  -- the induction is on the number of pending handlers
  induction hn : s.pending.length generalizing s with
  | zero =>
    have hnone : s.pending = [] := List.length_eq_zero_iff.mp hn
    exact ⟨s, .refl s, h.top, hnone, h.selected, h.textShown, h.action⟩
  | succ n ih =>
    obtain ⟨hd, hmem⟩ : ∃ hd, hd ∈ s.pending := List.exists_mem_of_length_pos (by omega)
    have hstep := Step.deliver s hd .empty hmem
    have hpending : ({ s with pending := s.pending.erase hd }.handle 0 hd).pending =
        s.pending.erase hd := by
      cases hd <;> rfl
    have hlen : (s.pending.erase hd).length = n := by
      rw [List.length_erase_of_mem hmem]
      omega
    obtain ⟨s', hreach, hstuck⟩ := ih (lost_deliver h _ hmem) (by rw [hpending, hlen])
    exact ⟨s', ((Reaches.refl s).step hstep).trans hreach, hstuck⟩

/-- In a run whose steps all meet the condition, the map is never stuck on a pin. -/
theorem never_stuck (run : Run Step {} tr s) (h : ∀ m ∈ tr, KeepsPinUsable m) :
    ∀ m ∈ tr, ¬ Stuck m.target := by
  intro m hm hstuck
  exact (never_lost_iff run).mpr h m hm hstuck.lost

/-- A board opens from the first tap. -/
theorem tapped_pin_opens_board : ∃ tr s, Run Step {} tr s ∧ s.top = .board 0 ∧
    ∀ m ∈ tr, ¬ Stuck m.target := by
  have h1 := (Run.nil ({} : Navigation)).snoc (Step.deliver _ .mapOnAppear .empty (by decide))
  have h2 := (h1.snoc (.tapPin _ akul rfl (by decide) (by decide))).snoc (.render _)
  have h3 := (h2.snoc (.deliver _ .textOnAppear .empty (by decide))).snoc (.render _)
  refine ⟨_, _, h3, rfl, never_stuck h3 ?_⟩
  simp only [List.forall_mem_append, List.forall_mem_singleton, List.not_mem_nil, false_implies,
    implies_true, true_and]
  and_intros
  · exact ⟨fun _ _ _ hspent => (by cases hspent.textShown), fun _ he => (by cases he)⟩
  · exact ⟨fun _ he => (by cases he), fun _ _ hspent => (by cases hspent.textShown)⟩
  · exact keepsPinUsable_of_ne (by simp) (by simp)
  · exact ⟨fun _ he hr => (by cases he; cases hr), fun _ he => (by cases he)⟩
  · exact keepsPinUsable_of_ne (by simp) (by simp)

/-- The user comes back from a board and taps the other pin before the board's
`onDisappear` is delivered, which then takes back the 1 that the hidden `Text` has set. -/
theorem late_reset_gets_stuck : ∃ s, Reaches Step {} s ∧ Stuck s := by
  have h1 := (Run.nil ({} : Navigation)).snoc (Step.deliver _ .mapOnAppear .empty (by decide))
  have h2 := (h1.snoc (.tapPin _ akul rfl (by decide) (by decide))).snoc (.render _)
  have h3 := (h2.snoc (.deliver _ .textOnAppear .empty (by decide))).snoc (.render _)
  have h4 := (h3.snoc (.deliver _ .mapOnDisappear .empty (by decide))).snoc (.render _)
  have h5 := (h4.snoc (.deliver _ (.boardOnAppear 0) .empty (by decide))).snoc
    (.closeBoard _ (v := 0) rfl)
  have h6 := (h5.snoc (.tapPin _ library rfl (by decide) (by decide))).snoc (.render _)
  have h7 := h6.snoc (.deliver _ .textOnAppear .empty (by decide))
  have h8 := h7.snoc (.deliver _ (.boardOnDisappear 0) .empty (by decide))
  have h9 := h8.snoc (.deliver _ .mapOnAppear .empty (by decide))
  exact ⟨_, h9.reaches, rfl, rfl, by decide, rfl, by decide⟩

end Navigation

end Pindex
