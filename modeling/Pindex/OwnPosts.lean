import Pindex.BoardIsolation
import Pindex.PostTheorems

/-!
# Whose posts are seen

`NewPost` writes no `PostNumber`, and the pages of a board ask for one. So what users post is
never read back: a board lists what has been posted on that very screen since it was last
cleared (`System.lists_own_posts`), and nobody sees the posts of anybody else
(`System.sees_own_posts`).
-/

namespace Pindex

open DocStore Transition

/-! ## What the pages find -/

namespace World

variable {P : Platform} {w₀ w w' : World} {e : Event} {tr : List (Move World Event)}
  {c v : ℕ} {title content : String}

/-- Without numbered documents at the start, no page ever delivers anything. -/
theorem not_deliversEntry (hi : w₀.Initial)
    (unnumbered : ∀ d ∈ (w₀.store .post).docs, d.get? "PostNumber" = none)
    (h : Reaches (Step P) w₀ w) (step : Step P w e w') (q : PostQuery) :
    ¬ DeliversEntry c v title content q ⟨w, e, w'⟩ := by
  rintro ⟨r, hc, d, hd, -⟩
  cases step.board_move c v with
  | idle _ _ _ _ noCompletion => exact noCompletion q r hc
  | appears event => cases boardEvent_unique event hc.event
  | disappears event => cases boardEvent_unique event hc.event
  | createsPost form event => cases boardEvent_unique event hc.event
  | completes q' r' completes pending delivered =>
    cases boardEvent_unique completes.event hc.event
    obtain ⟨hmem, startNum, -, -, hnumber⟩ := PostQuery.delivered_sound delivered hd
    have hold : d ∈ (w₀.store .post).docs := by
      apply numbered_mem_docs hi h (Collection.mem_sent_of_mem_docs hmem)
      rw [hnumber]
      exact Option.some_ne_none _
    rw [unnumbered d hold] at hnumber
    cases hnumber

/-- A board lists what `NewPost` has appended since it was last cleared. -/
theorem hasEntry_posted_iff (hi : w₀.Initial)
    (unnumbered : ∀ d ∈ (w₀.store .post).docs, d.get? "PostNumber" = none)
    (run : Run (Step P) w₀ tr w) : HasEntry title content (w.board c v).view.posts ↔
      Since (PostsEntry c v title content) (fun m => ¬ Clears c v m) tr := by
  induction run with
  | nil => simp [HasEntry, board, hi.clients c]
  | snoc run step ih =>
    rw [since_snoc, ← ih, hasEntry_step step, AppendsEntry]
    simp [not_deliversEntry hi unnumbered run.reaches step]

end World

/-! ## How a post is opened -/

namespace Device

variable {P : Platform} {store : Store} {d d' : Device} {e : DeviceEvent} {i v : ℕ} {p : Post}
  {out : Option (CollectionName × Fields Value)}

theorem setNavigation_top {i' : ℕ} {n : Navigation} (htop : n.top = (d.navigations i').top) :
    ((d.setNavigation i' n).navigations i).top = (d.navigations i).top := by
  show (Function.update d.navigations i' n i).top = _
  by_cases hi : i = i'
  · subst hi
    rw [Function.update_self, htop]
  · rw [Function.update_of_ne hi]

theorem logOut_top : (d.logOut.navigations i).top = (d.navigations i).top :=
  setNavigation_top rfl

theorem setBoard_top (i' v' : ℕ) (board : Board) :
    ((d.setBoard i' v' board).navigations i).top = (d.navigations i).top :=
  setNavigation_top rfl

/-- Handlers push and pop nothing. -/
theorem deliver_top (since i' : ℕ) (h : Handler) :
    ((d.deliver since i' h).navigations i).top = (d.navigations i).top := by
  have hset := setNavigation_top (d := d) (i := i) (Navigation.handle_top since
    { d.navigation i' with pending := (d.navigation i').pending.erase h } h)
  cases h <;> exact hset

/-- A post comes to the screen of map `i` from the list of its board. -/
theorem Step.opens (h : Device.Step P store d e d' out)
    (hp : (d'.navigations i).top = .post v p) : (d.navigations i).top = .post v p ∨
      ((d.navigations i).top = .board v ∧ p ∈ ((d.navigations i).boards v).view.posts) := by
  cases h with
  | session => exact .inl hp
  | form => exact .inl hp
  | map => exact .inl hp
  | makeMapView => exact .inl hp
  | locate => exact .inl hp
  | trap => exact .inl hp
  | logOut => exact .inl (logOut_top.symm.trans hp)
  | deliver i' hd => exact .inl ((deliver_top _ i' hd).symm.trans hp)
  | complete => exact .inl ((setBoard_top _ _ _).symm.trans hp)
  | createPost => exact .inl ((setBoard_top _ _ _).symm.trans hp)
  | @navigation i' ne n onScreen shown step =>
    change (Function.update d.navigations i' n i).top = .post v p at hp
    by_cases hi : i = i'
    · subst hi
      rw [Function.update_self] at hp
      exact Navigation.post_onScreen step onScreen hp
    · rw [Function.update_of_ne hi] at hp
      exact .inl hp

end Device

/-! ## The screens of a system -/

namespace System

variable {P : Platform} {u₀ u u' : System} {e : SystemEvent} {tr : List (Move System SystemEvent)}
  {m : Move System SystemEvent} {c i v : ℕ} {title content : String}

/-- Create Post is tapped over board `v` of map `i`, with this text. -/
def PostsEntry (c i v : ℕ) (title content : String) (m : Move System SystemEvent) : Prop :=
  ∃ form, m.event = .device c (.navigation i (.createPost form)) ∧
    ((m.source.devices c).navigations i).top = .board v ∧
    form.eventName = title ∧ form.eventContent = content

/-- The board appears or disappears, which clears `posts`. -/
def Clears (c i v : ℕ) (m : Move System SystemEvent) : Prop :=
  m.event = .device c (.navigation i (.deliver (.boardOnAppear v))) ∨
    m.event = .device c (.navigation i (.deliver (.boardOnDisappear v)))

/-- What a board's event in the world is in the system. -/
theorem clientEvent_board {d : Device} {e : DeviceEvent} {be : BoardEvent}
    (h : d.clientEvent e = some (.board (Nat.pair i v) be)) :
    (e = .navigation i (.deliver (.boardOnAppear v)) ∧ be = .onAppear) ∨
    (e = .navigation i (.deliver (.boardOnDisappear v)) ∧ be = .onDisappear) ∨
    (∃ q r, e = .navigation i (.complete v q r) ∧ be = .complete q r) ∨
    ∃ form, e = .navigation i (.createPost form) ∧ (d.navigations i).top = .board v ∧
      be = .createPost form := by
  have hpair : ∀ {i' v' : ℕ} {be' : BoardEvent},
      some (ClientEvent.board (Nat.pair i' v') be') = some (.board (Nat.pair i v) be) →
        i' = i ∧ v' = v ∧ be' = be := by
    intro i' v' be' heq
    obtain ⟨hnumber, hevent⟩ := ClientEvent.board.inj (Option.some.inj heq)
    obtain ⟨hi, hv⟩ := Nat.pair_eq_pair.mp hnumber
    exact ⟨hi, hv, hevent⟩
  cases e with
  | session => cases h
  | form => cases h
  | map => cases h
  | makeMapView => cases h
  | locate => cases h
  | navigation i' ne =>
    cases ne with
    | deliver hd =>
      cases hd with
      | boardOnAppear v' =>
        obtain ⟨rfl, rfl, rfl⟩ := hpair h
        exact .inl ⟨rfl, rfl⟩
      | boardOnDisappear v' =>
        obtain ⟨rfl, rfl, rfl⟩ := hpair h
        exact .inr (.inl ⟨rfl, rfl⟩)
      | _ => cases h
    | complete v' q r =>
      obtain ⟨rfl, rfl, rfl⟩ := hpair h
      exact .inr (.inr (.inl ⟨q, r, rfl, rfl⟩))
    | createPost form =>
      simp only [Device.clientEvent] at h
      split at h
      · rename_i v' htop
        obtain ⟨rfl, rfl, rfl⟩ := hpair h
        exact .inr (.inr (.inr ⟨form, rfl, htop, rfl⟩))
      · cases h
    | render =>
      obtain ⟨pin, -, heq⟩ := Option.map_eq_some_iff.mp h
      cases heq
    | _ => cases h

theorem postsEntry_iff : PostsEntry c i v title content m ↔ ∃ form, m.source.worldEvent m.event =
      some (.client c (.board (Nat.pair i v) (.createPost form))) ∧
    form.eventName = title ∧ form.eventContent = content := by
  constructor
  · rintro ⟨form, he, htop, htext⟩
    refine ⟨form, worldEvent_client.mpr ⟨_, he, ?_⟩, htext⟩
    simp only [Device.clientEvent, htop]
  · rintro ⟨form, he, htext⟩
    obtain ⟨de, hde, hce⟩ := worldEvent_client.mp he
    rcases clientEvent_board hce with ⟨-, hbe⟩ | ⟨-, hbe⟩ | ⟨_, _, -, hbe⟩ | ⟨form', rfl, htop, hbe⟩
    · cases hbe
    · cases hbe
    · cases hbe
    · cases hbe
      exact ⟨form, hde, htop, htext⟩

theorem clears_iff : Clears c i v m ↔
    m.source.worldEvent m.event = some (.client c (.board (Nat.pair i v) .onAppear)) ∨
    m.source.worldEvent m.event = some (.client c (.board (Nat.pair i v) .onDisappear)) := by
  constructor
  · rintro (he | he)
    · exact .inl (worldEvent_client.mpr ⟨_, he, rfl⟩)
    · exact .inr (worldEvent_client.mpr ⟨_, he, rfl⟩)
  · rintro (he | he)
    · obtain ⟨de, hde, hce⟩ := worldEvent_client.mp he
      rcases clientEvent_board hce with ⟨rfl, -⟩ | ⟨-, hbe⟩ | ⟨_, _, -, hbe⟩ | ⟨_, -, -, hbe⟩
      · exact .inl hde
      · cases hbe
      · cases hbe
      · cases hbe
    · obtain ⟨de, hde, hce⟩ := worldEvent_client.mp he
      rcases clientEvent_board hce with ⟨-, hbe⟩ | ⟨rfl, -⟩ | ⟨_, _, -, hbe⟩ | ⟨_, -, -, hbe⟩
      · cases hbe
      · exact .inr hde
      · cases hbe
      · cases hbe

/-- Posts are appended, and boards cleared, in a system when they are in its world. -/
theorem since_posted_iff :
    Since (World.PostsEntry c (Nat.pair i v) title content)
        (fun m => ¬ World.Clears c (Nat.pair i v) m) ((simulation P).trace tr) ↔
      Since (PostsEntry c i v title content) (fun m => ¬ Clears c i v m) tr := by
  apply Simulation.since_trace
  · intro m m' hmove
    obtain ⟨we, hwe, rfl⟩ := Option.map_eq_some_iff.mp hmove
    have hwe' : m.source.worldEvent m.event = some we := hwe
    rw [postsEntry_iff, clears_iff, hwe']
    simp only [Option.some.injEq]
    exact ⟨Iff.rfl, Iff.rfl⟩
  · intro m hmove
    have hnone : m.source.worldEvent m.event = none := Option.map_eq_none_iff.mp hmove
    rw [postsEntry_iff, clears_iff, hnone]
    simp

/-- A board lists what has been posted over it since it last appeared or disappeared, and
nothing else, whatever is stored. -/
theorem lists_own_posts (hi : u₀.Initial)
    (unnumbered : ∀ d ∈ (u₀.store .post).docs, d.get? "PostNumber" = none)
    (run : Run (Step P) u₀ tr u) :
    World.HasEntry title content (((u.devices c).navigations i).boards v).view.posts ↔
      Since (PostsEntry c i v title content) (fun m => ¬ Clears c i v m) tr := by
  have hrun : Run (World.Step P) u₀.world ((simulation P).trace tr) u.world :=
    (simulation P).run run
  rw [← since_posted_iff (P := P), ← World.hasEntry_posted_iff (initial_world hi) unnumbered hrun]
  show _ ↔ World.HasEntry title content ((u.devices c).client.boards (Nat.pair i v)).view.posts
  rw [Device.client_boards]

theorem alice_lists_her_post : ∃ tr u, Run (Step .plain) aliceSystem tr u ∧
    World.HasEntry "Hello" "" (((u.devices 0).navigations 0).boards 0).view.posts ∧
    Since (PostsEntry 0 0 0 "Hello" "") (fun m => ¬ Clears 0 0 0 m) tr := by
  obtain ⟨past, u, u', run, step, visits, -⟩ := exists_posting
  have hlisted : World.HasEntry "Hello" ""
      (((u'.devices 0).navigations 0).boards 0).view.posts := by
    rw [visits.posts]
    exact ⟨_, List.mem_singleton_self _, rfl, rfl⟩
  exact ⟨_, u', run.snoc step, hlisted, (lists_own_posts initial_aliceSystem
    (fun _ hd => absurd hd List.not_mem_nil) (run.snoc step)).mp hlisted⟩

/-- A post that is open has been listed by its board. -/
theorem exists_listed_of_open (hi : u₀.Initial) (run : Run (Step P) u₀ tr u) {p : Post}
    (hp : ((u.devices c).navigations i).top = .post v p) : ∃ past m, past ++ [m] <+: tr ∧
      p ∈ (((m.source.devices c).navigations i).boards v).view.posts := by
  have hclosed : ((u₀.devices c).navigations i).top ≠ .post v p := by
    rw [hi.devices c]
    exact Screen.noConfusion
  obtain ⟨m, hm, hbefore, hafter⟩ := run.exists_change
    (I := fun u => ((u.devices c).navigations i).top = .post v p) hclosed hp
  obtain ⟨past, hpast, -⟩ := run.exists_past hm
  refine ⟨past, m, hpast, ?_⟩
  obtain ⟨u₁, e, u₂⟩ := m
  have step : Step P u₁ e u₂ := (run.of_past hpast).2
  cases step with
  | commit => exact absurd hafter hbefore
  | reject => exact absurd hafter hbefore
  | @device c' de d out running step =>
    change ((Function.update u₁.devices c' d c).navigations i).top = .post v p at hafter
    by_cases hc : c = c'
    · subst hc
      rw [Function.update_self] at hafter
      exact ((step.opens hafter).resolve_left hbefore).2
    · rw [Function.update_of_ne hc] at hafter
      exact absurd hafter hbefore

theorem exists_posted_of_listed (hi : u₀.Initial)
    (unnumbered : ∀ d ∈ (u₀.store .post).docs, d.get? "PostNumber" = none)
    (run : Run (Step P) u₀ tr u) {p : Post}
    (hp : p ∈ (((u.devices c).navigations i).boards v).view.posts) :
    ∃ m ∈ tr, PostsEntry c i v p.title p.content m := by
  have hlisted : World.HasEntry p.title p.content
      ((u.devices c).client.boards (Nat.pair i v)).view.posts := by
    rw [Device.client_boards]
    exact ⟨p, hp, rfl, rfl⟩
  have hsince := (World.hasEntry_posted_iff (initial_world hi) unnumbered
    ((simulation P).run run)).mp hlisted
  obtain ⟨before, m, after, rfl, hposts, -⟩ := since_posted_iff.mp hsince
  exact ⟨m, by simp, hposts⟩

/-- Nobody sees the posts of anybody else: whatever a map's screens display has been posted on
this map, on this device. -/
theorem sees_own_posts (hi : u₀.Initial)
    (unnumbered : ∀ d ∈ (u₀.store .post).docs, d.get? "PostNumber" = none)
    (run : Run (Step P) u₀ tr u) {p : Post} (hp : ((u.devices c).navigation i).Displays p) :
    ∃ m ∈ tr, ∃ v, PostsEntry c i v p.title p.content m := by
  rcases hp with ⟨v, -, hlisted⟩ | ⟨v, hopen⟩
  · obtain ⟨m, hm, hposts⟩ := exists_posted_of_listed hi unnumbered run hlisted
    exact ⟨m, hm, v, hposts⟩
  · obtain ⟨past, m', hpast, hlisted⟩ := exists_listed_of_open hi run hopen
    obtain ⟨m, hm, hposts⟩ :=
      exists_posted_of_listed hi unnumbered (run.of_past hpast).1 hlisted
    exact ⟨m, hpast.subset (List.mem_append_left _ hm), v, hposts⟩

theorem alice_sees_only_hers : ∃ tr u, Run (Step .plain) aliceSystem tr u ∧
    ((u.devices 0).navigation 0).Displays ⟨"Hello", "", 0⟩ ∧
    ∃ m ∈ tr, ∃ v, PostsEntry 0 0 v "Hello" "" m := by
  obtain ⟨past, u, u', run, step, visits, -⟩ := exists_posting
  have hshown : ((u'.devices 0).navigation 0).Displays ⟨"Hello", "", 0⟩ := by
    refine .inl ⟨0, .inl visits.top, ?_⟩
    show _ ∈ (((u'.devices 0).navigations 0).boards 0).view.posts
    rw [visits.posts]
    exact List.mem_singleton_self _
  exact ⟨_, u', run.snoc step, hshown, sees_own_posts initial_aliceSystem
    (fun _ hd => absurd hd List.not_mem_nil) (run.snoc step) hshown⟩

end System

end Pindex
