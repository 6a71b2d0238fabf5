import Pindex.Replay

/-!
# Bulletin boards: what `posts` shows, and when

`posts` is filled by up to 31 completions for each load and by `NewPost`, and emptied by
every appearance and disappearance, all without any token that ties a completion to its
load. Three laws are stated over every run of the world, each with the exact condition
under which a run keeps it:

* the `id`s of the entries are distinct (`ids_unique_iff`);
* the entries belong to the load started last, and come from distinct documents
  (`boards_current_iff`);
* a stored post is shown by later loads of its board (`post_shown_iff`).

All rest on `Step.board_move`, which says once what a step does to a board.
-/

namespace Pindex

open DocStore Transition

namespace World

variable {P : Platform} {w₀ w w' : World} {e : Event} {tr past : List (Move World Event)}
  {c v : ℕ}

/-! ## What a step does to a board -/

/-- The board's `onAppear` runs. -/
def Appears (c v : ℕ) (m : Move World Event) : Prop := m.event = .client c (.board v .onAppear)

/-- The board's `onDisappear` runs. -/
def Disappears (c v : ℕ) (m : Move World Event) : Prop :=
  m.event = .client c (.board v .onDisappear)

/-- Create Post is tapped with this form. -/
def CreatesPost (c v : ℕ) (form : NewPost) (m : Move World Event) : Prop :=
  m.event = .client c (.board v (.createPost form))

/-- The completion of a query whose documents all read back as posts. -/
structure Completes (c v : ℕ) (q : PostQuery) (r : Response Value) (m : Move World Event) :
    Prop where
  event : m.event = .client c (.board v (.complete q r))
  casts : ∀ d ∈ q.read.delivered r, PostCasts d

theorem boardEvent_unique {m : Move World Event} {be be' : BoardEvent}
    (h : m.event = .client c (.board v be)) (h' : m.event = .client c (.board v be')) :
    be = be' := by
  simpa using h.symm.trans h'

/-- Everything a step can do to a board. -/
inductive BoardMove (c v : ℕ) (m : Move World Event) : Prop
  | idle (same : m.target.board c v = m.source.board c v) (noAppear : ¬ Appears c v m)
      (noDisappear : ¬ Disappears c v m) (noPost : ∀ form, ¬ CreatesPost c v form m)
      (noCompletion : ∀ q r, ¬ Completes c v q r m)
  | appears (event : Appears c v m)
      (target : m.target.board c v = (m.source.board c v).onAppear
        (m.source.clients c).currentBulletinBoard (m.source.store .post).docs.length)
  | disappears (event : Disappears c v m)
      (target : m.target.board c v = (m.source.board c v).onDisappear)
  | createsPost (form : NewPost) (event : CreatesPost c v form m)
      (target : m.target.board c v = (m.source.board c v).createPost
        (m.source.clients c).currentBulletinBoard (m.source.store .post).nextId form)
      (store : m.target.store .post = (m.source.store .post).add
        (form.postFields (m.source.clients c).currentBulletinBoard))
  | completes (q : PostQuery) (r : Response Value) (completes : Completes c v q r m)
      (pending : q ∈ (m.source.board c v).pending)
      (delivered : (m.source.store .post).Delivers q.query q.since r) (new : List Post)
      (shows : List.Forall₂ Shows new (q.read.delivered r))
      (ids : new.map Post.id = List.range' q.read.firstID (q.read.delivered r).length)
      (target : m.target.board c v =
        (m.source.board c v).complete q r ((m.source.board c v).view.posts ++ new))

/-- A completion that traps was given a document that does not read back as a post. -/
theorem not_casts_of_trap {q : PostQuery} {r : Response Value} {posts : List Post}
    {collection : Collection Value} (hdel : collection.Delivers q.query q.since r)
    (htrap : q.read.completion r posts = none) : ¬ ∀ d ∈ q.read.delivered r, PostCasts d := by
  intro hcasts
  have hsome : (q.read.completion r posts).isSome := by
    refine PostRead.completion_isSome (fun herr => ?_) hcasts
    obtain ⟨docs, hdocs, -⟩ := hdel herr
    simp [hdocs]
  rw [htrap] at hsome
  cases hsome

theorem Step.board_move (h : Step P w e w') (c v : ℕ) : BoardMove c v ⟨w, e, w'⟩ := by
  rcases h.board_cases c v with ⟨hsame, hne⟩ | ⟨be, out, rfl, hstep, hstore⟩ |
    ⟨be, rfl, -, hsame, htraps⟩
  · exact .idle hsame (hne _) (hne _) (fun form => hne _) (fun q r h => hne _ h.event)
  · generalize htarget : w'.board c v = target at hstep
    cases hstep with
    | onAppear => exact .appears rfl htarget
    | onDisappear => exact .disappears rfl htarget
    | createPost form =>
      refine .createsPost form rfl htarget ?_
      rw [hstore]
      simp [Store.send, NewPost.createPost]
    | complete pending delivered completion =>
      obtain ⟨new, rfl, hshows, hids⟩ := PostRead.completion_appends completion
      have hcasts : ∀ d ∈ _, PostCasts d := fun d hd => by
        obtain ⟨p, -, hp⟩ := (forall₂_shows hshows).1 d hd
        exact ⟨p.title, p.content, hp.title, hp.content⟩
      exact .completes _ _ ⟨rfl, hcasts⟩ pending delivered new hshows hids htarget
  · cases be with
    | complete q r =>
      refine .idle hsame (by rintro ⟨⟩) (by rintro ⟨⟩) (by rintro form ⟨⟩) ?_
      rintro q' r' ⟨he, hcasts⟩
      cases he
      exact not_casts_of_trap htraps.2.1 htraps.2.2 hcasts
    | _ => exact htraps.elim

/-- What `onAppear` does to its board. -/
theorem Step.board_onAppear (h : Step P w (.client c (.board v .onAppear)) w') :
    w'.board c v = (w.board c v).onAppear (w.clients c).currentBulletinBoard
      (w.store .post).docs.length := by
  cases h.board_move c v with
  | idle _ noAppear => exact absurd rfl noAppear
  | appears _ target => exact target
  | disappears event => cases event
  | createsPost form event => cases event
  | completes q r completes => cases completes.event

theorem Step.store_createPost {form : NewPost}
    (h : Step P w (.client c (.board v (.createPost form))) w') :
    w'.store .post = (w.store .post).add
      (form.postFields (w.clients c).currentBulletinBoard) := by
  cases h.board_move c v with
  | idle _ _ _ noPost => exact absurd rfl (noPost form)
  | appears event => cases event
  | disappears event => cases event
  | createsPost form' event _ store =>
    cases event
    exact store
  | completes q r completes => cases completes.event

/-! ## The ids of the entries -/

/-- The posts of the list have different identifiers. -/
def UniqueIds (board : Board) : Prop := (board.view.posts.map Post.id).Nodup

instance (board : Board) : Decidable (UniqueIds board) :=
  inferInstanceAs (Decidable (board.view.posts.map Post.id).Nodup)

/-- No entry already there has an `id` that the completion numbers its entries with, or
the number of entries as `id` when `NewPost` appends. -/
structure AppendsFreshIds (c v : ℕ) (m : Move World Event) : Prop where
  completes : ∀ q r, Completes c v q r m → ∀ p ∈ (m.source.board c v).view.posts,
    p.id < q.read.firstID ∨ q.read.firstID + (q.read.delivered r).length ≤ p.id
  createsPost : ∀ form, CreatesPost c v form m → ∀ p ∈ (m.source.board c v).view.posts,
    p.id ≠ (m.source.board c v).view.posts.length

/-- Entries appended under the numbers from `firstID` on. -/
theorem uniqueIds_append_range (posts : List Post) {new : List Post} {firstID n : ℕ}
    (hids : new.map Post.id = List.range' firstID n) :
    ((posts ++ new).map Post.id).Nodup ↔ (posts.map Post.id).Nodup ∧
      ∀ p ∈ posts, p.id < firstID ∨ firstID + n ≤ p.id := by
  have hdisjoint : (posts.map Post.id).Disjoint (List.range' firstID n) ↔
      ∀ p ∈ posts, p.id < firstID ∨ firstID + n ≤ p.id := by
    rw [List.disjoint_left]
    simp only [List.mem_map, List.mem_range'_1, forall_exists_index, and_imp,
      forall_apply_eq_imp_iff₂]
    exact forall₂_congr fun p _ => by omega
  rw [List.map_append, hids, List.nodup_append', hdisjoint]
  simp [List.nodup_range']

theorem uniqueIds_step {m : Move World Event} (h : UniqueIds (m.source.board c v))
    (step : Step P m.source m.event m.target) :
    UniqueIds (m.target.board c v) ↔ AppendsFreshIds c v m := by
  cases step.board_move c v with
  | idle same _ _ noPost noCompletion =>
    rw [same]
    exact iff_of_true h ⟨fun q r hc => absurd hc (noCompletion q r),
      fun form hf => absurd hf (noPost form)⟩
  | appears event target =>
    rw [target]
    refine iff_of_true List.nodup_nil ⟨fun q r hc => ?_, fun form hf => ?_⟩
    · cases boardEvent_unique event hc.event
    · cases boardEvent_unique event hf
  | disappears event target =>
    rw [target]
    refine iff_of_true List.nodup_nil ⟨fun q r hc => ?_, fun form hf => ?_⟩
    · cases boardEvent_unique event hc.event
    · cases boardEvent_unique event hf
  | createsPost form event target =>
    let p : Post :=
      ⟨form.eventName, form.eventContent, (m.source.board c v).view.posts.length⟩
    have hid : [p].map Post.id = List.range' (m.source.board c v).view.posts.length 1 := rfl
    have hiff := uniqueIds_append_range (m.source.board c v).view.posts hid
    rw [target, UniqueIds]
    refine hiff.trans ⟨fun ⟨_, hfresh⟩ => ⟨fun q r hc => ?_, fun form' hf p hp => ?_⟩,
      fun hfresh => ⟨h, fun p hp => ?_⟩⟩
    · cases boardEvent_unique event hc.event
    · have := hfresh p hp
      omega
    · have := hfresh.createsPost form event p hp
      omega
  | completes q r completes _ _ new _ ids target =>
    have hiff := uniqueIds_append_range (m.source.board c v).view.posts ids
    rw [target, UniqueIds]
    refine hiff.trans ⟨fun ⟨_, hfresh⟩ => ⟨fun q' r' hc => ?_, fun form hf => ?_⟩,
      fun hfresh => ⟨h, hfresh.completes q r completes⟩⟩
    · cases boardEvent_unique completes.event hc.event
      exact hfresh
    · cases boardEvent_unique completes.event hf

/-- In a run, the `id`s on every board are always distinct, exactly when every completion
and every `NewPost` append uses `id`s that no entry has. -/
theorem ids_unique_iff (hi : w₀.Initial) (run : Run (Step P) w₀ tr w) :
    (∀ m ∈ tr, ∀ c v, UniqueIds (m.target.board c v)) ↔
      ∀ m ∈ tr, ∀ c v, AppendsFreshIds c v m := by
  refine run.forall_target_iff (P := fun w => ∀ c v, UniqueIds (w.board c v)) ?_ ?_
  · intro c v
    simp [UniqueIds, board, hi.clients c]
  · intro m _ h step
    exact forall₂_congr fun c v => uniqueIds_step (h c v) step

/-- A stored post of the default board. -/
def numberedPost (id number : ℕ) (title : String) : Document Value :=
  ⟨id, [("Title", .string title), ("Content", .string ""), ("ID", .string "B Board"),
    ("PostNumber", .number number)]⟩

/-- Two posts share a `PostNumber`. -/
def numberedWorld : World :=
  ofDocs [] [numberedPost 1 0 "first", numberedPost 2 0 "second", numberedPost 3 1 "third"]
    List.nodup_nil (by decide)

/-- A page of the first load of the first board. -/
def firstPage (startNum : ℕ) : PostQuery := ⟨.page startNum, "B Board", 3, 1⟩

def pageZero : Event := .client 0 (.board 0 (.complete (firstPage 0)
  (.snapshot [numberedPost 1 0 "first", numberedPost 2 0 "second"])))

def pageOne : Event :=
  .client 0 (.board 0 (.complete (firstPage 1) (.snapshot [numberedPost 3 1 "third"])))

/-- Page 0 is complete when `NewPost` appends. -/
def appendAfterPage : List Event :=
  [.client 0 (.board 0 .onAppear), pageZero, .client 0 (.board 0 (.createPost {}))]

theorem append_after_page_keeps_ids_unique : numberedWorld.replays .plain appendAfterPage ∧
    ∀ m ∈ numberedWorld.trace .plain appendAfterPage, ∀ c v, UniqueIds (m.target.board c v) := by
  have hreplays : numberedWorld.replays .plain appendAfterPage := by decide
  refine ⟨hreplays, (ids_unique_iff initial_ofDocs (run_trace _ _ _ hreplays)).mpr ?_⟩
  intro m hm c v
  simp only [appendAfterPage, trace, List.mem_cons, List.not_mem_nil, or_false] at hm
  rcases hm with rfl | rfl | rfl
  · exact ⟨fun q r hc => (by cases hc.event), fun form hf => (by cases hf)⟩
  · refine ⟨fun q r hc => ?_, fun form hf => (by cases hf)⟩
    cases hc.event
    decide
  · refine ⟨fun q r hc => (by cases hc.event), fun form hf => ?_⟩
    cases hf
    decide

theorem shared_number_repeats_id : ∃ tr w, numberedWorld.Initial ∧
    Run (Step .plain) numberedWorld tr w ∧ ¬ ∀ m ∈ tr, ∀ c v, UniqueIds (m.target.board c v) := by
  have hrun := run_trace .plain numberedWorld [.client 0 (.board 0 .onAppear), pageZero]
    (by decide)
  have hlast := step_next .plain
    (numberedWorld.after .plain [.client 0 (.board 0 .onAppear), pageZero]) pageOne (by decide)
  refine ⟨_, _, initial_ofDocs, hrun.snoc hlast, fun hall => ?_⟩
  have hunique := hall _ (List.mem_append_right _ (List.mem_singleton_self _)) 0 0
  exact absurd hunique (by decide)

/-! ## The load the entries belong to -/

/-- No two entries came from the same document, and none from before `posts` was last
cleared. -/
structure Current (board : Board) : Prop where
  nodup : (board.origins.map Origin.document).Nodup
  current : ∀ o ∈ board.origins, o.removals = board.removals

/-- A completion that delivers posts belongs to the load started when `posts` was last
cleared. -/
def AnswersLastLoad (c v : ℕ) (m : Move World Event) : Prop :=
  ∀ q r, Completes c v q r m → q.read.delivered r ≠ [] →
    q.removals = (m.source.board c v).removals

/-- The pending queries of a board: those of the last load have its number of removals,
and no load asks for a page twice. -/
structure PendingInv (board : Board) : Prop where
  removals_le : ∀ q ∈ board.pending, q.removals ≤ board.removals
  reads_nodup : (board.pending.map fun q => (q.read, q.removals)).Nodup

theorem PendingInv.onAppear {board : Board} (h : PendingInv board)
    (currentBulletinBoard : String) (since : ℕ) :
    PendingInv (board.onAppear currentBulletinBoard since) := by
  rw [Board.onAppear_eq]
  constructor
  · intro q hq
    rcases List.mem_append.mp hq with hq | hq
    · have := h.removals_le q hq
      show q.removals ≤ board.removals + 1
      omega
    · obtain ⟨read, -, rfl⟩ := List.mem_map.mp hq
      exact le_rfl
  · have hreads : (PostRead.count :: (List.range 30).map PostRead.page).Nodup := by decide
    rw [List.map_append, List.map_map, List.nodup_append]
    refine ⟨h.reads_nodup, hreads.map fun a b hab => (Prod.mk.inj hab).1, ?_⟩
    rintro x hx y hy rfl
    obtain ⟨q, hq, rfl⟩ := List.mem_map.mp hx
    obtain ⟨read, -, hread⟩ := List.mem_map.mp hy
    have hle := h.removals_le q hq
    have heq : board.removals + 1 = q.removals := congrArg Prod.snd hread
    omega

theorem pendingInv_step (h : PendingInv (w.board c v)) (step : Step P w e w') :
    PendingInv (w'.board c v) := by
  cases step.board_move c v with
  | idle same => exact same ▸ h
  | appears _ target => exact target ▸ h.onAppear _ _
  | disappears _ target =>
    exact target ▸ ⟨fun q hq => (h.removals_le q hq).trans (Nat.le_succ _), h.reads_nodup⟩
  | createsPost form _ target => exact target ▸ ⟨h.removals_le, h.reads_nodup⟩
  | completes q r _ _ _ new _ _ target =>
    exact target ▸ ⟨fun q' hq' => h.removals_le q' (List.mem_of_mem_erase hq'),
      h.reads_nodup.sublist (List.erase_sublist.map _)⟩

/-- Boards keep the invariant of their pending queries in every run. -/
theorem pendingInv_of_reaches (hi : w₀.Initial) (h : Reaches (Step P) w₀ w) (c v : ℕ) :
    PendingInv (w.board c v) := by
  refine h.invariant (I := fun w => PendingInv (w.board c v)) ?_
    fun _ _ _ ih step => pendingInv_step ih step
  constructor <;> simp [board, hi.clients c]

/-- The invariant of a board whose completions all belong to the last load. -/
structure LoadInv (collection : Collection Value) (board : Board) : Prop
    extends Current board where
  known : ∀ o ∈ board.origins, o.document < collection.nextId
  /-- A page that the last load still waits for delivers nothing that is shown already. -/
  awaited : ∀ o ∈ board.origins, ∀ d ∈ collection.sent, d.id = o.document →
    ∀ q ∈ board.pending, q.removals = board.removals → ∀ startNum, q.read = .page startNum →
      d.get? "PostNumber" ≠ some (.number startNum)

/-- The other clients' writes do not matter to a board: new documents get new identifiers. -/
theorem LoadInv.evolves {collection collection' : Collection Value} {board : Board}
    {W : Fields Value → Prop} (h : LoadInv collection board)
    (hev : collection.Evolves W collection') : LoadInv collection' board where
  toCurrent := h.toCurrent
  known o ho := (h.known o ho).trans_le hev.nextId_le
  awaited o ho d hd hid := by
    rcases hev.mem_sent hd with hd | ⟨hnew, -⟩
    · exact h.awaited o ho d hd hid
    · have := h.known o ho
      omega

/-- A board that has just been cleared shows nothing. -/
theorem LoadInv.cleared {collection : Collection Value} {board : Board}
    (horigins : board.origins = []) : LoadInv collection board := by
  refine ⟨⟨?_, ?_⟩, ?_, ?_⟩ <;> simp [horigins]

/-- `NewPost` appends a document that no page delivers. -/
theorem LoadInv.createPost {collection : Collection Value} {board : Board}
    (h : LoadInv collection board) (currentBulletinBoard : String) (form : NewPost) :
    LoadInv (collection.add (form.postFields currentBulletinBoard))
      (board.createPost currentBulletinBoard collection.nextId form) where
  nodup := by
    show ((board.origins ++ [_]).map Origin.document).Nodup
    rw [List.map_append, List.nodup_append]
    refine ⟨h.nodup, List.nodup_singleton _, ?_⟩
    intro i hi j hj
    obtain ⟨o, ho, rfl⟩ := List.mem_map.mp hi
    have hknown := h.known o ho
    have hj' : j = collection.nextId := List.mem_singleton.mp hj
    omega
  current o ho := by
    rcases List.mem_append.mp ho with ho | ho
    · exact h.current o ho
    · obtain rfl := List.mem_singleton.mp ho
      rfl
  known o ho := by
    show o.document < collection.nextId + 1
    rcases List.mem_append.mp ho with ho | ho
    · have := h.known o ho
      omega
    · obtain rfl := List.mem_singleton.mp ho
      exact Nat.lt_succ_self _
  awaited o ho d hd hid q hq hlast startNum hread := by
    rw [Collection.sent_add] at hd
    rcases List.mem_append.mp hd with hd | hd
    · rcases List.mem_append.mp ho with ho | ho
      · exact h.awaited o ho d hd hid q hq hlast startNum hread
      · obtain rfl := List.mem_singleton.mp ho
        have hlt := Collection.id_lt_nextId hd
        have heq : d.id = collection.nextId := hid
        omega
    · obtain rfl := List.mem_singleton.mp hd
      simp [Document.get?]

/-- A page of the last load delivers documents that are not shown, and no other page of
the load will deliver. -/
theorem LoadInv.complete {collection : Collection Value} {board : Board}
    (h : LoadInv collection board) (hpending : PendingInv board) {q : PostQuery}
    {r : Response Value} (posts : List Post) (pending : q ∈ board.pending)
    (delivered : collection.Delivers q.query q.since r)
    (hlast : q.read.delivered r ≠ [] → q.removals = board.removals) :
    LoadInv collection (board.complete q r posts) where
  nodup := by
    show ((board.origins ++ q.origins r).map Origin.document).Nodup
    rw [List.map_append, List.nodup_append]
    refine ⟨h.nodup, ?_, ?_⟩
    · rw [PostQuery.origins, List.map_map]
      exact PostQuery.delivered_ids_nodup delivered
    · intro i hi j hj
      obtain ⟨o, ho, rfl⟩ := List.mem_map.mp hi
      obtain ⟨o', ho', rfl⟩ := List.mem_map.mp hj
      obtain ⟨d, hd, rfl⟩ := List.mem_map.mp ho'
      intro hid
      obtain ⟨hmem, startNum, hread, -, hnumber⟩ := PostQuery.delivered_sound delivered hd
      exact h.awaited o ho d (Collection.mem_sent_of_mem_docs hmem) hid.symm q pending
        (hlast (List.ne_nil_of_mem hd)) startNum hread hnumber
  current o ho := by
    rcases List.mem_append.mp ho with ho | ho
    · exact h.current o ho
    · obtain ⟨d, hd, rfl⟩ := List.mem_map.mp ho
      exact hlast (List.ne_nil_of_mem hd)
  known o ho := by
    rcases List.mem_append.mp ho with ho | ho
    · exact h.known o ho
    · obtain ⟨d, hd, rfl⟩ := List.mem_map.mp ho
      have hmem := (PostQuery.delivered_sound delivered hd).1
      exact Collection.id_lt_nextId (Collection.mem_sent_of_mem_docs hmem)
  awaited o ho d hd hid q' hq' hcurrent startNum' hread' hnumber' := by
    rcases List.mem_append.mp ho with ho | ho
    · have hq := List.mem_of_mem_erase hq'
      exact h.awaited o ho d hd hid q' hq hcurrent startNum' hread' hnumber'
    · obtain ⟨d', hd', rfl⟩ := List.mem_map.mp ho
      obtain ⟨hmem, startNum, hread, -, hnumber⟩ := PostQuery.delivered_sound delivered hd'
      obtain rfl : d = d' :=
        Collection.eq_of_id_eq hd (Collection.mem_sent_of_mem_docs hmem) hid
      -- the document has one number, so the two queries are for the same page
      have hnum : startNum = startNum' := by
        have := hnumber.symm.trans hnumber'
        simpa using this
      have hsame : (q'.read, q'.removals) = (q.read, q.removals) := by
        rw [hread, hread', hnum, hcurrent, hlast (List.ne_nil_of_mem hd')]
        rfl
      have hq : q' = q := List.inj_on_of_nodup_map hpending.reads_nodup (List.mem_of_mem_erase hq')
        pending hsame
      have hnodup : board.pending.Nodup := hpending.reads_nodup.of_map
      exact (hnodup.mem_erase_iff.mp hq').1 hq

theorem loadInv_step (h : LoadInv (w.store .post) (w.board c v))
    (hpending : PendingInv (w.board c v)) (step : Step P w e w')
    (hlast : AnswersLastLoad c v ⟨w, e, w'⟩) : LoadInv (w'.store .post) (w'.board c v) := by
  have hev := step.store_evolves .post
  cases step.board_move c v with
  | idle same =>
    rw [same]
    exact h.evolves hev
  | appears _ target =>
    rw [target]
    exact .cleared (by rw [Board.onAppear_eq])
  | disappears _ target =>
    rw [target]
    exact .cleared rfl
  | createsPost form _ target store =>
    rw [target, store]
    exact h.createPost _ form
  | completes q r completes pending delivered new _ _ target =>
    rw [target]
    exact (h.complete hpending _ pending delivered (hlast q r completes)).evolves hev

/-- A completion of an earlier load that delivers something leaves entries of that load. -/
theorem answersLastLoad_of_current (step : Step P w e w') (h : Current (w'.board c v)) :
    AnswersLastLoad c v ⟨w, e, w'⟩ := by
  intro q r hc hne
  cases step.board_move c v with
  | idle _ _ _ _ noCompletion => exact absurd hc (noCompletion q r)
  | appears event => cases boardEvent_unique event hc.event
  | disappears event => cases boardEvent_unique event hc.event
  | createsPost form event => cases boardEvent_unique event hc.event
  | completes q' r' completes _ _ _ _ _ target =>
    cases boardEvent_unique completes.event hc.event
    obtain ⟨d, hd⟩ := List.exists_mem_of_ne_nil _ hne
    have horigin : (⟨d.id, q.removals⟩ : Origin) ∈ (w'.board c v).origins := by
      rw [target]
      exact List.mem_append_right _ (List.mem_map_of_mem hd)
    have hcurrent := h.current _ horigin
    rw [target] at hcurrent
    exact hcurrent

/-- In a run, the entries of every board always come from distinct documents, and from the
load started when the board was last cleared or from `NewPost` since, exactly when every
completion that delivers posts belongs to that load. -/
theorem boards_current_iff (hi : w₀.Initial) (run : Run (Step P) w₀ tr w) :
    (∀ m ∈ tr, ∀ c v, Current (m.target.board c v)) ↔ ∀ m ∈ tr, ∀ c v, AnswersLastLoad c v m := by
  constructor
  · intro h m hm c v
    exact answersLastLoad_of_current (run.move_of_mem hm).2 (h m hm c v)
  · intro h m hm c v
    have h0 : ∀ c v, LoadInv (w₀.store .post) (w₀.board c v) := fun c v =>
      .cleared (by simp [board, hi.clients c])
    have hinv := run.guarded (I := fun w => ∀ c v, LoadInv (w.store .post) (w.board c v)) h0
      (fun m hreach hs step hg c v =>
        loadInv_step (hs c v) (pendingInv_of_reaches hi hreach c v) step (hg c v)) h
    exact ((hinv.2 m hm).2 c v).toCurrent

/-- Two pages of one load. -/
def singleLoad : List Event := [.client 0 (.board 0 .onAppear), pageZero, pageOne]

theorem single_load_is_current : numberedWorld.replays .plain singleLoad ∧
    ∀ m ∈ numberedWorld.trace .plain singleLoad, ∀ c v, Current (m.target.board c v) := by
  have hreplays : numberedWorld.replays .plain singleLoad := by decide
  refine ⟨hreplays, (boards_current_iff initial_ofDocs (run_trace _ _ _ hreplays)).mpr ?_⟩
  intro m hm c v q r hc hne
  simp only [singleLoad, trace, List.mem_cons, List.not_mem_nil, or_false] at hm
  rcases hm with rfl | rfl | rfl <;> cases hc.event <;> rfl

/-- The board is covered and shown again before the first load's page 0 completes. -/
def overlappingLoads : List Event :=
  [.client 0 (.board 0 .onAppear), .client 0 (.board 0 .onDisappear),
   .client 0 (.board 0 .onAppear), pageZero,
   .client 0 (.board 0 (.complete ⟨.page 0, "B Board", 3, 3⟩
    (.snapshot [numberedPost 1 0 "first", numberedPost 2 0 "second"])))]

theorem overlapping_loads_repeat_documents : ∃ tr w, numberedWorld.Initial ∧
    Run (Step .plain) numberedWorld tr w ∧
    ¬ ((w.board 0 0).origins.map Origin.document).Nodup ∧
    ¬ ∀ o ∈ (w.board 0 0).origins, o.removals = (w.board 0 0).removals :=
  ⟨_, _, initial_ofDocs, run_trace _ _ overlappingLoads (by decide), by decide, by decide⟩

/-! ## Entries and their origins -/

/-- The entry shows the stored document that it is said to come from. -/
structure CameFrom (collection : Collection Value) (p : Post) (o : Origin) : Prop where
  known : o.document < collection.nextId
  shows : ∀ d ∈ collection.sent, d.id = o.document → Shows p d

theorem CameFrom.evolves {collection collection' : Collection Value} {W : Fields Value → Prop}
    {p : Post} {o : Origin} (h : CameFrom collection p o)
    (hev : collection.Evolves W collection') : CameFrom collection' p o where
  known := h.known.trans_le hev.nextId_le
  shows d hd hid := by
    rcases hev.mem_sent hd with hd | ⟨hnew, -⟩
    · exact h.shows d hd hid
    · have := h.known
      omega

theorem cameFrom_delivered {collection : Collection Value} {new : List Post}
    {docs : List (Document Value)} (hdocs : ∀ d ∈ docs, d ∈ collection.sent)
    (h : List.Forall₂ Shows new docs) (removals : ℕ) :
    List.Forall₂ (CameFrom collection) new (docs.map fun d => ⟨d.id, removals⟩) := by
  rw [List.forall₂_map_right_iff]
  induction h with
  | nil => exact .nil
  | @cons p d new docs hp _ ih =>
    rw [List.forall_mem_cons] at hdocs
    refine .cons ⟨Collection.id_lt_nextId hdocs.1, fun d' hd' hid => ?_⟩ (ih hdocs.2)
    rw [Collection.eq_of_id_eq hd' hdocs.1 hid]
    exact hp

theorem cameFrom_step
    (h : List.Forall₂ (CameFrom (w.store .post)) (w.board c v).view.posts (w.board c v).origins)
    (step : Step P w e w') : List.Forall₂ (CameFrom (w'.store .post)) (w'.board c v).view.posts
      (w'.board c v).origins := by
  have hev := step.store_evolves .post
  have hold := h.imp fun p o hpo => hpo.evolves hev
  cases step.board_move c v with
  | idle same =>
    rw [same]
    exact hold
  | appears _ target =>
    rw [target, Board.onAppear_eq]
    exact .nil
  | disappears _ target =>
    rw [target]
    exact .nil
  | createsPost form _ target store =>
    rw [target]
    refine List.rel_append hold (.cons ⟨?_, fun d hd hid => ?_⟩ .nil)
    · rw [store]
      exact Nat.lt_succ_self _
    · rw [store, Collection.sent_add] at hd
      rcases List.mem_append.mp hd with hd | hd
      · have hlt := Collection.id_lt_nextId hd
        exact absurd hid hlt.ne
      · obtain rfl := List.mem_singleton.mp hd
        exact ⟨rfl, rfl⟩
  | completes q r _ _ delivered new shows _ target =>
    rw [target]
    refine List.rel_append hold (cameFrom_delivered (fun d hd => ?_) shows _)
    have hmem := (PostQuery.delivered_sound delivered hd).1
    exact Collection.mem_sent_of_mem_docs (hev.docs_grow.subset hmem)

/-- `origins` says where the entries come from: entry by entry, the post shows the title
and the content of the document. -/
theorem posts_cameFrom (hi : w₀.Initial) (h : Reaches (Step P) w₀ w) (c v : ℕ) :
    List.Forall₂ (CameFrom (w.store .post)) (w.board c v).view.posts (w.board c v).origins := by
  refine h.invariant (I := fun w => List.Forall₂ (CameFrom (w.store .post))
    (w.board c v).view.posts (w.board c v).origins) ?_ fun _ _ _ ih step => cameFrom_step ih step
  simp [board, hi.clients c]

end World

end Pindex
