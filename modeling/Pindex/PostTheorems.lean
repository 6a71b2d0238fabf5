import Pindex.BoardTheorems

/-!
# Posts: from Create Post to the next load

`NewPost` writes a post without a `PostNumber`, and `getPostsPaging` asks for posts by
`PostNumber`. `post_shown_iff` says when a stored post is nevertheless shown by a later
load of its board: only when something else supplies an entry with the same text.

On the way there are two facts about whole runs: what `posts` holds
(`hasEntry_iff`), and that a query is answered before it stops being pending
(`completed_of_gone`).
-/

namespace Pindex

open DocStore Transition

namespace World

variable {P : Platform} {w₀ w w' w₁ w₂ w₃ w₄ : World} {e : Event}
  {tr past mid : List (Move World Event)} {c v : ℕ} {title content : String}

/-! ## What `posts` holds -/

def HasEntry (title content : String) (posts : List Post) : Prop :=
  ∃ p ∈ posts, p.title = title ∧ p.content = content

/-- `posts` is cleared. -/
def Clears (c v : ℕ) (m : Move World Event) : Prop := Appears c v m ∨ Disappears c v m

/-- The completion delivers a document with this text. -/
def DeliversEntry (c v : ℕ) (title content : String) (q : PostQuery) (m : Move World Event) :
    Prop :=
  ∃ r, Completes c v q r m ∧ ∃ d ∈ q.read.delivered r,
    d.get? "Title" = some (.string title) ∧ d.get? "Content" = some (.string content)

/-- `NewPost` appends an entry with this text. -/
def PostsEntry (c v : ℕ) (title content : String) (m : Move World Event) : Prop :=
  ∃ form, CreatesPost c v form m ∧ form.eventName = title ∧ form.eventContent = content

def AppendsEntry (c v : ℕ) (title content : String) (m : Move World Event) : Prop :=
  PostsEntry c v title content m ∨ ∃ q, DeliversEntry c v title content q m

theorem not_createsPost_of_clears {m : Move World Event} {form : NewPost} (h : Clears c v m) :
    ¬ CreatesPost c v form m := by
  intro hf
  rcases h with happear | hdisappear
  · cases boardEvent_unique happear hf
  · cases boardEvent_unique hdisappear hf

theorem not_completes_of_clears {m : Move World Event} {q : PostQuery} {r : Response Value}
    (h : Clears c v m) : ¬ Completes c v q r m := by
  intro hc
  rcases h with happear | hdisappear
  · cases boardEvent_unique happear hc.event
  · cases boardEvent_unique hdisappear hc.event

theorem not_appendsEntry_of_clears {m : Move World Event} (h : Clears c v m) :
    ¬ AppendsEntry c v title content m := by
  rintro (⟨form, hf, -⟩ | ⟨q, r, hc, -⟩)
  · exact not_createsPost_of_clears h hf
  · exact not_completes_of_clears h hc

theorem hasEntry_append {posts new : List Post} :
    HasEntry title content (posts ++ new) ↔
      HasEntry title content posts ∨ HasEntry title content new := by
  simp only [HasEntry, List.mem_append, or_and_right, exists_or]

/-- The entries of a completion have the text of its documents. -/
theorem hasEntry_shows {new : List Post} {docs : List (Document Value)}
    (h : List.Forall₂ Shows new docs) : HasEntry title content new ↔ ∃ d ∈ docs,
      d.get? "Title" = some (.string title) ∧ d.get? "Content" = some (.string content) := by
  obtain ⟨hdocs, hnew⟩ := forall₂_shows h
  constructor
  · rintro ⟨p, hp, rfl, rfl⟩
    obtain ⟨d, hd, hshows⟩ := hnew p hp
    exact ⟨d, hd, hshows.title, hshows.content⟩
  · rintro ⟨d, hd, ht, hc⟩
    obtain ⟨p, hp, hshows⟩ := hdocs d hd
    have htitle := hshows.title.symm.trans ht
    have hcontent := hshows.content.symm.trans hc
    simp only [Option.some.injEq, Value.string.injEq] at htitle hcontent
    exact ⟨p, hp, htitle, hcontent⟩

/-- What one step does to the entries with a text. -/
theorem hasEntry_step (step : Step P w e w') :
    HasEntry title content (w'.board c v).view.posts ↔ AppendsEntry c v title content ⟨w, e, w'⟩ ∨
      (¬ Clears c v ⟨w, e, w'⟩ ∧ HasEntry title content (w.board c v).view.posts) := by
  cases step.board_move c v with
  | idle same noAppear noDisappear noPost noCompletion =>
    have hnoAppend : ¬ AppendsEntry c v title content ⟨w, e, w'⟩ := by
      rintro (⟨form, hf, -⟩ | ⟨q, r, hc, -⟩)
      · exact noPost form hf
      · exact noCompletion q r hc
    have hnoClear : ¬ Clears c v ⟨w, e, w'⟩ := not_or.mpr ⟨noAppear, noDisappear⟩
    rw [same]
    simp [hnoAppend, hnoClear]
  | appears event target =>
    rw [target, Board.onAppear_eq]
    refine iff_of_false (by simp [HasEntry]) ?_
    rintro (happends | ⟨hstays, -⟩)
    · exact not_appendsEntry_of_clears (.inl event) happends
    · exact hstays (.inl event)
  | disappears event target =>
    rw [target]
    refine iff_of_false (by simp [HasEntry, Board.onDisappear, BulletinBoardView.onDisappear]) ?_
    rintro (happends | ⟨hstays, -⟩)
    · exact not_appendsEntry_of_clears (.inr event) happends
    · exact hstays (.inr event)
  | createsPost form event target =>
    have hnoClear : ¬ Clears c v ⟨w, e, w'⟩ := fun h => not_createsPost_of_clears h event
    have happend : AppendsEntry c v title content ⟨w, e, w'⟩ ↔
        form.eventName = title ∧ form.eventContent = content := by
      constructor
      · rintro (⟨form', hf, htext⟩ | ⟨q, r, hc, -⟩)
        · cases boardEvent_unique event hf
          exact htext
        · cases boardEvent_unique event hc.event
      · intro htext
        exact .inl ⟨form, event, htext⟩
    rw [target, happend]
    show HasEntry title content (_ ++ [_]) ↔ _
    rw [hasEntry_append, or_comm]
    simp [HasEntry, hnoClear]
  | completes q r completes _ _ new shows _ target =>
    have hnoClear : ¬ Clears c v ⟨w, e, w'⟩ := fun h => not_completes_of_clears h completes
    have happend : AppendsEntry c v title content ⟨w, e, w'⟩ ↔ HasEntry title content new := by
      rw [hasEntry_shows shows]
      constructor
      · rintro (⟨form, hf, -⟩ | ⟨q', r', hc, htext⟩)
        · cases boardEvent_unique completes.event hf
        · cases boardEvent_unique completes.event hc.event
          exact htext
      · intro htext
        exact .inr ⟨q, r, completes, htext⟩
    rw [target, happend]
    show HasEntry title content (_ ++ new) ↔ _
    rw [hasEntry_append, or_comm]
    simp [hnoClear]

/-- An entry with a text is shown exactly when one was appended since `posts` was last
cleared. -/
theorem hasEntry_iff (hi : w₀.Initial) (run : Run (Step P) w₀ past w) :
    HasEntry title content (w.board c v).view.posts ↔
      Since (AppendsEntry c v title content) (fun m => ¬ Clears c v m) past := by
  induction run with
  | nil => simp [HasEntry, board, hi.clients c]
  | snoc run step ih => rw [since_snoc, ← ih, hasEntry_step step]

/-! ## The queries of a load -/

/-- While `posts` is not cleared, queries only stop being pending. -/
theorem pending_subset (run : Run (Step P) w mid w') (hkept : ∀ m ∈ mid, ¬ Clears c v m) :
    (w'.board c v).pending ⊆ (w.board c v).pending ∧
      (w'.board c v).removals = (w.board c v).removals := by
  induction run with
  | nil => exact ⟨fun _ h => h, rfl⟩
  | @snoc u u' mid e run step ih =>
    obtain ⟨hsub, hremovals⟩ := ih fun m hm => hkept m (List.mem_append_left _ hm)
    have hlast := hkept ⟨u, e, u'⟩ (by simp)
    cases step.board_move c v with
    | idle same =>
      rw [same]
      exact ⟨hsub, hremovals⟩
    | appears event => exact absurd (.inl event) hlast
    | disappears event => exact absurd (.inr event) hlast
    | createsPost form _ target =>
      rw [target]
      exact ⟨hsub, hremovals⟩
    | completes q r _ _ _ new _ _ target =>
      rw [target]
      exact ⟨fun q' hq' => hsub (List.mem_of_mem_erase hq'), hremovals⟩

/-- A query that is not pending any more was answered. -/
theorem completed_of_gone (run : Run (Step P) w mid w') {q : PostQuery}
    (hpending : q ∈ (w.board c v).pending) (hgone : q ∉ (w'.board c v).pending) :
    ∃ m ∈ mid, ∃ r, Completes c v q r m ∧ (m.source.store .post).Delivers q.query q.since r := by
  induction run with
  | nil => exact absurd hpending hgone
  | @snoc u u' mid e run step ih =>
    by_cases hbefore : q ∈ (u.board c v).pending
    · -- it was answered by the last move
      cases step.board_move c v with
      | idle same =>
        rw [same] at hgone
        exact absurd hbefore hgone
      | appears _ target =>
        rw [target] at hgone
        exact absurd (List.mem_append_left _ hbefore) hgone
      | disappears _ target =>
        rw [target] at hgone
        exact absurd hbefore hgone
      | createsPost form _ target =>
        rw [target] at hgone
        exact absurd hbefore hgone
      | completes q' r completes _ delivered _ _ _ target =>
        have hsame : q = q' := by
          by_contra hne
          rw [target] at hgone
          exact hgone ((List.mem_erase_of_ne hne).mpr hbefore)
        exact ⟨_, List.mem_append_right _ (List.mem_singleton_self _), r, hsame ▸ completes,
          hsame ▸ delivered⟩
    · obtain ⟨m, hm, hr⟩ := ih hbefore
      exact ⟨m, List.mem_append_left _ hm, hr⟩

/-- After an appearance, the pending queries with the new number of removals are the count
query and the pages 0 to 29 of the current board. -/
theorem load_queries (hi : w₀.Initial) (hreach : Reaches (Step P) w₀ w)
    (load : Step P w (.client c (.board v .onAppear)) w') {q : PostQuery}
    (hlast : q.removals = (w'.board c v).removals) : q ∈ (w'.board c v).pending ↔
      q.board = (w.clients c).currentBulletinBoard ∧ q.since = (w.store .post).docs.length ∧
      (q.read = .count ∨ ∃ startNum < 30, q.read = .page startNum) := by
  rw [load.board_onAppear, Board.onAppear_eq] at hlast ⊢
  have hold : q ∉ (w.board c v).pending := by
    intro hq
    have hle := (pendingInv_of_reaches hi hreach c v).removals_le q hq
    have heq : q.removals = (w.board c v).removals + 1 := hlast
    omega
  obtain ⟨read, board, since, removals⟩ := q
  simp only [List.mem_append, hold, false_or, List.mem_map, List.mem_cons, PostQuery.mk.injEq,
    List.mem_range] at hlast ⊢
  constructor
  · rintro ⟨read, hread, rfl, rfl, rfl, -⟩
    refine ⟨rfl, rfl, hread.imp id ?_⟩
    rintro ⟨startNum, hlt, rfl⟩
    exact ⟨startNum, hlt, rfl⟩
  · rintro ⟨rfl, rfl, hread⟩
    refine ⟨read, hread.imp id ?_, rfl, rfl, rfl, hlast.symm⟩
    rintro ⟨startNum, hlt, rfl⟩
    exact ⟨startNum, hlt, rfl⟩

/-! ## Stored posts -/

/-- The app never writes a `PostNumber`: documents that have one were there at the start. -/
theorem numbered_mem_docs (hi : w₀.Initial) (hreach : Reaches (Step P) w₀ w)
    {d : Document Value} (hd : d ∈ (w.store .post).sent)
    (hnumber : d.get? "PostNumber" ≠ none) : d ∈ (w₀.store .post).docs := by
  have hinv := hreach.invariant (I := fun w => ∀ d ∈ (w.store .post).sent,
    d.get? "PostNumber" ≠ none → d ∈ (w₀.store .post).docs) ?_ ?_
  · exact hinv d hd hnumber
  · intro d hd _
    rw [Collection.sent, hi.inFlight .post, List.append_nil] at hd
    exact hd
  · intro u e u' ih step d hd hnumber
    rcases (step.store_evolves .post).mem_sent hd with hd | ⟨-, form, board, hdata⟩
    · exact ih d hd hnumber
    · rw [Document.get?, hdata] at hnumber
      exact absurd (NewPost.postFields_postNumber board form) hnumber

/-! ## What a load shows -/

/-- A document of the board with this text, under a `PostNumber` that loads ask for. -/
structure PagedPost (board title content : String) (d : Document Value) : Prop where
  board : d.get? "ID" = some (.string board)
  number : ∃ startNum : ℕ, startNum < 30 ∧ d.get? "PostNumber" = some (.number startNum)
  title : d.get? "Title" = some (.string title)
  content : d.get? "Content" = some (.string content)

/-- `NewPost`, or a page of another load, appends an entry with this text. -/
def AppendsBesides (c v removals : ℕ) (title content : String) (m : Move World Event) : Prop :=
  PostsEntry c v title content m ∨
    ∃ q, q.removals ≠ removals ∧ DeliversEntry c v title content q m

/-- The load started by a move has run to its end: `posts` was not cleared since, its
completions were called without an error, and none is outstanding. -/
structure Loaded (c v : ℕ) (w : World) (mid : List (Move World Event)) (w' : World) : Prop where
  kept : ∀ m ∈ mid, ¬ Clears c v m
  noError : ∀ m ∈ mid, ∀ q r, m.event = .client c (.board v (.complete q r)) →
    q.removals = (w.board c v).removals → r.err = none
  completed : ∀ q ∈ (w'.board c v).pending, q.removals ≠ (w.board c v).removals

section Load

variable (hi : w₀.Initial) (hreach : Reaches (Step P) w₀ w₂)
  (load : Step P w₂ (.client c (.board v .onAppear)) w₃) (run : Run (Step P) w₃ mid w₄)
  (hloaded : Loaded c v w₃ mid w₄)
include hi hreach load run hloaded

/-- A page of the load delivers only posts that the load was issued for. -/
theorem pagedPost_of_delivers {m : Move World Event} (hm : m ∈ mid) {q : PostQuery}
    (hlast : q.removals = (w₃.board c v).removals) (h : DeliversEntry c v title content q m) :
    ∃ d ∈ (w₂.store .post).docs,
      PagedPost (w₂.clients c).currentBulletinBoard title content d := by
  obtain ⟨r, hc, d, hd, ht, hcontent⟩ := h
  obtain ⟨before, hbefore, hrun⟩ := run.exists_past hm
  have hstep := (run.of_past hbefore).2
  have hsource : Reaches (Step P) w₂ m.source := (Reaches.refl w₂).step load |>.trans hrun.reaches
  cases hstep.board_move c v with
  | idle _ _ _ _ noCompletion => exact absurd hc (noCompletion q r)
  | appears event => cases boardEvent_unique event hc.event
  | disappears event => cases boardEvent_unique event hc.event
  | createsPost form event => cases boardEvent_unique event hc.event
  | completes q' r' completes pending delivered =>
    cases boardEvent_unique completes.event hc.event
    obtain ⟨hmem, startNum, hread, hboard, hnumber⟩ := PostQuery.delivered_sound delivered hd
    -- the query is one of those the load has issued
    have hissued : q ∈ (w₃.board c v).pending :=
      (pending_subset hrun fun m' hm' => hloaded.kept m' (hbefore.subset
        (List.mem_append_left _ hm'))).1 pending
    obtain ⟨hq, -, hcount | ⟨page, hlt, hpage⟩⟩ := (load_queries hi hreach load hlast).mp hissued
    · rw [hread] at hcount
      cases hcount
    · rw [hread] at hpage
      cases hpage
      refine ⟨d, ?_, hq ▸ hboard, ⟨startNum, hlt, hnumber⟩, ht, hcontent⟩
      have hstart := numbered_mem_docs hi (hreach.trans hsource)
        (Collection.mem_sent_of_mem_docs hmem) (by simp [hnumber])
      obtain ⟨tr, hrun₂⟩ := hreach
      exact (docs_grow hrun₂ .post).subset hstart

/-- A post that the load was issued for is delivered by one of its pages. -/
theorem delivers_of_pagedPost {d : Document Value} (hd : d ∈ (w₂.store .post).docs)
    (hpaged : PagedPost (w₂.clients c).currentBulletinBoard title content d) :
    ∃ m ∈ mid, ∃ q, DeliversEntry c v title content q m := by
  obtain ⟨startNum, hlt, hnumber⟩ := hpaged.number
  let q : PostQuery := ⟨.page startNum, (w₂.clients c).currentBulletinBoard,
    (w₂.store .post).docs.length, (w₃.board c v).removals⟩
  have hissued : q ∈ (w₃.board c v).pending :=
    (load_queries hi hreach load rfl).mpr ⟨rfl, rfl, .inr ⟨startNum, hlt, rfl⟩⟩
  have hgone : q ∉ (w₄.board c v).pending := fun h => hloaded.completed q h rfl
  obtain ⟨m, hm, r, hc, hdelivers⟩ := completed_of_gone run hissued hgone
  have herr := hloaded.noError m hm q r hc.event rfl
  have hanswers := PostQuery.answers_delivered hdelivers herr rfl
  -- the collection has only grown since the load was issued
  obtain ⟨before, hbefore, hrun⟩ := run.exists_past hm
  have hsource : Reaches (Step P) w₂ m.source := (Reaches.refl w₂).step load |>.trans hrun.reaches
  obtain ⟨tr, hrun₂⟩ := hsource
  have hold : (m.source.store .post).docs.take (w₂.store .post).docs.length =
      (w₂.store .post).docs := (List.prefix_iff_eq_take.mp (docs_grow hrun₂ .post)).symm
  have hmatch : q.query.Matches d := pageQuery_matches.mpr ⟨hpaged.board, hnumber⟩
  exact ⟨m, hm, q, r, hc, d, hanswers.complete (hold.symm ▸ hd) hmatch, hpaged.title,
    hpaged.content⟩

/-- After a load, a text is shown exactly when a document of the board has it under a
number that loads ask for, or something besides the load has appended it. -/
theorem load_shows_iff : HasEntry title content (w₄.board c v).view.posts ↔
    (∃ d ∈ (w₂.store .post).docs,
      PagedPost (w₂.clients c).currentBulletinBoard title content d) ∨
    ∃ m ∈ mid, AppendsBesides c v (w₃.board c v).removals title content m := by
  obtain ⟨past, hrun₂⟩ := hreach
  have hall := (hrun₂.snoc load).append run
  have hclears : Clears c v ⟨w₂, .client c (.board v .onAppear), w₃⟩ := .inl rfl
  have hnoAppend : ¬ AppendsEntry c v title content ⟨w₂, .client c (.board v .onAppear), w₃⟩ := by
    rintro (⟨form, hf, -⟩ | ⟨q, r, hc, -⟩)
    · cases hf
    · cases hc.event
  rw [hasEntry_iff hi hall, since_of_reset hnoAppend (not_not_intro hclears) hloaded.kept]
  constructor
  · rintro ⟨m, hm, hpost | ⟨q, hdelivers⟩⟩
    · exact .inr ⟨m, hm, .inl hpost⟩
    · by_cases hlast : q.removals = (w₃.board c v).removals
      · exact .inl (pagedPost_of_delivers hi hrun₂.reaches load run hloaded hm hlast hdelivers)
      · exact .inr ⟨m, hm, .inr ⟨q, hlast, hdelivers⟩⟩
  · rintro (⟨d, hd, hpaged⟩ | ⟨m, hm, hpost | ⟨q, -, hdelivers⟩⟩)
    · obtain ⟨m, hm, hdelivers⟩ := delivers_of_pagedPost hi hrun₂.reaches load run hloaded hd hpaged
      exact ⟨m, hm, .inr hdelivers⟩
    · exact ⟨m, hm, .inl hpost⟩
    · exact ⟨m, hm, .inr ⟨q, hdelivers⟩⟩

end Load

/-- A post that `NewPost` has stored is shown by a later load of its board exactly when
another document of the board has the same text and a `PostNumber` below 30, or something
besides the load has appended an entry with this text. -/
theorem post_shown_iff (hi : w₀.Initial) (hreach : Reaches (Step P) w₀ w) {form : NewPost}
    {c' v' : ℕ} (create : Step P w (.client c (.board v (.createPost form))) w₁)
    (later : Reaches (Step P) w₁ w₂) {post : Document Value}
    (hid : post.id = (w.store .post).nextId) (stored : post ∈ (w₂.store .post).docs)
    (sameBoard : (w₂.clients c').currentBulletinBoard = (w.clients c).currentBulletinBoard)
    (load : Step P w₂ (.client c' (.board v' .onAppear)) w₃) (run : Run (Step P) w₃ mid w₄)
    (hloaded : Loaded c' v' w₃ mid w₄) :
    HasEntry form.eventName form.eventContent (w₄.board c' v').view.posts ↔
      (∃ d ∈ (w₂.store .post).docs, d ≠ post ∧
        PagedPost (w.clients c).currentBulletinBoard form.eventName form.eventContent d) ∨
      ∃ m ∈ mid, AppendsBesides c' v' (w₃.board c' v').removals form.eventName
        form.eventContent m := by
  have hreach₂ : Reaches (Step P) w₀ w₂ := (hreach.step create).trans later
  rw [load_shows_iff hi hreach₂ load run hloaded, sameBoard]
  refine or_congr_left (exists_congr fun d => and_congr_right fun _ => ?_)
  constructor
  · intro hpaged
    refine ⟨?_, hpaged⟩
    rintro rfl
    -- the post itself has no number
    have hdata := added_data create.store_createPost later
      (Collection.mem_sent_of_mem_docs stored) hid
    obtain ⟨startNum, -, hnumber⟩ := hpaged.number
    rw [Document.get?, hdata, NewPost.postFields_postNumber] at hnumber
    cases hnumber
  · exact And.right

/-- The post of the runs below. -/
def hello : NewPost := { eventName := "Hello", eventContent := "" }

/-- The completions of the first load of a board, started when `since` posts were stored. -/
def loadCompletions (since : ℕ) (answer : PostRead → List (Document Value)) : List Event :=
  (PostRead.count :: (List.range 30).map PostRead.page).map fun read =>
    .client 0 (.board 0 (.complete ⟨read, "B Board", since, 1⟩ (.snapshot (answer read))))

theorem loaded_completions {w w' : World} {since : ℕ} {answer : PostRead → List (Document Value)}
    (hpending : (w'.board 0 0).pending = []) :
    Loaded 0 0 w (w.trace .plain (loadCompletions since answer)) w' where
  kept m hm := by
    have he := event_mem_of_mem_trace hm
    obtain ⟨read, -, he⟩ := List.mem_map.mp he
    rintro (h | h)
    · cases he.trans h
    · cases he.trans h
  noError m hm q r hevent _ := by
    have he := event_mem_of_mem_trace hm
    obtain ⟨read, -, he⟩ := List.mem_map.mp he
    cases he.trans hevent
    rfl
  completed := by simp [hpending]

/-- A post is created and stored, and its board is shown. -/
def helloEvents (id : ℕ) : List Event :=
  [.client 0 (.board 0 (.createPost hello)), .commit .post ⟨id, hello.postFields "B Board"⟩]

/-- The board has a numbered post with the same text. -/
def helloWorld : World :=
  ofDocs [] [numberedPost 1 0 "Hello"] List.nodup_nil (List.nodup_singleton _)

theorem numbered_hello_is_shown :
    let w₃ := (helloWorld.after .plain (helloEvents 2)).next .plain (.client 0 (.board 0 .onAppear))
    let answer : PostRead → List (Document Value)
      | .count => [numberedPost 1 0 "Hello", ⟨2, hello.postFields "B Board"⟩]
      | .page startNum => if startNum = 0 then [numberedPost 1 0 "Hello"] else []
    HasEntry "Hello" "" ((w₃.after .plain (loadCompletions 2 answer)).board 0 0).view.posts := by
  intro w₃ answer
  have hcreate := step_next .plain helloWorld (.client 0 (.board 0 (.createPost hello))) (by decide)
  have hcommit := step_next .plain
    (helloWorld.next .plain (.client 0 (.board 0 (.createPost hello))))
    (.commit .post ⟨2, hello.postFields "B Board"⟩) (by decide)
  have hload := step_next .plain (helloWorld.after .plain (helloEvents 2))
    (.client 0 (.board 0 .onAppear)) (by decide)
  have hrun := run_trace .plain w₃ (loadCompletions 2 answer) (by decide)
  have hid : (⟨2, hello.postFields "B Board"⟩ : Document Value).id =
      (helloWorld.store .post).nextId := rfl
  have hiff := post_shown_iff initial_ofDocs (Reaches.refl helloWorld) hcreate
    ((Reaches.refl _).step hcommit) hid (by decide) rfl hload hrun (loaded_completions (by decide))
  exact hiff.mpr (.inl ⟨numberedPost 1 0 "Hello", by decide, by decide,
    ⟨rfl, ⟨0, by decide, rfl⟩, rfl, rfl⟩⟩)

/-- From empty collections, the board stays empty after the load. -/
theorem hello_is_not_shown : ∃ w₁ w₂ w₃ mid w₄, empty.Initial ∧
    Step .plain empty (.client 0 (.board 0 (.createPost hello))) w₁ ∧
    Step .plain w₁ (.commit .post ⟨1, hello.postFields "B Board"⟩) w₂ ∧
    Step .plain w₂ (.client 0 (.board 0 .onAppear)) w₃ ∧ Run (Step .plain) w₃ mid w₄ ∧
    Loaded 0 0 w₃ mid w₄ ∧ ¬ HasEntry "Hello" "" (w₄.board 0 0).view.posts := by
  let answer : PostRead → List (Document Value)
    | .count => [⟨1, hello.postFields "B Board"⟩]
    | .page _ => []
  have hcreate := step_next .plain empty (.client 0 (.board 0 (.createPost hello))) (by decide)
  have hcommit := step_next .plain (empty.next .plain (.client 0 (.board 0 (.createPost hello))))
    (.commit .post ⟨1, hello.postFields "B Board"⟩) (by decide)
  have hload := step_next .plain (empty.after .plain (helloEvents 1))
    (.client 0 (.board 0 .onAppear)) (by decide)
  have hrun := run_trace .plain ((empty.after .plain (helloEvents 1)).next .plain
    (.client 0 (.board 0 .onAppear))) (loadCompletions 1 answer) (by decide)
  refine ⟨_, _, _, _, _, initial_empty, hcreate, hcommit, hload, hrun,
    loaded_completions (by decide), ?_⟩
  have hposts : (((empty.after .plain (helloEvents 1)).next .plain
    (.client 0 (.board 0 .onAppear))).after .plain (loadCompletions 1 answer)
      |>.board 0 0).view.posts = [] := by decide
  rw [hposts]
  simp [HasEntry]

end World

end Pindex
