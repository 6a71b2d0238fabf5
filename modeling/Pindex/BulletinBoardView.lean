import Mathlib.Data.List.Basic
import Mathlib.Data.List.Forall2
import Mathlib.Data.Rat.Cast.CharZero
import Mathlib.Tactic.NormNum
import Pindex.Platform

/-!
# `BulletinBoardView` and `NewPost`: reading and writing posts

On every appearance the board removes all posts and issues one count query and 30 page
queries, one for each value of `PostNumber` from 0 to 29; the completions append what
they are given. On every disappearance it removes all posts again. `NewPost` appends its
post to the same array at the tap and sends the document.

`Board` is one `BulletinBoardView` with its pending queries. It carries two pieces of
bookkeeping that the code does not have: how often `posts` has been cleared, and where
each entry of `posts` came from (`origins`).
-/

namespace Pindex

open DocStore

structure Post where
  title : String
  content : String
  id : ℕ
deriving DecidableEq, Repr

/-- `Post.init` with its two forced casts; `none` is a trap. -/
def Post.ofDocument (id : ℕ) (document : Document Value) : Option Post := do
  let title ← stringField document "Title"
  let content ← stringField document "Content"
  some { title, content, id }

/-- The entry shows the title and the content of the document. -/
structure Shows (p : Post) (document : Document Value) : Prop where
  title : document.get? "Title" = some (.string p.title)
  content : document.get? "Content" = some (.string p.content)

theorem Post.ofDocument_eq_some {id : ℕ} {document : Document Value} {p : Post} :
    Post.ofDocument id document = some p ↔ Shows p document ∧ p.id = id := by
  simp only [Post.ofDocument, Option.bind_eq_bind, Option.bind_eq_some_iff, stringField_eq_some,
    Option.some.injEq]
  constructor
  · rintro ⟨title, ht, content, hc, rfl⟩
    exact ⟨⟨ht, hc⟩, rfl⟩
  · rintro ⟨⟨ht, hc⟩, rfl⟩
    exact ⟨p.title, ht, p.content, hc, rfl⟩

/-- Each of the documents is shown by one of the entries, and each of the entries shows one
of the documents. -/
theorem forall₂_shows {new : List Post} {documents : List (Document Value)}
    (h : List.Forall₂ Shows new documents) :
    (∀ d ∈ documents, ∃ p ∈ new, Shows p d) ∧ ∀ p ∈ new, ∃ d ∈ documents, Shows p d := by
  induction h with
  | nil => simp
  | cons hp _ ih =>
    simp only [List.forall_mem_cons, List.exists_mem_cons_iff]
    exact ⟨⟨.inl hp, fun d hd => .inr (ih.1 d hd)⟩, .inl hp, fun p hp => .inr (ih.2 p hp)⟩

/-! ## Queries -/

/-- `collection("Post").whereField("ID", isEqualTo: currentBulletinBoard)` -/
def boardQuery (currentBulletinBoard : String) : Query Value :=
  Query.all.whereField "ID" (.string currentBulletinBoard)

/-- The board's posts with one `PostNumber`. -/
def pageQuery (currentBulletinBoard : String) (startNum : ℕ) : Query Value :=
  (boardQuery currentBulletinBoard).whereField "PostNumber" (.number startNum)

/-- The queries of a load: the one of `getNumberOfPosts` and those of
`getPostsPaging`. -/
inductive PostRead where
  | count
  | page (startNum : ℕ)
deriving DecidableEq, Repr

def PostRead.query (currentBulletinBoard : String) : PostRead → Query Value
  | .count => boardQuery currentBulletinBoard
  | .page startNum => pageQuery currentBulletinBoard startNum

@[simp] theorem pageQuery_matches {currentBulletinBoard : String} {startNum : ℕ}
    {d : Document Value} : (pageQuery currentBulletinBoard startNum).Matches d ↔
      d.get? "ID" = some (.string currentBulletinBoard) ∧
      d.get? "PostNumber" = some (.number startNum) := by
  simp [pageQuery, boardQuery]

/-! ## Completions -/

/-- The loop over a snapshot: one entry per document, numbered from `firstID`. -/
def appendPosts (documents : List (Document Value)) (posts : List Post) (firstID : ℕ) :
    Option (List Post) :=
  (documents.foldlM
    (fun (state : List Post × ℕ) document =>
      (Post.ofDocument state.2 document).map fun p => (state.1 ++ [p], state.2 + 1))
    (posts, firstID)).map Prod.fst

/-- The completions that read posts differ only in the first `id`. -/
def readPosts (firstID : ℕ) (r : Response Value) (posts : List Post) : Option (List Post) :=
  match r.err with
  | some _ => some posts
  | none => do
    -- `querySnapshot!`
    let documents ← r.querySnapshot
    appendPosts documents posts firstID

/-- The completion in `getPosts`, whose `count` starts at 0. -/
def getPostsCompletion (r : Response Value) (posts : List Post) : Option (List Post) :=
  readPosts 0 r posts

/-- The completion in `getPostsPaging`, whose `postID` starts at `startNum`. -/
def getPostsPagingCompletion (startNum : ℕ) (r : Response Value) (posts : List Post) :
    Option (List Post) :=
  readPosts startNum r posts

/-- The completion in `getNumberOfPosts`: it counts into a local variable that has been
returned already. -/
def getNumberOfPostsCompletion (r : Response Value) (numOfPosts : ℕ) : Option ℕ :=
  match r.err with
  | some _ => some numOfPosts
  | none => do
    let documents ← r.querySnapshot
    some (documents.foldl (fun numOfPosts _ => numOfPosts + 1) numOfPosts)

/-- The completion of a load's query, on `posts`. -/
def PostRead.completion (r : Response Value) (posts : List Post) : PostRead → Option (List Post)
  | .count => (getNumberOfPostsCompletion r 0).map fun _ => posts
  | .page startNum => getPostsPagingCompletion startNum r posts

/-- The documents a completion turns into entries. -/
def PostRead.delivered (r : Response Value) : PostRead → List (Document Value)
  | .count => []
  | .page _ => if r.err = none then r.querySnapshot.getD [] else []

/-- The `id` of the first entry of a completion. -/
def PostRead.firstID : PostRead → ℕ
  | .count => 0
  | .page startNum => startNum

theorem foldlM_appendPosts (documents : List (Document Value)) (posts : List Post)
    (firstID : ℕ) (result : List Post × ℕ) :
    documents.foldlM
      (fun (state : List Post × ℕ) document =>
        (Post.ofDocument state.2 document).map fun p => (state.1 ++ [p], state.2 + 1))
      (posts, firstID) = some result ↔
    ∃ new, result = (posts ++ new, firstID + documents.length) ∧
      List.Forall₂ Shows new documents ∧
      new.map Post.id = List.range' firstID documents.length := by
  induction documents generalizing posts firstID with
  | nil =>
    constructor
    · intro h
      exact ⟨[], by simpa using (Option.some.inj h).symm, .nil, rfl⟩
    · rintro ⟨new, rfl, hnew, -⟩
      cases hnew
      simp
  | cons document documents ih =>
    simp only [List.foldlM_cons, Option.bind_eq_bind, Option.bind_eq_some_iff,
      Option.map_eq_some_iff, Post.ofDocument_eq_some]
    constructor
    · rintro ⟨_, ⟨p, ⟨hp, hid⟩, rfl⟩, hrest⟩
      obtain ⟨new, rfl, hnew, hids⟩ := (ih _ _).mp hrest
      refine ⟨p :: new, ?_, .cons hp hnew, ?_⟩
      · simp only [List.append_assoc, List.singleton_append, List.length_cons, Prod.mk.injEq,
          true_and]
        omega
      · rw [List.map_cons, hids, hid, List.length_cons, List.range'_succ]
    · rintro ⟨new, rfl, hnew, hids⟩
      cases hnew with
      | cons hp hnew =>
        rename_i p new
        rw [List.length_cons, List.range'_succ, List.map_cons, List.cons.injEq] at hids
        refine ⟨_, ⟨p, ⟨hp, hids.1⟩, rfl⟩, (ih _ _).mpr ⟨new, ?_, hnew, hids.2⟩⟩
        simp only [List.append_assoc, List.singleton_append, List.length_cons, Prod.mk.injEq,
          true_and]
        omega

/-- The loop runs through exactly when every document casts, and then appends one entry
for each, in order, numbered from `firstID`. -/
theorem appendPosts_eq_some {documents : List (Document Value)} {posts posts' : List Post}
    {firstID : ℕ} : appendPosts documents posts firstID = some posts' ↔
      ∃ new, posts' = posts ++ new ∧ List.Forall₂ Shows new documents ∧
        new.map Post.id = List.range' firstID documents.length := by
  simp only [appendPosts, Option.map_eq_some_iff, foldlM_appendPosts]
  constructor
  · rintro ⟨_, ⟨new, rfl, hnew, hids⟩, rfl⟩
    exact ⟨new, rfl, hnew, hids⟩
  · rintro ⟨new, rfl, hnew, hids⟩
    exact ⟨_, ⟨new, rfl, hnew, hids⟩, rfl⟩

/-- A document that both casts of `Post.init` accept. -/
def PostCasts (document : Document Value) : Prop :=
  ∃ title content, document.get? "Title" = some (.string title) ∧
    document.get? "Content" = some (.string content)

theorem appendPosts_isSome {documents : List (Document Value)}
    (h : ∀ document ∈ documents, PostCasts document) (posts : List Post) (firstID : ℕ) :
    (appendPosts documents posts firstID).isSome := by
  suffices hex : ∃ new, List.Forall₂ Shows new documents ∧
      new.map Post.id = List.range' firstID documents.length by
    obtain ⟨new, hnew, hids⟩ := hex
    exact Option.isSome_iff_exists.mpr ⟨_, appendPosts_eq_some.mpr ⟨new, rfl, hnew, hids⟩⟩
  induction documents generalizing firstID with
  | nil => exact ⟨[], .nil, rfl⟩
  | cons document documents ih =>
    obtain ⟨title, content, ht, hc⟩ := h document (by simp)
    obtain ⟨new, hnew, hids⟩ := ih (fun d hd => h d (by simp [hd])) (firstID + 1)
    refine ⟨⟨title, content, firstID⟩ :: new, .cons ⟨ht, hc⟩ hnew, ?_⟩
    rw [List.map_cons, hids, List.length_cons, List.range'_succ]

namespace PostRead

variable {read : PostRead} {r : Response Value} {posts posts' : List Post}

/-- What a completion appends. -/
theorem completion_appends (h : read.completion r posts = some posts') :
    ∃ new, posts' = posts ++ new ∧ List.Forall₂ Shows new (read.delivered r) ∧
      new.map Post.id = List.range' read.firstID (read.delivered r).length := by
  cases read with
  | count =>
    simp only [completion, Option.map_eq_some_iff] at h
    obtain ⟨-, -, rfl⟩ := h
    exact ⟨[], by simp, .nil, rfl⟩
  | page startNum =>
    simp only [completion, getPostsPagingCompletion, readPosts] at h
    split at h
    · rename_i e he
      obtain rfl := Option.some.inj h
      exact ⟨[], by simp, by simp [delivered, he], by simp [delivered, he]⟩
    · rename_i herr
      simp only [Option.bind_eq_bind, Option.bind_eq_some_iff] at h
      obtain ⟨documents, hdocs, happ⟩ := h
      have hdel : (PostRead.page startNum).delivered r = documents := by
        simp [delivered, herr, hdocs]
      rw [hdel]
      exact appendPosts_eq_some.mp happ

/-- A completion that is called without an error is called with a snapshot, and then it
runs through when the documents it turns into entries cast. -/
theorem completion_isSome (hsnapshot : r.err = none → r.querySnapshot ≠ none)
    (hcasts : ∀ document ∈ read.delivered r, PostCasts document) :
    (read.completion r posts).isSome := by
  cases herr : r.err with
  | some e =>
    cases read <;>
      simp [completion, getNumberOfPostsCompletion, getPostsPagingCompletion, readPosts, herr]
  | none =>
    obtain ⟨documents, hdocs⟩ := Option.ne_none_iff_exists'.mp (hsnapshot herr)
    cases read with
    | count => simp [completion, getNumberOfPostsCompletion, herr, hdocs]
    | page startNum =>
      simp only [completion, getPostsPagingCompletion, readPosts, herr, hdocs,
        Option.bind_eq_bind, Option.bind_some]
      refine appendPosts_isSome (fun d hd => hcasts d ?_) _ _
      simpa [delivered, herr, hdocs] using hd

end PostRead

/-! ## The view -/

/-- The part of a board's state that the handlers below touch; `mapAction` is bound to
`MapView`'s `action`. -/
structure BulletinBoardView where
  mapAction : Option ℤ := some 1
  posts : List Post := []

/-- The step of the `while` loop in `loadPostsWithPaging`. -/
def pagingAmount : ℕ := 1

/-- `getPostsPaging(startNum:endNum:)` ignores `endNum`. -/
def getPostsPaging (startNum _endNum : ℕ) : PostRead := .page startNum

/-- The `while` loop in `loadPostsWithPaging`, from `count` on. -/
def pagingLoop (count : ℕ) : List PostRead :=
  if count < 30 then
    getPostsPaging count (count + pagingAmount) :: pagingLoop (count + pagingAmount)
  else
    []
termination_by 30 - count
decreasing_by simp only [pagingAmount]; omega

/-- `getNumberOfPosts` returns before its query completes. -/
def getNumberOfPosts : ℕ × PostRead := (0, .count)

namespace BulletinBoardView

/-- The view and the queries it issues. -/
def loadPostsWithPaging (view : BulletinBoardView) : BulletinBoardView × List PostRead :=
  let view := { view with posts := [] }
  let (_numOfPosts, countQuery) := getNumberOfPosts
  (view, countQuery :: pagingLoop 0)

/-- The deprecated `getPosts`: the view and its one query. -/
def getPosts (currentBulletinBoard : String) (view : BulletinBoardView) :
    BulletinBoardView × Query Value :=
  ({ view with posts := [] }, boardQuery currentBulletinBoard)

/-- `onDisappear`: the view and the new value of `needToCenterLocation`. -/
def onDisappear (view : BulletinBoardView) : BulletinBoardView × Bool :=
  ({ view with mapAction := some 0, posts := [] }, true)

end BulletinBoardView

theorem pagingLoop_eq (count : ℕ) :
    pagingLoop count = (List.range' count (30 - count)).map PostRead.page := by
  induction hn : 30 - count generalizing count with
  | zero =>
    rw [pagingLoop, if_neg (by omega)]
    rfl
  | succ n ih =>
    have hrest : 30 - (count + pagingAmount) = n := by
      simp only [pagingAmount]
      omega
    rw [pagingLoop, if_pos (by omega), ih (count + pagingAmount) hrest, List.range'_succ,
      List.map_cons]
    rfl

/-- A load issues the count query and the pages 0 to 29. -/
theorem loadPostsWithPaging_eq (view : BulletinBoardView) :
    view.loadPostsWithPaging =
      ({ view with posts := [] }, .count :: (List.range 30).map PostRead.page) := by
  simp [BulletinBoardView.loadPostsWithPaging, getNumberOfPosts, pagingLoop_eq,
    List.range_eq_range']

/-! ## `NewPost` -/

/-- The `@State` of the sheet, with `dismissed` for `dismiss()`. -/
structure NewPost where
  eventName : String := ""
  eventContent : String := ""
  datePosted : ℕ := 0
  dateExpiry : ℕ := 0
  ref : Option ℕ := none
  dismissed : Bool := false

namespace NewPost

/-- The document the Create Post action adds. -/
def postFields (currentBulletinBoard : String) (form : NewPost) : Fields Value :=
  [("Title", .string form.eventName),
   ("Content", .string form.eventContent),
   ("Date_Posted", .timestamp form.datePosted),
   ("Date_Expiration", .timestamp form.dateExpiry),
   ("ID", .string currentBulletinBoard)]

/-- The field that pages are selected by is not among those written. -/
@[simp] theorem postFields_postNumber (currentBulletinBoard : String) (form : NewPost) :
    (form.postFields currentBulletinBoard).lookup "PostNumber" = none := rfl

/-- The Create Post action: the sheet, the board's `posts` and the document it adds under
the identifier `documentID`. -/
def createPost (currentBulletinBoard : String) (documentID : ℕ) (posts : List Post)
    (form : NewPost) : NewPost × List Post × Fields Value :=
  ({ form with ref := some documentID, dismissed := true },
   posts ++ [{ title := form.eventName, content := form.eventContent, id := posts.length }],
   form.postFields currentBulletinBoard)

end NewPost

/-! ## A board and its pending queries -/

/-- A pending query of a board: what it reads, the board it asks for, the size of the
`Post` collection at the call, and the number of times `posts` had been cleared. -/
structure PostQuery where
  read : PostRead
  board : String
  since : ℕ
  removals : ℕ
deriving DecidableEq, Repr

def PostQuery.query (q : PostQuery) : Query Value :=
  q.read.query q.board

namespace PostQuery

variable {q : PostQuery} {r : Response Value} {collection : Collection Value}
  {d : Document Value}

/-- Only a page without an error delivers documents. -/
theorem page_of_mem_delivered (hd : d ∈ q.read.delivered r) :
    r.err = none ∧ ∃ startNum, q.read = .page startNum := by
  cases hread : q.read with
  | count => simp [hread, PostRead.delivered] at hd
  | page startNum =>
    refine ⟨?_, startNum, rfl⟩
    by_contra herr
    simp [hread, PostRead.delivered, herr] at hd

/-- A page without an error delivers its answer. -/
theorem answers_delivered (h : collection.Delivers q.query q.since r) (herr : r.err = none)
    {startNum : ℕ} (hread : q.read = .page startNum) :
    collection.Answers q.query q.since (q.read.delivered r) := by
  obtain ⟨docs, hdocs, hanswers⟩ := h herr
  have hdel : q.read.delivered r = docs := by
    simp [hread, PostRead.delivered, herr, hdocs]
  rw [hdel]
  exact hanswers

/-- What is delivered is stored, on the query's board and under the page's number. -/
theorem delivered_sound (h : collection.Delivers q.query q.since r)
    (hd : d ∈ q.read.delivered r) : d ∈ collection.docs ∧ ∃ startNum,
      q.read = .page startNum ∧ d.get? "ID" = some (.string q.board) ∧
      d.get? "PostNumber" = some (.number startNum) := by
  obtain ⟨herr, startNum, hread⟩ := page_of_mem_delivered hd
  obtain ⟨hmem, hmatch⟩ := (answers_delivered h herr hread).sound hd
  rw [query, hread] at hmatch
  exact ⟨hmem, startNum, hread, pageQuery_matches.mp hmatch⟩

theorem delivered_ids_nodup (h : collection.Delivers q.query q.since r) :
    ((q.read.delivered r).map Document.id).Nodup := by
  by_cases hnil : q.read.delivered r = []
  · rw [hnil]
    exact List.nodup_nil
  · obtain ⟨d, hd⟩ := List.exists_mem_of_ne_nil _ hnil
    obtain ⟨herr, startNum, hread⟩ := page_of_mem_delivered hd
    exact (answers_delivered h herr hread).ids_nodup

end PostQuery

/-- Where an entry of `posts` came from: the stored document, and how often `posts` had
been cleared when the entry's load was started, or when `NewPost` appended it. -/
structure Origin where
  document : ℕ
  removals : ℕ
deriving DecidableEq, Repr

/-- Where the entries of a completion came from. -/
def PostQuery.origins (q : PostQuery) (r : Response Value) : List Origin :=
  (q.read.delivered r).map fun document => ⟨document.id, q.removals⟩

structure Board where
  view : BulletinBoardView := {}
  pending : List PostQuery := []
  removals : ℕ := 0
  origins : List Origin := []

inductive BoardEvent where
  | onAppear
  | onDisappear
  | createPost (form : NewPost)
  | complete (q : PostQuery) (r : Response Value)

namespace Board

/-- `onAppear` calls `loadPostsWithPaging`, while `Post` has `since` documents. -/
def onAppear (currentBulletinBoard : String) (since : ℕ) (board : Board) : Board where
  view := board.view.loadPostsWithPaging.1
  pending := board.pending ++ board.view.loadPostsWithPaging.2.map fun read =>
    ⟨read, currentBulletinBoard, since, board.removals + 1⟩
  removals := board.removals + 1
  origins := []

/-- `onAppear` without its loop. -/
theorem onAppear_eq (currentBulletinBoard : String) (since : ℕ) (board : Board) :
    board.onAppear currentBulletinBoard since = {
      view := { board.view with posts := [] }
      pending := board.pending ++ (PostRead.count :: (List.range 30).map PostRead.page).map
        fun read => ⟨read, currentBulletinBoard, since, board.removals + 1⟩
      removals := board.removals + 1
      origins := [] } := by
  rw [onAppear, loadPostsWithPaging_eq]

def onDisappear (board : Board) : Board where
  view := board.view.onDisappear.1
  pending := board.pending
  removals := board.removals + 1
  origins := []

/-- The board after the Create Post action of a sheet over it. -/
def createPost (currentBulletinBoard : String) (documentID : ℕ) (form : NewPost)
    (board : Board) : Board where
  view := { board.view with
    posts := (form.createPost currentBulletinBoard documentID board.view.posts).2.1 }
  pending := board.pending
  removals := board.removals
  origins := board.origins ++ [⟨documentID, board.removals⟩]

/-- The board after a completion that left `posts`. -/
def complete (q : PostQuery) (r : Response Value) (posts : List Post) (board : Board) :
    Board where
  view := { board.view with posts := posts }
  pending := board.pending.erase q
  removals := board.removals
  origins := board.origins ++ q.origins r

/-- One event of a board, next to a `Post` collection and the global
`currentBulletinBoard`; the last argument is the document it adds, if any. -/
inductive Step (collection : Collection Value) (currentBulletinBoard : String) :
    Board → BoardEvent → Board → Option (Fields Value) → Prop
  | onAppear (board : Board) :
      Step collection currentBulletinBoard board .onAppear
        (board.onAppear currentBulletinBoard collection.docs.length) none
  | onDisappear (board : Board) :
      Step collection currentBulletinBoard board .onDisappear board.onDisappear none
  | createPost (board : Board) (form : NewPost) :
      Step collection currentBulletinBoard board (.createPost form)
        (board.createPost currentBulletinBoard collection.nextId form)
        (some (form.createPost currentBulletinBoard collection.nextId board.view.posts).2.2)
  | complete {board : Board} {q : PostQuery} {r : Response Value} {posts : List Post}
      (pending : q ∈ board.pending) (delivered : collection.Delivers q.query q.since r)
      (completion : q.read.completion r board.view.posts = some posts) :
      Step collection currentBulletinBoard board (.complete q r) (board.complete q r posts) none

/-- The event is a completion that traps. -/
def Traps (collection : Collection Value) (board : Board) : BoardEvent → Prop
  | .complete q r => q ∈ board.pending ∧ collection.Delivers q.query q.since r ∧
      q.read.completion r board.view.posts = none
  | _ => False

end Board

end Pindex
