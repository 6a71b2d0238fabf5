import Pindex.BulletinBoardView
import Pindex.Library.Arrivals

/-!
# Loading by pages

`loadPostsWithPaging` replaces one query for the whole board by one query for each
`PostNumber` from 0 to 29, whose completions append to `posts` as they arrive. Compared with
`getPosts`, on boards numbered from 0:

* both load the same posts exactly when there are at most 30 (`paged_agrees_iff`);
* the pages stand in `posts` in the order in which they arrive, so two arrival orders
  show the same list, in order, exactly when both are increasing (`paged_order_iff`).
-/

namespace Pindex

open DocStore Arrivals

variable {currentBulletinBoard : String} {collection : Collection Value}

/-! ## One load -/

/-- A query of a load, with what its completion is called with. -/
abbrev Delivery := PostRead × Response Value

/-- The completions run, in this order. `none` is a trap. -/
def completeAll (deliveries : List Delivery) (posts : List Post) : Option (List Post) :=
  deliveries.foldlM (fun posts delivery => delivery.1.completion delivery.2 posts) posts

/-- What the completion of one delivery turns into entries. -/
def Delivery.documents (delivery : Delivery) : List (Document Value) :=
  delivery.1.delivered delivery.2

/-- The entries that the completion of one delivery appends. -/
def Delivery.entries (delivery : Delivery) : List Post :=
  (delivery.1.completion delivery.2 []).getD []

/-- Every query of one `loadPostsWithPaging` is answered once, from a collection that does
not change. -/
structure AnswersLoad (collection : Collection Value) (currentBulletinBoard : String)
    (view : BulletinBoardView) (deliveries : List Delivery) : Prop where
  issued : (deliveries.map Prod.fst).Perm view.loadPostsWithPaging.2
  delivered : ∀ delivery ∈ deliveries, collection.Delivers
    (delivery.1.query currentBulletinBoard) collection.docs.length delivery.2

/-- What a completion appends does not depend on what is there. -/
theorem completion_nil {read : PostRead} {r : Response Value} {posts new : List Post}
    (h : read.completion r posts = some (posts ++ new)) : read.completion r [] = some new := by
  cases read with
  | count =>
    obtain ⟨n, hn, hposts⟩ := Option.map_eq_some_iff.mp h
    have hnew : new = [] := by simpa using hposts
    exact Option.map_eq_some_iff.mpr ⟨n, hn, hnew.symm⟩
  | page startNum =>
    simp only [PostRead.completion, getPostsPagingCompletion, readPosts] at h ⊢
    split at h
    · have hnew : new = [] := by simpa using h
      rw [hnew]
    · simp only [Option.bind_eq_bind, Option.bind_eq_some_iff] at h ⊢
      obtain ⟨documents, hdocs, happ⟩ := h
      obtain ⟨new', heq, hshows, hids⟩ := appendPosts_eq_some.mp happ
      obtain rfl : new = new' := List.append_cancel_left heq
      exact ⟨documents, hdocs, appendPosts_eq_some.mpr ⟨new, rfl, hshows, hids⟩⟩

theorem completion_entries {delivery : Delivery} {posts posts' : List Post}
    (h : delivery.1.completion delivery.2 posts = some posts') :
    posts' = posts ++ delivery.entries ∧ List.Forall₂ Shows delivery.entries delivery.documents ∧
      delivery.entries.map Post.id =
        List.range' delivery.1.firstID delivery.documents.length := by
  obtain ⟨new, rfl, hshows, hids⟩ := PostRead.completion_appends h
  have hentries : delivery.entries = new := by
    rw [Delivery.entries, completion_nil h]
    rfl
  rw [hentries]
  exact ⟨rfl, hshows, hids⟩

/-- When the completions of a load have run, their entries stand in `posts` in the order in
which they arrived. -/
theorem completeAll_eq_some {deliveries : List Delivery} {posts posts' : List Post}
    (h : completeAll deliveries posts = some posts') :
    posts' = posts ++ arrived Delivery.entries deliveries ∧ ∀ delivery ∈ deliveries,
      List.Forall₂ Shows delivery.entries delivery.documents ∧
      delivery.entries.map Post.id =
        List.range' delivery.1.firstID delivery.documents.length := by
  induction deliveries generalizing posts with
  | nil =>
    obtain rfl : posts = posts' := Option.some.inj h
    simp
  | cons delivery deliveries ih =>
    simp only [completeAll, List.foldlM_cons, Option.bind_eq_bind, Option.bind_eq_some_iff] at h
    obtain ⟨posts₁, hfirst, hrest⟩ := h
    obtain ⟨rfl, hshows, hids⟩ := completion_entries hfirst
    obtain ⟨hposts, hall⟩ := ih hrest
    rw [arrived_cons, ← List.append_assoc, List.forall_mem_cons]
    exact ⟨hposts, ⟨hshows, hids⟩, hall⟩

/-- The completions run through when the documents they turn into entries cast. -/
theorem completeAll_isSome {deliveries : List Delivery} (posts : List Post)
    (h : ∀ delivery ∈ deliveries, (delivery.2.err = none → delivery.2.querySnapshot ≠ none) ∧
      ∀ document ∈ delivery.documents, PostCasts document) :
    (completeAll deliveries posts).isSome := by
  induction deliveries generalizing posts with
  | nil => rfl
  | cons delivery deliveries ih =>
    rw [List.forall_mem_cons] at h
    have hfirst : (delivery.1.completion delivery.2 posts).isSome :=
      PostRead.completion_isSome h.1.1 h.1.2
    obtain ⟨posts₁, hposts₁⟩ := Option.isSome_iff_exists.mp hfirst
    rw [completeAll, List.foldlM_cons, hposts₁]
    exact ih posts₁ h.2

/-! ## The documents of a load -/

/-- The stored posts of a board. -/
def boardDocuments (collection : Collection Value) (currentBulletinBoard : String) :
    List (Document Value) :=
  collection.docs.filter fun d => (boardQuery currentBulletinBoard).Matches d

def postNumber (d : Document Value) : Option Value := d.get? "PostNumber"

/-- The stored posts that a query of a load asks for and whose completion appends. -/
def PostRead.documents (collection : Collection Value) (currentBulletinBoard : String) :
    PostRead → List (Document Value)
  | .count => []
  | .page startNum => (boardDocuments collection currentBulletinBoard).filter fun d =>
      postNumber d = some (.number startNum)

theorem filter_pageQuery (startNum : ℕ) :
    (collection.docs.filter fun d => (pageQuery currentBulletinBoard startNum).Matches d) =
      (PostRead.page startNum).documents collection currentBulletinBoard := by
  rw [PostRead.documents, boardDocuments, List.filter_filter]
  apply List.filter_congr
  intro d _
  rw [pageQuery, Bool.and_comm, ← Bool.decide_and]
  exact decide_eq_decide.mpr Query.matches_whereField

/-- A delivery without an error brings the stored posts it asks for, in some order. -/
theorem documents_perm {view : BulletinBoardView} {deliveries : List Delivery}
    {delivery : Delivery} (h : AnswersLoad collection currentBulletinBoard view deliveries)
    (hmem : delivery ∈ deliveries) (herr : delivery.2.err = none) :
    delivery.documents.Perm (delivery.1.documents collection currentBulletinBoard) := by
  obtain ⟨docs, hdocs, hanswers⟩ := h.delivered delivery hmem herr
  rw [Collection.answers_now] at hanswers
  obtain ⟨read, r⟩ := delivery
  cases read with
  | count => exact .nil
  | page startNum =>
    have hdelivered : Delivery.documents (.page startNum, r) = docs := by
      show PostRead.delivered r (.page startNum) = docs
      rw [PostRead.delivered, if_pos herr, hdocs]
      rfl
    rw [hdelivered, ← filter_pageQuery]
    exact hanswers

/-- The numbers that a load asks for. -/
def pageNumbers : List (Option Value) := (List.range 30).map fun i : ℕ => some (.number i)

/-- All in all, a load brings the board's posts with a number from 0 to 29. -/
theorem load_documents {view : BulletinBoardView} {deliveries : List Delivery}
    (h : AnswersLoad collection currentBulletinBoard view deliveries)
    (herr : ∀ delivery ∈ deliveries, delivery.2.err = none) :
    (arrived Delivery.documents deliveries).Perm
      ((boardDocuments collection currentBulletinBoard).filter fun d =>
        postNumber d ∈ pageNumbers) := by
  have hnodup : pageNumbers.Nodup := by decide
  have hreads : (arrived Delivery.documents deliveries).Perm
      (arrived (PostRead.documents collection currentBulletinBoard) (deliveries.map Prod.fst)) := by
    rw [arrived, arrived, List.flatMap_map]
    exact List.Perm.flatMap_left _ fun delivery hmem => documents_perm h hmem (herr delivery hmem)
  have hissued : arrived (PostRead.documents collection currentBulletinBoard)
      view.loadPostsWithPaging.2 =
        arrived (fun number => (boardDocuments collection currentBulletinBoard).filter fun d =>
          postNumber d = number) pageNumbers := by
    rw [loadPostsWithPaging_eq, arrived_cons, arrived, arrived, pageNumbers, List.flatMap_map,
      List.flatMap_map]
    rfl
  have hall := hreads.trans (arrived_perm h.issued)
  rw [hissued] at hall
  refine hall.trans ((arrived_split postNumber _ hnodup).trans (.of_eq ?_))
  exact List.filter_congr fun d _ => decide_eq_decide.mpr Iff.rfl

/-! ## Pages and the whole board -/

/-- The text of an entry. -/
def Post.text (p : Post) : String × String := (p.title, p.content)

/-- The `n` stored posts of the board are numbered from 0 and read back as posts. -/
structure NumberedBoard (collection : Collection Value) (currentBulletinBoard : String) (n : ℕ) :
    Prop where
  numbers : ((boardDocuments collection currentBulletinBoard).map postNumber).Perm
    ((List.range n).map fun i : ℕ => some (.number i))
  casts : ∀ d ∈ boardDocuments collection currentBulletinBoard, PostCasts d

/-- The text of a stored post, as the casts find it. -/
def documentText (d : Document Value) : Option Value × Option Value :=
  (d.get? "Title", d.get? "Content")

theorem text_of_shows {new : List Post} {docs : List (Document Value)}
    (h : List.Forall₂ Shows new docs) :
    (new.map Post.text).map (fun t => (some (Value.string t.1), some (Value.string t.2))) =
      docs.map documentText := by
  induction h with
  | nil => rfl
  | cons hp _ ih =>
    rw [List.map_cons, List.map_cons, List.map_cons, ih, documentText, hp.title, hp.content]
    rfl

/-- Entries have the same texts when the documents they show do. -/
theorem text_perm_iff {new new' : List Post} {docs docs' : List (Document Value)}
    (h : List.Forall₂ Shows new docs) (h' : List.Forall₂ Shows new' docs') :
    (new.map Post.text).Perm (new'.map Post.text) ↔
      (docs.map documentText).Perm (docs'.map documentText) := by
  have hinj : Function.Injective fun t : String × String =>
      (some (Value.string t.1), some (Value.string t.2)) := by
    intro t t' heq
    simp only [Prod.mk.injEq, Option.some.injEq, Value.string.injEq] at heq
    exact Prod.ext heq.1 heq.2
  rw [← text_of_shows h, ← text_of_shows h', List.map_perm_map_iff hinj]

theorem shows_arrived {deliveries : List Delivery}
    (h : ∀ delivery ∈ deliveries, List.Forall₂ Shows delivery.entries delivery.documents) :
    List.Forall₂ Shows (arrived Delivery.entries deliveries)
      (arrived Delivery.documents deliveries) := by
  induction deliveries with
  | nil => exact .nil
  | cons delivery deliveries ih =>
    rw [List.forall_mem_cons] at h
    exact List.rel_append h.1 (ih h.2)

/-- All posts of a numbered board have a number that a load asks for when there are at most
30. -/
theorem numbers_asked_iff {n : ℕ} (h : NumberedBoard collection currentBulletinBoard n) :
    (∀ d ∈ boardDocuments collection currentBulletinBoard, postNumber d ∈ pageNumbers) ↔
      n ≤ 30 := by
  have hnumbers : (∀ d ∈ boardDocuments collection currentBulletinBoard,
      postNumber d ∈ pageNumbers) ↔ ∀ i < n, some (Value.number i) ∈ pageNumbers := by
    rw [← List.forall_mem_map (P := fun number => number ∈ pageNumbers)]
    simp only [h.numbers.mem_iff, List.forall_mem_map, List.mem_range]
  rw [hnumbers]
  simp only [pageNumbers, List.mem_map, List.mem_range, Option.some.injEq, Value.number.injEq,
    Nat.cast_inj, exists_eq_right]
  constructor
  · intro hall
    by_contra hgt
    have := hall 30 (by omega)
    omega
  · intro hle i hi
    omega

/-- The documents of a load read back as posts when those of the board do. -/
theorem load_casts {view : BulletinBoardView} {deliveries : List Delivery} {delivery : Delivery}
    (hcasts : ∀ d ∈ boardDocuments collection currentBulletinBoard, PostCasts d)
    (h : AnswersLoad collection currentBulletinBoard view deliveries)
    (hmem : delivery ∈ deliveries) : ∀ d ∈ delivery.documents, PostCasts d := by
  intro d hd
  have herr : delivery.2.err = none := by
    by_contra hne
    obtain ⟨read, r⟩ := delivery
    cases read <;> simp [Delivery.documents, PostRead.delivered, hne] at hd
  have hdoc := (documents_perm h hmem herr).mem_iff.mp hd
  cases hread : delivery.1 with
  | count =>
    rw [hread] at hdoc
    cases hdoc
  | page startNum =>
    rw [hread] at hdoc
    exact hcasts d (List.mem_filter.mp hdoc).1

/-- The posts of a load, read back. -/
theorem exists_paged {view : BulletinBoardView} {deliveries : List Delivery}
    (hcasts : ∀ d ∈ boardDocuments collection currentBulletinBoard, PostCasts d)
    (h : AnswersLoad collection currentBulletinBoard view deliveries) :
    ∃ paged, completeAll deliveries view.loadPostsWithPaging.1.posts = some paged ∧
      List.Forall₂ Shows paged (arrived Delivery.documents deliveries) := by
  have hsome : (completeAll deliveries view.loadPostsWithPaging.1.posts).isSome :=
    completeAll_isSome _ fun delivery hmem => ⟨fun herr => ?_, load_casts hcasts h hmem⟩
  · obtain ⟨paged, hpaged⟩ := Option.isSome_iff_exists.mp hsome
    obtain ⟨rfl, hall⟩ := completeAll_eq_some hpaged
    refine ⟨_, hpaged, ?_⟩
    rw [loadPostsWithPaging_eq, List.nil_append]
    exact shows_arrived fun delivery hmem => (hall delivery hmem).1
  · obtain ⟨docs, hdocs, -⟩ := h.delivered delivery hmem herr
    simp [hdocs]

/-- The posts of `getPosts`, read back. -/
theorem exists_plain {view : BulletinBoardView} {r : Response Value}
    (hcasts : ∀ d ∈ boardDocuments collection currentBulletinBoard, PostCasts d)
    (hr : collection.Delivers (view.getPosts currentBulletinBoard).2 collection.docs.length r)
    (herr : r.err = none) :
    ∃ plain docs, getPostsCompletion r (view.getPosts currentBulletinBoard).1.posts = some plain ∧
      List.Forall₂ Shows plain docs ∧
      docs.Perm (boardDocuments collection currentBulletinBoard) := by
  obtain ⟨docs, hdocs, hanswers⟩ := hr herr
  have hperm : docs.Perm (boardDocuments collection currentBulletinBoard) :=
    Collection.answers_now.mp hanswers
  have hsome := appendPosts_isSome (fun d hd => hcasts d (hperm.mem_iff.mp hd)) [] 0
  obtain ⟨plain, hplain⟩ := Option.isSome_iff_exists.mp hsome
  obtain ⟨new, hnew, hshows, -⟩ := appendPosts_eq_some.mp hplain
  rw [List.nil_append] at hnew
  refine ⟨plain, docs, ?_, hnew ▸ hshows, hperm⟩
  rw [getPostsCompletion, readPosts, herr, hdocs]
  exact hplain

/-- The entries of a load have the texts of the board's posts when there are at most 30. -/
theorem load_texts_iff {n : ℕ} {view : BulletinBoardView} {deliveries : List Delivery}
    {paged plain : List Post} {docs : List (Document Value)}
    (hn : NumberedBoard collection currentBulletinBoard n)
    (hload : AnswersLoad collection currentBulletinBoard view deliveries)
    (hloaded : ∀ delivery ∈ deliveries, delivery.2.err = none)
    (hpaged : List.Forall₂ Shows paged (arrived Delivery.documents deliveries))
    (hplain : List.Forall₂ Shows plain docs)
    (hdocs : docs.Perm (boardDocuments collection currentBulletinBoard)) :
    (paged.map Post.text).Perm (plain.map Post.text) ↔ n ≤ 30 := by
  have harrived := load_documents hload hloaded
  rw [text_perm_iff hpaged hplain, ← numbers_asked_iff hn]
  constructor
  · intro hperm
    -- none of the board's posts is missing, since the numbers of entries agree
    have hlen := hperm.length_eq
    rw [List.length_map, List.length_map, harrived.length_eq, hdocs.length_eq,
      List.length_filter_eq_length_iff] at hlen
    exact fun d hd => of_decide_eq_true (hlen d hd)
  · intro hall
    have hself : ((boardDocuments collection currentBulletinBoard).filter fun d =>
        postNumber d ∈ pageNumbers) = boardDocuments collection currentBulletinBoard :=
      List.filter_eq_self.mpr fun d hd => decide_eq_true (hall d hd)
    rw [hself] at harrived
    exact (harrived.trans hdocs.symm).map _

/-- `posts` after all completions of a load has the texts of `posts` after `getPosts` and its
completion, each as often. -/
def PagedAgrees (currentBulletinBoard : String) (view : BulletinBoardView)
    (deliveries : List Delivery) (r : Response Value) : Prop :=
  ∃ paged plain, completeAll deliveries view.loadPostsWithPaging.1.posts = some paged ∧
    getPostsCompletion r (view.getPosts currentBulletinBoard).1.posts = some plain ∧
    (paged.map Post.text).Perm (plain.map Post.text)

/-- Each of the two leaves one list, so only their texts are to be compared. -/
theorem pagedAgrees_iff {view : BulletinBoardView} {deliveries : List Delivery}
    {r : Response Value} {paged plain : List Post}
    (hpaged : completeAll deliveries view.loadPostsWithPaging.1.posts = some paged)
    (hplain : getPostsCompletion r (view.getPosts currentBulletinBoard).1.posts = some plain) :
    PagedAgrees currentBulletinBoard view deliveries r ↔
      (paged.map Post.text).Perm (plain.map Post.text) := by
  constructor
  · rintro ⟨paged', plain', hpaged', hplain', hperm⟩
    obtain rfl : paged = paged' := Option.some.inj (hpaged.symm.trans hpaged')
    obtain rfl : plain = plain' := Option.some.inj (hplain.symm.trans hplain')
    exact hperm
  · intro hperm
    exact ⟨paged, plain, hpaged, hplain, hperm⟩

/-- On a board whose `n` posts are numbered from 0, loading by pages and `getPosts` show the
same texts, each as often, exactly when `n` is at most 30. -/
theorem paged_agrees_iff {n : ℕ} {view : BulletinBoardView} {deliveries : List Delivery}
    {r : Response Value} (hn : NumberedBoard collection currentBulletinBoard n)
    (hload : AnswersLoad collection currentBulletinBoard view deliveries)
    (hloaded : ∀ delivery ∈ deliveries, delivery.2.err = none)
    (hr : collection.Delivers (view.getPosts currentBulletinBoard).2 collection.docs.length r)
    (herr : r.err = none) : PagedAgrees currentBulletinBoard view deliveries r ↔ n ≤ 30 := by
  obtain ⟨paged, hpaged, hshows⟩ := exists_paged hn.casts hload
  obtain ⟨plain, docs, hplain, hshows', hdocs⟩ := exists_plain hn.casts hr herr
  rw [pagedAgrees_iff hpaged hplain]
  exact load_texts_iff hn hload hloaded hshows hshows' hdocs

/-- A query is answered at once. -/
def answerNow (collection : Collection Value) (currentBulletinBoard : String) (read : PostRead) :
    Delivery :=
  (read, .snapshot (collection.docs.filter fun d =>
    (read.query currentBulletinBoard).Matches d))

theorem answersLoad_answerNow {view : BulletinBoardView} {reads : List PostRead}
    (h : reads.Perm view.loadPostsWithPaging.2) :
    AnswersLoad collection currentBulletinBoard view
      (reads.map (answerNow collection currentBulletinBoard)) := by
  refine ⟨?_, fun delivery hmem herr => ?_⟩
  · rw [List.map_map]
    exact (List.map_id reads).symm ▸ h
  · obtain ⟨read, -, rfl⟩ := List.mem_map.mp hmem
    exact ⟨_, rfl, Collection.answers_now.mpr (.refl _)⟩

/-- Posts of the board "B Board", numbered from 0. -/
def numberedPosts (n : ℕ) : List (Document Value) :=
  (List.range n).map fun i : ℕ => ⟨i, [("Title", .string "Sale"), ("Content", .string ""),
    ("ID", .string "B Board"), ("PostNumber", .number i)]⟩

theorem numberedPosts_nodup (n : ℕ) : ((numberedPosts n).map Document.id).Nodup := by
  have hids : (numberedPosts n).map Document.id = List.range n := by
    rw [numberedPosts, List.map_map]
    exact List.map_id _
  rw [hids]
  exact List.nodup_range

def numberedBoard (n : ℕ) : Collection Value := .ofDocs (numberedPosts n) (numberedPosts_nodup n)

theorem numberedBoard_numbered (n : ℕ) : NumberedBoard (numberedBoard n) "B Board" n := by
  have hdocs : boardDocuments (numberedBoard n) "B Board" = (numberedBoard n).docs := by
    refine List.filter_eq_self.mpr fun d hd => ?_
    obtain ⟨i, -, rfl⟩ := List.mem_map.mp hd
    rfl
  constructor
  · rw [hdocs]
    show ((numberedPosts n).map postNumber).Perm _
    rw [numberedPosts, List.map_map]
    exact .refl _
  · rw [hdocs]
    intro d hd
    obtain ⟨i, -, rfl⟩ := List.mem_map.mp hd
    exact ⟨"Sale", "", rfl, rfl⟩

/-- The answers to a load, the last page first. -/
def lastPageFirst (n : ℕ) : List Delivery :=
  ({} : BulletinBoardView).loadPostsWithPaging.2.reverse.map (answerNow (numberedBoard n) "B Board")

/-- The answer to `getPosts`. -/
def wholeBoard (n : ℕ) : Response Value := .snapshot (boardDocuments (numberedBoard n) "B Board")

theorem answersLoad_lastPageFirst (n : ℕ) :
    AnswersLoad (numberedBoard n) "B Board" {} (lastPageFirst n) :=
  answersLoad_answerNow (List.reverse_perm _)

theorem err_lastPageFirst (n : ℕ) : ∀ delivery ∈ lastPageFirst n, delivery.2.err = none := by
  intro delivery hmem
  obtain ⟨read, -, rfl⟩ := List.mem_map.mp hmem
  rfl

theorem delivers_wholeBoard (n : ℕ) : (numberedBoard n).Delivers
    (({} : BulletinBoardView).getPosts "B Board").2 (numberedBoard n).docs.length
    (wholeBoard n) :=
  fun _ => ⟨_, rfl, Collection.answers_now.mpr (.refl _)⟩

theorem two_posts_agree : PagedAgrees "B Board" {} (lastPageFirst 2) (wholeBoard 2) :=
  (paged_agrees_iff (numberedBoard_numbered 2) (answersLoad_lastPageFirst 2) (err_lastPageFirst 2)
    (delivers_wholeBoard 2) rfl).mpr (by omega)

/-- Post number 30 is on no page. -/
theorem thirty_one_posts_differ : ∃ (view : BulletinBoardView) (deliveries : List Delivery)
    (r : Response Value), NumberedBoard (numberedBoard 31) "B Board" 31 ∧
    AnswersLoad (numberedBoard 31) "B Board" view deliveries ∧
    (∀ delivery ∈ deliveries, delivery.2.err = none) ∧
    (numberedBoard 31).Delivers (view.getPosts "B Board").2 (numberedBoard 31).docs.length r ∧
    r.err = none ∧ ¬ PagedAgrees "B Board" view deliveries r := by
  have hn := numberedBoard_numbered 31
  have hload := answersLoad_lastPageFirst 31
  have hloaded := err_lastPageFirst 31
  refine ⟨_, _, wholeBoard 31, hn, hload, hloaded, delivers_wholeBoard 31, rfl, ?_⟩
  obtain ⟨paged, hpaged, hshows⟩ := exists_paged hn.casts hload
  obtain ⟨plain, docs, hplain, hshows', hdocs⟩ :=
    exists_plain hn.casts (delivers_wholeBoard 31) rfl
  rw [pagedAgrees_iff hpaged hplain, load_texts_iff hn hload hloaded hshows hshows' hdocs]
  omega

/-! ## The order of the entries -/

/-- No two posts of the board have the same number. -/
def DistinctNumbers (collection : Collection Value) (currentBulletinBoard : String) : Prop :=
  ((boardDocuments collection currentBulletinBoard).filterMap postNumber).Nodup

/-- The pages on which there is a post are delivered in increasing order. -/
def DeliversInOrder (deliveries : List Delivery) : Prop :=
  ((deliveries.filter fun delivery => delivery.documents ≠ []).map
    fun delivery => delivery.1.firstID).Pairwise (· < ·)

instance (deliveries : List Delivery) : Decidable (DeliversInOrder deliveries) :=
  inferInstanceAs (Decidable (List.Pairwise _ _))

/-- With distinct numbers there is at most one post on a page. -/
theorem documents_length_le_one {view : BulletinBoardView} {deliveries : List Delivery}
    {delivery : Delivery} (hd : DistinctNumbers collection currentBulletinBoard)
    (h : AnswersLoad collection currentBulletinBoard view deliveries)
    (hmem : delivery ∈ deliveries) : delivery.documents.length ≤ 1 := by
  by_cases herr : delivery.2.err = none
  · have hperm := documents_perm h hmem herr
    rw [hperm.length_eq]
    cases delivery.1 with
    | count => exact Nat.zero_le 1
    | page startNum => exact length_filter_key_le_one hd _
  · obtain ⟨read, r⟩ := delivery
    cases read with
    | count => exact Nat.zero_le 1
    | page startNum =>
      have hnone : Delivery.documents (.page startNum, r) = [] := if_neg herr
      rw [hnone]
      exact Nat.zero_le 1

/-- Then the `id`s of the entries are the numbers of the pages they came on. -/
theorem ids_arrived {deliveries : List Delivery} (h : ∀ delivery ∈ deliveries,
    delivery.entries.map Post.id = List.range' delivery.1.firstID delivery.documents.length ∧
      delivery.documents.length ≤ 1) :
    (arrived Delivery.entries deliveries).map Post.id =
      (deliveries.filter fun delivery => delivery.documents ≠ []).map
        fun delivery => delivery.1.firstID := by
  induction deliveries with
  | nil => rfl
  | cons delivery deliveries ih =>
    rw [List.forall_mem_cons] at h
    obtain ⟨⟨hids, hle⟩, hrest⟩ := h
    rw [arrived_cons, List.map_append, hids, ih hrest]
    by_cases hnil : delivery.documents = []
    · rw [hnil, List.filter_cons_of_neg (by simp [hnil])]
      rfl
    · have hpos := List.length_pos_iff.mpr hnil
      have hone : delivery.documents.length = 1 := by omega
      rw [hone, List.filter_cons_of_pos (by simp [hnil])]
      rfl

/-- Two orders in which the completions of a load are delivered leave the same list, with
`id`s in increasing order, exactly when both deliver the pages with a post in increasing
order. -/
theorem paged_order_iff {view : BulletinBoardView} {deliveries deliveries' : List Delivery}
    {posts posts' : List Post} (hd : DistinctNumbers collection currentBulletinBoard)
    (hload : AnswersLoad collection currentBulletinBoard view deliveries)
    (horder : deliveries.Perm deliveries')
    (hposts : completeAll deliveries view.loadPostsWithPaging.1.posts = some posts)
    (hposts' : completeAll deliveries' view.loadPostsWithPaging.1.posts = some posts') :
    (posts = posts' ∧ (posts.map Post.id).Pairwise (· < ·)) ↔
      DeliversInOrder deliveries ∧ DeliversInOrder deliveries' := by
  obtain ⟨rfl, hall⟩ := completeAll_eq_some hposts
  obtain ⟨rfl, hall'⟩ := completeAll_eq_some hposts'
  have hids := ids_arrived fun delivery hmem =>
    ⟨(hall delivery hmem).2, documents_length_le_one hd hload hmem⟩
  have hids' := ids_arrived fun delivery hmem =>
    ⟨(hall' delivery hmem).2, documents_length_le_one hd hload (horder.mem_iff.mpr hmem)⟩
  rw [loadPostsWithPaging_eq, List.nil_append, List.nil_append, DeliversInOrder, DeliversInOrder,
    ← hids, ← hids']
  exact arrived_eq_iff Post.id horder

/-- The answers to a load, each page after the one before. -/
def pagesInOrder (n : ℕ) : List Delivery :=
  ({} : BulletinBoardView).loadPostsWithPaging.2.map (answerNow (numberedBoard n) "B Board")

/-- The same with the count query answered last. -/
def countLast (n : ℕ) : List Delivery :=
  ((List.range 30).map PostRead.page ++ [PostRead.count]).map
    (answerNow (numberedBoard n) "B Board")

theorem numberedBoard_distinct (n : ℕ) : DistinctNumbers (numberedBoard n) "B Board" := by
  have hnumbers := (numberedBoard_numbered n).numbers.filterMap id
  rw [List.filterMap_map, List.filterMap_map] at hnumbers
  have hrange : (List.range n).filterMap (id ∘ fun i : ℕ => some (Value.number i)) =
      (List.range n).map fun i : ℕ => Value.number i := by
    rw [← List.filterMap_eq_map]
    rfl
  rw [hrange] at hnumbers
  refine hnumbers.nodup_iff.mpr (List.nodup_range.map fun i j hij => ?_)
  simpa using hij

theorem pages_in_order_agree : ∃ posts posts',
    completeAll (pagesInOrder 2) (({} : BulletinBoardView).loadPostsWithPaging.1.posts) =
      some posts ∧
    completeAll (countLast 2) (({} : BulletinBoardView).loadPostsWithPaging.1.posts) =
      some posts' ∧
    posts = posts' ∧ (posts.map Post.id).Pairwise (· < ·) := by
  have hload : AnswersLoad (numberedBoard 2) "B Board" {} (pagesInOrder 2) :=
    answersLoad_answerNow (.refl _)
  have horder : (pagesInOrder 2).Perm (countLast 2) := by
    rw [pagesInOrder, loadPostsWithPaging_eq]
    exact (List.perm_append_singleton _ _).symm.map _
  have hload' : AnswersLoad (numberedBoard 2) "B Board" {} (countLast 2) := by
    refine answersLoad_answerNow ?_
    rw [loadPostsWithPaging_eq]
    exact List.perm_append_singleton _ _
  obtain ⟨posts, hposts, -⟩ := exists_paged (numberedBoard_numbered 2).casts hload
  obtain ⟨posts', hposts', -⟩ := exists_paged (numberedBoard_numbered 2).casts hload'
  refine ⟨posts, posts', hposts, hposts', ?_⟩
  refine (paged_order_iff (numberedBoard_distinct 2) hload horder hposts hposts').mpr ⟨?_, ?_⟩
  · rw [pagesInOrder, loadPostsWithPaging_eq]
    decide
  · decide

/-- Page 1 arrives before page 0 in one of the orders. -/
theorem reversed_pages_differ : ∃ (deliveries deliveries' : List Delivery)
    (posts posts' : List Post), DistinctNumbers (numberedBoard 2) "B Board" ∧
    AnswersLoad (numberedBoard 2) "B Board" {} deliveries ∧ deliveries.Perm deliveries' ∧
    completeAll deliveries ({} : BulletinBoardView).loadPostsWithPaging.1.posts = some posts ∧
    completeAll deliveries' ({} : BulletinBoardView).loadPostsWithPaging.1.posts = some posts' ∧
    ¬ (posts = posts' ∧ (posts.map Post.id).Pairwise (· < ·)) := by
  refine ⟨pagesInOrder 2, lastPageFirst 2, [⟨"Sale", "", 0⟩, ⟨"Sale", "", 1⟩],
    [⟨"Sale", "", 1⟩, ⟨"Sale", "", 0⟩], numberedBoard_distinct 2,
    answersLoad_answerNow (.refl _), (List.reverse_perm _).symm.map _, ?_, ?_, by decide⟩
  · rw [pagesInOrder, loadPostsWithPaging_eq]
    decide
  · rw [lastPageFirst, loadPostsWithPaging_eq]
    decide

end Pindex
