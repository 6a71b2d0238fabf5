import Pindex.PostTheorems
import Pindex.RegistrationTheorems

/-!
# Writes the store refuses

`NewPost` and `processInput` show their document as created in the step that sends it, and
never hear whether the store took it. `local_agrees_iff` says when the screens agree with
the collections once nothing is pending any more: when no refused write is still shown as
done.

Two facts about whole runs lead there. A document that was sent is stored, in flight or
refused (`sent_or_refused`), and a refused one never comes back (`gone_of_refused`).
-/

namespace Pindex

open DocStore Transition

namespace World

variable {P : Platform} {w₀ w w' : World} {e : Event} {tr past : List (Move World Event)}
  {c f v id : ℕ} {name : CollectionName}

/-! ## What a step does to a collection -/

/-- The store refuses to write document `id`. -/
def Refuses (name : CollectionName) (id : ℕ) (m : Move World Event) : Prop :=
  ∃ d, m.event = .reject name d ∧ d.id = id

def Refused (name : CollectionName) (id : ℕ) (past : List (Move World Event)) : Prop :=
  ∃ m ∈ past, Refuses name id m

theorem not_refuses {m : Move World Event} (h : ∀ d, m.event ≠ .reject name d) (id : ℕ) :
    ¬ Refuses name id m := by
  rintro ⟨d, he, -⟩
  exact h d he

@[simp] theorem not_refused_nil : ¬ Refused name id [] := by
  simp [Refused]

@[simp] theorem refused_snoc {m : Move World Event} :
    Refused name id (past ++ [m]) ↔ Refused name id past ∨ Refuses name id m := by
  simp only [Refused, List.mem_append, List.mem_singleton, or_and_right, exists_or,
    exists_eq_left]

/-- Everything a step can do to a collection. -/
inductive StoreMove (name : CollectionName) (m : Move World Event) : Prop
  | idle (same : m.target.store name = m.source.store name) (noRefusal : ∀ id, ¬ Refuses name id m)
  | adds (fields : Fields Value) (target : m.target.store name = (m.source.store name).add fields)
      (noRefusal : ∀ id, ¬ Refuses name id m)
  | commits (d : Document Value) (sent : d ∈ (m.source.store name).inFlight)
      (target : m.target.store name = (m.source.store name).commit d sent)
      (noRefusal : ∀ id, ¬ Refuses name id m)
  | rejects (d : Document Value) (sent : d ∈ (m.source.store name).inFlight)
      (event : m.event = .reject name d)
      (target : m.target.store name = (m.source.store name).reject d)

theorem Step.store_move (h : Step P w e w') (name : CollectionName) :
    StoreMove name ⟨w, e, w'⟩ := by
  cases h with
  | @client c _ _ out running step =>
    cases out with
    | none => exact .idle rfl (not_refuses (by simp))
    | some write =>
      by_cases hname : write.1 = name
      · subst hname
        exact .adds write.2 (by simp [Store.send]) (not_refuses (by simp))
      · exact .idle (Function.update_of_ne (Ne.symm hname) _ _) (not_refuses (by simp))
  | commit name' d sent =>
    by_cases hname : name' = name
    · subst hname
      exact .commits d sent (by simp) (not_refuses (by simp))
    · exact .idle (Function.update_of_ne (Ne.symm hname) _ _) (not_refuses (by simp))
  | reject name' d sent =>
    by_cases hname : name' = name
    · subst hname
      exact .rejects d sent rfl (by simp)
    · exact .idle (Function.update_of_ne (Ne.symm hname) _ _) (not_refuses (by simp [hname]))

/-! ## What becomes of a write -/

/-- A document that was sent stays so unless the step refuses it. -/
theorem sent_step {d : Document Value} (step : Step P w e w') (hd : d ∈ (w.store name).sent) :
    d ∈ (w'.store name).sent ∨ Refuses name d.id ⟨w, e, w'⟩ := by
  cases step.store_move name with
  | idle same => exact .inl (same ▸ hd)
  | adds fields target =>
    left
    rw [target, Collection.sent_add]
    exact List.mem_append_left _ hd
  | commits d' sent target =>
    left
    rw [target]
    exact ((w.store name).sent_commit_perm sent).mem_iff.mpr hd
  | rejects d' sent event target =>
    by_cases hid : d = d'
    · subst hid
      exact .inr ⟨d, event, rfl⟩
    · left
      rw [target]
      rcases List.mem_append.mp hd with hd | hd
      · exact List.mem_append_left _ hd
      · exact List.mem_append_right _ ((List.mem_erase_of_ne hid).mpr hd)

theorem sent_or_refused {d : Document Value} (run : Run (Step P) w tr w')
    (hd : d ∈ (w.store name).sent) : d ∈ (w'.store name).sent ∨ Refused name d.id tr := by
  induction run with
  | nil => exact .inl hd
  | snoc _ step ih =>
    rw [refused_snoc]
    rcases ih with hd | hrefused
    · exact (sent_step step hd).imp_right .inr
    · exact .inr (.inl hrefused)

/-- The identifier of a refused document is never used again. -/
theorem gone_of_refused (run : Run (Step P) w tr w') (h : Refused name id tr) :
    id < (w'.store name).nextId ∧ ∀ d ∈ (w'.store name).sent, d.id ≠ id := by
  induction run with
  | nil => exact absurd h not_refused_nil
  | @snoc t u tr e _ step ih =>
    have hev := step.store_evolves name
    rcases refused_snoc.mp h with h | ⟨d, he, rfl⟩
    · obtain ⟨hlt, hgone⟩ := ih h
      refine ⟨hlt.trans_le hev.nextId_le, fun d hd => ?_⟩
      rcases hev.mem_sent hd with hd | ⟨hnew, -⟩
      · exact hgone d hd
      · omega
    · cases step.store_move name with
      | idle _ noRefusal => exact absurd ⟨d, he, rfl⟩ (noRefusal d.id)
      | adds _ _ noRefusal => exact absurd ⟨d, he, rfl⟩ (noRefusal d.id)
      | commits _ _ _ noRefusal => exact absurd ⟨d, he, rfl⟩ (noRefusal d.id)
      | rejects d' sent event target =>
        cases event.symm.trans he
        have hlt := Collection.id_lt_nextId (List.mem_append_right _ sent)
        refine ⟨hlt.trans_le hev.nextId_le, fun d' hd' => ?_⟩
        exact Collection.id_ne_of_mem_reject _ sent (target ▸ hd')

/-- With no write in flight, what was sent is stored exactly when it was not refused. -/
theorem stored_iff_not_refused {before after : List (Move World Event)} {m : Move World Event}
    {d : Document Value} (run : Run (Step P) w₀ (before ++ m :: after) w)
    (hd : d ∈ (m.target.store name).sent) (hflight : (w.store name).inFlight = []) :
    d ∈ (w.store name).docs ↔ ¬ Refused name d.id (before ++ m :: after) := by
  constructor
  · intro hdocs hrefused
    exact (gone_of_refused run hrefused).2 d (Collection.mem_sent_of_mem_docs hdocs) rfl
  · intro hrefused
    rcases sent_or_refused run.after hd with hsent | ⟨m', hm', hrefuses⟩
    · rwa [Collection.sent, hflight, List.append_nil] at hsent
    · have hmem : m' ∈ before ++ m :: after :=
        List.mem_append_right _ (List.mem_cons_of_mem _ hm')
      exact absurd ⟨m', hmem, hrefuses⟩ hrefused

/-! ## What is shown as created -/

/-- `NewPost` appends the entry `p` and sends its document under the identifier `id`. -/
def SendsPost (c v : ℕ) (p : Post) (id : ℕ) (m : Move World Event) : Prop :=
  ∃ form, CreatesPost c v form m ∧ id = (m.source.store .post).nextId ∧
    p = ⟨form.eventName, form.eventContent, (m.source.board c v).view.posts.length⟩

/-- The entry `p` that `NewPost` appended is still listed. -/
def Listed (c v : ℕ) (p : Post) (id : ℕ) (past : List (Move World Event)) : Prop :=
  Since (SendsPost c v p id) (fun m => ¬ Clears c v m) past

/-- The form creates an account under the identifier `id`, and is dismissed. -/
def SendsUser (P : Platform) (c f id : ℕ) (m : Move World Event) : Prop :=
  ∃ q r, m.event = .client c (.form f (.complete q r)) ∧
    (m.source.form c f).view.Creates P r ∧ id = (m.source.store .user).nextId

/-- The account the form created last has the identifier `id`. -/
def LastSent (P : Platform) (c f id : ℕ) (past : List (Move World Event)) : Prop :=
  Since (SendsUser P c f id) (fun m => ∀ id', ¬ SendsUser P c f id' m) past

theorem sendsPost_sent {p : Post} (step : Step P w e w') (h : SendsPost c v p id ⟨w, e, w'⟩) :
    ∃ d ∈ (w'.store .post).sent, d.id = id ∧ Shows p d := by
  obtain ⟨form, hf, rfl, rfl⟩ := h
  obtain rfl : e = .client c (.board v (.createPost form)) := hf
  rw [step.store_createPost, Collection.sent_add]
  exact ⟨_, List.mem_append_right _ (List.mem_singleton_self _), rfl, rfl, rfl⟩

theorem sendsUser_sent (step : Step P w e w') (h : SendsUser P c f id ⟨w, e, w'⟩) :
    ∃ d ∈ (w'.store .user).sent, d.id = id := by
  obtain ⟨q, r, he, hc, rfl⟩ := h
  obtain rfl : e = .client c (.form f (.complete q r)) := he
  have hadds : w'.store .user = (w.store .user).add _ := (addsUser_iff step).mpr ⟨hc, rfl⟩
  rw [hadds, Collection.sent_add]
  exact ⟨_, List.mem_append_right _ (List.mem_singleton_self _), rfl⟩

/-- A listed entry is in `posts`. -/
theorem listed_mem {p : Post} (run : Run (Step P) w₀ past w) (h : Listed c v p id past) :
    p ∈ (w.board c v).view.posts := by
  induction run with
  | nil => exact absurd h since_nil
  | @snoc t u tr e _ step ih =>
    rcases since_snoc.mp h with ⟨form, hf, -, rfl⟩ | ⟨hclears, h⟩
    · cases step.board_move c v with
      | idle _ _ _ noPost => exact absurd hf (noPost form)
      | appears event => cases boardEvent_unique event hf
      | disappears event => cases boardEvent_unique event hf
      | createsPost form' event target =>
        cases boardEvent_unique event hf
        rw [target]
        exact List.mem_append_right _ (List.mem_singleton_self _)
      | completes q r completes => cases boardEvent_unique completes.event hf
    · cases step.board_move c v with
      | idle same => exact same ▸ ih h
      | appears event => exact absurd (.inl event) hclears
      | disappears event => exact absurd (.inr event) hclears
      | createsPost form event target =>
        rw [target]
        exact List.mem_append_left _ (ih h)
      | completes q r _ _ _ new _ _ target =>
        rw [target]
        exact List.mem_append_left _ (ih h)

/-- A step either creates an account from the form and dismisses it, or leaves both `ref`
and `dismissed` alone. -/
theorem sendsUser_step (step : Step P w e w') (c f : ℕ) :
    ((∀ id, ¬ SendsUser P c f id ⟨w, e, w'⟩) ∧
      (w'.form c f).view.dismissed = (w.form c f).view.dismissed ∧
      (w'.form c f).view.ref = (w.form c f).view.ref) ∨
    ∃ id, SendsUser P c f id ⟨w, e, w'⟩ ∧ (w'.form c f).view.dismissed = true ∧
      (w'.form c f).view.ref = some id := by
  rcases step.form_cases c f with ⟨same, hne⟩ | ⟨fe, out, rfl, hstep, -⟩
  · refine .inl ⟨?_, by rw [same], by rw [same]⟩
    rintro id ⟨q, r, he, -⟩
    exact hne _ he
  generalize hform : w'.form c f = form' at hstep
  cases hstep with
  | edit field text =>
    refine .inl ⟨fun id ⟨q, r, he, _⟩ => (by cases he), ?_, ?_⟩ <;> cases field <;> rfl
  | tap =>
    refine .inl ⟨fun id ⟨q, r, he, _⟩ => (by cases he), ?_, ?_⟩ <;>
      rw [Form.tap, CreateAccountView.processInput_view]
  | @complete q r view _ _ _ completion =>
    have hno (hnc : ¬ (w.form c f).view.Creates P r) (id : ℕ) :
        ¬ SendsUser P c f id ⟨w, .client c (.form f (.complete q r)), w'⟩ := by
      rintro ⟨q', r', he, hc, -⟩
      cases he
      exact hnc hc
    rcases CreateAccountView.completion_cases completion with ⟨herr, rfl, -⟩ | ⟨hc, -, rfl⟩ |
      ⟨-, -, -, hne, -, rfl⟩ | ⟨-, hnc, -, rfl⟩
    · exact .inl ⟨hno fun hc => herr hc.err, rfl, rfl⟩
    · exact .inr ⟨_, ⟨q, r, rfl, hc, rfl⟩, rfl, rfl⟩
    · exact .inl ⟨hno fun hc => by simp [hc.samePasswords] at hne, rfl, rfl⟩
    · exact .inl ⟨hno hnc, rfl, rfl⟩

/-- A dismissed form has created an account, and `ref` is the last one's document. -/
theorem dismissed_iff (hi : w₀.Initial) (run : Run (Step P) w₀ past w) (c f : ℕ) :
    ((w.form c f).view.dismissed = true ↔ ∃ id, LastSent P c f id past) ∧
      ∀ id, LastSent P c f id past → (w.form c f).view.ref = some id := by
  induction run with
  | nil => simp [LastSent, form, hi.clients c]
  | @snoc t u tr e _ step ih =>
    simp only [LastSent, since_snoc]
    rcases sendsUser_step step c f with ⟨hno, hdismissed, href⟩ | ⟨id, hsends, hdismissed, href⟩
    · simp only [hno, not_false_eq_true, implies_true, true_and, false_or, hdismissed, href]
      exact ih
    · refine ⟨iff_of_true hdismissed ⟨id, .inl hsends⟩, ?_⟩
      rintro id' (⟨q, r, -, -, rfl⟩ | ⟨hnone, -⟩)
      · obtain ⟨_, _, -, -, rfl⟩ := hsends
        exact href
      · exact absurd hsends (hnone id)

/-! ## Screens and collections -/

/-- No write and no query is pending. -/
structure Quiet (w : World) : Prop where
  writes : ∀ name, (w.store name).inFlight = []
  sessions : ∀ c, (w.session c).pending = []
  forms : ∀ c f, (w.form c f).pending = []
  boards : ∀ c v, (w.board c v).pending = []

/-- What is shown as created is stored: the entries that `NewPost` appended and that are
still listed, and the accounts of the forms that were dismissed. -/
structure LocalAgrees (past : List (Move World Event)) (w : World) : Prop where
  posts : ∀ c v, ∀ p ∈ (w.board c v).view.posts, (∃ id, Listed c v p id past) →
    ∃ d ∈ (w.store .post).docs, Shows p d
  forms : ∀ c f, (w.form c f).view.dismissed = true →
    ∃ d ∈ (w.store .user).docs, (w.form c f).view.ref = some d.id

/-- No write that is still shown as done has been refused, except for an entry that
another stored post happens to have the text of. -/
structure RefusesUnseen (P : Platform) (past : List (Move World Event)) (w : World) : Prop where
  posts : ∀ c v p id, Listed c v p id past → Refused .post id past →
    ∃ d ∈ (w.store .post).docs, Shows p d
  forms : ∀ c f id, LastSent P c f id past → ¬ Refused .user id past

/-- A write shown as done, once decided, is stored or refused. -/
theorem sent_of_since {A B : Move World Event → Prop} (run : Run (Step P) w₀ past w)
    (hsince : Since A B past) {Q : Document Value → Prop}
    (hsent : ∀ m : Move World Event, Step P m.source m.event m.target → A m →
      ∃ d ∈ (m.target.store name).sent, d.id = id ∧ Q d)
    (hflight : (w.store name).inFlight = []) :
    (∃ d ∈ (w.store name).docs, d.id = id ∧ Q d) ∨ Refused name id past := by
  obtain ⟨before, m, after, rfl, ha, -⟩ := hsince
  have hstep := (run.move_of_mem (m := m) (by simp)).2
  obtain ⟨d, hd, rfl, hq⟩ := hsent m hstep ha
  by_cases hrefused : Refused name d.id (before ++ m :: after)
  · exact .inr hrefused
  · exact .inl ⟨d, (stored_iff_not_refused run hd hflight).mpr hrefused, rfl, hq⟩

/-- In every state that a run reaches, with no write or query pending, everything shown as
created is stored, exactly when no write that is still shown as done has been refused. -/
theorem local_agrees_iff (hi : w₀.Initial) (run : Run (Step P) w₀ past w) (quiet : w.Quiet) :
    LocalAgrees past w ↔ RefusesUnseen P past w := by
  constructor
  · intro h
    refine ⟨fun c v p id hlisted _ => ?_, fun c f id hlast hrefused => ?_⟩
    · exact h.posts c v p (listed_mem run hlisted) ⟨id, hlisted⟩
    · obtain ⟨hdismissed, href⟩ := dismissed_iff hi run c f
      obtain ⟨d, hd, hid⟩ := h.forms c f (hdismissed.mpr ⟨id, hlast⟩)
      have hsame : id = d.id := Option.some.inj ((href id hlast).symm.trans hid)
      have hgone := (gone_of_refused run hrefused).2 d (Collection.mem_sent_of_mem_docs hd)
      exact hgone hsame.symm
  · intro h
    refine ⟨fun c v p _ ⟨id, hlisted⟩ => ?_, fun c f hdismissed => ?_⟩
    · have hdecided := sent_of_since run hlisted (fun m step => sendsPost_sent step)
        (quiet.writes .post)
      rcases hdecided with ⟨d, hd, -, hshows⟩ | hrefused
      · exact ⟨d, hd, hshows⟩
      · exact h.posts c v p id hlisted hrefused
    · obtain ⟨hiff, href⟩ := dismissed_iff hi run c f
      obtain ⟨id, hlast⟩ := hiff.mp hdismissed
      have hdecided := sent_of_since run hlast (Q := fun _ => True)
        (fun m step hm => by simpa using sendsUser_sent step hm) (quiet.writes .user)
      rcases hdecided with ⟨d, hd, rfl, -⟩ | hrefused
      · exact ⟨d, hd, href _ hlast⟩
      · exact absurd hrefused (h.forms c f id hlast)

/-- Create Post on the first board, and the store's decision on the write. -/
def postedSale (decision : CollectionName → Document Value → Event) : List Event :=
  [.client 0 (.board 0 (.createPost { eventName := "Sale" })),
   decision .post ⟨1, NewPost.postFields "B Board" { eventName := "Sale" }⟩]

/-- Nothing is pending once the write is decided. -/
theorem quiet_postedSale {decision : CollectionName → Document Value → Event}
    (h : decision = .commit ∨ decision = .reject) :
    (empty.after .plain (postedSale decision)).Quiet := by
  rcases h with rfl | rfl
  all_goals
    refine ⟨fun name => ?_, fun c => ?_, fun c f => ?_, fun c v => ?_⟩
    · cases name <;> rfl
    · cases c <;> rfl
    · cases c <;> rfl
    · cases c <;> cases v <;> rfl

theorem stored_sale_agrees : empty.replays .plain (postedSale .commit) ∧
    LocalAgrees (empty.trace .plain (postedSale .commit))
      (empty.after .plain (postedSale .commit)) := by
  have hreplays : empty.replays .plain (postedSale .commit) := by decide
  have hquiet : (empty.after .plain (postedSale .commit)).Quiet := quiet_postedSale (.inl rfl)
  refine ⟨hreplays, (local_agrees_iff initial_empty (run_trace _ _ _ hreplays) hquiet).mpr ?_⟩
  have hnone (name : CollectionName) (id : ℕ) :
      ¬ Refused name id (empty.trace .plain (postedSale .commit)) := by
    rintro ⟨m, hm, d, he, -⟩
    have hevent := event_mem_of_mem_trace hm
    rw [he] at hevent
    simp [postedSale] at hevent
  exact ⟨fun c v p id _ h => absurd h (hnone _ _), fun c f id _ => hnone _ _⟩

theorem refused_sale_is_listed : ∃ tr w, empty.Initial ∧ Run (Step .plain) empty tr w ∧
    w.Quiet ∧ ¬ LocalAgrees tr w := by
  have hrun := run_trace .plain empty (postedSale .reject) (by decide)
  refine ⟨_, _, initial_empty, hrun, quiet_postedSale (.inr rfl), fun h => ?_⟩
  have hlisted : Listed 0 0 ⟨"Sale", "", 0⟩ 1 (empty.trace .plain (postedSale .reject)) :=
    ⟨[], _, [_], rfl, ⟨_, rfl, rfl, rfl⟩, by simp [Clears, Appears, Disappears]⟩
  obtain ⟨d, hd, -⟩ := h.posts 0 0 _ (listed_mem hrun hlisted) ⟨1, hlisted⟩
  have hnodocs : ((empty.after .plain (postedSale .reject)).store .post).docs = [] := rfl
  rw [hnodocs] at hd
  cases hd

end World

end Pindex
