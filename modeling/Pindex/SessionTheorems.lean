import Pindex.Replay

/-!
# Sessions: what Login and Log Out guarantee, and when

The completion of a login decides by the global `account`, which is shared by all
attempts of the device and reset by Log Out alone. Two laws are stated over every run
of the world, each with the exact condition under which a run keeps it:

* a `MapView` opens only for an attempt whose own snapshot holds its credentials
  (`logins_sound_iff`);
* `account` is nil from Log Out to the next login, and constant while a `MapView` is open
  (`sessions_kept_iff`).

Both rest on `Step.session_move`, which says once what a step does to a session.
-/

namespace Pindex

open DocStore Transition

namespace World

variable {P : Platform} {w₀ w w' : World} {e : Event} {tr past : List (Move World Event)} {c : ℕ}

/-! ## What a step does to a session -/

def LogsOut (c : ℕ) (m : Move World Event) : Prop := m.event = .client c (.session .logOut)

/-- The completion of the attempt is called with a snapshot. -/
def Receives (c : ℕ) (q : Attempt) (docs : List (Document Value)) (m : Move World Event) : Prop :=
  ∃ r, m.event = .client c (.session (.complete q r)) ∧ r.err = none ∧ r.querySnapshot = some docs

/-- The completion of the attempt is called with a snapshot that is not empty, and whose
documents all read back as accounts. -/
structure Finds (c : ℕ) (q : Attempt) (docs : List (Document Value)) (m : Move World Event) :
    Prop where
  receives : Receives c q docs m
  nonempty : docs ≠ []
  casts : ∀ d ∈ docs, (UserAccount.ofDocument d).isSome

/-- The account of the last document of the snapshot. -/
def foundAccount (docs : List (Document Value)) : Option UserAccount :=
  LoginView.lastAccount docs none

theorem lastAccount_eq_foundAccount {docs : List (Document Value)} (h : docs ≠ [])
    (account : Option UserAccount) : LoginView.lastAccount docs account = foundAccount docs := by
  have hlast := List.getLast?_eq_getLast_of_ne_nil h
  rw [foundAccount, LoginView.lastAccount, LoginView.lastAccount, hlast]

theorem Receives.unique {q q' : Attempt} {docs docs' : List (Document Value)}
    {m : Move World Event} (h : Receives c q docs m) (h' : Receives c q' docs' m) :
    q' = q ∧ docs' = docs := by
  obtain ⟨r, he, -, hdocs⟩ := h
  obtain ⟨r', he', -, hdocs'⟩ := h'
  rw [he] at he'
  cases he'
  exact ⟨rfl, Option.some.inj (hdocs'.symm.trans hdocs)⟩

/-- Everything a step can do to the account and the screens of a session. -/
inductive SessionMove (c : ℕ) (m : Move World Event) : Prop
  /-- Nothing: an edit, a tap, an error, a trap, an event elsewhere, or an empty snapshot
  on a device where no account is set. -/
  | idle (account : (m.target.session c).account = (m.source.session c).account)
      (top : (m.target.session c).top = (m.source.session c).top)
      (views : ∀ v, ((m.target.session c).views v).switchView =
        ((m.source.session c).views v).switchView)
      (stays : ¬ LogsOut c m) (noFind : ∀ q docs, ¬ Finds c q docs m)
      (empty : ∀ q, Receives c q [] m → (m.source.session c).account = none)
  /-- An empty snapshot, answered with the account that was set before. -/
  | stale (q : Attempt) (receives : Receives c q [] m)
      (pending : q ∈ (m.source.session c).pending)
      (isSome : (m.source.session c).account.isSome)
      (account : (m.target.session c).account = (m.source.session c).account)
      (top : (m.target.session c).top = (m.source.session c).top)
      (views : ∀ v, ((m.target.session c).views v).switchView =
        (decide (v = q.view) || ((m.source.session c).views v).switchView))
  | finds (q : Attempt) (docs : List (Document Value)) (finds : Finds c q docs m)
      (pending : q ∈ (m.source.session c).pending)
      (sound : ∀ d ∈ docs, q.query.Matches d)
      (account : (m.target.session c).account = foundAccount docs)
      (top : (m.target.session c).top = (m.source.session c).top)
      (views : ∀ v, ((m.target.session c).views v).switchView =
        (decide (v = q.view) || ((m.source.session c).views v).switchView))
  | logOut (logsOut : LogsOut c m) (mapOpen : (m.source.session c).mapOpen = true)
      (target : m.target.session c = (m.source.session c).logOut)

/-- A completion that receives a snapshot of accounts runs through. -/
theorem Receives.completion {q : Attempt} {docs : List (Document Value)} {r : Response Value}
    (h : Receives c q docs ⟨w, .client c (.session (.complete q r)), w'⟩)
    (hcasts : ∀ d ∈ docs, (UserAccount.ofDocument d).isSome) (account : Option UserAccount)
    (view : LoginView) : (view.loginCompletion r account).isSome := by
  obtain ⟨r', he, herr, hdocs⟩ := h
  cases he
  exact LoginView.completion_isSome fun _ => ⟨docs, hdocs, hcasts⟩

theorem receives_iff {q q' : Attempt} {docs : List (Document Value)} {r : Response Value} :
    Receives c q' docs ⟨w, .client c (.session (.complete q r)), w'⟩ ↔
      q' = q ∧ r.err = none ∧ r.querySnapshot = some docs := by
  constructor
  · rintro ⟨r', he, herr, hdocs⟩
    cases he
    exact ⟨rfl, herr, hdocs⟩
  · rintro ⟨rfl, herr, hdocs⟩
    exact ⟨r, rfl, herr, hdocs⟩

/-- A completion moves the session of its client. -/
theorem session_move_complete {q : Attempt} {r : Response Value} {account : Option UserAccount}
    {view : LoginView} (pending : q ∈ (w.session c).pending)
    (delivered : (w.store .user).Delivers q.query q.since r)
    (completion : ((w.session c).views q.view).loginCompletion r (w.session c).account =
      some (account, view))
    (target : w'.session c = { w.session c with
      account := account
      views := Function.update (w.session c).views q.view view
      pending := (w.session c).pending.erase q }) :
    SessionMove c ⟨w, .client c (.session (.complete q r)), w'⟩ := by
  have hviews : ∀ v, ((w'.session c).views v).switchView =
      if v = q.view then view.switchView else ((w.session c).views v).switchView := by
    intro v
    rw [target]
    by_cases hv : v = q.view
    · simp [hv]
    · simp [hv, Function.update_of_ne]
  have hidle : view.switchView = ((w.session c).views q.view).switchView →
      ∀ v, ((w'.session c).views v).switchView = ((w.session c).views v).switchView := by
    intro hsame v
    rw [hviews]
    split
    · rename_i hv
      rw [hsame, hv]
    · rfl
  have haccount : (w'.session c).account = account := by
    rw [target]
  have htop : (w'.session c).top = (w.session c).top := by
    rw [target]
  rcases LoginView.completion_cases completion with ⟨herr, rfl, rfl⟩ |
    ⟨herr, docs, hdocs, hcasts, hlast, hview⟩
  · refine .idle haccount htop (hidle rfl) (by rintro ⟨⟩) ?_ ?_
    · intro q' docs hfinds
      exact herr (receives_iff.mp hfinds.receives).2.1
    · intro q' hreceives
      exact absurd (receives_iff.mp hreceives).2.1 herr
  · have hreceives : Receives c q docs ⟨w, .client c (.session (.complete q r)), w'⟩ :=
      receives_iff.mpr ⟨rfl, herr, hdocs⟩
    have hopens : account.isSome → ∀ v, ((w'.session c).views v).switchView =
        (decide (v = q.view) || ((w.session c).views v).switchView) := by
      intro hsome v
      rw [hviews, hview, if_pos hsome]
      by_cases hv : v = q.view
      · simp [hv]
      · simp [hv]
    by_cases hne : docs = []
    · subst hne
      rw [LoginView.lastAccount_nil] at hlast
      by_cases hsome : account.isSome
      · exact .stale q hreceives pending (hlast ▸ hsome) (haccount.trans hlast) htop (hopens hsome)
      · -- the screen shows "Invalid login info!"
        have hshown : view.switchView = ((w.session c).views q.view).switchView := by
          rw [hview, if_neg hsome]
        refine .idle (haccount.trans hlast) htop (hidle hshown) (by rintro ⟨⟩) ?_ ?_
        · intro q' docs' hfinds
          exact hfinds.nonempty (hreceives.unique hfinds.receives).2
        · intro q' _
          rw [← hlast]
          exact Option.not_isSome_iff_eq_none.mp hsome
    · have hfound := lastAccount_eq_foundAccount hne (w.session c).account
      rw [hfound] at hlast
      have hsome : account.isSome := by
        rw [hlast, ← hfound]
        exact (LoginView.isSome_lastAccount hcasts _).mpr (.inl hne)
      refine .finds q docs ⟨hreceives, hne, hcasts⟩ pending ?_ (haccount.trans hlast) htop
        (hopens hsome)
      intro d hd
      obtain ⟨docs', hdocs', hanswers⟩ := delivered herr
      obtain rfl : docs = docs' := Option.some.inj (hdocs.symm.trans hdocs')
      exact (hanswers.sound hd).2

/-- Edits of a text field and taps on Login leave the account and the screens alone. -/
theorem session_move_edit {se : SessionEvent} (hcomp : ∀ q r, se ≠ .complete q r)
    (hout : se ≠ .logOut) (account : (w'.session c).account = (w.session c).account)
    (top : (w'.session c).top = (w.session c).top)
    (views : ∀ v, ((w'.session c).views v).switchView = ((w.session c).views v).switchView) :
    SessionMove c ⟨w, .client c (.session se), w'⟩ := by
  have hnot : ∀ q docs, ¬ Receives c q docs ⟨w, .client c (.session se), w'⟩ := by
    rintro q docs ⟨r, he, -⟩
    cases he
    exact hcomp q r rfl
  refine .idle account top views ?_ (fun q docs h => hnot q docs h.receives)
    (fun q h => absurd h (hnot q []))
  intro h
  cases h
  exact hout rfl

/-- Retyping a field of the shown screen does not open its map. -/
theorem switchView_update {views : ℕ → LoginView} {top : ℕ} {view : LoginView}
    (h : view.switchView = (views top).switchView) (v : ℕ) :
    (Function.update views top view v).switchView = (views v).switchView := by
  by_cases hv : v = top
  · rw [hv, Function.update_self, h]
  · rw [Function.update_of_ne hv]

theorem Step.session_move (h : Step P w e w') (c : ℕ) : SessionMove c ⟨w, e, w'⟩ := by
  rcases h.session_cases c with ⟨hsame, hne⟩ | ⟨se, rfl, -, hstep⟩ | ⟨se, rfl, -, hsame, htraps⟩
  · refine .idle (by rw [hsame]) (by rw [hsame]) (fun v => by rw [hsame]) (hne .logOut) ?_ ?_
    · intro q docs hfinds
      obtain ⟨r, he, -⟩ := hfinds.receives
      exact hne _ he
    · rintro q ⟨r, he, -⟩
      exact absurd he (hne _)
  · generalize htarget : w'.session c = target at hstep
    cases hstep with
    | editUsername text shown =>
      refine session_move_edit (by simp) (by simp) (by rw [htarget]) (by rw [htarget]) ?_
      rw [htarget]
      exact switchView_update rfl
    | editPassword text shown =>
      refine session_move_edit (by simp) (by simp) (by rw [htarget]) (by rw [htarget]) ?_
      rw [htarget]
      exact switchView_update rfl
    | login shown =>
      exact session_move_edit (by simp) (by simp) (by rw [htarget]) (by rw [htarget])
        (fun v => by rw [htarget])
    | complete pending delivered completion =>
      exact session_move_complete pending delivered completion htarget
    | logOut shown => exact .logOut rfl shown htarget
  · cases se with
    | complete q r =>
      -- a completion that traps was given a document that does not cast
      have hnot : ∀ q' docs, Receives c q' docs ⟨w, .client c (.session (.complete q r)), w'⟩ →
          ¬ ∀ d ∈ docs, (UserAccount.ofDocument d).isSome := by
        intro q' docs hreceives hcasts
        obtain ⟨rfl, -, -⟩ := receives_iff.mp hreceives
        have hsome := hreceives.completion hcasts (w.session c).account
          ((w.session c).views q'.view)
        rw [htraps.2.2] at hsome
        cases hsome
      exact .idle (by rw [hsame]) (by rw [hsame]) (fun v => by rw [hsame]) (by rintro ⟨⟩)
        (fun q' docs hfinds => hnot q' docs hfinds.receives hfinds.casts)
        (fun q' hreceives => absurd (by simp) (hnot q' [] hreceives))
    | _ => exact htraps.elim

/-! ## A map opens for the attempt whose credentials were found -/

def FindsAccount (c : ℕ) (m : Move World Event) : Prop := ∃ q docs, Finds c q docs m

theorem Receives.not_logsOut {q : Attempt} {docs : List (Document Value)} {m : Move World Event}
    (h : Receives c q docs m) : ¬ LogsOut c m := by
  obtain ⟨r, he, -⟩ := h
  intro hout
  rw [LogsOut, he] at hout
  cases hout

theorem Receives.not_finds {q q' : Attempt} {docs : List (Document Value)} {m : Move World Event}
    (h : Receives c q [] m) : ¬ Finds c q' docs m := fun hfinds =>
  hfinds.nonempty (h.unique hfinds.receives).2

theorem LogsOut.not_receives {q : Attempt} {docs : List (Document Value)} {m : Move World Event}
    (h : LogsOut c m) : ¬ Receives c q docs m := fun hreceives => hreceives.not_logsOut h

theorem Finds.isSome {q : Attempt} {docs : List (Document Value)} {m : Move World Event}
    (h : Finds c q docs m) : (foundAccount docs).isSome :=
  (LoginView.isSome_lastAccount h.casts none).mpr (.inl h.nonempty)

/-- An account is set exactly when a completion has found one since the last Log Out. -/
theorem account_isSome_iff (hi : w₀.Initial) (run : Run (Step P) w₀ past w) (c : ℕ) :
    (w.session c).account.isSome ↔ Since (FindsAccount c) (fun m => ¬ LogsOut c m) past := by
  induction run with
  | nil => simp [session, hi.clients c]
  | @snoc w w' past e run step ih =>
    rw [since_snoc, ← ih]
    cases step.session_move c with
    | idle account _ _ stays noFind _ =>
      have hnot : ¬ FindsAccount c ⟨w, e, w'⟩ := by
        rintro ⟨q, docs, hfinds⟩
        exact noFind q docs hfinds
      simp [account, stays, hnot]
    | stale q receives _ _ account _ _ =>
      have hnot : ¬ FindsAccount c ⟨w, e, w'⟩ := by
        rintro ⟨q', docs, hfinds⟩
        exact receives.not_finds hfinds
      simp [account, receives.not_logsOut, hnot]
    | finds q docs finds _ _ account _ _ =>
      exact iff_of_true (account ▸ finds.isSome) (.inl ⟨q, docs, finds⟩)
    | logOut logsOut _ target =>
      have hnone : (w'.session c).account = none := by
        rw [target]
        rfl
      refine iff_of_false (by simp [hnone]) ?_
      rintro (⟨q, docs, hfinds⟩ | ⟨stays, -⟩)
      · exact logsOut.not_receives hfinds.receives
      · exact stays logsOut

/-- A completion that opens the map of a login screen was given a document with the
username and the password that its attempt submitted. -/
def OpensOnCredentials (m : Move World Event) : Prop :=
  ∀ c q r v, m.event = .client c (.session (.complete q r)) →
    ((m.source.session c).views v).switchView = false →
    ((m.target.session c).views v).switchView = true →
    ∃ docs, r.querySnapshot = some docs ∧ ∃ d ∈ docs,
      d.get? "Username" = some (.string q.username) ∧ d.get? "Password" = some q.password

/-- An empty snapshot reaches a login screen that has not opened its map only on a device
where no attempt has found an account since the last Log Out. -/
def FindsNoStaleAccount (past : List (Move World Event)) (m : Move World Event) : Prop :=
  ∀ c q, Receives c q [] m → ((m.source.session c).views q.view).switchView = false →
    ¬ Since (FindsAccount c) (fun m => ¬ LogsOut c m) past

theorem query_matches {q : Attempt} {d : Document Value} : q.query.Matches d ↔
    d.get? "Username" = some (.string q.username) ∧ d.get? "Password" = some q.password :=
  LoginView.credentialQuery_matches

theorem opensOnCredentials_iff (hi : w₀.Initial) {m : Move World Event}
    (run : Run (Step P) w₀ past m.source) (step : Step P m.source m.event m.target) :
    OpensOnCredentials m ↔ FindsNoStaleAccount past m := by
  obtain ⟨w, e, w'⟩ := m
  constructor
  · intro hopens c q hreceives hclosed hsince
    have hsome := (account_isSome_iff hi run c).mpr hsince
    cases step.session_move c with
    | idle _ _ _ _ _ empty =>
      rw [empty q hreceives] at hsome
      cases hsome
    | finds q' docs finds => exact hreceives.not_finds finds
    | logOut logsOut => exact logsOut.not_receives hreceives
    | stale q' receives _ _ _ _ views =>
      -- the old account opens the map of the screen
      obtain ⟨rfl, -⟩ := hreceives.unique receives
      obtain ⟨r, he, -, hempty⟩ := hreceives
      have hopened : ((w'.session c).views q'.view).switchView = true := by
        rw [views]
        simp
      obtain ⟨docs, hdocs, d, hd, -⟩ := hopens c q' r q'.view he hclosed hopened
      obtain rfl : [] = docs := Option.some.inj (hempty.symm.trans hdocs)
      cases hd
  · rintro hfresh c q r v rfl hclosed hopened
    cases step.session_move c with
    | idle _ _ views =>
      have := (views v).symm.trans hopened
      exact absurd this (by simp [hclosed])
    | logOut logsOut => cases logsOut
    | stale q' receives _ isSome _ _ views =>
      have hv : v = q'.view := by
        simpa [hclosed, hopened] using views v
      have hnone := hfresh c q' receives (hv ▸ hclosed)
      exact absurd ((account_isSome_iff hi run c).mp isSome) hnone
    | finds q' docs finds _ sound =>
      obtain ⟨rfl, -, hdocs⟩ := receives_iff.mp finds.receives
      obtain ⟨d, hd⟩ := List.exists_mem_of_ne_nil _ finds.nonempty
      exact ⟨docs, hdocs, d, hd, query_matches.mp (sound d hd)⟩

/-- In a run, every map opens for the attempt whose credentials were found, exactly when
no empty snapshot ever meets an account left by another attempt. -/
theorem logins_sound_iff (hi : w₀.Initial) (run : Run (Step P) w₀ tr w) :
    (∀ m ∈ tr, OpensOnCredentials m) ↔
      ∀ past m, past ++ [m] <+: tr → FindsNoStaleAccount past m := by
  rw [forall_mem_iff_past]
  refine forall₃_congr fun past m hpast => ?_
  obtain ⟨hrun, hstep⟩ := run.of_past hpast
  exact opensOnCredentials_iff hi hrun hstep

/-- A registered user of the runs below. -/
def alice : Document Value :=
  ⟨1, CreateAccountView.userFields .plain { username := "alice", password := "Passw0rd" }⟩

/-- The attempt of the first screen with the credentials of `alice`. -/
def aliceAttempt : Attempt := ⟨0, "alice", Platform.plain.passwordValue "Passw0rd", 1⟩

def aliceWorld : World := ofDocs [alice] [] (List.nodup_singleton _) List.nodup_nil

/-- The first screen's fields are filled in for `alice`. -/
def aliceTyping : List Event :=
  [.client 0 (.session (.editUsername "alice")), .client 0 (.session (.editPassword "Passw0rd"))]

def aliceLogin : List Event :=
  aliceTyping ++ [.client 0 (.session .login),
    .client 0 (.session (.complete aliceAttempt (.snapshot [alice])))]

theorem login_opens_on_credentials : aliceWorld.replays .plain aliceLogin ∧
    ∀ m ∈ aliceWorld.trace .plain aliceLogin, OpensOnCredentials m := by
  have hreplays : aliceWorld.replays .plain aliceLogin := by decide
  refine ⟨hreplays, (logins_sound_iff initial_ofDocs (run_trace _ _ _ hreplays)).mpr ?_⟩
  rintro past m hpast c q ⟨r, he, -, hempty⟩ - -
  have hm : m ∈ aliceWorld.trace .plain aliceLogin := hpast.subset (by simp)
  simp only [aliceLogin, aliceTyping, trace, List.cons_append, List.nil_append, List.mem_cons,
    List.not_mem_nil, or_false] at hm
  rcases hm with rfl | rfl | rfl | rfl <;> cases he
  cases hempty

/-- Login is tapped twice, the second completion is late: it arrives after Log Out, just
before the empty snapshot of somebody else's attempt on the next screen. -/
def lateLogin : List Event :=
  aliceTyping ++
    [.client 0 (.session .login), .client 0 (.session .login),
     .client 0 (.session (.complete aliceAttempt (.snapshot [alice]))),
     .client 0 (.session .logOut),
     .client 0 (.session (.editUsername "mallory")), .client 0 (.session .login),
     .client 0 (.session (.complete aliceAttempt (.snapshot [alice])))]

/-- The attempt of the second screen, with an empty password. -/
def malloryAttempt : Attempt := ⟨1, "mallory", Platform.plain.passwordValue "", 1⟩

theorem late_login_opens_for_mallory : ∃ tr w, aliceWorld.Initial ∧
    Run (Step .plain) aliceWorld tr w ∧ ¬ ∀ m ∈ tr, OpensOnCredentials m := by
  have hrun := run_trace .plain aliceWorld lateLogin (by decide)
  have hlast := step_next .plain (aliceWorld.after .plain lateLogin)
    (.client 0 (.session (.complete malloryAttempt (.snapshot [])))) (by decide)
  refine ⟨_, _, initial_ofDocs, hrun.snoc hlast, fun hall => ?_⟩
  have hopens := hall _ (List.mem_append_right _ (List.mem_singleton_self _))
  obtain ⟨docs, hdocs, d, hd, -⟩ := hopens 0 malloryAttempt _ 1 rfl (by decide) (by decide)
  cases hdocs
  cases hd

/-! ## The account of a session -/

/-- A completion finds the account of an attempt that was tapped since the last Log Out:
each Log Out shows a new screen. -/
def FindsFresh (c : ℕ) (m : Move World Event) : Prop :=
  ∃ q docs, Finds c q docs m ∧ q.view = (m.source.session c).top

/-- The `MapView` of the shown screen opens with this account. -/
structure OpensMap (c : ℕ) (account : Option UserAccount) (m : Move World Event) : Prop where
  closed : (m.source.session c).mapOpen = false
  opened : (m.target.session c).mapOpen = true
  account : (m.target.session c).account = account

/-- After a Log Out, the account is nil until an attempt tapped since has found one, and
from the moment a map opens until Log Out it is the one the map was opened with. -/
structure SessionKept (c : ℕ) (past : List (Move World Event)) (w : World) : Prop where
  loggedOut : Since (LogsOut c) (fun m => ¬ FindsFresh c m) past → (w.session c).account = none
  mapOpen : ∀ account, Since (OpensMap c account) (fun m => ¬ LogsOut c m) past →
    (w.session c).account = account

/-- A completion that finds an account finds the one of the open map, or answers an
attempt of the screen that is shown. -/
def KeepsSession (c : ℕ) (m : Move World Event) : Prop :=
  ∀ q docs, Finds c q docs m →
    if (m.source.session c).mapOpen = true then foundAccount docs = (m.source.session c).account
    else q.view = (m.source.session c).top

/-- What holds along a run whose completions all keep the session. -/
structure SessionInv (c : ℕ) (past : List (Move World Event)) (w : World) : Prop where
  closed : (w.session c).mapOpen = false → (w.session c).account = none
  loggedOut : Since (LogsOut c) (fun m => ¬ FindsFresh c m) past ↔
    (w.session c).mapOpen = false ∧ 0 < (w.session c).top
  opened : ∀ account, Since (OpensMap c account) (fun m => ¬ LogsOut c m) past ↔
    (w.session c).mapOpen = true ∧ (w.session c).account = account

theorem SessionInv.kept (h : SessionInv c past w) : SessionKept c past w where
  loggedOut hsince := h.closed (h.loggedOut.mp hsince).1
  mapOpen account hsince := ((h.opened account).mp hsince).2

theorem sessionInv_initial (hi : w₀.Initial) (c : ℕ) : SessionInv c [] w₀ := by
  refine ⟨?_, ?_, ?_⟩ <;> simp [session, hi.clients c, Session.mapOpen]

/-- A move that neither logs out nor finds an account keeps the invariant, as long as it
leaves the session's account, screen and map alone. -/
theorem SessionInv.idle (h : SessionInv c past w)
    (account : (w'.session c).account = (w.session c).account)
    (top : (w'.session c).top = (w.session c).top)
    (mapOpen : (w'.session c).mapOpen = (w.session c).mapOpen)
    (stays : ¬ LogsOut c ⟨w, e, w'⟩) (noFind : ¬ FindsFresh c ⟨w, e, w'⟩) :
    SessionInv c (past ++ [⟨w, e, w'⟩]) w' := by
  have hopens : ∀ account, ¬ OpensMap c account ⟨w, e, w'⟩ := by
    intro account h
    have := h.closed.symm.trans (mapOpen.symm.trans h.opened)
    cases this
  refine ⟨?_, ?_, fun a => ?_⟩
  · rw [mapOpen, account]
    exact h.closed
  · rw [since_snoc, mapOpen, top, ← h.loggedOut]
    simp [stays, noFind]
  · rw [since_snoc, mapOpen, account, ← h.opened a]
    simp [stays, hopens a]

/-- Finding the account of the open map again changes nothing. -/
theorem SessionInv.findsAgain (h : SessionInv c past w)
    (account : (w'.session c).account = (w.session c).account)
    (opened : (w.session c).mapOpen = true) (opened' : (w'.session c).mapOpen = true)
    (stays : ¬ LogsOut c ⟨w, e, w'⟩) : SessionInv c (past ++ [⟨w, e, w'⟩]) w' := by
  have hopens : ∀ a, ¬ OpensMap c a ⟨w, e, w'⟩ := fun a h => by
    have := opened.symm.trans h.closed
    cases this
  have hnotout : ¬ Since (LogsOut c) (fun m => ¬ FindsFresh c m) past := by
    rw [h.loggedOut]
    simp [opened]
  refine ⟨by simp [opened'], ?_, fun a => ?_⟩
  · simp [stays, hnotout, opened']
  · rw [since_snoc, h.opened a, opened', opened, account]
    simp [stays, hopens a]

/-- An account found for the screen that is shown opens its map. -/
theorem SessionInv.opens (h : SessionInv c past w) (closed : (w.session c).mapOpen = false)
    (opened : (w'.session c).mapOpen = true) (fresh : FindsFresh c ⟨w, e, w'⟩)
    (stays : ¬ LogsOut c ⟨w, e, w'⟩) : SessionInv c (past ++ [⟨w, e, w'⟩]) w' := by
  have hbefore : ∀ a, ¬ Since (OpensMap c a) (fun m => ¬ LogsOut c m) past := fun a => by
    rw [h.opened a]
    simp [closed]
  refine ⟨by simp [opened], ?_, fun a => ?_⟩
  · simp [stays, fresh, opened]
  · rw [since_snoc]
    constructor
    · rintro (hopens | ⟨-, hsince⟩)
      · exact ⟨opened, hopens.account⟩
      · exact absurd hsince (hbefore a)
    · rintro ⟨-, haccount⟩
      exact .inl ⟨closed, opened, haccount⟩

/-- Log Out shows a new login screen, with no account. -/
theorem SessionInv.logOut (logsOut : LogsOut c ⟨w, e, w'⟩)
    (target : w'.session c = (w.session c).logOut) :
    SessionInv c (past ++ [⟨w, e, w'⟩]) w' := by
  have hclosed : (w'.session c).mapOpen = false := by
    rw [target]
    simp [Session.mapOpen, Session.logOut]
  refine ⟨fun _ => by rw [target]; rfl, ?_, fun a => ?_⟩
  · refine iff_of_true (since_snoc.mpr (.inl logsOut)) ⟨hclosed, ?_⟩
    rw [target]
    exact Nat.succ_pos _
  · refine iff_of_false ?_ (by simp [hclosed])
    rw [since_snoc]
    rintro (hopens | ⟨stays, -⟩)
    · have := hopens.opened
      rw [hclosed] at this
      cases this
    · exact stays logsOut

theorem sessionInv_step (h : SessionInv c past w) (step : Step P w e w')
    (hkeeps : KeepsSession c ⟨w, e, w'⟩) : SessionInv c (past ++ [⟨w, e, w'⟩]) w' := by
  cases step.session_move c with
  | idle account top views stays noFind _ =>
    refine h.idle account top ?_ stays ?_
    · show ((w'.session c).views (w'.session c).top).switchView = _
      rw [views, top]
      rfl
    · rintro ⟨q, docs, hfinds, -⟩
      exact noFind q docs hfinds
  | stale q receives _ isSome account top views =>
    -- an account is set, so the map is open already
    have hopen : (w.session c).mapOpen = true := by
      by_contra hclosed
      have hnone := h.closed (by simpa using hclosed)
      rw [hnone] at isSome
      cases isSome
    refine h.idle account top ?_ receives.not_logsOut ?_
    · show ((w'.session c).views (w'.session c).top).switchView = _
      rw [views, top, hopen]
      simpa [Session.mapOpen] using .inr hopen
    · rintro ⟨q', docs, hfinds, -⟩
      exact receives.not_finds hfinds
  | finds q docs finds _ _ account top views =>
    have hstays := finds.receives.not_logsOut
    have hkept := hkeeps q docs finds
    have hmap : (w'.session c).mapOpen = (decide ((w.session c).top = q.view) ||
        (w.session c).mapOpen) := by
      show ((w'.session c).views (w'.session c).top).switchView = _
      rw [views, top]
      rfl
    by_cases hopen : (w.session c).mapOpen = true
    · rw [if_pos hopen] at hkept
      have hopen' : (w'.session c).mapOpen = true := by
        rw [hmap, hopen, Bool.or_true]
      exact h.findsAgain (account.trans hkept) hopen hopen' hstays
    · rw [if_neg hopen] at hkept
      have hopen' : (w'.session c).mapOpen = true := by
        simp [hmap, hkept]
      exact h.opens (by simpa using hopen) hopen' ⟨q, docs, finds, hkept⟩ hstays
  | logOut logsOut mapOpen target => exact .logOut logsOut target

theorem sessionInv_run (hi : w₀.Initial) (run : Run (Step P) w₀ tr w)
    (hkeeps : ∀ m ∈ tr, ∀ c, KeepsSession c m) (c : ℕ) : SessionInv c tr w := by
  induction run with
  | nil => exact sessionInv_initial hi c
  | snoc run step ih =>
    have hinv := ih fun m hm => hkeeps m (List.mem_append_left _ hm)
    exact sessionInv_step hinv step (hkeeps _ (by simp) c)

/-- Pending attempts were tapped on the shown screen or on an earlier one. -/
theorem pending_view_le_top (hi : w₀.Initial) (h : Reaches (Step P) w₀ w) (c : ℕ) :
    ∀ q ∈ (w.session c).pending, q.view ≤ (w.session c).top := by
  refine h.invariant (I := fun w => ∀ q ∈ (w.session c).pending,
    q.view ≤ (w.session c).top) ?_ ?_
  · simp [session, hi.clients c]
  · intro w e w' ih step q hq
    rcases step.session_cases c with ⟨hsame, -⟩ | ⟨se, -, -, hstep⟩ | ⟨se, -, -, hsame, -⟩
    · rw [hsame] at hq ⊢
      exact ih q hq
    · generalize w'.session c = target at hstep hq ⊢
      cases hstep with
      | editUsername => exact ih q hq
      | editPassword => exact ih q hq
      | complete => exact ih q (List.mem_of_mem_erase hq)
      | logOut => exact (ih q hq).trans (Nat.le_succ _)
      | login =>
        rcases List.mem_append.mp hq with hq | hq
        · exact ih q hq
        · obtain rfl := List.mem_singleton.mp hq
          exact le_rfl
    · rw [hsame] at hq ⊢
      exact ih q hq

/-- Every screen below the shown one has opened its map: Log Out is on that map. -/
theorem switchView_below_top (hi : w₀.Initial) (h : Reaches (Step P) w₀ w) (c : ℕ) :
    ∀ v < (w.session c).top, ((w.session c).views v).switchView = true := by
  refine h.invariant (I := fun w => ∀ v < (w.session c).top,
    ((w.session c).views v).switchView = true) ?_ ?_
  · simp [session, hi.clients c]
  · intro w e w' ih step v hv
    cases step.session_move c with
    | idle _ top views =>
      rw [top] at hv
      rw [views]
      exact ih v hv
    | stale q _ _ _ _ top views =>
      rw [top] at hv
      rw [views, ih v hv, Bool.or_true]
    | finds q docs _ _ _ _ top views =>
      rw [top] at hv
      rw [views, ih v hv, Bool.or_true]
    | logOut _ mapOpen target =>
      rw [target] at hv ⊢
      have hle : v ≤ (w.session c).top := Nat.le_of_lt_succ hv
      have hne : v ≠ (w.session c).top + 1 := by omega
      by_cases htop : v = (w.session c).top
      · subst htop
        have hopen : ((w.session c).views (w.session c).top).switchView = true := mapOpen
        simpa [Session.logOut] using hopen
      · simpa [Session.logOut, hne, htop] using ih v (by omega)

/-- Whichever screen opens its map, it is the one that is shown. -/
theorem opensMap_of_opens (hi : w₀.Initial) (h : Reaches (Step P) w₀ w) (step : Step P w e w')
    {v : ℕ} (hclosed : ((w.session c).views v).switchView = false)
    (hopened : ((w'.session c).views v).switchView = true) :
    OpensMap c (w'.session c).account ⟨w, e, w'⟩ := by
  have htop : ∀ q ∈ (w.session c).pending, v = q.view → v = (w.session c).top := by
    intro q hq hv
    have hle := pending_view_le_top hi h c q hq
    by_contra hne
    have hopen := switchView_below_top hi h c v (by omega)
    rw [hclosed] at hopen
    cases hopen
  have hopens : (∃ q ∈ (w.session c).pending, v = q.view) →
      (w'.session c).top = (w.session c).top → OpensMap c (w'.session c).account ⟨w, e, w'⟩ := by
    rintro ⟨q, hq, hv⟩ hsame
    have hshown := htop q hq hv
    refine ⟨?_, ?_, rfl⟩
    · show ((w.session c).views (w.session c).top).switchView = false
      rw [← hshown]
      exact hclosed
    · show ((w'.session c).views (w'.session c).top).switchView = true
      rw [hsame, ← hshown]
      exact hopened
  cases step.session_move c with
  | idle _ _ views =>
    have := (views v).symm.trans hopened
    exact absurd this (by simp [hclosed])
  | stale q _ pending _ _ top views =>
    have hv : v = q.view := by
      simpa [hclosed, hopened] using views v
    exact hopens ⟨q, pending, hv⟩ top
  | finds q docs _ pending _ _ top views =>
    have hv : v = q.view := by
      simpa [hclosed, hopened] using views v
    exact hopens ⟨q, pending, hv⟩ top
  | logOut _ mapOpen target =>
    -- Log Out shows a new screen, and opens no map
    rw [target] at hopened
    by_cases hnew : v = (w.session c).top + 1
    · simp [Session.logOut, hnew] at hopened
    · by_cases hold : v = (w.session c).top
      · rw [hold] at hclosed
        exact absurd mapOpen (by simp [Session.mapOpen, hclosed])
      · simp [Session.logOut, hnew, hold, hclosed] at hopened

/-- A move after which the session is still kept keeps it. -/
theorem keepsSession_of_kept (h : SessionInv c past w)
    (hle : ∀ q ∈ (w.session c).pending, q.view ≤ (w.session c).top) (step : Step P w e w')
    (hkept : SessionKept c (past ++ [⟨w, e, w'⟩]) w') : KeepsSession c ⟨w, e, w'⟩ := by
  intro q docs hfinds
  cases step.session_move c with
  | idle _ _ _ _ noFind => exact absurd hfinds (noFind q docs)
  | stale q' receives => exact absurd hfinds receives.not_finds
  | logOut logsOut => exact absurd hfinds.receives logsOut.not_receives
  | finds q' docs' finds pending _ account _ _ =>
    obtain ⟨rfl, rfl⟩ := hfinds.receives.unique finds.receives
    have hstays := hfinds.receives.not_logsOut
    split
    · rename_i hopen
      -- the account is still the one the map was opened with
      have hsince := (h.opened (w.session c).account).mpr ⟨hopen, rfl⟩
      have hsame := hkept.mapOpen _ (since_snoc.mpr (.inr ⟨hstays, hsince⟩))
      rw [← account, hsame]
    · rename_i hclosed
      -- otherwise an attempt from before the last Log Out has set the account
      by_contra hview
      have hlt : q'.view < (w.session c).top := lt_of_le_of_ne (hle q' pending) hview
      have hsince := h.loggedOut.mpr ⟨by simpa using hclosed, by omega⟩
      have hold : ¬ FindsFresh c ⟨w, e, w'⟩ := by
        rintro ⟨q'', docs'', hfinds'', htop⟩
        obtain ⟨rfl, -⟩ := hfinds.receives.unique hfinds''.receives
        exact hview htop
      have hnone := hkept.loggedOut (since_snoc.mpr (.inr ⟨hold, hsince⟩))
      have hsome := hfinds.isSome
      rw [← account, hnone] at hsome
      cases hsome

/-- In a run, the account of every session is kept at all times exactly when every
completion that finds an account keeps the session. -/
theorem sessions_kept_iff (hi : w₀.Initial) (run : Run (Step P) w₀ tr w) :
    Throughout (Step P) w₀ tr (fun past w => ∀ c, SessionKept c past w) ↔
      ∀ m ∈ tr, ∀ c, KeepsSession c m := by
  induction run with
  | nil =>
    rw [throughout_nil]
    exact iff_of_true (fun c => (sessionInv_initial hi c).kept) (by simp)
  | @snoc w w' tr e run step ih =>
    rw [throughout_snoc (run.snoc step), ih, List.forall_mem_append, List.forall_mem_singleton]
    refine and_congr_right fun hbefore => forall_congr' fun c => ?_
    have hinv := sessionInv_run hi run hbefore c
    constructor
    · intro hkept
      exact keepsSession_of_kept hinv (pending_view_le_top hi run.reaches c) step hkept
    · intro hkeeps
      exact (sessionInv_step hinv step hkeeps).kept

/-- Alice logs in, selects a pin, logs out and does the same once more on the next screen. -/
def twoLogins : List Event :=
  aliceLogin ++ [.client 0 (.selectPin "akul"), .client 0 (.session .logOut)] ++ aliceTyping ++
    [.client 0 (.session .login),
     .client 0 (.session (.complete { aliceAttempt with view := 1 } (.snapshot [alice]))),
     .client 0 (.selectPin "akul")]

theorem logins_keep_session : aliceWorld.replays .plain twoLogins ∧
    Throughout (Step .plain) aliceWorld (aliceWorld.trace .plain twoLogins)
      (fun past w => ∀ c, SessionKept c past w) := by
  have hreplays : aliceWorld.replays .plain twoLogins := by decide
  refine ⟨hreplays, (sessions_kept_iff initial_ofDocs (run_trace _ _ _ hreplays)).mpr ?_⟩
  intro m hm c q docs hfinds
  obtain ⟨r, he, -⟩ := hfinds.receives
  simp only [twoLogins, aliceLogin, aliceTyping, trace, List.cons_append, List.nil_append,
    List.mem_cons, List.not_mem_nil, or_false] at hm
  rcases hm with rfl | rfl | rfl | rfl | rfl | rfl | rfl | rfl | rfl | rfl | rfl <;> cases he
  · rfl
  · rfl

/-- The last completion of `lateLogin` brings back the account that Log Out has removed. -/
theorem late_login_outlives_logOut : ∃ tr w, aliceWorld.Initial ∧
    Run (Step .plain) aliceWorld tr w ∧
    ¬ Throughout (Step .plain) aliceWorld tr (fun past w => ∀ c, SessionKept c past w) := by
  have hrun := run_trace .plain aliceWorld lateLogin (by decide)
  refine ⟨_, _, initial_ofDocs, hrun, fun hall => ?_⟩
  have hkept := hall _ _ (List.prefix_refl _) hrun 0
  have hsince : Since (LogsOut 0) (fun m => ¬ FindsFresh 0 m)
      (aliceWorld.trace .plain lateLogin) := by
    refine ⟨(aliceWorld.trace .plain lateLogin).take 5, _,
      (aliceWorld.trace .plain lateLogin).drop 6, rfl, rfl, ?_⟩
    rintro m hm ⟨q, docs, hfinds, htop⟩
    obtain ⟨r, he, -⟩ := hfinds.receives
    simp only [lateLogin, aliceTyping, trace, List.cons_append, List.nil_append,
      List.drop_succ_cons, List.drop_zero, List.mem_cons, List.not_mem_nil, or_false] at hm
    rcases hm with rfl | rfl | rfl <;> cases he
    -- the attempt was tapped on screen 0, and Log Out has shown screen 1
    exact absurd htop (by decide)
  have hnone := hkept.loggedOut hsince
  exact absurd (congrArg Option.isSome hnone) (by decide)

end World

end Pindex
