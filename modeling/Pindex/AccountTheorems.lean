import Pindex.StoredPasswords
import Pindex.SystemTheorems

/-!
# Where an account comes from

The global `account` of a device is the one that the last completion since Log Out has found
(`World.account_eq_some_iff`), for a username and a password that were typed on that device,
and its document was made of a registration form, on this device or another. With the
`hashPassword` of `BCryptSwift` that is what a login is for: a map is used only where somebody
has typed a password that `verifyPassword` accepts for the hash stored with the account
(`System.map_user_registered`).
-/

namespace Pindex

open DocStore Transition BCryptSwift

namespace World

variable {P : Platform} {w₀ w w' : World} {tr past : List (Move World Event)} {m : Move World Event}
  {c : ℕ} {q : Attempt} {docs : List (Document Value)} {account : UserAccount} {d : Document Value}

/-! ## The account that is set -/

/-- A completion finds this account. -/
def FindsThis (c : ℕ) (account : UserAccount) (m : Move World Event) : Prop :=
  ∃ q docs, Finds c q docs m ∧ foundAccount docs = some account

theorem FindsThis.findsAccount (h : FindsThis c account m) : FindsAccount c m := by
  obtain ⟨q, docs, hfinds, -⟩ := h
  exact ⟨q, docs, hfinds⟩

/-- The account is the one found last, unless Log Out has been tapped since. -/
theorem account_eq_some_iff (hi : w₀.Initial) (run : Run (Step P) w₀ tr w) :
    (w.session c).account = some account ↔
      Since (FindsThis c account) (fun m => ¬ LogsOut c m ∧ ¬ FindsAccount c m) tr := by
  induction run with
  | nil => simp [session, hi.clients c]
  | @snoc w w' tr e run step ih =>
    rw [since_snoc, ← ih]
    cases step.session_move c with
    | idle same _ _ stays noFind _ =>
      have hnot : ¬ FindsAccount c ⟨w, e, w'⟩ := by
        rintro ⟨q, docs, hfinds⟩
        exact noFind q docs hfinds
      have hnot' : ¬ FindsThis c account ⟨w, e, w'⟩ := fun h => hnot h.findsAccount
      simp [same, stays, hnot, hnot']
    | stale q receives _ _ same _ _ =>
      have hnot : ¬ FindsAccount c ⟨w, e, w'⟩ := by
        rintro ⟨q', docs, hfinds⟩
        exact receives.not_finds hfinds
      have hnot' : ¬ FindsThis c account ⟨w, e, w'⟩ := fun h => hnot h.findsAccount
      simp [same, receives.not_logsOut, hnot, hnot']
    -- the account is overwritten with the one found, whatever it was
    | finds q docs finds _ _ found _ _ =>
      have hfound : (w'.session c).account = foundAccount docs := found
      rw [hfound]
      constructor
      · intro h
        exact .inl ⟨q, docs, finds, h⟩
      · rintro (⟨q', docs', finds', h⟩ | ⟨⟨-, hnone⟩, -⟩)
        · obtain ⟨-, rfl⟩ := finds.receives.unique finds'.receives
          exact h
        · exact absurd ⟨q, docs, finds⟩ hnone
    | logOut logsOut _ target =>
      have hnone : (w'.session c).account = none := by
        rw [target]
        rfl
      refine iff_of_false (by simp [hnone]) ?_
      rintro (⟨q, docs, hfinds, -⟩ | ⟨⟨stays, -⟩, -⟩)
      · exact logsOut.not_receives hfinds.receives
      · exact stays logsOut

/-! ## The tap behind it -/

/-- Login is tapped on client `c`, and submits the attempt. -/
def Taps (P : Platform) (c : ℕ) (q : Attempt) (m : Move World Event) : Prop :=
  m.event = .client c (.session .login) ∧
    q = (m.source.session c).attempt P (m.source.store .user).docs.length

/-- An attempt that is pending has been tapped. -/
theorem pending_tapped (hi : w₀.Initial) (run : Run (Step P) w₀ tr w)
    (hq : q ∈ (w.session c).pending) : ∃ m ∈ tr, Taps P c q m := by
  induction run with
  | nil =>
    unfold session at hq
    rw [hi.clients c] at hq
    cases hq
  | @snoc w w' tr e run step ih =>
    have hbefore : q ∈ (w.session c).pending → ∃ m ∈ tr ++ [⟨w, e, w'⟩], Taps P c q m := by
      intro hmem
      obtain ⟨m, hm, htaps⟩ := ih hmem
      exact ⟨m, List.mem_append_left _ hm, htaps⟩
    rcases step.session_cases c with ⟨hsame, -⟩ | ⟨se, rfl, -, hstep⟩ | ⟨se, -, -, hsame, -⟩
    -- of the events of the session only Login adds an attempt
    · exact hbefore (hsame ▸ hq)
    · generalize w'.session c = target at hq hstep
      cases hstep with
      | editUsername => exact hbefore hq
      | editPassword => exact hbefore hq
      | logOut => exact hbefore hq
      | complete => exact hbefore (List.mem_of_mem_erase hq)
      | login shown =>
        rcases List.mem_append.mp hq with hq | hq
        · exact hbefore hq
        · exact ⟨_, List.mem_append_right _ (List.mem_singleton_self _), rfl,
            List.mem_singleton.mp hq⟩
    · exact hbefore (hsame ▸ hq)

/-- A snapshot answers a pending attempt. -/
theorem Receives.answers (h : Receives c q docs m) (step : Step P m.source m.event m.target) :
    q ∈ (m.source.session c).pending ∧
      (m.source.store .user).Answers q.query q.since docs := by
  obtain ⟨r, he, herr, hdocs⟩ := h
  have hanswers : (m.source.store .user).Delivers q.query q.since r →
      (m.source.store .user).Answers q.query q.since docs := by
    intro hdelivers
    obtain ⟨docs', hdocs', hanswers⟩ := hdelivers herr
    obtain rfl : docs = docs' := Option.some.inj (hdocs.symm.trans hdocs')
    exact hanswers
  rw [he] at step
  rcases step.session_cases c with ⟨-, hne⟩ | ⟨se, hse, -, hstep⟩ | ⟨se, hse, -, -, htraps⟩
  · exact absurd rfl (hne _)
  · obtain rfl : SessionEvent.complete q r = se := by simpa using hse
    generalize m.target.session c = target at hstep
    cases hstep with
    | complete pending delivered completion => exact ⟨pending, hanswers delivered⟩
  · obtain rfl : SessionEvent.complete q r = se := by simpa using hse
    exact ⟨htraps.1, hanswers htraps.2.1⟩

/-- The account that is set is one in the store, with the username and the password of an
attempt that was tapped on the client. -/
theorem account_tapped (hi : w₀.Initial) (run : Run (Step P) w₀ tr w)
    (h : (w.session c).account = some account) : ∃ m ∈ tr, ∃ q, Taps P c q m ∧
      ∃ d ∈ (w.store .user).docs, q.query.Matches d ∧ UserAccount.ofDocument d = some account := by
  obtain ⟨before, m, after, rfl, ⟨q, docs, hfinds, hfound⟩, -⟩ := (account_eq_some_iff hi run).mp h
  have hpast : before ++ [m] <+: before ++ m :: after :=
    ⟨after, (List.append_cons before m after).symm⟩
  obtain ⟨hrun, hstep⟩ := run.of_past hpast
  obtain ⟨hpending, hanswers⟩ := hfinds.receives.answers hstep
  obtain ⟨m', hm', htaps⟩ := pending_tapped hi hrun hpending
  -- the account is the one of the last document
  have hlast : docs.getLast? = some (docs.getLast hfinds.nonempty) :=
    List.getLast?_eq_getLast_of_ne_nil hfinds.nonempty
  have hmem : docs.getLast hfinds.nonempty ∈ docs := List.getLast_mem hfinds.nonempty
  obtain ⟨hstored, hmatches⟩ := hanswers.sound hmem
  -- a document that was stored then is still stored
  have hgrow : (m.source.store .user).docs <+: (w.store .user).docs := by
    apply (docs_grow ((Run.nil m.source).snoc hstep) .user).trans
    exact docs_grow run.after .user
  refine ⟨m', List.mem_append_left _ hm', q, htaps, _, hgrow.subset hstored, hmatches, ?_⟩
  rw [foundAccount, LoginView.lastAccount, hlast] at hfound
  exact hfound

/-! ## The form behind it -/

/-- A form creates an account, and sends the document. -/
structure Registers (P : Platform) (view : CreateAccountView) (d : Document Value)
    (m : Move World Event) : Prop where
  completes : ∃ c f q r, m.event = .client c (.form f (.complete q r)) ∧
    (m.source.form c f).view = view ∧ view.Creates P r
  document : d = ⟨(m.source.store .user).nextId, view.userFields P⟩

/-- A document of `User` was there at the start, or a form has sent it. -/
theorem sent_registered (hi : w₀.Initial) (run : Run (Step P) w₀ tr w)
    (hd : d ∈ (w.store .user).sent) : d ∈ (w₀.store .user).docs ∨
      ∃ m ∈ tr, ∃ view, Registers P view d m := by
  induction run with
  | nil =>
    rw [Collection.sent, hi.inFlight, List.append_nil] at hd
    exact .inl hd
  | @snoc w w' tr e run step ih =>
    have hbefore : d ∈ (w.store .user).sent → d ∈ (w₀.store .user).docs ∨
        ∃ m ∈ tr ++ [⟨w, e, w'⟩], ∃ view, Registers P view d m := by
      intro hsent
      refine (ih hsent).imp_right ?_
      rintro ⟨m, hm, hregisters⟩
      exact ⟨m, List.mem_append_left _ hm, hregisters⟩
    rcases step.user_cases with hs | ⟨c, f, q, r, rfl, hc, hs⟩ | ⟨d', sent, -, hs⟩ | ⟨d', -, hs⟩
    · exact hbefore (hs ▸ hd)
    · rw [hs, Collection.sent_add] at hd
      rcases List.mem_append.mp hd with hd | hd
      · exact hbefore hd
      · exact .inr ⟨_, List.mem_append_right _ (List.mem_singleton_self _), _,
          ⟨c, f, q, r, rfl, rfl, hc⟩, List.mem_singleton.mp hd⟩
    · rw [hs] at hd
      exact hbefore (((w.store .user).sent_commit_perm sent).mem_iff.mp hd)
    · rw [hs] at hd
      exact hbefore ((w.store .user).sent_reject_sublist.mem hd)

end World

/-! ## The user of a map -/

namespace System

variable {P : Platform} {u₀ u : System} {tr past : List (Move System SystemEvent)}
  {m : Move System SystemEvent} {c : ℕ}

/-- Login is tapped on this screen of device `c`. -/
def TapsLogin (c : ℕ) (login : LoginView) (m : Move System SystemEvent) : Prop :=
  m.event = .device c (.session .login) ∧
    (m.source.devices c).session.views (m.source.devices c).session.top = login

/-- A registration form, on whatever device, creates an account and sends the document. -/
structure Registers (P : Platform) (view : CreateAccountView) (d : Document Value)
    (m : Move System SystemEvent) : Prop where
  completes : ∃ c f q r, m.event = .device c (.form f (.complete q r)) ∧
    ((m.source.devices c).forms f).view = view ∧ view.Creates P r
  document : d = ⟨(m.source.store .user).nextId, view.userFields P⟩

/-- The account of a device is one that a form has created, with the username and the password
typed into a screen of the device. -/
theorem account_registered (hi : u₀.Initial) (hempty : (u₀.store .user).docs = [])
    (run : Run (Step P) u₀ tr u) {account : UserAccount}
    (h : (u.devices c).session.account = some account) : ∃ login view d,
      (∃ m ∈ tr, TapsLogin c login m) ∧ (∃ m ∈ tr, Registers P view d m) ∧
      d ∈ (u.store .user).docs ∧ account = ⟨view.firstName, view.lastName, view.username⟩ ∧
      (login.query P).Matches d := by
  have hi' : u₀.world.Initial := initial_world hi
  have hrun : Run (World.Step P) u₀.world ((simulation P).trace tr) u.world :=
    (simulation P).run run
  obtain ⟨m, hm, q, ⟨htap, rfl⟩, d, hd, hmatches, hofDocument⟩ := World.account_tapped hi' hrun h
  have hd' : d ∈ (u.store .user).docs := hd
  obtain ⟨m', hm', view, hregisters⟩ : ∃ m ∈ (simulation P).trace tr, ∃ view,
      World.Registers P view d m := by
    rcases World.sent_registered hi' hrun (Collection.mem_sent_of_mem_docs hd) with hold | hnew
    · have hold' : d ∈ (u₀.store .user).docs := hold
      rw [hempty] at hold'
      cases hold'
    · exact hnew
  -- the two moves of the world, as moves of the system
  obtain ⟨m₁, hm₁, hevent₁, hsource₁⟩ := (simulation P).exists_of_mem_trace hm
  obtain ⟨m₂, hm₂, hevent₂, hsource₂⟩ := (simulation P).exists_of_mem_trace hm'
  obtain ⟨⟨c', f, q, r, hcompletes, hview, hcreates⟩, hdocument⟩ := hregisters
  rw [htap] at hevent₁
  rw [hcompletes] at hevent₂
  rw [hsource₁] at hmatches
  rw [hsource₂] at hview hdocument
  refine ⟨_, view, d, ⟨m₁, hm₁, worldEvent_session.mp hevent₁, rfl⟩,
    ⟨m₂, hm₂, ⟨c', f, q, r, worldEvent_form.mp hevent₂, hview, hcreates⟩, hdocument⟩, hd', ?_,
    hmatches⟩
  obtain ⟨hfirst, hlast, husername⟩ := World.ofDocument_eq_some.mp hofDocument
  rw [hdocument] at hfirst hlast husername
  have hfirst' := Value.string.inj (Option.some.inj hfirst)
  have hlast' := Value.string.inj (Option.some.inj hlast)
  have husername' := Value.string.inj (Option.some.inj husername)
  rw [hfirst', hlast', husername']

/-- Nobody uses a map but on a device where somebody has typed the username of an account that
was registered, and a password that `verifyPassword` accepts for its hash. The document is
still stored, as long as Firestore answers the credential query with documents that it has
accepted; a write of the device itself that is still pending might be refused. -/
theorem map_user_registered (hP : P.RunsBCrypt) (hEq : P.ComparesPlain) (hi : u₀.Initial)
    (hempty : (u₀.store .user).docs = []) (run : Run (Step P) u₀ tr u)
    (hpast : past ++ [m] <+: tr) (h : UsesMap c m) : ∃ login view d,
      (∃ m ∈ past, TapsLogin c login m) ∧ (∃ m ∈ past, Registers P view d m) ∧
      d ∈ (m.source.store .user).docs ∧ (m.source.devices c).session.account =
        some ⟨view.firstName, view.lastName, view.username⟩ ∧
      view.username = login.username ∧ (Fits view.password → Fits login.password →
        ∃ hash, d.get? "Password" = some (.string hash) ∧
          verifyPassword P.stringEq login.password hash = some (some true)) := by
  obtain ⟨hrun, hstep⟩ := run.of_past hpast
  obtain ⟨account, haccount⟩ := Option.isSome_iff_exists.mp
    (account_of_mapOpen hi hrun (mapOpen_of_usesMap hstep h))
  obtain ⟨login, view, d, htaps, ⟨m', hm', hregisters⟩, hd, rfl, hmatches⟩ :=
    account_registered hi hempty hrun haccount
  rw [hregisters.document, LoginView.query, LoginView.credentialQuery_matches] at hmatches
  obtain ⟨husername, hpassword⟩ := hmatches
  refine ⟨login, view, d, htaps, ⟨m', hm', hregisters⟩, hd, haccount,
    Value.string.inj (Option.some.inj husername), fun hfits hlogin => ?_⟩
  -- what was searched for is what is stored, so the hash accepts the password typed
  obtain ⟨hash, hhash, hplain, -⟩ := hashPassword_salt hfits
  have hstored : P.passwordValue view.password = .string hash := passwordValue_of_hash hP hhash
  have hsame : P.passwordValue view.password = P.passwordValue login.password :=
    Option.some.inj hpassword
  refine ⟨hash, ?_, ?_⟩
  · rw [hregisters.document, ← hstored]
    rfl
  · apply (verifyPassword_iff_passwordValue hP hEq hlogin hhash hplain).mpr
    rw [← hsame, hstored]

def emptySystem : System where
  store := World.empty.store
  devices _ := {}

theorem initial_emptySystem : emptySystem.Initial :=
  ⟨fun _ => rfl, World.initial_empty.inFlight⟩

/-- The form that Alice fills in. -/
def aliceForm : CreateAccountView :=
  { username := "alice", password := "Passw0rd", confirmPassword := "Passw0rd" }

/-- Alice registers, logs in and taps a pin; the platform is left open, so that no hash is
computed. -/
theorem exists_use (P : Platform) : ∃ past m u, Run (Step P) emptySystem (past ++ [m]) u ∧
    UsesMap 0 m := by
  have hsame : P.stringEq "Passw0rd" "Passw0rd" = true := P.stringEq_equivalence.refl _
  have hcreates : (aliceForm.processInput P).1.Creates P (.snapshot []) := by
    refine ⟨rfl, rfl, ?_, ?_, ?_, rfl, hsame⟩
    · show (!isPasswordMatch P "Passw0rd" "Passw0rd") = false
      rw [isPasswordMatch, hsame]
      rfl
    · show (!isUsernameValid "alice") = false
      decide
    · show (!isPasswordValid "Passw0rd") = false
      decide
  have h1 := (Run.nil emptySystem).snoc
    (Step.device (P := P) 0 rfl (.form 0 (fun _ => rfl) (.edit _ .username "alice")))
  have h2 := (h1.snoc (.device 0 rfl (.form 0 (fun _ => rfl) (.edit _ .password "Passw0rd")))).snoc
    (.device 0 rfl (.form 0 (fun _ => rfl) (.edit _ .confirmPassword "Passw0rd")))
  have h3 := h2.snoc (.device 0 rfl (.form 0 (fun _ => rfl) (.tap _)))
  have h4 := h3.snoc (.device 0 rfl (.form 0 (fun h => by cases h) (.complete
    (q := ⟨0, "alice", 0⟩) (r := .snapshot []) (List.mem_singleton_self _)
    (fun _ => ⟨[], rfl, 0, le_rfl, le_rfl, .refl _⟩)
    (CreateAccountView.completion_of_creates hcreates))))
  have h5 := h4.snoc (.commit .user ⟨1, (aliceForm.processInput P).1.userFields P⟩
    (List.mem_singleton_self _))
  have h6 := (h5.snoc (.device 0 rfl (.session (by simp) (.editUsername _ "alice" rfl)))).snoc
    (.device 0 rfl (.session (by simp) (.editPassword _ "Passw0rd" rfl)))
  have h7 := h6.snoc (.device 0 rfl (.session (by simp) (.login _ rfl)))
  have hmatches : (LoginView.credentialQuery "alice" (P.passwordValue "Passw0rd")).Matches
      ⟨1, (aliceForm.processInput P).1.userFields P⟩ :=
    LoginView.credentialQuery_matches.mpr ⟨rfl, rfl⟩
  have h8 := h7.snoc (.device 0 rfl (.session (by simp) (.complete
    (q := ⟨0, "alice", P.passwordValue "Passw0rd", 1⟩)
    (r := .snapshot [⟨1, (aliceForm.processInput P).1.userFields P⟩])
    (List.mem_singleton_self _) (fun _ => ⟨_, rfl, 1, le_rfl, le_rfl, by
      rw [List.filter_eq_self.mpr]
      · rfl
      · intro d hd
        obtain rfl := List.mem_singleton.mp hd
        exact decide_eq_true hmatches⟩) rfl)))
  have h9 := h8.snoc (.device 0 rfl (.navigation (i := 0) rfl ⟨rfl, rfl⟩
    (.tapPin _ Navigation.akul rfl (show _ ∈ addPins by decide) (fun h => by cases h))))
  exact ⟨_, _, _, h9, .inr ⟨0, _, rfl, .inl rfl⟩⟩

/-- Alice at her map. -/
theorem alice_uses_her_map : ∃ past m u, Run (Step .bcrypt) emptySystem (past ++ [m]) u ∧
    UsesMap 0 m ∧ ∃ login view d,
      (∃ m ∈ past, TapsLogin 0 login m) ∧ (∃ m ∈ past, Registers .bcrypt view d m) ∧
      d ∈ (m.source.store .user).docs ∧ (m.source.devices 0).session.account =
        some ⟨view.firstName, view.lastName, view.username⟩ ∧
      view.username = login.username ∧ (Fits view.password → Fits login.password →
        ∃ hash, d.get? "Password" = some (.string hash) ∧
          verifyPassword Platform.bcrypt.stringEq login.password hash = some (some true)) := by
  obtain ⟨past, m, u, run, huses⟩ := exists_use .bcrypt
  exact ⟨past, m, u, run, huses, map_user_registered bcrypt_runsBCrypt bcrypt_comparesPlain
    initial_emptySystem rfl run (List.prefix_refl _) huses⟩

end System

end Pindex
