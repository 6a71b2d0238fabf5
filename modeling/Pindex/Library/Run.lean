import Mathlib.Data.List.Induction

/-!
# Runs of a labelled step relation

A system is a step relation `Step s e t` between states, labelled by events. A run is
recorded with all its moves, so that a law about a run can speak of the state each
event found and of the state it left. This file has the rules the proofs use:

* `Run.invariant` and `Run.guarded`, the induction rules: an invariant kept by every
  step, and one kept by every step that meets a guard;
* `Run.forall_target_iff`: if in good states a step leads to a good state exactly when
  it meets the guard, a run stays good exactly when all its moves meet the guard;
* `Since`, the past operator "some move was an `A`, and every move after it a `B`", and
  `Throughout`, "at every point of the run";
* `Last`, what a register has been set to last, with `Run.last`, the rule for a part of the
  state that is such a register.
-/

namespace Transition

variable {σ ε : Type*}

/-- One step of a run: the state it finds, its event and the state it leaves. -/
structure Move (σ ε : Type*) where
  source : σ
  event : ε
  target : σ

/-- `Run Step s tr t`: the moves `tr`, in this order, lead from `s` to `t`. -/
inductive Run (Step : σ → ε → σ → Prop) : σ → List (Move σ ε) → σ → Prop
  | nil (s : σ) : Run Step s [] s
  | snoc {s t u : σ} {tr : List (Move σ ε)} {e : ε} (run : Run Step s tr t)
      (step : Step t e u) : Run Step s (tr ++ [⟨t, e, u⟩]) u

/-- `t` is reached from `s` by some run. -/
def Reaches (Step : σ → ε → σ → Prop) (s t : σ) : Prop :=
  ∃ tr, Run Step s tr t

variable {Step : σ → ε → σ → Prop} {s t u : σ} {tr tr' : List (Move σ ε)}

/-! ## Composing and splitting runs -/

theorem Run.reaches (run : Run Step s tr t) : Reaches Step s t :=
  ⟨tr, run⟩

theorem Reaches.refl (s : σ) : Reaches Step s s :=
  ⟨[], .nil s⟩

theorem Reaches.step {e : ε} (h : Reaches Step s t) (step : Step t e u) : Reaches Step s u := by
  obtain ⟨tr, run⟩ := h
  exact ⟨_, run.snoc step⟩

theorem Run.append (h : Run Step s tr t) (h' : Run Step t tr' u) : Run Step s (tr ++ tr') u := by
  induction h' with
  | nil => simpa using h
  | snoc _ step ih =>
    rw [← List.append_assoc]
    exact ih.snoc step

theorem Reaches.trans (h : Reaches Step s t) (h' : Reaches Step t u) : Reaches Step s u := by
  obtain ⟨_, run⟩ := h
  obtain ⟨_, run'⟩ := h'
  exact (run.append run').reaches

theorem Run.nil_inv (h : Run Step s [] t) : t = s := by
  generalize hnil : ([] : List (Move σ ε)) = tr at h
  cases h with
  | nil => rfl
  | snoc => simp at hnil

theorem Run.snoc_inv {m : Move σ ε} (h : Run Step s (tr ++ [m]) u) :
    Run Step s tr m.source ∧ Step m.source m.event m.target ∧ u = m.target := by
  generalize htr : tr ++ [m] = tr' at h
  cases h with
  | nil => simp at htr
  | snoc run step =>
    obtain ⟨rfl, hm⟩ := List.append_inj' htr rfl
    obtain rfl := List.singleton_inj.mp hm
    exact ⟨run, step, rfl⟩

theorem Run.split (h : Run Step s (tr ++ tr') u) :
    ∃ t, Run Step s tr t ∧ Run Step t tr' u := by
  induction tr' using List.reverseRecOn generalizing u with
  | nil => exact ⟨u, by simpa using h, .nil u⟩
  | append_singleton tr' m ih =>
    rw [← List.append_assoc] at h
    obtain ⟨run, step, rfl⟩ := h.snoc_inv
    obtain ⟨t, ht, ht'⟩ := ih run
    exact ⟨t, ht, ht'.snoc step⟩

/-- Every move of a run is a step, from a state the run reaches. -/
theorem Run.move_of_mem (h : Run Step s tr u) {m : Move σ ε} (hm : m ∈ tr) :
    Reaches Step s m.source ∧ Step m.source m.event m.target := by
  induction h with
  | nil => simp at hm
  | snoc run step ih =>
    rcases List.mem_append.mp hm with hm | hm
    · exact ih hm
    · obtain rfl := List.mem_singleton.mp hm
      exact ⟨run.reaches, step⟩

/-- A prefix of a run with its last move is a run and a step. -/
theorem Run.of_past (h : Run Step s tr u) {past : List (Move σ ε)} {m : Move σ ε}
    (hpast : past ++ [m] <+: tr) :
    Run Step s past m.source ∧ Step m.source m.event m.target := by
  obtain ⟨rest, rfl⟩ := hpast
  obtain ⟨t, run, -⟩ := h.split
  exact ⟨run.snoc_inv.1, run.snoc_inv.2.1⟩

/-- Every move of a run is made from the state that the moves before it lead to. -/
theorem Run.exists_past (h : Run Step s tr u) {m : Move σ ε} (hm : m ∈ tr) :
    ∃ past, past ++ [m] <+: tr ∧ Run Step s past m.source := by
  obtain ⟨past, rest, rfl⟩ := List.append_of_mem hm
  have hpast : past ++ [m] <+: past ++ m :: rest := ⟨rest, by simp⟩
  exact ⟨past, hpast, (h.of_past hpast).1⟩

/-- The rest of a run starts where the move before it has led. -/
theorem Run.after {before after : List (Move σ ε)} {m : Move σ ε}
    (h : Run Step s (before ++ m :: after) u) : Run Step m.target after u := by
  rw [List.append_cons] at h
  obtain ⟨t, hbefore, hafter⟩ := h.split
  rwa [hbefore.snoc_inv.2.2] at hafter

/-- Between two moves a run leads from the state the first left to the one the second
found. -/
theorem Run.between {before mid after : List (Move σ ε)} {m m' : Move σ ε}
    (h : Run Step s (before ++ m :: (mid ++ m' :: after)) u) : Run Step m.target mid m'.source := by
  have hrest : Run Step m.target ((mid ++ [m']) ++ after) u := by
    rw [← List.append_cons]
    exact h.after
  obtain ⟨t, hmid, -⟩ := hrest.split
  exact hmid.snoc_inv.1

/-- What holds after a run and not before it has been brought about by some move. -/
theorem Run.exists_change {I : σ → Prop} (h : Run Step s tr t) (hs : ¬ I s) (ht : I t) :
    ∃ m ∈ tr, ¬ I m.source ∧ I m.target := by
  induction h with
  | nil => exact absurd ht hs
  | @snoc t u tr e run step ih =>
    by_cases hbefore : I t
    · obtain ⟨m, hm, hchange⟩ := ih hbefore
      exact ⟨m, List.mem_append_left _ hm, hchange⟩
    · exact ⟨⟨t, e, u⟩, by simp, hbefore, ht⟩

/-- A law about the moves of a run, each with the moves before it. -/
theorem forall_mem_iff_past {Q : Move σ ε → Prop} :
    (∀ m ∈ tr, Q m) ↔ ∀ past m, past ++ [m] <+: tr → Q m := by
  constructor
  · intro h past m hpast
    exact h m (hpast.subset (by simp))
  · intro h m hm
    obtain ⟨past, rest, rfl⟩ := List.append_of_mem hm
    exact h past m ⟨rest, by simp⟩

/-! ## Invariants -/

/-- An invariant kept by every step holds after every run. -/
theorem Run.invariant {I : σ → Prop} (h0 : I s)
    (hstep : ∀ t e u, I t → Step t e u → I u) (h : Run Step s tr t) : I t := by
  induction h with
  | nil => exact h0
  | snoc _ step ih => exact hstep _ _ _ ih step

theorem Reaches.invariant {I : σ → Prop} (h0 : I s)
    (hstep : ∀ t e u, I t → Step t e u → I u) (h : Reaches Step s t) : I t := by
  obtain ⟨_, run⟩ := h
  exact run.invariant h0 hstep

/-- An invariant kept by every step that meets the guard `G` holds in every state of a
run whose moves all meet `G`. -/
theorem Run.guarded {I : σ → Prop} {G : Move σ ε → Prop} (h0 : I s)
    (hstep : ∀ m : Move σ ε, Reaches Step s m.source → I m.source →
      Step m.source m.event m.target → G m → I m.target)
    (h : Run Step s tr t) (hG : ∀ m ∈ tr, G m) :
    I t ∧ ∀ m ∈ tr, I m.source ∧ I m.target := by
  induction h with
  | nil => exact ⟨h0, by simp⟩
  | @snoc t u tr e run step ih =>
    obtain ⟨ht, hall⟩ := ih fun m hm => hG m (List.mem_append_left _ hm)
    have hu : I u := hstep ⟨t, e, u⟩ run.reaches ht step (hG _ (by simp))
    refine ⟨hu, fun m hm => ?_⟩
    rcases List.mem_append.mp hm with hm | hm
    · exact hall m hm
    · obtain rfl := List.mem_singleton.mp hm
      exact ⟨ht, hu⟩

/-- If a step from a good state leads to a good state exactly when it meets `G`, then a
run stays good exactly when all its moves meet `G`. -/
theorem Run.forall_target_iff {P : σ → Prop} {G : Move σ ε → Prop} (h0 : P s)
    (hstep : ∀ m : Move σ ε, Reaches Step s m.source → P m.source →
      Step m.source m.event m.target → (P m.target ↔ G m))
    (h : Run Step s tr t) : (∀ m ∈ tr, P m.target) ↔ ∀ m ∈ tr, G m := by
  constructor
  · intro hP
    induction h with
    | nil => simp
    | @snoc t u tr e run step ih =>
      have hP' : ∀ m ∈ tr, P m.target := fun m hm => hP m (List.mem_append_left _ hm)
      have ht : P t := by
        rcases List.eq_nil_or_concat tr with rfl | ⟨tr', m, rfl⟩
        · exact run.nil_inv ▸ h0
        · rw [List.concat_eq_append] at run hP'
          exact run.snoc_inv.2.2 ▸ hP' m (by simp)
      intro m hm
      rcases List.mem_append.mp hm with hm | hm
      · exact ih hP' m hm
      · obtain rfl := List.mem_singleton.mp hm
        exact (hstep _ run.reaches ht step).mp (hP _ (by simp))
  · intro hG m hm
    have hinv := h.guarded (I := P) h0
      (fun m hr hs hst hg => (hstep m hr hs hst).mpr hg) hG
    exact (hinv.2 m hm).2

/-! ## Past operators -/

/-- Some move of the past was an `A`, and every move after it a `B`. -/
def Since (A B : Move σ ε → Prop) (past : List (Move σ ε)) : Prop :=
  ∃ before m after, past = before ++ m :: after ∧ A m ∧ ∀ m' ∈ after, B m'

variable {A B : Move σ ε → Prop}

@[simp] theorem since_nil : ¬ Since A B [] := by
  rintro ⟨before, m, after, h, -⟩
  simp at h

@[simp] theorem since_snoc {past : List (Move σ ε)} {m : Move σ ε} :
    Since A B (past ++ [m]) ↔ A m ∨ (B m ∧ Since A B past) := by
  constructor
  · rintro ⟨before, a, after, h, ha, hb⟩
    rcases List.eq_nil_or_concat after with rfl | ⟨after', m', rfl⟩
    · obtain ⟨-, hm⟩ := List.append_inj' h rfl
      obtain rfl := List.singleton_inj.mp hm
      exact .inl ha
    · rw [List.concat_eq_append, ← List.cons_append, ← List.append_assoc] at h
      obtain ⟨rfl, hm⟩ := List.append_inj' h rfl
      obtain rfl := List.singleton_inj.mp hm
      exact .inr ⟨hb _ (by simp), before, a, after', rfl, ha, fun m' hm' => hb m' (by simp [hm'])⟩
  · rintro (ha | ⟨hb, before, a, after, rfl, ha, hall⟩)
    · exact ⟨past, m, [], rfl, ha, by simp⟩
    · refine ⟨before, a, after ++ [m], by simp, ha, fun m' hm' => ?_⟩
      rcases List.mem_append.mp hm' with hm' | hm'
      · exact hall m' hm'
      · exact List.mem_singleton.mp hm' ▸ hb

@[simp] theorem since_singleton {m : Move σ ε} : Since A B [m] ↔ A m := by
  rw [← List.nil_append [m], since_snoc]
  simp

/-- Only the moves after the last one that is neither an `A` nor a `B` matter. -/
theorem since_of_reset {past after : List (Move σ ε)} {m : Move σ ε} (hA : ¬ A m) (hB : ¬ B m)
    (hafter : ∀ m' ∈ after, B m') :
    Since A B (past ++ [m] ++ after) ↔ ∃ m' ∈ after, A m' := by
  induction after using List.reverseRecOn with
  | nil => simp [hA, hB]
  | append_singleton after m' ih =>
    rw [List.forall_mem_append, List.forall_mem_singleton] at hafter
    rw [← List.append_assoc, since_snoc, ih hafter.1]
    constructor
    · rintro (ha | ⟨-, m'', hm'', ha⟩)
      · exact ⟨m', by simp, ha⟩
      · exact ⟨m'', List.mem_append_left _ hm'', ha⟩
    · rintro ⟨m'', hm'', ha⟩
      rcases List.mem_append.mp hm'' with hm'' | hm''
      · exact .inr ⟨hafter.2, m'', hm'', ha⟩
      · exact .inl (List.mem_singleton.mp hm'' ▸ ha)

/-- `P past t` at every point `t` of the run, `past` being the moves up to it. -/
def Throughout (Step : σ → ε → σ → Prop) (s : σ) (tr : List (Move σ ε))
    (P : List (Move σ ε) → σ → Prop) : Prop :=
  ∀ past t, past <+: tr → Run Step s past t → P past t

variable {P : List (Move σ ε) → σ → Prop}

theorem throughout_nil : Throughout Step s [] P ↔ P [] s := by
  constructor
  · intro h
    exact h [] s (List.prefix_refl _) (.nil s)
  · intro h past t hpast run
    obtain rfl := List.prefix_nil.mp hpast
    exact run.nil_inv ▸ h

theorem throughout_snoc {m : Move σ ε} (h : Run Step s (tr ++ [m]) u) :
    Throughout Step s (tr ++ [m]) P ↔ Throughout Step s tr P ∧ P (tr ++ [m]) u := by
  constructor
  · intro hall
    exact ⟨fun past t hpast => hall past t (hpast.trans (List.prefix_append _ _)),
      hall _ u (List.prefix_refl _) h⟩
  · rintro ⟨hall, hlast⟩ past t hpast run
    rcases List.prefix_concat_iff.mp hpast with rfl | hpast
    · rw [run.snoc_inv.2.2, ← h.snoc_inv.2.2]
      exact hlast
    · exact hall past t hpast run

/-! ## Registers -/

variable {α : Type*} {S : α → Move σ ε → Prop} {past : List (Move σ ε)} {value : Option α}

/-- What a register holds after `past`, when `S x m` says that the move `m` sets it to `x`: the
`x` of the last move that has set it, and nothing before the first. -/
def Last (S : α → Move σ ε → Prop) (past : List (Move σ ε)) : Option α → Prop
  | some x => Since (S x) (fun m => ¬ ∃ y, S y m) past
  | none => ∀ m ∈ past, ¬ ∃ y, S y m

theorem last_snoc_of_sets {m : Move σ ε} {x : α} (h : S x m) : Last S (past ++ [m]) (some x) :=
  since_snoc.mpr (.inl h)

theorem last_snoc_of_keeps {m : Move σ ε} (h : ¬ ∃ y, S y m) (hlast : Last S past value) :
    Last S (past ++ [m]) value := by
  cases value with
  | some x => exact since_snoc.mpr (.inr ⟨h, hlast⟩)
  | none =>
    intro m' hm'
    rcases List.mem_append.mp hm' with hm' | hm'
    · exact hlast m' hm'
    · exact List.mem_singleton.mp hm' ▸ h

/-- A part of the state that the moves of `S` set, and that all others leave, is a register. -/
theorem Run.last {f : σ → Option α} (h0 : f s = none)
    (hsets : ∀ m : Move σ ε, Reaches Step s m.source → Step m.source m.event m.target →
      ∀ x, S x m → f m.target = some x)
    (hkeeps : ∀ m : Move σ ε, Reaches Step s m.source → Step m.source m.event m.target →
      (¬ ∃ x, S x m) → f m.target = f m.source)
    (h : Run Step s tr t) : Last S tr (f t) := by
  induction h with
  | nil =>
    rw [h0]
    exact fun m hm => absurd hm List.not_mem_nil
  | @snoc t u tr e run step ih =>
    by_cases hset : ∃ x, S x ⟨t, e, u⟩
    · obtain ⟨x, hx⟩ := hset
      have hu : f u = some x := hsets ⟨t, e, u⟩ run.reaches step x hx
      rw [hu]
      exact last_snoc_of_sets hx
    · have hu : f u = f t := hkeeps ⟨t, e, u⟩ run.reaches step hset
      rw [hu]
      exact last_snoc_of_keeps hset ih

end Transition
