/-!
# Patterns with lookahead

The fragment of regular expressions that input validators are written in: single
symbols from a class, sequences, bounded and open-ended repetitions, and zero-width
lookahead. `rests r w` runs the backtracking search and collects what each way of
matching a prefix of `w` leaves over; a pattern matches the whole of `w` when some way
leaves nothing (`WholeMatch`).

`Matches r w v` is the meaning of a pattern, without a search: `r` matches a prefix of `w`
and leaves `v`. The search finds exactly what matches (`mem_rests`), and the lemmas about
single symbols turn a validator's pattern into counting and membership.
-/

/-- `atLeast r m` is `r{m,}` and `between r m n` is `r{m,n}`. -/
inductive Pattern (α : Type) where
  | symbol (accepts : α → Bool)
  | seq (r s : Pattern α)
  | atLeast (r : Pattern α) (m : Nat)
  | between (r : Pattern α) (m n : Nat)
  | lookahead (r : Pattern α)

namespace Pattern

variable {α : Type}

/-- What is left after `k` matches in a row. -/
def exactly (f : List α → List (List α)) : Nat → List α → List (List α)
  | 0, w => [w]
  | k + 1, w => (f w).flatMap (exactly f k)

/-- What is left after at most `k` matches in a row. -/
def upTo (f : List α → List (List α)) : Nat → List α → List (List α)
  | 0, w => [w]
  | k + 1, w => w :: (f w).flatMap (upTo f k)

/-- What each way of matching a prefix of the word leaves over. In an open-ended
repetition every further match that matters consumes a symbol, so the length of the
word bounds their number. -/
def rests : Pattern α → List α → List (List α)
  | .symbol _, [] => []
  | .symbol accepts, a :: w => if accepts a then [w] else []
  | .seq r s, w => (rests r w).flatMap (rests s)
  | .atLeast r m, w => (exactly (rests r) m w).flatMap fun v => upTo (rests r) v.length v
  | .between r m n, w => (exactly (rests r) m w).flatMap (upTo (rests r) (n - m))
  | .lookahead r, w => if (rests r w).isEmpty then [] else [w]

/-- The pattern matches the whole word. -/
def WholeMatch (r : Pattern α) (w : List α) : Bool :=
  (rests r w).any List.isEmpty

/-! ## The meaning of a pattern -/

/-- `k` matches in a row. -/
def Repeats (R : List α → List α → Prop) : Nat → List α → List α → Prop
  | 0, w, v => w = v
  | k + 1, w, v => ∃ u, R w u ∧ Repeats R k u v

/-- The pattern matches a prefix of the first word and leaves the second. -/
def Matches : Pattern α → List α → List α → Prop
  | .symbol accepts, w, v => ∃ a, accepts a = true ∧ w = a :: v
  | .seq r s, w, v => ∃ u, Matches r w u ∧ Matches s u v
  | .atLeast r m, w, v => ∃ k, m ≤ k ∧ Repeats (Matches r) k w v
  | .between r m n, w, v => ∃ k, m ≤ k ∧ k ≤ max m n ∧ Repeats (Matches r) k w v
  | .lookahead r, w, v => w = v ∧ ∃ u, Matches r w u

theorem repeats_add {R : List α → List α → Prop} {j k : Nat} {w v : List α} :
    Repeats R (j + k) w v ↔ ∃ u, Repeats R j w u ∧ Repeats R k u v := by
  induction j generalizing w with
  | zero => simp [Repeats]
  | succ j ih =>
    rw [Nat.succ_add]
    constructor
    · rintro ⟨u, hu, hrest⟩
      obtain ⟨t, hj, hk⟩ := ih.mp hrest
      exact ⟨t, ⟨u, hu, hj⟩, hk⟩
    · rintro ⟨t, ⟨u, hu, hj⟩, hk⟩
      exact ⟨u, hu, ih.mpr ⟨t, hj, hk⟩⟩

/-- A match leaves a suffix. -/
theorem Repeats.suffix {R : List α → List α → Prop} (hR : ∀ w v, R w v → v <:+ w) {k : Nat}
    {w v : List α} (h : Repeats R k w v) : v <:+ w := by
  induction k generalizing w with
  | zero => exact h ▸ List.suffix_refl w
  | succ k ih =>
    obtain ⟨u, hu, hrest⟩ := h
    exact (ih hrest).trans (hR w u hu)

theorem Matches.suffix {r : Pattern α} {w v : List α} (h : Matches r w v) : v <:+ w := by
  induction r generalizing w v with
  | symbol accepts =>
    obtain ⟨a, -, rfl⟩ := h
    exact List.suffix_cons a v
  | seq r s ihr ihs =>
    obtain ⟨u, hr, hs⟩ := h
    exact (ihs hs).trans (ihr hr)
  | atLeast r m ih =>
    obtain ⟨k, -, hk⟩ := h
    exact hk.suffix fun _ _ => ih
  | between r m n ih =>
    obtain ⟨k, -, -, hk⟩ := h
    exact hk.suffix fun _ _ => ih
  | lookahead r =>
    obtain ⟨rfl, -⟩ := h
    exact List.suffix_refl w

/-! ## The search finds what matches -/

section Search

variable {f : List α → List (List α)} {R : List α → List α → Prop}

theorem mem_exactly (hf : ∀ w v, v ∈ f w ↔ R w v) {k : Nat} {w v : List α} :
    v ∈ exactly f k w ↔ Repeats R k w v := by
  induction k generalizing w with
  | zero => simp [exactly, Repeats, eq_comm]
  | succ k ih => simp [exactly, Repeats, ih, hf]

theorem mem_upTo (hf : ∀ w v, v ∈ f w ↔ R w v) {k : Nat} {w v : List α} :
    v ∈ upTo f k w ↔ ∃ j, j ≤ k ∧ Repeats R j w v := by
  induction k generalizing w with
  | zero =>
    simp only [upTo, List.mem_singleton, Nat.le_zero]
    constructor
    · rintro rfl
      exact ⟨0, rfl, rfl⟩
    · rintro ⟨_, rfl, h⟩
      exact h.symm
  | succ k ih =>
    simp only [upTo, List.mem_cons, List.mem_flatMap, ih, hf]
    constructor
    · rintro (rfl | ⟨u, hu, j, hj, hrest⟩)
      · exact ⟨0, Nat.zero_le _, rfl⟩
      · exact ⟨j + 1, Nat.succ_le_succ hj, u, hu, hrest⟩
    · rintro ⟨j, hj, h⟩
      cases j with
      | zero => exact .inl h.symm
      | succ j =>
        obtain ⟨u, hu, hrest⟩ := h
        exact .inr ⟨u, hu, j, Nat.le_of_succ_le_succ hj, hrest⟩

/-- Matches that consume nothing can be left out, and the others shorten the word. -/
theorem Repeats.shorten (hR : ∀ w v, R w v → v <:+ w) {k : Nat} {w v : List α}
    (h : Repeats R k w v) : ∃ j, j ≤ w.length ∧ Repeats R j w v := by
  induction k generalizing w with
  | zero => exact ⟨0, Nat.zero_le _, h⟩
  | succ k ih =>
    obtain ⟨u, hu, hrest⟩ := h
    obtain ⟨j, hj, hshort⟩ := ih hrest
    have hle := (hR w u hu).length_le
    by_cases hlen : u.length = w.length
    · obtain rfl : u = w := (hR w u hu).eq_of_length hlen
      exact ⟨j, hj, hshort⟩
    · exact ⟨j + 1, by omega, u, hu, hshort⟩

end Search

/-- The search finds exactly what matches. -/
theorem mem_rests {r : Pattern α} {w v : List α} : v ∈ rests r w ↔ Matches r w v := by
  induction r generalizing w v with
  | symbol accepts =>
    cases w with
    | nil => simp [rests, Matches]
    | cons a w =>
      by_cases ha : accepts a = true
      · rw [rests, if_pos ha, List.mem_singleton]
        constructor
        · rintro rfl
          exact ⟨a, ha, rfl⟩
        · rintro ⟨b, -, heq⟩
          exact (List.cons.inj heq).2.symm
      · rw [rests, if_neg ha]
        refine iff_of_false List.not_mem_nil ?_
        rintro ⟨b, hb, heq⟩
        exact ha ((List.cons.inj heq).1 ▸ hb)
  | seq r s ihr ihs => simp only [rests, Matches, List.mem_flatMap, ihr, ihs]
  | atLeast r m ih =>
    simp only [rests, Matches, List.mem_flatMap, mem_exactly fun _ _ => ih,
      mem_upTo fun _ _ => ih]
    constructor
    · rintro ⟨u, hm, j, -, hj⟩
      exact ⟨m + j, Nat.le_add_right m j, repeats_add.mpr ⟨u, hm, hj⟩⟩
    · rintro ⟨k, hk, h⟩
      obtain ⟨j, rfl⟩ := Nat.exists_eq_add_of_le hk
      obtain ⟨u, hm, hj⟩ := repeats_add.mp h
      obtain ⟨i, hi, hshort⟩ := hj.shorten fun _ _ => Matches.suffix
      exact ⟨u, hm, i, hi, hshort⟩
  | between r m n ih =>
    simp only [rests, Matches, List.mem_flatMap, mem_exactly fun _ _ => ih,
      mem_upTo fun _ _ => ih]
    constructor
    · rintro ⟨u, hm, j, hj, hrest⟩
      exact ⟨m + j, by omega, by omega, repeats_add.mpr ⟨u, hm, hrest⟩⟩
    · rintro ⟨k, hm, hn, h⟩
      obtain ⟨j, rfl⟩ := Nat.exists_eq_add_of_le hm
      obtain ⟨u, hu, hrest⟩ := repeats_add.mp h
      exact ⟨u, hu, j, by omega, hrest⟩
  | lookahead r ih =>
    by_cases hnil : rests r w = []
    · have hnone : ¬ ∃ u, Matches r w u := by
        rintro ⟨u, hu⟩
        exact List.ne_nil_of_mem (ih.mpr hu) hnil
      simp [rests, Matches, hnil, hnone]
    · have hsome : ∃ u, Matches r w u := by
        obtain ⟨u, hu⟩ := List.exists_mem_of_ne_nil _ hnil
        exact ⟨u, ih.mp hu⟩
      rw [rests, if_neg (by simpa using hnil), List.mem_singleton]
      exact ⟨fun h => ⟨h.symm, hsome⟩, fun h => h.1.symm⟩

theorem wholeMatch_iff {r : Pattern α} {w : List α} :
    WholeMatch r w = true ↔ Matches r w [] := by
  simp [WholeMatch, ← mem_rests]

/-! ## Single symbols -/

variable {p : α → Bool}

theorem repeats_symbol {k : Nat} {w v : List α} : Repeats (Matches (.symbol p)) k w v ↔
    ∃ u, w = u ++ v ∧ u.length = k ∧ ∀ a ∈ u, p a = true := by
  induction k generalizing w with
  | zero =>
    constructor
    · intro h
      exact ⟨[], h, rfl, by simp⟩
    · rintro ⟨u, rfl, hlen, -⟩
      rw [List.length_eq_zero_iff.mp hlen]
      rfl
  | succ k ih =>
    constructor
    · rintro ⟨t, ⟨a, ha, rfl⟩, hrest⟩
      obtain ⟨u, rfl, rfl, hu⟩ := ih.mp hrest
      exact ⟨a :: u, rfl, rfl, List.forall_mem_cons.mpr ⟨ha, hu⟩⟩
    · rintro ⟨u, rfl, hlen, hu⟩
      cases u with
      | nil => cases hlen
      | cons a u =>
        rw [List.forall_mem_cons] at hu
        exact ⟨u ++ v, ⟨a, hu.1, rfl⟩, ih.mpr ⟨u, rfl, Nat.succ.inj hlen, hu.2⟩⟩

/-- `[p]{m,}` matches the words of `m` symbols or more from the class. -/
theorem matches_atLeast_symbol {m : Nat} {w : List α} : Matches (.atLeast (.symbol p) m) w [] ↔
    m ≤ w.length ∧ ∀ a ∈ w, p a = true := by
  constructor
  · rintro ⟨k, hk, hrep⟩
    obtain ⟨u, rfl, rfl, hu⟩ := repeats_symbol.mp hrep
    rw [List.append_nil]
    exact ⟨hk, hu⟩
  · rintro ⟨hm, hw⟩
    exact ⟨w.length, hm, repeats_symbol.mpr ⟨w, (List.append_nil w).symm, rfl, hw⟩⟩

/-- `[p]{m,n}` matches the words of `m` to `n` symbols from the class. -/
theorem matches_between_symbol {m n : Nat} (h : m ≤ n) {w : List α} :
    Matches (.between (.symbol p) m n) w [] ↔
      m ≤ w.length ∧ w.length ≤ n ∧ ∀ a ∈ w, p a = true := by
  constructor
  · rintro ⟨k, hm, hn, hrep⟩
    obtain ⟨u, rfl, rfl, hu⟩ := repeats_symbol.mp hrep
    rw [List.append_nil]
    exact ⟨hm, by omega, hu⟩
  · rintro ⟨hm, hn, hw⟩
    have hrep := repeats_symbol.mpr ⟨w, (List.append_nil w).symm, rfl, hw⟩
    exact ⟨w.length, hm, by omega, hrep⟩

/-- `(?=r)s` matches what `s` matches, where `r` matches too. -/
theorem matches_lookahead_seq {r s : Pattern α} {w v : List α} :
    Matches (.seq (.lookahead r) s) w v ↔ (∃ u, Matches r w u) ∧ Matches s w v := by
  constructor
  · rintro ⟨u, ⟨rfl, hr⟩, hs⟩
    exact ⟨hr, hs⟩
  · rintro ⟨hr, hs⟩
    exact ⟨w, ⟨rfl, hr⟩, hs⟩

/-- On words of `p`s, `[p]*[q]` matches somewhere exactly when a `q` occurs. -/
theorem exists_matches_symbol {q : α → Bool} {w : List α} (h : ∀ a ∈ w, p a = true) :
    (∃ u, Matches (.seq (.atLeast (.symbol p) 0) (.symbol q)) w u) ↔ ∃ a ∈ w, q a = true := by
  constructor
  · rintro ⟨u, t, ht, a, ha, rfl⟩
    exact ⟨a, (Matches.suffix ht).subset List.mem_cons_self, ha⟩
  · rintro ⟨a, haw, ha⟩
    obtain ⟨before, after, rfl⟩ := List.append_of_mem haw
    have hbefore : ∀ b ∈ before, p b = true := fun b hb => h b (List.mem_append_left _ hb)
    have hskip : Matches (.atLeast (.symbol p) 0) (before ++ a :: after) (a :: after) :=
      ⟨before.length, Nat.zero_le _, repeats_symbol.mpr ⟨before, rfl, rfl, hbefore⟩⟩
    exact ⟨after, a :: after, hskip, a, ha, rfl⟩

end Pattern
