import Pindex.HashTheorems

/-!
# `BCryptSwiftRandom`, and the salts made from it

`arc4random` is a tape of draws here: each call takes the next number, and a loop that has
come to the end of the tape still waits. `generateNumberSequenceBetween` with unique values is
the one loop that may take any number of draws; `uniqueSequence_eq_done_iff` says on which
draws it returns, and what. `generateSaltWithNumberOfRounds` writes 16 drawn bytes behind a
header, and `generatedSalt_verifies` says for which rounds that is a salt for `hashPassword`.
-/

namespace Pindex.BCryptSwiftRandom

open BCryptSwift

/-- How a call ends that draws from a tape. -/
inductive Outcome (α : Type) where
  | trap
  | waits
  | done (value : α) (rest : List UInt32)
deriving DecidableEq, Repr

def Outcome.map {α β : Type} (f : α → β) : Outcome α → Outcome β
  | .trap => .trap
  | .waits => .waits
  | .done value rest => .done (f value) rest

/-- The result of `Int32` arithmetic, which traps on overflow. -/
def int32 (n : ℤ) : Option ℤ := if -2 ^ 31 ≤ n ∧ n < 2 ^ 31 then some n else none

/-- `generateNumberBetween(_:_:)`, with the number that `arc4random()` returns. -/
def generateNumberBetween (first second : ℤ) (random : UInt32) : Option ℤ := do
  let low := if first ≤ second then first else second
  let high := if first ≤ second then second else first
  let modular ← int32 ((← int32 (high - low)) + 1)
  int32 ((← int32 (random.toNat % modular)) + low)

def isNumber (number : ℤ) (sequence : List ℤ) (length : ℕ) : Bool :=
  if length < 1 ∨ sequence.length < length then false
  else (sequence.take length).any (· == number)

/-- The loops of `generateNumberSequenceBetween`: draw after draw, the numbers that are
accepted are written to `sequence` from `loop` on. -/
def fillLoop (accepts : ℤ → List ℤ → ℕ → Bool) (first second : ℤ) (length : ℕ) :
    List ℤ → ℕ → List UInt32 → Outcome (List ℤ)
  | sequence, loop, tape =>
    if loop < length then
      match tape with
      | [] => .waits
      | random :: tape =>
        match generateNumberBetween first second random with
        | none => .trap
        | some number =>
          if accepts number sequence loop then
            fillLoop accepts first second length (sequence.set loop number) (loop + 1) tape
          else fillLoop accepts first second length sequence loop tape
    else .done sequence tape

def generateNumberSequenceBetween (first second length : ℤ) (unique : Bool)
    (tape : List UInt32) : Outcome (List ℤ) :=
  if length < 1 then .done [] tape
  else
    let sequence := List.replicate length.toNat 0
    if unique then
      match (int32 (if first ≤ second then second - first else first - second)).bind fun span =>
          int32 (span + 1) with
      | none => .trap
      | some numbers =>
        if length > numbers then .done [] tape
        else fillLoop (fun number sequence loop => !isNumber number sequence loop) first second
          length.toNat sequence 0 tape
    else fillLoop (fun _ _ _ => true) first second length.toNat sequence 0 tape

/-- `Int8(_:)` of a number that fits, as a byte. -/
def byte (n : ℤ) : UInt8 := .ofNat (n % 256).toNat

/-- `generateRandomSignedDataOfLength(_:)`; the conversions do not trap. -/
def generateRandomSignedDataOfLength (length : ℤ) (tape : List UInt32) : Outcome (List UInt8) :=
  if length < 1 then .done [] tape
  else (generateNumberSequenceBetween (-128) 127 length false tape).map (List.map byte)

/-- `BCryptSwift.generateSaltWithNumberOfRounds(_:)` -/
def generateSaltWithNumberOfRounds (rounds : ℕ) (tape : List UInt32) : Outcome String :=
  (generateRandomSignedDataOfLength BCRYPT_SALT_LEN tape).map fun randomData =>
    .ofList (['$', '2', 'a', '$'] ++ (if rounds < 10 then ['0'] else []) ++ decimal rounds ++
      ['$'] ++ encodeData randomData randomData.length)

/-- `BCryptSwift.generateSalt()` -/
def generateSalt (tape : List UInt32) : Outcome String := generateSaltWithNumberOfRounds 10 tape

/-! ## One draw -/

section Draw

variable {first second n : ℤ} {random : UInt32}

/-- The numbers from `first` to `second`, both included. -/
def span (first second : ℤ) : ℤ := |second - first| + 1

/-- The number that a draw stands for. -/
def numberOf (first second : ℤ) (random : UInt32) : ℤ :=
  min first second + random.toNat % span first second

/-- Both bounds are an `Int32`, and so is how many numbers there are between them. -/
structure Bounds (first second : ℤ) : Prop where
  first_mem : -2 ^ 31 ≤ first ∧ first < 2 ^ 31
  second_mem : -2 ^ 31 ≤ second ∧ second < 2 ^ 31
  span_lt : span first second < 2 ^ 31

theorem int32_of_mem (h : -2 ^ 31 ≤ n ∧ n < 2 ^ 31) : int32 n = some n := if_pos h

theorem span_pos : 0 < span first second := by
  unfold span
  have := abs_nonneg (second - first)
  omega

theorem span_eq (first second : ℤ) : span first second = if first ≤ second then second - first + 1
    else first - second + 1 := by
  unfold span
  split
  · rw [abs_of_nonneg (by omega)]
  · rw [abs_of_neg (by omega)]
    omega

theorem generateNumberBetween_eq (h : Bounds first second) (random : UInt32) :
    generateNumberBetween first second random = some (numberOf first second random) := by
  obtain ⟨hfirst, hsecond, hspan⟩ := h
  have hpos : 0 < span first second := span_pos
  have heq := span_eq first second
  have hmod : 0 ≤ (random.toNat : ℤ) % span first second ∧
      (random.toNat : ℤ) % span first second < span first second :=
    ⟨Int.emod_nonneg _ hpos.ne', Int.emod_lt_of_pos _ hpos⟩
  unfold generateNumberBetween numberOf
  -- no intermediate result leaves the range of `Int32`
  by_cases hle : first ≤ second
  · rw [if_pos hle] at heq
    simp only [if_pos hle, Option.bind_eq_bind]
    rw [int32_of_mem (by omega), Option.bind_some, int32_of_mem (by omega), Option.bind_some,
      ← heq, int32_of_mem (by omega), Option.bind_some, int32_of_mem (by omega), min_eq_left hle,
      Int.add_comm]
  · rw [if_neg hle] at heq
    simp only [if_neg hle, Option.bind_eq_bind]
    rw [int32_of_mem (by omega), Option.bind_some, int32_of_mem (by omega), Option.bind_some,
      ← heq, int32_of_mem (by omega), Option.bind_some, int32_of_mem (by omega),
      min_eq_right (by omega), Int.add_comm]

end Draw

/-! ## The loops -/

section Loop

variable {first second : ℤ} {accepts : ℤ → List ℤ → ℕ → Bool} {keeps : List ℤ → ℤ → Bool}
  {length : ℕ} {taken result : List ℤ} {tape rest : List UInt32} {n : ℤ}

/-- The numbers that are kept, one after the other, behind those taken already. -/
def kept (keeps : List ℤ → ℤ → Bool) (taken numbers : List ℤ) : List ℤ :=
  numbers.foldl (fun taken n => if keeps taken n then taken ++ [n] else taken) taken

/-- The array of a loop that has taken some numbers. -/
def filled (length : ℕ) (taken : List ℤ) : List ℤ :=
  taken ++ List.replicate (length - taken.length) 0

theorem filled_set (h : taken.length < length) :
    (filled length taken).set taken.length n = filled length (taken ++ [n]) := by
  obtain ⟨k, rfl⟩ : ∃ k, length = taken.length + (k + 1) := ⟨length - taken.length - 1, by omega⟩
  have hrest : taken.length + (k + 1) - (taken ++ [n]).length = k := by
    rw [List.length_append, List.length_singleton]
    omega
  unfold filled
  rw [hrest, Nat.add_sub_cancel_left, List.set_append_right _ _ le_rfl, Nat.sub_self,
    List.replicate_succ, List.set_cons_zero, List.append_assoc, List.singleton_append]

theorem filled_length : filled length taken = taken ↔ length ≤ taken.length := by
  unfold filled
  rw [List.append_right_eq_self, List.replicate_eq_nil_iff]
  omega

theorem isNumber_filled : isNumber n (filled length taken) taken.length = decide (n ∈ taken) := by
  have htake : (filled length taken).take taken.length = taken := List.take_left
  have hlen : ¬ (filled length taken).length < taken.length := by
    unfold filled
    rw [List.length_append]
    omega
  -- the search covers what has been taken, not the zeros behind it
  unfold isNumber
  rw [htake]
  by_cases hempty : taken.length < 1
  · have hnil : taken = [] := List.length_eq_zero_iff.mp (by omega)
    rw [if_pos (.inl hempty), hnil]
    rfl
  · rw [if_neg (by simp [hempty, hlen])]
    rw [Bool.eq_iff_iff, List.any_eq_true, decide_eq_true_eq]
    simp

/-- The draws fill the array, and the last of them is needed for it. -/
structure Fills (keeps : List ℤ → ℤ → Bool) (first second : ℤ) (length : ℕ)
    (taken result : List ℤ) (used : List UInt32) : Prop where
  kept_eq : kept keeps taken (used.map (numberOf first second)) = result
  length_eq : result.length = length
  needed : ∀ k < used.length,
    (kept keeps taken ((used.take k).map (numberOf first second))).length < length

theorem fills_nil : Fills keeps first second length taken result [] ↔
    taken = result ∧ result.length = length :=
  ⟨fun h => ⟨h.kept_eq, h.length_eq⟩,
    fun h => ⟨h.1, h.2, fun k hk => absurd hk (Nat.not_lt_zero k)⟩⟩

theorem fills_cons {random : UInt32} {used : List UInt32} :
    Fills keeps first second length taken result (random :: used) ↔
      taken.length < length ∧ Fills keeps first second length
        (kept keeps taken [numberOf first second random]) result used := by
  constructor
  · intro h
    exact ⟨h.needed 0 (Nat.succ_pos _), h.kept_eq, h.length_eq,
      fun k hk => h.needed (k + 1) (Nat.succ_lt_succ hk)⟩
  · intro ⟨hlt, h⟩
    refine ⟨h.kept_eq, h.length_eq, fun k hk => ?_⟩
    cases k with
    | zero => exact hlt
    | succ k => exact h.needed k (Nat.lt_of_succ_lt_succ hk)

theorem length_kept_le (hlt : taken.length < length) :
    (kept keeps taken [n]).length ≤ length := by
  unfold kept
  rw [List.foldl_cons, List.foldl_nil]
  split
  · rw [List.length_append, List.length_singleton]
    omega
  · exact hlt.le

/-- An array that is full takes no draws. -/
theorem fills_full (hfull : taken.length = length) {used : List UInt32} :
    Fills keeps first second length taken result used ↔ used = [] ∧ taken = result := by
  cases used with
  | nil =>
    rw [fills_nil]
    constructor
    · intro ⟨hresult, _⟩
      exact ⟨rfl, hresult⟩
    · intro ⟨_, hresult⟩
      exact ⟨hresult, hresult ▸ hfull⟩
  | cons random used =>
    rw [fills_cons]
    constructor
    · intro ⟨hlt, _⟩
      omega
    · intro ⟨hnil, _⟩
      cases hnil

theorem fillLoop_full (hfull : taken.length = length) :
    fillLoop accepts first second length (filled length taken) taken.length tape =
      .done taken tape := by
  unfold fillLoop
  rw [if_neg (by omega), filled_length.mpr hfull.ge]

/-- One turn of a loop. -/
theorem fillLoop_cons (h : Bounds first second)
    (haccepts : ∀ taken n, accepts n (filled length taken) taken.length = keeps taken n)
    (hlt : taken.length < length) (random : UInt32) :
    fillLoop accepts first second length (filled length taken) taken.length (random :: tape) =
      fillLoop accepts first second length
        (filled length (kept keeps taken [numberOf first second random]))
        (kept keeps taken [numberOf first second random]).length tape := by
  unfold kept
  rw [List.foldl_cons, List.foldl_nil, fillLoop, if_pos hlt, generateNumberBetween_eq h]
  dsimp only
  rw [haccepts]
  split
  · rw [filled_set hlt, List.length_append, List.length_singleton]
  · rfl

/-- A loop returns with the draw that fills the array, and returns what it has kept. -/
theorem fillLoop_eq_done_iff (h : Bounds first second)
    (haccepts : ∀ taken n, accepts n (filled length taken) taken.length = keeps taken n)
    (hlen : taken.length ≤ length) :
    fillLoop accepts first second length (filled length taken) taken.length tape =
        .done result rest ↔
      ∃ used, tape = used ++ rest ∧ Fills keeps first second length taken result used := by
  have hfull : ∀ {taken tape}, taken.length = length →
      (fillLoop accepts first second length (filled length taken) taken.length tape =
          .done result rest ↔
        ∃ used, tape = used ++ rest ∧ Fills keeps first second length taken result used) := by
    intro taken tape hfull
    rw [fillLoop_full hfull, Outcome.done.injEq]
    simp only [fills_full hfull]
    constructor
    · intro ⟨hresult, hrest⟩
      exact ⟨[], hrest, rfl, hresult⟩
    · rintro ⟨_, hrest, rfl, hresult⟩
      exact ⟨hresult, hrest⟩
  -- the induction is on the draws: a turn that keeps nothing makes no progress but this
  induction tape generalizing taken with
  | nil =>
    rcases hlen.eq_or_lt with heq | hlt
    · exact hfull heq
    unfold fillLoop
    rw [if_pos hlt]
    constructor
    · intro hdone
      cases hdone
    · intro ⟨used, hused, hfills⟩
      obtain ⟨rfl, -⟩ := List.append_eq_nil_iff.mp hused.symm
      obtain ⟨rfl, heq⟩ := fills_nil.mp hfills
      omega
  | cons random tape ih =>
    rcases hlen.eq_or_lt with heq | hlt
    · exact hfull heq
    have hkept : (kept keeps taken [numberOf first second random]).length ≤ length :=
      length_kept_le hlt
    rw [fillLoop_cons h haccepts hlt]
    refine (ih hkept).trans ⟨?_, ?_⟩
    · intro ⟨used, htape, hfills⟩
      exact ⟨random :: used, by rw [htape, List.cons_append], fills_cons.mpr ⟨hlt, hfills⟩⟩
    · intro ⟨used, htape, hfills⟩
      cases used with
      | nil =>
        obtain ⟨rfl, heq⟩ := fills_nil.mp hfills
        omega
      | cons random' used =>
        rw [List.cons_append, List.cons.injEq] at htape
        obtain ⟨rfl, htape⟩ := htape
        exact ⟨used, htape, (fills_cons.mp hfills).2⟩

/-- With bounds no draw traps. -/
theorem fillLoop_ne_trap (h : Bounds first second) (sequence : List ℤ) (loop : ℕ)
    (tape : List UInt32) : fillLoop accepts first second length sequence loop tape ≠ .trap := by
  induction tape generalizing sequence loop with
  | nil =>
    unfold fillLoop
    split <;> simp
  | cons random tape ih =>
    unfold fillLoop
    split
    · dsimp only
      rw [generateNumberBetween_eq h]
      dsimp only
      -- the number is written, or the next draw is taken for the same place
      split
      · exact ih _ _
      · exact ih _ _
    · simp

/-- What has been taken stays. -/
theorem length_le_kept (numbers : List ℤ) : taken.length ≤ (kept keeps taken numbers).length := by
  induction numbers generalizing taken with
  | nil => exact le_rfl
  | cons n numbers ih =>
    apply le_trans _ ih
    dsimp only
    split
    · rw [List.length_append]
      omega
    · exact le_rfl

/-- A loop returns on a tape exactly when all draws of the tape together fill the array. -/
theorem exists_fills_iff (hlen : taken.length ≤ length) :
    (∃ used rest result, tape = used ++ rest ∧
      Fills keeps first second length taken result used) ↔
    length ≤ (kept keeps taken (tape.map (numberOf first second))).length := by
  induction tape generalizing taken with
  | nil =>
    constructor
    · intro ⟨used, rest, result, hused, hfills⟩
      obtain ⟨rfl, -⟩ := List.append_eq_nil_iff.mp hused.symm
      obtain ⟨rfl, heq⟩ := fills_nil.mp hfills
      exact heq.ge
    · intro hle
      exact ⟨[], [], taken, rfl, fills_nil.mpr ⟨rfl, hlen.antisymm hle⟩⟩
  | cons random tape ih =>
    rcases hlen.eq_or_lt with heq | hlt
    · exact iff_of_true ⟨[], _, taken, rfl, fills_nil.mpr ⟨rfl, heq⟩⟩
        (heq.symm.le.trans (length_le_kept _))
    have hkept : (kept keeps taken [numberOf first second random]).length ≤ length :=
      length_kept_le hlt
    show _ ↔ length ≤ (kept keeps (kept keeps taken [numberOf first second random])
      (tape.map (numberOf first second))).length
    -- the draw is kept or not, and the rest of the tape goes on from there
    rw [← ih hkept]
    constructor
    · intro ⟨used, rest, result, htape, hfills⟩
      cases used with
      | nil =>
        obtain ⟨rfl, heq⟩ := fills_nil.mp hfills
        omega
      | cons random' used =>
        rw [List.cons_append, List.cons.injEq] at htape
        obtain ⟨rfl, htape⟩ := htape
        exact ⟨used, rest, result, htape, (fills_cons.mp hfills).2⟩
    · intro ⟨used, rest, result, htape, hfills⟩
      exact ⟨random :: used, rest, result, by rw [htape, List.cons_append],
        fills_cons.mpr ⟨hlt, hfills⟩⟩

end Loop

/-! ## Sequences -/

section Sequence

variable {first second length : ℤ} {tape rest : List UInt32} {sequence : List ℤ}

/-- The numbers that the draws stand for, each where it appears first. -/
theorem kept_unique (numbers : List ℤ) :
    kept (fun taken n => !decide (n ∈ taken)) [] numbers = numbers.eraseDups := by
  induction numbers using List.reverseRecOn with
  | nil => rfl
  | append_singleton numbers n ih =>
    unfold kept at ih ⊢
    rw [List.foldl_append, ih, List.eraseDups_append, List.foldl_cons, List.foldl_nil,
      List.cons_removeAll, List.nil_removeAll]
    by_cases hmem : n ∈ numbers
    · simp [hmem]
    · simp [hmem, List.eraseDups_cons]

theorem kept_all (numbers : List ℤ) : kept (fun _ _ => true) [] numbers = numbers := by
  induction numbers using List.reverseRecOn with
  | nil => rfl
  | append_singleton numbers n ih =>
    unfold kept at ih ⊢
    rw [List.foldl_append, ih]
    rfl

theorem filled_nil (length : ℕ) : filled length [] = List.replicate length 0 := by
  unfold filled
  rw [List.nil_append, List.length_nil, Nat.sub_zero]

/-- With bounds, the range check does not trap. -/
theorem uniqueSequence_eq (h : Bounds first second) (hmin : 1 ≤ length)
    (hmax : length ≤ span first second) :
    generateNumberSequenceBetween first second length true tape =
      fillLoop (fun number sequence loop => !isNumber number sequence loop) first second
        length.toNat (filled length.toNat []) ([] : List ℤ).length tape := by
  obtain ⟨hfirst, hsecond, hspan⟩ := h
  have heq := span_eq first second
  have hpos : 0 < span first second := span_pos
  have hnumbers : ((int32 (if first ≤ second then second - first else first - second)).bind
      fun span => int32 (span + 1)) = some (span first second) := by
    split <;> rename_i hle
    · rw [if_pos hle] at heq
      rw [int32_of_mem (by omega), Option.bind_some, int32_of_mem (by omega), heq]
    · rw [if_neg hle] at heq
      rw [int32_of_mem (by omega), Option.bind_some, int32_of_mem (by omega), heq]
  unfold generateNumberSequenceBetween
  rw [if_neg (by omega), hnumbers, filled_nil]
  dsimp only
  rw [if_pos rfl, if_neg (by omega)]
  rfl

theorem uniqueSequence_fills_iff (h : Bounds first second) (hmin : 1 ≤ length)
    (hmax : length ≤ span first second) :
    generateNumberSequenceBetween first second length true tape = .done sequence rest ↔
      ∃ used, tape = used ++ rest ∧ Fills (fun taken n => !decide (n ∈ taken)) first second
        length.toNat [] sequence used := by
  rw [uniqueSequence_eq h hmin hmax]
  exact fillLoop_eq_done_iff h (fun taken n => by rw [isNumber_filled]) (Nat.zero_le _)

/-- A sequence of unique numbers is returned with the draw that completes it: the numbers drawn
up to there, each where it appeared first. -/
theorem uniqueSequence_eq_done_iff (h : Bounds first second) (hmin : 1 ≤ length)
    (hmax : length ≤ span first second) :
    generateNumberSequenceBetween first second length true tape = .done sequence rest ↔
      ∃ used, tape = used ++ rest ∧ (used.map (numberOf first second)).eraseDups = sequence ∧
        sequence.length = length.toNat ∧ ∀ k < used.length,
          ((used.take k).map (numberOf first second)).eraseDups.length < length.toNat := by
  rw [uniqueSequence_fills_iff h hmin hmax]
  constructor
  · intro ⟨used, htape, hkept, hlength, hneeded⟩
    rw [kept_unique] at hkept
    simp only [kept_unique] at hneeded
    exact ⟨used, htape, hkept, hlength, hneeded⟩
  · intro ⟨used, htape, hkept, hlength, hneeded⟩
    refine ⟨used, htape, ?_, hlength, ?_⟩
    · rw [kept_unique]
      exact hkept
    · simp only [kept_unique]
      exact hneeded

/-- The fifth of these draws of a die is the third different one. -/
theorem three_of_a_die : generateNumberSequenceBetween 1 6 3 true [7, 1, 0, 0, 5, 9] =
    .done [2, 1, 6] [9] :=
  (uniqueSequence_eq_done_iff ⟨by decide, by decide, by decide⟩ (by decide) (by decide)).mpr
    ⟨[7, 1, 0, 0, 5], rfl, by decide, rfl, by decide⟩

/-- It is returned on the tapes with as many different numbers, and on all others the search
goes on. -/
theorem uniqueSequence_returns_iff (h : Bounds first second) (hmin : 1 ≤ length)
    (hmax : length ≤ span first second) :
    ((∃ sequence rest, generateNumberSequenceBetween first second length true tape =
        .done sequence rest) ↔
      length.toNat ≤ (tape.map (numberOf first second)).eraseDups.length) ∧
    (generateNumberSequenceBetween first second length true tape = .waits ↔
      (tape.map (numberOf first second)).eraseDups.length < length.toNat) := by
  have hreturns : (∃ sequence rest, generateNumberSequenceBetween first second length true tape =
        .done sequence rest) ↔
      length.toNat ≤ (tape.map (numberOf first second)).eraseDups.length := by
    rw [← kept_unique, ← exists_fills_iff (Nat.zero_le _)]
    simp only [uniqueSequence_fills_iff h hmin hmax]
    constructor
    · intro ⟨sequence, rest, used, htape, hfills⟩
      exact ⟨used, rest, sequence, htape, hfills⟩
    · intro ⟨used, rest, sequence, htape, hfills⟩
      exact ⟨sequence, rest, used, htape, hfills⟩
  refine ⟨hreturns, ?_⟩
  rw [← Nat.not_le, ← hreturns]
  have htrap : generateNumberSequenceBetween first second length true tape ≠ .trap := by
    rw [uniqueSequence_eq h hmin hmax]
    exact fillLoop_ne_trap h _ _ _
  -- what neither traps nor returns still waits
  generalize generateNumberSequenceBetween first second length true tape = outcome at htrap ⊢
  cases outcome with
  | trap => exact absurd rfl htrap
  | waits => simp
  | done sequence rest => simp

/-- Four draws with two different numbers are not enough. -/
theorem two_of_a_die_wait :
    generateNumberSequenceBetween 1 6 3 true [7, 1, 0, 0] = .waits :=
  (uniqueSequence_returns_iff ⟨by decide, by decide, by decide⟩ (by decide) (by decide)).2.mpr
    (by decide)

end Sequence

/-! ## Salts -/

section Salt

open Sextets

variable {rounds length : ℤ} {tape rest : List UInt32} {data : List UInt8} {salt password : String}

/-- The byte that a draw stands for. -/
def drawnByte (random : UInt32) : UInt8 := byte (numberOf (-128) 127 random)

theorem bounds_byte : Bounds (-128) 127 := ⟨by decide, by decide, by decide⟩

theorem randomData_eq_done_iff :
    generateRandomSignedDataOfLength length tape = .done data rest ↔
      ∃ used, tape = used ++ rest ∧ used.length = length.toNat ∧ used.map drawnByte = data := by
  unfold generateRandomSignedDataOfLength
  by_cases hlength : length < 1
  · rw [if_pos hlength, Outcome.done.injEq]
    constructor
    · intro ⟨hdata, hrest⟩
      exact ⟨[], hrest, by simp; omega, hdata⟩
    · intro ⟨used, htape, hused, hdata⟩
      have hnil : used = [] := List.length_eq_zero_iff.mp (by omega)
      subst hnil
      exact ⟨hdata, htape⟩
  · have hfills : ∀ sequence, generateNumberSequenceBetween (-128) 127 length false tape =
        .done sequence rest ↔ ∃ used, tape = used ++ rest ∧
          Fills (fun _ _ => true) (-128) 127 length.toNat [] sequence used := by
      intro sequence
      unfold generateNumberSequenceBetween
      rw [if_neg hlength, ← filled_nil]
      exact fillLoop_eq_done_iff bounds_byte (fun _ _ => rfl) (Nat.zero_le _)
    have hmap : (generateNumberSequenceBetween (-128) 127 length false tape).map (List.map byte) =
        .done data rest ↔ ∃ sequence, generateNumberSequenceBetween (-128) 127 length false tape =
          .done sequence rest ∧ sequence.map byte = data := by
      generalize generateNumberSequenceBetween (-128) 127 length false tape = outcome
      cases outcome with
      | trap => simp [Outcome.map]
      | waits => simp [Outcome.map]
      | done sequence rest' =>
        rw [Outcome.map, Outcome.done.injEq]
        constructor
        · intro ⟨hdata, hrest⟩
          exact ⟨sequence, by rw [hrest], hdata⟩
        · intro ⟨sequence', hdone, hdata⟩
          rw [Outcome.done.injEq] at hdone
          exact ⟨hdone.1 ▸ hdata, hdone.2⟩
    rw [if_neg hlength, hmap]
    constructor
    · intro ⟨sequence, hdone, hdata⟩
      obtain ⟨used, htape, hkept, hlen, -⟩ := (hfills sequence).mp hdone
      rw [kept_all] at hkept
      subst hkept
      rw [List.length_map] at hlen
      rw [List.map_map] at hdata
      exact ⟨used, htape, hlen, hdata⟩
    · intro ⟨used, htape, hused, hdata⟩
      refine ⟨used.map (numberOf (-128) 127), (hfills _).mpr ⟨used, htape, kept_all _, ?_, ?_⟩, ?_⟩
      · rw [List.length_map, hused]
      -- everything is kept, so fewer draws are too few
      · intro k hk
        rw [kept_all, List.length_map, List.length_take]
        omega
      · rw [List.map_map]
        exact hdata

/-- Every byte can be drawn. -/
theorem drawnByte_surjective : Function.Surjective drawnByte := by
  intro b
  refine ⟨.ofNat (b.toNat + 128), ?_⟩
  have hb : b.toNat < 256 := b.toNat_lt
  have hrandom : (UInt32.ofNat (b.toNat + 128)).toNat = b.toNat + 128 := by
    rw [UInt32.toNat_ofNat']
    omega
  have hspan : span (-128) 127 = 256 := by decide
  have hmin : min (-128 : ℤ) 127 = -128 := by decide
  have hmod : ((-128 + ((b.toNat + 128 : ℕ) : ℤ) % 256) % 256).toNat = b.toNat := by omega
  unfold drawnByte byte numberOf
  rw [hrandom, hspan, hmin, hmod]
  exact UInt8.ofNat_toNat

/-- A salt is the settings of revision `a` with 16 drawn bytes. -/
theorem generatedSalt_eq_done_iff {rounds : ℕ} :
    generateSaltWithNumberOfRounds rounds tape = .done salt rest ↔
      ∃ data, generateRandomSignedDataOfLength BCRYPT_SALT_LEN tape = .done data rest ∧
        salt = .ofList (writeSettings 'a' rounds data) := by
  have htext : ∀ data, ['$', '2', 'a', '$'] ++ (if rounds < 10 then ['0'] else []) ++
      decimal rounds ++ ['$'] ++ encodeData data data.length = writeSettings 'a' rounds data := by
    intro data
    have hten : (rounds : ℤ) < 10 ↔ rounds < 10 := by omega
    unfold writeSettings
    rw [if_pos (show 'a' ≥ 'a' by decide)]
    simp only [hten]
    rfl
  unfold generateSaltWithNumberOfRounds
  generalize generateRandomSignedDataOfLength BCRYPT_SALT_LEN tape = outcome
  cases outcome with
  | trap => simp [Outcome.map]
  | waits => simp [Outcome.map]
  | done data rest' =>
    rw [Outcome.map, Outcome.done.injEq, htext]
    constructor
    · intro ⟨hsalt, hrest⟩
      exact ⟨data, by rw [hrest], hsalt.symm⟩
    · intro ⟨data', hdone, hsalt⟩
      rw [Outcome.done.injEq] at hdone
      obtain ⟨rfl, hrest⟩ := hdone
      exact ⟨hsalt.symm, hrest⟩

/-- The third digit stands where the "$" after the rounds would be. -/
theorem readSalt_of_hundred {rounds : ℕ} (h : 100 ≤ rounds) (data : List UInt8) :
    readSalt (characters (writeSettings 'a' rounds data)) = .invalid := by
  have hdigits : decimal rounds = Nat.toDigits 10 rounds := Nat.toList_repr
  have hlen : 2 < (Nat.toDigits 10 rounds).length := by
    have hle := Nat.length_toDigits_le_iff (n := rounds) (b := 10) (k := 2) (by decide) (by decide)
    omega
  obtain ⟨c1, c2, c3, cs, hcs⟩ : ∃ c1 c2 c3 cs, Nat.toDigits 10 rounds = c1 :: c2 :: c3 :: cs := by
    match hchars : Nat.toDigits 10 rounds with
    | c1 :: c2 :: c3 :: cs => exact ⟨c1, c2, c3, cs, rfl⟩
    | [] => simp [hchars] at hlen
    | [_] => simp [hchars] at hlen
    | [_, _] => simp [hchars] at hlen
  have hdigit : c3.isDigit = true := by
    apply Nat.isDigit_of_mem_toDigits (b := 10) (n := rounds) (by decide) (by decide)
    rw [hcs]
    simp
  have htext : writeSettings 'a' rounds data = '$' :: '2' :: 'a' :: '$' :: c1 :: c2 :: c3 ::
      (cs ++ ['$'] ++ encodeData data data.length) := by
    unfold writeSettings
    rw [if_pos (show 'a' ≥ 'a' by decide), if_neg (by omega), hdigits, hcs]
    simp
  -- a header has its separator there, and no digit is one
  by_contra hvalid
  obtain ⟨-, minor, rounds', tail, revision, d1, d2, separator, hrev, -, hsep, heq⟩ :=
    headed_of_readSalt hvalid
  rw [htext] at heq
  unfold header characters at heq
  cases hrev with
  | missing =>
    simp only [List.map_cons, List.cons_append, List.nil_append, List.cons.injEq] at heq
    exact absurd heq.2.2.1 (by decide)
  | letter =>
    simp only [List.map_cons, List.map_nil, List.cons_append, List.nil_append,
      List.cons.injEq] at heq
    obtain ⟨-, -, -, -, -, -, rfl, -⟩ := heq
    apply hsep
    show ['$'] < [c3]
    unfold Char.isDigit at hdigit
    simp only [Bool.and_eq_true, decide_eq_true_eq] at hdigit
    exact List.Lex.rel (UInt32.lt_of_lt_of_le (by decide) hdigit.1)

/-- Sixteen draws are enough for a salt, whatever they are and whatever the number of rounds. -/
theorem exists_generatedSalt (rounds : ℕ) (htape : 16 ≤ tape.length) :
    ∃ salt, generateSaltWithNumberOfRounds rounds tape = .done salt (tape.drop 16) := by
  have hdata : generateRandomSignedDataOfLength BCRYPT_SALT_LEN tape =
      .done ((tape.take 16).map drawnByte) (tape.drop 16) := by
    rw [randomData_eq_done_iff]
    exact ⟨tape.take 16, (List.take_append_drop 16 tape).symm, List.length_take_of_le htape, rfl⟩
  exact ⟨_, generatedSalt_eq_done_iff.mpr ⟨_, hdata, rfl⟩⟩

/-- What a generated salt is good for. -/
theorem hashPassword_generatedSalt {rounds : ℕ} {stringEq : String → String → Bool}
    (hEq : ∀ s, stringEq s s = true)
    (hsalt : generateSaltWithNumberOfRounds rounds tape = .done salt rest) (h : Fits password) :
    (4 ≤ rounds ∧ rounds ≤ 31 → ∃ hash, hashPassword password salt = some (some hash) ∧
      verifyPassword stringEq password hash = some (some true)) ∧
    (¬ (4 ≤ rounds ∧ rounds ≤ 31) → hashPassword password salt = some none) := by
  obtain ⟨data, hdata, rfl⟩ := generatedSalt_eq_done_iff.mp hsalt
  have hlen : data.length = 16 := by
    obtain ⟨used, -, hused, rfl⟩ := randomData_eq_done_iff.mp hdata
    rw [List.length_map, hused]
    rfl
  have hrev : Revision ['a'] 'a' := .letter 'a' (.inr (.inl rfl))
  rw [String.toList_ofList]
  -- below 100 the salt can be read, and the rounds decide
  have hread : rounds < 100 →
      hashPassword password (characters (writeSettings 'a' rounds data)) =
        hashWith password 'a' rounds data := by
    intro hmax
    have hvalid := readSalt_written hrev (show (0 : ℤ) ≤ rounds by omega)
      (show (rounds : ℤ) < 100 by omega) hlen []
    rw [List.append_nil] at hvalid
    rw [hashPassword_of_valid hvalid, decode_sextets hlen]
  constructor
  · intro ⟨hmin, hmax⟩
    obtain ⟨digest, hdigest⟩ : ∃ digest,
        hashData (passwordBytes 'a' password) data rounds = some digest :=
      exists_hashData_iff.mpr ⟨by omega, by omega, hlen⟩
    have hhash : hashPassword password (characters (writeSettings 'a' rounds data)) = some (some
        (.ofList (writeSettings 'a' rounds data ++ encodeData digest 23))) := by
      rw [hread (by omega)]
      exact hashWith_eq_some_iff.mpr ⟨digest, hdigest, not_traps_salt h, rfl⟩
    refine ⟨_, hhash, ?_⟩
    rw [verifyPassword_hash hhash, hhash, Option.map_some, Option.map_some, hEq]
  · intro hrounds
    by_cases hmax : rounds < 100
    · rw [hread hmax]
      have hnone : hashData (passwordBytes 'a' password) data rounds = none := by
        rw [Option.eq_none_iff_forall_ne_some]
        intro digest hdigest
        obtain ⟨hmin, hmax, -⟩ := hashData_settings hdigest
        omega
      unfold hashWith
      rw [hnone]
    · unfold hashPassword
      rw [readSalt_of_hundred (by omega) data]

/-- Every 16 draws give a salt, for every number of rounds. From 4 to 31 rounds it gives every
password that fits a hash, which verifies it, and with any other number it gives no hash. -/
theorem generatedSalt_verifies {stringEq : String → String → Bool}
    (hEq : ∀ s, stringEq s s = true) (rounds : ℕ) (htape : 16 ≤ tape.length) :
    ∃ salt, generateSaltWithNumberOfRounds rounds tape = .done salt (tape.drop 16) ∧
      ∀ password, Fits password →
        (4 ≤ rounds ∧ rounds ≤ 31 → ∃ hash, hashPassword password salt = some (some hash) ∧
          verifyPassword stringEq password hash = some (some true)) ∧
        (¬ (4 ≤ rounds ∧ rounds ≤ 31) → hashPassword password salt = some none) := by
  obtain ⟨salt, hsalt⟩ := exists_generatedSalt rounds htape
  exact ⟨salt, hsalt, fun _ h => hashPassword_generatedSalt hEq hsalt h⟩

theorem drawn_salt_verifies : ∃ salt hash, generateSalt (List.replicate 16 0) = .done salt [] ∧
    hashPassword "Passw0rd" salt = some (some hash) ∧
    verifyPassword (· == ·) "Passw0rd" hash = some (some true) := by
  have hdraws : 16 ≤ (List.replicate 16 (0 : UInt32)).length := by decide
  obtain ⟨salt, hsalt, hverifies⟩ := generatedSalt_verifies beq_self_eq_true 10 hdraws
  obtain ⟨hash, hhash, hverify⟩ := (hverifies "Passw0rd" (by decide)).1 ⟨by decide, by decide⟩
  exact ⟨salt, hash, hsalt, hhash, hverify⟩

/-- Every salt of 16 bytes is generated on some draws, and no other text is. -/
theorem exists_draws_iff {rounds : ℕ} :
    (∃ tape, generateSaltWithNumberOfRounds rounds tape = .done salt []) ↔
      ∃ data : List UInt8, data.length = 16 ∧ salt = .ofList (writeSettings 'a' rounds data) := by
  constructor
  · intro ⟨tape, hsalt⟩
    obtain ⟨data, hdata, rfl⟩ := generatedSalt_eq_done_iff.mp hsalt
    obtain ⟨used, -, hused, rfl⟩ := randomData_eq_done_iff.mp hdata
    refine ⟨_, ?_, rfl⟩
    rw [List.length_map, hused]
    rfl
  · intro ⟨data, hlen, hsalt⟩
    obtain ⟨tape, rfl⟩ : ∃ tape, tape.map drawnByte = data :=
      ⟨data.map (Function.surjInv drawnByte_surjective), by
        rw [List.map_map]
        exact (List.map_congr_left fun b _ =>
          Function.surjInv_eq drawnByte_surjective b).trans (List.map_id _)⟩
    rw [List.length_map] at hlen
    exact ⟨tape, generatedSalt_eq_done_iff.mpr ⟨_, randomData_eq_done_iff.mpr
      ⟨tape, (List.append_nil _).symm, hlen, rfl⟩, hsalt⟩⟩

end Salt

end Pindex.BCryptSwiftRandom
