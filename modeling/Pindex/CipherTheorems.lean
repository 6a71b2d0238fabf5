import Pindex.Blowfish

/-!
# What the cipher does with the key

Four facts about `BCryptSwift`'s Blowfish, whatever the S-boxes and subkeys hold:

* `encipher` permutes the blocks, and undoes itself when the subkeys are put in the opposite
  order (`reversed_encipher`);
* the bytes that `hashPassword` returns are an encryption of the constant text under the
  final key schedule, from which the text comes back (`hashData_eq_some_iff`);
* of a password nothing matters but the words that `keyWords` lists (`hashData_congr`);
* `key` does what `enhanceKeyScheduleWithData` does for a salt of zeros
  (`KeySchedule.enhance_zeros`).
-/

namespace Pindex.BCryptSwift

open Feistel

namespace KeySchedule

variable {ks : KeySchedule} {lr : UInt32 × UInt32}

/-! ## `encipher` as a Feistel network -/

/-- What is combined twice is gone. -/
theorem cancels_xor : Cancels fun x k : UInt32 => x ^^^ k := by
  intro x k
  show x ^^^ k ^^^ k = x
  rw [UInt32.xor_assoc, UInt32.xor_self, UInt32.xor_zero]

/-- What a substitution combines with the other word, with `p[i]` in it. -/
def mix (ks : KeySchedule) (i : ℕ) (h : i < plen) (w : UInt32) : UInt32 :=
  ks.substitute w ^^^ ks.subkey i h

theorem turn_left_lt (j : Fin (BLOWFISH_NUM_ROUNDS / 2)) : 2 * j.val + 1 < plen :=
  Nat.lt_of_succ_lt (turn_lt j)

/-- The functions of the two substitutions in turn `j`. -/
def turnFunctions (ks : KeySchedule) (j : Fin (BLOWFISH_NUM_ROUNDS / 2)) :
    List (UInt32 → UInt32) :=
  [ks.mix (2 * j + 1) (turn_left_lt j), ks.mix (2 * j + 2) (turn_lt j)]

/-- The functions of all sixteen substitutions, in the order of the loop. -/
def roundFunctions (ks : KeySchedule) : List (UInt32 → UInt32) :=
  (List.finRange (BLOWFISH_NUM_ROUNDS / 2)).flatMap ks.turnFunctions

/-- A turn of the loop is two steps, after which the words are back in their places. -/
theorem foldl_encipherTurn (js : List (Fin (BLOWFISH_NUM_ROUNDS / 2))) :
    js.foldl ks.encipherTurn lr =
      network (fun x k => x ^^^ k) (js.flatMap ks.turnFunctions) lr := by
  induction js generalizing lr with
  | nil => rfl
  | cons j js ih =>
    rw [List.foldl_cons, ih, List.flatMap_cons, network_append]
    rfl

/-- `encipher` is the network, whitened with the two subkeys that no turn uses. -/
theorem encipher_eq : ks.encipher lr =
    whitened (fun x k => x ^^^ k) (ks.subkey 0) (ks.subkey 17) ks.roundFunctions lr := by
  unfold encipher whitened roundFunctions
  rw [← foldl_encipherTurn]
  rfl

/-- The subkeys in the opposite order. -/
def reversed (ks : KeySchedule) : KeySchedule := { ks with p := ks.p.reverse }

theorem subkey_reversed {i : ℕ} (h : i < plen) (h' : 17 - i < plen) :
    ks.reversed.subkey i h = ks.subkey (17 - i) h' := by
  show ks.p.reverse[i] = ks.p[17 - i]
  rw [Vector.getElem_reverse]
  rfl

theorem mix_reversed {i i' : ℕ} (h : i < plen) (h' : i' < plen) (hi : 17 - i = i') :
    ks.reversed.mix i h = ks.mix i' h' := by
  subst hi
  funext w
  show ks.substitute w ^^^ ks.reversed.subkey i h = _
  rw [subkey_reversed h h']
  rfl

/-- The turns come in the opposite order, and so do the two steps of each. -/
theorem turnFunctions_reversed (j : Fin (BLOWFISH_NUM_ROUNDS / 2)) :
    ks.reversed.turnFunctions j = (ks.turnFunctions j.rev).reverse := by
  have hj : j.val < 8 := j.isLt
  have hrev : j.rev.val = 8 - (j.val + 1) := Fin.val_rev j
  have hfirst : ks.reversed.mix (2 * j + 1) (turn_left_lt j) =
      ks.mix (2 * j.rev + 2) (turn_lt j.rev) := mix_reversed _ _ (by omega)
  have hsecond : ks.reversed.mix (2 * j + 2) (turn_lt j) =
      ks.mix (2 * j.rev + 1) (turn_left_lt j.rev) := mix_reversed _ _ (by omega)
  unfold turnFunctions
  rw [hfirst, hsecond]
  rfl

theorem roundFunctions_reversed : ks.reversed.roundFunctions = ks.roundFunctions.reverse := by
  unfold roundFunctions
  rw [List.reverse_flatMap, List.finRange_reverse, List.flatMap_map]
  congr 1
  funext j
  rw [turnFunctions_reversed]
  rfl

/-- `encipher` with the subkeys in the opposite order undoes `encipher`. -/
theorem reversed_encipher : ks.reversed.encipher (ks.encipher lr) = lr := by
  rw [encipher_eq, encipher_eq, roundFunctions_reversed]
  have hfirst : ks.reversed.subkey 0 = ks.subkey 17 := subkey_reversed _ (by decide)
  have hlast : ks.reversed.subkey 17 = ks.subkey 0 := subkey_reversed _ (by decide)
  rw [hfirst, hlast]
  exact whitened_reverse cancels_xor

/-- `encipher` is a permutation of the blocks, whatever the schedule holds. -/
theorem encipher_bijective : Function.Bijective ks.encipher := by
  have heq : ks.encipher =
      whitened (fun x k => x ^^^ k) (ks.subkey 0) (ks.subkey 17) ks.roundFunctions := by
    funext lr
    exact encipher_eq
  rw [heq]
  exact whitened_bijective cancels_xor

end KeySchedule

/-! ## The enciphered text -/

variable {ks : KeySchedule} {cdata cdata' : Vector UInt32 6} {j k : Fin (6 / 2)}

/-- Where block `j` starts. -/
def leftWord {n : ℕ} (j : Fin (n / 2)) : Fin n := ⟨2 * j, Nat.lt_of_succ_lt (pair_lt j)⟩

/-- Where its right word is. -/
def rightWord {n : ℕ} (j : Fin (n / 2)) : Fin n := ⟨2 * j + 1, pair_lt j⟩

/-- The words at `2 * j` and `2 * j + 1`. -/
def blockAt (cdata : Vector UInt32 6) (j : Fin (6 / 2)) : UInt32 × UInt32 :=
  (cdata.get (leftWord j), cdata.get (rightWord j))

/-- The three blocks are all of the text. -/
theorem eq_of_blockAt (h : ∀ j, blockAt cdata j = blockAt cdata' j) : cdata = cdata' := by
  apply Vector.ext
  intro i hi
  have hblock := h ⟨i / 2, by omega⟩
  unfold blockAt at hblock
  obtain ⟨hleft, hright⟩ := Prod.mk.inj hblock
  -- word `i` is the left or the right one of its block
  by_cases heven : i % 2 = 0
  · have hi2 : 2 * (i / 2) = i := by omega
    change cdata.get ⟨2 * (i / 2), _⟩ = cdata'.get ⟨2 * (i / 2), _⟩ at hleft
    simp only [hi2] at hleft
    exact hleft
  · have hi2 : 2 * (i / 2) + 1 = i := by omega
    change cdata.get ⟨2 * (i / 2) + 1, _⟩ = cdata'.get ⟨2 * (i / 2) + 1, _⟩ at hright
    simp only [hi2] at hright
    exact hright

theorem get_set {w : UInt32} {i : ℕ} {hi : i < 6} {m : Fin 6} :
    (cdata.set i w hi).get m = if i = m.val then w else cdata.get m :=
  Vector.getElem_set ..

/-- One turn enciphers its own block and leaves the others. -/
theorem blockAt_encipherAt :
    blockAt (encipherAt ks cdata j) k =
      if k = j then ks.encipher (blockAt cdata k) else blockAt cdata k := by
  have hget : ∀ m : Fin 6, (encipherAt ks cdata j).get m =
      if 2 * j.val + 1 = m.val then (ks.encipher (blockAt cdata j)).2
      else if 2 * j.val = m.val then (ks.encipher (blockAt cdata j)).1 else cdata.get m := by
    intro m
    unfold encipherAt
    rw [get_set, get_set]
    rfl
  have hval : k = j ↔ k.val = j.val := Fin.ext_iff
  have hleft : (leftWord k : Fin 6).val = 2 * k.val := rfl
  have hright : (rightWord k : Fin 6).val = 2 * k.val + 1 := rfl
  unfold blockAt at hget ⊢
  rw [hget, hget, hleft, hright]
  by_cases hkj : k = j
  · subst hkj
    rw [if_neg (by omega), if_pos rfl, if_pos rfl, if_pos rfl]
  · have hne : k.val ≠ j.val := fun h => hkj (hval.mpr h)
    rw [if_neg (by omega), if_neg (by omega), if_neg (by omega), if_neg (by omega), if_neg hkj]

/-- Turns for other blocks leave this one. -/
theorem blockAt_foldl_of_not_mem {js : List (Fin (6 / 2))} (h : k ∉ js) :
    blockAt (js.foldl (encipherAt ks) cdata) k = blockAt cdata k := by
  induction js generalizing cdata with
  | nil => rfl
  | cons j js ih =>
    rw [List.mem_cons, not_or] at h
    rw [List.foldl_cons, ih h.2, blockAt_encipherAt, if_neg h.1]

/-- Blocks that are enciphered one after the other are enciphered each by itself. -/
theorem blockAt_foldl {js : List (Fin (6 / 2))} (h : js.Nodup) (hk : k ∈ js) :
    blockAt (js.foldl (encipherAt ks) cdata) k = ks.encipher (blockAt cdata k) := by
  induction js generalizing cdata with
  | nil => exact absurd hk (List.not_mem_nil)
  | cons j js ih =>
    have hj : j ∉ js := (List.nodup_cons.mp h).1
    rw [List.foldl_cons]
    rcases List.mem_cons.mp hk with rfl | hk
    -- the block of this turn is not touched again, and the others have not been yet
    · rw [blockAt_foldl_of_not_mem hj, blockAt_encipherAt, if_pos rfl]
    · have hkj : k ≠ j := fun heq => hj (heq ▸ hk)
      rw [ih (List.nodup_cons.mp h).2 hk, blockAt_encipherAt, if_neg hkj]

/-- The loop over the text is `encipher`, block by block. -/
theorem blockAt_encipherAll : blockAt (encipherAll ks cdata) k = ks.encipher (blockAt cdata k) := by
  unfold encipherAll
  exact blockAt_foldl (List.nodup_finRange _) (List.mem_finRange k)

/-- The subkeys in the opposite order undo the loop over the text. -/
theorem reversed_encipherAll :
    Function.LeftInverse (encipherAll ks.reversed) (encipherAll ks) := by
  intro cdata
  apply eq_of_blockAt
  intro j
  rw [blockAt_encipherAll, blockAt_encipherAll, KeySchedule.reversed_encipher]

theorem reversed_reversed : ks.reversed.reversed = ks := by
  unfold KeySchedule.reversed
  dsimp only
  rw [Vector.reverse_reverse]

theorem encipherAll_reversed :
    Function.RightInverse (encipherAll ks.reversed) (encipherAll ks) := by
  intro cdata
  have hleft : encipherAll ks.reversed.reversed (encipherAll ks.reversed cdata) = cdata :=
    reversed_encipherAll cdata
  rwa [reversed_reversed] at hleft

/-- A digest is the hash exactly when it deciphers to the constant text. -/
theorem hashData_eq_some_iff {password salt digest : List UInt8} {n : ℤ} :
    hashData password salt n = some digest ↔
      (4 ≤ n ∧ n ≤ 31 ∧ salt.length = 16) ∧ ∃ cdata : Vector UInt32 6,
        cdata.toList.flatMap wordBytes = digest ∧
        (encipherAll (schedule password salt (1 <<< n.toNat)).reversed)^[64] cdata =
          bf_crypt_ciphertext := by
  generalize hks : schedule password salt (1 <<< n.toNat) = ks
  -- 64 times forwards, 64 times back
  have hleft : Function.LeftInverse (encipherAll ks.reversed)^[64] (encipherAll ks)^[64] :=
    reversed_encipherAll.iterate 64
  have hright : Function.RightInverse (encipherAll ks.reversed)^[64] (encipherAll ks)^[64] :=
    encipherAll_reversed.iterate 64
  unfold hashData
  by_cases hrounds : n < 4 ∨ n > 31
  · rw [if_pos hrounds]
    constructor
    · intro h
      exact absurd h (by simp)
    · intro h
      omega
  rw [if_neg hrounds]
  by_cases hsalt : salt.length ≠ 16
  · rw [if_pos hsalt]
    constructor
    · intro h
      exact absurd h (by simp)
    · intro h
      exact absurd h.1.2.2 hsalt
  rw [if_neg hsalt]
  dsimp only
  rw [hks, Option.some.injEq]
  constructor
  · intro h
    exact ⟨by omega, _, h, hleft _⟩
  · rintro ⟨-, cdata, rfl, htext⟩
    rw [← htext, hright]

/-! ## What the hash sees of a password -/

/-- The subkeys are combined with the words that `keyWords` lists, and with nothing else. -/
theorem combine_congr {data data' : List UInt8}
    (h : keyWords data plen 0 = keyWords data' plen 0) : ks.combine data = ks.combine data' := by
  -- the loop takes the words one by one, each from where the last one ended
  have hloop : ∀ (js : List (Fin plen)) (ks : KeySchedule) (off off' : ℕ),
      keyWords data js.length off = keyWords data' js.length off' →
      (js.foldl (KeySchedule.combineTurn data) (ks, off)).1 =
        (js.foldl (KeySchedule.combineTurn data') (ks, off')).1 := by
    intro js
    induction js with
    | nil =>
      intro ks off off' _
      rfl
    | cons j js ih =>
      intro ks off off' hwords
      rw [List.length_cons, keyWords, keyWords, List.cons.injEq] at hwords
      rw [List.foldl_cons, List.foldl_cons]
      unfold KeySchedule.combineTurn at ih ⊢
      dsimp only at ih ⊢
      rw [hwords.1]
      exact ih _ _ _ hwords.2
  apply hloop
  rwa [List.length_finRange]

/-- Passwords with the same words have the same schedule, after any number of rounds. -/
theorem schedule_congr {password password' salt : List UInt8} {rounds : ℕ}
    (h : keyWords password plen 0 = keyWords password' plen 0) :
    schedule password salt rounds = schedule password' salt rounds := by
  have hkey : ∀ ks : KeySchedule, ks.key password = ks.key password' := by
    intro ks
    unfold KeySchedule.key
    rw [combine_congr h]
  have henhance : initKey.enhanceKeyScheduleWithData salt password =
      initKey.enhanceKeyScheduleWithData salt password' := by
    unfold KeySchedule.enhanceKeyScheduleWithData
    rw [combine_congr h]
  unfold schedule
  rw [henhance]
  simp only [hkey]

/-- Passwords with the same words have the same hash. -/
theorem hashData_congr {password password' salt : List UInt8} {n : ℤ}
    (h : keyWords password plen 0 = keyWords password' plen 0) :
    hashData password salt n = hashData password' salt n := by
  unfold hashData
  simp only [schedule_congr h]

/-! ## The two key schedules -/

theorem streamByte_zeros (n off : ℕ) :
    (streamByte (List.replicate n 0) (0, off)).1 = 0 := by
  have hbyte : (List.replicate n (0 : UInt8)).getD off 0 = 0 := by
    by_cases hoff : off < n
    · rw [List.getD_replicate _ hoff]
    · exact List.getD_eq_default _ _ (by simpa using hoff)
  show (0 <<< 8) ||| ((List.replicate n (0 : UInt8)).getD off 0).toNat = 0
  rw [hbyte]
  rfl

/-- The words of a salt of zeros are zero. -/
theorem streamToWordWithData_zeros (n off : ℕ) :
    (streamToWordWithData (List.replicate n 0) off).1 = 0 := by
  have hloop : ∀ (turns : List ℕ) (off : ℕ), (turns.foldl
      (fun acc _ => streamByte (List.replicate n 0) acc) (0, off)).1 = 0 := by
    intro turns
    induction turns with
    | nil => exact fun _ => rfl
    | cons turn turns ih =>
      intro off
      have hword : streamByte (List.replicate n 0) (0, off) =
          (0, (streamByte (List.replicate n 0) (0, off)).2) :=
        Prod.ext (streamByte_zeros n off) rfl
      rw [List.foldl_cons, hword]
      exact ih _
  exact hloop (List.range 4) off

namespace Cursor

/-- Cursors that differ in the offset into the salt at most. -/
def Alike (c c' : Cursor) : Prop := c.ks = c'.ks ∧ c.lr = c'.lr

variable {c c' : Cursor}

/-- A turn of either loop looks at the schedule and the block only. -/
theorem Alike.fillP (h : c.Alike c') (j : Fin (plen / 2)) : (c.fillP j).Alike (c'.fillP j) := by
  obtain ⟨hks, hlr⟩ := h
  unfold Alike Cursor.fillP
  rw [hks, hlr]
  exact ⟨rfl, rfl⟩

theorem Alike.fillS (h : c.Alike c') (j : Fin (slen / 2)) : (c.fillS j).Alike (c'.fillS j) := by
  obtain ⟨hks, hlr⟩ := h
  unfold Alike Cursor.fillS
  rw [hks, hlr]
  exact ⟨rfl, rfl⟩

/-- Zeros change nothing but the offset. -/
theorem Alike.salted (h : c.Alike c') (n : ℕ) : (c.salted (List.replicate n 0)).Alike c' := by
  refine ⟨h.1, Eq.trans ?_ h.2⟩
  unfold Cursor.salted
  dsimp only
  rw [streamToWordWithData_zeros, streamToWordWithData_zeros]
  exact Prod.ext UInt32.xor_zero UInt32.xor_zero

end Cursor

/-- `key` is the enhanced key schedule for a salt of zeros. -/
theorem KeySchedule.enhance_zeros (ks : KeySchedule) (n : ℕ) (key : List UInt8) :
    ks.enhanceKeyScheduleWithData (List.replicate (n + 1) 0) key = ks.key key := by
  unfold KeySchedule.enhanceKeyScheduleWithData KeySchedule.key
  dsimp only
  generalize hzeros : List.replicate (n + 1) (0 : UInt8) = zeros
  have hP : Cursor.Alike
      ((List.finRange (plen / 2)).foldl (fun c j => (c.salted zeros).fillP j)
        { ks := ks.combine key })
      ((List.finRange (plen / 2)).foldl Cursor.fillP { ks := ks.combine key }) := by
    apply List.foldl_rel ⟨rfl, rfl⟩
    intro j _ c c' h
    subst hzeros
    exact (h.salted (n + 1)).fillP j
  have hS := List.foldl_rel (l := List.finRange (slen / 2))
    (f := fun c j => (c.salted zeros).fillS j) (g := Cursor.fillS) hP (by
      intro j _ c c' h
      subst hzeros
      exact (h.salted (n + 1)).fillS j)
  exact hS.1

end Pindex.BCryptSwift
