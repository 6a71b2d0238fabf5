import Mathlib.Data.List.GetD
import Mathlib.Tactic.ByContra

/-!
# Endless repetitions of a word

A stream that reads a word from its beginning, and from the beginning again after its last
letter. `letter w z i` is what it reads at place `i`.

A word that is closed by a letter `z` it does not contain can be read off the stream once the
closing letter has come. `agree_iff` says how far two such streams must be compared: the
first `n` letters agree when the words are the same, or when neither word is closed by then.
-/

namespace Repetition

variable {α : Type*} {w v : List α} {z : α} {i n : ℕ}

/-- The letter at place `i` of the endless repetition of `w`; `z` if `w` is empty. -/
def letter (w : List α) (z : α) (i : ℕ) : α := w.getD (i % w.length) z

/-- Before the closing letter the stream is the word. -/
theorem letter_of_lt (hi : i < w.length) : letter (w ++ [z]) z i = w[i] := by
  have hmod : i % (w ++ [z]).length = i := by
    rw [List.length_append, List.length_singleton]
    exact Nat.mod_eq_of_lt (by omega)
  rw [letter, hmod, List.getD_eq_getElem _ _ (by simp; omega), List.getElem_append_left hi]

@[simp] theorem letter_length : letter (w ++ [z]) z w.length = z := by
  have hmod : w.length % (w ++ [z]).length = w.length := by
    rw [List.length_append, List.length_singleton]
    exact Nat.mod_eq_of_lt (by omega)
  rw [letter, hmod, List.getD_eq_getElem _ _ (by simp)]
  simp

/-- The closing letter does not come early. -/
theorem length_le_of_letter_eq (hw : z ∉ w) (h : letter (w ++ [z]) z i = z) : w.length ≤ i := by
  by_contra hlt
  rw [letter_of_lt (by omega)] at h
  exact hw (h ▸ List.getElem_mem _)

theorem take_eq_of_agree (hw : n ≤ w.length) (hv : n ≤ v.length)
    (h : ∀ i < n, letter (w ++ [z]) z i = letter (v ++ [z]) z i) : w.take n = v.take n := by
  apply List.ext_getElem
  · rw [List.length_take, List.length_take]
    omega
  · intro i hi _
    have hin : i < n := by
      rw [List.length_take] at hi
      omega
    have hletter := h i hin
    rw [letter_of_lt (by omega), letter_of_lt (by omega)] at hletter
    rw [List.getElem_take, List.getElem_take, hletter]

/-- How far the streams of two words agree that are closed by a letter they do not contain. -/
theorem agree_iff (hw : z ∉ w) (hv : z ∉ v) :
    (∀ i < n, letter (w ++ [z]) z i = letter (v ++ [z]) z i) ↔
      w = v ∨ (n ≤ w.length ∧ n ≤ v.length ∧ w.take n = v.take n) := by
  constructor
  · intro h
    -- a closing letter that comes within reach comes in both streams
    have hvw : w.length < n → v.length ≤ w.length := fun hlt =>
      length_le_of_letter_eq hv (by rw [← h _ hlt, letter_length])
    have hwv : v.length < n → w.length ≤ v.length := fun hlt =>
      length_le_of_letter_eq hw (by rw [h _ hlt, letter_length])
    by_cases hlt : w.length < n
    · left
      have hlength : v.length = w.length := by
        have := hvw hlt
        have := hwv (by omega)
        omega
      have htake : w.take w.length = v.take w.length :=
        take_eq_of_agree (Nat.le_refl _) (by omega) fun i hi => h i (by omega)
      rwa [List.take_length, ← hlength, List.take_length] at htake
    · right
      have hn : n ≤ v.length := by
        by_contra hclosed
        have := hwv (by omega)
        omega
      exact ⟨by omega, hn, take_eq_of_agree (by omega) hn h⟩
  · rintro (rfl | ⟨hnw, hnv, htake⟩) i hi
    · rfl
    · rw [letter_of_lt (by omega), letter_of_lt (by omega)]
      have hget : (w.take n)[i]? = (v.take n)[i]? := by rw [htake]
      rw [List.getElem?_take_of_lt hi, List.getElem?_take_of_lt hi,
        List.getElem?_eq_getElem (by omega), List.getElem?_eq_getElem (by omega)] at hget
      exact Option.some.inj hget

end Repetition
