import Mathlib.Data.List.Nodup
import Mathlib.Data.List.Perm.Basic
import Mathlib.Order.Defs.LinearOrder

/-!
# Batches in the order they arrive

A list built by appending batches, each of which arrives at a time of its own. Whatever the
order, the same elements come together (`arrived_perm`); and the batches that split a list by
a key bring the list together again (`arrived_split`). The list itself is the same for two
orders, and sorted, exactly when it is sorted for both (`arrived_eq_iff`).
-/

namespace Arrivals

variable {ι α κ : Type*} {batch : ι → List α} {order order' : List ι}

/-- What has been appended when the batches have arrived in this order. -/
def arrived (batch : ι → List α) (order : List ι) : List α := order.flatMap batch

@[simp] theorem arrived_nil : arrived batch [] = [] := rfl

@[simp] theorem arrived_cons (i : ι) :
    arrived batch (i :: order) = batch i ++ arrived batch order := rfl

theorem arrived_perm (h : order.Perm order') : (arrived batch order).Perm (arrived batch order') :=
  h.flatMap_right batch

/-- A list that is split by a key comes together again, as far as the keys go. -/
theorem arrived_split [DecidableEq κ] (key : α → κ) (l : List α) {keys : List κ}
    (h : keys.Nodup) :
    (arrived (fun k => l.filter fun a => key a = k) keys).Perm
      (l.filter fun a => key a ∈ keys) := by
  induction keys with
  | nil => simp
  | cons k keys ih =>
    rw [List.nodup_cons] at h
    -- the elements with key `k` come first, the others as before
    have hfirst : (l.filter fun a => key a ∈ k :: keys).filter (fun a => key a = k) =
        l.filter fun a => key a = k := by
      rw [List.filter_filter]
      apply List.filter_congr
      intro a _
      by_cases ha : key a = k <;> simp [ha]
    have hrest : (l.filter fun a => key a ∈ k :: keys).filter (fun a => !decide (key a = k)) =
        l.filter fun a => key a ∈ keys := by
      rw [List.filter_filter]
      apply List.filter_congr
      intro a _
      by_cases ha : key a = k
      · simp [ha, h.1]
      · simp [ha]
    have hsplit := List.filter_append_perm (fun a => decide (key a = k))
      (l.filter fun a => key a ∈ k :: keys)
    rw [hfirst, hrest] at hsplit
    exact ((ih h.2).append_left _).trans hsplit

/-- At most one element has a given key when no key occurs twice. -/
theorem length_filter_key_le_one [DecidableEq κ] {key : α → Option κ} {l : List α}
    (h : (l.filterMap key).Nodup) (k : κ) : (l.filter fun a => key a = some k).length ≤ 1 := by
  have hreplicate : (l.filter fun a => key a = some k).filterMap key =
      List.replicate (l.filter fun a => key a = some k).length k := by
    rw [List.eq_replicate_iff]
    have hall : ∀ a ∈ l.filter (fun a => key a = some k), key a = some k := fun a ha =>
      of_decide_eq_true (List.mem_filter.mp ha).2
    constructor
    · rw [List.filterMap_length_eq_length]
      intro a ha
      rw [hall a ha]
      rfl
    · intro b hb
      obtain ⟨a, ha, hab⟩ := List.mem_filterMap.mp hb
      exact Option.some.inj (hab.symm.trans (hall a ha))
  have hsub := (List.filter_sublist (l := l) (p := fun a => decide (key a = some k))).filterMap key
  rw [hreplicate] at hsub
  exact List.nodup_replicate.mp (hsub.nodup h)

/-- Two orders give one sorted list exactly when each gives a sorted list. -/
theorem arrived_eq_iff [Preorder κ] (key : α → κ) (h : order.Perm order') :
    (arrived batch order = arrived batch order' ∧
      ((arrived batch order).map key).Pairwise (· < ·)) ↔
    ((arrived batch order).map key).Pairwise (· < ·) ∧
      ((arrived batch order').map key).Pairwise (· < ·) := by
  constructor
  · rintro ⟨heq, hsorted⟩
    exact ⟨hsorted, heq ▸ hsorted⟩
  · rintro ⟨hsorted, hsorted'⟩
    refine ⟨?_, hsorted⟩
    rw [List.pairwise_map] at hsorted hsorted'
    apply List.Perm.eq_of_pairwise ?_ hsorted hsorted' (arrived_perm h)
    intro a b _ _ hab hba
    exact absurd hab (lt_asymm hba)

end Arrivals
