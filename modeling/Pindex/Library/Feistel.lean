import Mathlib.Data.Prod.Basic

/-!
# Feistel networks

A network changes a block of two halves step by step: each step combines one half with a
function of the other, and swaps the two. The functions need no inverses. All that is asked
of the combining operation is that combining twice with the same value does nothing
(`Cancels`); exclusive or on words is the usual one.

`network_reverse` runs the steps backwards on the swapped block. `whitened` is the shape
that ciphers have in practice, with a value combined before the first step and one after the
last; `whitened_reverse` says that such a cipher with its functions and values in the opposite
order undoes itself, so that it permutes the blocks (`whitened_bijective`).
-/

namespace Feistel

variable {W : Type*} {op : W → W → W} {f : W → W} {fs : List (W → W)} {pre post : W} {b : W × W}

/-- Combining with the same value twice does nothing. -/
def Cancels (op : W → W → W) : Prop := ∀ x k, op (op x k) k = x

/-- One step: a function of the first half is combined with the second. -/
def step (op : W → W → W) (f : W → W) (b : W × W) : W × W := (op b.2 (f b.1), b.1)

/-- The steps of the functions `fs`, in this order. -/
def network (op : W → W → W) (fs : List (W → W)) (b : W × W) : W × W :=
  fs.foldl (fun b f => step op f b) b

@[simp] theorem network_nil : network op [] b = b := rfl

@[simp] theorem network_cons : network op (f :: fs) b = network op fs (step op f b) := rfl

theorem network_append {gs : List (W → W)} :
    network op (fs ++ gs) b = network op gs (network op fs b) :=
  List.foldl_append

theorem step_swap (h : Cancels op) : step op f (step op f b).swap = b.swap := by
  show (op (op b.2 (f b.1)) (f b.1), b.1) = (b.2, b.1)
  rw [h]

/-- The steps in the opposite order lead back, on swapped halves. -/
theorem network_reverse (h : Cancels op) :
    network op fs.reverse (network op fs b).swap = b.swap := by
  induction fs generalizing b with
  | nil => rfl
  | cons f fs ih =>
    -- the steps after `f` are undone first, and `f` is left
    rw [List.reverse_cons, network_append, network_cons, network_nil, network_cons, ih]
    exact step_swap h

/-- A network with `pre` combined before it and `post` after it. The halves are not swapped
after the last step. -/
def whitened (op : W → W → W) (pre post : W) (fs : List (W → W)) (b : W × W) : W × W :=
  let b' := network op fs (op b.1 pre, b.2)
  (op b'.2 post, b'.1)

/-- The cipher with everything in the opposite order undoes it. -/
theorem whitened_reverse (h : Cancels op) :
    whitened op post pre fs.reverse (whitened op pre post fs b) = b := by
  have hback : network op fs.reverse (network op fs (op b.1 pre, b.2)).swap =
      (b.2, op b.1 pre) := network_reverse h
  unfold whitened
  dsimp only
  rw [h, show ((network op fs (op b.1 pre, b.2)).2, (network op fs (op b.1 pre, b.2)).1) =
    (network op fs (op b.1 pre, b.2)).swap from rfl, hback]
  show (op (op b.1 pre) pre, b.2) = b
  rw [h]

theorem whitened_bijective (h : Cancels op) : Function.Bijective (whitened op pre post fs) := by
  refine Function.bijective_iff_has_inverse.mpr ⟨whitened op post pre fs.reverse, ?_, ?_⟩
  · intro b
    exact whitened_reverse h
  · intro b
    have hback : whitened op pre post fs.reverse.reverse (whitened op post pre fs.reverse b) = b :=
      whitened_reverse h
    rwa [List.reverse_reverse] at hback

end Feistel
