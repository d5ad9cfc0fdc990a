import SpaceServe.Lib.Softmax
import SpaceServe.Worker.Attention

/-!
# Merging attention states

`merge_attn_states_kernel` of `vllm/v1/attention/backends/flash_attn.py`, for attention whose kernel
returns the mean of the values weighted by the exponentials of the scores, with the logarithm of the sum
of the weights. Numbers are those of an ordered field with an exponential; rounding is left out.

* `mergeAttnStatesKernel`, **`mergeAttnStatesKernel_append`**;
* `softmaxAttention`: attention with several heads.
-/

set_option autoImplicit false

namespace SpaceServe

open Py

section

variable {F V Q K : Type} [Field F] [LinearOrder F] [IsStrictOrderedRing F] [AddCommGroup V]
  [Module F V] (E : Exponential F)

/-- `merge_attn_states_kernel` for one token and one head. -/
def mergeAttnStatesKernel (pLse sLse : F) (pOut sOut : V) : V :=
  let maxLse := max pLse sLse
  let pLse := pLse - maxLse
  let sLse := sLse - maxLse
  let pScale := E.exp pLse / (E.exp pLse + E.exp sLse)
  let sScale := E.exp sLse / (E.exp pLse + E.exp sLse)
  pScale • pOut + sScale • sOut

variable {E}

/-- **The kernel puts the means over two parts together.** -/
theorem mergeAttnStatesKernel_append {xs ys : List (F × V)} (hx : xs ≠ []) (hy : ys ≠ []) :
    mergeAttnStatesKernel E (E.logSumExp xs) (E.logSumExp ys) (E.mean xs) (E.mean ys) =
      E.mean (xs ++ ys) := by
  have hp := E.share_sub (E.logSumExp xs) (E.logSumExp ys) (max (E.logSumExp xs) (E.logSumExp ys))
  have hs := E.share_sub (E.logSumExp ys) (E.logSumExp xs) (max (E.logSumExp xs) (E.logSumExp ys))
  rw [← Exponential.mean_append hx hy, ← hp, ← hs, mergeAttnStatesKernel, Exponential.share,
    Exponential.share]
  simp only [add_comm]

variable (E)

/-- What a query gets from some entries in each of `n` heads, in which it has a score for every entry. -/
def softmaxAttend (n : ℕ) (score : Fin n → Q → K → F) (value : Fin n → K → V) (q : Q) (ks : List K) :
    Fin n → V × F := fun head =>
  let xs := ks.map fun k => (score head q k, value head k)
  (E.mean xs, E.logSumExp xs)

/-- Attention with `n` heads. -/
def softmaxAttention (n : ℕ) (score : Fin n → Q → K → F) (value : Fin n → K → V)
    (flash : FlashAttn (softmaxAttend E n score value)) : Attention Q K (Fin n → V × F) (Fin n → V) where
  attend := softmaxAttend E n score value
  flash := flash
  output s head := (s head).1
  mergeAttnStates p s head := mergeAttnStatesKernel E (p head).2 (s head).2 (p head).1 (s head).1
  merge_append q ks ks' h h' := by
    funext head
    simp only [softmaxAttend, List.map_append]
    exact mergeAttnStatesKernel_append (by simpa using h) (by simpa using h')

end

end SpaceServe
