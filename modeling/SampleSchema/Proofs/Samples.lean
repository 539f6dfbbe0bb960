import SampleSchema.Number.Binary
import SampleSchema.Sample.Basic
import SampleSchema.Proofs.Attempts

/-!
# Inside Samples

The samples directly inside a sample, and recursion by them.

Inference goes through a sample from the inside out: the elements of a list
are inferred, then merged. Looking at many samples at once goes the other way,
and takes from all of them what is inside. Either way everything that is
turned to lies inside something that was there before, so it is smaller.
`maxSize` is the size of the largest of some samples, and taking samples from
inside others makes it shrink, however many are taken. `inner_induction` is
the induction that this allows.

Only an infinite or undefined number has no schema, and `isFinite` says that
there is none, at any depth.

## Main definitions

* `Sample.inner`: The samples directly inside a sample.
* `Sample.maxSize`: The size of the largest of some samples.
* `Sample.isFinite`: Every number in the sample is finite.

## Theorems

* `Sample.maxSize_lt`: Samples from inside others are smaller.
* `Sample.inner_induction`: What holds of samples whenever it holds of any
  samples from inside them holds of all.
* `Sample.isFinite_iff`: A sample is finite when what is inside is.
-/

namespace SampleSchema

namespace Sample

/-- The samples directly inside a sample. -/
def inner : Sample → List Sample
  | list elements => elements
  | map entries | object entries => entries.values
  | _ => []

theorem inner_asMap (v : Sample) : v.asMap.inner = v.inner := by
  cases v <;> rfl

theorem sizeOf_lt_of_mem_inner {v w : Sample} (h : w ∈ v.inner) : sizeOf w < sizeOf v := by
  cases v with
  | list elements =>
      have hlt : sizeOf w < sizeOf elements := List.sizeOf_lt_of_mem h
      simp only [list.sizeOf_spec]
      omega
  | map entries =>
      rcases List.mem_map.1 h with ⟨⟨k, w'⟩, he, rfl⟩
      have hlt := Keyed.sizeOf_lt_of_mem he
      simp only [map.sizeOf_spec]
      omega
  | object entries =>
      rcases List.mem_map.1 h with ⟨⟨k, w'⟩, he, rfl⟩
      have hlt := Keyed.sizeOf_lt_of_mem he
      simp only [object.sizeOf_spec]
      omega
  | null | bool _ | int _ | float _ | string _ => exact absurd h List.not_mem_nil

/-- The size of the largest of some samples. -/
noncomputable def maxSize (vs : List Sample) : Nat := (vs.map sizeOf).foldr max 0

theorem sizeOf_le_maxSize {vs : List Sample} {v : Sample} (h : v ∈ vs) : sizeOf v ≤ maxSize vs := by
  induction vs with
  | nil => exact absurd h List.not_mem_nil
  | cons w ws ih =>
      simp only [maxSize, List.map_cons, List.foldr_cons] at ih ⊢
      rcases List.mem_cons.1 h with rfl | hmem
      · omega
      · have := ih hmem
        omega

theorem maxSize_lt_of_forall {ws : List Sample} {n : Nat} (hn : 0 < n)
    (h : ∀ w ∈ ws, sizeOf w < n) : maxSize ws < n := by
  induction ws with
  | nil => exact hn
  | cons w ws ih =>
      simp only [maxSize, List.map_cons, List.foldr_cons] at ih ⊢
      have hw := h w List.mem_cons_self
      have hws := ih fun u hu => h u (List.mem_cons_of_mem _ hu)
      omega

theorem sizeOf_pos (v : Sample) : 0 < sizeOf v := by
  cases v <;> simp only [null.sizeOf_spec, bool.sizeOf_spec, int.sizeOf_spec, float.sizeOf_spec,
    string.sizeOf_spec, list.sizeOf_spec, map.sizeOf_spec, object.sizeOf_spec] <;> omega

/-- Samples from inside others are smaller, however many they are. -/
theorem maxSize_lt {vs ws : List Sample} (hvs : vs ≠ [])
    (h : ∀ w ∈ ws, ∃ v ∈ vs, w ∈ v.inner) : maxSize ws < maxSize vs := by
  -- There may be nothing to bound on the left, so the right must not be zero.
  rcases List.exists_mem_of_ne_nil vs hvs with ⟨v, hv⟩
  have hpos : 0 < maxSize vs := Nat.lt_of_lt_of_le (sizeOf_pos v) (sizeOf_le_maxSize hv)
  refine maxSize_lt_of_forall hpos fun w hw => ?_
  rcases h w hw with ⟨u, hu, hmem⟩
  exact Nat.lt_of_lt_of_le (sizeOf_lt_of_mem_inner hmem) (sizeOf_le_maxSize hu)

/-- What holds of samples whenever it holds of any samples from inside them
    holds of all. -/
theorem inner_induction {P : List Sample → Prop}
    (step : ∀ vs, (∀ ws, ws ≠ [] → (∀ w ∈ ws, ∃ v ∈ vs, w ∈ v.inner) → P ws) → P vs)
    (vs : List Sample) : P vs :=
  step vs fun ws _hws _hinner => inner_induction step ws
termination_by maxSize vs
decreasing_by
  rcases List.exists_mem_of_ne_nil ws _hws with ⟨w, hw⟩
  rcases _hinner w hw with ⟨v, hv, _⟩
  exact maxSize_lt (List.ne_nil_of_mem hv) _hinner

/-- The sample is not itself an infinite or undefined number. -/
def isFiniteItself : Sample → Bool
  | float x => (Binary.ofFloat x).isFinite
  | _ => true

/-- Every number in the sample is finite, at any depth. -/
def isFinite (v : Sample) : Bool :=
  v.isFiniteItself && v.inner.attach.all fun w => w.1.isFinite
termination_by v
decreasing_by exact sizeOf_lt_of_mem_inner w.2

theorem isFinite_iff {v : Sample} :
    v.isFinite ↔ v.isFiniteItself ∧ ∀ w ∈ v.inner, w.isFinite := by
  rw [isFinite]
  simp only [List.all_subtype, List.unattach_attach, Bool.and_eq_true, List.all_eq_true]

end Sample

end SampleSchema
