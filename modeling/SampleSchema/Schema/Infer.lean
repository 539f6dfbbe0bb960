import SampleSchema.Number.Binary
import SampleSchema.Sample.Basic
import SampleSchema.Schema.Merge

/-!
# Inference

The schema of sample values.

A leaf sample has the tag of its kind. A number is an integer when it has no
fractional part, whichever way it is stored. The elements of a list, and
likewise the values of a map, are inferred one by one and merged into one
schema for all of them; an empty list says nothing about its items. An object
has the properties of its entries, and since one sample is all there is to go
by, every name in it is required.

Several samples are inferred one by one and merged. Only a number that is
infinite or undefined has no schema.

## Main definitions

* `InferError`: Why a sample has no schema.
* `Schema.infer`: The schema of a sample.
* `Schema.inferAll`: One schema for several samples.
* `Schema.extend`, `Schema.extendAll`: A schema widened by samples.
-/

namespace SampleSchema

/-- Why a sample has no schema. -/
inductive InferError
  /-- A number is infinite or undefined. -/
  | notFinite (x : Float)
  /-- Element schemas cannot be merged. -/
  | merge (reason : MergeError)

namespace Schema

/-- The tag of a number. -/
def floatTag (x : Float) : Except InferError Tag :=
  let b := Binary.ofFloat x
  if b.isFinite then .ok (if b.isWhole then .integer else .number)
  else .error (.notFinite x)

/-- Merge, as a part of inference. -/
def mergeInferred (o : MergeOptions) (xs : List Schema) : Except InferError Schema :=
  (merge o xs).mapError .merge

/-- An array or map whose elements have the given schemas. -/
def containerOf (o : MergeOptions) (tag : Tag) (elements : List Schema) :
    Except InferError Schema :=
  if elements.isEmpty then .ok (container tag none)
  else do
    let items ← mergeInferred o elements
    pure (container tag (some items))

/-- The schema of a sample. -/
def infer (o : MergeOptions) : Sample → Except InferError Schema
  | .null => .ok (ofTag .null)
  | .bool _ => .ok (ofTag .boolean)
  | .int _ => .ok (ofTag .integer)
  | .float x => do
      let tag ← floatTag x
      pure (ofTag tag)
  | .string _ => .ok (ofTag .string)
  | .list elements => do
      let schemas ← elements.mapM fun v => infer o v
      containerOf o .array schemas
  | .map entries => do
      let schemas ← (entries.mapMem fun _ v _ => infer o v).mapM fun _ s => s
      containerOf o .map schemas.values
  | .object entries => do
      let properties ← (entries.mapMem fun _ v _ => infer o v).mapM fun _ s => s
      pure (object properties (if o.noRequired then none else some entries.keys))
termination_by v => v
decreasing_by
  · decreasing_tactic
  · next hm =>
      have hlt := Keyed.sizeOf_lt_of_mem hm
      simp only [Sample.map.sizeOf_spec]
      omega
  · next hm =>
      have hlt := Keyed.sizeOf_lt_of_mem hm
      simp only [Sample.object.sizeOf_spec]
      omega

theorem infer_map (o : MergeOptions) (entries : Keyed Sample) :
    infer o (.map entries) =
      ((entries.map fun _ v => infer o v).mapM fun _ s => s) >>= fun schemas =>
        containerOf o .map schemas.values := by
  rw [infer, Keyed.mapMem_eq_map entries fun _ v => infer o v]

theorem infer_object (o : MergeOptions) (entries : Keyed Sample) :
    infer o (.object entries) =
      ((entries.map fun _ v => infer o v).mapM fun _ s => s) >>= fun properties =>
        pure (object properties (if o.noRequired then none else some entries.keys)) := by
  rw [infer, Keyed.mapMem_eq_map entries fun _ v => infer o v]

/-- One schema for several samples. -/
def inferAll (o : MergeOptions) (samples : List Sample) : Except InferError Schema := do
  let schemas ← samples.mapM (infer o)
  mergeInferred o schemas

/-- A schema widened by a sample. -/
def extend (o : MergeOptions) (s : Schema) (v : Sample) : Except InferError Schema := do
  let t ← infer o v
  mergeInferred o [s, t]

/-- A schema widened by several samples at once. -/
def extendAll (o : MergeOptions) (s : Schema) (samples : List Sample) :
    Except InferError Schema := do
  let schemas ← samples.mapM (infer o)
  mergeInferred o (s :: schemas)

end Schema

end SampleSchema
