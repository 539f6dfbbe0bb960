import SampleSchema.Keyed

/-!
# Attempts in a Row

What it comes to when something that may fail is tried on every element.

A merge tries every tag and, inside an object, every name. An inference tries
every element. Each is a `mapM` whose effect is failure, and what the proofs
need of one is always the same: if all went well, there is a function telling
what each attempt gave, and the result is that function's image. Stated with
a function the result can be rewritten by `List.map` and `Keyed.map`, which
have their look-up lemmas already.

Two rows of attempts are also compared with each other. They end alike when
they fail at the same elements with the same errors, whatever they give
elsewhere. More generally the errors may be related in some way, and so may
the results.

A row that fails does so at the first attempt that does, so the error of a row
is the first error in it.

## Main definitions

* `failure?`: Why an attempt failed.
* `EndAlike`: Two attempts succeed, or fail with the same error.
* `EndRelated`: Two attempts succeed with related results, or fail with
  related errors.

## Theorems

* `bind_eq_ok_iff`: A sequence succeeds when both parts do.
* `mapError_eq_ok_iff`: Rewording failures leaves successes alone.
* `flatten_mapM_cons_eq_ok_iff`: What a row of attempts leads to, taken together.
* `mapM_of_ok`, `exists_of_mapM_ok`: A row of attempts succeeds exactly when
  each attempt does.
* `exists_of_mapM_error`: A row of attempts fails with one of them.
* `failure?_mapM`, `Keyed.failure?_mapM`: A row of attempts fails at the first
  that does.
* `mapM_congr`: Equal attempts make equal rows.
* `mapM_endRelated`, `mapM_related`: Rows whose attempts end related end
  related.
* `mapM_agree`: Rows failing at the same elements end alike.
* `Keyed.mapM_of_ok`, `Keyed.exists_of_mapM_ok`, `Keyed.mapM_congr`: The same
  for the values of a collection.
* `Keyed.mapM_map`: Values may be changed first and tried later.
* `Keyed.eq_of_ascending`: Names that ascend are determined by which they are.
-/

namespace SampleSchema

variable {ε α β γ : Type}

theorem bind_eq_ok_iff {x : Except ε α} {f : α → Except ε β} {b : β} :
    (x >>= f) = .ok b ↔ ∃ a, x = .ok a ∧ f a = .ok b := by
  constructor
  · intro h
    cases x with
    | error e => cases h
    | ok a => exact ⟨a, rfl, h⟩
  · rintro ⟨a, rfl, hf⟩
    exact hf

/-- A sequence fails where its first part does, or its second. -/
theorem bind_eq_error {x : Except ε α} {f : α → Except ε β} {e : ε} (h : (x >>= f) = .error e) :
    x = .error e ∨ ∃ a, x = .ok a ∧ f a = .error e := by
  cases x with
  | error e' =>
      cases h
      exact Or.inl rfl
  | ok a => exact Or.inr ⟨a, rfl, h⟩

/-- Rewording failures leaves successes alone. -/
theorem mapError_eq_ok_iff {δ : Type} {x : Except ε α} {f : ε → δ} {a : α} :
    x.mapError f = .ok a ↔ x = .ok a := by
  cases x with
  | error e => exact iff_of_false nofun nofun
  | ok b => exact ⟨fun h => congrArg Except.ok (Except.ok.inj h), fun h => by rw [h]; rfl⟩

theorem flatten_mapM_nil_eq_ok_iff {f : α → Except ε (List β)} {bs : List β} :
    List.flatten <$> [].mapM f = .ok bs ↔ bs = [] := by
  rw [List.mapM_nil]
  exact ⟨fun h => (Except.ok.inj h).symm, fun h => congrArg Except.ok h.symm⟩

/-- What the first attempt leads to stands in front of what the others lead to. -/
theorem flatten_mapM_cons_eq_ok_iff {f : α → Except ε (List β)} {a : α} {l : List α}
    {bs : List β} :
    List.flatten <$> (a :: l).mapM f = .ok bs ↔
      ∃ xs, f a = .ok xs ∧ ∃ ys, List.flatten <$> l.mapM f = .ok ys ∧ bs = xs ++ ys := by
  rw [List.mapM_cons]
  cases f a with
  | error e => exact iff_of_false nofun nofun
  | ok xs =>
      cases l.mapM f with
      | error e => exact iff_of_false nofun nofun
      | ok yss =>
          constructor
          · intro h
            exact ⟨xs, rfl, yss.flatten, rfl, (Except.ok.inj h).symm⟩
          · rintro ⟨_, hxs, _, hys, rfl⟩
            rw [← Except.ok.inj hxs, ← Except.ok.inj hys]
            rfl

/-- Where every attempt succeeds, so does the row. -/
theorem mapM_of_ok {f : α → Except ε β} {r : α → β} {l : List α}
    (h : ∀ a ∈ l, f a = .ok (r a)) : l.mapM f = .ok (l.map r) := by
  induction l with
  | nil => rfl
  | cons a as ih =>
      rw [List.mapM_cons, h a List.mem_cons_self, ih fun b hb => h b (List.mem_cons_of_mem _ hb)]
      rfl

/-- Where the row succeeds, every attempt did. -/
theorem exists_of_mapM_ok [Inhabited β] {f : α → Except ε β} {l : List α} {bs : List β}
    (h : l.mapM f = .ok bs) : ∃ r : α → β, (∀ a ∈ l, f a = .ok (r a)) ∧ bs = l.map r := by
  -- An element may occur repeatedly, so its value is read off `f` and not off the row.
  refine ⟨fun a => (f a).toOption.getD default, ?_⟩
  induction l generalizing bs with
  | nil =>
      rw [List.mapM_nil] at h
      cases h
      exact ⟨fun a ha => absurd ha List.not_mem_nil, rfl⟩
  | cons a as ih =>
      rw [List.mapM_cons] at h
      rcases bind_eq_ok_iff.1 h with ⟨b, hb, h⟩
      rcases bind_eq_ok_iff.1 h with ⟨cs, hcs, h⟩
      cases h
      rcases ih hcs with ⟨hall, hmap⟩
      have hread : (f a).toOption.getD default = b := by
        rw [hb]
        rfl
      refine ⟨?_, ?_⟩
      · intro c hc
        rcases List.mem_cons.1 hc with rfl | hc
        · change f c = .ok ((f c).toOption.getD default)
          rw [hread, hb]
        · exact hall c hc
      · rw [List.map_cons, hread, hmap]

/-- Why an attempt failed, if it did. -/
def failure? : Except ε α → Option ε
  | .ok _ => none
  | .error e => some e

theorem failure?_eq_some_iff {x : Except ε α} {e : ε} : failure? x = some e ↔ x = .error e := by
  cases x with
  | ok a => simp only [failure?, reduceCtorEq]
  | error e' => simp only [failure?, Option.some.injEq, Except.error.injEq]

theorem failure?_eq_none_iff {x : Except ε α} : failure? x = none ↔ ∃ a, x = .ok a := by
  cases x with
  | ok a => simp only [failure?, Except.ok.injEq, exists_eq']
  | error e => simp only [failure?, reduceCtorEq, exists_false]

/-- Where the second part cannot fail, a sequence fails as its first part. -/
theorem failure?_bind {x : Except ε α} {f : α → Except ε β}
    (h : ∀ a, x = .ok a → failure? (f a) = none) : failure? (x >>= f) = failure? x := by
  cases x with
  | ok a => exact h a rfl
  | error e => rfl

/-- A row of attempts fails at the first attempt that does. -/
theorem failure?_mapM {f : α → Except ε β} {g : α → Option ε} {l : List α}
    (h : ∀ a ∈ l, failure? (f a) = g a) : failure? (l.mapM f) = l.findSome? g := by
  induction l with
  | nil => rfl
  | cons a as ih =>
      rw [List.mapM_cons, List.findSome?_cons, ← h a List.mem_cons_self,
        ← ih fun b hb => h b (List.mem_cons_of_mem a hb)]
      cases f a with
      | error e => rfl
      | ok b => cases as.mapM f <;> rfl

/-- Where the row fails, one of its attempts did. -/
theorem exists_of_mapM_error {f : α → Except ε β} {l : List α} {e : ε}
    (h : l.mapM f = .error e) : ∃ a ∈ l, f a = .error e := by
  rw [← failure?_eq_some_iff, failure?_mapM fun _ _ => rfl] at h
  rcases List.exists_of_findSome?_eq_some h with ⟨a, ha, hfirst⟩
  exact ⟨a, ha, failure?_eq_some_iff.1 hfirst⟩

/-- Equal attempts make equal rows. -/
theorem mapM_congr {f g : α → Except ε β} {l : List α} (h : ∀ a ∈ l, f a = g a) :
    l.mapM f = l.mapM g := by
  induction l with
  | nil => rfl
  | cons a as ih =>
      rw [List.mapM_cons, List.mapM_cons, h a List.mem_cons_self,
        ih fun b hb => h b (List.mem_cons_of_mem _ hb)]

/-- Two attempts that both succeed, or fail with the same error. -/
def EndAlike (x : Except ε α) (y : Except ε β) : Prop :=
  (∃ a b, x = .ok a ∧ y = .ok b) ∨ ∃ e, x = .error e ∧ y = .error e

theorem EndAlike.of_eq {x y : Except ε α} (h : x = y) : EndAlike x y := by
  subst h
  cases x with
  | ok a => exact Or.inl ⟨a, a, rfl, rfl⟩
  | error e => exact Or.inr ⟨e, rfl, rfl⟩

/-- Two attempts that both succeed with related results, or both fail with
    related errors. -/
def EndRelated (S : ε → ε → Prop) (R : α → β → Prop) : Except ε α → Except ε β → Prop
  | .ok a, .ok b => R a b
  | .error e, .error e' => S e e'
  | _, _ => False

theorem endAlike_iff {x : Except ε α} {y : Except ε β} :
    EndAlike x y ↔ EndRelated Eq (fun _ _ => True) x y := by
  constructor
  · rintro (⟨a, b, rfl, rfl⟩ | ⟨e, rfl, rfl⟩)
    · trivial
    · rfl
  · intro h
    cases x with
    | ok a =>
        cases y with
        | ok b => exact Or.inl ⟨a, b, rfl, rfl⟩
        | error e' => exact h.elim
    | error e =>
        cases y with
        | ok b => exact h.elim
        | error e' =>
            cases h
            exact Or.inr ⟨e, rfl, rfl⟩

section Related

variable {S : ε → ε → Prop} {R : α → β → Prop}

/-- Related attempts may be gone on with in related ways. -/
theorem EndRelated.bind {γ δ : Type} {T : γ → δ → Prop} {x : Except ε α} {y : Except ε β}
    {f : α → Except ε γ} {g : β → Except ε δ} (h : EndRelated S R x y)
    (hfg : ∀ a b, R a b → EndRelated S T (f a) (g b)) : EndRelated S T (x >>= f) (y >>= g) := by
  cases x with
  | ok a =>
      cases y with
      | ok b => exact hfg a b h
      | error e' => exact h.elim
  | error e =>
      cases y with
      | ok b => exact h.elim
      | error e' => exact h

/-- Related attempts succeed together. -/
theorem EndRelated.exists_ok_iff {x : Except ε α} {y : Except ε β} (h : EndRelated S R x y) :
    (∃ a, x = .ok a) ↔ ∃ b, y = .ok b := by
  cases x with
  | ok a =>
      cases y with
      | ok b => exact ⟨fun _ => ⟨b, rfl⟩, fun _ => ⟨a, rfl⟩⟩
      | error e' => exact h.elim
  | error e =>
      cases y with
      | ok b => exact h.elim
      | error e' => simp only [reduceCtorEq, exists_false]

theorem EndRelated.of_ok {x : Except ε α} {y : Except ε β} {a : α} {b : β}
    (h : EndRelated S R x y) (hx : x = .ok a) (hy : y = .ok b) : R a b := by
  rw [hx, hy] at h
  exact h

end Related

section Rows

variable {S : ε → ε → Prop} {R : α → β → γ → Prop} {f : α → Except ε β} {g : α → Except ε γ}
  {l : List α} (h : ∀ a ∈ l, EndRelated S (R a) (f a) (g a))
include h

/-- Rows whose attempts end related succeed together, and if not, their first
    errors are related. -/
theorem mapM_endRelated : EndRelated S (fun _ _ => True) (l.mapM f) (l.mapM g) := by
  induction l with
  | nil => trivial
  | cons a as ih =>
      rw [List.mapM_cons, List.mapM_cons]
      -- Either both get past the first element and the others decide, or both stop at it.
      refine (h a List.mem_cons_self).bind fun _ _ _ => ?_
      exact (ih fun b hb => h b (List.mem_cons_of_mem _ hb)).bind fun _ _ _ => trivial

/-- What such rows give is related element by element. -/
theorem mapM_related [Inhabited β] [Inhabited γ] :
    EndRelated S
      (fun bs cs => ∃ r q, (∀ a ∈ l, f a = .ok (r a) ∧ g a = .ok (q a) ∧ R a (r a) (q a)) ∧
        bs = l.map r ∧ cs = l.map q)
      (l.mapM f) (l.mapM g) := by
  have hrow := mapM_endRelated h
  cases hf : l.mapM f with
  | error e =>
      cases hg : l.mapM g with
      | error e' =>
          rw [hf, hg] at hrow
          exact hrow
      | ok cs =>
          rcases hrow.exists_ok_iff.2 ⟨cs, hg⟩ with ⟨bs, hbs⟩
          rw [hf] at hbs
          cases hbs
  | ok bs =>
      rcases hrow.exists_ok_iff.1 ⟨bs, hf⟩ with ⟨cs, hg⟩
      rw [hg]
      rcases exists_of_mapM_ok hf with ⟨r, hr, hbs⟩
      rcases exists_of_mapM_ok hg with ⟨q, hq, hcs⟩
      exact ⟨r, q, fun a ha => ⟨hr a ha, hq a ha, (h a ha).of_ok (hr a ha) (hq a ha)⟩, hbs, hcs⟩

end Rows

/-- Rows that fail at the same elements with the same errors end alike. -/
theorem mapM_agree {f : α → Except ε β} {g : α → Except ε γ} {l : List α}
    (h : ∀ a ∈ l, EndAlike (f a) (g a)) : EndAlike (l.mapM f) (l.mapM g) :=
  endAlike_iff.2 (mapM_endRelated fun a ha => endAlike_iff.1 (h a ha))

/-! ### Collections -/

namespace Keyed

theorem From.mapM_of_ok {f : String → α → Except ε β} {w : String → α → β} {lo : Option String}
    {r : From α lo} (h : ∀ e ∈ r.toList, f e.1 e.2 = .ok (w e.1 e.2)) :
    r.mapM f = .ok (r.map w) := by
  induction r with
  | nil => rfl
  | cons k hk v rest ih =>
      rw [From.mapM, h (k, v) List.mem_cons_self,
        ih fun e he => h e (List.mem_cons_of_mem _ he)]
      rfl

theorem From.exists_of_mapM_ok [Inhabited β] {f : String → α → Except ε β} {lo : Option String}
    {r : From α lo} {q : From β lo} (h : r.mapM f = .ok q) :
    ∃ w : String → α → β, (∀ e ∈ r.toList, f e.1 e.2 = .ok (w e.1 e.2)) ∧ q = r.map w := by
  refine ⟨fun k v => (f k v).toOption.getD default, ?_⟩
  induction r with
  | nil =>
      cases h
      exact ⟨fun e he => absurd he List.not_mem_nil, rfl⟩
  | cons k hk v rest ih =>
      rw [From.mapM] at h
      rcases bind_eq_ok_iff.1 h with ⟨b, hb, h⟩
      rcases bind_eq_ok_iff.1 h with ⟨rest', hrest, h⟩
      cases h
      rcases ih hrest with ⟨hall, hmap⟩
      have hread : (f k v).toOption.getD default = b := by
        rw [hb]
        rfl
      refine ⟨?_, ?_⟩
      · intro e he
        rcases List.mem_cons.1 he with rfl | he
        · change f k v = .ok ((f k v).toOption.getD default)
          rw [hread, hb]
        · exact hall e he
      · rw [From.map, hread, hmap]

theorem From.mapM_congr {f g : String → α → Except ε β} {lo : Option String} {r : From α lo}
    (h : ∀ e ∈ r.toList, f e.1 e.2 = g e.1 e.2) : r.mapM f = r.mapM g := by
  induction r with
  | nil => rfl
  | cons k hk v rest ih =>
      rw [From.mapM, From.mapM, h (k, v) List.mem_cons_self,
        ih fun e he => h e (List.mem_cons_of_mem _ he)]

/-- Where the attempt succeeds on every value, so does the collection. -/
theorem mapM_of_ok {f : String → α → Except ε β} {w : String → α → β} {r : Keyed α}
    (h : ∀ k v, r.get? k = some v → f k v = .ok (w k v)) : r.mapM f = .ok (r.map w) := by
  rw [Keyed.mapM, From.mapM_of_ok fun e he => h e.1 e.2 (mem_toList_iff.1 he)]
  rfl

/-- Where the collection succeeds, the attempt did on every value. -/
theorem exists_of_mapM_ok [Inhabited β] {f : String → α → Except ε β} {r : Keyed α} {q : Keyed β}
    (h : r.mapM f = .ok q) :
    ∃ w : String → α → β, (∀ k v, r.get? k = some v → f k v = .ok (w k v)) ∧ q = r.map w := by
  rw [Keyed.mapM] at h
  rcases bind_eq_ok_iff.1 h with ⟨entries, hentries, h⟩
  cases h
  rcases From.exists_of_mapM_ok hentries with ⟨w, hall, hmap⟩
  refine ⟨w, fun k v hv => hall (k, v) (mem_toList_iff.2 hv), ?_⟩
  rw [hmap]
  rfl

theorem From.failure?_mapM {f : String → α → Except ε β} {g : String × α → Option ε}
    {lo : Option String} {r : From α lo} (h : ∀ e ∈ r.toList, failure? (f e.1 e.2) = g e) :
    failure? (r.mapM f) = r.toList.findSome? g := by
  induction r with
  | nil => rfl
  | cons k above v rest ih =>
      rw [From.mapM, From.toList, List.findSome?_cons, ← h (k, v) List.mem_cons_self,
        ← ih fun e he => h e (List.mem_cons_of_mem _ he)]
      cases f k v with
      | error e => rfl
      | ok b => cases rest.mapM f <;> rfl

/-- A collection fails at the first name, in ascending order, at which the
    attempt does. -/
theorem failure?_mapM {f : String → α → Except ε β} {g : String × α → Option ε} {r : Keyed α}
    (h : ∀ k v, r.get? k = some v → failure? (f k v) = g (k, v)) :
    failure? (r.mapM f) = r.toList.findSome? g := by
  rw [Keyed.mapM, failure?_bind fun _ _ => rfl]
  exact From.failure?_mapM fun e he => h e.1 e.2 (mem_toList_iff.1 he)

/-- Where the collection fails, the attempt did on one of the values. -/
theorem exists_of_mapM_error {f : String → α → Except ε β} {r : Keyed α} {e : ε}
    (h : r.mapM f = .error e) : ∃ k v, r.get? k = some v ∧ f k v = .error e := by
  rw [← failure?_eq_some_iff, failure?_mapM (g := fun p => failure? (f p.1 p.2)) fun _ _ _ => rfl]
    at h
  rcases List.exists_of_findSome?_eq_some h with ⟨⟨k, v⟩, hp, hfirst⟩
  exact ⟨k, v, mem_toList_iff.1 hp, failure?_eq_some_iff.1 hfirst⟩

/-- Equal attempts make equal collections. -/
theorem mapM_congr {f g : String → α → Except ε β} {r : Keyed α}
    (h : ∀ k v, r.get? k = some v → f k v = g k v) : r.mapM f = r.mapM g := by
  rw [Keyed.mapM, Keyed.mapM, From.mapM_congr fun e he => h e.1 e.2 (mem_toList_iff.1 he)]

theorem From.mapM_related {S : ε → ε → Prop} {R : String → β → γ → Prop}
    {f : String → α → Except ε β} {g : String → α → Except ε γ} {lo : Option String}
    {r : From α lo} (h : ∀ e ∈ r.toList, EndRelated S (R e.1) (f e.1 e.2) (g e.1 e.2)) :
    EndRelated S (fun p q => ∀ k, Option.Rel (R k) (p.get? k) (q.get? k)) (r.mapM f)
      (r.mapM g) := by
  induction r with
  | nil => exact fun k => .none
  | cons k hk v rest ih =>
      rw [From.mapM, From.mapM]
      refine (h (k, v) List.mem_cons_self).bind fun b c hbc => ?_
      refine (ih fun e he => h e (List.mem_cons_of_mem _ he)).bind fun p q hpq name => ?_
      -- The first name holds what the first attempts gave.
      by_cases hname : name = k
      · rw [hname, From.get?, From.get?, if_pos rfl, if_pos rfl]
        exact .some hbc
      · rw [From.get?, From.get?, if_neg hname, if_neg hname]
        exact hpq name

/-- Where the attempts end related under every name, the collections hold
    related values, or the first errors are related. -/
theorem mapM_related {S : ε → ε → Prop} {R : String → β → γ → Prop}
    {f : String → α → Except ε β} {g : String → α → Except ε γ} {r : Keyed α}
    (h : ∀ k v, r.get? k = some v → EndRelated S (R k) (f k v) (g k v)) :
    EndRelated S (fun p q => ∀ k, Option.Rel (R k) (p.get? k) (q.get? k)) (r.mapM f) (r.mapM g) :=
  (From.mapM_related fun e he => h e.1 e.2 (mem_toList_iff.1 he)).bind fun _ _ hpq => hpq

/-- Values may be changed first and tried later. -/
theorem From.mapM_map {f : String → α → β} {g : String → β → Except ε γ} {lo : Option String}
    (r : From α lo) : (r.map f).mapM g = r.mapM fun k v => g k (f k v) := by
  induction r with
  | nil => rfl
  | cons k hk v rest ih => rw [From.map, From.mapM, From.mapM, ih]

theorem mapM_map {f : String → α → β} {g : String → β → Except ε γ} (r : Keyed α) :
    (r.map f).mapM g = r.mapM fun k v => g k (f k v) := by
  rw [Keyed.mapM, Keyed.mapM, Keyed.map, From.mapM_map]

/-! ### Names -/

theorem mem_keys_iff {r : Keyed α} {k : String} : k ∈ r.keys ↔ ∃ v, r.get? k = some v := by
  rw [keys, List.mem_map]
  constructor
  · rintro ⟨⟨k', v⟩, he, rfl⟩
    exact ⟨v, mem_toList_iff.1 he⟩
  · rintro ⟨v, hv⟩
    exact ⟨(k, v), mem_toList_iff.2 hv, rfl⟩

theorem mem_values_iff {r : Keyed α} {v : α} : v ∈ r.values ↔ ∃ k, r.get? k = some v := by
  rw [values, List.mem_map]
  constructor
  · rintro ⟨⟨k, v'⟩, he, rfl⟩
    exact ⟨k, mem_toList_iff.1 he⟩
  · rintro ⟨k, hk⟩
    exact ⟨(k, v), mem_toList_iff.2 hk, rfl⟩

theorem keys_map (r : Keyed α) (f : String → α → β) : (r.map f).keys = r.keys := by
  rw [keys, keys, toList_map, List.map_map]
  rfl

theorem values_map (r : Keyed α) (f : α → β) : (r.map fun _ v => f v).values = r.values.map f := by
  rw [values, values, toList_map, List.map_map, List.map_map]
  rfl

theorem map_map {γ : Type} (r : Keyed α) (f : String → α → β) (g : String → β → γ) :
    (r.map f).map g = r.map fun k v => g k (f k v) := by
  apply ext_get?
  intro k
  rw [get?_map, get?_map, get?_map, Option.map_map]
  rfl

/-- Tabulating at the names of a collection changes its values. -/
theorem tabulate_keys (r : Keyed α) (f : String → β) :
    tabulate r.keys f = r.map fun k _ => f k := by
  apply ext_get?
  intro k
  rw [get?_tabulate, get?_map]
  cases hk : r.get? k with
  | none =>
      rw [if_neg fun hmem => ?_]
      · rfl
      · rcases mem_keys_iff.1 hmem with ⟨v, hv⟩
        rw [hk] at hv
        cases hv
  | some v => exact if_pos (mem_keys_iff.2 ⟨v, hk⟩)

theorem map_tabulate (names : List String) (f : String → α) (g : String → α → β) :
    (tabulate names f).map g = tabulate names fun name => g name (f name) := by
  apply ext_get?
  intro name
  rw [get?_map, get?_tabulate, get?_tabulate]
  split <;> rfl

/-- The names ascend. -/
theorem pairwise_keys (r : Keyed α) : r.keys.Pairwise (· < ·) :=
  List.pairwise_map.2 (pairwise_toList r)

/-- A collection is empty when every look-up finds nothing. -/
theorem isEmpty_iff {r : Keyed α} : r.isEmpty ↔ ∀ k, r.get? k = none := by
  rw [isEmpty, List.isEmpty_iff, List.eq_nil_iff_forall_not_mem]
  constructor
  · intro h k
    cases hk : r.get? k with
    | none => rfl
    | some v => exact absurd (mem_toList_iff.2 hk) (h (k, v))
  · rintro h ⟨k, v⟩ he
    have := mem_toList_iff.1 he
    rw [h k] at this
    cases this

theorem isEmpty_map (r : Keyed α) (f : String → α → β) : (r.map f).isEmpty = r.isEmpty := by
  rw [isEmpty, isEmpty, toList_map, List.isEmpty_map]

/-! ### Names in ascending order -/

/-- Where names ascend, none occurs twice. -/
theorem nodup_of_ascending {names : List String} (h : names.Pairwise (· < ·)) : names.Nodup := by
  refine h.imp ?_
  intro a b hlt heq
  rw [heq] at hlt
  exact String.lt_irrefl _ hlt

/-- Where names ascend, the names determine the list. -/
theorem eq_of_ascending {names others : List String} (hnames : names.Pairwise (· < ·))
    (hothers : others.Pairwise (· < ·)) (h : ∀ name, name ∈ names ↔ name ∈ others) :
    names = others := by
  have hperm : names.Perm others :=
    (List.perm_ext_iff_of_nodup (nodup_of_ascending hnames) (nodup_of_ascending hothers)).2 h
  -- The order is strict, so no two names come before each other.
  refine hperm.eq_of_pairwise ?_ hnames hothers
  intro a b _ _ hab hba
  exact absurd (String.lt_trans hab hba) (String.lt_irrefl a)

end Keyed

end SampleSchema
