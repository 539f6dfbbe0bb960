import Mathlib
import SampleSchema.Schema.Compare

/-!
# Pairing Off

When the elements of two lists can be paired, and when the greedy way to do so
finds the pairs.

Two lists are paired when the elements of the one, in their order, are related
one by one to those of the other in some order. This is how schemas compare:
the order of alternatives does not count, but their number does. Paired lists
stay so when either is reordered, when both are filtered in the same way, and
when they are appended to paired lists.

`pairOff` gives each element on the left the first one on the right that is
free and equal, and never goes back on a choice. If it succeeds there are
pairs, whatever it is that pairs are asked for. The converse fails in general:
an element may take the only partner of a later one, though it had others. It
holds if elements that share a partner share all of them. Then the element
from which a partner was taken can have the one that was left instead, and
`exists_exchange` makes this change.

Pairs do not say which position has which, and equal elements may stand at
several. A bijection between the positions does, and there is one whenever
there are pairs.

## Main definitions

* `Paired`: The elements of two lists can be paired.
* `Exchangeable`: Elements that share a partner share all partners.

## Theorems

* `exists_perm_of_pairOff`: What a pairing gives.
* `Paired.append`, `Paired.filter`, `Paired.map`, `Paired.symm`, `Paired.trans`:
  Paired lists make paired lists.
* `Paired.iff_exists_bijective`: Pairs are a bijection between positions.
* `exists_exchange`: Two partners may be exchanged.
* `pairOff_iff_paired`: The greedy way finds pairs if there are any.
-/

namespace SampleSchema

variable {α β γ : Type}

/-! ### The greedy way -/

/-- A pairing gives each element on the left an element of its own on the
    right. -/
theorem exists_perm_of_pairOff {same : α → β → Bool} {as : List α} {bs : List β}
    (h : pairOff same as bs) :
    ∃ cs rest, bs.Perm (cs ++ rest) ∧ List.Forall₂ (fun a b => same a b) as cs := by
  induction as generalizing bs with
  | nil => exact ⟨[], bs, List.Perm.refl bs, .nil⟩
  | cons a as ih =>
      unfold pairOff at h
      split at h
      · next i hfound =>
          rcases List.findIdx?_eq_some_iff_getElem.1 hfound with ⟨hi, hsame, _⟩
          rcases ih h with ⟨cs, rest, hperm, hpairs⟩
          refine ⟨bs[i] :: cs, rest, ?_, .cons hsame hpairs⟩
          exact (List.getElem_cons_eraseIdx_perm hi).symm.trans (hperm.cons _)
      · cases h

theorem exists_mem_of_pairOff {same : α → β → Bool} {as : List α} {bs : List β}
    (h : pairOff same as bs) {a : α} (ha : a ∈ as) : ∃ b ∈ bs, same a b := by
  rcases exists_perm_of_pairOff h with ⟨cs, rest, hperm, hpairs⟩
  have hpartner : ∃ b ∈ cs, same a b := by
    clear hperm h
    induction hpairs with
    | nil => exact absurd ha List.not_mem_nil
    | @cons a' b as cs hsame _ ih =>
        rcases List.mem_cons.1 ha with rfl | ha
        · exact ⟨b, List.mem_cons_self, hsame⟩
        · rcases ih ha with ⟨c, hc, hsame⟩
          exact ⟨c, List.mem_cons_of_mem b hc, hsame⟩
  rcases hpartner with ⟨b, hb, hsame⟩
  exact ⟨b, hperm.mem_iff.2 (List.mem_append_left rest hb), hsame⟩

theorem pairOff_self {same : α → α → Bool} {as : List α} (h : ∀ a ∈ as, same a a) :
    pairOff same as as := by
  induction as with
  | nil => rfl
  | cons a as ih =>
      rw [pairOff, List.findIdx?_cons, if_pos (h a List.mem_cons_self)]
      exact ih fun b hb => h b (List.mem_cons_of_mem a hb)

/-- Pairing the images of some elements. -/
theorem pairOff_map (same : β → γ → Bool) (f : α → β) (as : List α) (bs : List γ) :
    pairOff (fun a b => same (f a) b) as bs = pairOff same (as.map f) bs := by
  induction as generalizing bs with
  | nil => rfl
  | cons a as ih =>
      rw [List.map_cons, pairOff, pairOff]
      cases bs.findIdx? (same (f a)) with
      | none => rfl
      | some i => exact ih _

/-! ### Related options -/

section Options

variable {R : α → β → Prop} {x : Option α} {y : Option β}

theorem eq_none_iff_of_rel (h : Option.Rel R x y) : x = none ↔ y = none := by
  cases h with
  | some hab => simp only [reduceCtorEq]
  | none => simp only

theorem exists_of_rel {a : α} (h : Option.Rel R x y) (hx : x = some a) :
    ∃ b, y = some b ∧ R a b := by
  cases h with
  | some hab =>
      cases hx
      exact ⟨_, rfl, hab⟩
  | none => cases hx

theorem rel_imp {S : α → β → Prop} (h : Option.Rel R x y)
    (himp : ∀ a b, x = some a → y = some b → R a b → S a b) : Option.Rel S x y := by
  cases h with
  | some hab => exact .some (himp _ _ rfl rfl hab)
  | none => exact .none

theorem rel_map {δ : Type} {S : γ → δ → Prop} {p : α → γ} {q : β → δ} (h : Option.Rel R x y)
    (hRS : ∀ a b, x = some a → y = some b → R a b → S (p a) (q b)) :
    Option.Rel S (x.map p) (y.map q) := by
  cases h with
  | some hab => exact .some (hRS _ _ rfl rfl hab)
  | none => exact .none

theorem rel_symm {S : β → α → Prop} (h : Option.Rel R x y)
    (hRS : ∀ a b, x = some a → R a b → S b a) : Option.Rel S y x := by
  cases h with
  | some hab => exact .some (hRS _ _ rfl hab)
  | none => exact .none

theorem rel_trans {S : β → γ → Prop} {T : α → γ → Prop} {z : Option γ} (h : Option.Rel R x y)
    (h' : Option.Rel S y z) (hRST : ∀ a b c, x = some a → R a b → S b c → T a c) :
    Option.Rel T x z := by
  cases h with
  | some hab =>
      cases h' with
      | some hbc => exact .some (hRST _ _ _ rfl hab hbc)
  | none =>
      cases h'
      exact .none

end Options

/-! ### Paired lists -/

/-- The elements of two lists can be paired, the first list being in order. -/
def Paired (R : α → β → Prop) (as : List α) (bs : List β) : Prop :=
  ∃ cs, List.Forall₂ R as cs ∧ cs.Perm bs

namespace Paired

variable {R : α → β → Prop} {as as' : List α} {bs bs' : List β}

theorem of_forall₂ (h : List.Forall₂ R as bs) : Paired R as bs := ⟨bs, h, .refl bs⟩

theorem nil : Paired R [] [] := of_forall₂ .nil

theorem singleton {a : α} {b : β} (h : R a b) : Paired R [a] [b] := of_forall₂ (.cons h .nil)

/-- Lists in another order are paired, if every element may be paired with
    itself. -/
theorem of_perm {R : α → α → Prop} {as bs : List α} (h : as.Perm bs) (hR : ∀ a ∈ as, R a a) :
    Paired R as bs := ⟨as, List.forall₂_same.2 hR, h⟩

theorem perm_left (h : Paired R as bs) (hperm : as'.Perm as) : Paired R as' bs := by
  rcases h with ⟨cs, hpairs, hcs⟩
  rcases List.perm_comp_forall₂ hperm hpairs with ⟨ds, hpairs, hds⟩
  exact ⟨ds, hpairs, hds.trans hcs⟩

theorem perm_right (h : Paired R as bs) (hperm : bs.Perm bs') : Paired R as bs' := by
  rcases h with ⟨cs, hpairs, hcs⟩
  exact ⟨cs, hpairs, hcs.trans hperm⟩

theorem length_eq (h : Paired R as bs) : as.length = bs.length := by
  rcases h with ⟨cs, hpairs, hcs⟩
  rw [hpairs.length_eq, hcs.length_eq]

theorem eq_nil_iff (h : Paired R as bs) : as = [] ↔ bs = [] := by
  rw [← List.length_eq_zero_iff, h.length_eq, List.length_eq_zero_iff]

theorem append (h : Paired R as bs) (h' : Paired R as' bs') :
    Paired R (as ++ as') (bs ++ bs') := by
  rcases h with ⟨cs, hpairs, hcs⟩
  rcases h' with ⟨cs', hpairs', hcs'⟩
  exact ⟨cs ++ cs', List.rel_append hpairs hpairs', hcs.append hcs'⟩

theorem flatMap {l : List γ} {f : γ → List α} {g : γ → List β} (h : ∀ c ∈ l, Paired R (f c) (g c)) :
    Paired R (l.flatMap f) (l.flatMap g) := by
  induction l with
  | nil => exact nil
  | cons c l ih =>
      rw [List.flatMap_cons, List.flatMap_cons]
      exact (h c List.mem_cons_self).append (ih fun d hd => h d (List.mem_cons_of_mem c hd))

/-- Every element on the left has a partner. -/
theorem exists_right (h : Paired R as bs) {a : α} (ha : a ∈ as) : ∃ b ∈ bs, R a b := by
  rcases h with ⟨cs, hpairs, hcs⟩
  induction hpairs generalizing bs with
  | nil => exact absurd ha List.not_mem_nil
  | @cons a' c as cs hac _ ih =>
      rcases List.mem_cons.1 ha with rfl | ha
      · exact ⟨c, hcs.mem_iff.1 List.mem_cons_self, hac⟩
      · rcases ih ha (.refl cs) with ⟨b, hb, hab⟩
        exact ⟨b, hcs.mem_iff.1 (List.mem_cons_of_mem c hb), hab⟩

/-- Pairs may be asked for less. -/
theorem imp {S : α → β → Prop} (h : Paired R as bs)
    (himp : ∀ a ∈ as, ∀ b ∈ bs, R a b → S a b) : Paired S as bs := by
  rcases h with ⟨cs, hpairs, hcs⟩
  refine ⟨cs, ?_, hcs⟩
  have hmem : ∀ a ∈ as, ∀ c ∈ cs, R a c → S a c := fun a ha c hc => himp a ha c (hcs.mem_iff.1 hc)
  clear hcs himp
  induction hpairs with
  | nil => exact .nil
  | @cons a c as cs hac _ ih =>
      refine .cons (hmem a List.mem_cons_self c List.mem_cons_self hac) (ih fun a' ha' c' hc' => ?_)
      exact hmem a' (List.mem_cons_of_mem a ha') c' (List.mem_cons_of_mem c hc')

theorem symm {S : β → α → Prop} (h : Paired R as bs) (hRS : ∀ a ∈ as, ∀ b ∈ bs, R a b → S b a) :
    Paired S bs as := by
  rcases h.imp (S := fun a b => S b a) hRS with ⟨cs, hpairs, hcs⟩
  exact perm_left (of_forall₂ hpairs.flip) hcs.symm

/-- Every element on the right has a partner. -/
theorem exists_left (h : Paired R as bs) {b : β} (hb : b ∈ bs) : ∃ a ∈ as, R a b := by
  have hback : Paired (fun b a => R a b) bs as := h.symm fun _ _ _ _ hab => hab
  exact hback.exists_right hb

theorem trans {S : β → γ → Prop} {T : α → γ → Prop} {cs : List γ} (h : Paired R as bs)
    (h' : Paired S bs cs) (hRST : ∀ a ∈ as, ∀ b c, R a b → S b c → T a c) : Paired T as cs := by
  rcases h with ⟨bs', hpairs, hperm⟩
  rcases h'.perm_left hperm with ⟨cs', hpairs', hperm'⟩
  refine ⟨cs', ?_, hperm'⟩
  clear hperm h' hperm'
  induction hpairs generalizing cs' with
  | nil =>
      cases hpairs'
      exact .nil
  | @cons a b as bs' hab _ ih =>
      cases hpairs' with
      | @cons _ c _ cs' hbc hpairs' =>
          have hrest := ih (fun a' ha' => hRST a' (List.mem_cons_of_mem a ha')) cs' hpairs'
          exact .cons (hRST a List.mem_cons_self b c hab hbc) hrest

theorem filter {p : α → Bool} {q : β → Bool} (h : Paired R as bs)
    (hpq : ∀ a b, R a b → (p a ↔ q b)) : Paired R (as.filter p) (bs.filter q) := by
  rcases h with ⟨cs, hpairs, hcs⟩
  exact ⟨cs.filter q, List.rel_filter (fun a b hab => hpq a b hab) hpairs, hcs.filter q⟩

theorem filterMap {δ : Type} {S : γ → δ → Prop} {p : α → Option γ} {q : β → Option δ}
    (h : Paired R as bs) (hpq : ∀ a b, R a b → Option.Rel S (p a) (q b)) :
    Paired S (as.filterMap p) (bs.filterMap q) := by
  rcases h with ⟨cs, hpairs, hcs⟩
  exact ⟨cs.filterMap q, List.rel_filterMap (fun a b hab => hpq a b hab) hpairs, hcs.filterMap q⟩

theorem map {δ : Type} {S : γ → δ → Prop} {p : α → γ} {q : β → δ} (h : Paired R as bs)
    (hpq : ∀ a b, R a b → S (p a) (q b)) : Paired S (as.map p) (bs.map q) := by
  rcases h with ⟨cs, hpairs, hcs⟩
  exact ⟨cs.map q, List.rel_map (fun a b hab => hpq a b hab) hpairs, hcs.map q⟩

theorem singleton_left_iff {a : α} : Paired R [a] bs ↔ ∃ b, bs = [b] ∧ R a b := by
  constructor
  · rintro ⟨cs, hpairs, hcs⟩
    rcases List.forall₂_cons_left_iff.1 hpairs with ⟨b, ds, hab, hds, rfl⟩
    rw [List.forall₂_nil_left_iff.1 hds, List.singleton_perm] at hcs
    exact ⟨b, hcs.symm, hab⟩
  · rintro ⟨b, rfl, hab⟩
    exact singleton hab

/-- Every element of a list is paired with its position. -/
theorem positions (bs : List β) : Paired (fun b i => b = bs[i]) bs (List.finRange bs.length) := by
  refine of_forall₂ (List.forall₂_iff_get.2 ⟨List.length_finRange.symm, fun i h₁ h₂ => ?_⟩)
  simp only [List.get_eq_getElem, List.getElem_finRange, Fin.getElem_fin, Fin.val_cast]

/-- Pairs are a bijection between the positions of the two lists. -/
theorem iff_exists_bijective :
    Paired R as bs ↔
      ∃ p : Fin as.length → Fin bs.length, p.Bijective ∧ ∀ i, R as[i] bs[p i] := by
  constructor
  · intro h
    -- Each element on the left gets the position of its partner.
    have hpositions : Paired (fun a i => R a bs[i]) as (List.finRange bs.length) :=
      h.trans (positions bs) fun a _ b i hab hbi => hbi ▸ hab
    rcases hpositions with ⟨is, hpairs, hperm⟩
    have hlength : as.length = is.length := hpairs.length_eq
    have hnodup : is.Nodup := hperm.nodup_iff.2 (List.nodup_finRange _)
    refine ⟨fun i => is[i], ⟨fun i j hij => ?_, fun k => ?_⟩, fun i => ?_⟩
    · exact Fin.ext (hnodup.getElem_inj_iff.1 hij)
    · rcases List.getElem_of_mem (hperm.mem_iff.2 (List.mem_finRange k)) with ⟨i, hi, hk⟩
      exact ⟨⟨i, hlength ▸ hi⟩, hk⟩
    · exact (List.forall₂_iff_get.1 hpairs).2 i i.2 (hlength ▸ i.2)
  · rintro ⟨p, hp, hpairs⟩
    refine ⟨List.ofFn fun i => bs[p i], ?_, ?_⟩
    · refine List.forall₂_iff_get.2 ⟨List.length_ofFn.symm, fun i h₁ h₂ => ?_⟩
      rw [List.get_ofFn]
      exact hpairs ⟨i, h₁⟩
    · have hperm : (List.ofFn p).Perm (List.finRange bs.length) := by
        refine (List.perm_ext_iff_of_nodup ?_ (List.nodup_finRange _)).2 fun k => ?_
        · exact List.nodup_ofFn.2 hp.1
        · rw [List.mem_ofFn]
          exact iff_of_true (hp.2 k) (List.mem_finRange k)
      have h := hperm.map fun i => bs[i]
      rw [List.map_ofFn] at h
      exact h.trans (.of_eq (List.map_getElem_finRange bs))

end Paired

/-! ### The greedy way finds pairs -/

/-- What the greedy way finds in lists of one length are pairs. -/
theorem paired_of_pairOff {same : α → β → Bool} {as : List α} {bs : List β}
    (hlength : as.length = bs.length) (h : pairOff same as bs) :
    Paired (fun a b => same a b) as bs := by
  rcases exists_perm_of_pairOff h with ⟨cs, rest, hperm, hpairs⟩
  -- Nothing is left over on the right.
  have hrest : rest = [] := by
    have hlengths := hperm.length_eq
    rw [List.length_append, ← hpairs.length_eq, hlength] at hlengths
    exact List.length_eq_zero_iff.1 (by omega)
  rw [hrest, List.append_nil] at hperm
  exact ⟨cs, hpairs, hperm.symm⟩

/-- Elements that share a partner share all partners. -/
def Exchangeable (same : α → β → Bool) (as : List α) (bs : List β) : Prop :=
  ∀ a ∈ as, ∀ a' ∈ as, ∀ b ∈ bs, ∀ b' ∈ bs, same a b → same a' b → same a' b' → same a b'

/-- Where `b` is taken from its partner, the partner may have `c` instead. -/
theorem exists_exchange {R : α → β → Prop} {as : List α} {cs : List β} {b c : β}
    (h : List.Forall₂ R as cs) (hb : b ∈ cs) (hc : ∀ a ∈ as, R a b → R a c) :
    ∃ ds, List.Forall₂ R as ds ∧ (c :: cs).Perm (b :: ds) := by
  induction h with
  | nil => exact absurd hb List.not_mem_nil
  | @cons a b' as cs hab hpairs ih =>
      rcases List.mem_cons.1 hb with rfl | hb
      · exact ⟨c :: cs, .cons (hc a List.mem_cons_self hab) hpairs, List.Perm.swap b c cs⟩
      · rcases ih hb fun a' ha' => hc a' (List.mem_cons_of_mem a ha') with ⟨ds, hds, hperm⟩
        refine ⟨b' :: ds, .cons hab hds, ?_⟩
        calc
          List.Perm (c :: b' :: cs) (b' :: c :: cs) := List.Perm.swap b' c cs
          List.Perm _ (b' :: b :: ds) := hperm.cons b'
          List.Perm _ (b :: b' :: ds) := List.Perm.swap b b' ds

/-- The greedy way finds pairs if there are any, by induction on the elements
    that are still to be paired. -/
theorem pairOff_of_paired {same : α → β → Bool} {as : List α} {bs : List β}
    (hex : Exchangeable same as bs) (h : Paired (fun a b => same a b) as bs) :
    pairOff same as bs := by
  induction as generalizing bs with
  | nil => rfl
  | cons a as ih =>
      rcases h with ⟨ds, hpairs, hperm⟩
      rcases List.forall₂_cons_left_iff.1 hpairs with ⟨c, cs, hac, hothers, rfl⟩
      have hcbs : c ∈ bs := hperm.mem_iff.1 List.mem_cons_self
      unfold pairOff
      split
      · next i hfound =>
          rcases List.findIdx?_eq_some_iff_getElem.1 hfound with ⟨hi, hab, _⟩
          have hrest : (c :: cs).Perm (bs[i] :: bs.eraseIdx i) :=
            hperm.trans (List.getElem_cons_eraseIdx_perm hi).symm
          refine ih (fun a₁ h₁ a₂ h₂ b₁ hb₁ b₂ hb₂ => ?_) ?_
          · exact hex a₁ (List.mem_cons_of_mem a h₁) a₂ (List.mem_cons_of_mem a h₂) b₁
              (List.mem_of_mem_eraseIdx hb₁) b₂ (List.mem_of_mem_eraseIdx hb₂)
          · rcases List.mem_cons.1 (hrest.mem_iff.2 List.mem_cons_self) with hbc | hmem
            · -- The partner that was found is the one in the pairing.
              rw [hbc] at hrest
              exact ⟨cs, hothers, hrest.cons_inv⟩
            · -- It belongs to a later element, which takes the partner of this one.
              have hback : ∀ a' ∈ as, same a' bs[i] → same a' c := by
                intro a' ha' hsame
                exact hex a' (List.mem_cons_of_mem a ha') a List.mem_cons_self bs[i]
                  (List.getElem_mem hi) c hcbs hsame hab hac
              rcases exists_exchange hothers hmem hback with ⟨ds, hds, hswap⟩
              exact ⟨ds, hds, (hswap.symm.trans hrest).cons_inv⟩
      · next hnone =>
          have hfree := List.findIdx?_eq_none_iff.1 hnone c hcbs
          rw [hac] at hfree
          cases hfree

/-- Where elements that share a partner share all of them, the greedy way
    succeeds on lists of one length exactly when there are pairs. -/
theorem pairOff_iff_paired {same : α → β → Bool} {as : List α} {bs : List β}
    (hex : Exchangeable same as bs) :
    as.length = bs.length ∧ pairOff same as bs ↔ Paired (fun a b => same a b) as bs := by
  constructor
  · rintro ⟨hlength, h⟩
    exact paired_of_pairOff hlength h
  · intro h
    exact ⟨h.length_eq, pairOff_of_paired hex h⟩

/-- Where elements share some partners and not others, the greedy way may take
    the only partner of a later element. -/
example : pairOff (fun a b : Nat => a ≤ b) [0, 1] [1, 0] = false := by decide

end SampleSchema
