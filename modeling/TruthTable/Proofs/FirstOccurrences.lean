import Mathlib.Data.List.Forall2
import Mathlib.Data.List.Induction
import Mathlib.Data.List.Sort

/-!
# First occurrences

Some things are done once for each distinct member of a list, in the order in which the members
first occur, and only for members of a certain kind. `FirstOccurrences` says which members these are
and in which order they come, without an algorithm that drops repetitions; `OnceEach` is the list of
what is done for them.

A list has its first occurrences in one order only (`FirstOccurrences.unique`). One more member at
the end adds itself if it is new and of the right kind, and nothing otherwise
(`FirstOccurrences.concat_of_new`, `FirstOccurrences.concat_of_old`). From these two steps follows
that dropping repetitions from the left finds the first occurrences (`firstOccurrences_eraseDups`).
-/

namespace TruthTable

variable {α β : Type}

/-! ### Partial functions along a list -/

/-- What a partial function gives for each member of a list on which it is defined. -/
theorem forall₂_filter_iff {R : α → β → Prop} {f : α → Option β}
    (hf : ∀ a b, f a = some b ↔ R a b) (as : List α) (bs : List β) :
    List.Forall₂ R (as.filter fun a ↦ (f a).isSome) bs ↔ bs = as.filterMap f := by
  induction as generalizing bs with
  | nil => simp
  | cons a as ih =>
    rcases h : f a with - | b
    · rw [List.filter_cons_of_neg (by simp [h]), List.filterMap_cons_none h]
      exact ih bs
    · rw [List.filter_cons_of_pos (by simp [h]), List.filterMap_cons_some h,
        List.forall₂_cons_left_iff]
      constructor
      · rintro ⟨c, cs, hc, hcs, rfl⟩
        rw [(ih cs).1 hcs, Option.some.inj (h.symm.trans ((hf a c).2 hc))]
      · rintro rfl
        exact ⟨b, _, (hf a b).1 h, (ih _).2 rfl, rfl⟩

variable [BEq α]

/-! ### The members of a kind -/

/-- `distinct` lists the members of `as` with the property `p`, each once, in the order of their
first occurrences. -/
structure FirstOccurrences (p : α → Prop) (as distinct : List α) : Prop where
  /-- These members are listed and no others. -/
  mem_iff : ∀ a, a ∈ distinct ↔ a ∈ as ∧ p a
  /-- What is listed earlier occurs earlier for the first time; so nothing is listed twice. -/
  order : distinct.Pairwise fun a b ↦ as.idxOf a < as.idxOf b

namespace FirstOccurrences

variable {p : α → Prop} {as distinct : List α} {a : α}

theorem nil (p : α → Prop) : FirstOccurrences p [] [] where
  mem_iff := by simp
  order := .nil

/-- The first occurrences are determined by the list. -/
theorem unique {others : List α} (h : FirstOccurrences p as distinct)
    (h' : FirstOccurrences p as others) : distinct = others := by
  have hirrefl : Std.Irrefl fun a b ↦ as.idxOf a < as.idxOf b := ⟨fun _ ↦ Nat.lt_irrefl _⟩
  have hantisymm : Std.Antisymm fun a b ↦ as.idxOf a < as.idxOf b :=
    ⟨fun _ _ hab hba ↦ absurd hab (Nat.lt_asymm hba)⟩
  exact h.order.eq_of_mem_iff h'.order fun a ↦ (h.mem_iff a).trans (h'.mem_iff a).symm

variable [LawfulBEq α]

/-- Members occur first where they did before. -/
theorem order_concat (h : FirstOccurrences p as distinct) (a : α) :
    distinct.Pairwise fun b c ↦ (as ++ [a]).idxOf b < (as ++ [a]).idxOf c := by
  refine h.order.imp_of_mem fun hb hc hlt ↦ ?_
  rwa [List.idxOf_append_of_mem ((h.mem_iff _).1 hb).1,
    List.idxOf_append_of_mem ((h.mem_iff _).1 hc).1]

/-- A new member of the kind comes last. -/
theorem concat_of_new (h : FirstOccurrences p as distinct) (ha : p a) (hnew : a ∉ as) :
    FirstOccurrences p (as ++ [a]) (distinct ++ [a]) where
  mem_iff b := by
    rw [List.mem_append, h.mem_iff, List.mem_append, List.mem_singleton, or_and_right]
    exact or_congr_right ⟨fun hb ↦ ⟨hb, hb ▸ ha⟩, And.left⟩
  order := by
    refine List.pairwise_append.2 ⟨h.order_concat a, List.pairwise_singleton _ a, ?_⟩
    intro b hb c hc
    have hmem : b ∈ as := ((h.mem_iff b).1 hb).1
    obtain rfl := List.mem_singleton.1 hc
    rw [List.idxOf_append_of_mem hmem, List.idxOf_append_of_notMem hnew]
    exact Nat.lt_add_right _ (List.idxOf_lt_length_of_mem hmem)

/-- A repetition, or a member of another kind, adds nothing. -/
theorem concat_of_old (h : FirstOccurrences p as distinct) (ha : a ∈ as ∨ ¬ p a) :
    FirstOccurrences p (as ++ [a]) distinct where
  mem_iff b := by
    rw [h.mem_iff, List.mem_append, List.mem_singleton]
    refine ⟨fun ⟨hb, hp⟩ ↦ ⟨.inl hb, hp⟩, ?_⟩
    rintro ⟨hb | rfl, hp⟩
    · exact ⟨hb, hp⟩
    · exact ⟨ha.resolve_right (not_not_intro hp), hp⟩
  order := h.order_concat a

end FirstOccurrences

/-! ### Dropping repetitions -/

variable [LawfulBEq α]

theorem eraseDups_concat_of_mem {as : List α} {a : α} (h : a ∈ as) :
    (as ++ [a]).eraseDups = as.eraseDups := by
  simp [List.eraseDups_append, List.removeAll, h]

theorem eraseDups_concat_of_not_mem {as : List α} {a : α} (h : a ∉ as) :
    (as ++ [a]).eraseDups = as.eraseDups ++ [a] := by
  simp [List.eraseDups_append, List.removeAll, h, List.eraseDups_cons]

/-- Dropping repetitions keeps the first occurrences. -/
theorem firstOccurrences_eraseDups (p : α → Bool) (as : List α) :
    FirstOccurrences (p · = true) as (as.eraseDups.filter p) := by
  induction as using List.reverseRecOn with
  | nil => exact .nil _
  | append_singleton as a ih =>
    by_cases hmem : a ∈ as
    · rw [eraseDups_concat_of_mem hmem]
      exact ih.concat_of_old (.inl hmem)
    · rw [eraseDups_concat_of_not_mem hmem, List.filter_append]
      by_cases ha : p a = true
      · rw [List.filter_cons_of_pos ha]
        exact ih.concat_of_new ha hmem
      · rw [List.filter_cons_of_neg ha, List.filter_nil, List.append_nil]
        exact ih.concat_of_old (.inr ha)

/-! ### One thing for each member -/

/-- `bs` lists what `R` relates the distinct members of `as` to, one thing for each of them, in the
order of the first occurrences. Members that are related to nothing are left out. -/
def OnceEach (R : α → β → Prop) (as : List α) (bs : List β) : Prop :=
  ∃ distinct, FirstOccurrences (fun a ↦ ∃ b, R a b) as distinct ∧ List.Forall₂ R distinct bs

/-- If at most one thing is done for each member, it is listed by going through the distinct
members. -/
theorem onceEach_iff {R : α → β → Prop} {f : α → Option β} (hf : ∀ a b, f a = some b ↔ R a b)
    {as : List α} {bs : List β} : OnceEach R as bs ↔ bs = as.eraseDups.filterMap f := by
  have hkind : (fun a ↦ ∃ b, R a b) = fun a ↦ (f a).isSome = true := by
    funext a
    simp only [← hf, Option.isSome_iff_exists]
  have hfirst := firstOccurrences_eraseDups (fun a ↦ (f a).isSome) as
  rw [OnceEach, hkind, ← forall₂_filter_iff hf]
  constructor
  · rintro ⟨distinct, hdistinct, hbs⟩
    rwa [← hdistinct.unique hfirst]
  · exact fun hbs ↦ ⟨_, hfirst, hbs⟩

end TruthTable
