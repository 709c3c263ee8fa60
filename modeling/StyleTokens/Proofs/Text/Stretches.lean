import Mathlib.Data.List.SplitBy
import StyleTokens.Text.Alphanumeric

/-!
# The stretches of a text

A text is a sequence of runs of name characters, with separators between them. Runs and separators
are as long as they can be, so neighbours are of different kinds, and this alone makes a sequence of
parts the stretches of the text they make up. What is put in place of single stretches keeps the
others apart, as long as it is of the same kind.

## Main definitions

* `IsCut`: parts that are of one kind each and differ from their neighbours
* `Text.stretches`: the runs of name characters and the separators of a text

## Main results

* `splitBy_eq_iff_isCut`: a list is cut in one way only
* `IsCut.map`: other parts of the same kinds
* `IsCut.suffix_last`: the last part
-/

namespace StyleTokens

/-- Parts that are not empty, are inside or outside of a class as a whole, and differ from their
neighbours. -/
structure IsCut {α : Type} (p : α → Bool) (parts : List (List α)) : Prop where
  part : ∀ s ∈ parts, s ≠ [] ∧ ∃ k, ∀ a ∈ s, p a = k
  apart : parts.IsChain fun s s' => ∀ a ∈ s, ∀ b ∈ s', p a ≠ p b

section

variable {α β ι : Type} {p : α → Bool} {q : β → Bool} {parts : List (List α)} {s xs ys : List α}

/-- In a chain of neighbours of one kind, all are of one kind. -/
theorem exists_kind_of_isChain (h : s.IsChain fun a b => p a == p b) : ∃ k, ∀ a ∈ s, p a = k := by
  cases s with
  | nil => exact ⟨true, nofun⟩
  | cons a s =>
    refine ⟨p a, fun b hb => ?_⟩
    have chain : (a :: s).IsChain fun a b => p a = p b := h.imp fun _ _ same => beq_iff_eq.mp same
    have trans : Trans (fun a b => p a = p b) (fun a b => p a = p b) fun a b => p a = p b :=
      ⟨Eq.trans⟩
    rcases List.mem_cons.mp hb with rfl | hb
    · rfl
    · exact (List.rel_of_pairwise_cons chain.pairwise hb).symm

/-- **A list is cut in one way only.** -/
theorem splitBy_eq_iff_isCut :
    xs.splitBy (fun a b => p a == p b) = parts ↔ xs = parts.flatten ∧ IsCut p parts := by
  rw [List.splitBy_eq_iff]
  constructor
  · rintro ⟨whole, nonempty, chains, ends⟩
    have kinds := fun s hs => exists_kind_of_isChain (chains s hs)
    refine ⟨whole, fun s hs => ⟨fun empty => nonempty (empty ▸ hs), kinds s hs⟩, ?_⟩
    refine ends.imp_of_mem_imp ?_
    rintro s s' hs hs' ⟨ne, ne', differ⟩ a ha b hb
    obtain ⟨k, hk⟩ := kinds s hs
    obtain ⟨k', hk'⟩ := kinds s' hs'
    rw [hk _ (List.getLast_mem ne), hk' _ (List.head_mem ne'), beq_eq_false_iff_ne] at differ
    rwa [hk a ha, hk' b hb]
  · rintro ⟨whole, cut⟩
    refine ⟨whole, fun empty => (cut.part [] empty).1 rfl, fun s hs => ?_, ?_⟩
    · obtain ⟨k, hk⟩ := (cut.part s hs).2
      refine List.Pairwise.isChain (List.pairwise_of_forall_mem_list fun a ha b hb => ?_)
      rw [hk a ha, hk b hb, beq_self_eq_true]
    · refine cut.apart.imp_of_mem_imp fun s s' hs hs' differ => ?_
      have ne := (cut.part s hs).1
      have ne' := (cut.part s' hs').1
      exact ⟨ne, ne', beq_eq_false_iff_ne.mpr
        (differ _ (List.getLast_mem ne) _ (List.head_mem ne'))⟩

theorem IsCut.right {before : List (List α)} (h : IsCut p (before ++ parts)) : IsCut p parts where
  part := fun s hs => h.part s (List.mem_append_right before hs)
  apart := h.apart.right_of_append

theorem IsCut.left {rest : List (List α)} (h : IsCut p (parts ++ rest)) : IsCut p parts where
  part := fun s hs => h.part s (List.mem_append_left rest hs)
  apart := h.apart.left_of_append

theorem IsCut.tail (h : IsCut p (s :: parts)) : IsCut p parts where
  part := fun s' hs' => h.part s' (List.mem_cons_of_mem s hs')
  apart := h.apart.tail

/-- **Other parts of the same kinds** are cut in the same places. -/
theorem IsCut.map {places : List ι} {f : ι → List α} {g : ι → List β} (h : IsCut p (places.map f))
    (same : ∀ i ∈ places, g i ≠ [] ∧ ∀ b ∈ g i, ∃ a ∈ f i, q b = p a) :
    IsCut q (places.map g) where
  part := by
    intro s hs
    obtain ⟨i, hi, rfl⟩ := List.mem_map.mp hs
    obtain ⟨k, hk⟩ := (h.part (f i) (List.mem_map_of_mem hi)).2
    refine ⟨(same i hi).1, k, fun b hb => ?_⟩
    obtain ⟨a, ha, eq⟩ := (same i hi).2 b hb
    rw [eq, hk a ha]
  apart := by
    refine (List.isChain_map g).mpr (((List.isChain_map f).mp h.apart).imp_of_mem_imp ?_)
    intro i j hi hj differ b hb b' hb'
    obtain ⟨a, ha, eq⟩ := (same i hi).2 b hb
    obtain ⟨a', ha', eq'⟩ := (same j hj).2 b' hb'
    rw [eq, eq']
    exact differ a ha a' ha'

/-- Behind a part, nothing of its kind follows. -/
theorem IsCut.ne_head (h : IsCut p (s :: parts)) {a b : α} (ha : a ∈ s)
    (hb : b ∈ parts.flatten.head?) : p a ≠ p b := by
  cases parts with
  | nil => cases hb
  | cons s' parts =>
    obtain ⟨c, s', rfl⟩ := List.exists_cons_of_ne_nil
      (h.part s' (List.mem_cons_of_mem s List.mem_cons_self)).1
    obtain rfl : c = b := by simpa using hb
    exact (List.isChain_cons_cons.mp h.apart).1 a ha c List.mem_cons_self

/-- In front of a part, nothing of its kind stands. -/
theorem IsCut.ne_getLast {rest : List (List α)} (h : IsCut p (parts ++ s :: rest)) {a b : α}
    (ha : a ∈ s) (hb : b ∈ parts.flatten.getLast?) : p b ≠ p a := by
  rcases List.eq_nil_or_concat' parts with rfl | ⟨parts, s', rfl⟩
  · cases hb
  · have ne : s' ≠ [] := (h.part s' (by simp)).1
    rw [List.flatten_append, List.flatten_singleton, List.getLast?_append_of_ne_nil _ ne] at hb
    rw [List.append_assoc, List.singleton_append] at h
    exact (List.isChain_append_cons_cons.mp h.apart).2.1 b (List.mem_of_getLast? hb) a ha

/-- **The last part** has all that stands at the end and is of one kind. -/
theorem IsCut.suffix_last (h : IsCut p (parts ++ [s])) (eq : parts.flatten ++ s = xs ++ ys)
    (ne : s ≠ []) {k : Bool} (hy : ∀ a ∈ ys, p a = k) : ys <:+ s := by
  rcases List.append_eq_append_iff.mp eq with ⟨more, rfl, rfl⟩ | ⟨more, eq', rfl⟩
  · exact List.suffix_append more ys
  · rcases List.eq_nil_or_concat' more with rfl | ⟨more, b, rfl⟩
    · exact List.suffix_refl s
    · -- what stands in front of the part would be of its kind
      obtain ⟨a, ha⟩ := List.exists_mem_of_ne_nil s ne
      refine absurd ?_ (h.ne_getLast ha (b := b) (by simp [eq']))
      rw [hy a (List.mem_append_right _ ha), hy b (by simp)]

end

/-- The runs of name characters of a text, and the separators between them, in turn. -/
def Text.stretches (t : Text) : List Text :=
  t.splitBy fun c d => isNameChar c == isNameChar d

/-- The stretches of a text are what it is cut into. -/
theorem Text.stretches_eq_iff {t : Text} {parts : List Text} :
    t.stretches = parts ↔ t = parts.flatten ∧ IsCut isNameChar parts :=
  splitBy_eq_iff_isCut

theorem Text.isCut_stretches (t : Text) : IsCut isNameChar t.stretches :=
  (stretches_eq_iff.mp rfl).2

end StyleTokens
