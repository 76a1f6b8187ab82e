/-
# Reading a file that is being rewritten

A reader that holds a file open takes what it has not read yet from whatever the file contains at
that moment.  When the file is truncated and rewritten in place meanwhile, the reader ends up with a
text that nobody has written: the beginning of one and the end of another, or a mixture of many.
All that is left is that every character stands where some text that was written has it.  That is
enough to tell which texts took part, if each of them has a position at which it differs from all
the others.
-/
import Mathlib.Data.List.Basic

universe u

namespace TornReads

variable {α : Type u} {texts texts' : List (List α)} {content got : List α}

/-- Every character is, at its position, one of some text. -/
def Mixed (texts : List (List α)) (got : List α) : Prop :=
  ∀ (k : Nat) (a : α), got[k]? = some a → ∃ t ∈ texts, t[k]? = some a

theorem Mixed.nil : Mixed texts [] := by
  intro k a h
  cases h

theorem Mixed.mono (h : Mixed texts got) (hsub : texts ⊆ texts') : Mixed texts' got := by
  intro k a hk
  obtain ⟨t, ht, hta⟩ := h k a hk
  exact ⟨t, hsub ht, hta⟩

/-- A text that is only partly written is no mixture. -/
theorem Mixed.of_begun {t rest : List α} (ht : t ∈ texts) (h : content ++ rest = t) :
    Mixed texts content := by
  intro k a hk
  refine ⟨t, ht, ?_⟩
  rw [← h, List.getElem?_append_left (List.getElem?_eq_some_iff.mp hk).1]
  exact hk

/-- What the reader has after it has read on. -/
theorem Mixed.read (hgot : Mixed texts got) (hcontent : Mixed texts content) (n : Nat) :
    Mixed texts (got ++ (content.drop got.length).take n) := by
  intro k a hk
  obtain hlt | hle := Nat.lt_or_ge k got.length
  · rw [List.getElem?_append_left hlt] at hk
    exact hgot k a hk
  · rw [List.getElem?_append_right hle, List.getElem?_take] at hk
    split at hk
    · rw [List.getElem?_drop, Nat.add_sub_cancel' hle] at hk
      exact hcontent k a hk
    · cases hk

/-- Position `k` tells `t` from all other texts. -/
def Marks (k : Nat) (t : List α) (texts : List (List α)) : Prop :=
  k < t.length ∧ ∀ u ∈ texts, u[k]? = t[k]? → u = t

/-- A text whose mark has been read is one of those that were written. -/
theorem Mixed.mem {t : List α} {k : Nat} (h : Mixed texts got) (hmark : Marks k t texts)
    (hk : got[k]? = t[k]?) : t ∈ texts := by
  obtain ⟨hlt, hother⟩ := hmark
  rw [List.getElem?_eq_getElem hlt] at hk
  obtain ⟨u, hu, huk⟩ := h k _ hk
  rw [← List.getElem?_eq_getElem hlt] at huk
  rw [← hother u hu huk]
  exact hu

/-- What a mixture begins with, if every text begins with it. -/
theorem Mixed.head {head : List α} (h : Mixed texts got) (hhead : ∀ t ∈ texts, head <+: t) :
    got <+: head ∨ ∃ body, got = head ++ body := by
  have htake : got.take head.length = head.take got.length := by
    apply List.ext_getElem?
    intro k
    rw [List.getElem?_take, List.getElem?_take]
    by_cases hlt : k < head.length ∧ k < got.length
    · obtain ⟨hk, hk'⟩ := hlt
      rw [if_pos hk, if_pos hk', List.getElem?_eq_getElem hk']
      obtain ⟨t, ht, hta⟩ := h k _ (List.getElem?_eq_getElem hk')
      obtain ⟨rest, rfl⟩ := hhead t ht
      rw [List.getElem?_append_left hk] at hta
      exact hta.symm
    · rw [not_and_or] at hlt
      rcases hlt with hk | hk
      · rw [if_neg hk, List.getElem?_eq_none (Nat.le_of_not_lt hk), ite_self]
      · rw [List.getElem?_eq_none (Nat.le_of_not_lt hk), if_neg hk, ite_self]
  obtain hle | hle := Nat.le_total got.length head.length
  · left
    rw [List.take_of_length_le hle] at htake
    rw [htake]
    exact List.take_prefix ..
  · right
    rw [List.take_of_length_le hle] at htake
    refine ⟨got.drop head.length, ?_⟩
    nth_rewrite 1 [← List.take_append_drop head.length got]
    rw [htake]

end TornReads
