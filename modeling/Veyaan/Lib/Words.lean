import Mathlib.Data.List.DropRight
import Mathlib.Data.List.Infix

/-!
# Words in texts

A text made of words with a separator between them, and what is looked for in
a text or taken out of it: a key, every occurrence of a key, the marks at both
ends. A text is a list over any alphabet.
-/

namespace Words

variable {α : Type} [DecidableEq α] {x : α} {key : List α}

omit [DecidableEq α] in
/-- A key without the separator stands in a text of words just when it stands in a word. -/
theorem infix_intercalate_iff (hx : x ∉ key) (hk : key ≠ []) : ∀ words : List (List α),
    key <:+: [x].intercalate words ↔ ∃ word ∈ words, key <:+: word
  | [] => by simp [hk]
  | [word] => by simp
  | word :: word' :: words => by
    have ih := infix_intercalate_iff hx hk (word' :: words)
    rw [List.intercalate_cons_cons, List.append_assoc, List.infix_append_iff,
      List.singleton_append, List.infix_cons_iff, ih]
    -- a part of the key that begins with the separator is empty
    have hpre : ∀ l, l <+: x :: [x].intercalate (word' :: words) → l <:+ key → l = [] := by
      intro l hl hs
      cases l with
      | nil => rfl
      | cons a l =>
        have ha : a = x := (List.cons_prefix_cons.mp hl).1
        subst ha
        exact absurd (hs.subset (by simp)) hx
    constructor
    · rintro (h | (h | ⟨w, hw, h⟩) | ⟨l₁, l₂, rfl, h₁, h₂⟩)
      · exact ⟨word, by simp, h⟩
      · exact absurd (hpre _ h (List.suffix_refl _)) hk
      · exact ⟨w, by simp [List.mem_cons.mp hw], h⟩
      · have hnil : l₂ = [] := hpre _ h₂ (List.suffix_append ..)
        subst hnil
        exact ⟨word, by simp, by simpa using h₁.isInfix⟩
    · rintro ⟨w, hw, h⟩
      rcases List.mem_cons.mp hw with rfl | hw
      · exact .inl h
      · exact .inr (.inl (.inr ⟨w, hw, h⟩))

/-- The text without the occurrences of the nonempty key `k :: key`, from the left;
`skip` more characters of the present one are still to go. -/
def without (k : α) (key : List α) : Nat → List α → List α
  | _, [] => []
  | skip + 1, _ :: l => without k key skip l
  | 0, a :: l => if k :: key <+: a :: l then without k key key.length l else a :: without k key 0 l

theorem without_of_not_infix {k : α} : ∀ {l : List α}, ¬ k :: key <:+: l → without k key 0 l = l
  | [], _ => rfl
  | a :: l, h => by
    rw [List.infix_cons_iff, not_or] at h
    rw [without, if_neg h.1, without_of_not_infix h.2]

def strip (mark : α → Bool) (l : List α) : List α := (l.dropWhile mark).rdropWhile mark

omit [DecidableEq α] in
theorem strip_of_forall {mark : α → Bool} {l : List α} (h : ∀ a ∈ l, mark a = false) : strip mark l = l := by
  have hl : l.dropWhile mark = l := by
    rw [List.dropWhile_eq_self_iff]
    intro hl
    simp [h _ (List.getElem_mem hl)]
  have hr : l.rdropWhile mark = l := by
    rw [List.rdropWhile_eq_self_iff]
    intro hl
    simp [h _ (List.getLast_mem hl)]
  unfold strip
  rw [hl, hr]

end Words
