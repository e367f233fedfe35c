import Mathlib.Data.List.Flatten
import Mathlib.Data.List.Sort

/-!
# Pages of an ordered query

A query that orders its rows by a key may answer rows with equal keys in any order,
and in another order the next time. A page is cut out of such an answer. What the
pages hold together does not depend on the answers exactly if no page ends inside a
group of rows that tie.
-/

namespace Pages

variable {ρ τ : Type} [LinearOrder τ] {key : ρ → τ} {rows a b : List ρ} {r : ρ}

/-- The answers to `ORDER BY key`: rows that tie come in any order. -/
def Answers (key : ρ → τ) (rows answer : List ρ) : Prop :=
  answer.Perm rows ∧ answer.Pairwise fun x y => key x ≤ key y

theorem exists_answers (key : ρ → τ) (rows : List ρ) : ∃ a, Answers key rows a :=
  ⟨rows.insertionSort fun x y => key x ≤ key y, List.perm_insertionSort .., List.pairwise_insertionSort ..⟩

def before (key : ρ → τ) (rows : List ρ) (r : ρ) : Nat := rows.countP fun x => key x < key r

def upTo (key : ρ → τ) (rows : List ρ) (r : ρ) : Nat := rows.countP fun x => key x ≤ key r

def Splits (key : ρ → τ) (rows : List ρ) (k : Nat) : Prop :=
  ∃ r ∈ rows, before key rows r < k ∧ k < upTo key rows r

instance (key : ρ → τ) (rows : List ρ) (k : Nat) : Decidable (Splits key rows k) :=
  inferInstanceAs (Decidable (∃ r ∈ rows, before key rows r < k ∧ k < upTo key rows r))

theorem upTo_le : upTo key rows r ≤ rows.length := List.countP_le_length

theorem before_lt_upTo (h : r ∈ rows) : before key rows r < upTo key rows r := by
  obtain ⟨l, l', rfl⟩ := List.mem_iff_append.mp h
  have hl : l.countP (fun x => key x < key r) ≤ l.countP fun x => key x ≤ key r :=
    List.countP_mono_left fun x _ hx => by simpa using le_of_lt (of_decide_eq_true hx)
  have hl' : l'.countP (fun x => key x < key r) ≤ l'.countP fun x => key x ≤ key r :=
    List.countP_mono_left fun x _ hx => by simpa using le_of_lt (of_decide_eq_true hx)
  simp only [before, upTo, List.countP_append, List.countP_cons, lt_self_iff_false,
    le_refl, decide_true, decide_false, Bool.false_eq_true, if_true, if_false]
  omega

theorem not_splits_zero : ¬ Splits key rows 0 := by
  rintro ⟨r, -, hr, -⟩
  omega

theorem Splits.lt {k : Nat} (h : Splits key rows k) : k < rows.length := by
  obtain ⟨r, -, -, hr⟩ := h
  exact lt_of_lt_of_le hr upTo_le

theorem Answers.place {l l' : List ρ} (h : Answers key rows (l ++ r :: l')) :
    before key rows r ≤ l.length ∧ l.length < upTo key rows r := by
  obtain ⟨hperm, hsorted⟩ := h
  obtain ⟨-, htail, hcross⟩ := List.pairwise_append.mp hsorted
  constructor
  · have hzero : (r :: l').countP (fun x => key x < key r) = 0 := by
      refine List.countP_eq_zero.mpr fun x hx => ?_
      rcases List.mem_cons.mp hx with rfl | hx
      · simp
      · simpa using (List.pairwise_cons.mp htail).1 x hx
    rw [before, ← hperm.countP_eq, List.countP_append, hzero]
    exact List.countP_le_length
  · have hall : l.countP (fun x => key x ≤ key r) = l.length :=
      List.countP_eq_length.mpr fun x hx => by simpa using hcross x hx r (List.mem_cons_self ..)
    rw [upTo, ← hperm.countP_eq, List.countP_append, hall, List.countP_cons]
    simp

theorem perm_groups (key : ρ → τ) (rows : List ρ) (r : ρ) : rows.Perm ((rows.filter fun x => key x < key r) ++
    ((rows.filter fun x => key x = key r) ++ rows.filter fun x => key r < key x)) := by
  have hsplit := (List.filter_append_perm (fun x => decide (key x < key r)) rows).symm
  have hrest :=
    (List.filter_append_perm (fun x => decide (key x = key r)) (rows.filter fun x => !decide (key x < key r))).symm
  refine hsplit.trans (List.Perm.append_left _ (hrest.trans ?_))
  rw [List.filter_filter, List.filter_filter]
  refine List.Perm.of_eq (congrArg₂ _ (List.filter_congr fun x _ => ?_) (List.filter_congr fun x _ => ?_))
  · by_cases hx : key x = key r
    · simp [hx]
    · simp [hx]
  · rcases lt_trichotomy (key x) (key r) with hx | hx | hx
    · simp [hx, not_lt.mpr hx.le]
    · simp [hx]
    · simp [hx, hx.ne', not_lt.mpr hx.le]

theorem upTo_eq : upTo key rows r = before key rows r + (rows.filter fun x => key x = key r).length := by
  have hcount : rows.countP (fun x => key x ≤ key r) = _ := (perm_groups key rows r).countP_eq _
  have hlow : (rows.filter fun x => key x < key r).countP (fun x => key x ≤ key r) = before key rows r := by
    rw [List.countP_filter, before]
    exact List.countP_congr fun x _ => by simpa using le_of_lt
  have htie : (rows.filter fun x => key x = key r).countP (fun x => key x ≤ key r) =
      (rows.filter fun x => key x = key r).length := by
    rw [List.countP_filter, ← List.countP_eq_length_filter]
    exact List.countP_congr fun x _ => by simpa using le_of_eq
  have hhigh : (rows.filter fun x => key r < key x).countP (fun x => key x ≤ key r) = 0 := by
    rw [List.countP_filter, List.countP_eq_zero]
    intro x _ hx
    simp only [Bool.and_eq_true, decide_eq_true_eq] at hx
    exact absurd hx.2 (not_lt.mpr hx.1)
  rw [upTo, hcount, List.countP_append, List.countP_append, hlow, htie, hhigh]
  omega

theorem before_lt_of_tie {x y : ρ} (hx : x ∈ rows) (hy : y ∈ rows) (hne : x ≠ y) (hk : key y = key x) :
    before key rows x + 1 < upTo key rows x := by
  rw [upTo_eq]
  have hx' : x ∈ rows.filter fun z => key z = key x := List.mem_filter.mpr ⟨hx, by simp⟩
  have hy' : y ∈ rows.filter fun z => key z = key x := List.mem_filter.mpr ⟨hy, by simpa using hk⟩
  match hg : rows.filter fun z => key z = key x with
  | [] => rw [hg] at hx'; cases hx'
  | [z] =>
    rw [hg, List.mem_singleton] at hx' hy'
    exact absurd (hx'.trans hy'.symm) hne
  | z :: w :: l => simp

/-- Around the rows that tie with a row, which may come in any order, an answer can stay
as it is. -/
theorem exists_around (key : ρ → τ) (rows : List ρ) (r : ρ) : ∃ l l', l.length = before key rows r ∧
    ∀ u, u.Perm (rows.filter fun x => key x = key r) → Answers key rows (l ++ (u ++ l')) := by
  obtain ⟨l, hlp, hls⟩ := exists_answers key (rows.filter fun x => key x < key r)
  obtain ⟨l', hlp', hls'⟩ := exists_answers key (rows.filter fun x => key r < key x)
  have hl : ∀ x ∈ l, key x < key r := fun x hx => by simpa using (List.mem_filter.mp (hlp.mem_iff.mp hx)).2
  have hl' : ∀ x ∈ l', key r < key x := fun x hx => by simpa using (List.mem_filter.mp (hlp'.mem_iff.mp hx)).2
  refine ⟨l, l', by rw [hlp.length_eq, before, List.countP_eq_length_filter], fun u hu => ⟨?_, ?_⟩⟩
  · exact (hlp.append (hu.append hlp')).trans (perm_groups key rows r).symm
  · have hmid : ∀ x ∈ u, key x = key r := fun x hx => by simpa using (List.mem_filter.mp (hu.mem_iff.mp hx)).2
    refine List.pairwise_append.mpr ⟨hls, List.pairwise_append.mpr ⟨?_, hls', fun x hx y hy => ?_⟩,
      fun x hx y hy => ?_⟩
    · exact List.Pairwise.imp_of_mem (fun {x y} hx hy _ => ((hmid x hx).trans (hmid y hy).symm).le)
        (List.pairwise_of_forall (R := fun _ _ => True) fun _ _ => trivial)
    · exact (hmid x hx).trans_le (hl' y hy).le
    · rcases List.mem_append.mp hy with hy | hy
      · exact (hl x hx).le.trans (hmid y hy).ge
      · exact ((hl x hx).trans (hl' y hy)).le

theorem exists_answer_at {k : Nat} (hr : r ∈ rows) (hk : before key rows r ≤ k) (hk' : k < upTo key rows r) :
    ∃ a, Answers key rows a ∧ a[k]? = some r := by
  classical
  obtain ⟨l, l', hlen, hanswers⟩ := exists_around key rows r
  obtain ⟨t, hgroup⟩ : ∃ t, (r :: t).Perm (rows.filter fun x => key x = key r) :=
    ⟨_, (List.perm_cons_erase (List.mem_filter.mpr ⟨hr, by simp⟩)).symm⟩
  obtain ⟨j, rfl⟩ := Nat.exists_eq_add_of_le hk
  have hroom : j ≤ t.length := by
    rw [upTo_eq, ← hgroup.length_eq, List.length_cons] at hk'
    omega
  have hpos : (t.take j).length = j := by rw [List.length_take]; omega
  refine ⟨l ++ ((t.take j ++ r :: t.drop j) ++ l'), hanswers _ ?_, ?_⟩
  · refine List.perm_middle.trans ?_
    rw [List.take_append_drop]
    exact hgroup
  · rw [List.getElem?_append_right (by omega), List.append_assoc, List.getElem?_append_right (by omega), hlen, hpos]
    simp

/-! ## Pages -/

/-- `OFFSET (p - 1) * size LIMIT size`. -/
def page (a : List ρ) (size p : Nat) : List ρ := (a.drop ((p - 1) * size)).take size

def pages (ans : Nat → List ρ) (size n : Nat) : List ρ :=
  (List.range n).flatMap fun i => page (ans (i + 1)) size (i + 1)

section
variable {k m size : Nat}

/-- Where no group is split, the rows are parted in the same way by every answer. -/
theorem Answers.parted (h : Answers key rows a) (hk : ¬ Splits key rows k) :
    (∀ x ∈ a.take k, before key rows x < k) ∧ ∀ x ∈ a.drop k, ¬ before key rows x < k := by
  constructor
  · intro x hx
    obtain ⟨l, l', hl⟩ := List.mem_iff_append.mp hx
    have hlen : l.length < k := by
      have := congrArg List.length hl
      simp only [List.length_take, List.length_append, List.length_cons] at this
      omega
    have ha : a = l ++ x :: (l' ++ a.drop k) := by
      calc a = a.take k ++ a.drop k := (List.take_append_drop k a).symm
        _ = l ++ x :: (l' ++ a.drop k) := by rw [hl]; simp
    exact lt_of_le_of_lt (ha ▸ h).place.1 hlen
  · intro x hx hlt
    obtain ⟨l, l', hl⟩ := List.mem_iff_append.mp hx
    have ha : a = (a.take k ++ l) ++ x :: l' := by
      calc a = a.take k ++ a.drop k := (List.take_append_drop k a).symm
        _ = (a.take k ++ l) ++ x :: l' := by rw [hl]; simp
    have hpos : k ≤ (a.take k ++ l).length := by
      have := congrArg List.length hl
      simp only [List.length_drop, List.length_append, List.length_cons, List.length_take] at this ⊢
      omega
    have hmem : x ∈ rows := h.1.mem_iff.mp (List.mem_of_mem_drop hx)
    exact hk ⟨x, hmem, hlt, lt_of_le_of_lt hpos (ha ▸ h).place.2⟩

theorem Answers.take (h : Answers key rows a) (hk : ¬ Splits key rows k) :
    a.take k = a.filter fun x => before key rows x < k := by
  obtain ⟨htake, hdrop⟩ := h.parted hk
  conv_rhs => rw [← List.take_append_drop k a]
  rw [List.filter_append, List.filter_eq_self.mpr fun x hx => by simpa using htake x hx,
    List.filter_eq_nil_iff.mpr fun x hx => by simpa using hdrop x hx, List.append_nil]

theorem mem_page {n : Nat} {x : ρ} (hn : n * size ≤ k) (hk : k < n * size + size) (ha : a[k]? = some x) :
    x ∈ page a size (n + 1) := by
  refine List.mem_iff_getElem?.mpr ⟨k - n * size, ?_⟩
  rw [page, Nat.add_sub_cancel, List.getElem?_take_of_lt (by omega), List.getElem?_drop, Nat.add_sub_cancel' hn]
  exact ha

/-- What a page holds, when no group is split at its ends. -/
theorem Answers.page (h : Answers key rows a) {n : Nat} (hn : ¬ Splits key rows (n * size))
    (hn' : ¬ Splits key rows ((n + 1) * size)) : Pages.page a size (n + 1) =
      a.filter fun x => !decide (before key rows x < n * size) && decide (before key rows x < (n + 1) * size) := by
  have hpage : Pages.page a size (n + 1) = (a.take ((n + 1) * size)).drop (n * size) := by
    rw [List.drop_take, Pages.page, Nat.add_sub_cancel, Nat.succ_mul, Nat.add_sub_cancel_left]
  have hle : n * size ≤ (n + 1) * size := Nat.mul_le_mul_right _ (Nat.le_succ n)
  have htake : (a.take ((n + 1) * size)).take (n * size) = a.take (n * size) := by
    rw [List.take_take, Nat.min_eq_left hle]
  obtain ⟨hbefore, hafter⟩ := h.parted hn
  have hdrop : ∀ x ∈ (a.take ((n + 1) * size)).drop (n * size), ¬ before key rows x < n * size := fun x hx => by
    rw [List.drop_take] at hx
    exact hafter x (List.mem_of_mem_take hx)
  have hfilter : (a.take ((n + 1) * size)).filter (fun x => !decide (before key rows x < n * size)) =
      (a.take ((n + 1) * size)).drop (n * size) := by
    conv_lhs => rw [← List.take_append_drop (n * size) (a.take ((n + 1) * size)), List.filter_append, htake]
    rw [List.filter_eq_nil_iff.mpr fun x hx => by simpa using hbefore x hx, List.nil_append,
      List.filter_eq_self.mpr fun x hx => by simpa using hdrop x hx]
  rw [hpage, ← hfilter, h.take hn', List.filter_filter]

variable {ans : Nat → List ρ} (hans : ∀ p, Answers key rows (ans p))
include hans

theorem pages_perm (hno : ∀ p, ¬ Splits key rows (p * size)) (n : Nat) :
    (pages ans size n).Perm (rows.filter fun x => before key rows x < n * size) := by
  induction n with
  | zero => simp [pages]
  | succ n ih =>
    have hpage : (Pages.page (ans (n + 1)) size (n + 1)).Perm (rows.filter fun x =>
        !decide (before key rows x < n * size) && decide (before key rows x < (n + 1) * size)) := by
      rw [(hans (n + 1)).page (hno n) (hno (n + 1))]
      exact (hans (n + 1)).1.filter _
    have hle : n * size ≤ (n + 1) * size := Nat.mul_le_mul_right _ (Nat.le_succ n)
    have hsplit := List.filter_append_perm (fun x => decide (before key rows x < n * size))
      (rows.filter fun x => before key rows x < (n + 1) * size)
    rw [List.filter_filter, List.filter_filter] at hsplit
    have hfirst : (rows.filter fun x => decide (before key rows x < n * size) &&
      decide (before key rows x < (n + 1) * size)) =
        rows.filter fun x => before key rows x < n * size := by
      refine List.filter_congr fun x _ => ?_
      by_cases hx : before key rows x < n * size
      · simp [hx, Nat.lt_of_lt_of_le hx hle]
      · simp [hx]
    rw [hfirst] at hsplit
    rw [pages, List.range_succ, List.flatMap_append, List.flatMap_singleton]
    exact (ih.append hpage).trans hsplit

/-- Enough pages that split no group hold every row once. -/
theorem pages_all (hno : ∀ p, ¬ Splits key rows (p * size)) {n : Nat} (hn : rows.length ≤ n * size) :
    (pages ans size n).Perm rows := by
  have hall : (rows.filter fun x => before key rows x < n * size) = rows := by
    refine List.filter_eq_self.mpr fun x hx => ?_
    have hlt : before key rows x < upTo key rows x := before_lt_upTo hx
    have hle : upTo key rows x ≤ rows.length := upTo_le
    simp only [decide_eq_true_eq]
    omega
  have := pages_perm hans hno n
  rwa [hall] at this

omit hans in
/-- At a page that splits a group, some answers show a row twice. -/
theorem exists_twice [DecidableEq ρ] {p n : Nat} (hs : 0 < size)
    (hp : Splits key rows ((p + 1) * size)) (hn : p + 2 ≤ n) :
    ∃ ans : Nat → List ρ, (∀ q, Answers key rows (ans q)) ∧ ∃ x ∈ rows, 2 ≤ (pages ans size n).count x := by
  obtain ⟨x, hx, hlt, hup⟩ := hp
  rw [Nat.succ_mul] at hlt hup
  have hle : before key rows x ≤ p * size + size - 1 := by omega
  obtain ⟨a, ha, hax⟩ := exists_answer_at hx hle (by omega)
  obtain ⟨b, hb, hbx⟩ := exists_answer_at hx hlt.le hup
  refine ⟨fun q => if q = p + 1 then a else b, fun q => by dsimp only; split <;> assumption, x, hx, ?_⟩
  have hfirst : x ∈ Pages.page a size (p + 1) := mem_page (by omega) (by omega) hax
  have hsecond : x ∈ Pages.page b size (p + 1 + 1) :=
    mem_page (by rw [Nat.succ_mul]) (by rw [Nat.succ_mul]; omega) hbx
  have hsub : [p, p + 1].Sublist (List.range n) := by
    refine List.Sublist.trans ?_ (List.range_sublist.mpr hn)
    rw [List.range_succ, List.range_succ, List.append_assoc]
    exact List.sublist_append_right ..
  have hpages := (hsub.flatMap fun i => Pages.page (if i + 1 = p + 1 then a else b) size (i + 1)).count_le x
  have hone := List.one_le_count_iff.mpr hfirst
  have htwo := List.one_le_count_iff.mpr hsecond
  simp only [List.flatMap_cons, List.flatMap_nil, List.append_nil, List.count_append, if_true] at hpages
  rw [if_neg (by omega)] at hpages
  rw [pages]
  omega

omit hans in
/-- The pages show every row once, whatever the answers, exactly if no page splits a
group. -/
theorem once_iff [DecidableEq ρ] (hs : 0 < size) (hnd : rows.Nodup) :
    (∀ ans : Nat → List ρ, (∀ p, Answers key rows (ans p)) → ∀ n, rows.length ≤ n * size →
      ∀ x ∈ rows, (pages ans size n).count x = 1) ↔ ∀ p, ¬ Splits key rows (p * size) := by
  constructor
  · intro h p hp
    cases p with
    | zero =>
      rw [Nat.zero_mul] at hp
      exact not_splits_zero hp
    | succ p =>
      obtain ⟨ans, hans, x, hx, htwice⟩ := exists_twice hs hp (n := rows.length + p + 2) (by omega)
      have hone := h ans hans (rows.length + p + 2)
        (Nat.le_trans (by omega) (Nat.le_mul_of_pos_right (rows.length + p + 2) hs)) x hx
      omega
  · intro hno ans hans n hn x hx
    rw [(pages_all hans hno hn).count_eq x]
    exact List.count_eq_one_of_mem hnd hx

end

end Pages
