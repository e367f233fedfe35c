import Mathlib.Data.Nat.Digits.Lemmas
import Veyaan.Lib.Words
import Veyaan.Schema

/-!
# Identifiers as texts

A UUID is written by `str` and read by `UUID(…)`. What is written has no
characters but hexadecimal digits and dashes, and it is read back.
-/

namespace Veyaan

/-! ## `str` of a UUID -/

def hex32 (n : Nat) : List Char :=
  let digits := Nat.digits 16 n
  ((digits ++ List.replicate (32 - digits.length) 0).map Nat.digitChar).reverse

/-- `str(id)`: the digits, with a `-` after the eighth and after each of the next
three groups of four. -/
def strUuid (id : UUID) : List Char :=
  let h := hex32 id
  h.take 8 ++ '-' :: ((h.drop 8).take 4 ++ '-' :: ((h.drop 12).take 4 ++
    '-' :: ((h.drop 16).take 4 ++ '-' :: h.drop 20)))

/-! ## `UUID(…)` of a text -/

/-- What `int` makes of a character beyond ASCII: the decimal digits and the spaces of
other scripts are read as the digits and the space of ASCII. -/
structure Unicode where
  ascii : Char → Char
  ascii_self : ∀ c, c.toNat < 127 → ascii c = c

instance : Inhabited Unicode := ⟨id, fun _ _ => rfl⟩

/-- `Py_ISSPACE`. -/
def isSpace (c : Char) : Bool := [' ', '\t', '\n', '\x0b', '\x0c', '\r'].contains c

def digit16 (c : Char) : Option Nat :=
  if '0' ≤ c ∧ c ≤ '9' then some (c.toNat - 48)
  else if 'a' ≤ c ∧ c ≤ 'f' then some (c.toNat - 87)
  else if 'A' ≤ c ∧ c ≤ 'F' then some (c.toNat - 55)
  else none

/-- The digits of a number: one underscore may stand between two of them. -/
def digits16 (l : List Char) : Option Nat :=
  if l = [] ∨ l.head? = some '_' ∨ l.getLast? = some '_' ∨ ['_', '_'] <:+: l then none
  else ((l.filter (· != '_')).mapM digit16).map fun ds => Nat.ofDigits 16 ds.reverse

/-- The sign of a number, and what follows it. -/
def signOf : List Char → Bool × List Char
  | '-' :: l => (true, l)
  | '+' :: l => (false, l)
  | l => (false, l)

/-- What follows the prefix `0x` of a number, if it has one. One underscore may follow the prefix. -/
def afterPrefix : List Char → List Char
  | '0' :: 'x' :: '_' :: l => l
  | '0' :: 'X' :: '_' :: l => l
  | '0' :: 'x' :: l => l
  | '0' :: 'X' :: l => l
  | l => l

/-- `int(text, 16)`, or a `ValueError`. -/
def int16 (U : Unicode) (text : List Char) : Option Int :=
  let (negative, l) := signOf (Words.strip isSpace (text.map U.ascii))
  (digits16 (afterPrefix l)).map fun n => if negative then -(n : Int) else n

/-- `UUID(text)`, or a `ValueError`. -/
def uuidOf (U : Unicode) (text : List Char) : Option UUID :=
  let hex := Words.without 'u' ['u', 'i', 'd', ':'] 0 (Words.without 'u' ['r', 'n', ':'] 0 text)
  let hex := (Words.strip (fun c => c == '\x7b' || c == '\x7d') hex).filter (· != '-')
  if hex.length = 32 then
    match int16 U hex with
    | some n => if 0 ≤ n ∧ n < 2 ^ 128 then some n.toNat else none
    | none => none
  else none

example : uuidOf default "urn:uuid:\x7b12345678-1234-5678-1234-56781234567F\x7d".toList =
    some 0x1234567812345678123456781234567f := by
  decide +kernel

/-! ## Digits -/

def hexValue (c : Char) : Nat := if c.toNat < 58 then c.toNat - 48 else c.toNat - 87

theorem digitChar_hex {n : Nat} (h : n < 16) : n.digitChar ≠ ':' ∧ n.digitChar ≠ '-' ∧
    hexValue n.digitChar = n := by
  interval_cases n <;> decide

theorem hexDigits_lt {n k : Nat} (h : k ∈ Nat.digits 16 n ++ List.replicate (32 - (Nat.digits 16 n).length) 0) :
    k < 16 := by
  rcases List.mem_append.mp h with h | h
  · exact Nat.digits_lt_base (by decide) h
  · rw [(List.mem_replicate.mp h).2]
    decide

theorem hex32_isHex {n : Nat} {c : Char} (h : c ∈ hex32 n) : c ∈ "0123456789abcdef".toList := by
  simp only [hex32, List.mem_reverse, List.mem_map] at h
  obtain ⟨k, hk, rfl⟩ := h
  have : ∀ k < 16, k.digitChar ∈ "0123456789abcdef".toList := by decide
  exact this k (hexDigits_lt hk)

theorem hex32_chars {n : Nat} {c : Char} (h : c ∈ hex32 n) : c ≠ ':' ∧ c ≠ '-' := by
  simp only [hex32, List.mem_reverse, List.mem_map] at h
  obtain ⟨k, hk, rfl⟩ := h
  exact ⟨(digitChar_hex (hexDigits_lt hk)).1, (digitChar_hex (hexDigits_lt hk)).2.1⟩

theorem ofDigits_hex32 (n : Nat) : Nat.ofDigits 16 ((hex32 n).reverse.map hexValue) = n := by
  have hmap : ∀ l : List Nat, (∀ k ∈ l, k < 16) → (l.map Nat.digitChar).map hexValue = l := fun l hl => by
    rw [List.map_map]
    exact (List.map_congr_left fun k hk => (digitChar_hex (hl k hk)).2.2).trans (List.map_id l)
  rw [hex32, List.reverse_reverse, hmap _ fun k => hexDigits_lt,
    Nat.ofDigits_append_replicate_zero, Nat.ofDigits_digits]

theorem hex32_inj {n m : Nat} (h : hex32 n = hex32 m) : n = m := by
  rw [← ofDigits_hex32 n, h, ofDigits_hex32]

theorem hex32_length {n : Nat} (h : n < 2 ^ 128) : (hex32 n).length = 32 := by
  have hlen : (Nat.digits 16 n).length ≤ 32 := (Nat.digits_length_le_iff (by decide) n).mpr (by omega)
  simp only [hex32, List.length_reverse, List.length_map, List.length_append, List.length_replicate]
  omega

theorem strUuid_chars {id : UUID} {c : Char} (h : c ∈ strUuid id) : c ∈ "0123456789abcdef-".toList := by
  have hhex : ∀ l, List.Sublist l (hex32 id) → c ∈ l → c ∈ "0123456789abcdef-".toList := fun l hl hm => by
    have hsub : "0123456789abcdef".toList ⊆ "0123456789abcdef-".toList := by decide
    exact hsub (hex32_isHex (hl.subset hm))
  have hdrop : ∀ a b, List.Sublist (((hex32 id).drop a).take b) (hex32 id) := fun a b =>
    (List.take_sublist ..).trans (List.drop_sublist ..)
  simp only [strUuid, List.mem_append, List.mem_cons] at h
  rcases h with h | rfl | h | rfl | h | rfl | h | rfl | h
  · exact hhex _ (List.take_sublist ..) h
  · decide
  · exact hhex _ (hdrop ..) h
  · decide
  · exact hhex _ (hdrop ..) h
  · decide
  · exact hhex _ (hdrop ..) h
  · decide
  · exact hhex _ (List.drop_sublist ..) h

theorem not_mem_strUuid {c : Char} (h : c ∉ "0123456789abcdef-".toList) (id : UUID) : c ∉ strUuid id :=
  fun hm => h (strUuid_chars hm)

theorem strUuid_colon (id : UUID) : ':' ∉ strUuid id := not_mem_strUuid (by decide) id

theorem strUuid_filter (id : UUID) : (strUuid id).filter (· != '-') = hex32 id := by
  have h : ∀ l, List.Sublist l (hex32 id) → l.filter (· != '-') = l := fun l hl =>
    List.filter_eq_self.mpr fun c hc => by simpa using (hex32_chars (hl.subset hc)).2
  have hdrop : ∀ a b, List.Sublist (((hex32 id).drop a).take b) (hex32 id) := fun a b =>
    (List.take_sublist ..).trans (List.drop_sublist ..)
  have hjoin : ∀ a, ((hex32 id).drop a).take 4 ++ (hex32 id).drop (a + 4) = (hex32 id).drop a := fun a => by
    rw [← List.drop_drop, List.take_append_drop]
  simp only [strUuid, List.filter_append, List.filter_cons]
  rw [h _ (List.take_sublist ..), h _ (hdrop 8 4), h _ (hdrop 12 4), h _ (hdrop 16 4), h _ (List.drop_sublist ..)]
  simp only [bne_self_eq_false, Bool.false_eq_true, if_false]
  rw [hjoin 16, hjoin 12, hjoin 8, List.take_append_drop]

theorem strUuid_inj {a b : UUID} (h : strUuid a = strUuid b) : a = b :=
  hex32_inj (by rw [← strUuid_filter, h, strUuid_filter])

/-! ## Reading what was written -/

section
variable {l : List Char}

theorem signOf_hex (h : ∀ c ∈ l, c ∈ "0123456789abcdef".toList) : signOf l = (false, l) := by
  unfold signOf
  split
  · exact absurd (h '-' (by simp)) (by decide)
  · exact absurd (h '+' (by simp)) (by decide)
  · rfl

theorem afterPrefix_hex (h : ∀ c ∈ l, c ∈ "0123456789abcdef".toList) : afterPrefix l = l := by
  unfold afterPrefix
  split
  · exact absurd (h 'x' (by simp)) (by decide)
  · exact absurd (h 'X' (by simp)) (by decide)
  · exact absurd (h 'x' (by simp)) (by decide)
  · exact absurd (h 'X' (by simp)) (by decide)
  · rfl

theorem mapM_digit16 : ∀ {ds : List Nat}, (∀ k ∈ ds, k < 16) → (ds.map Nat.digitChar).mapM digit16 = some ds
  | [], _ => rfl
  | d :: ds, h => by
    have hd : ∀ k < 16, digit16 k.digitChar = some k := by decide
    rw [List.map_cons, List.mapM_cons, hd d (h d (by simp)),
      mapM_digit16 fun k hk => h k (List.mem_cons_of_mem _ hk)]
    rfl

theorem digits16_hex32 {n : Nat} (h : n < 2 ^ 128) : digits16 (hex32 n) = some n := by
  have hmark : '_' ∉ hex32 n := fun hm => absurd (hex32_isHex hm) (by decide)
  have hne : hex32 n ≠ [] := fun h0 => by simpa [h0] using hex32_length h
  unfold digits16
  rw [if_neg]
  · have hfilter : (hex32 n).filter (· != '_') = hex32 n :=
      List.filter_eq_self.mpr fun c hc => by
        have : c ≠ '_' := by rintro rfl; exact hmark hc
        simpa using this
    have hds : ∀ k ∈ (Nat.digits 16 n ++ List.replicate (32 - (Nat.digits 16 n).length) 0).reverse, k < 16 :=
      fun k hk => hexDigits_lt (List.mem_reverse.mp hk)
    rw [hfilter, hex32, ← List.map_reverse, mapM_digit16 hds, Option.map_some, List.reverse_reverse,
      Nat.ofDigits_append_replicate_zero, Nat.ofDigits_digits]
  · rintro (h0 | h0 | h0 | h0)
    · exact hne h0
    · exact hmark (List.mem_of_head? h0)
    · exact hmark (List.mem_of_getLast? h0)
    · exact hmark (h0.subset (by simp))

theorem int16_hex32 (U : Unicode) {n : Nat} (h : n < 2 ^ 128) : int16 U (hex32 n) = some (n : Int) := by
  have hascii : (hex32 n).map U.ascii = hex32 n := by
    refine (List.map_congr_left fun c hc => ?_).trans (List.map_id _)
    have hall : ("0123456789abcdef".toList.all fun c => c.toNat < 127) = true := by decide
    exact U.ascii_self c (by simpa using List.all_eq_true.mp hall c (hex32_isHex hc))
  have hstrip : Words.strip isSpace (hex32 n) = hex32 n := Words.strip_of_forall fun c hc => by
    have hall : ("0123456789abcdef".toList.all fun c => !isSpace c) = true := by decide
    simpa using List.all_eq_true.mp hall c (hex32_isHex hc)
  unfold int16
  rw [hascii, hstrip, signOf_hex fun c => hex32_isHex]
  simp only
  rw [afterPrefix_hex fun c => hex32_isHex, digits16_hex32 h]
  rfl

/-- **`UUID(str(id))`** is `id`. -/
theorem uuidOf_strUuid (U : Unicode) {id : UUID} (h : id < 2 ^ 128) : uuidOf U (strUuid id) = some id := by
  have hout : ∀ k, ':' ∈ k → ¬ k <:+: strUuid id := fun k hk hi => strUuid_colon id (hi.subset hk)
  have hstrip : Words.strip (fun c => c == '\x7b' || c == '\x7d') (strUuid id) =
      strUuid id := Words.strip_of_forall fun c hc => by
    have hall : ("0123456789abcdef-".toList.all fun c => !(c == '\x7b' || c == '\x7d')) = true := by decide
    simpa using List.all_eq_true.mp hall c (strUuid_chars hc)
  have hlt : ((id : Nat) : Int) < 2 ^ 128 := by exact_mod_cast h
  unfold uuidOf
  simp only
  rw [Words.without_of_not_infix (hout _ (by simp)),
    Words.without_of_not_infix (hout _ (by simp)), hstrip, strUuid_filter,
    if_pos (hex32_length h), int16_hex32 U h]
  simp only
  rw [if_pos ⟨Int.natCast_nonneg _, hlt⟩, Int.toNat_natCast]

end

end Veyaan
