import Mathlib.Algebra.Order.Ring.Int
import Mathlib.Data.List.Forall2
import Mathlib.Data.List.TakeWhile
import Veyaan.Lib.Python

/-!
# JSON texts

The grammar of JSON (RFC 8259), as what a value reads off the front of a text and
what it leaves. Outside its strings a text has only a few characters, and no
string is shorter in the text than it is itself: from these two the texts that
were put together from other texts can be told apart.
-/

namespace JsonText

open Python

/-- A number is `m * 10 ^ e`. An object may have several members of one name. -/
inductive Value where
  | null
  | bool (b : Bool)
  | number (m e : Int)
  | string (s : Text)
  | array (l : List Value)
  | object (l : List (Text × Value))

def member (l : List (Text × Value)) (key : Text) : Option Value := l.reverse.lookup key

inductive Same : Value → Value → Prop
  | null : Same .null .null
  | bool {b : Bool} : Same (.bool b) (.bool b)
  | number {m m' e e' : Int} : m * 10 ^ (e - min e e').toNat = m' * 10 ^ (e' - min e e').toNat →
      Same (.number m e) (.number m' e')
  | string {s : Text} : Same (.string s) (.string s)
  | array {l l' : List Value} : List.Forall₂ Same l l' → Same (.array l) (.array l')
  | object {l l' : List (Text × Value)} : (∀ k, (member l k).isSome = (member l' k).isSome) →
      (∀ k v v', member l k = some v → member l' k = some v' → Same v v') → Same (.object l) (.object l')

theorem member_isSome {l : List (Text × Value)} {key : Text} : (member l key).isSome = true ↔
    ∃ v, (key, v) ∈ l := by
  unfold member
  simp [List.lookup_isSome_iff]

theorem mem_of_member {l : List (Text × Value)} {key : Text} {v : Value}
    (h : member l key = some v) : (key, v) ∈ l := by
  obtain ⟨l₁, l₂, hl, -⟩ := List.lookup_eq_some_iff.mp h
  apply List.mem_reverse.mp
  rw [hl]
  simp

theorem Same.refl : ∀ v : Value, Same v v
  | .null => .null
  | .bool _ => .bool
  | .number _ _ => .number rfl
  | .string _ => .string
  | .array l => by
    refine .array (List.forall₂_same.mpr fun v hv => ?_)
    exact Same.refl v
  | .object l => .object (fun _ => rfl) fun k v v' h h' => by
    obtain rfl := Option.some.inj (h.symm.trans h')
    have hm := mem_of_member h
    exact Same.refl v
termination_by v => sizeOf v
decreasing_by
  · have := List.sizeOf_lt_of_mem hv
    simp
    omega
  · have := List.sizeOf_lt_of_mem hm
    simp at this ⊢
    omega

theorem Same.single {l : List (Text × Value)} {key s : Text} (h : Same (.object l) (.object [(key, .string s)])) :
    ∃ init, l = init ++ [(key, .string s)] ∧ ∀ p ∈ init, p.1 = key := by
  cases h with
  | object hkeys hsame =>
    have hkey : ∀ p ∈ l, p.1 = key := by
      intro p hp
      have hsome := hkeys p.1
      rw [member_isSome.mpr ⟨p.2, hp⟩] at hsome
      obtain ⟨v, hv⟩ := member_isSome.mp hsome.symm
      exact (Prod.mk.inj (List.mem_singleton.mp hv)).1
    have hlast : member [(key, Value.string s)] key = some (.string s) := by simp [member]
    rcases List.eq_nil_or_concat l with rfl | ⟨init, ⟨k, v⟩, rfl⟩
    · have := hkeys key
      rw [hlast] at this
      cases this
    · obtain rfl : k = key := hkey (k, v) (by simp)
      have hv := hsame k v (.string s) (by simp [member]) hlast
      cases hv
      exact ⟨init, List.concat_eq_append, fun p hp => hkey p (by simp [hp])⟩

/-! ## Tokens -/

def isWs (c : Char) : Bool := c = ' ' || c = '\t' || c = '\n' || c = '\r'

def skipWs (l : List Char) : List Char := l.dropWhile isWs

def hexDigit (c : Char) : Option Nat :=
  if '0' ≤ c ∧ c ≤ '9' then some (c.toNat - 48)
  else if 'a' ≤ c ∧ c ≤ 'f' then some (c.toNat - 87)
  else if 'A' ≤ c ∧ c ≤ 'F' then some (c.toNat - 55)
  else none

def hex4 (a b c d : Char) : Option Nat := do
  let a ← hexDigit a
  let b ← hexDigit b
  let c ← hexDigit c
  let d ← hexDigit d
  return ((a * 16 + b) * 16 + c) * 16 + d

def codeUnit (n : Nat) : CodePoint :=
  if h : 0xD800 ≤ n ∧ n < 0xE000 then .surrogate ⟨n - 0xD800, by omega⟩ else .char (.ofNat n)

def escaped (c : Char) : Option Char :=
  if c = '"' ∨ c = '\\' ∨ c = '/' then some c
  else if c = 'b' then some '\x08'
  else if c = 'f' then some '\x0c'
  else if c = 'n' then some '\n'
  else if c = 'r' then some '\r'
  else if c = 't' then some '\t'
  else none

def plain (c : Char) : Bool := c ≠ '"' && c ≠ '\\' && 0x20 ≤ c.toNat

/-- A high surrogate and the low one after it are one character. -/
def combine : Text → Text
  | .surrogate a :: .surrogate b :: s =>
    if a < 0x400 ∧ 0x400 ≤ b then .char (.ofNat (0x10000 + a.val * 0x400 + (b.val - 0x400))) :: combine s
    else .surrogate a :: combine (.surrogate b :: s)
  | c :: s => c :: combine s
  | [] => []

inductive Body : List Char → Text → List Char → Prop
  | close {r : List Char} : Body ('"' :: r) [] r
  | plain {c : Char} {l r : List Char} {s : Text} : JsonText.plain c = true → Body l s r →
      Body (c :: l) (.char c :: s) r
  | escape {c a : Char} {l r : List Char} {s : Text} : escaped c = some a → Body l s r →
      Body ('\\' :: c :: l) (.char a :: s) r
  | unicode {a b c d : Char} {n : Nat} {l r : List Char} {s : Text} : hex4 a b c d = some n → Body l s r →
      Body ('\\' :: 'u' :: a :: b :: c :: d :: l) (codeUnit n :: s) r

structure Numeral where
  negative : Bool
  whole : List (Fin 10)
  fraction : List (Fin 10)
  exponent : List (Fin 10)
  mark : String
  whole_ne : whole ≠ []
  no_zero : whole = [0] ∨ whole.head? ≠ some 0
  marked : if exponent = [] then mark = "" else mark ∈ ["e", "e+", "e-", "E", "E+", "E-"]

def digits (l : List (Fin 10)) : List Char := l.map fun d => .ofNat (48 + d.val)

def ofDigits (l : List (Fin 10)) : Nat := l.foldl (fun n d => n * 10 + d.val) 0

namespace Numeral

def text (n : Numeral) : List Char :=
  (if n.negative then ['-'] else []) ++ digits n.whole ++
    (if n.fraction = [] then [] else '.' :: digits n.fraction) ++
    n.mark.toList ++ digits n.exponent

def value (n : Numeral) : Value :=
  let m : Int := ofDigits (n.whole ++ n.fraction)
  let e : Int := ofDigits n.exponent
  .number (if n.negative then -m else m) ((if '-' ∈ n.mark.toList then -e else e) - n.fraction.length)

end Numeral

/-! ## The grammar -/

mutual

inductive Reads : List Char → Value → List Char → Prop
  | null {l r : List Char} : skipWs l = 'n' :: 'u' :: 'l' :: 'l' :: r → Reads l .null r
  | true {l r : List Char} : skipWs l = 't' :: 'r' :: 'u' :: 'e' :: r → Reads l (.bool .true) r
  | false {l r : List Char} : skipWs l = 'f' :: 'a' :: 'l' :: 's' :: 'e' :: r → Reads l (.bool .false) r
  | number {l r : List Char} (n : Numeral) : skipWs l = n.text ++ r → Reads l n.value r
  | string {l r r' : List Char} {s : Text} : skipWs l = '"' :: r → Body r s r' → Reads l (.string (combine s)) r'
  | emptyArray {l r r' : List Char} : skipWs l = '[' :: r → skipWs r = ']' :: r' → Reads l (.array []) r'
  | array {l r r' : List Char} {vs : List Value} : skipWs l = '[' :: r → Elements r vs r' → Reads l (.array vs) r'
  | emptyObject {l r r' : List Char} : skipWs l = '\x7b' :: r → skipWs r = '\x7d' :: r' → Reads l (.object []) r'
  | object {l r r' : List Char} {ps : List (Text × Value)} : skipWs l = '\x7b' :: r → Members r ps r' →
      Reads l (.object ps) r'

inductive Elements : List Char → List Value → List Char → Prop
  | last {l r r' : List Char} {v : Value} : Reads l v r → skipWs r = ']' :: r' → Elements l [v] r'
  | cons {l r r' r'' : List Char} {v : Value} {vs : List Value} : Reads l v r →
      skipWs r = ',' :: r' → Elements r' vs r'' →
      Elements l (v :: vs) r''

inductive Members : List Char → List (Text × Value) → List Char → Prop
  | last {l k c r r' r'' : List Char} {s : Text} {v : Value} : skipWs l = '"' :: k →
      Body k s c → skipWs c = ':' :: r →
      Reads r v r' → skipWs r' = '\x7d' :: r'' → Members l [(combine s, v)] r''
  | cons {l k c r r' r'' r''' : List Char} {s : Text} {v : Value} {ps : List (Text × Value)} : skipWs l = '"' :: k →
      Body k s c → skipWs c = ':' :: r → Reads r v r' → skipWs r' = ',' :: r'' → Members r'' ps r''' →
      Members l ((combine s, v) :: ps) r'''

end

def Denotes (l : List Char) (v : Value) : Prop := ∃ r, Reads l v r ∧ skipWs r = []

/-! ## What is read -/

section
variable {l r r' : List Char} {s : Text} {v : Value}

/-- `r` is what is left of `l` when something has been read. -/
def Cuts (l r : List Char) : Prop := r <:+ l ∧ r.length < l.length

theorem Cuts.trans (h : Cuts l r) (h' : Cuts r r') : Cuts l r' :=
  ⟨h'.1.trans h.1, h'.2.trans h.2⟩

theorem cuts_cons {c : Char} : Cuts (c :: l) l :=
  ⟨List.suffix_cons c l, Nat.lt_succ_self _⟩

theorem Cuts.cons {c : Char} (h : Cuts l r) : Cuts (c :: l) r := cuts_cons.trans h

theorem skipWs_suffix (l : List Char) : skipWs l <:+ l := List.dropWhile_suffix _

theorem Cuts.skipped (h : Cuts (skipWs l) r) : Cuts l r :=
  ⟨h.1.trans (skipWs_suffix l), h.2.trans_le (skipWs_suffix l).length_le⟩

theorem cuts_skipWs {c : Char} (h : skipWs l = c :: r) : Cuts l r := by
  apply Cuts.skipped
  rw [h]
  exact cuts_cons

theorem Body.cuts (h : Body l s r) : Cuts l r := by
  induction h with
  | close => exact cuts_cons
  | plain _ _ ih => exact ih.cons
  | escape _ _ ih => exact ih.cons.cons
  | unicode _ _ ih => exact ih.cons.cons.cons.cons.cons.cons

theorem Numeral.text_ne (n : Numeral) : n.text ≠ [] := by
  have h := n.whole_ne
  unfold Numeral.text digits
  simp [h]

theorem Numeral.cuts (n : Numeral) (h : skipWs l = n.text ++ r) : Cuts l r := by
  apply Cuts.skipped
  rw [h]
  have := List.length_pos_iff.mpr n.text_ne
  exact ⟨List.suffix_append _ _, by simp; omega⟩

mutual

theorem Reads.cuts : ∀ {l : List Char} {v : Value} {r : List Char}, Reads l v r → Cuts l r
  | _, _, _, .null h => (cuts_skipWs h).trans (cuts_cons.cons.cons)
  | _, _, _, .true h => (cuts_skipWs h).trans (cuts_cons.cons.cons)
  | _, _, _, .false h => (cuts_skipWs h).trans (cuts_cons.cons.cons.cons)
  | _, _, _, .number n h => n.cuts h
  | _, _, _, .string h hb => (cuts_skipWs h).trans hb.cuts
  | _, _, _, .emptyArray h h' => (cuts_skipWs h).trans (cuts_skipWs h')
  | _, _, _, .array h he => (cuts_skipWs h).trans he.cuts
  | _, _, _, .emptyObject h h' => (cuts_skipWs h).trans (cuts_skipWs h')
  | _, _, _, .object h hm => (cuts_skipWs h).trans hm.cuts

theorem Elements.cuts : ∀ {l : List Char} {vs : List Value} {r : List Char}, Elements l vs r → Cuts l r
  | _, _, _, .last hv h => hv.cuts.trans (cuts_skipWs h)
  | _, _, _, .cons hv h he => (hv.cuts.trans (cuts_skipWs h)).trans he.cuts

theorem Members.cuts : ∀ {l : List Char} {ps : List (Text × Value)} {r : List Char}, Members l ps r → Cuts l r
  | _, _, _, .last h hb hc hv h' =>
    (((cuts_skipWs h).trans hb.cuts).trans (cuts_skipWs hc)).trans (hv.cuts.trans (cuts_skipWs h'))
  | _, _, _, .cons h hb hc hv h' hm =>
    ((((cuts_skipWs h).trans hb.cuts).trans (cuts_skipWs hc)).trans (hv.cuts.trans (cuts_skipWs h'))).trans hm.cuts

end

/-! ## No string is shorter in the text -/

theorem combine_length (s : Text) : (combine s).length ≤ s.length := by
  fun_induction combine s with
  | case1 a b s h ih => simp; omega
  | case2 a b s h ih => simpa using ih
  | case3 c s h ih => simpa using ih
  | case4 => exact Nat.le_refl _

theorem Body.length (h : Body l s r) : s.length + 1 + r.length ≤ l.length := by
  induction h with
  | close => simp; omega
  | plain _ _ ih => simp only [List.length_cons] at ih ⊢; omega
  | escape _ _ ih => simp only [List.length_cons] at ih ⊢; omega
  | unicode _ _ ih => simp only [List.length_cons] at ih ⊢; omega

theorem Body.tight (h : Body l s r) (hl : l.length ≤ s.length + 1 + r.length) :
    ∃ t : List Char, l = t ++ '"' :: r ∧ s = t.map .char ∧ ∀ c ∈ t, JsonText.plain c = true := by
  induction h with
  | close => exact ⟨[], rfl, rfl, nofun⟩
  | @plain c l r s hp hb ih =>
    obtain ⟨t, rfl, rfl, ht⟩ := ih (by simp only [List.length_cons] at hl; omega)
    refine ⟨c :: t, rfl, rfl, ?_⟩
    intro a ha
    rcases List.mem_cons.mp ha with rfl | ha
    · exact hp
    · exact ht a ha
  | escape _ hb _ =>
    have := hb.length
    simp only [List.length_cons] at hl
    omega
  | unicode _ hb _ =>
    have := hb.length
    simp only [List.length_cons] at hl
    omega

def cost : Value → Nat
  | .string s => s.length + 2
  | _ => 1

theorem length_of_skipWs {c : Char} (h : skipWs l = c :: r) : r.length + 1 ≤ l.length := by
  have := (skipWs_suffix l).length_le
  rw [h] at this
  exact this

theorem Reads.cost_le (h : Reads l v r) : cost v + r.length ≤ l.length := by
  have hcut := h.cuts.2
  cases h with
  | @string _ r' _ s hs hb =>
    have h1 := length_of_skipWs hs
    have h2 := hb.length
    have h3 := combine_length s
    simp only [cost]
    omega
  | null | true | false | number | emptyArray | array | emptyObject | object =>
    simp only [cost, Numeral.value]
    omega

/-- Each member takes two quotation marks, a colon and the character behind it. -/
theorem Members.cost_le : ∀ {l : List Char} {ps : List (Text × Value)} {r : List Char}, Members l ps r →
    (ps.map fun p => p.1.length + cost p.2 + 4).sum + r.length ≤ l.length
  | _, _, _, .last (s := s) h hb hc hv h' => by
    have h1 := length_of_skipWs h
    have h2 := hb.length
    have h3 := combine_length s
    have h4 := length_of_skipWs hc
    have h5 := hv.cost_le
    have h6 := length_of_skipWs h'
    simp only [List.map_cons, List.map_nil, List.sum_cons, List.sum_nil]
    omega
  | _, _, _, .cons (s := s) h hb hc hv h' hm => by
    have h1 := length_of_skipWs h
    have h2 := hb.length
    have h3 := combine_length s
    have h4 := length_of_skipWs hc
    have h5 := hv.cost_le
    have h6 := length_of_skipWs h'
    have h7 := hm.cost_le
    simp only [List.map_cons, List.sum_cons]
    omega

end

/-! ## Outside the strings -/

def structural (c : Char) : Bool := c ∈ " \t\n\r\x7b\x7d[]:,0123456789-+.eEtrufalsn".toList

def numeric (c : Char) : Bool := c ∈ "0123456789-+.eE".toList

/-- Outside the strings there is nothing else. A text may begin inside a string. -/
def Clean : Bool → List Char → Prop
  | _, [] => True
  | false, c :: l => if c = '"' then Clean true l else structural c = true ∧ Clean false l
  | true, [_] => True
  | true, c :: d :: l =>
    if c = '"' then Clean false (d :: l) else if c = '\\' then Clean true l else Clean true (d :: l)

section
variable {l r r' : List Char} {s : Text} {v : Value} {c : Char}

theorem structural_ne (h : structural c = true) : c ≠ '"' := by
  rintro rfl
  exact absurd h (by decide)

theorem clean_false (h : structural c = true) : Clean false (c :: l) ↔ Clean false l := by
  rw [Clean, if_neg (structural_ne h)]
  exact ⟨fun hc => hc.2, fun hc => ⟨h, hc⟩⟩

theorem clean_open : Clean false ('"' :: l) ↔ Clean true l := by
  rw [Clean, if_pos rfl]

theorem clean_close : Clean true ('"' :: l) ↔ Clean false l := by
  cases l with
  | nil => simp [Clean]
  | cons d l => simp [Clean]

theorem clean_plain (h : c ≠ '"') (h' : c ≠ '\\') : Clean true (c :: l) ↔ Clean true l := by
  cases l with
  | nil => simp [Clean]
  | cons d l => rw [Clean, if_neg h, if_neg h']

theorem clean_plains {k : List Char} (hk : ∀ c ∈ k, plain c = true) : Clean true (k ++ l) ↔ Clean true l := by
  induction k with
  | nil => rfl
  | cons c k ih =>
    have hc := hk c (List.mem_cons_self ..)
    simp only [plain, Bool.and_eq_true, decide_eq_true_eq] at hc
    rw [List.cons_append, clean_plain hc.1.1 hc.1.2]
    exact ih fun a ha => hk a (List.mem_cons_of_mem _ ha)

theorem clean_escape {d : Char} : Clean true ('\\' :: d :: l) ↔ Clean true l := by
  rw [Clean, if_neg (by decide), if_pos rfl]

theorem clean_append {p : List Char} (hp : ∀ c ∈ p, structural c = true)
    (h : Clean false r) : Clean false (p ++ r) := by
  induction p with
  | nil => exact h
  | cons c p ih =>
    rw [List.cons_append, clean_false (hp c (List.mem_cons_self ..))]
    exact ih fun a ha => hp a (List.mem_cons_of_mem _ ha)

theorem structural_ws (h : isWs c = true) : structural c = true := by
  simp only [isWs, Bool.or_eq_true, decide_eq_true_eq] at h
  rcases h with ((rfl | rfl) | rfl) | rfl <;> decide

theorem Clean.skipped (h : Clean false (skipWs l)) : Clean false l := by
  rw [← List.takeWhile_append_dropWhile (p := isWs) (l := l)]
  exact clean_append (fun c hc => structural_ws (List.mem_takeWhile_imp hc)) h

theorem hexDigit_ne (h : hexDigit c ≠ none) : c ≠ '"' ∧ c ≠ '\\' := by
  constructor
  · rintro rfl
    exact h (by decide)
  · rintro rfl
    exact h (by decide)

theorem hex4_ne {a b d : Char} {n : Nat} (h : hex4 a b c d = some n) :
    ∀ x ∈ [a, b, c, d], x ≠ '"' ∧ x ≠ '\\' := by
  simp only [hex4, Option.bind_eq_bind, Option.bind_eq_some_iff] at h
  obtain ⟨_, ha, _, hb, _, hc, _, hd, -⟩ := h
  intro x hx
  simp only [List.mem_cons, List.not_mem_nil, or_false] at hx
  rcases hx with rfl | rfl | rfl | rfl <;> exact hexDigit_ne (by simp [*])

theorem Body.clean (h : Body l s r) (hr : Clean false r) : Clean true l := by
  induction h with
  | close => exact clean_close.mpr hr
  | plain hp _ ih =>
    simp only [JsonText.plain, Bool.and_eq_true, decide_eq_true_eq] at hp
    exact (clean_plain hp.1.1 hp.1.2).mpr (ih hr)
  | escape _ _ ih => exact clean_escape.mpr (ih hr)
  | @unicode a b c d n l r s hn _ ih =>
    have hne := hex4_ne hn
    rw [clean_escape, clean_plain (hne a (by simp)).1 (hne a (by simp)).2,
      clean_plain (hne b (by simp)).1 (hne b (by simp)).2,
      clean_plain (hne c (by simp)).1 (hne c (by simp)).2, clean_plain (hne d (by simp)).1 (hne d (by simp)).2]
    exact ih hr

theorem structural_of_numeric (h : numeric c = true) : structural c = true := by
  have hsub : "0123456789-+.eE".toList ⊆ " \t\n\r\x7b\x7d[]:,0123456789-+.eEtrufalsn".toList := by decide
  simp only [numeric, decide_eq_true_eq] at h
  simpa only [structural, decide_eq_true_eq] using hsub h

theorem numeric_digits (l : List (Fin 10)) : ∀ c ∈ digits l, numeric c = true := by
  intro c hc
  obtain ⟨d, -, rfl⟩ := List.mem_map.mp hc
  have h : ∀ d : Fin 10, numeric (.ofNat (48 + d.val)) = true := by decide
  exact h d

theorem Numeral.numeric_mark (n : Numeral) : ∀ c ∈ n.mark.toList, numeric c = true := by
  have h := n.marked
  split at h
  · rw [h]
    exact nofun
  · simp only [List.mem_cons, List.not_mem_nil, or_false] at h
    rcases h with h | h | h | h | h | h <;> rw [h] <;> exact List.all_eq_true.mp (by decide)

theorem Numeral.numeric (n : Numeral) : ∀ c ∈ n.text, JsonText.numeric c = true := by
  intro c hc
  simp only [Numeral.text, List.mem_append] at hc
  rcases hc with (((hc | hc) | hc) | hc) | hc
  · split at hc
    · rw [List.mem_singleton.mp hc]
      decide
    · cases hc
  · exact numeric_digits _ c hc
  · split at hc
    · cases hc
    · rcases List.mem_cons.mp hc with rfl | hc
      · decide
      · exact numeric_digits _ c hc
  · exact n.numeric_mark c hc
  · exact numeric_digits _ c hc

theorem Numeral.head (n : Numeral) (h : c :: l = n.text ++ r) : JsonText.numeric c = true := by
  cases ht : n.text with
  | nil => exact absurd ht n.text_ne
  | cons a t =>
    rw [ht, List.cons_append] at h
    rw [(List.cons.inj h).1]
    exact n.numeric a (ht ▸ List.mem_cons_self ..)

theorem clean_skipWs (h : skipWs l = c :: r) (hc : structural c = true) (hr : Clean false r) : Clean false l := by
  apply Clean.skipped
  rw [h]
  exact (clean_false hc).mpr hr

theorem clean_quoted (h : skipWs l = '"' :: r) (hb : Body r s r') (hr : Clean false r') : Clean false l := by
  apply Clean.skipped
  rw [h]
  exact clean_open.mpr (hb.clean hr)

mutual

theorem Reads.clean : ∀ {l : List Char} {v : Value} {r : List Char}, Reads l v r → Clean false r → Clean false l
  | _, _, r, .null h, hr => by
    have hl : Clean false (['u', 'l', 'l'] ++ r) := clean_append (List.all_eq_true.mp (by decide)) hr
    exact clean_skipWs h (by decide) hl
  | _, _, r, .true h, hr => by
    have hl : Clean false (['r', 'u', 'e'] ++ r) := clean_append (List.all_eq_true.mp (by decide)) hr
    exact clean_skipWs h (by decide) hl
  | _, _, r, .false h, hr => by
    have hl : Clean false (['a', 'l', 's', 'e'] ++ r) := clean_append (List.all_eq_true.mp (by decide)) hr
    exact clean_skipWs h (by decide) hl
  | _, _, _, .number n h, hr => by
    apply Clean.skipped
    rw [h]
    exact clean_append (fun c hc => structural_of_numeric (n.numeric c hc)) hr
  | _, _, _, .string h hb, hr => clean_quoted h hb hr
  | _, _, _, .emptyArray h h', hr => clean_skipWs h (by decide) (clean_skipWs h' (by decide) hr)
  | _, _, _, .array h he, hr => clean_skipWs h (by decide) (he.clean hr)
  | _, _, _, .emptyObject h h', hr => clean_skipWs h (by decide) (clean_skipWs h' (by decide) hr)
  | _, _, _, .object h hm, hr => clean_skipWs h (by decide) (hm.clean hr)

theorem Elements.clean : ∀ {l : List Char} {vs : List Value} {r : List Char}, Elements l vs r →
    Clean false r → Clean false l
  | _, _, _, .last hv h, hr => hv.clean (clean_skipWs h (by decide) hr)
  | _, _, _, .cons hv h he, hr => hv.clean (clean_skipWs h (by decide) (he.clean hr))

theorem Members.clean : ∀ {l : List Char} {ps : List (Text × Value)} {r : List Char},
    Members l ps r → Clean false r →
    Clean false l
  | _, _, _, .last h hb hc hv h', hr =>
    clean_quoted h hb (clean_skipWs hc (by decide) (hv.clean (clean_skipWs h' (by decide) hr)))
  | _, _, _, .cons h hb hc hv h' hm, hr =>
    clean_quoted h hb (clean_skipWs hc (by decide) (hv.clean (clean_skipWs h' (by decide) (hm.clean hr))))

end

theorem Denotes.clean (h : Denotes l v) : Clean false l := by
  obtain ⟨r, hv, hr⟩ := h
  refine hv.clean (Clean.skipped ?_)
  rw [hr]
  trivial

/-- A text that is clean when read from outside a string, and when read from inside one, has no
other characters at all. -/
theorem structural_of_both : ∀ {t : List Char} (b : Bool), Clean b t → Clean (!b) (t ++ r) →
    ∀ c ∈ t, structural c = true ∨ c = '"'
  | [], _, _, _ => nofun
  | a :: t, b, h, h' => by
    have hstep : (structural a = true ∨ a = '"') ∧ ∃ b', Clean b' t ∧ Clean (!b') (t ++ r) := by
      by_cases ha : a = '"'
      · subst ha
        refine ⟨.inr rfl, !b, ?_⟩
        cases b with
        | false => exact ⟨clean_open.mp h, clean_close.mp h'⟩
        | true => exact ⟨clean_close.mp h, clean_open.mp h'⟩
      · cases b with
        | false =>
          rw [Clean, if_neg ha] at h
          have hb : a ≠ '\\' := by
            rintro rfl
            exact absurd h.1 (by decide)
          exact ⟨.inl h.1, .false, h.2, (clean_plain ha hb).mp h'⟩
        | true =>
          rw [List.cons_append, Bool.not_true, Clean, if_neg ha] at h'
          have hb : a ≠ '\\' := by
            rintro rfl
            exact absurd h'.1 (by decide)
          exact ⟨.inl h'.1, .true, (clean_plain ha hb).mp h, h'.2⟩
    obtain ⟨ha, b', hb, hb'⟩ := hstep
    intro c hc
    rcases List.mem_cons.mp hc with rfl | hc
    · exact ha
    · exact structural_of_both b' hb hb' c hc

end

/-! ## Strings without escapes -/

section
variable {l r t k : List Char} {s : Text} {v w : Value}

theorem char_injective : Function.Injective CodePoint.char := by
  intro a b h
  cases h
  rfl

theorem combine_map (t : List Char) : combine (t.map .char) = t.map .char := by
  induction t with
  | nil => rfl
  | cons c t ih => simp [combine, ih]

theorem Body.raw (h : Body l s r) (hl : '\\' ∉ l) : ∃ t : List Char, l = t ++ '"' :: r ∧ s = t.map .char := by
  induction h with
  | close => exact ⟨[], rfl, rfl⟩
  | @plain c _ _ _ _ _ ih =>
    obtain ⟨t, rfl, rfl⟩ := ih fun hm => hl (List.mem_cons_of_mem _ hm)
    exact ⟨c :: t, rfl, rfl⟩
  | escape => exact absurd (List.mem_cons_self ..) hl
  | unicode => exact absurd (List.mem_cons_self ..) hl

theorem Body.of_plain (ht : ∀ c ∈ t, JsonText.plain c = true) : Body (t ++ '"' :: r) (t.map .char) r := by
  induction t with
  | nil => exact .close
  | cons c t ih => exact .plain (ht c (List.mem_cons_self ..)) (ih fun a ha => ht a (List.mem_cons_of_mem _ ha))

theorem Body.plain_prefix (hk : ∀ c ∈ k, JsonText.plain c = true) (h : Body (k ++ '"' :: l) s r) :
    s = k.map .char ∧ r = l := by
  induction k generalizing s with
  | nil =>
    cases h with
    | close => exact ⟨rfl, rfl⟩
    | plain hp => exact absurd hp (by decide)
  | cons c k ih =>
    have hc := hk c (List.mem_cons_self ..)
    rw [List.cons_append] at h
    generalize hx : k ++ '"' :: l = x at h
    cases h with
    | close => exact absurd hc (by decide)
    | plain _ hb =>
      subst hx
      obtain ⟨rfl, rfl⟩ := ih (fun a ha => hk a (List.mem_cons_of_mem _ ha)) hb
      exact ⟨rfl, rfl⟩
    | escape => exact absurd hc (by decide)
    | unicode => exact absurd hc (by decide)

theorem name_of_body (h : skipWs l = '"' :: k) (hb : Body k s r) (hl : '\\' ∉ l) :
    ∃ t : List Char, combine s = t.map .char ∧ ∀ c ∈ t, c ∈ l := by
  have hsuffix : k <:+ l := (cuts_skipWs h).1
  obtain ⟨t, rfl, rfl⟩ := hb.raw fun hm => hl (hsuffix.mem hm)
  exact ⟨t, combine_map t, fun c hc => hsuffix.mem (List.mem_append_left _ hc)⟩

theorem Members.names : ∀ {l : List Char} {ps : List (Text × Value)} {r : List Char}, Members l ps r → '\\' ∉ l →
    ∀ p ∈ ps, ∃ t : List Char, p.1 = t.map .char ∧ ∀ c ∈ t, c ∈ l
  | _, _, _, .last h hb hc hv h', hl, p, hp => by
    rw [List.mem_singleton.mp hp]
    exact name_of_body h hb hl
  | l, _, _, @Members.cons _ _ _ _ _ r _ _ _ _ h hb hc hv h' hm, hl, p, hp => by
    rcases List.mem_cons.mp hp with rfl | hp
    · exact name_of_body h hb hl
    · have hsuffix : r <:+ l :=
        ((((cuts_skipWs h).trans hb.cuts).trans (cuts_skipWs hc)).trans (hv.cuts.trans (cuts_skipWs h'))).1
      obtain ⟨t, ht, hmem⟩ := hm.names (fun hs => hl (hsuffix.mem hs)) p hp
      exact ⟨t, ht, fun c hc => hsuffix.mem (hmem c hc)⟩

/-! ## A string put into an object -/

def wrapped (k t : List Char) : List Char :=
  '\x7b' :: '"' :: (k ++ '"' :: ':' :: ' ' :: '"' :: (t ++ ['"', '\x7d']))

theorem skipWs_cons {c : Char} (h : isWs c = false) : skipWs (c :: l) = c :: l := by
  simp [skipWs, h]

theorem Reads.brace (h : Reads l v r) (hl : skipWs l = '\x7b' :: k) :
    v = .object [] ∧ skipWs k = '\x7d' :: r ∨ ∃ ps, v = .object ps ∧ Members k ps r := by
  cases h with
  | null h | true h | false h | string h _ | emptyArray h _ | array h _ =>
    rw [hl] at h
    exact absurd (List.cons.inj h).1 (by decide)
  | number n h =>
    rw [hl] at h
    exact absurd (n.head h) (by decide)
  | emptyObject h h' =>
    rw [hl] at h
    obtain rfl := (List.cons.inj h).2
    exact .inl ⟨rfl, h'⟩
  | object h hm =>
    rw [hl] at h
    obtain rfl := (List.cons.inj h).2
    exact .inr ⟨_, rfl, hm⟩

theorem Reads.bracket (h : Reads l v r) (hl : skipWs l = '[' :: k) : ∃ vs, v = .array vs := by
  cases h with
  | null h | true h | false h | string h _ | emptyObject h _ | object h _ =>
    rw [hl] at h
    exact absurd (List.cons.inj h).1 (by decide)
  | number n h =>
    rw [hl] at h
    exact absurd (n.head h) (by decide)
  | emptyArray => exact ⟨_, rfl⟩
  | array => exact ⟨_, rfl⟩

theorem Members.quote {ps : List (Text × Value)} (h : Members l ps r) : ∃ l', skipWs l = '"' :: l' := by
  cases h with
  | last h | cons h => exact ⟨_, h⟩

theorem wrapped_members (h : Denotes (wrapped k t) v) : ∃ ps r, v = .object ps ∧
    Members ('"' :: (k ++ '"' :: ':' :: ' ' :: '"' :: (t ++ ['"', '\x7d']))) ps r := by
  obtain ⟨r, hv, -⟩ := h
  obtain ⟨-, h⟩ | ⟨ps, rfl, hm⟩ := hv.brace (skipWs_cons (by decide))
  · rw [skipWs_cons (by decide)] at h
    exact absurd (List.cons.inj h).1 (by decide)
  · exact ⟨ps, r, rfl, hm⟩

theorem Reads.quoted (h : Reads (' ' :: '"' :: l) v r) : ∃ s, v = .string (combine s) ∧ Body l s r := by
  have hskip : skipWs (' ' :: '"' :: l) = '"' :: l := rfl
  generalize ' ' :: '"' :: l = x at h hskip
  cases h with
  | string h hb =>
    rw [hskip] at h
    obtain rfl := (List.cons.inj h).2
    exact ⟨_, rfl, hb⟩
  | null h | true h | false h | emptyArray h _ | array h _ | emptyObject h _ | object h _ =>
    rw [hskip] at h
    exact absurd (List.cons.inj h).1 (by decide)
  | number n h =>
    rw [hskip] at h
    exact absurd (n.head h) (by decide)

section
variable (hk : ∀ c ∈ k, plain c = true)
include hk

theorem denotes_wrapped (ht : ∀ c ∈ t, plain c = true) :
    Denotes (wrapped k t) (.object [(k.map .char, .string (t.map .char))]) := by
  have hstring : Reads (' ' :: '"' :: (t ++ ['"', '\x7d'])) (.string (combine (t.map .char))) ['\x7d'] :=
    .string rfl (.of_plain ht)
  have hmembers : Members ('"' :: (k ++ '"' :: ':' :: ' ' :: '"' :: (t ++ ['"', '\x7d'])))
      [(combine (k.map .char), .string (combine (t.map .char)))] [] :=
    .last rfl (.of_plain hk) rfl hstring rfl
  rw [combine_map, combine_map] at hmembers
  exact ⟨[], .object rfl hmembers, rfl⟩

theorem wrapped_pair {k₀ c r₁ r₂ : List Char}
    (h : skipWs ('"' :: (k ++ '"' :: ':' :: ' ' :: '"' :: (t ++ ['"', '\x7d']))) = '"' :: k₀) (hb : Body k₀ s c)
    (hc : skipWs c = ':' :: r₁) (hv : Reads r₁ v r₂) :
    combine s = k.map .char ∧ ∃ u, v = .string (combine u) ∧ Body (t ++ ['"', '\x7d']) u r₂ := by
  rw [skipWs_cons (by decide)] at h
  obtain rfl := (List.cons.inj h).2
  obtain ⟨rfl, rfl⟩ := hb.plain_prefix hk
  rw [skipWs_cons (by decide)] at hc
  obtain rfl := (List.cons.inj hc).2
  exact ⟨combine_map k, hv.quoted⟩

theorem wrapped_first {ps : List (Text × Value)}
    (h : Members ('"' :: (k ++ '"' :: ':' :: ' ' :: '"' :: (t ++ ['"', '\x7d']))) ps r) :
    ∃ u r', Body (t ++ ['"', '\x7d']) u r' ∧ (ps = [(k.map .char, .string (combine u))] ∧ skipWs r' = '\x7d' :: r ∨
      ∃ r'' qs, ps = (k.map .char, .string (combine u)) :: qs ∧ skipWs r' = ',' :: r'' ∧ Members r'' qs r) := by
  generalize hl : '"' :: (k ++ '"' :: ':' :: ' ' :: '"' :: (t ++ ['"', '\x7d'])) = l at h
  cases h with
  | last h hb hc hv h' =>
    subst hl
    obtain ⟨hs, u, rfl, hbody⟩ := wrapped_pair hk h hb hc hv
    exact ⟨u, _, hbody, .inl ⟨by rw [hs], h'⟩⟩
  | cons h hb hc hv h' hm =>
    subst hl
    obtain ⟨hs, u, rfl, hbody⟩ := wrapped_pair hk h hb hc hv
    exact ⟨u, _, hbody, .inr ⟨_, _, by rw [hs], h', hm⟩⟩

/-- If the text denotes the object with the member `t`, it does so by its characters: nothing in
`t` needs an escape. -/
theorem plain_of_wrapped (hd : Denotes (wrapped k t) v)
    (hs : Same v (.object [(k.map .char, .string (t.map .char))])) :
    v = .object [(k.map .char, .string (t.map .char))] ∧ ∀ c ∈ t, plain c = true := by
  obtain ⟨ps, r, rfl, hm⟩ := wrapped_members hd
  obtain ⟨init, rfl, hinit⟩ := hs.single
  have hcost := hm.cost_le
  cases init with
  | cons p init =>
    have hp := congrArg List.length (hinit p (List.mem_cons_self ..))
    simp [cost] at hcost hp
    omega
  | nil =>
    refine ⟨rfl, ?_⟩
    obtain ⟨s, r', hbody, ⟨hps, h'⟩ | ⟨_, _, hps, _, hm'⟩⟩ := wrapped_first hk hm
    · have hstring : t.map .char = combine s := Value.string.inj (Prod.mk.inj (List.cons.inj hps).1).2
      -- what is left holds the brace, so the string has room for `t` and no more
      have hroom := length_of_skipWs h'
      have hlength := combine_length s
      rw [← hstring, List.length_map] at hlength
      obtain ⟨u, hu, rfl, hplain⟩ :=
        hbody.tight (by simp only [List.length_append, List.length_cons, List.length_nil]; omega)
      rw [combine_map] at hstring
      rw [List.map_injective_iff.mpr char_injective hstring]
      exact hplain
    · obtain rfl := (List.cons.inj hps).2
      nomatch hm'

/-- Nothing else can be read from it then. -/
theorem wrapped_unique (ht : ∀ c ∈ t, plain c = true) (hd : Denotes (wrapped k t) v) :
    v = .object [(k.map .char, .string (t.map .char))] := by
  obtain ⟨ps, r, rfl, hm⟩ := wrapped_members hd
  obtain ⟨s, r', hbody, h⟩ := wrapped_first hk hm
  obtain ⟨rfl, rfl⟩ := hbody.plain_prefix ht
  rw [combine_map] at h
  obtain ⟨rfl, -⟩ | ⟨_, _, -, h', -⟩ := h
  · rfl
  · exact absurd (List.cons.inj h').1 (by decide)

/-- A text that denotes an object or an array by itself, denotes nothing of the kind when it has been put
between the two pieces: the strings of the one text are what is outside the strings of the other. -/
theorem not_same_wrapped (hx : ∃ c ∈ k, structural c = false) (ht : Denotes t w) (hd : Denotes (wrapped k t) v) :
    ¬ Same v w := by
  intro hs
  obtain ⟨ps, r, rfl, hm⟩ := wrapped_members hd
  obtain ⟨v₀, qs, rfl⟩ : ∃ v₀ qs, ps = (k.map .char, v₀) :: qs := by
    obtain ⟨s, _, -, ⟨rfl, -⟩ | ⟨_, _, rfl, -⟩⟩ := wrapped_first hk hm
    · exact ⟨_, _, rfl⟩
    · exact ⟨_, _, rfl⟩
  cases hs with
  | @object _ ws hkeys _ =>
    have hname := hkeys (k.map .char)
    rw [member_isSome.mpr ⟨v₀, List.mem_cons_self ..⟩] at hname
    obtain ⟨w₀, hw⟩ := member_isSome.mp hname.symm
    have hboth : ∀ c ∈ t, structural c = true ∨ c = '"' := by
      have h := hd.clean
      unfold wrapped at h
      rw [clean_false (by decide), clean_open, clean_plains hk, clean_close,
        clean_false (by decide), clean_false (by decide), clean_open] at h
      exact structural_of_both .false ht.clean h
    have hslash : '\\' ∉ t := fun hm => absurd (hboth _ hm) (by decide)
    obtain ⟨c, hc, hcx⟩ := hx
    obtain ⟨r', hread, -⟩ := ht
    cases hread with
    | emptyObject => cases hw
    | @object _ r₁ _ _ hskip hmem =>
      have hsuffix : r₁ <:+ t := (cuts_skipWs hskip).1
      obtain ⟨u, hu, hin⟩ := hmem.names (fun hs => hslash (hsuffix.mem hs)) _ hw
      obtain rfl := List.map_injective_iff.mpr char_injective hu
      rcases hboth c (hsuffix.mem (hin c hc)) with h | rfl
      · rw [hcx] at h
        cases h
      · exact absurd (hk _ hc) (by decide)

end

end

end JsonText
