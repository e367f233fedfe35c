import Veyaan.Lib.JsonText

/-!
# Migration 008: text becomes JSONB

`ALTER TABLE … ALTER COLUMN … TYPE JSONB USING CASE …` for the three columns. The
expression decides by the first character of the text whether it is JSON, and puts
everything else between two pieces of JSON as it is.
-/

namespace Veyaan.Migration

open JsonText
open Python (Text CodePoint)

inductive Column where
  /-- `commands.parameters`, where NULL and the empty text become an empty object. -/
  | parameters
  /-- `command_state_events.metadata`, renamed to `event_metadata`. -/
  | stateEventMetadata
  /-- `audit_logs.event_metadata` -/
  | auditMetadata
  deriving DecidableEq

def looksLikeJson (t : String) : Bool := t.toList.head? = some '\x7b' || t.toList.head? = some '['

def usingText (c : Column) : Option String → Option String
  | none => if c = .parameters then some "\x7b\x7d" else none
  | some t =>
    if c = .parameters ∧ t = "" then some "\x7b\x7d"
    else if looksLikeJson t then some t
    else some ("\x7b\"value\": \"" ++ t ++ "\"\x7d")

/-! ## The cast -/

structure Capacity where
  fits : Value → Bool
  fits_empty : fits (.object []) = true

def textStorable (s : Text) : Bool := s.all fun
  | .char c => c ≠ '\x00'
  | .surrogate _ => false

mutual
def storable : Value → Bool
  | .string s => textStorable s
  | .array l => storableElements l
  | .object ps => storableMembers ps
  | _ => true
def storableElements : List Value → Bool
  | [] => true
  | v :: l => storable v && storableElements l
def storableMembers : List (Text × Value) → Bool
  | [] => true
  | (k, v) :: ps => textStorable k && storable v && storableMembers ps
end

/-- `t::jsonb` is `v`. Where there is no such `v`, the cast raises, and the migration is aborted. -/
def Casts (P : Capacity) (t : String) (v : Value) : Prop := Denotes t.toList v ∧ storable v = true ∧ P.fits v = true

def Converts (P : Capacity) (c : Column) (x : Option String) (y : Option Value) : Prop :=
  match usingText c x with
  | some t => ∃ v, y = some v ∧ Casts P t v
  | none => y = none

/-! ## What is to be preserved -/

def isContainer : Value → Bool
  | .array _ => true
  | .object _ => true
  | _ => false

def Emptied (c : Column) (x : Option String) : Prop := c = .parameters ∧ (x = none ∨ x = some "")

def IsJson (t : String) : Prop := ∃ w, Denotes t.toList w ∧ isContainer w = true

def valueObject (t : String) : Value := .object [(.ofString "value", .string (.ofString t))]

inductive Kept (c : Column) : Option String → Option Value → Prop
  | emptied {x : Option String} {v : Value} : Emptied c x → Same v (.object []) → Kept c x (some v)
  | null : ¬ Emptied c none → Kept c none none
  | json {t : String} {v w : Value} : ¬ Emptied c (some t) → Denotes t.toList w → isContainer w = true → Same v w →
      Kept c (some t) (some v)
  | text {t : String} {v : Value} : ¬ Emptied c (some t) → ¬ IsJson t →
      Same v (valueObject t) → Kept c (some t) (some v)

def Preserved (P : Capacity) (c : Column) (x : Option String) : Prop :=
  (∃ y, Converts P c x y) ∧ ∀ y, Converts P c x y → Kept c x y

inductive Convertible (P : Capacity) (c : Column) : Option String → Prop
  | null : Convertible P c none
  | emptied {x : Option String} : Emptied c x → Convertible P c x
  | json {t : String} {v : Value} : looksLikeJson t = true → Casts P t v → Convertible P c (some t)
  | text {t : String} : looksLikeJson t = false → ¬ IsJson t → (∀ a ∈ t.toList, plain a = true) →
      P.fits (valueObject t) = true → Convertible P c (some t)

section
variable {P : Capacity} {c : Column} {t : String} {v : Value} {y : Option Value}

theorem emptied_some : Emptied c (some t) ↔ c = .parameters ∧ t = "" := by
  simp [Emptied]

theorem converts_emptied {x : Option String} (h : Emptied c x) : Converts P c x y ↔
    ∃ v, y = some v ∧ Casts P "\x7b\x7d" v := by
  obtain ⟨rfl, rfl | rfl⟩ := h
  · rfl
  · rfl

theorem converts_json (h : ¬ Emptied c (some t)) (hl : looksLikeJson t = true) :
    Converts P c (some t) y ↔ ∃ v, y = some v ∧ Casts P t v := by
  rw [emptied_some] at h
  simp only [Converts, usingText, if_neg h, if_pos hl]

theorem converts_text (h : ¬ Emptied c (some t)) (hl : looksLikeJson t = false) :
    Converts P c (some t) y ↔ ∃ v, y = some v ∧ Casts P ("\x7b\"value\": \"" ++ t ++ "\"\x7d") v := by
  rw [emptied_some] at h
  simp only [Converts, usingText, if_neg h, hl, Bool.false_eq_true, if_false]

theorem toList_value : ("\x7b\"value\": \"" ++ t ++ "\"\x7d").toList = wrapped "value".toList t.toList := by
  simp [wrapped]

theorem plain_value : ∀ a ∈ "value".toList, plain a = true := List.all_eq_true.mp (by decide)

theorem denotes_empty : Denotes "\x7b\x7d".toList v ↔ v = .object [] := by
  constructor
  · rintro ⟨r, hv, -⟩
    have hskip : skipWs "\x7b\x7d".toList = '\x7b' :: ['\x7d'] := rfl
    obtain ⟨rfl, -⟩ | ⟨ps, -, hm⟩ := hv.brace hskip
    · rfl
    · obtain ⟨l, hl⟩ := hm.quote
      exact absurd (List.cons.inj hl).1 (by decide)
  · rintro rfl
    exact ⟨[], .emptyObject rfl rfl, rfl⟩

/-- What begins like an object or an array is one, if it is JSON. -/
theorem container_of_looks (hl : looksLikeJson t = true) (h : Denotes t.toList v) : isContainer v = true := by
  obtain ⟨r, hv, -⟩ := h
  simp only [looksLikeJson, Bool.or_eq_true, decide_eq_true_eq] at hl
  rcases hl with hl | hl
  · obtain ⟨l, hl⟩ := List.head?_eq_some_iff.mp hl
    rw [hl] at hv
    obtain ⟨rfl, -⟩ | ⟨ps, rfl, -⟩ := hv.brace (skipWs_cons (by decide))
    · rfl
    · rfl
  · obtain ⟨l, hl⟩ := List.head?_eq_some_iff.mp hl
    rw [hl] at hv
    obtain ⟨vs, rfl⟩ := hv.bracket (skipWs_cons (by decide))
    rfl

theorem storable_plain {l : List Char} (h : ∀ a ∈ l, plain a = true) : textStorable (l.map .char) = true := by
  simp only [textStorable, List.all_map, List.all_eq_true]
  intro a ha
  have := h a ha
  simp only [Function.comp_apply, decide_eq_true_eq]
  rintro rfl
  exact absurd this (by decide)

/-- The text is put between the two pieces, and nothing in it needs an escape. -/
theorem casts_value (h : ∀ a ∈ t.toList, plain a = true) (hfits : P.fits (valueObject t) = true) :
    Casts P ("\x7b\"value\": \"" ++ t ++ "\"\x7d") (valueObject t) := by
  refine ⟨?_, ?_, hfits⟩
  · rw [toList_value]
    exact denotes_wrapped plain_value h
  · have hname := storable_plain plain_value
    have ht := storable_plain h
    simp only [valueObject, storable, storableMembers, Text.ofString, hname, ht, Bool.and_self]

theorem preserved_emptied {x : Option String} (h : Emptied c x) : Preserved P c x := by
  constructor
  · exact ⟨_, (converts_emptied h).mpr ⟨_, rfl, denotes_empty.mpr rfl, rfl, P.fits_empty⟩⟩
  · intro y hy
    obtain ⟨v, rfl, hv, -⟩ := (converts_emptied h).mp hy
    exact .emptied h (denotes_empty.mp hv ▸ .refl _)

theorem preserved_json (h : ¬ Emptied c (some t)) (hl : looksLikeJson t = true) (hv : Casts P t v) :
    Preserved P c (some t) := by
  constructor
  · exact ⟨_, (converts_json h hl).mpr ⟨v, rfl, hv⟩⟩
  · intro y hy
    obtain ⟨w, rfl, hw, -⟩ := (converts_json h hl).mp hy
    exact .json h hw (container_of_looks hl hw) (.refl w)

theorem preserved_text (h : ¬ Emptied c (some t)) (hl : looksLikeJson t = false) (hj : ¬ IsJson t)
    (hp : ∀ a ∈ t.toList, plain a = true) (hfits : P.fits (valueObject t) = true) : Preserved P c (some t) := by
  constructor
  · exact ⟨_, (converts_text h hl).mpr ⟨_, rfl, casts_value hp hfits⟩⟩
  · intro y hy
    obtain ⟨w, rfl, hw, -⟩ := (converts_text h hl).mp hy
    rw [toList_value] at hw
    refine .text h hj ?_
    rw [wrapped_unique plain_value hp hw]
    exact .refl _

theorem text_of_preserved (h : ¬ Emptied c (some t)) (hl : looksLikeJson t = false) (hp : Preserved P c (some t)) :
    ¬ IsJson t ∧ (∀ a ∈ t.toList, plain a = true) ∧ P.fits (valueObject t) = true := by
  obtain ⟨⟨y, hy⟩, hkept⟩ := hp
  have hk := hkept y hy
  obtain ⟨v, rfl, hv, -, hfits⟩ := (converts_text h hl).mp hy
  rw [toList_value] at hv
  cases hk with
  | emptied he => exact absurd he h
  | json _ hw _ hs => exact absurd hs (not_same_wrapped plain_value ⟨'v', by decide, by decide⟩ hw hv)
  | text _ hj hs =>
    obtain ⟨rfl, hplain⟩ := plain_of_wrapped plain_value hv hs
    exact ⟨hj, hplain, hfits⟩

end

/-- The expression preserves the texts with which it can deal, and no others. -/
theorem preserved_iff (P : Capacity) (c : Column) (x : Option String) : Preserved P c x ↔ Convertible P c x := by
  by_cases he : Emptied c x
  · exact ⟨fun _ => .emptied he, fun _ => preserved_emptied he⟩
  · cases x with
    | none =>
      have hc : c ≠ .parameters := fun h => he ⟨h, .inl rfl⟩
      refine ⟨fun _ => .null, fun _ => ⟨⟨none, ?_⟩, fun y hy => ?_⟩⟩
      · simp [Converts, usingText, hc]
      · simp only [Converts, usingText, if_neg hc] at hy
        subst hy
        exact .null he
    | some t =>
      cases hl : looksLikeJson t with
      | true =>
        constructor
        · rintro ⟨⟨y, hy⟩, -⟩
          obtain ⟨v, -, hv⟩ := (converts_json he hl).mp hy
          exact .json hl hv
        · intro h
          cases h with
          | emptied h => exact absurd h he
          | json _ hv => exact preserved_json he hl hv
          | text hno => exact absurd (hl.symm.trans hno) (by decide)
      | false =>
        constructor
        · intro h
          obtain ⟨hj, hp, hfits⟩ := text_of_preserved he hl h
          exact .text hl hj hp hfits
        · intro h
          cases h with
          | emptied h => exact absurd h he
          | json hyes => exact absurd (hl.symm.trans hyes) (by decide)
          | text _ hj hp hfits => exact preserved_text he hl hj hp hfits

/-- `str` of a dictionary has apostrophes around its strings, and the whole migration is aborted. -/
theorem printed_dict_aborts : ¬ Preserved ⟨fun _ => true, rfl⟩ .stateEventMetadata (some "\x7b'a': 1\x7d") := by
  rintro ⟨⟨y, hy⟩, -⟩
  obtain ⟨v, -, ⟨r, hv, -⟩, -⟩ := (converts_json (by simp [Emptied]) (by decide)).mp hy
  have hskip : skipWs "\x7b'a': 1\x7d".toList = '\x7b' :: "'a': 1\x7d".toList := rfl
  obtain ⟨-, h⟩ | ⟨ps, -, hm⟩ := hv.brace hskip
  · exact absurd (List.cons.inj h).1 (by decide)
  · obtain ⟨l, hl⟩ := hm.quote
    exact absurd (List.cons.inj hl).1 (by decide)

end Veyaan.Migration
