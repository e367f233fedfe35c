import Mathlib.Algebra.Group.Int.Defs
import Mathlib.Data.List.Basic

/-!
# Strings and JSON values of Python

A string of Python is a sequence of code points, and a code point may be a
surrogate that stands alone: `json.loads` makes one of `"\ud800"`. Only a string
without such a surrogate has a UTF-8 form, and only such a string comes out of
one.
-/

namespace Python

/-- A character, or the surrogate `U+D800 + n`. -/
inductive CodePoint where
  | char (c : Char)
  | surrogate (n : Fin 0x800)
  deriving DecidableEq

def CodePoint.char? : CodePoint → Option Char
  | .char c => some c
  | .surrogate _ => none

abbrev Text := List CodePoint

def Text.ofString (s : String) : Text := s.toList.map .char

/-- `t.encode("utf-8")`, as the string whose UTF-8 form it is, or a
`UnicodeEncodeError`. -/
def Text.encode (t : Text) : Option String := (t.mapM CodePoint.char?).map .ofList

/-- `raw.decode("utf-8")`, or a `UnicodeDecodeError`. -/
def decode (raw : ByteArray) : Option String := String.fromUTF8? raw

/-- What `json.loads` returns. -/
inductive Value where
  | none
  | bool (b : Bool)
  | int (n : Int)
  | float (m e : Int)
  | nonFinite (s : String)
  | str (t : Text)
  | list (l : List Value)
  | dict (l : List (Text × Value))

/-- `fields.get(key)`. Of two fields of one name `json.loads` keeps the last. -/
def get (fields : List (Text × Value)) (key : String) : Option Value := fields.reverse.lookup (.ofString key)

namespace Value

def ofString (s : String) : Value := .str (.ofString s)

/-- `bool(value)`. -/
def truthy : Value → Bool
  | .none => false
  | .bool b => b
  | .int n => n != 0
  | .float m _ => m != 0
  | .nonFinite _ => true
  | .str t => !t.isEmpty
  | .list l => !l.isEmpty
  | .dict l => !l.isEmpty

/-- `hash(value)` does not raise. -/
def hashable : Value → Bool
  | .list _ => false
  | .dict _ => false
  | _ => true

def isString (s : String) : Value → Bool
  | .str t => t = .ofString s
  | _ => false

def elements : Value → Option (List Value)
  | .str t => some (t.map fun c => .str [c])
  | .list l => some l
  | .dict l => some (l.map fun field => .str field.1)
  | _ => Option.none

/-- A number as `m * 10 ^ e`; a truth value is one, too. -/
def number : Value → Option (Int × Int)
  | .bool b => some (b.toNat, 0)
  | .int n => some (n, 0)
  | .float m e => some (m, e)
  | _ => Option.none

def sameNumber (a b : Int × Int) : Bool :=
  a.1 * 10 ^ (a.2 - min a.2 b.2).toNat == b.1 * 10 ^ (b.2 - min a.2 b.2).toNat

mutual
def eq : Value → Value → Bool
  | .none, .none => true
  | .nonFinite s, .nonFinite t => s == t && s != "NaN"
  | .str t, .str u => t == u
  | .list l, .list k => eqAll l k
  | .dict l, .dict k => eqFields l k && k.all fun field => (l.lookup field.1).isSome
  | v, w => ((number v).bind fun a => (number w).map (sameNumber a)).getD false
def eqAll : List Value → List Value → Bool
  | [], [] => true
  | v :: l, w :: k => eq v w && eqAll l k
  | _, _ => false
def eqFields : List (Text × Value) → List (Text × Value) → Bool
  | [], _ => true
  | (name, v) :: l, k =>
    ((l.lookup name).isSome || (k.reverse.lookup name).any fun w => eq v w) && eqFields l k
end

end Value

/-! ## UTF-8 -/

@[simp] theorem decode_toUTF8 (s : String) : decode s.toUTF8 = some s := by
  have h : s.toByteArray.IsValidUTF8 := s.isValidUTF8
  unfold decode String.fromUTF8?
  rw [String.toUTF8_eq_toByteArray, dif_pos h]
  rfl

namespace Text

variable {t u : Text} {s : String}

@[simp] theorem encode_nil : encode [] = some "" := rfl

theorem encode_cons (c : CodePoint) (t : Text) :
    encode (c :: t) = c.char?.bind fun a => t.encode.map fun s => .ofList (a :: s.toList) := by
  unfold encode
  rw [List.mapM_cons]
  cases c.char? with
  | none => rfl
  | some a =>
    cases t.mapM CodePoint.char? with
    | none => rfl
    | some l => simp

theorem encode_append (t u : Text) : encode (t ++ u) = t.encode.bind fun a => u.encode.map fun b => a ++ b := by
  induction t with
  | nil => simp
  | cons c t ih =>
    rw [List.cons_append, encode_cons, encode_cons, ih]
    cases c.char? with
    | none => rfl
    | some a =>
      cases encode t with
      | none => rfl
      | some s =>
        cases encode u with
        | none => rfl
        | some r =>
          simp only [Option.bind_some, Option.map_some, Option.some.injEq]
          apply String.toList_injective
          simp

@[simp] theorem encode_ofString (s : String) : encode (ofString s) = some s := by
  have h : ∀ l : List Char, (l.map CodePoint.char).mapM CodePoint.char? = some l := by
    intro l
    induction l with
    | nil => rfl
    | cons c l ih => simp [ih, CodePoint.char?]
  simp [encode, ofString, h]

theorem eq_ofString (h : t.encode = some s) : t = ofString s := by
  induction t generalizing s with
  | nil =>
    cases h
    rfl
  | cons c t ih =>
    rw [encode_cons] at h
    cases c with
    | surrogate n => simp [CodePoint.char?] at h
    | char a =>
      simp only [CodePoint.char?, Option.bind_some, Option.map_eq_some_iff] at h
      obtain ⟨r, hr, rfl⟩ := h
      rw [ih hr]
      simp [ofString]

theorem ofString_inj {r : String} (h : ofString r = ofString s) : r = s := by
  have := congrArg encode h
  simpa using this

end Text

namespace Value

@[simp] theorem isString_ofString (s : String) : (ofString s).isString s = true := by
  simp [ofString, isString]

theorem eq_ofString {v : Value} {s : String} (h : v.isString s = true) : v = ofString s := by
  cases v with
  | str t => exact congrArg Value.str (by simpa [isString] using h)
  | none | bool | int | float | nonFinite | list | dict => cases h

end Value

end Python
