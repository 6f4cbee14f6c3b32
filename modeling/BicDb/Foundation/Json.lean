import BicDb.Foundation.OrderedMap
import BicDb.Foundation.PrefixCode
import Mathlib.Data.String.Basic

/-!
# JSON values

Numbers are the text they were written in, an object its fields in the order of their names.
`wellFormed` says at every depth that names occur once and sizes are bounded.
-/

namespace BicDb.Foundation

open List

/-- A JSON value; numbers are kept as text. -/
inductive Json where
  | null
  | bool (value : Bool)
  | number (text : String)
  | string (text : String)
  | array (elements : List Json)
  | object (fields : List (String × Json))

namespace Json

def isObject : Json → Bool
  | object _ => true
  | _ => false

/-! ## Fields of objects -/

def field? (fields : List (String × Json)) (name : String) : Option Json :=
  (fields.find? fun field => field.1 = name).map (·.2)

def insertField (fields : List (String × Json)) (name : String) (value : Json) :
    List (String × Json) :=
  OrderedMap.insertInto name value fields

def eraseField (fields : List (String × Json)) (name : String) : List (String × Json) :=
  fields.filter fun field => field.1 ≠ name

/-- `Value::get` with a name. -/
def get? (value : Json) (name : String) : Option Json :=
  match value with
  | object fields => field? fields name
  | _ => none

def asStr? : Json → Option String
  | string text => some text
  | _ => none

theorem eraseField_insertField (fields : List (String × Json)) (name : String) (value : Json) :
    eraseField (insertField fields name value) name = eraseField fields name := by
  induction fields with
  | nil => simp [insertField, eraseField, OrderedMap.insertInto]
  | cons field rest ih =>
    simp only [insertField, eraseField, OrderedMap.insertInto] at ih ⊢
    split_ifs with hlt heq
    · simp
    · simp [heq]
    · rw [filter_cons, filter_cons, ih]

theorem eraseField_of_absent {fields : List (String × Json)} {name : String}
    (h : field? fields name = none) : eraseField fields name = fields := by
  rw [field?, Option.map_eq_none_iff, find?_eq_none] at h
  apply filter_eq_self.2
  intro field hfield
  simpa using h field hfield

/-! ## The length of the text -/

/-- The bytes a character takes in a string: quotes, backslashes and control characters are
escaped. -/
def escapedLen (c : Char) : Nat :=
  if c.toNat = 34 ∨ c.toNat = 92 ∨ c.toNat ∈ [8, 9, 10, 12, 13] then 2
  else if c.toNat < 32 then 6
  else c.utf8Size

/-- The bytes of a string with its quotes. -/
def stringLen (text : String) : Nat := 2 + (text.toList.map escapedLen).sum

mutual

/-- The bytes of a value without blanks. -/
def textLen : Json → Nat
  | null => 4
  | bool value => if value then 4 else 5
  | number text => (utf8 text).length
  | string text => stringLen text
  | array elements => 2 + elementsLen elements
  | object fields => 2 + fieldsLen fields

/-- The elements of an array, with the commas between them. -/
def elementsLen : List Json → Nat
  | [] => 0
  | value :: rest => value.textLen + min rest.length 1 + elementsLen rest

/-- The fields of an object, with the colons and commas. -/
def fieldsLen : List (String × Json) → Nat
  | [] => 0
  | (name, value) :: rest =>
    stringLen name + 1 + value.textLen + min rest.length 1 + fieldsLen rest

end

/-! ## Values that are well formed -/

/-- The bound on lengths. -/
def lengthLimit : Nat := 256 ^ 8

/-- The length fits its prefix. -/
def textFits (text : String) : Bool := decide ((utf8 text).length < lengthLimit)

mutual

/-- Lengths fit, and fields are in the order of their names. -/
def wellFormed : Json → Bool
  | null => true
  | bool _ => true
  | number text => textFits text
  | string text => textFits text
  | array elements => decide (elements.length < lengthLimit) && allWellFormed elements
  | object fields =>
    decide (fields.length < lengthLimit) &&
      decide (fields.Pairwise fun field field' => field.1 < field'.1) && fieldsWellFormed fields

def allWellFormed : List Json → Bool
  | [] => true
  | value :: rest => value.wellFormed && allWellFormed rest

def fieldsWellFormed : List (String × Json) → Bool
  | [] => true
  | (name, value) :: rest => textFits name && value.wellFormed && fieldsWellFormed rest

end

theorem allWellFormed_iff {elements : List Json} :
    allWellFormed elements = true ↔ ∀ value ∈ elements, value.wellFormed = true := by
  induction elements with
  | nil => simp [allWellFormed]
  | cons value rest ih => simp [allWellFormed, ih]

variable {fields : List (String × Json)}

theorem fieldsWellFormed_iff :
    fieldsWellFormed fields = true ↔
      ∀ field ∈ fields, textFits field.1 = true ∧ field.2.wellFormed = true := by
  induction fields with
  | nil => simp [fieldsWellFormed]
  | cons field rest ih =>
    simp only [fieldsWellFormed, Bool.and_eq_true, ih, forall_mem_cons]

theorem wellFormed_array {elements : List Json} (h : (array elements).wellFormed = true) :
    elements.length < lengthLimit ∧ ∀ value ∈ elements, value.wellFormed = true := by
  simpa [wellFormed, allWellFormed_iff] using h

variable (h : (object fields).wellFormed = true)

include h

theorem wellFormed_object :
    fields.length < lengthLimit ∧ fields.Pairwise (fun field field' => field.1 < field'.1) ∧
      ∀ field ∈ fields, textFits field.1 = true ∧ field.2.wellFormed = true := by
  simpa [wellFormed, fieldsWellFormed_iff, and_assoc] using h

theorem wellFormed_eraseField {name : String} :
    (object (eraseField fields name)).wellFormed = true := by
  obtain ⟨hlength, hsorted, hfields⟩ := wellFormed_object h
  have hless : (eraseField fields name).length ≤ fields.length := length_filter_le _ _
  have hkept : fieldsWellFormed (eraseField fields name) = true :=
    fieldsWellFormed_iff.2 fun field hmem => hfields field (mem_of_mem_filter hmem)
  simp only [wellFormed, Bool.and_eq_true, decide_eq_true_eq]
  exact ⟨⟨hless.trans_lt hlength, hsorted.filter _⟩, hkept⟩

theorem wellFormed_field? {name : String} {value : Json}
    (hfield : field? fields name = some value) : value.wellFormed = true := by
  rw [field?, Option.map_eq_some_iff] at hfield
  obtain ⟨field, hfind, rfl⟩ := hfield
  exact ((wellFormed_object h).2.2 field (mem_of_find?_eq_some hfind)).2

end Json

end BicDb.Foundation
