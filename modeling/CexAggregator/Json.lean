import CexAggregator.Book

/-!
# Reading venue documents

The tree the DOM parser returns and the accessors over it. An accessor takes the result
of a lookup, which may have failed. Parsing itself is library code and stays a parameter
of the adapters.
-/

namespace CexAggregator

inductive Json where
  | null
  | bool (b : Bool)
  | int64 (v : Int64)
  | uint64 (v : UInt64)
  | double (bits : UInt64)
  | string (text : String)
  | array (elements : List Json)
  | object (fields : List (String × Json))

abbrev JsonParser := Bytes → Option Json

def parserOf (documents : List (String × Json)) : JsonParser := fun bytes =>
  (documents.find? fun document => utf8 document.1 = bytes).map Prod.snd

theorem parserOf_self (text : String) (root : Json) (documents : List (String × Json)) :
    parserOf ((text, root) :: documents) (utf8 text) = some root := by
  simp [parserOf]

theorem parserOf_of_ne {text : String} {bytes : Bytes} (h : utf8 text ≠ bytes) (root : Json)
    (documents : List (String × Json)) :
    parserOf ((text, root) :: documents) bytes = parserOf documents bytes := by
  simp [parserOf, h]

namespace Json

def field (value : Option Json) (key : String) : Option Json :=
  match value with
  | some (object fields) => (fields.find? fun f => f.1 = key).map Prod.snd
  | _ => none

def getArray : Option Json → Option (List Json)
  | some (array elements) => some elements
  | _ => none

def getBool : Option Json → Option Bool
  | some (bool b) => some b
  | _ => none

def getString : Option Json → Option String
  | some (string text) => some text
  | _ => none

/-- `get_int64`, which also reads an unsigned number that fits. -/
def getInt64 : Json → Option Int
  | int64 v => some v.toInt
  | uint64 v => if (v.toNat : Int) ≤ int64Max then some v.toNat else none
  | _ => none

def scanI64 (negative : Bool) (parsed : Int) : Bytes → Option Int
  | [] => some (if negative then -parsed else parsed)
  | c :: rest =>
    if ¬ isDigit c then none
    else
      let digit := digitValue c
      if parsed > (int64Max - digit) / 10 then
        -- Only the magnitude of the most negative value may exceed the guard.
        if negative ∧ rest = [] ∧ parsed = int64Max / 10 ∧ digit = 8 ∧ int64Max % 10 = 7 then
          some int64Min
        else none
      else scanI64 negative (parsed * 10 + digit) rest

def parseI64 : Bytes → Option Int
  | [] => none
  | [45] => none
  | 45 :: rest => scanI64 true 0 rest
  | text => scanI64 false 0 text

def getI64 (value : Option Json) : Option Int :=
  match value with
  | none => none
  | some element =>
    match element.getInt64 with
    | some v => some v
    | none => (getString (some element)).bind fun text => parseI64 (utf8 text)

def getFixed (value : Option Json) : Option Int :=
  (getString value).bind fun text => parseFixed (utf8 text)

def parseLevel : Json → Option Level
  | array (pxField :: qtyField :: _) =>
    match getFixed (some pxField), getFixed (some qtyField) with
    | some px, some qty => if px ≤ 0 ∨ qty < 0 then none else some ⟨px, qty⟩
    | _, _ => none
  | _ => none

def parseLevels : List Json → Option (List Level)
  | [] => some []
  | entry :: entries =>
    match parseLevel entry, parseLevels entries with
    | some level, some levels => some (level :: levels)
    | _, _ => none

def parseLevelArray (value : Option Json) : Option (List Level) :=
  (getArray value).bind parseLevels

theorem parseLevel_admissible {entry : Json} {l : Level} (h : parseLevel entry = some l) :
    0 < l.px ∧ 0 ≤ l.qty := by
  unfold parseLevel at h
  split at h
  · split at h
    · split_ifs at h with hbad
      cases h
      dsimp only
      omega
    · cases h
  · cases h

theorem parseLevels_admissible {entries : List Json} {levels : List Level}
    (h : parseLevels entries = some levels) : ∀ l ∈ levels, 0 < l.px ∧ 0 ≤ l.qty := by
  induction entries generalizing levels with
  | nil =>
    cases h
    exact fun l hl => (List.not_mem_nil hl).elim
  | cons entry entries ih =>
    unfold parseLevels at h
    split at h
    · rename_i level rest hlevel hrest
      cases h
      exact List.forall_mem_cons.mpr ⟨parseLevel_admissible hlevel, ih hrest⟩
    · cases h

theorem parseLevelArray_admissible {value : Option Json} {levels : List Level}
    (h : parseLevelArray value = some levels) : ∀ l ∈ levels, 0 < l.px ∧ 0 ≤ l.qty := by
  obtain ⟨entries, -, hentries⟩ := Option.bind_eq_some_iff.mp h
  exact parseLevels_admissible hentries

end Json
end CexAggregator
