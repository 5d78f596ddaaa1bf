import PiqoServer.Library.SortedMap

/-!
# JSON values

`serde_json::Value` as the server uses it. An object is the list of its fields in key order,
which is how `serde_json::Map` iterates without the `preserve_order` feature; a floating point
number is kept as the text that denotes it.

## Main definitions

* `Json`: JSON values, with decidable equality
* `Json.get`, `Json.asObject?`, `Json.asStr?`, `Json.asBool?`: the accessors of `Value`
* `Json.object`: an object from fields in any order, a later field replacing an earlier one
* `Json.orInsert`: the `entry(..).or_insert(..)` of a map
* `Json.render`: the text of a value, as `to_string` and `to_vec` write it
-/

namespace Piqo

/-- `serde_json::Value`. -/
inductive Json where
  | null
  | bool (b : Bool)
  | num (n : Int)
  | float (digits : String)
  | str (s : String)
  | arr (items : List Json)
  | obj (fields : List (String × Json))
  deriving Inhabited

namespace Json

mutual

/-- Equality of values is decided structurally. -/
def decEq : (a b : Json) → Decidable (a = b)
  | null, null => isTrue rfl
  | bool a, bool b => decidable_of_iff (a = b) (by simp)
  | num a, num b => decidable_of_iff (a = b) (by simp)
  | float a, float b => decidable_of_iff (a = b) (by simp)
  | str a, str b => decidable_of_iff (a = b) (by simp)
  | arr a, arr b =>
    match decEqItems a b with
    | isTrue h => isTrue (by rw [h])
    | isFalse h => isFalse (by simpa using h)
  | obj a, obj b =>
    match decEqFields a b with
    | isTrue h => isTrue (by rw [h])
    | isFalse h => isFalse (by simpa using h)
  | null, bool _ | null, num _ | null, float _ | null, str _ | null, arr _ | null, obj _
  | bool _, null | bool _, num _ | bool _, float _ | bool _, str _ | bool _, arr _
  | bool _, obj _ | num _, null | num _, bool _ | num _, float _ | num _, str _ | num _, arr _
  | num _, obj _ | float _, null | float _, bool _ | float _, num _ | float _, str _
  | float _, arr _ | float _, obj _ | str _, null | str _, bool _ | str _, num _
  | str _, float _ | str _, arr _ | str _, obj _ | arr _, null | arr _, bool _ | arr _, num _
  | arr _, float _ | arr _, str _ | arr _, obj _ | obj _, null | obj _, bool _ | obj _, num _
  | obj _, float _ | obj _, str _ | obj _, arr _ => isFalse (by simp)

/-- Equality of arrays. -/
def decEqItems : (a b : List Json) → Decidable (a = b)
  | [], [] => isTrue rfl
  | [], _ :: _ => isFalse (by simp)
  | _ :: _, [] => isFalse (by simp)
  | x :: xs, y :: ys =>
    match decEq x y, decEqItems xs ys with
    | isTrue h, isTrue hs => isTrue (by rw [h, hs])
    | isFalse h, _ => isFalse (by simp [h])
    | _, isFalse hs => isFalse (by simp [hs])

/-- Equality of field lists. -/
def decEqFields : (a b : List (String × Json)) → Decidable (a = b)
  | [], [] => isTrue rfl
  | [], _ :: _ => isFalse (by simp)
  | _ :: _, [] => isFalse (by simp)
  | (k, x) :: xs, (l, y) :: ys =>
    match decEq x y, decEqFields xs ys with
    | isTrue h, isTrue hs =>
      decidable_of_iff (k = l) (by simp [h, hs])
    | isFalse h, _ => isFalse (by simp [h])
    | _, isFalse hs => isFalse (by simp [hs])

end

instance : DecidableEq Json := decEq

/-- `Value::is_null`. -/
def isNull : Json → Bool
  | null => true
  | _ => false

/-- `Value::as_object`. -/
def asObject? : Json → Option (List (String × Json))
  | obj fields => some fields
  | _ => none

/-- `Value::as_str`. -/
def asStr? : Json → Option String
  | str s => some s
  | _ => none

/-- `Value::as_bool`. -/
def asBool? : Json → Option Bool
  | bool b => some b
  | _ => none

/-- `Value::get` with a string index: the field of an object. -/
def get (v : Json) (key : String) : Option Json :=
  v.asObject?.bind (SortedMap.lookup key)

/-- An object from fields in any order; a later field replaces an earlier one. -/
def object (fields : List (String × Json)) : Json :=
  obj (fields.foldl (fun fs f => SortedMap.insertEntry f.1 f.2 fs) [])

theorem get_object (fields : List (String × Json)) (key : String) :
    (object fields).get key = SortedMap.lookup key fields.reverse := by
  have hfold : ∀ (fs acc : List (String × Json)), SortedMap.lookup key
      (fs.foldl (fun fs f => SortedMap.insertEntry f.1 f.2 fs) acc) =
        SortedMap.lookup key (fs.reverse ++ acc) := by
    intro fs
    induction fs with
    | nil => exact fun acc => rfl
    | cons f fs ih =>
      intro acc
      rw [List.foldl_cons, ih, List.reverse_cons, List.append_assoc]
      -- the field just inserted is the first one to be found behind the later ones
      induction fs.reverse with
      | nil => rw [List.nil_append, SortedMap.lookup_insertEntry]; rfl
      | cons g gs ihg => simp only [List.cons_append, SortedMap.lookup, ihg]
  have h := hfold fields []
  rwa [List.append_nil] at h

/-- `Map::entry(key).or_insert(value)`. -/
def orInsert (key : String) (value : Json) (fields : List (String × Json)) :
    List (String × Json) :=
  if (SortedMap.lookup key fields).isSome then fields
  else SortedMap.insertEntry key value fields

theorem lookup_orInsert (key key' : String) (value : Json) (fields : List (String × Json)) :
    SortedMap.lookup key' (orInsert key value fields) =
      if key' = key then some ((SortedMap.lookup key fields).getD value)
      else SortedMap.lookup key' fields := by
  unfold orInsert
  split
  · next h =>
    obtain ⟨v, hv⟩ := Option.isSome_iff_exists.mp h
    split
    · next hk => rw [hk, hv]; rfl
    · rfl
  · next h =>
    rw [Bool.not_eq_true, Option.isSome_eq_false_iff, Option.isNone_iff_eq_none] at h
    rw [SortedMap.lookup_insertEntry, h]
    rfl

/-! ## Pointers -/

/-- `Value::as_u64`. -/
def asU64? : Json → Option Nat
  | num n => if 0 ≤ n ∧ n ≤ 18446744073709551615 then some n.toNat else none
  | _ => none

/-- The tokens of a JSON pointer: behind each slash, with `~1` for a slash and `~0` for a tilde. -/
def pointerTokens (pointer : String) : List String :=
  (pointer.splitOn "/").tail.map fun token => (token.replace "~1" "/").replace "~0" "~"

/-- An index of an array: a number without sign and without leading zero. -/
def parseIndex (token : String) : Option Nat :=
  if token.startsWith "+" ∨ (token.startsWith "0" ∧ token.length ≠ 1) then none else token.toNat?

/-- `Value::pointer`. -/
def pointer (v : Json) (pointer : String) : Option Json :=
  if pointer.isEmpty then some v
  else if !pointer.startsWith "/" then none
  else (pointerTokens pointer).foldlM (fun v token => match v with
    | obj fields => SortedMap.lookup token fields
    | arr items => (parseIndex token).bind (items[·]?)
    | _ => none) v

/-! ## Text -/

/-- A character of a string as serde_json writes it. -/
def escape (c : Char) : String :=
  match c.toNat with
  | 0x08 => "\\b"
  | 0x09 => "\\t"
  | 0x0a => "\\n"
  | 0x0c => "\\f"
  | 0x0d => "\\r"
  | 0x22 => "\\\""
  | 0x5c => "\\\\"
  | n =>
    if n < 0x20 then
      "\\u00" ++ (if n < 0x10 then "0" else "1") ++ String.singleton (Nat.digitChar (n % 16))
    else String.singleton c

def renderString (s : String) : String :=
  "\"" ++ String.join (s.toList.map escape) ++ "\""

mutual

/-- The compact text of a value. -/
def render : Json → String
  | null => "null"
  | bool b => if b then "true" else "false"
  | num n => toString n
  | float digits => digits
  | str s => renderString s
  | arr items => "[" ++ ",".intercalate (renderItems items) ++ "]"
  | obj fields => "\x7b" ++ ",".intercalate (renderFields fields) ++ "\x7d"

def renderItems : List Json → List String
  | [] => []
  | v :: vs => render v :: renderItems vs

def renderFields : List (String × Json) → List String
  | [] => []
  | (k, v) :: fs => (renderString k ++ ":" ++ render v) :: renderFields fs

end

/-- The length of `serde_json::to_vec`. -/
def size (v : Json) : Nat := v.render.utf8ByteSize

/-- An optional value; an absent one is `null`. -/
def ofOption : Option Json → Json
  | some v => v
  | none => null

end Json

end Piqo
