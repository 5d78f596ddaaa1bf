import PiqoServer.Library.Utf8

/-!
# Authentication

With a token every route of the API is behind `authenticate_request` (`piqo-server/src/lib.rs`): a
request passes with the header `Authorization: Bearer` and the token. The token is compared in a
time that does not depend on where the texts differ: all differences are collected in one word.

The value of a header is a list of bytes. What is done with it goes over its text, which there is
only for visible ASCII.

## Main definitions

* `constantTimeEqual`: the comparison
* `authenticateRequest`: the middleware

## Main results

* `constantTimeEqual_iff`: the comparison is equality
* `authenticateRequest_iff`: which requests pass
-/

namespace Piqo

open Utf8

/-! ## The comparison -/

/-- The differences of two texts after those collected so far. The shorter one goes on with
zeros. -/
def collectDifferences (left right : List UInt8) (difference : Nat) (indices : List Nat) : Nat :=
  indices.foldl (fun difference index => difference |||
    ((left[index]?.getD 0).toNat ^^^ (right[index]?.getD 0).toNat)) difference

def constantTimeEqual (left right : List UInt8) : Bool :=
  let length := max left.length right.length
  collectDifferences left right (left.length ^^^ right.length) (List.range length) == 0

theorem xor_eq_zero {m n : Nat} : m ^^^ n = 0 ↔ m = n := by
  constructor
  · intro h
    refine Nat.eq_of_testBit_eq fun i => ?_
    have hbit : (m ^^^ n).testBit i = false := by rw [h, Nat.zero_testBit]
    simpa [Nat.testBit_xor] using hbit
  · rintro rfl
    exact Nat.xor_self m

/-- No difference is collected exactly where there is none: nothing that has been collected goes
away again. -/
theorem collectDifferences_eq_zero {left right : List UInt8} {difference : Nat}
    {indices : List Nat} : collectDifferences left right difference indices = 0 ↔
      difference = 0 ∧ ∀ index ∈ indices, left[index]?.getD 0 = right[index]?.getD 0 := by
  induction indices generalizing difference with
  | nil => simp [collectDifferences]
  | cons index indices ih =>
    change collectDifferences left right _ indices = 0 ↔ _
    rw [ih, Nat.or_eq_zero_iff, xor_eq_zero, UInt8.toNat_inj, List.forall_mem_cons,
      and_assoc]

/-- **The comparison is equality.** -/
theorem constantTimeEqual_iff (left right : List UInt8) :
    constantTimeEqual left right = true ↔ left = right := by
  rw [constantTimeEqual, beq_iff_eq, collectDifferences_eq_zero, xor_eq_zero]
  constructor
  · rintro ⟨hlength, hbytes⟩
    refine List.ext_getElem hlength fun index hleft hright => ?_
    have hindex : index ∈ List.range (max left.length right.length) :=
      List.mem_range.mpr (by omega)
    simpa [hleft, hright] using hbytes index hindex
  · rintro rfl
    exact ⟨rfl, fun _ _ => rfl⟩

/-! ## The middleware -/

/-- The headers of a request: names in lower case, and values. -/
abbrev HeaderMap := List (String × List UInt8)

/-- The first value under a name. -/
def HeaderMap.get? (headers : HeaderMap) (name : String) : Option (List UInt8) :=
  (headers.find? (·.1 = name)).map (·.2)

/-- A byte that the text of a header may have. -/
def isVisibleAscii (byte : UInt8) : Bool := (byte ≥ 32 && byte < 127) || byte == 9

/-- `HeaderValue::to_str`. -/
def headerText (value : List UInt8) : Option (List UInt8) :=
  if value.all isVisibleAscii then some value else none

/-- The scheme in front of a token. -/
def bearer : List UInt8 := encode "Bearer ".toList

/-- A request that is turned away. -/
structure Unauthorized where
  status : Nat := 401
  wwwAuthenticate : String := "Bearer"
  code : String := "unauthorized"
  message : String := "a valid bearer token is required"
  deriving DecidableEq

def authorized (headers : HeaderMap) (expected : String) : Bool :=
  (((headers.get? "authorization").bind headerText).bind (bearer.isPrefixOf? ·)).any
    fun candidate => constantTimeEqual candidate (encode expected.toList)

/-- The answer of the routes behind, or that the request is turned away. -/
def authenticateRequest {Answer : Type} (headers : HeaderMap) (next : HeaderMap → Answer)
    (expected : String) : Except Unauthorized Answer :=
  if authorized headers expected then .ok (next headers) else .error {}

theorem headerText_eq_some {value text : List UInt8} :
    headerText value = some text ↔ value = text ∧ ∀ byte ∈ value, isVisibleAscii byte = true := by
  rw [headerText, Option.ite_none_right_eq_some, Option.some_inj, List.all_eq_true, and_comm]

/-- A request is authorized by the first value under the name. -/
theorem authorized_iff (headers : HeaderMap) (expected : String) :
    authorized headers expected = true ↔
      headers.get? "authorization" = some (bearer ++ encode expected.toList) ∧
        ∀ byte ∈ bearer ++ encode expected.toList, isVisibleAscii byte = true := by
  simp only [authorized, Option.any_eq_true, Option.bind_eq_some_iff, headerText_eq_some,
    List.isPrefixOf?_eq_some_iff_append_eq, constantTimeEqual_iff]
  constructor
  · rintro ⟨_, ⟨_, ⟨value, hvalue, rfl, hvisible⟩, rfl⟩, rfl⟩
    exact ⟨hvalue, hvisible⟩
  · rintro ⟨hvalue, hvisible⟩
    exact ⟨_, ⟨_, ⟨_, hvalue, rfl, hvisible⟩, rfl⟩, rfl⟩

/-- **A request passes** exactly when its authorization header is `Bearer` and the expected token,
all of it visible ASCII. -/
theorem authenticateRequest_iff :
    (∀ left right : List UInt8, constantTimeEqual left right = true ↔ left = right) ∧
    ∀ {Answer : Type} (headers : HeaderMap) (next : HeaderMap → Answer) (expected : String),
      authenticateRequest headers next expected = .ok (next headers) ↔
        headers.get? "authorization" = some (bearer ++ encode expected.toList) ∧
          ∀ byte ∈ bearer ++ encode expected.toList, isVisibleAscii byte = true := by
  refine ⟨constantTimeEqual_iff, fun headers next expected => ?_⟩
  rw [← authorized_iff, authenticateRequest]
  split
  · next h => exact iff_of_true rfl h
  · next h => exact iff_of_false (by simp) h

/-- A token that is not ASCII is not accepted. -/
theorem authenticateRequest_refused :
    HeaderMap.get? [("authorization", bearer ++ encode ['é'])] "authorization" =
      some (bearer ++ encode "é".toList) ∧
    authenticateRequest [("authorization", bearer ++ encode ['é'])] (fun _ => ()) "é" =
      .error {} := by
  decide +kernel

end Piqo
