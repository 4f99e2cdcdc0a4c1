import Brickred.Protocol.HttpMessage

/-!
# Headers that are set and removed (`http_message.cc`, `string_util.cc`)

The keys of a header map are ordered by `CaseInsensitiveLess`, and two keys are one key
exactly if `caseInsensitiveEqual` takes them for equal. So whatever is set and removed, the
map is the function that one expects: the last call for a name decides, in whichever case it
was spelled.
-/

namespace Brickred

open StringUtil (caseInsensitiveLess caseInsensitiveEqual toLower)

namespace HttpMessage

open SortedMap (Equiv)

/-- A call that changes the headers. -/
inductive HeaderCall where
  | setHeader (key value : Bytes)
  | removeHeader (key : Bytes)

namespace HeaderCall

def key : HeaderCall → Bytes
  | setHeader key _ => key
  | removeHeader key => key

/-- What a call leaves under its name. -/
def value? : HeaderCall → Option Bytes
  | setHeader _ value => some value
  | removeHeader _ => none

def apply (m : HttpMessage) : HeaderCall → HttpMessage
  | setHeader key value => m.setHeader key value
  | removeHeader key => m.removeHeader key

end HeaderCall

/-- What the last call for a name has left under it. -/
def lastSet (calls : List HeaderCall) (name : Bytes) : Option Bytes :=
  (calls.reverse.find? fun c => caseInsensitiveEqual c.key name).bind HeaderCall.value?

/-- A message without headers. -/
def bare (m : HttpMessage) : HttpMessage := { m with headers := SortedMap.empty }

variable {a b : Bytes}

/-- Two keys of which neither is less are equal up to case. -/
theorem equiv_iff_equal : Equiv (fun lhs rhs => caseInsensitiveLess lhs rhs = true) a b ↔
    caseInsensitiveEqual a b = true :=
  StringUtil.equiv_iff.trans StringUtil.caseInsensitiveEqual_iff.symm

theorem find_apply (m : HttpMessage) (call : HeaderCall) (name : Bytes) :
    (call.apply m).headers.find name =
      if caseInsensitiveEqual call.key name = true then call.value? else m.headers.find name := by
  cases call with
  | setHeader key value =>
    refine (SortedMap.find_insert m.headers key name value).trans ?_
    by_cases heq : caseInsensitiveEqual key name = true
    · rw [if_pos (equiv_iff_equal.mpr heq)]
      exact (if_pos heq).symm
    · rw [if_neg fun h => heq (equiv_iff_equal.mp h)]
      exact (if_neg heq).symm
  | removeHeader key =>
    refine (SortedMap.find_erase m.headers key name).trans ?_
    by_cases heq : caseInsensitiveEqual key name = true
    · rw [if_pos (equiv_iff_equal.mpr heq)]
      exact (if_pos heq).symm
    · rw [if_neg fun h => heq (equiv_iff_equal.mp h)]
      exact (if_neg heq).symm

theorem lastSet_append (calls : List HeaderCall) (call : HeaderCall) (name : Bytes) :
    lastSet (calls ++ [call]) name =
      if caseInsensitiveEqual call.key name = true then call.value? else lastSet calls name := by
  rw [lastSet, List.reverse_append, List.reverse_singleton, List.singleton_append]
  split
  next heq =>
    rw [List.find?_cons, heq]
    rfl
  next heq =>
    rw [List.find?_cons, Bool.eq_false_iff.mpr heq]
    rfl

/-- The map holds what the calls say. -/
theorem find_calls (m : HttpMessage) (calls : List HeaderCall) (name : Bytes) :
    (calls.foldl HeaderCall.apply m.bare).headers.find name = lastSet calls name := by
  induction calls using List.reverseRecOn with
  | nil => rfl
  | append_singleton calls call ih =>
    rw [List.foldl_append, List.foldl_cons, List.foldl_nil, find_apply, lastSet_append, ih]

/-- No two entries of a header map have one name. -/
theorem pairwise_names (headers : HeaderMap) :
    headers.entries.Pairwise fun e e' => caseInsensitiveEqual e.1 e'.1 = false := by
  refine headers.sorted.imp fun {e e'} hlt => ?_
  by_contra hequal
  exact (equiv_iff_equal.mpr (by simpa using hequal)).1 hlt

/-- The order of the keys, and what it gives of the headers. -/
theorem headers_calls :
    (∀ a, ¬ caseInsensitiveLess a a = true) ∧
      (∀ a b c, caseInsensitiveLess a b = true → caseInsensitiveLess b c = true →
        caseInsensitiveLess a c = true) ∧
      (∀ a b c, (¬ caseInsensitiveLess a b = true ∧ ¬ caseInsensitiveLess b a = true) →
        (¬ caseInsensitiveLess b c = true ∧ ¬ caseInsensitiveLess c b = true) →
        ¬ caseInsensitiveLess a c = true ∧ ¬ caseInsensitiveLess c a = true) ∧
      (∀ a b, (¬ caseInsensitiveLess a b = true ∧ ¬ caseInsensitiveLess b a = true) ↔
        caseInsensitiveEqual a b = true) ∧
      ∀ (m : HttpMessage) (calls : List HeaderCall),
        ((calls.foldl HeaderCall.apply m.bare).headers.entries.Pairwise fun e e' =>
          caseInsensitiveEqual e.1 e'.1 = false) ∧
        ∀ name,
          (calls.foldl HeaderCall.apply m.bare).hasHeader name = (lastSet calls name).isSome ∧
          (calls.foldl HeaderCall.apply m.bare).getHeader name = (lastSet calls name).getD [] := by
  have horder : IsStrictWeakOrder Bytes fun lhs rhs => caseInsensitiveLess lhs rhs = true :=
    inferInstance
  refine ⟨?_, ?_, ?_, fun a b => equiv_iff_equal,
    fun m calls => ⟨pairwise_names _, fun name => ?_⟩⟩
  · intro a
    exact horder.irrefl a
  · intro a b c
    exact horder.trans a b c
  · intro a b c
    exact horder.incomp_trans a b c
  · rw [hasHeader, getHeader, find_calls]
    exact ⟨rfl, rfl⟩

end HttpMessage

end Brickred
