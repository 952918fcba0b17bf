import HandlingModule.AIO.StdMap
import HandlingModule.Lib.Binary

/-!
# What the module uses of `json.hpp`

Values, `operator[]` on a value that is not constant, and the conversions the
handlers rely on. `operator[]` writes: it turns `null` into an object and adds
`null` for a key that is missing, so it returns the value it leaves behind too.
Everything else that could go wrong throws `std::domain_error`.

The text parser is a parameter wherever it is used.
-/

namespace HandlingModule.AIO

/-- A JSON value. The numbers are kept in the three forms the parser makes of them. -/
inductive Json where
  | null
  | boolean (b : Bool)
  | string (s : String)
  | integer (n : Int64)
  | unsigned (n : UInt64)
  | float (bits : UInt64)
  | array (elements : List Json)
  | object (members : List (String × Json))

/-- What the library throws. -/
inductive Exn where
  | invalidArgument
  | domainError (what : String)
  deriving DecidableEq

namespace Json

/-- `type_name` -/
def typeName : Json → String
  | null => "null"
  | object _ => "object"
  | array _ => "array"
  | string _ => "string"
  | boolean _ => "boolean"
  | integer _ | unsigned _ | float _ => "number"

/-- `operator[]` with a key: the element, and the value with the key in it. -/
def index (j : Json) (key : String) : Except Exn (Json × Json) :=
  match j with
  -- a `null` becomes an object
  | null => .ok (null, object [(key, null)])
  | object members =>
      match members.lookup key with
      | some v => .ok (v, object members)
      -- a missing key is added
      | none => .ok (null, object (assign members key null))
  | j => .error (.domainError ("cannot use operator[] with " ++ j.typeName))

/-- The conversion to `std::string`. -/
def toStr : Json → Except Exn String
  | string s => .ok s
  | j => .error (.domainError ("type must be string, but is " ++ j.typeName))

/-- The conversion to `long`, 64 bits wide on the host; the target saturates where C does not say. -/
def toLong : Json → Except Exn Int64
  | integer n => .ok n
  | unsigned n => .ok n.toInt64
  | float bits => .ok (Int64.ofInt (Binary.truncSat bits))
  | j => .error (.domainError ("type must be number, but is " ++ j.typeName))

/-- The conversion to `int`, 32 bits wide: the low bits of an integer, and a float saturates. -/
def toInt : Json → Except Exn Int32
  | integer n => .ok n.toInt32
  | unsigned n => .ok n.toInt64.toInt32
  | float bits => .ok (Int32.ofIntClamp (Binary.truncSat bits))
  | j => .error (.domainError ("type must be number, but is " ++ j.typeName))

/-- The member under a key, `null` if there is none. -/
def member : Json → String → Json
  | object members, key => (members.lookup key).getD null
  | _, _ => null

/-- A value `operator[]` takes a key of. -/
def Indexable : Json → Prop
  | null | object _ => True
  | _ => False

/-! ## `operator[]` -/

theorem lookup_assign_null {members : List (String × Json)} {key : String}
    (h : members.lookup key = none) (k : String) :
    ((assign members key null).lookup k).getD null = (members.lookup k).getD null := by
  rw [lookup_assign]
  by_cases hk : k = key
  · rw [if_pos hk, hk, h]
    rfl
  · rw [if_neg hk]

/-- `operator[]` gives the member, and changes no member. -/
theorem index_spec {j v j' : Json} {key : String} (h : j.index key = .ok (v, j')) :
    v = j.member key ∧ (∃ members, j' = object members) ∧ ∀ k, j'.member k = j.member k := by
  unfold index at h
  split at h
  · obtain ⟨rfl, rfl⟩ := Prod.mk.inj (Except.ok.inj h)
    refine ⟨rfl, ⟨_, rfl⟩, ?_⟩
    intro k
    have hnone : ([] : List (String × Json)).lookup key = none := rfl
    exact lookup_assign_null hnone k
  · rename_i members
    split at h
    · rename_i v0 hv
      obtain ⟨rfl, rfl⟩ := Prod.mk.inj (Except.ok.inj h)
      refine ⟨?_, ⟨_, rfl⟩, fun k => rfl⟩
      rw [member, hv]; rfl
    · rename_i hv
      obtain ⟨rfl, rfl⟩ := Prod.mk.inj (Except.ok.inj h)
      refine ⟨?_, ⟨_, rfl⟩, ?_⟩
      · rw [member, hv]; rfl
      · intro k
        exact lookup_assign_null hv k
  · exact absurd h (by simp)

/-- Only a string converts to one. -/
theorem toStr_ok {j : Json} {s : String} (h : j.toStr = .ok s) : j = string s := by
  cases j with
  | string t => rw [Except.ok.inj h]
  | null => exact absurd h (by simp [toStr])
  | boolean b => exact absurd h (by simp [toStr])
  | integer n => exact absurd h (by simp [toStr])
  | unsigned n => exact absurd h (by simp [toStr])
  | float bits => exact absurd h (by simp [toStr])
  | array elements => exact absurd h (by simp [toStr])
  | object members => exact absurd h (by simp [toStr])

theorem toStr_error {j : Json} {e : Exn} (h : j.toStr = .error e) (s : String) : j ≠ string s := by
  intro hj
  rw [hj] at h
  exact absurd h (by simp [toStr])

/-- Only an object has a member that is not `null`. -/
theorem indexable_of_member {j v : Json} {key : String} (h : j.member key = v) (hv : v ≠ null) :
    j.Indexable := by
  cases j with
  | object members => trivial
  | null => trivial
  | boolean b => exact absurd h.symm hv
  | string t => exact absurd h.symm hv
  | integer n => exact absurd h.symm hv
  | unsigned n => exact absurd h.symm hv
  | float bits => exact absurd h.symm hv
  | array elements => exact absurd h.symm hv

/-- `operator[]` throws exactly on the values that are neither objects nor `null`. -/
theorem index_isOk {j : Json} {key : String} :
    (∃ v j', j.index key = .ok (v, j')) ↔ j.Indexable := by
  cases j with
  | null => exact ⟨fun _ => trivial, fun _ => ⟨_, _, rfl⟩⟩
  | object members =>
      refine ⟨fun _ => trivial, fun _ => ?_⟩
      cases h : members.lookup key with
      | none => exact ⟨null, object (assign members key null), by simp only [index, h]⟩
      | some v => exact ⟨v, object members, by simp only [index, h]⟩
  | boolean b => simp [index, Indexable]
  | string s => simp [index, Indexable]
  | integer n => simp [index, Indexable]
  | unsigned n => simp [index, Indexable]
  | float bits => simp [index, Indexable]
  | array elements => simp [index, Indexable]

theorem index_error {j : Json} {key : String} {e : Exn} (h : j.index key = .error e) :
    ¬ j.Indexable := by
  intro hj
  obtain ⟨v, j', hok⟩ := (index_isOk.mpr hj : ∃ v j', j.index key = .ok (v, j'))
  rw [h] at hok
  exact absurd hok (by simp)

end Json

end HandlingModule.AIO
