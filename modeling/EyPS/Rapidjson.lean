/-
`external/rapidjson`, as far as the login handlers use it: values, and the
access `doc.FindMember(name)->value.GetX()` to a member.

Neither step of an access checks anything but by an assertion: `FindMember`
wants an object, the iterator it returns for an absent name points past the
members, and each getter wants its type. What an access runs into there is its
`Misuse`.
-/
import EyPS.Account

namespace EyPS

/-- A `rapidjson::Value`. Of a number only whether it is an `int` matters. -/
inductive Json
  | null
  | bool (b : Bool)
  | int (i : Int32)
  | number
  | string (str : Bytes)
  | array (elements : List Json)
  | object (members : List (Bytes × Json))

inductive Misuse
  /-- `FindMember` of a value that is no object -/
  | notObject
  /-- `MemberEnd()->value` -/
  | memberEnd
  /-- a getter on a value of another type -/
  | wrongType
  deriving DecidableEq

namespace Json

/-- `FindMember(name)->value`: of the members of this name the first. -/
def findMember (doc : Json) (name : String) : Except Misuse Json :=
  match doc with
  | .object members =>
    match members.find? (·.1 = name.toUTF8.toList) with
    | some member => .ok member.2
    | none => .error .memberEnd
  | _ => .error .notObject

/-- What `GetString` is for: the `const char *` it returns is read as a C string. -/
def asString : Json → Option CStr
  | .string str => some (.ofBytes str)
  | _ => none

/-- What `GetBool` is for. -/
def asBool : Json → Option Bool
  | .bool b => some b
  | _ => none

/-- What `GetInt` is for. -/
def asInt : Json → Option Int32
  | .int i => some i
  | _ => none

variable {α : Type}

/-- A getter. -/
def get (value : Json) (as : Json → Option α) : Except Misuse α :=
  match as value with
  | some a => .ok a
  | none => .error .wrongType

/-- `FindMember(name)->value.GetX()`. -/
def getMember (doc : Json) (name : String) (as : Json → Option α) : Except Misuse α := do
  let value ← doc.findMember name
  value.get as

/-- The value is an object, and has a member of this name and type. -/
def HasMember (doc : Json) (name : String) (as : Json → Option α) (a : α) : Prop :=
  ∃ members value, doc = .object members ∧ members.find? (·.1 = name.toUTF8.toList) = some (name.toUTF8.toList, value) ∧
    as value = some a

theorem findMember_eq_ok {doc value : Json} {name : String} : doc.findMember name = .ok value ↔
    ∃ members, doc = .object members ∧
      members.find? (·.1 = name.toUTF8.toList) = some (name.toUTF8.toList, value) := by
  cases doc with
  | object members =>
    simp only [findMember, Json.object.injEq, exists_eq_left']
    cases h : members.find? (·.1 = name.toUTF8.toList) with
    | none => simp
    | some member =>
      have hname : member.1 = name.toUTF8.toList := by simpa using List.find?_some h
      obtain ⟨n, v⟩ := member
      dsimp only at hname
      simp [hname]
  | null | bool | int | number | string | array => simp [findMember]

theorem get_eq_ok {value : Json} {as : Json → Option α} {a : α} : value.get as = .ok a ↔ as value = some a := by
  unfold get
  cases as value <;> simp

/-- **An access is no misuse** exactly on an object with a member of the type. -/
theorem getMember_eq_ok {doc : Json} {name : String} {as : Json → Option α} {a : α} :
    doc.getMember name as = .ok a ↔ doc.HasMember name as a := by
  rw [getMember, bind_eq_ok, HasMember]
  constructor
  · intro h
    obtain ⟨value, hfind, hget⟩ := h
    obtain ⟨members, hdoc, hmember⟩ := findMember_eq_ok.mp hfind
    exact ⟨members, value, hdoc, hmember, get_eq_ok.mp hget⟩
  · intro h
    obtain ⟨members, value, hdoc, hmember, has⟩ := h
    exact ⟨value, findMember_eq_ok.mpr ⟨members, hdoc, hmember⟩, get_eq_ok.mpr has⟩

end Json

end EyPS
