/-
`util/psConfig`: the lookups in the tables of the Lua state that `psconfig.lua` fills.
Lua is outside the repository and is a parameter: its values, what a global or a field
of a table is, and the three tests the lookups make.

A lookup pushes the table and one value for every key. Where the last value has not the
type it asks for it returns there; where it has, it pops one value less than it pushed.
The stack is not bounded here.
-/
import EyPS.Buffer
import EyPS.Runs

namespace EyPS

/-- The Lua state, as far as the lookups see it. -/
structure Lua where
  Value : Type
  /-- what `lua_getglobal` pushes -/
  global : String → Value
  /-- the fields of a table, for `lua_getfield`; nothing else can be indexed -/
  fields : Value → Option (String → Value)
  /-- `lua_tolstring` where `lua_isstring` holds, and the value it leaves in the slot: a
  number is converted in place -/
  toLString : Value → Option (Bytes × Value)
  /-- `lua_tointeger` where `lua_isinteger` holds -/
  toInteger : Value → Option Int64
  /-- `lua_toboolean` where `lua_isboolean` holds -/
  toBoolean : Value → Option Bool

/-- An error that Lua raises; nothing catches it. -/
inductive LuaErr
  /-- attempt to index a value that is no table -/
  | index
  deriving DecidableEq

namespace Lua

variable (L : Lua)

/-- `lua_getfield(L, -1, key)`; the top of the stack is the head of the list. -/
def getfield (stack : List L.Value) (key : String) : Except LuaErr (List L.Value) :=
  match stack.head?.bind L.fields with
  | none => .error .index
  | some field => .ok (field key :: stack)

/-- `lua_pop`. -/
def pop (stack : List L.Value) (n : Nat) : List L.Value := stack.drop n

/-- The value at a path from a value on: none where a value before the last is no table. -/
def follow : L.Value → List String → Option L.Value
  | v, [] => some v
  | v, key :: keys => (L.fields v).bind fun field => follow (field key) keys

end Lua

/-! ## getValFromTable -/

section Lookups

variable (L : Lua)

/-- The routine that the five overloads repeat: `test` is the test of the top of the stack,
the value taken from there, and what is there after. -/
def lookupInTable {α : Type} (test : L.Value → Option (α × L.Value)) (table : String) (val : α)
    (keys : List String) (stack : List L.Value) : Except LuaErr (α × List L.Value) := do
  let stack ← keys.foldlM L.getfield (L.global table :: stack)
  match stack with
  | [] => return (val, [])
  | top :: below =>
    match test top with
    -- the early return: nothing is popped
    | none => return (val, top :: below)
    | some (x, top) => return (x, L.pop (top :: below) keys.length)

/-- `val = lua_tostring(L, -1)`: up to the first zero. -/
def stringTest (v : L.Value) : Option (Bytes × L.Value) :=
  (L.toLString v).map fun x => (x.1.takeWhile (· ≠ 0), x.2)

/-- `getValFromTable(const char*, std::string&, …)` -/
def getStringFromTable := lookupInTable L (stringTest L)

/-- `getValFromTable(const char*, int&, …)` -/
def getIntFromTable := lookupInTable L fun v => (L.toInteger v).map fun i => (i.toInt32, v)

/-- `getValFromTable(const char*, bool&, …)` -/
def getBoolFromTable := lookupInTable L fun v => (L.toBoolean v).map fun b => (b, v)

/-- `getValFromTable(const char*, size_t&, …)`; a `size_t` is given by its value. -/
def getSizeFromTable (P : Platform) := lookupInTable L fun v =>
  (L.toInteger v).map fun i => (i.toUInt64.toNat % 2 ^ P.sizeT, v)

/-- `getValFromTable(const char*, unsigned short&, …)` -/
def getUShortFromTable := lookupInTable L fun v => (L.toInteger v).map fun i => (i.toUInt64.toUInt16, v)

/-- The parameter `val`: its type chooses the overload. -/
inductive ConfigVal
  | string (val : Bytes)
  | int (val : Int32)
  | bool (val : Bool)
  | size (val : Nat)
  | ushort (val : UInt16)
  deriving DecidableEq

/-- `getValFromTable`: `val` after the call, and the stack. -/
def getValFromTable (P : Platform) (table : String) (val : ConfigVal) (keys : List String)
    (stack : List L.Value) : Except LuaErr (ConfigVal × List L.Value) :=
  match val with
  | .string val => return Prod.map .string id (← getStringFromTable L table val keys stack)
  | .int val => return Prod.map .int id (← getIntFromTable L table val keys stack)
  | .bool val => return Prod.map .bool id (← getBoolFromTable L table val keys stack)
  | .size val => return Prod.map .size id (← getSizeFromTable L P table val keys stack)
  | .ushort val => return Prod.map .ushort id (← getUShortFromTable L table val keys stack)

/-- The value of the type that the overload asks for, if this is one. -/
def ConfigVal.typed (P : Platform) (val : ConfigVal) (v : L.Value) : Option ConfigVal :=
  match val with
  | .string _ => (L.toLString v).map fun x => .string (x.1.takeWhile (· ≠ 0))
  | .int _ => (L.toInteger v).map fun i => .int i.toInt32
  | .bool _ => (L.toBoolean v).map .bool
  | .size _ => (L.toInteger v).map fun i => .size (i.toUInt64.toNat % 2 ^ P.sizeT)
  | .ushort _ => (L.toInteger v).map fun i => .ushort i.toUInt64.toUInt16

/-- What a lookup leaves on the stack: the table where it found its type, all that it
pushed where it did not. -/
def leftOver (P : Platform) (val : ConfigVal) (keys : List String) (v : L.Value) : Nat :=
  if (val.typed L P v).isSome then 1 else keys.length + 1

/-- The lookup does what it should: the value found, if it has the type, and the stack as
it was. -/
def Restores (P : Platform) (table : String) (val : ConfigVal) (keys : List String) (v : L.Value)
    (stack : List L.Value) : Prop :=
  getValFromTable L P table val keys stack = .ok ((val.typed L P v).getD val, stack)

variable {L}

/-- One value on the stack for every key, the last at the top. -/
theorem foldlM_getfield {keys : List String} {v₀ v : L.Value} (h : L.follow v₀ keys = some v)
    (stack : List L.Value) : ∃ below, keys.foldlM L.getfield (v₀ :: stack) = .ok (v :: below) ∧
      below.length = stack.length + keys.length := by
  induction keys generalizing v₀ stack with
  | nil =>
    cases h
    exact ⟨stack, rfl, rfl⟩
  | cons key keys ih =>
    obtain ⟨field, hfield, h⟩ := Option.bind_eq_some_iff.mp h
    have hpush : L.getfield (v₀ :: stack) key = .ok (field key :: v₀ :: stack) := by
      simp [Lua.getfield, hfield]
    obtain ⟨below, hfold, hlen⟩ := ih h (v₀ :: stack)
    refine ⟨below, by rw [List.foldlM_cons, hpush]; exact hfold, ?_⟩
    rw [hlen, List.length_cons, List.length_cons]
    omega

/-- The routine: the value of the test, or `val`, and what is left of what was pushed. -/
theorem lookupInTable_eq {α : Type} (test : L.Value → Option (α × L.Value)) {table : String} (val : α)
    {keys : List String} {v : L.Value} (h : L.follow (L.global table) keys = some v) (stack : List L.Value) :
    ∃ out, lookupInTable L test table val keys stack = .ok (((test v).map Prod.fst).getD val, out) ∧
      out.length = stack.length + if (test v).isSome then 1 else keys.length + 1 := by
  obtain ⟨below, hfold, hlen⟩ := foldlM_getfield h stack
  rw [lookupInTable, hfold]
  cases htest : test v with
  | none =>
    refine ⟨v :: below, by simp [bind, Except.bind, pure, Except.pure, htest], ?_⟩
    simp [hlen, Nat.add_assoc]
  | some x =>
    refine ⟨L.pop (x.2 :: below) keys.length, by simp [bind, Except.bind, pure, Except.pure, htest], ?_⟩
    simp only [Lua.pop, List.length_drop, List.length_cons, hlen, Option.isSome_some, if_true]
    omega

/-- Each overload is the routine with its own test. -/
theorem getValFromTable_eq (P : Platform) {table : String} (val : ConfigVal) {keys : List String} {v : L.Value}
    (h : L.follow (L.global table) keys = some v) (stack : List L.Value) :
    ∃ out, getValFromTable L P table val keys stack = .ok ((val.typed L P v).getD val, out) ∧
      out.length = stack.length + leftOver L P val keys v := by
  have hwrap : ∀ {α : Type} (test : L.Value → Option (α × L.Value)) (wrap : α → ConfigVal) (x : α),
      (wrap x).typed L P v = (test v).map (wrap ∘ Prod.fst) →
      ∃ out, (lookupInTable L test table x keys stack >>= fun r => pure (Prod.map wrap id r)) =
          .ok (((wrap x).typed L P v).getD (wrap x), out) ∧
        out.length = stack.length + leftOver L P (wrap x) keys v := by
    intro α test wrap x htyped
    obtain ⟨out, hout, hlen⟩ := lookupInTable_eq test x h stack
    rw [leftOver, htyped, hout]
    refine ⟨out, ?_, ?_⟩
    · cases test v <;> rfl
    · rw [hlen, Option.isSome_map]
  cases val with
  | string s => exact hwrap (stringTest L) .string s (by simp [ConfigVal.typed, stringTest, Function.comp_def])
  | int n => exact hwrap _ .int n (by simp [ConfigVal.typed, Function.comp_def])
  | bool b => exact hwrap _ .bool b (by simp [ConfigVal.typed, Function.comp_def])
  | size n => exact hwrap _ .size n (by simp [ConfigVal.typed, Function.comp_def])
  | ushort n => exact hwrap _ .ushort n (by simp [ConfigVal.typed, Function.comp_def])

theorem leftOver_pos (P : Platform) (val : ConfigVal) (keys : List String) (v : L.Value) :
    0 < leftOver L P val keys v := by
  unfold leftOver
  split <;> omega

/-- No lookup leaves the stack as it was. -/
theorem getValFromTable_not_restores (P : Platform) {table : String} (val : ConfigVal) {keys : List String}
    {v : L.Value} (h : L.follow (L.global table) keys = some v) (stack : List L.Value) :
    ¬ Restores L P table val keys v stack := by
  intro hrestores
  obtain ⟨out, hout, hlen⟩ := getValFromTable_eq P val h stack
  have hpos := leftOver_pos P val keys v
  rw [Restores, hout] at hrestores
  obtain rfl := (Prod.mk.inj (Except.ok.inj hrestores)).2
  omega

end Lookups

/-! ## Runs of lookups -/

/-- A call of `getValFromTable`. -/
structure Lookup where
  table : String
  val : ConfigVal
  keys : List String

/-- The stack after a call, and the value; an error of Lua ends the process. -/
def lookupStep (P : Platform) (L : Lua) (stack : List L.Value) (l : Lookup) : List L.Value × List ConfigVal :=
  match getValFromTable L P l.table l.val l.keys stack with
  | .ok (val, stack) => (stack, [val])
  | .error _ => (stack, [])

/-- Every value on the path but the last is a table. -/
def Lookup.PathOfTables (L : Lua) (l : Lookup) : Prop := (L.follow (L.global l.table) l.keys).isSome = true

/-- The stack grows with every lookup. -/
theorem lookups_height (P : Platform) {L : Lua} {ls : List Lookup} (h : ∀ l ∈ ls, l.PathOfTables L)
    (stack : List L.Value) :
    stack.length + ls.length ≤ (Runs.final (lookupStep P L) stack ls).length := by
  induction ls generalizing stack with
  | nil => exact Nat.le_refl _
  | cons l ls ih =>
    obtain ⟨hl, hls⟩ := List.forall_mem_cons.mp h
    obtain ⟨v, hv⟩ := Option.isSome_iff_exists.mp hl
    obtain ⟨out, hout, hlen⟩ := getValFromTable_eq P l.val hv stack
    have hpos := leftOver_pos P l.val l.keys v
    have hrest := ih hls out
    have hstep : (lookupStep P L stack l).1 = out := by rw [lookupStep, hout]
    rw [Runs.final_cons, hstep, List.length_cons]
    omega

/-- **A lookup leaves the stack higher** than it found it, whatever it finds, and so does
every run of lookups. -/
theorem lookups_never_restore (P : Platform) (L : Lua) :
    (∀ table val keys v stack, L.follow (L.global table) keys = some v →
      ¬ Restores L P table val keys v stack) ∧
    (∀ ls stack, ls ≠ [] → (∀ l ∈ ls, l.PathOfTables L) →
      (Runs.final (lookupStep P L) stack ls).length ≠ stack.length) := by
  refine ⟨fun table val keys v stack h => getValFromTable_not_restores P val h stack, fun ls stack hne h => ?_⟩
  have hheight := lookups_height P h stack
  have hpos := List.length_pos_iff.mpr hne
  omega

/-! ## initCig -/

/-- `Config`, the fields that `initCig` fills. -/
structure PsConfig where
  connectionUri : Bytes
  collection : Bytes
  dispatchAddr : Bytes
  gameAddr : Bytes
  dispatchPort : UInt16
  gamePort : UInt16
  regionName : Bytes
  regionTitle : Bytes
  regionIp : Bytes
  deriving DecidableEq

/-- The fields before: empty strings and zeros. -/
def PsConfig.new : PsConfig := ⟨[], [], [], [], 0, 0, [], [], []⟩

/-- `initCig`, from the stack that `loadFile` leaves. -/
def initCig (L : Lua) (c : PsConfig) (stack : List L.Value) : Except LuaErr (PsConfig × List L.Value) := do
  let (dispatchAddr, stack) ← getStringFromTable L "server" c.dispatchAddr ["dispatch", "bindAddress"] stack
  let (dispatchPort, stack) ← getUShortFromTable L "server" c.dispatchPort ["dispatch", "bindPort"] stack
  let (gameAddr, stack) ← getStringFromTable L "server" c.gameAddr ["game", "bindAddress"] stack
  let (gamePort, stack) ← getUShortFromTable L "server" c.gamePort ["game", "bindPort"] stack
  let (connectionUri, stack) ← getStringFromTable L "databaseInfo" c.connectionUri ["connectionUri"] stack
  let (collection, stack) ← getStringFromTable L "databaseInfo" c.collection ["collection"] stack
  let (regionName, stack) ← getStringFromTable L "RegionInfo" c.regionName ["name"] stack
  let (regionTitle, stack) ← getStringFromTable L "RegionInfo" c.regionTitle ["title"] stack
  let (regionIp, stack) ← getStringFromTable L "RegionInfo" c.regionIp ["ip"] stack
  return (⟨connectionUri, collection, dispatchAddr, gameAddr, dispatchPort, gamePort, regionName, regionTitle,
    regionIp⟩, stack)

/-- A path that was walked to its end goes through tables. -/
theorem follow_of_foldlM {L : Lua} {keys : List String} {v₀ : L.Value} {stack s : List L.Value}
    (h : keys.foldlM L.getfield (v₀ :: stack) = .ok s) : ∃ v, L.follow v₀ keys = some v := by
  induction keys generalizing v₀ stack with
  | nil => exact ⟨v₀, rfl⟩
  | cons key keys ih =>
    rw [List.foldlM_cons] at h
    obtain ⟨pushed, hget, hrest⟩ := bind_eq_ok.mp h
    cases hfield : L.fields v₀ with
    | none => simp [Lua.getfield, hfield] at hget
    | some field =>
      have hpush : L.getfield (v₀ :: stack) key = .ok (field key :: v₀ :: stack) := by
        simp [Lua.getfield, hfield]
      rw [hpush] at hget
      cases hget
      obtain ⟨v, hv⟩ := ih hrest
      exact ⟨v, by rw [Lua.follow, hfield]; exact hv⟩

theorem lookupInTable_height {L : Lua} {α : Type} {test : L.Value → Option (α × L.Value)} {table : String}
    {val : α} {keys : List String} {stack : List L.Value} {r : α × List L.Value}
    (h : lookupInTable L test table val keys stack = .ok r) : stack.length + 1 ≤ r.2.length := by
  obtain ⟨pushed, hfold, -⟩ := bind_eq_ok.mp h
  obtain ⟨v, hv⟩ := follow_of_foldlM hfold
  obtain ⟨out, hout, hlen⟩ := lookupInTable_eq test val hv stack
  rw [hout] at h
  cases h
  rw [hlen]
  split <;> omega

/-- A lookup and what comes after it. -/
theorem bind_height {L : Lua} {α β : Type} {test : L.Value → Option (α × L.Value)} {table : String} {val : α}
    {keys : List String} {stack : List L.Value} {n : Nat} {r : β × List L.Value}
    {f : α × List L.Value → Except LuaErr (β × List L.Value)}
    (h : (lookupInTable L test table val keys stack >>= f) = .ok r)
    (hf : ∀ x, f x = .ok r → x.2.length + n ≤ r.2.length) : stack.length + (n + 1) ≤ r.2.length := by
  obtain ⟨x, hx, h⟩ := bind_eq_ok.mp h
  have hlookup := lookupInTable_height hx
  have hrest := hf x h
  omega

/-- The nine lookups leave nine values or more. -/
theorem initCig_height {L : Lua} {c : PsConfig} {stack : List L.Value} {r : PsConfig × List L.Value}
    (h : initCig L c stack = .ok r) : stack.length + 9 ≤ r.2.length := by
  refine bind_height h fun _ h => ?_
  refine bind_height h fun _ h => ?_
  refine bind_height h fun _ h => ?_
  refine bind_height h fun _ h => ?_
  refine bind_height h fun _ h => ?_
  refine bind_height h fun _ h => ?_
  refine bind_height h fun _ h => ?_
  refine bind_height h fun _ h => ?_
  refine bind_height h fun _ h => ?_
  cases h
  exact Nat.le_refl _

/-! ## The shipped file -/

/-- The values that `psconfig.lua` uses. -/
inductive LuaValue
  | nil
  | integer (i : Int64)
  | string (s : Bytes)
  | table (fields : List (String × LuaValue))

namespace LuaValue

/-- A field by its name; `nil` where there is none. -/
def get (fields : List (String × LuaValue)) (key : String) : LuaValue :=
  ((fields.find? fun field => field.1 = key).map Prod.snd).getD .nil

def fields? : LuaValue → Option (String → LuaValue)
  | .table fields => some (get fields)
  | .nil | .integer _ | .string _ => none

def toLString : LuaValue → Option (Bytes × LuaValue)
  | .string s => some (s, .string s)
  | .integer i => some (i.toInt.repr.toUTF8.toList, .string i.toInt.repr.toUTF8.toList)
  | .nil | .table _ => none

def toInteger : LuaValue → Option Int64
  | .integer i => some i
  | .nil | .string _ | .table _ => none

/-- `127.0.0.1` -/
def localhost : LuaValue := .string [49, 50, 55, 46, 48, 46, 48, 46, 49]

/-- The global `server`. -/
def server : LuaValue := .table
  [("dispatch", .table [("bindAddress", localhost), ("bindPort", .integer 443)]),
    ("game", .table [("bindAddress", localhost), ("bindPort", .integer 22102)])]

end LuaValue

/-- The state after `psconfig.lua`, with its global `server`. -/
def Lua.shipped : Lua where
  Value := LuaValue
  global := LuaValue.get [("server", .server)]
  fields := LuaValue.fields?
  toLString := LuaValue.toLString
  toInteger := LuaValue.toInteger
  toBoolean _ := none

/-- The port is found, and the table `server` stays on the stack; a string that is a
table is not, and both stay. -/
theorem shipped_lookups_leave_stack :
    let P : Platform := ⟨64, 64, .inr rfl, .inr rfl⟩
    Lua.shipped.follow (Lua.shipped.global "server") ["dispatch", "bindPort"] = some (LuaValue.integer 443) ∧
      getValFromTable Lua.shipped P "server" (.ushort 0) ["dispatch", "bindPort"] [] =
        .ok (.ushort 443, [LuaValue.server]) ∧
      (∃ dispatch, getValFromTable Lua.shipped P "server" (.string []) ["dispatch"] [] =
        .ok (.string [], [dispatch, LuaValue.server])) ∧
      ¬ Restores Lua.shipped P "server" (.ushort 0) ["dispatch", "bindPort"] (LuaValue.integer 443) [] := by
  intro P
  have hport : getValFromTable Lua.shipped P "server" (.ushort 0) ["dispatch", "bindPort"] [] =
      .ok (.ushort 443, [LuaValue.server]) := rfl
  refine ⟨rfl, hport, ⟨_, rfl⟩, fun h => ?_⟩
  have hsame := hport.symm.trans h
  exact absurd (Prod.mk.inj (Except.ok.inj hsame)).2 (List.cons_ne_nil _ _)

end EyPS
