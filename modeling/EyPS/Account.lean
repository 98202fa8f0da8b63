/-
`database/Account` and `database/databaseHelper`: the account record, the
operations of MongoDB they are written in, and their programs over these
operations, each operation one atomic step.

Strings that pass through a `const char *` end at their first NUL (`CStr`).
`createToken`'s answers are inputs. The ban fields, which are stored and
never read, and the password, which is neither, are left out.
-/
import EyPS.Atomic
import EyPS.Buffer
import EyPS.Collection
import Mathlib.Data.List.TakeWhile

namespace EyPS

open Collection Atomic

/-! ## Strings -/

/-- The bytes of a C string. -/
structure CStr where
  bytes : Bytes
  no_nul : (0 : UInt8) ∉ bytes
  deriving DecidableEq

namespace CStr

def empty : CStr := ⟨[], by simp⟩

/-- What a `const char *` to these bytes reads. -/
def ofBytes (bytes : Bytes) : CStr where
  bytes := bytes.takeWhile (· ≠ 0)
  no_nul := fun h => by simpa using List.mem_takeWhile_imp h

end CStr

/-- What `createToken` returns: 40 hexadecimal digits, of which only that there
are some is used. -/
structure Token where
  str : CStr
  ne_empty : str ≠ CStr.empty
  deriving DecidableEq

theorem Token.str_injective : Function.Injective Token.str := by
  rintro ⟨s, _⟩ ⟨t, _⟩ h
  cases h
  rfl

/-- `std::to_string` of an `int`. -/
def toString (i : Int32) : Bytes :=
  let digits (n : Nat) : Bytes := (Nat.toDigits 10 n).map fun c => UInt8.ofNat c.toNat
  match i.toInt with
  | .ofNat n => digits n
  | .negSucc n => 0x2D :: digits (n + 1)

/-- A digit as a byte. -/
theorem toNat_digit {c : Char} (h : c.isDigit = true) :
    (UInt8.ofNat c.toNat).toNat = c.toNat ∧ 48 ≤ c.toNat ∧ c.toNat ≤ 57 := by
  simp only [Char.isDigit, Bool.and_eq_true, decide_eq_true_eq, ge_iff_le, UInt32.le_iff_toNat_le] at h
  obtain ⟨hl, hu⟩ := h
  have hl' : 48 ≤ c.toNat := hl
  have hu' : c.toNat ≤ 57 := hu
  refine ⟨?_, hl', hu'⟩
  rw [UInt8.toNat_ofNat']
  omega

theorem digit_ne_zero {c : Char} (h : c.isDigit = true) : UInt8.ofNat c.toNat ≠ 0 := by
  obtain ⟨hc, hl, -⟩ := toNat_digit h
  intro h0
  rw [h0] at hc
  have hc : 0 = c.toNat := hc
  omega

theorem isDigit_of_mem {n : Nat} {c : Char} (hc : c ∈ Nat.toDigits 10 n) : c.isDigit = true :=
  Nat.isDigit_of_mem_toDigits (by decide) (by decide) hc

/-- A number is read back from its digits. -/
theorem digits_injective :
    Function.Injective fun n : Nat => (Nat.toDigits 10 n).map fun c => UInt8.ofNat c.toNat := by
  have hchars : ∀ n : Nat, ((Nat.toDigits 10 n).map fun c => UInt8.ofNat c.toNat).map
      (fun b => Char.ofNat b.toNat) = Nat.toDigits 10 n := by
    intro n
    rw [List.map_map]
    refine (List.map_congr_left fun c hc => ?_).trans (List.map_id _)
    obtain ⟨hc, -⟩ := toNat_digit (isDigit_of_mem hc)
    rw [Function.comp_apply, hc, Char.ofNat_toNat]
    rfl
  intro a b h
  have hdigits : Nat.toDigits 10 a = Nat.toDigits 10 b := by
    rw [← hchars a, ← hchars b]
    exact congrArg _ h
  simpa using congrArg (Nat.ofDigitChars 10 · 0) hdigits

/-- Some characters, none of them NUL. -/
theorem toString_spec (i : Int32) : toString i ≠ [] ∧ ∀ b ∈ toString i, b ≠ 0 := by
  have hdigit : ∀ n : Nat, ∀ b ∈ (Nat.toDigits 10 n).map fun c => UInt8.ofNat c.toNat, b ≠ 0 := by
    intro n b hb
    obtain ⟨c, hc, rfl⟩ := List.mem_map.mp hb
    exact digit_ne_zero (isDigit_of_mem hc)
  unfold toString
  split
  next n _ => exact ⟨by simp, hdigit n⟩
  next n _ =>
    refine ⟨by simp, fun b hb => ?_⟩
    rcases List.mem_cons.mp hb with rfl | hb
    · decide
    · exact hdigit (n + 1) b hb

/-- So a C string has all of them. -/
theorem ofBytes_toString_bytes (i : Int32) : (CStr.ofBytes (toString i)).bytes = toString i :=
  List.takeWhile_eq_self_iff.mpr fun b hb => by simpa using (toString_spec i).2 b hb

theorem ofBytes_toString_ne (i : Int32) : CStr.ofBytes (toString i) ≠ .empty := by
  intro h
  have hb : toString i = [] := by rw [← ofBytes_toString_bytes, h]; rfl
  exact (toString_spec i).1 hb

theorem toString_injective : Function.Injective toString := by
  have hminus : ∀ (n : Nat) (l : Bytes), (Nat.toDigits 10 n).map (fun c => UInt8.ofNat c.toNat) ≠ 0x2D :: l := by
    intro n l h
    have hmem : (0x2D : UInt8) ∈ (Nat.toDigits 10 n).map fun c => UInt8.ofNat c.toNat := by
      rw [h]
      exact List.mem_cons_self
    obtain ⟨c, hc, he⟩ := List.mem_map.mp hmem
    obtain ⟨htoNat, hl, -⟩ := toNat_digit (isDigit_of_mem hc)
    rw [he] at htoNat
    have htoNat : 45 = c.toNat := htoNat
    omega
  intro i j h
  apply Int32.toInt_inj.mp
  unfold toString at h
  cases hi : i.toInt with
  | ofNat n =>
    cases hj : j.toInt with
    | ofNat m =>
      simp only [hi, hj] at h
      rw [digits_injective h]
    | negSucc m =>
      simp only [hi, hj] at h
      exact absurd h (hminus n _)
  | negSucc n =>
    cases hj : j.toInt with
    | ofNat m =>
      simp only [hi, hj] at h
      exact absurd h.symm (hminus m _)
    | negSucc m =>
      simp only [hi, hj, List.cons.injEq, true_and] at h
      have hnm : n + 1 = m + 1 := digits_injective h
      rw [Nat.succ.inj hnm]

theorem ofBytes_toString_injective : Function.Injective fun i => CStr.ofBytes (toString i) := by
  intro i j h
  have hb : (CStr.ofBytes (toString i)).bytes = (CStr.ofBytes (toString j)).bytes := congrArg CStr.bytes h
  rw [ofBytes_toString_bytes, ofBytes_toString_bytes] at hb
  exact toString_injective hb

def Token.sample (i : Int32) : Token := ⟨.ofBytes (toString i), ofBytes_toString_ne i⟩

/-! ## The database -/

/-- A record of the collection `account`. -/
structure AccountDoc where
  id : CStr
  username : CStr
  reservedPlayerId : Int32
  token : CStr
  sessionKey : CStr
  deriving DecidableEq

namespace AccountDoc

/-- `$set` of `token`. -/
def setToken (doc : AccountDoc) (token : CStr) : AccountDoc := { doc with token }

/-- `$set` of `sessionKey`. -/
def setSessionKey (doc : AccountDoc) (sessionKey : CStr) : AccountDoc := { doc with sessionKey }

variable (doc : AccountDoc) (c : CStr)

@[simp] theorem setToken_id : (doc.setToken c).id = doc.id := rfl
@[simp] theorem setToken_username : (doc.setToken c).username = doc.username := rfl
@[simp] theorem setToken_token : (doc.setToken c).token = c := rfl
@[simp] theorem setToken_sessionKey : (doc.setToken c).sessionKey = doc.sessionKey := rfl
@[simp] theorem setSessionKey_id : (doc.setSessionKey c).id = doc.id := rfl
@[simp] theorem setSessionKey_username : (doc.setSessionKey c).username = doc.username := rfl
@[simp] theorem setSessionKey_token : (doc.setSessionKey c).token = doc.token := rfl
@[simp] theorem setSessionKey_sessionKey : (doc.setSessionKey c).sessionKey = c := rfl

variable {p : AccountDoc → Bool} {docs : List AccountDoc} {c}

@[simp] theorem map_id_setToken :
    (updateFirst p (·.setToken c) docs).map AccountDoc.id = docs.map AccountDoc.id :=
  map_updateFirst _ fun _ => rfl
@[simp] theorem map_sessionKey_setToken :
    (updateFirst p (·.setToken c) docs).map AccountDoc.sessionKey = docs.map AccountDoc.sessionKey :=
  map_updateFirst _ fun _ => rfl
@[simp] theorem map_username_setToken :
    (updateFirst p (·.setToken c) docs).map AccountDoc.username = docs.map AccountDoc.username :=
  map_updateFirst _ fun _ => rfl
@[simp] theorem map_username_setSessionKey :
    (updateFirst p (·.setSessionKey c) docs).map AccountDoc.username = docs.map AccountDoc.username :=
  map_updateFirst _ fun _ => rfl
@[simp] theorem map_id_setSessionKey :
    (updateFirst p (·.setSessionKey c) docs).map AccountDoc.id = docs.map AccountDoc.id :=
  map_updateFirst _ fun _ => rfl
@[simp] theorem map_token_setSessionKey :
    (updateFirst p (·.setSessionKey c) docs).map AccountDoc.token = docs.map AccountDoc.token :=
  map_updateFirst _ fun _ => rfl

end AccountDoc

/-- A record of the collection `counters`. -/
structure CounterDoc where
  id : CStr
  count : Int32
  deriving DecidableEq

structure DB where
  account : List AccountDoc
  counters : List CounterDoc
  deriving DecidableEq

def DB.empty : DB := ⟨[], []⟩

/-- `Account`. -/
structure Account where
  id : CStr
  sessionKey : CStr
  username : CStr
  token : CStr
  reservedPlayerId : Int32
  deriving DecidableEq

def Account.new : Account := ⟨.empty, .empty, .empty, .empty, 0⟩

/-- The filters that the queries on `account` are made with. -/
inductive Filter
  | all
  | username (name : CStr)
  | id (uid : CStr)

def Filter.matches (doc : AccountDoc) : Filter → Bool
  | .all => true
  | .username name => doc.username = name
  | .id uid => doc.id = uid

inductive Op
  | findOne (filter : Filter)
  | find (filter : Filter)
  | insertOne (doc : AccountDoc)
  /-- `generateSessionKey`'s `find_one_and_update`, of the `Account` it is
  called on -/
  | updateSessionKey (account : Account) (key : CStr)
  /-- `generateLoginToken`'s -/
  | updateToken (account : Account) (token : CStr)
  | countersFindOne
  | countersInsertOne (doc : CounterDoc)
  | countersUpdate (count newCount : Int32)

def Op.Res : Op → Type
  | .findOne _ => Option AccountDoc
  | .find _ => List AccountDoc
  | .countersFindOne => Option CounterDoc
  | _ => Unit

/-- An operation: its answer and the database after it. An insert under an
`_id` that is taken throws. -/
def Op.exec : (o : Op) → DB → Option (o.Res × DB)
  | .findOne filter, db => some (db.account.find? filter.matches, db)
  | .find filter, db => some (db.account.filter filter.matches, db)
  | .insertOne doc, db =>
    if db.account.any (·.id = doc.id) then none
    else some ((), { db with account := db.account ++ [doc] })
  | .updateSessionKey account key, db =>
    some ((), { db with
      account := updateFirst (·.sessionKey = account.sessionKey) (·.setSessionKey key) db.account })
  | .updateToken account token, db =>
    some ((), { db with account := updateFirst (·.token = account.token) (·.setToken token) db.account })
  | .countersFindOne, db => some (db.counters.head?, db)
  | .countersInsertOne doc, db =>
    if db.counters.any (·.id = doc.id) then none
    else some ((), { db with counters := db.counters ++ [doc] })
  | .countersUpdate count newCount, db =>
    some ((), { db with
      counters := updateFirst (·.count = count) ({ · with count := newCount }) db.counters })

abbrev Query := Prog Op Op.Res

namespace Query

def findOne (filter : Filter) : Query (Option AccountDoc) := .op (.findOne filter) .ret
def find (filter : Filter) : Query (List AccountDoc) := .op (.find filter) .ret
def insertOne (doc : AccountDoc) : Query Unit := .op (.insertOne doc) .ret
def updateSessionKey (account : Account) (key : CStr) : Query Unit := .op (.updateSessionKey account key) .ret
def updateToken (account : Account) (token : CStr) : Query Unit := .op (.updateToken account token) .ret
def countersFindOne : Query (Option CounterDoc) := .op .countersFindOne .ret
def countersInsertOne (doc : CounterDoc) : Query Unit := .op (.countersInsertOne doc) .ret
def countersUpdate (count newCount : Int32) : Query Unit := .op (.countersUpdate count newCount) .ret

end Query

/-! ## Account -/

namespace Account

/-- `generateSessionKey`, `newKey` being what `createToken` returns. -/
def generateSessionKey (account : Account) (newKey : Token) : Query Account := do
  Query.updateSessionKey account newKey.str
  return { account with sessionKey := newKey.str }

/-- `generateLoginToken`. -/
def generateLoginToken (account : Account) (newToken : Token) : Query Account := do
  Query.updateToken account newToken.str
  return { account with token := newToken.str }

/-- The setters that `getAccountInfo` and `getAccountInfoById` call on a record. -/
def load (_ : Account) (doc : AccountDoc) : Account where
  id := doc.id
  sessionKey := doc.sessionKey
  username := doc.username
  token := doc.token
  reservedPlayerId := doc.reservedPlayerId

@[simp] theorem new_id : new.id = .empty := rfl
@[simp] theorem new_username : new.username = .empty := rfl
@[simp] theorem load_id (account : Account) (doc : AccountDoc) : (account.load doc).id = doc.id := rfl
@[simp] theorem load_username (account : Account) (doc : AccountDoc) :
    (account.load doc).username = doc.username := rfl
@[simp] theorem load_sessionKey (account : Account) (doc : AccountDoc) :
    (account.load doc).sessionKey = doc.sessionKey := rfl
@[simp] theorem load_token (account : Account) (doc : AccountDoc) : (account.load doc).token = doc.token := rfl

end Account

/-! ## databaseHelper -/

namespace databaseHelper

/-- `checkIfAccountExists`. -/
def checkIfAccountExists (name : CStr) : Query Bool := do
  match ← Query.findOne .all with
  | none => return false
  | some _ =>
    match ← Query.findOne (.username name) with
    | none => return false
    | some _ => return true

/-- `getAccountInfo`: every record of the name in turn, so that the last stays. -/
def getAccountInfo (account : Account) (name : CStr) : Query Account := do
  let docs ← Query.find (.username name)
  return docs.foldl Account.load account

/-- `getAccountByName`. -/
def getAccountByName (name : CStr) (account : Account) : Query Account := do
  if ← checkIfAccountExists name then getAccountInfo account name else return account

/-- `getNextId`. Its three `find_one({})` on `counters` are three operations; no
record of `counters` is ever removed, so the last answers with one. -/
def getNextId : Query Int32 := do
  let _ ← Query.countersFindOne
  match ← Query.countersFindOne with
  | none =>
    Query.countersInsertOne ⟨.ofBytes "Account".toUTF8.toList, 100⟩
    return 100
  | some _ =>
    match ← Query.countersFindOne with
    | none => return 100
    | some counter =>
      let newCount := counter.count + 1
      Query.countersUpdate counter.count newCount
      return newCount

/-- `saveAccount`. The token of the record is generated while its fields are
gathered: before the insert, and on nothing the other fields read. -/
def saveAccount (account : Account) (newToken : Token) : Query Account := do
  let account ← account.generateLoginToken newToken
  Query.insertOne {
    id := account.id
    username := account.username
    reservedPlayerId := account.reservedPlayerId
    token := account.token
    sessionKey := account.sessionKey }
  return account

/-- `createAccountWithUid`. -/
def createAccountWithUid (name : CStr) (reservedUid : Int32) (account : Account) (newToken : Token) :
    Query Account := do
  if ← checkIfAccountExists name then return account
  else
    let createdUid ← getNextId
    let account := { account with username := name, id := .ofBytes (toString createdUid) }
    let account := if 0 < reservedUid then { account with reservedPlayerId := reservedUid } else account
    saveAccount account newToken

/-- `checkAccountById`. -/
def checkAccountById (uid : CStr) : Query Bool := do
  match ← Query.findOne (.id uid) with
  | none => return false
  | some _ => return true

/-- `getAccountInfoById`. -/
def getAccountInfoById (account : Account) (uid : CStr) : Query Account := do
  let docs ← Query.find (.id uid)
  return docs.foldl Account.load account

/-- `getAccountById`. -/
def getAccountById (uid : CStr) (account : Account) : Query Account := do
  if ← checkAccountById uid then getAccountInfoById account uid else return account

end databaseHelper

/-! ## Queries run alone -/

section Run

variable (db : DB)

@[simp] theorem run_findOne (filter : Filter) :
    (Query.findOne filter).run Op.exec db = some (db.account.find? filter.matches, db) := rfl

@[simp] theorem run_find (filter : Filter) :
    (Query.find filter).run Op.exec db = some (db.account.filter filter.matches, db) := rfl

@[simp] theorem run_insertOne (doc : AccountDoc) :
    (Query.insertOne doc).run Op.exec db =
      if db.account.any (·.id = doc.id) then none
      else some ((), { db with account := db.account ++ [doc] }) := by
  show (if db.account.any (·.id = doc.id) then none
    else some ((), { db with account := db.account ++ [doc] })).bind _ = _
  split <;> rfl

@[simp] theorem run_updateSessionKey (account : Account) (key : CStr) :
    (Query.updateSessionKey account key).run Op.exec db = some ((), { db with
      account := updateFirst (·.sessionKey = account.sessionKey) (·.setSessionKey key) db.account }) := rfl

@[simp] theorem run_updateToken (account : Account) (token : CStr) :
    (Query.updateToken account token).run Op.exec db = some ((), { db with
      account := updateFirst (·.token = account.token) (·.setToken token) db.account }) := rfl

@[simp] theorem run_countersFindOne :
    Query.countersFindOne.run Op.exec db = some (db.counters.head?, db) := rfl

@[simp] theorem run_countersInsertOne (doc : CounterDoc) :
    (Query.countersInsertOne doc).run Op.exec db =
      if db.counters.any (·.id = doc.id) then none
      else some ((), { db with counters := db.counters ++ [doc] }) := by
  show (if db.counters.any (·.id = doc.id) then none
    else some ((), { db with counters := db.counters ++ [doc] })).bind _ = _
  split <;> rfl

@[simp] theorem run_countersUpdate (count newCount : Int32) :
    (Query.countersUpdate count newCount).run Op.exec db = some ((), { db with
      counters := updateFirst (·.count = count) ({ · with count := newCount }) db.counters }) := rfl

end Run

end EyPS
