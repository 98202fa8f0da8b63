/-
`http/auth`: the three authenticators, as programs over the database
operations, and what each does when it runs alone.
-/
import EyPS.Account

namespace EyPS

open Collection Atomic databaseHelper

/-- `loginRet`. -/
structure LoginRet where
  message : String
  uid : CStr
  name : CStr
  token : CStr
  retcode : Int
  deriving DecidableEq

def LoginRet.new : LoginRet := ⟨"", .empty, .empty, .empty, 0⟩

def LoginRet.ok (uid name token : CStr) : LoginRet := ⟨"OK", uid, name, token, 0⟩

@[simp] theorem LoginRet.ok_retcode (uid name token : CStr) : (ok uid name token).retcode = 0 := rfl

/-- `ComboTokenRes`. -/
structure ComboTokenRes where
  message : String
  comboId : String
  comboToken : CStr
  openId : CStr
  retcode : Int
  deriving DecidableEq

def ComboTokenRes.new : ComboTokenRes := ⟨"", "", .empty, .empty, 0⟩

def ComboTokenRes.ok (openId comboToken : CStr) : ComboTokenRes := ⟨"OK", "123456789", comboToken, openId, 0⟩

/-- `PwdAuthenticate::authenticate`; `newToken` and `newKey` are what its calls of
`createToken` return. (An account without a name is the one the source
reports as not created.) -/
def pwdAuthenticate (name : CStr) (newToken newKey : Token) : Query LoginRet := do
  let account ← getAccountByName name .new
  let account ←
    if account.username = .empty then createAccountWithUid name 0 account newToken else pure account
  if account.username = .empty then
    return { LoginRet.new with retcode := -201, message := "account_create_error" }
  else
    let keyed ← account.generateSessionKey newKey
    return { LoginRet.new with
      message := "OK", uid := account.id, name := account.username, token := keyed.sessionKey }

/-- `TokenAuthenticate::authenticate`. -/
def tokenAuthenticate (uid token : CStr) : Query LoginRet := do
  let account ← getAccountById uid .new
  if account.id ≠ .empty ∧ account.sessionKey = token then
    return { LoginRet.new with message := "OK", uid := account.id, token := account.sessionKey }
  else return { LoginRet.new with retcode := -201, message := "account_cache_error" }

/-- `SessionKeyAuthenticate::authenticate`. -/
def sessionKeyAuthenticate (uid token : CStr) (newToken : Token) : Query ComboTokenRes := do
  let account ← getAccountById uid .new
  if account.id ≠ .empty ∧ account.sessionKey = token then
    let tokened ← account.generateLoginToken newToken
    return { ComboTokenRes.new with
      message := "OK", openId := account.id, comboId := "123456789", comboToken := tokened.token }
  else return { ComboTokenRes.new with retcode := -201, message := "account_sessionKey_error" }

inductive Request
  | pwd (name : CStr) (newToken newKey : Token)
  | token (uid token : CStr)
  | sessionKey (uid token : CStr) (newToken : Token)
  deriving DecidableEq

inductive Response
  | login (rsp : LoginRet)
  | combo (rsp : ComboTokenRes)
  deriving DecidableEq

def Request.authenticate : Request → Query Response
  | .pwd name newToken newKey => return .login (← pwdAuthenticate name newToken newKey)
  | .token uid tok => return .login (← tokenAuthenticate uid tok)
  | .sessionKey uid tok newToken => return .combo (← sessionKeyAuthenticate uid tok newToken)

/-- The request is a `PwdAuthenticate` with this account name. -/
def Request.asks (name : CStr) : Request → Prop
  | .pwd name' _ _ => name' = name
  | _ => False

instance (name : CStr) : (r : Request) → Decidable (r.asks name)
  | .pwd name' _ _ => inferInstanceAs (Decidable (name' = name))
  | .token _ _ | .sessionKey _ _ _ => isFalse id

/-- What the request's calls of `createToken` return. -/
def Request.drawn : Request → List Token
  | .pwd _ newToken newKey => [newToken, newKey]
  | .token _ _ => []
  | .sessionKey _ _ newToken => [newToken]

/-! ## Run alone -/

section Run

variable (db : DB)

/-- Some record has this name. -/
def DB.knows (db : DB) (name : CStr) : Bool := db.account.any (·.username = name)

theorem run_checkIfAccountExists (name : CStr) :
    (checkIfAccountExists name).run Op.exec db = some (db.knows name, db) := by
  unfold checkIfAccountExists
  cases hall : db.account.find? Filter.all.matches with
  | none =>
    have hnil : db.account = [] := by
      rw [List.eq_nil_iff_forall_not_mem]
      intro d hd
      simpa [Filter.matches] using List.find?_eq_none.mp hall d hd
    simp [Prog.run_bind, hnil, DB.knows]
  | some d =>
    cases hname : db.account.find? (Filter.username name).matches with
    | none =>
      have hknows : db.knows name = false := by
        simpa [DB.knows, Filter.matches] using List.find?_eq_none.mp hname
      simp [Prog.run_bind, hall, hname, hknows]
    | some d' =>
      have hmatch := List.find?_some hname
      have hknows : db.knows name = true :=
        List.any_eq_true.mpr ⟨d', List.mem_of_find?_eq_some hname, hmatch⟩
      simp [Prog.run_bind, hall, hname, hknows]

/-- Of the records that are loaded in turn the last one stays. -/
theorem foldl_load (docs : List AccountDoc) (account : Account) :
    docs.foldl Account.load account = (docs.getLast?).elim account account.load := by
  induction docs using List.reverseRecOn with
  | nil => rfl
  | append_singleton docs doc _ => simp [Account.load]

theorem run_getAccountByName (name : CStr) (account : Account) :
    (getAccountByName name account).run Op.exec db =
      some ((db.account.filter (Filter.username name).matches).foldl Account.load account, db) := by
  simp only [getAccountByName, getAccountInfo, Prog.bind_eq, Prog.run_bind, run_checkIfAccountExists,
    Option.bind_some]
  cases hknows : db.knows name with
  | true => simp [Prog.run_bind]
  | false =>
    have hnil : db.account.filter (Filter.username name).matches = [] := by
      simpa [DB.knows, Filter.matches] using hknows
    simp [hnil]

theorem run_getAccountById (uid : CStr) (account : Account) :
    (getAccountById uid account).run Op.exec db =
      some ((db.account.filter (Filter.id uid).matches).foldl Account.load account, db) := by
  unfold getAccountById checkAccountById getAccountInfoById
  cases hid : db.account.find? (Filter.id uid).matches with
  | none =>
    have hnil : db.account.filter (Filter.id uid).matches = [] := by
      simpa using List.find?_eq_none.mp hid
    simp [Prog.run_bind, hid, hnil]
  | some doc => simp [Prog.run_bind, hid]

/-- The number `getNextId` answers with. -/
def DB.nextId (db : DB) : Int32 :=
  match db.counters with
  | [] => 100
  | counter :: _ => counter.count + 1

/-- The counter set to it. -/
def DB.counted (db : DB) : DB where
  account := db.account
  counters := match db.counters with
    | [] => [⟨.ofBytes "Account".toUTF8.toList, 100⟩]
    | counter :: rest => { counter with count := counter.count + 1 } :: rest

@[simp] theorem DB.counted_account : db.counted.account = db.account := rfl

theorem run_getNextId : getNextId.run Op.exec db = some (db.nextId, db.counted) := by
  unfold getNextId DB.nextId DB.counted
  cases hc : db.counters with
  | nil => simp [Prog.run_bind, hc]
  | cons counter rest => simp [Prog.run_bind, hc, updateFirst_cons]

/-- The `_id` of the next account. -/
def DB.newId (db : DB) : CStr := .ofBytes (toString db.nextId)

theorem DB.newId_ne : db.newId ≠ .empty := ofBytes_toString_ne db.nextId

/-- Some account has it already: the insert throws. -/
def DB.idTaken (db : DB) : Bool := db.account.any (·.id = db.newId)

/-- The record that `saveAccount` inserts. -/
def Account.saved (account : Account) (newToken : Token) : AccountDoc where
  id := account.id
  username := account.username
  reservedPlayerId := account.reservedPlayerId
  token := newToken.str
  sessionKey := account.sessionKey

theorem run_saveAccount (account : Account) (newToken : Token) :
    (saveAccount account newToken).run Op.exec db =
      if db.account.any (·.id = account.id) then none
      else some ({ account with token := newToken.str }, { db with
        account := updateFirst (·.token = account.token) (·.setToken newToken.str) db.account ++
          [account.saved newToken] }) := by
  have hids : (updateFirst (·.token = account.token) (·.setToken newToken.str) db.account).any
      (·.id = account.id) = db.account.any (·.id = account.id) := any_updateFirst _ fun _ => rfl
  simp only [saveAccount, Account.generateLoginToken, Prog.bind_eq, Prog.run_bind, run_updateToken,
    Option.bind_some, Prog.pure_eq, Prog.run_ret, run_insertOne, hids]
  split <;> rfl

theorem run_createAccountWithUid_known {name : CStr} (hknows : db.knows name = true) (reservedUid : Int32)
    (account : Account) (newToken : Token) :
    (createAccountWithUid name reservedUid account newToken).run Op.exec db = some (account, db) := by
  simp [createAccountWithUid, Prog.run_bind, run_checkIfAccountExists, hknows]

/-- The account created under this name, the counter having moved. -/
def DB.created (db : DB) (name : CStr) (newToken : Token) : DB where
  account := updateFirst (·.token = .empty) (·.setToken newToken.str) db.account ++
    [⟨db.newId, name, 0, newToken.str, .empty⟩]
  counters := db.counted.counters

theorem run_createAccountWithUid_new {name : CStr} (hknows : db.knows name = false) (newToken : Token) :
    (createAccountWithUid name 0 .new newToken).run Op.exec db =
      if db.idTaken then none
      else some (⟨db.newId, .empty, name, newToken.str, 0⟩, db.created name newToken) := by
  simp only [createAccountWithUid, Prog.bind_eq, Prog.run_bind, run_checkIfAccountExists, hknows,
    Option.bind_some, Bool.false_eq_true, if_false, run_getNextId, Int32.lt_irrefl, run_saveAccount]
  rfl

/-- What is loaded into a new account: nothing, where nothing matches, else one
of the matching records. -/
theorem load_cases (filter : Filter) :
    (∀ doc ∈ db.account, filter.matches doc = false) ∧
        (db.account.filter filter.matches).foldl Account.load .new = .new ∨
      ∃ doc ∈ db.account, filter.matches doc = true ∧
        (db.account.filter filter.matches).foldl Account.load .new = Account.new.load doc := by
  rw [foldl_load]
  cases hl : (db.account.filter filter.matches).getLast? with
  | none =>
    rw [List.getLast?_eq_none_iff, List.filter_eq_nil_iff] at hl
    exact .inl ⟨fun doc hd => by simpa using hl doc hd, rfl⟩
  | some doc =>
    obtain ⟨hd, hp⟩ := List.mem_filter.mp (List.mem_of_getLast? hl)
    exact .inr ⟨doc, hd, hp, rfl⟩

/-- A login under a name that no record has. -/
theorem run_pwdAuthenticate_new {name : CStr} (hknows : db.knows name = false) (newToken newKey : Token) :
    (pwdAuthenticate name newToken newKey).run Op.exec db =
      if db.idTaken then none
      else if name = .empty then
        some ({ LoginRet.new with retcode := -201, message := "account_create_error" }, db.created name newToken)
      else some (.ok db.newId name newKey.str, { db.created name newToken with
        account := updateFirst (·.sessionKey = .empty) (·.setSessionKey newKey.str)
          (db.created name newToken).account }) := by
  have hnil : db.account.filter (Filter.username name).matches = [] := by
    simpa [DB.knows, Filter.matches] using hknows
  simp only [pwdAuthenticate, Prog.bind_eq, Prog.run_bind, run_getAccountByName, Option.bind_some, hnil,
    List.foldl_nil, Account.new_username, if_true, run_createAccountWithUid_new db hknows]
  split
  · rfl
  · by_cases hname : name = .empty
    · simp [hname]
    · simp [hname, Account.generateSessionKey, Prog.run_bind, LoginRet.ok, LoginRet.new]

/-- A login under a known name, which is a new key for one of its records, or
under the empty one, which stays as it is. -/
theorem run_pwdAuthenticate_known {name : CStr} (hknows : db.knows name = true) (newToken newKey : Token) :
    ∃ doc ∈ db.account, doc.username = name ∧ (pwdAuthenticate name newToken newKey).run Op.exec db =
      if name = .empty then
        some ({ LoginRet.new with retcode := -201, message := "account_create_error" }, db)
      else some (.ok doc.id name newKey.str, { db with
        account := updateFirst (·.sessionKey = doc.sessionKey) (·.setSessionKey newKey.str) db.account }) := by
  rcases load_cases db (.username name) with ⟨hnone, -⟩ | ⟨doc, hdoc, hmatch, hload⟩
  · have hunknown : db.knows name = false := by simpa [DB.knows, Filter.matches] using hnone
    simp [hknows] at hunknown
  · obtain rfl : doc.username = name := by simpa [Filter.matches] using hmatch
    refine ⟨doc, hdoc, rfl, ?_⟩
    simp only [pwdAuthenticate, Prog.bind_eq, Prog.run_bind, run_getAccountByName, Option.bind_some]
    rw [hload]
    by_cases hname : doc.username = .empty
    · have hloaded : (Account.new.load doc).username = .empty := hname
      rw [if_pos hloaded, Prog.run_bind, run_createAccountWithUid_known db hknows, Option.bind_some,
        if_pos hloaded, if_pos hname]
      rfl
    · have hloaded : (Account.new.load doc).username ≠ .empty := hname
      rw [if_neg hloaded, Prog.pure_eq, Prog.ret_bind, if_neg hloaded, if_neg hname]
      rfl

/-- Why a uid and a session key are refused: no record has the uid, or one that
has it has no id or another key. -/
def DB.Refuses (db : DB) (uid tok : CStr) : Prop := (∀ doc ∈ db.account, doc.id ≠ uid) ∨
  ∃ doc ∈ db.account, doc.id = uid ∧ (doc.id = .empty ∨ doc.sessionKey ≠ tok)

/-- The check that a token request and a combo request begin with. -/
theorem loaded_cases (uid tok : CStr) :
    let account := (db.account.filter (Filter.id uid).matches).foldl Account.load .new
    (∃ doc ∈ db.account, doc.id = uid ∧ doc.id ≠ .empty ∧ doc.sessionKey = tok ∧
        account = Account.new.load doc ∧ account.id ≠ .empty ∧ account.sessionKey = tok) ∨
      db.Refuses uid tok ∧ ¬ (account.id ≠ .empty ∧ account.sessionKey = tok) := by
  intro account
  rcases load_cases db (.id uid) with ⟨hnone, hload⟩ | ⟨doc, hdoc, hmatch, hload⟩
  · have hnone : ∀ doc ∈ db.account, doc.id ≠ uid := by simpa [Filter.matches] using hnone
    refine .inr ⟨.inl hnone, fun hid => hid.1 ?_⟩
    rw [show account = .new from hload, Account.new_id]
  · obtain rfl : doc.id = uid := by simpa [Filter.matches] using hmatch
    by_cases hkey : doc.id ≠ .empty ∧ doc.sessionKey = tok
    · refine .inl ⟨doc, hdoc, rfl, hkey.1, hkey.2, hload, ?_⟩
      rwa [show account = Account.new.load doc from hload]
    · refine .inr ⟨.inr ⟨doc, hdoc, rfl, by rwa [not_and_or, not_not] at hkey⟩, ?_⟩
      rwa [show account = Account.new.load doc from hload]

/-- A combo request: a new token, where the record it loads for the uid has the
session key, else nothing. -/
theorem run_sessionKeyAuthenticate (uid tok : CStr) (newToken : Token) :
    (∃ doc ∈ db.account, doc.id = uid ∧ doc.id ≠ .empty ∧ doc.sessionKey = tok ∧
      (sessionKeyAuthenticate uid tok newToken).run Op.exec db = some (.ok uid newToken.str, { db with
        account := updateFirst (·.token = doc.token) (·.setToken newToken.str) db.account })) ∨
    db.Refuses uid tok ∧ (sessionKeyAuthenticate uid tok newToken).run Op.exec db =
      some ({ ComboTokenRes.new with retcode := -201, message := "account_sessionKey_error" }, db) := by
  simp only [sessionKeyAuthenticate, Prog.bind_eq, Prog.run_bind, run_getAccountById, Option.bind_some]
  rcases loaded_cases db uid tok with ⟨doc, hdoc, rfl, hid, rfl, hload, hyes⟩ | ⟨hwhy, hno⟩
  · rw [if_pos hyes, hload]
    exact .inl ⟨doc, hdoc, rfl, hid, rfl, rfl⟩
  · rw [if_neg hno]
    exact .inr ⟨hwhy, rfl⟩

/-- A token request passes the same check, and only reads. -/
theorem run_tokenAuthenticate_cases (uid tok : CStr) :
    (∃ doc ∈ db.account, doc.id = uid ∧ doc.id ≠ .empty ∧ doc.sessionKey = tok ∧
      (tokenAuthenticate uid tok).run Op.exec db = some (.ok uid .empty tok, db)) ∨
    db.Refuses uid tok ∧ (tokenAuthenticate uid tok).run Op.exec db =
      some ({ LoginRet.new with retcode := -201, message := "account_cache_error" }, db) := by
  simp only [tokenAuthenticate, Prog.bind_eq, Prog.run_bind, run_getAccountById, Option.bind_some]
  rcases loaded_cases db uid tok with ⟨doc, hdoc, rfl, hid, rfl, hload, hyes⟩ | ⟨hwhy, hno⟩
  · rw [if_pos hyes, hload]
    exact .inl ⟨doc, hdoc, rfl, hid, rfl, rfl⟩
  · rw [if_neg hno]
    exact .inr ⟨hwhy, rfl⟩

theorem run_tokenAuthenticate (uid tok : CStr) :
    ∃ rsp, (tokenAuthenticate uid tok).run Op.exec db = some (rsp, db) := by
  rcases run_tokenAuthenticate_cases db uid tok with ⟨_, _, _, _, _, hrun⟩ | ⟨_, hrun⟩
  · exact ⟨_, hrun⟩
  · exact ⟨_, hrun⟩

end Run

/-! ## What a call does -/

/-- What a call does to the records of `account`, and its answer. -/
inductive Effect : Request → Response → List AccountDoc → List AccountDoc → Prop
  /-- A login to a known name: the first record with the key it read gets the new one. -/
  | login {newToken newKey : Token} {l : List AccountDoc} {doc : AccountDoc} (hdoc : doc ∈ l)
      (hname : doc.username ≠ .empty) :
    Effect (.pwd doc.username newToken newKey) (.login (.ok doc.id doc.username newKey.str)) l
      (updateFirst (·.sessionKey = doc.sessionKey) (·.setSessionKey newKey.str) l)
  /-- A login that creates its account: the first record with an empty key gets the new one. -/
  | create {name uid : CStr} {newToken newKey : Token} {l : List AccountDoc} (hname : name ≠ .empty)
      (hid : uid ≠ .empty) (hfresh : uid ∉ l.map AccountDoc.id) :
    Effect (.pwd name newToken newKey) (.login (.ok uid name newKey.str)) l
      (updateFirst (·.sessionKey = .empty) (·.setSessionKey newKey.str)
        (updateFirst (·.token = .empty) (·.setToken newToken.str) l ++ [⟨uid, name, 0, newToken.str, .empty⟩]))
  /-- The empty name, for the first time: reported as failed, and stored. -/
  | unnamed {uid : CStr} {newToken newKey : Token} {l : List AccountDoc} (hid : uid ≠ .empty)
      (hfresh : uid ∉ l.map AccountDoc.id) :
    Effect (.pwd .empty newToken newKey)
      (.login { LoginRet.new with retcode := -201, message := "account_create_error" }) l
      (updateFirst (·.token = .empty) (·.setToken newToken.str) l ++ [⟨uid, .empty, 0, newToken.str, .empty⟩])
  | refused {newToken newKey : Token} {l : List AccountDoc} (hknown : ∃ doc ∈ l, doc.username = .empty) :
    Effect (.pwd .empty newToken newKey)
      (.login { LoginRet.new with retcode := -201, message := "account_create_error" }) l l
  | token {uid tok : CStr} {rsp : LoginRet} {l : List AccountDoc} :
    Effect (.token uid tok) (.login rsp) l l
  | combo {tok : CStr} {newToken : Token} {rsp : ComboTokenRes} {l : List AccountDoc} {doc : AccountDoc}
      (hdoc : doc ∈ l) :
    Effect (.sessionKey doc.id tok newToken) (.combo rsp) l
      (updateFirst (·.token = doc.token) (·.setToken newToken.str) l)
  | noCombo {uid tok : CStr} {newToken : Token} {rsp : ComboTokenRes} {l : List AccountDoc} :
    Effect (.sessionKey uid tok newToken) (.combo rsp) l l

section Effect

variable {db db' : DB}

theorem pwdAuthenticate_effect {name : CStr} {newToken newKey : Token} {rsp : LoginRet}
    (h : (pwdAuthenticate name newToken newKey).run Op.exec db = some (rsp, db')) :
    Effect (.pwd name newToken newKey) (.login rsp) db.account db'.account := by
  cases hknows : db.knows name with
  | false =>
    rw [run_pwdAuthenticate_new db hknows] at h
    split at h
    · cases h
    next hfresh =>
      have hfresh : db.newId ∉ db.account.map AccountDoc.id := by simpa [DB.idTaken] using hfresh
      split at h
      next hname =>
        cases h
        subst hname
        exact .unnamed db.newId_ne hfresh
      next hname =>
        cases h
        exact .create hname db.newId_ne hfresh
  | true =>
    obtain ⟨doc, hdoc, rfl, hrun⟩ := run_pwdAuthenticate_known db hknows newToken newKey
    rw [hrun] at h
    split at h
    next hname =>
      cases h
      rw [hname]
      exact .refused ⟨doc, hdoc, hname⟩
    next hname =>
      cases h
      exact .login hdoc hname

theorem sessionKeyAuthenticate_effect {uid tok : CStr} {newToken : Token} {rsp : ComboTokenRes}
    (h : (sessionKeyAuthenticate uid tok newToken).run Op.exec db = some (rsp, db')) :
    Effect (.sessionKey uid tok newToken) (.combo rsp) db.account db'.account := by
  rcases run_sessionKeyAuthenticate db uid tok newToken with ⟨doc, hdoc, rfl, -, -, hrun⟩ | ⟨-, hrun⟩
  · rw [hrun] at h
    cases h
    exact .combo hdoc
  · rw [hrun] at h
    cases h
    exact .noCombo

/-- Every completed call has one of the effects. -/
theorem Request.effect {r : Request} {rsp : Response} (h : r.authenticate.run Op.exec db = some (rsp, db')) :
    Effect r rsp db.account db'.account := by
  cases r with
  | pwd name newToken newKey =>
    simp only [Request.authenticate, Prog.bind_eq, Prog.run_bind, Option.bind_eq_some_iff] at h
    obtain ⟨⟨rsp, db₁⟩, h, he⟩ := h
    cases he
    exact pwdAuthenticate_effect h
  | token uid tok =>
    obtain ⟨rsp₁, h₁⟩ := run_tokenAuthenticate db uid tok
    simp only [Request.authenticate, Prog.bind_eq, Prog.run_bind, h₁, Option.bind_some] at h
    cases h
    exact .token
  | sessionKey uid tok newToken =>
    simp only [Request.authenticate, Prog.bind_eq, Prog.run_bind, Option.bind_eq_some_iff] at h
    obtain ⟨⟨rsp, db₁⟩, h, he⟩ := h
    cases he
    exact sessionKeyAuthenticate_effect h

end Effect

/-! ## Failed logins -/

/-- Where the login is answered with -201, the database is as it was before. -/
def LeavesNoTrace (name : CStr) (newToken newKey : Token) (db : DB) : Prop :=
  ∀ rsp db', (pwdAuthenticate name newToken newKey).run Op.exec db = some (rsp, db') →
    rsp.retcode = -201 → db' = db

theorem DB.created_ne (db : DB) (name : CStr) (newToken : Token) : db.created name newToken ≠ db := by
  intro he
  have hlen := congrArg (fun db : DB => (db.account.map AccountDoc.id).length) he
  simp [DB.created] at hlen

/-- **A failed login leaves no trace** but under the empty name, where nothing
keeps the account from being created: no record has the name, and none has the
`_id` that the counter gives it. -/
theorem leavesNoTrace_iff (name : CStr) (newToken newKey : Token) (db : DB) :
    LeavesNoTrace name newToken newKey db ↔
      (name = .empty → db.knows .empty = true ∨ db.idTaken = true) := by
  constructor
  · rintro h rfl
    cases hknows : db.knows .empty with
    | true => exact .inl rfl
    | false =>
      refine .inr (of_not_not fun hid => ?_)
      have hrun := run_pwdAuthenticate_new db hknows newToken newKey
      rw [if_neg hid, if_pos rfl] at hrun
      exact db.created_ne _ _ (h _ _ hrun rfl)
  · intro h rsp db' hrun hret
    cases hknows : db.knows name with
    | false =>
      rw [run_pwdAuthenticate_new db hknows] at hrun
      split at hrun
      · cases hrun
      next hid =>
        split at hrun
        next hname =>
          rw [hname] at hknows
          rcases h hname with hknown | htaken
          · exact absurd hknown (by simp [hknows])
          · exact absurd htaken hid
        next => cases hrun; simp at hret
    | true =>
      obtain ⟨doc, -, -, hknown⟩ := run_pwdAuthenticate_known db hknows newToken newKey
      rw [hknown] at hrun
      split at hrun
      · cases hrun; rfl
      · cases hrun; simp at hret

/-- One login with the empty name: -201, and account 100 without a name. -/
theorem empty_name_leaves_account :
    (pwdAuthenticate .empty (.sample 1) (.sample 2)).run Op.exec .empty =
        some ({ LoginRet.new with retcode := -201, message := "account_create_error" },
          { account := [⟨.ofBytes [0x31, 0x30, 0x30], .empty, 0, (Token.sample 1).str, .empty⟩]
            counters := [⟨.ofBytes "Account".toUTF8.toList, 100⟩] }) ∧
      ¬ LeavesNoTrace .empty (.sample 1) (.sample 2) .empty := by
  have hrun : (pwdAuthenticate .empty (.sample 1) (.sample 2)).run Op.exec .empty =
      some ({ LoginRet.new with retcode := -201, message := "account_create_error" },
        { account := [⟨.ofBytes [0x31, 0x30, 0x30], .empty, 0, (Token.sample 1).str, .empty⟩]
          counters := [⟨.ofBytes "Account".toUTF8.toList, 100⟩] }) := by
    decide +kernel
  refine ⟨hrun, fun h => ?_⟩
  have hsame := congrArg (fun db : DB => db.account.length) (h _ _ hrun rfl)
  simp [DB.empty] at hsame

end EyPS
