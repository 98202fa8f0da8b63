/-
`http/LoginHandler`: how the three login handlers read their request from the
body, and what that asks of a body. The members are read one after the other,
before the authenticator runs, and nothing in between looks whether they are
there: a handler gets to its authenticator exactly with a complete body, and
on any other it has no answer to give.

`Document::Parse` is a parameter: of the C string it is given it makes a value,
or an error, which leaves the document null.
-/
import EyPS.Authenticate
import EyPS.HttpSession
import EyPS.Rapidjson

namespace EyPS

open Collection Atomic

/-- The document after `Parse`. -/
def parsed (parse : CStr → Option Json) (text : CStr) : Json := (parse text).getD .null

structure LoginAccountReq where
  account : CStr
  password : CStr
  isCrypto : Bool

structure LoginTokenReq where
  uid : CStr
  token : CStr

structure ComboTokenReq where
  uid : CStr
  token : CStr
  guest : Bool
  appId : Int32
  channelId : Int32
  device : CStr

section Handlers

variable (parse : CStr → Option Json) (body : Bytes)

/-- The accesses of `handleLogin`. -/
def loginAccountReq : Except Misuse LoginAccountReq := do
  let doc := parsed parse (.ofBytes body)
  let account ← doc.getMember "account" Json.asString
  let password ← doc.getMember "password" Json.asString
  let isCrypto ← doc.getMember "is_crypto" Json.asBool
  return { account, password, isCrypto }

/-- `handleLogin`, up to the text its answer is printed as. -/
def handleLogin (newToken newKey : Token) : Except Misuse (Query LoginRet) := do
  let accountReq ← loginAccountReq parse body
  return pwdAuthenticate accountReq.account newToken newKey

/-- The accesses of `handleTokenV`. -/
def loginTokenReq : Except Misuse LoginTokenReq := do
  let doc := parsed parse (.ofBytes body)
  let uid ← doc.getMember "uid" Json.asString
  let token ← doc.getMember "token" Json.asString
  return { uid, token }

/-- `handleTokenV`. -/
def handleTokenV : Except Misuse (Query LoginRet) := do
  let tokenReq ← loginTokenReq parse body
  return tokenAuthenticate tokenReq.uid tokenReq.token

/-- The accesses of `handleSessionKey`, some to a document in a string of the first. -/
def comboTokenReq : Except Misuse ComboTokenReq := do
  let doc := parsed parse (.ofBytes body)
  let text ← doc.getMember "data" Json.asString
  let data := parsed parse text
  let uid ← data.getMember "uid" Json.asString
  let token ← data.getMember "token" Json.asString
  let guest ← data.getMember "guest" Json.asBool
  let appId ← doc.getMember "app_id" Json.asInt
  let channelId ← doc.getMember "channel_id" Json.asInt
  let device ← doc.getMember "device" Json.asString
  return { uid, token, guest, appId, channelId, device }

/-- `handleSessionKey`. -/
def handleSessionKey (newToken : Token) : Except Misuse (Query ComboTokenRes) := do
  let comboReq ← comboTokenReq parse body
  return sessionKeyAuthenticate comboReq.uid comboReq.token newToken

end Handlers

/-! ## Complete bodies -/

/-- The body has what `handleLogin` reads. -/
def CompleteLogin (doc : Json) : Prop :=
  (∃ account, doc.HasMember "account" Json.asString account) ∧
    (∃ password, doc.HasMember "password" Json.asString password) ∧
    ∃ isCrypto, doc.HasMember "is_crypto" Json.asBool isCrypto

/-- What `handleTokenV` reads. -/
def CompleteTokenV (doc : Json) : Prop :=
  (∃ uid, doc.HasMember "uid" Json.asString uid) ∧ ∃ token, doc.HasMember "token" Json.asString token

/-- What `handleSessionKey` reads from the document in `data`. -/
def CompleteData (data : Json) : Prop :=
  CompleteTokenV data ∧ ∃ guest, data.HasMember "guest" Json.asBool guest

/-- What `handleSessionKey` reads. -/
def CompleteSessionKey (parse : CStr → Option Json) (doc : Json) : Prop :=
  (∃ text, doc.HasMember "data" Json.asString text ∧ CompleteData (parsed parse text)) ∧
    (∃ appId, doc.HasMember "app_id" Json.asInt appId) ∧
    (∃ channelId, doc.HasMember "channel_id" Json.asInt channelId) ∧
    ∃ device, doc.HasMember "device" Json.asString device

section Complete

variable {parse : CStr → Option Json} {body : Bytes}

theorem loginAccountReq_ok_iff : (∃ req, loginAccountReq parse body = .ok req) ↔
    CompleteLogin (parsed parse (.ofBytes body)) := by
  simp only [loginAccountReq, bind_eq_ok, Json.getMember_eq_ok]
  constructor
  · intro h
    obtain ⟨_, account, haccount, password, hpassword, isCrypto, hcrypto, _⟩ := h
    exact ⟨⟨account, haccount⟩, ⟨password, hpassword⟩, isCrypto, hcrypto⟩
  · intro h
    obtain ⟨⟨account, haccount⟩, ⟨password, hpassword⟩, isCrypto, hcrypto⟩ := h
    exact ⟨_, account, haccount, password, hpassword, isCrypto, hcrypto, rfl⟩

theorem loginTokenReq_ok_iff : (∃ req, loginTokenReq parse body = .ok req) ↔
    CompleteTokenV (parsed parse (.ofBytes body)) := by
  simp only [loginTokenReq, bind_eq_ok, Json.getMember_eq_ok]
  constructor
  · intro h
    obtain ⟨_, uid, huid, token, htoken, _⟩ := h
    exact ⟨⟨uid, huid⟩, token, htoken⟩
  · intro h
    obtain ⟨⟨uid, huid⟩, token, htoken⟩ := h
    exact ⟨_, uid, huid, token, htoken, rfl⟩

theorem comboTokenReq_ok_iff : (∃ req, comboTokenReq parse body = .ok req) ↔
    CompleteSessionKey parse (parsed parse (.ofBytes body)) := by
  simp only [comboTokenReq, bind_eq_ok, Json.getMember_eq_ok]
  constructor
  · intro h
    obtain ⟨_, text, htext, uid, huid, token, htoken, guest, hguest, appId, happ, channelId, hchannel, device,
      hdevice, _⟩ := h
    exact ⟨⟨text, htext, ⟨⟨uid, huid⟩, token, htoken⟩, guest, hguest⟩, ⟨appId, happ⟩, ⟨channelId, hchannel⟩,
      device, hdevice⟩
  · intro h
    obtain ⟨⟨text, htext, ⟨⟨uid, huid⟩, token, htoken⟩, guest, hguest⟩, ⟨appId, happ⟩, ⟨channelId, hchannel⟩,
      device, hdevice⟩ := h
    exact ⟨_, text, htext, uid, huid, token, htoken, guest, hguest, appId, happ, channelId, hchannel, device,
      hdevice, rfl⟩

/-- A handler gets to its authenticator exactly with the request read. -/
theorem handler_ok_iff {α β : Type} {request : Except Misuse α} {authenticate : α → β} :
    (∃ query, (do let req ← request; return authenticate req) = .ok query) ↔ ∃ req, request = .ok req := by
  simp only [bind_eq_ok]
  constructor
  · intro h
    obtain ⟨_, req, hreq, _⟩ := h
    exact ⟨req, hreq⟩
  · intro h
    obtain ⟨req, hreq⟩ := h
    exact ⟨_, req, hreq, rfl⟩

end Complete

/-! ## Validation -/

/-- A handler misuses no value, and answers a body that is not valid with an error,
the database left as it is. -/
def Validated {α : Type} (retcode : α → Int) (valid : Prop) (handler : Except Misuse (Query α)) : Prop :=
  ∃ query, handler = .ok query ∧
    (¬ valid → ∀ db, ∃ rsp, query.run Op.exec db = some (rsp, db) ∧ retcode rsp ≠ 0)

/-- A handler that gets to its authenticator with the valid bodies only. -/
theorem validated_iff {α : Type} {retcode : α → Int} {valid : Prop} {handler : Except Misuse (Query α)}
    (h : (∃ query, handler = .ok query) ↔ valid) : Validated retcode valid handler ↔ valid := by
  constructor
  · intro h
    obtain ⟨query, hquery, _⟩ := h
    exact h.mp ⟨query, hquery⟩
  · intro hvalid
    obtain ⟨query, hquery⟩ := h.mpr hvalid
    exact ⟨query, hquery, fun hno => absurd hvalid hno⟩

/-- **A login body is validated before use** exactly if it is complete. -/
theorem login_bodies_validated_iff (parse : CStr → Option Json) (body : Bytes) (newToken newKey : Token) :
    let doc := parsed parse (.ofBytes body)
    (Validated LoginRet.retcode (CompleteLogin doc) (handleLogin parse body newToken newKey) ↔ CompleteLogin doc) ∧
    (Validated LoginRet.retcode (CompleteTokenV doc) (handleTokenV parse body) ↔ CompleteTokenV doc) ∧
    (Validated ComboTokenRes.retcode (CompleteSessionKey parse doc) (handleSessionKey parse body newToken) ↔
      CompleteSessionKey parse doc) := by
  intro doc
  refine ⟨validated_iff ?_, validated_iff ?_, validated_iff ?_⟩
  · exact handler_ok_iff.trans loginAccountReq_ok_iff
  · exact handler_ok_iff.trans loginTokenReq_ok_iff
  · exact handler_ok_iff.trans comboTokenReq_ok_iff

/-- A parser that knows the text of the empty object. -/
def Json.emptyObject (text : CStr) : Option Json :=
  if text.bytes = [0x7B, 0x7D] then some (.object []) else none

/-- The empty object: every handler dereferences `MemberEnd()`. -/
theorem empty_object_misused :
    let doc := parsed Json.emptyObject (.ofBytes [0x7B, 0x7D])
    handleLogin Json.emptyObject [0x7B, 0x7D] (.sample 1) (.sample 2) = .error .memberEnd ∧
    handleTokenV Json.emptyObject [0x7B, 0x7D] = .error .memberEnd ∧
    handleSessionKey Json.emptyObject [0x7B, 0x7D] (.sample 1) = .error .memberEnd ∧
    ¬ Validated LoginRet.retcode (CompleteLogin doc)
      (handleLogin Json.emptyObject [0x7B, 0x7D] (.sample 1) (.sample 2)) ∧
    ¬ Validated LoginRet.retcode (CompleteTokenV doc) (handleTokenV Json.emptyObject [0x7B, 0x7D]) ∧
    ¬ Validated ComboTokenRes.retcode (CompleteSessionKey Json.emptyObject doc)
      (handleSessionKey Json.emptyObject [0x7B, 0x7D] (.sample 1)) := by
  intro doc
  have hlogin : handleLogin Json.emptyObject [0x7B, 0x7D] (.sample 1) (.sample 2) = .error .memberEnd := rfl
  have htoken : handleTokenV Json.emptyObject [0x7B, 0x7D] = .error .memberEnd := rfl
  have hkey : handleSessionKey Json.emptyObject [0x7B, 0x7D] (.sample 1) = .error .memberEnd := rfl
  refine ⟨hlogin, htoken, hkey, ?_, ?_, ?_⟩ <;> rintro ⟨query, hquery, -⟩
  · cases hlogin.symm.trans hquery
  · cases htoken.symm.trans hquery
  · cases hkey.symm.trans hquery

/-! ## In a session -/

/-- The answer of a handler's authenticator, run alone. -/
def answerOf {α : Type} (db : DB) (handler : Except Misuse (Query α)) : Option α :=
  match handler with
  | .ok query => (query.run Op.exec db).map (·.1)
  | .error _ => none

/-- The lambdas of `LoginHandler`, the others being given. -/
def respondLogin {ρ : Type} (parse : CStr → Option Json) (db : DB) (body : Bytes) (newToken newKey : Token)
    (respond : Lambda → Option ρ) : Lambda → Option (Response ⊕ ρ)
  | .clientLogin => (answerOf db (handleLogin parse body newToken newKey)).map fun rsp => .inl (.login rsp)
  | .tokenLogin => (answerOf db (handleTokenV parse body)).map fun rsp => .inl (.login rsp)
  | .sessionKeyLogin => (answerOf db (handleSessionKey parse body newToken)).map fun rsp => .inl (.combo rsp)
  | l => (respond l).map .inr

section Session

variable {ρ : Type} (parse : CStr → Option Json) (db : DB) (body : Bytes) (newToken newKey : Token)
  (respond : Lambda → Option ρ) {target : List Char}

/-- An authenticator that always answers: its handler answers the complete bodies. -/
theorem answerOf_isSome_iff {α β : Type} {request : Except Misuse α} {authenticate : α → Query β}
    (hrun : ∀ req, ∃ rsp, (authenticate req).run Op.exec db = some rsp) :
    (answerOf db (do let req ← request; return authenticate req)).isSome = true ↔ ∃ req, request = .ok req := by
  cases request with
  | error e =>
    show (none : Option β).isSome = true ↔ _
    simp
  | ok req =>
    obtain ⟨rsp, hrsp⟩ := hrun req
    show (((authenticate req).run Op.exec db).map (·.1)).isSome = true ↔ _
    simp [hrsp]

/-- A token check is answered exactly if its body is complete. -/
theorem verify_answeredOnce_iff (h : "verify".toList <+: target) :
    AnsweredOnce (respondLogin parse db body newToken newKey respond) target ↔
      CompleteTokenV (parsed parse (.ofBytes body)) := by
  have hrouted : Routed target .tokenLogin := .table (by decide) h
  rw [hrouted.answered_iff, ← loginTokenReq_ok_iff]
  simp only [respondLogin, Option.isSome_map]
  refine answerOf_isSome_iff db fun req => ?_
  obtain ⟨rsp, hrun⟩ := run_tokenAuthenticate db req.uid req.token
  exact ⟨_, hrun⟩

/-- And so is a combo request. -/
theorem sessionKey_answeredOnce_iff (h : "v2/login".toList <+: target) :
    AnsweredOnce (respondLogin parse db body newToken newKey respond) target ↔
      CompleteSessionKey parse (parsed parse (.ofBytes body)) := by
  have hrouted : Routed target .sessionKeyLogin := .table (by decide) h
  rw [hrouted.answered_iff, ← comboTokenReq_ok_iff]
  simp only [respondLogin, Option.isSome_map]
  refine answerOf_isSome_iff db fun req => ?_
  rcases run_sessionKeyAuthenticate db req.uid req.token newToken with ⟨_, _, _, _, _, hrun⟩ | ⟨_, hrun⟩
  · exact ⟨_, hrun⟩
  · exact ⟨_, hrun⟩

end Session

end EyPS
