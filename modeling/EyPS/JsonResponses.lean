/-
The answers the server prints with a `Writer`: `loginRet::accountJson`,
`ComboTokenRes::ComboTokenJson` and the lambdas of `GenericHandler`, as the
calls they make.

Whatever the fields hold, an answer is a document of these fields: no name and
no token can add a member or end a string. The calls of `/getConfig` open an
object where a name is due, which the `Writer` asserts against.

Strings are `Short` here, under 16 MiB: a request's body has a limit far below
that, and so has a record of MongoDB.
-/
import EyPS.JsonWritten
import EyPS.LoginBody
import Mathlib.Tactic.Ring

namespace EyPS

/-! ## Literals -/

/-- The bytes of a literal. -/
def lit (s : String) : Bytes := s.toUTF8.toList

theorem toList_loop (bs : ByteArray) (i : Nat) (r : List UInt8) :
    ByteArray.toList.loop bs i r = r.reverse ++ bs.data.toList.drop i := by
  fun_induction ByteArray.toList.loop bs i r with
  | case1 i r h ih =>
    have hi : i < bs.data.toList.length := by simpa using h
    have hi' : i < bs.data.size := hi
    have hget : bs.get! i = bs.data.toList[i] := by
      show bs.data[i]! = _
      simp [getElem!_pos bs.data i hi']
    rw [ih, List.drop_eq_getElem_cons hi]
    simp [hget]
  | case2 i r h =>
    have hi : bs.data.toList.length ≤ i := by simpa using h
    simp [List.drop_eq_nil_of_le hi]

theorem lit_injective : Function.Injective lit := by
  intro s t h
  have hdata : s.toUTF8.data.toList = t.toUTF8.data.toList := by
    simpa [lit, ByteArray.toList, toList_loop] using h
  exact String.toByteArray_inj.mp (ByteArray.ext (Array.toList_inj.mp hdata))

namespace Call

/-- `Key` of a literal. -/
abbrev name (s : String) : Call := .key (lit s)

/-- `String` of a literal. -/
abbrev text (s : String) : Call := .string (lit s)

end Call

namespace Json

/-- An object whose names are literals. -/
def members (ms : List (String × Json)) : Json := .object (ms.map fun m => (lit m.1, m.2))

theorem ofInt_toInt (i : Int32) : ofInt i.toInt = .int i := by
  have hl := i.le_toInt
  have hu := i.toInt_lt
  rw [ofInt, if_pos ⟨hl, hu⟩, Int32.ofInt_toInt]

/-- The value at the end of a path of names. -/
def path (doc : Json) : List String → Except Misuse Json
  | [] => .ok doc
  | name :: names =>
    match doc.findMember name with
    | .ok value => value.path names
    | .error e => .error e

theorem findMember_members (ms : List (String × Json)) (name : String) :
    (members ms).findMember name = (ms.find? (·.1 = name)).elim (.error .memberEnd) fun m => .ok m.2 := by
  have hname : ((fun m : Bytes × Json => decide (m.1 = lit name)) ∘ fun m : String × Json => (lit m.1, m.2)) =
      fun m => decide (m.1 = name) := by
    funext m
    simp [lit_injective.eq_iff]
  have hfind : (ms.map fun m => (lit m.1, m.2)).find? (fun m => decide (m.1 = lit name)) =
      (ms.find? (·.1 = name)).map fun m => (lit m.1, m.2) := by
    rw [List.find?_map, hname]
  simp only [members, findMember]
  rw [show name.toUTF8.toList = lit name from rfl, hfind]
  cases ms.find? (·.1 = name) <;> rfl

end Json

/-- The text that the calls leave in the buffer; `none` where an assertion fails. -/
def printed (cs : List Call) : Option CStr := (Writer.new.calls cs).map Writer.getString

/-- What the client reads of a printed answer. -/
theorem printed_read_back (δ : Type) [Doubles δ] {cs : List Call} (hsize : Call.sizes cs < 2 ^ 32) {v : Json}
    (h : describes cs = some v) : ∃ text, printed cs = some text ∧ Document.parse δ text = some v := by
  have hcs : ∀ c ∈ cs, c.Fits := fun c hc =>
    Call.fits_of_size (Nat.lt_of_le_of_lt (Call.size_le_sizes hc) hsize)
  obtain ⟨w, hw, -, -, hparse⟩ := Writer.read_back δ hcs h
  have hlen : w.os.length ≤ 0 + Call.sizes cs := Writer.length_calls hw
  exact ⟨w.getString, by rw [printed, hw]; rfl, hparse (by omega)⟩

namespace Described

variable {fs : List Frame} {ms : List (Bytes × Json)} {n : Bytes} {cs : List Call}

theorem calls_name : calls ⟨.object ms none :: fs, none⟩ (.key n :: cs) = calls ⟨.object ms (some n) :: fs, none⟩ cs :=
  rfl

theorem calls_string {str : Bytes} : calls ⟨.object ms (some n) :: fs, none⟩ (.string str :: cs) =
    calls ⟨.object (ms ++ [(n, .string str)]) none :: fs, none⟩ cs := rfl

theorem calls_bool {b : Bool} : calls ⟨.object ms (some n) :: fs, none⟩ (.bool b :: cs) =
    calls ⟨.object (ms ++ [(n, .bool b)]) none :: fs, none⟩ cs := rfl

theorem calls_int {i : Int32} : calls ⟨.object ms (some n) :: fs, none⟩ (.int i :: cs) =
    calls ⟨.object (ms ++ [(n, .ofInt i.toInt)]) none :: fs, none⟩ cs := rfl

theorem calls_startObject : calls ⟨.object ms (some n) :: fs, none⟩ (.startObject :: cs) =
    calls ⟨.object [] none :: .object ms (some n) :: fs, none⟩ cs := rfl

theorem calls_endObject {vs : List (Bytes × Json)} :
    calls ⟨.object vs none :: .object ms (some n) :: fs, none⟩ (.endObject :: cs) =
      calls ⟨.object (ms ++ [(n, .object vs)]) none :: fs, none⟩ cs := rfl

/-- The calls after the root is opened. -/
theorem describes_startObject {v : Json} (h : calls ⟨[.object [] none], none⟩ cs = some ⟨[], some v⟩) :
    describes (.startObject :: cs) = some v := by
  have hcalls : Described.new.calls (.startObject :: cs) = some ⟨[], some v⟩ := h
  rw [describes, hcalls]

end Described

/-! ## Short strings -/

/-- Under 16 MiB. -/
def CStr.Short (s : CStr) : Prop := s.bytes.length < 2 ^ 24

instance (s : CStr) : Decidable s.Short := inferInstanceAs (Decidable (_ < _))

/-- What the records hold is short. -/
def DB.Short (db : DB) : Prop := ∀ doc ∈ db.account, doc.id.Short ∧ doc.username.Short ∧ doc.sessionKey.Short

theorem DB.short_empty : DB.empty.Short := fun _ h => nomatch h

theorem DB.newId_short (db : DB) : db.newId.Short := by
  have hlen := Writer.length_writeInt db.nextId
  rw [CStr.Short, DB.newId, ofBytes_toString_bytes]
  exact Nat.lt_of_le_of_lt hlen (by decide)

theorem CStr.short_empty : CStr.empty.Short := by decide

theorem short_OK : (CStr.ofBytes (lit "OK")).Short := by decide +kernel

/-- A string read from a body is no longer than that. -/
theorem length_getMember {δ : Type} [Doubles δ] {text s : CStr} {name : String} (hlen : text.bytes.length < 2 ^ 32)
    (h : (parsed (Document.parse δ) text).getMember name Json.asString = .ok s) :
    s.bytes.length ≤ text.bytes.length := by
  obtain ⟨ms, value, hdoc, hfind, hstring⟩ := Json.getMember_eq_ok.mp h
  have hparse : Document.parse δ text = some (.object ms) := by
    unfold parsed at hdoc
    cases hp : Document.parse δ text with
    | none => simp [hp] at hdoc
    | some v => simpa [hp] using hdoc
  cases value with
  | string str =>
    have hmember := (Document.parse_sound hlen hparse).member_le (List.mem_of_find?_eq_some hfind)
    obtain rfl := Option.some.inj hstring
    exact Nat.le_trans (List.takeWhile_sublist _).length_le hmember
  | null | bool | int | number | array | object => cases hstring

theorem loginAccountReq_short {δ : Type} [Doubles δ] {body : Bytes} (hbody : body.length < 2 ^ 24)
    {req : LoginAccountReq} (h : loginAccountReq (Document.parse δ) body = .ok req) : req.account.Short := by
  obtain ⟨account, haccount, h⟩ := bind_eq_ok.mp h
  obtain ⟨password, -, h⟩ := bind_eq_ok.mp h
  obtain ⟨isCrypto, -, h⟩ := bind_eq_ok.mp h
  cases h
  have htext : (CStr.ofBytes body).bytes.length < 2 ^ 24 :=
    Nat.lt_of_le_of_lt (List.takeWhile_sublist _).length_le hbody
  exact Nat.lt_of_le_of_lt (length_getMember (by omega) haccount) htext

/-! ## The answers of the login handlers -/

namespace LoginRet

/-- `retcode`, an `int`. -/
def code (ret : LoginRet) : Int32 := .ofInt ret.retcode

/-- The calls of `accountJson`. -/
def accountCalls (ret : LoginRet) : List Call :=
  [.startObject, .name "retcode", .int ret.code, .name "message", .string (CStr.ofBytes (lit ret.message)).bytes,
    .name "data", .startObject, .name "account",
    .startObject, .name "uid", .string ret.uid.bytes, .name "name", .string ret.name.bytes,
    .name "email", .text "EyPSEmail", .name "mobile", .text " ", .name "is_email_verify", .text "0",
    .name "realname", .text " ", .name "identity_card", .text " ", .name "token", .string ret.token.bytes,
    .name "safe_mobile", .text "", .name "facebook_name", .text "", .name "google_name", .text "",
    .name "twitter_name", .text "", .name "game_center_name", .text "", .name "apple_name", .text "",
    .name "sony_name", .text "", .name "tap_name", .text "", .name "country", .text "US",
    .name "reactivate_ticket", .text "", .name "area_code", .text "**", .endObject, .endObject,
    .name "device_grant_required", .bool false, .name "safe_mobile_required", .bool false,
    .name "realperson_required", .bool false, .name "reactivate_required", .bool false,
    .name "realname_operation", .text "None", .endObject]

def accountJson (ret : LoginRet) : Option CStr := printed ret.accountCalls

/-- What they describe. -/
def document (ret : LoginRet) : Json :=
  let text (s : String) : Json := .string (lit s)
  .members [("retcode", .ofInt ret.code.toInt), ("message", .string (CStr.ofBytes (lit ret.message)).bytes),
    ("data", .members [("account", .members [("uid", .string ret.uid.bytes), ("name", .string ret.name.bytes),
      ("email", text "EyPSEmail"), ("mobile", text " "), ("is_email_verify", text "0"), ("realname", text " "),
      ("identity_card", text " "), ("token", .string ret.token.bytes), ("safe_mobile", text ""),
      ("facebook_name", text ""), ("google_name", text ""), ("twitter_name", text ""),
      ("game_center_name", text ""), ("apple_name", text ""), ("sony_name", text ""), ("tap_name", text ""),
      ("country", text "US"), ("reactivate_ticket", text ""), ("area_code", text "**")])]),
    ("device_grant_required", .bool false), ("safe_mobile_required", .bool false),
    ("realperson_required", .bool false), ("reactivate_required", .bool false), ("realname_operation", text "None")]

theorem describes_accountCalls (ret : LoginRet) : describes ret.accountCalls = some ret.document := by
  refine Described.describes_startObject ?_
  simp only [Described.calls_name, Described.calls_string, Described.calls_bool, Described.calls_int,
    Described.calls_startObject, Described.calls_endObject, List.nil_append, List.cons_append]
  rfl

/-- The fields that vary. -/
structure Short (ret : LoginRet) : Prop where
  message : (CStr.ofBytes (lit ret.message)).Short
  uid : ret.uid.Short
  name : ret.name.Short
  token : ret.token.Short

theorem short_ok {uid name token : CStr} (huid : uid.Short) (hname : name.Short) (htoken : token.Short) :
    (LoginRet.ok uid name token).Short := ⟨short_OK, huid, hname, htoken⟩

theorem short_failed {message : String} (h : (CStr.ofBytes (lit message)).Short) :
    ({ LoginRet.new with retcode := -201, message := message } : LoginRet).Short :=
  ⟨h, CStr.short_empty, CStr.short_empty, CStr.short_empty⟩

theorem accountCalls_size (ret : LoginRet) : Call.sizes ret.accountCalls =
    Call.sizes LoginRet.new.accountCalls + 6 * ((CStr.ofBytes (lit ret.message)).bytes.length +
      ret.uid.bytes.length + ret.name.bytes.length + ret.token.bytes.length) := by
  have hnone : (CStr.ofBytes (lit "")).bytes.length = 0 := by decide +kernel
  have hempty : CStr.empty.bytes.length = 0 := rfl
  simp only [accountCalls, LoginRet.new, Call.sizes, Call.size, hnone, hempty]
  ring

theorem Short.size_lt {ret : LoginRet} (h : ret.Short) : Call.sizes ret.accountCalls < 2 ^ 32 := by
  obtain ⟨hmessage, huid, hname, htoken⟩ := h
  have hnew : Call.sizes LoginRet.new.accountCalls < 2 ^ 24 := by decide +kernel
  unfold CStr.Short at hmessage huid hname htoken
  rw [accountCalls_size]
  omega

/-- The fields a client reads. -/
theorem document_path (ret : LoginRet) :
    ret.document.path ["retcode"] = .ok (.int ret.code) ∧
    ret.document.path ["message"] = .ok (.string (CStr.ofBytes (lit ret.message)).bytes) ∧
    ret.document.path ["data", "account", "uid"] = .ok (.string ret.uid.bytes) ∧
    ret.document.path ["data", "account", "name"] = .ok (.string ret.name.bytes) ∧
    ret.document.path ["data", "account", "token"] = .ok (.string ret.token.bytes) := by
  simp [document, Json.path, Json.findMember_members, Json.ofInt_toInt]

end LoginRet

namespace ComboTokenRes

def code (ret : ComboTokenRes) : Int32 := .ofInt ret.retcode

/-- The calls of `ComboTokenJson`. -/
def comboTokenCalls (ret : ComboTokenRes) : List Call :=
  [.startObject, .name "retcode", .int ret.code, .name "message", .string (CStr.ofBytes (lit ret.message)).bytes,
    .name "data", .startObject, .name "combo_id", .string (CStr.ofBytes (lit ret.comboId)).bytes,
    .name "open_id", .string ret.openId.bytes, .name "combo_token", .string ret.comboToken.bytes,
    .name "data", .startObject, .name "guest", .bool false, .endObject, .name "heartbeat", .bool false,
    .name "account_type", .int 1, .endObject, .endObject]

def comboTokenJson (ret : ComboTokenRes) : Option CStr := printed ret.comboTokenCalls

def document (ret : ComboTokenRes) : Json :=
  .members [("retcode", .ofInt ret.code.toInt), ("message", .string (CStr.ofBytes (lit ret.message)).bytes),
    ("data", .members [("combo_id", .string (CStr.ofBytes (lit ret.comboId)).bytes),
      ("open_id", .string ret.openId.bytes), ("combo_token", .string ret.comboToken.bytes),
      ("data", .members [("guest", .bool false)]), ("heartbeat", .bool false), ("account_type", .ofInt 1)])]

theorem describes_comboTokenCalls (ret : ComboTokenRes) : describes ret.comboTokenCalls = some ret.document := by
  refine Described.describes_startObject ?_
  simp only [Described.calls_name, Described.calls_string, Described.calls_bool, Described.calls_int,
    Described.calls_startObject, Described.calls_endObject, List.nil_append, List.cons_append]
  rfl

structure Short (ret : ComboTokenRes) : Prop where
  message : (CStr.ofBytes (lit ret.message)).Short
  comboId : (CStr.ofBytes (lit ret.comboId)).Short
  comboToken : ret.comboToken.Short
  openId : ret.openId.Short

theorem short_ok {openId comboToken : CStr} (hid : openId.Short) (htoken : comboToken.Short) :
    (ComboTokenRes.ok openId comboToken).Short :=
  ⟨short_OK, (by decide +kernel : (CStr.ofBytes (lit "123456789")).Short), htoken, hid⟩

theorem short_failed {message : String} (h : (CStr.ofBytes (lit message)).Short) :
    ({ ComboTokenRes.new with retcode := -201, message := message } : ComboTokenRes).Short :=
  ⟨h, (by decide +kernel : (CStr.ofBytes (lit "")).Short), CStr.short_empty, CStr.short_empty⟩

theorem comboTokenCalls_size (ret : ComboTokenRes) : Call.sizes ret.comboTokenCalls =
    Call.sizes ComboTokenRes.new.comboTokenCalls + 6 * ((CStr.ofBytes (lit ret.message)).bytes.length +
      (CStr.ofBytes (lit ret.comboId)).bytes.length + ret.comboToken.bytes.length + ret.openId.bytes.length) := by
  have hnone : (CStr.ofBytes (lit "")).bytes.length = 0 := by decide +kernel
  have hempty : CStr.empty.bytes.length = 0 := rfl
  simp only [comboTokenCalls, ComboTokenRes.new, Call.sizes, Call.size, hnone, hempty]
  ring

theorem Short.size_lt {ret : ComboTokenRes} (h : ret.Short) : Call.sizes ret.comboTokenCalls < 2 ^ 32 := by
  obtain ⟨hmessage, hcombo, htoken, hid⟩ := h
  have hnew : Call.sizes ComboTokenRes.new.comboTokenCalls < 2 ^ 24 := by decide +kernel
  unfold CStr.Short at hmessage hcombo htoken hid
  rw [comboTokenCalls_size]
  omega

theorem document_path (ret : ComboTokenRes) :
    ret.document.path ["retcode"] = .ok (.int ret.code) ∧
    ret.document.path ["message"] = .ok (.string (CStr.ofBytes (lit ret.message)).bytes) ∧
    ret.document.path ["data", "combo_id"] = .ok (.string (CStr.ofBytes (lit ret.comboId)).bytes) ∧
    ret.document.path ["data", "open_id"] = .ok (.string ret.openId.bytes) ∧
    ret.document.path ["data", "combo_token"] = .ok (.string ret.comboToken.bytes) := by
  simp [document, Json.path, Json.findMember_members, Json.ofInt_toInt]

end ComboTokenRes

/-! What an authenticator answers is short, where what it is asked and what it stores is. -/

section Short

variable {db db' : DB} {newToken newKey : Token}

theorem pwdAuthenticate_short (hdb : db.Short) {name : CStr} (hname : name.Short) (hkey : newKey.str.Short)
    {ret : LoginRet} (h : (pwdAuthenticate name newToken newKey).run Op.exec db = some (ret, db')) : ret.Short := by
  have hfailed : (CStr.ofBytes (lit "account_create_error")).Short := by decide +kernel
  cases hknows : db.knows name with
  | true =>
    obtain ⟨doc, hdoc, -, hrun⟩ := run_pwdAuthenticate_known db hknows newToken newKey
    rw [hrun] at h
    split at h
    · cases h
      exact LoginRet.short_failed hfailed
    · cases h
      exact LoginRet.short_ok (hdb doc hdoc).1 hname hkey
  | false =>
    rw [run_pwdAuthenticate_new db hknows] at h
    split at h
    · cases h
    · split at h
      · cases h
        exact LoginRet.short_failed hfailed
      · cases h
        exact LoginRet.short_ok db.newId_short hname hkey

theorem tokenAuthenticate_short (hdb : db.Short) {uid token : CStr} {ret : LoginRet}
    (h : (tokenAuthenticate uid token).run Op.exec db = some (ret, db')) : ret.Short := by
  rcases run_tokenAuthenticate_cases db uid token with ⟨doc, hdoc, rfl, -, rfl, hrun⟩ | ⟨-, hrun⟩
  · cases hrun.symm.trans h
    exact LoginRet.short_ok (hdb doc hdoc).1 CStr.short_empty (hdb doc hdoc).2.2
  · cases hrun.symm.trans h
    exact LoginRet.short_failed (by decide +kernel)

theorem sessionKeyAuthenticate_short (hdb : db.Short) {uid token : CStr} (htoken : newToken.str.Short)
    {ret : ComboTokenRes} (h : (sessionKeyAuthenticate uid token newToken).run Op.exec db = some (ret, db')) :
    ret.Short := by
  rcases run_sessionKeyAuthenticate db uid token newToken with ⟨doc, hdoc, rfl, -, rfl, hrun⟩ | ⟨-, hrun⟩
  · cases hrun.symm.trans h
    exact ComboTokenRes.short_ok (hdb doc hdoc).1 htoken
  · cases hrun.symm.trans h
    exact ComboTokenRes.short_failed (by decide +kernel)

end Short

/-! ## The answers of `GenericHandler` -/

def procVerCalls : List Call :=
  [.startObject, .name "retcode", .int 0, .name "message", .text "OK", .name "data", .startObject,
    .name "modified", .bool true, .name "protocol", .startObject, .name "id", .int 0, .name "app_id", .int 4,
    .name "language", .text "en", .name "user_proto", .text " ", .name "priv_proto", .text " ",
    .name "major", .int 7, .name "minimum", .int 0, .name "create_time", .text "0",
    .name "teenager_proto", .text " ", .name "third_proto", .text " ", .endObject, .endObject, .endObject]

def getAgreementInfosCalls : List Call :=
  [.startObject, .name "retcode", .int 0, .name "message", .text "OK", .name "data", .startObject,
    .name "marketing_agreements", .startArray, .endArray, .endObject, .endObject]

def accountCheckCalls : List Call :=
  [.startObject, .name "retcode", .int 0, .name "message", .text "OK", .name "data", .startObject,
    .name "id", .text "none", .name "action", .text "ACTION_NONE", .name "geetest", .null, .endObject, .endObject]

def comboCalls : List Call :=
  [.startObject, .name "data", .startObject, .name "vals", .startObject,
    .name "disable_email_bind_skip", .text "false", .name "email_bind_remind", .text "true",
    .name "email_bind_remind_interval", .text "7", .endObject, .endObject, .name "message", .text "OK",
    .name "retcode", .uint 0, .endObject]

/-- After the message an object is opened without a name. -/
def getConfigCalls : List Call :=
  [.startObject, .name "retcode", .int 0, .name "message", .text "OK", .startObject,
    .name "announce_url", .text "www.baidu.com", .name "disable_ysdk_guard", .bool false,
    .name "enable_announce_pic_popup", .bool true, .name "log_level", .text "INFO", .name "protocol", .bool true,
    .name "push_alias_type", .int 2, .name "qr_enabled", .bool false, .endObject, .endObject]

def loadConfigCalls : List Call :=
  [.startObject, .name "client", .text "PC", .name "disable_mmt", .bool false,
    .name "enable_email_captcha", .bool false, .name "enable_ps_bind_account", .bool false,
    .name "disable_regist", .bool false, .name "game_key", .text "game_key", .name "guest", .bool false,
    .name "id", .int 6, .name "identity", .text "I_IDENTITY", .name "ignore_versions", .text "",
    .name "name", .text "ps", .name "scene", .text "S_NORMAL", .name "server_guest", .bool false,
    .name "thirdparty", .startArray, .text "fb", .text "tw", .endArray,
    .name "thirdparty_ignore", .startObject, .name "tw", .text "", .name "fb", .text "", .endObject,
    .name "thirdparty_login_configs", .startObject,
    .name "tw", .startObject, .name "token_type", .text "TK_GAME_TOKEN",
    .name "game_token_expires_in", .int 604800, .endObject,
    .name "fb", .startObject, .name "token_type", .text "TK_GAME_TOKEN",
    .name "game_token_expires_in", .int 604800, .endObject, .endObject, .endObject]

def sdkDataUploadCalls : List Call := [.startObject, .name "code", .uint 0, .endObject]

/-- Their calls describe documents, those of `/getConfig` apart. -/
theorem generic_describes : ∀ cs ∈ [procVerCalls, getAgreementInfosCalls, accountCheckCalls, comboCalls,
    loadConfigCalls, sdkDataUploadCalls], (describes cs).isSome = true ∧ Call.sizes cs < 2 ^ 32 := by
  decide +kernel

theorem getConfig_asserts : printed getConfigCalls = none := by
  decide +kernel

/-! ## In a session -/

section Session

variable (δ : Type) [Doubles δ] (db : DB) (body : Bytes) (newToken newKey : Token) (respond : Lambda → Option CStr)

/-- The bodies of the responses of `GenericHandler` and `LoginHandler`, the others
being given. -/
def respondJson : Lambda → Option CStr
  | .procVer => printed procVerCalls
  | .getAgreementInfos => printed getAgreementInfosCalls
  | .account => printed accountCheckCalls
  | .combo => printed comboCalls
  | .getConfig => printed getConfigCalls
  | .loadConfig => printed loadConfigCalls
  | .sdkDataUpload => printed sdkDataUploadCalls
  | .clientLogin => (answerOf db (handleLogin (Document.parse δ) body newToken newKey)).bind LoginRet.accountJson
  | .tokenLogin => (answerOf db (handleTokenV (Document.parse δ) body)).bind LoginRet.accountJson
  | .sessionKeyLogin =>
    (answerOf db (handleSessionKey (Document.parse δ) body newToken)).bind ComboTokenRes.comboTokenJson
  | l => respond l

/-- The lambda returns: a login's body is complete, and no account has the `_id` that
a new one would get. -/
def Answers : Lambda → Prop
  | .getConfig => False
  | .clientLogin => ∃ req, loginAccountReq (Document.parse δ) body = .ok req ∧
    (db.knows req.account = true ∨ db.idTaken = false)
  | .tokenLogin => CompleteTokenV (parsed (Document.parse δ) (.ofBytes body))
  | .sessionKeyLogin => CompleteSessionKey (Document.parse δ) (parsed (Document.parse δ) (.ofBytes body))
  | _ => True

/-- A login is answered unless its insert throws. -/
theorem run_pwdAuthenticate_isSome (name : CStr) : ((pwdAuthenticate name newToken newKey).run Op.exec db).isSome =
    true ↔ db.knows name = true ∨ db.idTaken = false := by
  cases hknows : db.knows name with
  | true =>
    obtain ⟨doc, -, -, hrun⟩ := run_pwdAuthenticate_known db hknows newToken newKey
    rw [hrun]
    split <;> simp
  | false =>
    rw [run_pwdAuthenticate_new db hknows]
    cases db.idTaken with
    | true => simp
    | false =>
      simp only [Bool.false_eq_true, if_false]
      split <;> simp

/-- A text to be sent: where this holds it is a JSON text, else there is none. -/
def Shown (holds : Prop) (text : Option CStr) : Prop :=
  (holds ∧ ∃ t v, text = some t ∧ Document.parse δ t = some v) ∨ (¬ holds ∧ text = none)

variable {δ}

theorem Shown.printed {cs : List Call} (h : (describes cs).isSome = true ∧ Call.sizes cs < 2 ^ 32) :
    Shown δ True (printed cs) := by
  obtain ⟨v, hv⟩ := Option.isSome_iff_exists.mp h.1
  obtain ⟨text, htext, hparse⟩ := printed_read_back δ h.2 hv
  exact .inl ⟨trivial, text, v, htext, hparse⟩

/-- An authenticator's answer, printed. -/
theorem Shown.answer {α : Type} {rsp : Option α} {calls : α → List Call} {document : α → Json} {holds : Prop}
    (hcalls : ∀ a, describes (calls a) = some (document a))
    (hsize : ∀ a, rsp = some a → Call.sizes (calls a) < 2 ^ 32) (h : rsp.isSome = true ↔ holds) :
    Shown δ holds (rsp.bind fun a => EyPS.printed (calls a)) := by
  cases rsp with
  | none => exact .inr ⟨fun hholds => Bool.false_ne_true (h.mpr hholds), rfl⟩
  | some a =>
    obtain ⟨text, htext, hparse⟩ := printed_read_back δ (hsize a rfl) (hcalls a)
    exact .inl ⟨h.mp rfl, text, document a, htext, hparse⟩

/-- A login is answered by a complete body, if its insert does not throw. -/
theorem handleLogin_isSome : (answerOf db (handleLogin (Document.parse δ) body newToken newKey)).isSome = true ↔
    Answers δ db body .clientLogin := by
  unfold Answers handleLogin
  cases hreq : loginAccountReq (Document.parse δ) body with
  | error e => exact iff_of_false Bool.false_ne_true fun ⟨req, h, _⟩ => nomatch h
  | ok req =>
    show (((pwdAuthenticate req.account newToken newKey).run Op.exec db).map (·.1)).isSome = true ↔ _
    rw [Option.isSome_map, run_pwdAuthenticate_isSome]
    constructor
    · intro h
      exact ⟨req, rfl, h⟩
    · intro h
      obtain ⟨req', hreq', h⟩ := h
      cases hreq'
      exact h

theorem handleTokenV_isSome : (answerOf db (handleTokenV (Document.parse δ) body)).isSome = true ↔
    Answers δ db body .tokenLogin := by
  unfold Answers
  rw [← loginTokenReq_ok_iff]
  refine answerOf_isSome_iff db fun req => ?_
  obtain ⟨rsp, hrun⟩ := run_tokenAuthenticate db req.uid req.token
  exact ⟨_, hrun⟩

theorem handleSessionKey_isSome : (answerOf db (handleSessionKey (Document.parse δ) body newToken)).isSome = true ↔
    Answers δ db body .sessionKeyLogin := by
  unfold Answers
  rw [← comboTokenReq_ok_iff]
  refine answerOf_isSome_iff db fun req => ?_
  rcases run_sessionKeyAuthenticate db req.uid req.token newToken with ⟨_, _, _, _, _, hrun⟩ | ⟨_, hrun⟩
  · exact ⟨_, hrun⟩
  · exact ⟨_, hrun⟩

variable {db body newToken newKey}

/-- An answer is one of the handler's authenticator to the request it read. -/
theorem answerOf_some {α β : Type} {request : Except Misuse α} {authenticate : α → Query β} {ret : β}
    (h : answerOf db (do let req ← request; return authenticate req) = some ret) :
    ∃ req db', request = .ok req ∧ (authenticate req).run Op.exec db = some (ret, db') := by
  cases request with
  | error e => cases h
  | ok req =>
    obtain ⟨⟨ret', db'⟩, hrun, rfl⟩ := Option.map_eq_some_iff.mp h
    exact ⟨req, db', rfl, hrun⟩

variable (hdb : db.Short) (hbody : body.length < 2 ^ 24) (htoken : newToken.str.Short) (hkey : newKey.str.Short)

include hdb hbody htoken hkey

variable (δ)

theorem respondJson_shown {r : List Char × Lambda} (hr : r ∈ genericRoutes ++ loginRoutes) :
    Shown δ (Answers δ db body r.2) (respondJson δ db body newToken newKey respond r.2) := by
  have hdescribes := generic_describes
  simp only [List.forall_mem_cons] at hdescribes
  obtain ⟨hver, hagree, hcheck, hcombo, hload, hupload, -⟩ := hdescribes
  simp only [genericRoutes, loginRoutes, List.cons_append, List.nil_append, List.mem_cons, List.not_mem_nil,
    or_false] at hr
  rcases hr with rfl | rfl | rfl | rfl | rfl | rfl | rfl | rfl | rfl | rfl
  · exact .printed hver
  · exact .printed hagree
  · exact .printed hcheck
  · exact .printed hcombo
  · exact .inr ⟨id, getConfig_asserts⟩
  · exact .printed hload
  · exact .printed hupload
  · refine .answer LoginRet.describes_accountCalls (fun ret h => ?_) (handleLogin_isSome db body newToken newKey)
    obtain ⟨req, db', hreq, hrun⟩ := answerOf_some h
    exact (pwdAuthenticate_short hdb (loginAccountReq_short hbody hreq) hkey hrun).size_lt
  · refine .answer LoginRet.describes_accountCalls (fun ret h => ?_) (handleTokenV_isSome db body)
    obtain ⟨req, db', -, hrun⟩ := answerOf_some h
    exact (tokenAuthenticate_short hdb hrun).size_lt
  · refine .answer ComboTokenRes.describes_comboTokenCalls (fun ret h => ?_) (handleSessionKey_isSome db body newToken)
    obtain ⟨req, db', -, hrun⟩ := answerOf_some h
    exact (sessionKeyAuthenticate_short hdb htoken hrun).size_lt

/-- **What `on_read` sends** to a target of `GenericHandler` or `LoginHandler` is one
JSON text, whatever the body and the names and tokens in the database; it sends
nothing, and does not return, exactly to `/getConfig`, to a body that lacks a
member, and where a new account's insert throws. (A body that `Parse` does not
return from lacks all members here.) -/
theorem onRead_sends_json {target : List Char} {r : List Char × Lambda} (hr : r ∈ genericRoutes ++ loginRoutes)
    (h : r.1 <+: target) :
    (Answers δ db body r.2 ∧ ∃ text v,
      onRead (respondJson δ db body newToken newKey respond) target = ([text], none) ∧
      Document.parse δ text = some v) ∨
    (¬ Answers δ db body r.2 ∧
      onRead (respondJson δ db body newToken newKey respond) target = ([], some (.lambda r.2))) := by
  have hrouted : Routed target r.2 := .table (List.mem_append_right _ hr) h
  rw [onRead_routed hrouted, answer]
  rcases respondJson_shown δ respond hdb hbody htoken hkey hr with ⟨hanswers, t, v, ht, hparse⟩ | ⟨hno, ht⟩
  · refine .inl ⟨hanswers, t, v, ?_, hparse⟩
    rw [ht]
  · refine .inr ⟨hno, ?_⟩
    rw [ht]

end Session

/-- The body `{"account":"a","password":"","is_crypto":true}`. -/
def loginBody : Bytes := lit "\x7b\"account\":\"a\",\"password\":\"\",\"is_crypto\":true\x7d"

/-- The same with a member that `Parse` does not return from. -/
def abortingBody : Bytes :=
  lit "\x7b\"account\":\"a\",\"password\":\"\",\"is_crypto\":true,\"n\":1.0000000001e-2147483639\x7d"

theorem exists_ok {ε α β : Type} {result : Except ε α} {f : α → β} {b : β} (h : result.toOption.map f = some b) :
    ∃ a, result = .ok a ∧ f a = b := by
  cases result with
  | error e => cases h
  | ok a => exact ⟨a, rfl, Option.some.inj h⟩

theorem loginBody_req : ∃ req, loginAccountReq (Document.parse Nat) loginBody = .ok req ∧
    req.account = .ofBytes [0x61] := exists_ok (by decide +kernel)

/-- A login is answered, one with the other body is not, and `/getConfig` never is. -/
theorem onRead_sends_json_login :
    let respond (body : Bytes) := respondJson Nat .empty body (.sample 1) (.sample 2) fun _ => none
    (∃ text v, onRead (respond loginBody) "login".toList = ([text], none) ∧ Document.parse Nat text = some v) ∧
    onRead (respond abortingBody) "login".toList = ([], some (.lambda .clientLogin)) ∧
    onRead (respond loginBody) "/getConfig".toList = ([], some (.lambda .getConfig)) := by
  intro respond
  have hlogin : ("login".toList, Lambda.clientLogin) ∈ genericRoutes ++ loginRoutes := by decide
  have hconfig : ("/getConfig".toList, Lambda.getConfig) ∈ genericRoutes ++ loginRoutes := by decide
  have hbody : loginBody.length < 2 ^ 24 := by decide +kernel
  have habort : abortingBody.length < 2 ^ 24 := by decide +kernel
  have hkey : (Token.sample 2).str.Short := by decide
  have htoken : (Token.sample 1).str.Short := by decide
  refine ⟨?_, ?_, ?_⟩
  · rcases onRead_sends_json Nat (fun _ => none) DB.short_empty hbody htoken hkey hlogin (List.prefix_rfl) with
      ⟨-, h⟩ | ⟨hno, -⟩
    · exact h
    · obtain ⟨req, hreq, -⟩ := loginBody_req
      exact absurd ⟨req, hreq, .inr rfl⟩ hno
  · rcases onRead_sends_json Nat (fun _ => none) DB.short_empty habort htoken hkey hlogin (List.prefix_rfl) with
      ⟨⟨req, hreq, -⟩, -⟩ | ⟨-, h⟩
    · have hread : (loginAccountReq (Document.parse Nat) abortingBody).toOption.isSome = false := by decide +kernel
      rw [hreq] at hread
      cases hread
    · exact h
  · rcases onRead_sends_json Nat (fun _ => none) DB.short_empty hbody htoken hkey hconfig (List.prefix_rfl) with
      ⟨hanswers, -⟩ | ⟨-, h⟩
    · exact hanswers.elim
    · exact h

end EyPS
