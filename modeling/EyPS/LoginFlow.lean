/-
A client that logs in, over the texts themselves: the uid and the token it reads
in the answer to its login are what `handleTokenV` and `handleSessionKey`
accept next, and with the uid no other token is.

The logins before it come in any order, one at a time, from an empty database;
as for the keys alone, no call used the empty account name.
-/
import EyPS.IssuedKeys
import EyPS.JsonResponses

namespace EyPS

open Collection Atomic Runs

/-- What a client reads of a handler's answer, and the database after it. -/
def replyOf {α : Type} (δ : Type) [Doubles δ] (json : α → Option CStr) (db : DB) :
    Except Misuse (Query α) → Option (Json × DB)
  | .ok query =>
    match query.run Op.exec db with
    | some (rsp, db') => ((json rsp).bind (Document.parse δ)).map fun doc => (doc, db')
    | none => none
  | .error _ => none

section Reply

variable {δ : Type} [Doubles δ] {db db' : DB}

theorem replyOf_printed {α : Type} {calls : α → List Call} {document : α → Json} {query : Query α} {rsp : α}
    (hcalls : ∀ a, describes (calls a) = some (document a)) (hsize : Call.sizes (calls rsp) < 2 ^ 32)
    (hrun : query.run Op.exec db = some (rsp, db')) :
    replyOf δ (fun a => printed (calls a)) db (.ok query) = some (document rsp, db') := by
  obtain ⟨text, htext, hparse⟩ := printed_read_back δ hsize (hcalls rsp)
  simp only [replyOf, hrun, htext, Option.bind_some, hparse, Option.map_some]

end Reply

/-! ## The uids -/

section Ids

variable {db db' : DB}

/-- A record keeps its `_id`, and a new one is `newId`. -/
theorem authenticate_ids {r : Request} {rsp : Response} (h : r.authenticate.run Op.exec db = some (rsp, db')) :
    ∀ doc ∈ db'.account, doc.id = db.newId ∨ ∃ doc' ∈ db.account, doc'.id = doc.id := by
  have hkept : ∀ {p : AccountDoc → Bool} {f : AccountDoc → AccountDoc}, (∀ doc, (f doc).id = doc.id) →
      ∀ doc ∈ updateFirst p f db.account, doc.id = db.newId ∨ ∃ doc' ∈ db.account, doc'.id = doc.id :=
    fun hf => forall_updateFirst (fun doc hdoc => .inr ⟨doc, hdoc, rfl⟩) fun doc hdoc => .inr ⟨doc, hdoc, (hf doc).symm⟩
  have hcreated : ∀ name newToken, ∀ doc ∈ (db.created name newToken).account,
      doc.id = db.newId ∨ ∃ doc' ∈ db.account, doc'.id = doc.id := by
    intro name newToken doc hdoc
    rcases List.mem_append.mp hdoc with hdoc | hdoc
    · exact hkept (f := (·.setToken newToken.str)) (fun _ => rfl) doc hdoc
    · exact .inl (congrArg AccountDoc.id (List.mem_singleton.mp hdoc))
  cases r with
  | pwd name newToken newKey =>
    obtain ⟨⟨ret, db₁⟩, hrun, he⟩ := Option.bind_eq_some_iff.mp ((Prog.run_bind ..).symm.trans h)
    cases he
    cases hknows : db.knows name with
    | true =>
      obtain ⟨known, -, -, hknown⟩ := run_pwdAuthenticate_known db hknows newToken newKey
      rw [hknown] at hrun
      split at hrun <;> cases hrun
      · exact fun doc hdoc => .inr ⟨doc, hdoc, rfl⟩
      · exact hkept fun _ => rfl
    | false =>
      rw [run_pwdAuthenticate_new db hknows] at hrun
      split at hrun
      · cases hrun
      · split at hrun <;> cases hrun
        · exact hcreated name newToken
        · exact forall_updateFirst (hcreated name newToken) (hcreated name newToken)
  | token uid tok =>
    obtain ⟨ret, hrun⟩ := run_tokenAuthenticate db uid tok
    obtain ⟨⟨ret', db₁⟩, hrun', he⟩ := Option.bind_eq_some_iff.mp ((Prog.run_bind ..).symm.trans h)
    cases he
    cases hrun.symm.trans hrun'
    exact fun doc hdoc => .inr ⟨doc, hdoc, rfl⟩
  | sessionKey uid tok newToken =>
    obtain ⟨⟨ret, db₁⟩, hrun, he⟩ := Option.bind_eq_some_iff.mp ((Prog.run_bind ..).symm.trans h)
    cases he
    rcases run_sessionKeyAuthenticate db uid tok newToken with ⟨_, _, _, _, _, hdone⟩ | ⟨_, hdone⟩
    · cases hdone.symm.trans hrun
      exact hkept fun _ => rfl
    · cases hdone.symm.trans hrun
      exact fun doc hdoc => .inr ⟨doc, hdoc, rfl⟩

/-- The uids after a history are short: each was the text of an `int`. -/
theorem uids_short (history : List Request) : ∀ doc ∈ (final serve .empty history).account, doc.id.Short := by
  refine inv (fun db : DB => ∀ doc ∈ db.account, doc.id.Short) (fun db r hdb => ?_) fun _ h => nomatch h
  unfold serve
  cases h : r.authenticate.run Op.exec db with
  | none => exact hdb
  | some result =>
    intro doc hdoc
    rcases authenticate_ids h doc hdoc with hid | ⟨doc', hdoc', hid⟩
    · exact hid ▸ db.newId_short
    · exact hid ▸ hdb doc' hdoc'

end Ids

/-! ## The login -/

/-- A login that is not refused and whose insert does not throw. -/
theorem run_login {db : DB} {name : CStr} (hname : name ≠ .empty)
    (h : db.knows name = true ∨ db.idTaken = false) (newToken newKey : Token) :
    ∃ uid db', (uid = db.newId ∨ ∃ doc ∈ db.account, doc.id = uid) ∧
      (pwdAuthenticate name newToken newKey).run Op.exec db = some (.ok uid name newKey.str, db') := by
  cases hknows : db.knows name with
  | true =>
    obtain ⟨doc, hdoc, -, hrun⟩ := run_pwdAuthenticate_known db hknows newToken newKey
    rw [if_neg hname] at hrun
    exact ⟨_, _, .inr ⟨doc, hdoc, rfl⟩, hrun⟩
  | false =>
    have hid : db.idTaken = false := h.resolve_left fun hk => Bool.false_ne_true (hknows.symm.trans hk)
    have hrun := run_pwdAuthenticate_new db hknows newToken newKey
    rw [hid, if_neg Bool.false_ne_true, if_neg hname] at hrun
    exact ⟨_, _, .inl rfl, hrun⟩

/-- After a login, the account with the uid it answered has the key it answered, and
that is the one key that is not refused. -/
structure LoggedIn (db : DB) (uid key : CStr) : Prop where
  only : ∀ doc ∈ db.account, doc.id = uid → doc.sessionKey = key
  accepted : ¬ db.Refuses uid key

theorem loggedIn_of_issued {db : DB} {calls : List Served} (hn : Named db.account calls)
    (hi : Issued db.account calls) {uid key : CStr} (h : lastIssued calls uid = some key) : LoggedIn db uid key := by
  rw [hi.last uid] at h
  obtain ⟨doc, hfind, rfl⟩ := Option.map_eq_some_iff.mp h
  have hdoc : doc ∈ db.account := List.mem_of_find?_eq_some hfind
  obtain rfl : doc.id = uid := by simpa using List.find?_some hfind
  refine ⟨fun doc' hdoc' hid => ?_, hn.not_refuses hdoc⟩
  rw [List.inj_on_of_nodup_map hn.ids hdoc' hdoc hid]

/-- A login after a history. -/
theorem login_after {history : List Request} {name : CStr} {newToken newKey : Token}
    (hc : AllSteps serve Completes .empty history)
    (hfresh : ((history ++ [Request.pwd name newToken newKey]).flatMap Request.drawn).Nodup)
    (hnamed : ∀ r ∈ history, ¬ r.asks .empty) (hname : name ≠ .empty)
    (hdb : (final serve .empty history).knows name = true ∨ (final serve .empty history).idTaken = false) :
    ∃ uid db', uid.Short ∧ (pwdAuthenticate name newToken newKey).run Op.exec (final serve .empty history) =
      some (.ok uid name newKey.str, db') ∧ LoggedIn db' uid newKey.str := by
  obtain ⟨uid, db', huid, hrun⟩ := run_login hname hdb newToken newKey
  have hshort : uid.Short := by
    rcases huid with rfl | ⟨doc, hdoc, rfl⟩
    · exact DB.newId_short _
    · exact uids_short history doc hdoc
  let r : Request := .pwd name newToken newKey
  have hauth : r.authenticate.run Op.exec (final serve .empty history) =
      some (.login (.ok uid name newKey.str), db') := by
    simp [r, Request.authenticate, Prog.run_bind, hrun]
  have hserve : serve (final serve .empty history) r = (db', [⟨r, .login (.ok uid name newKey.str)⟩]) := by
    simp only [serve, hauth]
  have hall : AllSteps serve Completes .empty (history ++ [r]) := by
    refine allSteps_append.mpr ⟨hc, ?_, trivial⟩
    show (r.authenticate.run Op.exec _).isSome = true
    rw [hauth]
    rfl
  have hasks : ∀ q ∈ history ++ [r], ¬ q.asks .empty := by
    intro q hq
    rcases List.mem_append.mp hq with hq | hq
    · exact hnamed q hq
    · rw [List.mem_singleton.mp hq]
      exact hname
  have hn := named_final hall
  have hi := issued_final hall hfresh hasks
  have hlast : lastIssued (log serve .empty (history ++ [r])) uid = some newKey.str := by
    rw [log_concat, hserve, lastIssued_concat, Served.issued_pwd, if_pos rfl]
    rfl
  have hfinal : final serve .empty (history ++ [r]) = db' := by rw [final_concat, hserve]
  rw [hfinal] at hn hi
  exact ⟨uid, db', hshort, hrun, loggedIn_of_issued hn hi hlast⟩

/-! ## What it is good for -/

section Accepted

variable {δ : Type} [Doubles δ] {db : DB} {uid key : CStr}

/-- The answer's `retcode` is 0. -/
def Json.Succeeded (doc : Json) : Prop := doc.path ["retcode"] = .ok (.int 0)

theorem LoginRet.succeeded_iff {ret : LoginRet} : ret.document.Succeeded ↔ ret.code = 0 := by
  rw [Json.Succeeded, ret.document_path.1, Except.ok.injEq, Json.int.injEq]

theorem ComboTokenRes.succeeded_iff {ret : ComboTokenRes} : ret.document.Succeeded ↔ ret.code = 0 := by
  rw [Json.Succeeded, ret.document_path.1, Except.ok.injEq, Json.int.injEq]

/-- A token check with the uid succeeds with the key only. -/
theorem LoggedIn.tokenV (h : LoggedIn db uid key) (hshort : uid.Short) (hkey : key.Short) {body : Bytes} {req : LoginTokenReq}
    (hreq : loginTokenReq (Document.parse δ) body = .ok req) (huid : req.uid = uid) :
    ∃ doc, replyOf δ LoginRet.accountJson db (handleTokenV (Document.parse δ) body) = some (doc, db) ∧
      (doc.Succeeded ↔ req.token = key) := by
  have hquery : handleTokenV (Document.parse δ) body = .ok (tokenAuthenticate req.uid req.token) := by
    rw [handleTokenV, hreq]
    rfl
  rw [hquery]
  rcases run_tokenAuthenticate_cases db req.uid req.token with ⟨doc, hdoc, hid, -, htoken, hrun⟩ | ⟨hwhy, hrun⟩
  · have hsame : req.token = key := by rw [← htoken, h.only doc hdoc (hid.trans huid)]
    have hret : (LoginRet.ok req.uid .empty req.token).Short :=
      LoginRet.short_ok (huid ▸ hshort) CStr.short_empty (hsame ▸ hkey)
    exact ⟨_, replyOf_printed LoginRet.describes_accountCalls hret.size_lt hrun,
      iff_of_true (LoginRet.succeeded_iff.mpr rfl) hsame⟩
  · have hret : ({ LoginRet.new with retcode := -201, message := "account_cache_error" } : LoginRet).Short :=
      LoginRet.short_failed (by decide +kernel)
    refine ⟨_, replyOf_printed LoginRet.describes_accountCalls hret.size_lt hrun, iff_of_false ?_ fun htoken => ?_⟩
    · rw [LoginRet.succeeded_iff]
      decide
    · rw [huid, htoken] at hwhy
      exact h.accepted hwhy

/-- So does a combo request, which answers with a new token. -/
theorem LoggedIn.sessionKey (h : LoggedIn db uid key) (hshort : uid.Short) {body : Bytes} {req : ComboTokenReq}
    {newToken : Token} (hnew : newToken.str.Short)
    (hreq : comboTokenReq (Document.parse δ) body = .ok req) (huid : req.uid = uid) :
    ∃ doc db', replyOf δ ComboTokenRes.comboTokenJson db (handleSessionKey (Document.parse δ) body newToken) =
        some (doc, db') ∧ (doc.Succeeded ↔ req.token = key) ∧
      (doc.Succeeded → doc.path ["data", "open_id"] = .ok (.string uid.bytes) ∧
        doc.path ["data", "combo_token"] = .ok (.string newToken.str.bytes)) := by
  have hquery : handleSessionKey (Document.parse δ) body newToken =
      .ok (sessionKeyAuthenticate req.uid req.token newToken) := by
    rw [handleSessionKey, hreq]
    rfl
  rw [hquery]
  rcases run_sessionKeyAuthenticate db req.uid req.token newToken with ⟨doc, hdoc, hid, -, hkey, hrun⟩ | ⟨hwhy, hrun⟩
  · have hret : (ComboTokenRes.ok req.uid newToken.str).Short := ComboTokenRes.short_ok (huid ▸ hshort) hnew
    refine ⟨_, _, replyOf_printed ComboTokenRes.describes_comboTokenCalls hret.size_lt hrun, iff_of_true ?_ ?_,
      fun _ => ?_⟩
    · exact ComboTokenRes.succeeded_iff.mpr rfl
    · rw [← hkey, h.only doc hdoc (hid.trans huid)]
    · obtain ⟨-, -, -, hopen, hcombo⟩ := (ComboTokenRes.ok req.uid newToken.str).document_path
      rw [huid] at hopen hcombo ⊢
      exact ⟨hopen, hcombo⟩
  · have hfailed : ¬ ({ ComboTokenRes.new with retcode := -201, message := "account_sessionKey_error" } :
        ComboTokenRes).document.Succeeded := by
      rw [ComboTokenRes.succeeded_iff]
      decide
    have hret : ({ ComboTokenRes.new with retcode := -201, message := "account_sessionKey_error" } :
        ComboTokenRes).Short := ComboTokenRes.short_failed (by decide +kernel)
    refine ⟨_, _, replyOf_printed ComboTokenRes.describes_comboTokenCalls hret.size_lt hrun,
      iff_of_false hfailed fun htoken => ?_, fun hdone => absurd hdone hfailed⟩
    rw [huid, htoken] at hwhy
    exact h.accepted hwhy

end Accepted

/-- The string a client reads at a path. -/
def Json.Reads (doc : Json) (names : List String) (text : CStr) : Prop := doc.path names = .ok (.string text.bytes)

theorem CStr.bytes_injective : Function.Injective CStr.bytes := by
  intro a b h
  cases a
  cases b
  cases h
  rfl

/-- **From a login to a combo token**: after any logins, one to a name that is not empty
is answered with a uid and a token; and of the requests that a client makes with
this uid, `handleTokenV` and `handleSessionKey` let exactly those succeed that
have this token. -/
theorem login_to_combo (δ : Type) [Doubles δ] {history : List Request} {body : Bytes} {req : LoginAccountReq}
    {newToken newKey : Token} (hc : AllSteps serve Completes .empty history)
    (hfresh : ((history ++ [Request.pwd req.account newToken newKey]).flatMap Request.drawn).Nodup)
    (hnamed : ∀ r ∈ history, ¬ r.asks .empty) (hreq : loginAccountReq (Document.parse δ) body = .ok req)
    (hname : req.account ≠ .empty) (hbody : body.length < 2 ^ 24) (hkey : newKey.str.Short)
    (hdb : (final serve .empty history).knows req.account = true ∨ (final serve .empty history).idTaken = false) :
    ∃ doc db, replyOf δ LoginRet.accountJson (final serve .empty history)
        (handleLogin (Document.parse δ) body newToken newKey) = some (doc, db) ∧
      doc.Succeeded ∧ doc.Reads ["data", "account", "name"] req.account ∧
      (∀ body' req', loginTokenReq (Document.parse δ) body' = .ok req' →
        doc.Reads ["data", "account", "uid"] req'.uid →
        ∃ doc', replyOf δ LoginRet.accountJson db (handleTokenV (Document.parse δ) body') = some (doc', db) ∧
          (doc'.Succeeded ↔ doc.Reads ["data", "account", "token"] req'.token)) ∧
      (∀ body' req' newToken', newToken'.str.Short → comboTokenReq (Document.parse δ) body' = .ok req' →
        doc.Reads ["data", "account", "uid"] req'.uid →
        ∃ doc' db', replyOf δ ComboTokenRes.comboTokenJson db
            (handleSessionKey (Document.parse δ) body' newToken') = some (doc', db') ∧
          (doc'.Succeeded ↔ doc.Reads ["data", "account", "token"] req'.token) ∧
          (doc'.Succeeded → doc'.Reads ["data", "open_id"] req'.uid ∧
            doc'.Reads ["data", "combo_token"] newToken'.str)) := by
  obtain ⟨uid, db, hshort, hrun, hin⟩ := login_after hc hfresh hnamed hname hdb
  obtain ⟨-, -, huid, hreqName, htoken⟩ := (LoginRet.ok uid req.account newKey.str).document_path
  have hreads : ∀ {names : List String} {s t : CStr},
      (LoginRet.ok uid req.account newKey.str).document.path names = .ok (.string s.bytes) →
      ((LoginRet.ok uid req.account newKey.str).document.Reads names t ↔ t = s) := by
    intro names s t hpath
    rw [Json.Reads, hpath, Except.ok.injEq, Json.string.injEq, CStr.bytes_injective.eq_iff]
    exact eq_comm
  have hquery : handleLogin (Document.parse δ) body newToken newKey =
      .ok (pwdAuthenticate req.account newToken newKey) := by
    rw [handleLogin, hreq]
    rfl
  refine ⟨(LoginRet.ok uid req.account newKey.str).document, db, ?_, LoginRet.succeeded_iff.mpr rfl, hreqName, ?_, ?_⟩
  · rw [hquery]
    have hret := LoginRet.short_ok hshort (loginAccountReq_short hbody hreq) hkey
    exact replyOf_printed LoginRet.describes_accountCalls hret.size_lt hrun
  · intro body' req' hreq' huid'
    rw [hreads huid] at huid'
    rw [hreads htoken]
    exact hin.tokenV hshort hkey hreq' huid'
  · intro body' req' newToken' hnew hreq' huid'
    rw [hreads huid] at huid'
    rw [hreads htoken, huid']
    exact hin.sessionKey hshort hnew hreq' huid'

/-! One login, after one to another account, and what its client asks then. -/

/-- The body `{"uid":"101","token":"4"}`, or with another digit. -/
def tokenBody (digit : String) : Bytes := lit ("\x7b\"uid\":\"101\",\"token\":\"" ++ digit ++ "\"\x7d")

/-- A combo request with the same. -/
def comboBody (digit : String) : Bytes :=
  lit ("\x7b\"app_id\":4,\"channel_id\":1,\"device\":\"d\",\"data\":\"\x7b\\\"uid\\\":\\\"101\\\"," ++
    "\\\"token\\\":\\\"" ++ digit ++ "\\\",\\\"guest\\\":false\x7d\"\x7d")

theorem tokenBody_read : ∀ digit ∈ ["3", "4"],
    (loginTokenReq (Document.parse Nat) (tokenBody digit)).toOption.map (fun req => (req.uid, req.token)) =
      some (.ofBytes (lit "101"), .ofBytes (lit digit)) := by
  decide +kernel

theorem comboBody_read : ∀ digit ∈ ["3", "4"],
    (comboTokenReq (Document.parse Nat) (comboBody digit)).toOption.map (fun req => (req.uid, req.token)) =
      some (.ofBytes (lit "101"), .ofBytes (lit digit)) := by
  decide +kernel

/-- The token 4 is what was read in the answer, 3 is not. -/
theorem login_to_combo_second :
    let history := [Request.pwd (.ofBytes [0x62]) (.sample 1) (.sample 2)]
    ∃ doc db, replyOf Nat LoginRet.accountJson (final serve .empty history)
        (handleLogin (Document.parse Nat) loginBody (.sample 3) (.sample 4)) = some (doc, db) ∧
      doc.Succeeded ∧ doc.Reads ["data", "account", "name"] (.ofBytes [0x61]) ∧
      (∀ digit ∈ ["3", "4"], ∃ doc', replyOf Nat LoginRet.accountJson db
          (handleTokenV (Document.parse Nat) (tokenBody digit)) = some (doc', db) ∧
        (doc'.Succeeded ↔ digit = "4")) ∧
      ∀ digit ∈ ["3", "4"], ∃ doc' db', replyOf Nat ComboTokenRes.comboTokenJson db
          (handleSessionKey (Document.parse Nat) (comboBody digit) (.sample 5)) = some (doc', db') ∧
        (doc'.Succeeded ↔ digit = "4") ∧
        (doc'.Succeeded → doc'.Reads ["data", "combo_token"] (Token.sample 5).str) := by
  intro history
  obtain ⟨req, hreq, hname⟩ := loginBody_req
  obtain ⟨doc, db, hreply, hdone, hreadsName, htokenV, hcombo⟩ :=
    @login_to_combo Nat _ history loginBody req (.sample 3) (.sample 4) ⟨by decide +kernel, trivial⟩
      (by decide +kernel : [Token.sample 1, .sample 2, .sample 3, .sample 4].Nodup) (by decide) hreq
      (by rw [hname]; decide) (by decide +kernel) (by decide) (by rw [hname]; decide +kernel)
  -- the answer is the one of the account with the next uid
  have hret : ((pwdAuthenticate req.account (.sample 3) (.sample 4)).run Op.exec (final serve .empty history)).map
      (·.1) = some (.ok (.ofBytes (lit "101")) (.ofBytes [0x61]) (.ofBytes (lit "4"))) := by
    rw [hname]
    decide +kernel
  obtain ⟨⟨ret, db'⟩, hrun, rfl⟩ := Option.map_eq_some_iff.mp hret
  have hshort : (LoginRet.ok (.ofBytes (lit "101")) (.ofBytes [0x61]) (.ofBytes (lit "4"))).Short :=
    LoginRet.short_ok (by decide +kernel) (by decide) (by decide +kernel)
  have hanswer := replyOf_printed (δ := Nat) LoginRet.describes_accountCalls hshort.size_lt hrun
  have hquery : handleLogin (Document.parse Nat) loginBody (.sample 3) (.sample 4) =
      .ok (pwdAuthenticate req.account (.sample 3) (.sample 4)) := by
    rw [handleLogin, hreq]
    rfl
  rw [hquery] at hreply
  cases hanswer.symm.trans hreply
  obtain ⟨-, -, huid, -, htoken⟩ := (LoginRet.ok (.ofBytes (lit "101")) (.ofBytes [0x61])
    (.ofBytes (lit "4"))).document_path
  have hreadsToken : ∀ digit ∈ ["3", "4"], (LoginRet.ok (.ofBytes (lit "101")) (.ofBytes [0x61])
      (.ofBytes (lit "4"))).document.Reads ["data", "account", "token"] (.ofBytes (lit digit)) ↔ digit = "4" := by
    have hsame : ∀ digit ∈ ["3", "4"], (CStr.ofBytes (lit "4")).bytes = (CStr.ofBytes (lit digit)).bytes ↔
      digit = "4" := by decide +kernel
    intro digit hdigit
    rw [Json.Reads, htoken, Except.ok.injEq, Json.string.injEq]
    exact hsame digit hdigit
  refine ⟨_, db, by rw [hquery]; exact hreply, hdone, hname ▸ hreadsName, fun digit hdigit => ?_, fun digit hdigit => ?_⟩
  · obtain ⟨req', hreq', hread⟩ := exists_ok (tokenBody_read digit hdigit)
    obtain ⟨huid', htoken'⟩ := Prod.mk.inj hread
    obtain ⟨doc', hreply', hiff⟩ := htokenV _ req' hreq' (huid' ▸ huid)
    rw [htoken', hreadsToken digit hdigit] at hiff
    exact ⟨doc', hreply', hiff⟩
  · obtain ⟨req', hreq', hread⟩ := exists_ok (comboBody_read digit hdigit)
    obtain ⟨huid', htoken'⟩ := Prod.mk.inj hread
    obtain ⟨doc', db', hreply', hiff, hnew⟩ := hcombo _ req' (.sample 5) (by decide) hreq' (huid' ▸ huid)
    rw [htoken', hreadsToken digit hdigit] at hiff
    exact ⟨doc', db', hreply', hiff, fun hdone => (hnew hdone).2⟩

end EyPS
