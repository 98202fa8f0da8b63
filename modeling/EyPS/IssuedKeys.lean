/-
Session keys issued and session keys accepted, over sequential histories of
the three authenticators from an empty database.

`PwdAuthenticate` writes a new key by a query on the old one. Where no record
has an empty key and no two have the same, that is the record of the account
(`Issued`). The empty account name breaks this for good: its account is
stored with an empty key, and the call is reported as failed.
-/
import EyPS.Authenticate

namespace EyPS

open Collection Atomic Runs

/-- A completed call. -/
structure Served where
  request : Request
  response : Response
  deriving DecidableEq

/-- The next call of a history. A call that throws adds nothing to the history,
and is meant for runs in which there is none (`Completes`): it leaves the
database as before here, where an operation may already have counted. -/
def serve (db : DB) (r : Request) : DB × List Served :=
  match r.authenticate.run Op.exec db with
  | some (rsp, db') => (db', [⟨r, rsp⟩])
  | none => (db, [])

/-- The call returns, no operation having thrown. -/
def Completes (db : DB) (r : Request) : Prop := (r.authenticate.run Op.exec db).isSome

instance (db : DB) (r : Request) : Decidable (Completes db r) := inferInstanceAs (Decidable (_ = true))

/-- The session key that the call, a successful `PwdAuthenticate`, returned for
the account with this uid. -/
def Served.issued (uid : CStr) : Served → Option CStr
  | ⟨.pwd _ _ _, .login rsp⟩ => if rsp.retcode = 0 ∧ rsp.uid = uid then some rsp.token else none
  | _ => none

/-- The most recent one. -/
def lastIssued (calls : List Served) (uid : CStr) : Option CStr :=
  (calls.filterMap (Served.issued uid)).getLast?

/-- `TokenAuthenticate(uid, token)` succeeds on this database. -/
def DB.accepts (db : DB) (uid token : CStr) : Bool :=
  match (tokenAuthenticate uid token).run Op.exec db with
  | some (rsp, _) => rsp.retcode = 0
  | none => false

/-- After the history a session key is accepted exactly if it is the last issued. -/
def AcceptedAreIssued (history : List Request) : Prop :=
  ∀ uid token, (final serve .empty history).accepts uid token = true ↔
    lastIssued (log serve .empty history) uid = some token

/-- `createToken`'s answers in the calls. -/
def drawn (calls : List Served) : List CStr := calls.flatMap fun c => c.request.drawn.map Token.str

section Lists

variable {calls : List Served} {r : Request} {rsp : Response} {uid : CStr}

theorem serve_cases {db : DB} (hc : Completes db r) :
    ∃ rsp, Effect r rsp db.account (serve db r).1.account ∧ (serve db r).2 = [⟨r, rsp⟩] := by
  obtain ⟨⟨rsp, db'⟩, h⟩ := Option.isSome_iff_exists.mp hc
  refine ⟨rsp, ?_, by simp [serve, h]⟩
  simpa [serve, h] using Request.effect h

theorem map_request_log {history : List Request} {db : DB} (hc : AllSteps serve Completes db history) :
    (log serve db history).map Served.request = history := by
  induction history generalizing db with
  | nil => rfl
  | cons r history ih =>
    obtain ⟨rsp, -, hlog⟩ := serve_cases hc.1
    rw [log_cons, hlog, List.map_append, ih hc.2]
    rfl

theorem lastIssued_concat (c : Served) :
    lastIssued (calls ++ [c]) uid = (c.issued uid).or (lastIssued calls uid) := by
  cases h : c.issued uid <;> simp [lastIssued, h]

theorem drawn_concat (c : Served) : drawn (calls ++ [c]) = drawn calls ++ c.request.drawn.map Token.str := by
  simp [drawn]

theorem drawn_eq : drawn calls = (calls.map Served.request).flatMap fun r => r.drawn.map Token.str := by
  simp [drawn, List.flatMap_map]

/-- Where the draws are distinct, those of the last call are new. -/
theorem fresh_of_nodup (h : (drawn (calls ++ [⟨r, rsp⟩])).Nodup) : ∀ t ∈ r.drawn, t.str ∉ drawn calls := by
  intro t ht hmem
  rw [drawn_concat] at h
  exact (List.nodup_append.mp h).2.2 t.str hmem t.str (List.mem_map_of_mem ht) rfl

theorem Served.issued_pwd {name uid' key : CStr} {newToken newKey : Token} :
    Served.issued uid ⟨.pwd name newToken newKey, .login (.ok uid' name key)⟩ =
      if uid' = uid then some key else none := by
  simp [Served.issued, LoginRet.ok]

end Lists

/-! ## Records stay -/

/-- The attributes no update changes. -/
def AccountDoc.entry (doc : AccountDoc) : CStr × CStr := (doc.id, doc.username)

@[simp] theorem entry_setToken {p : AccountDoc → Bool} {token : CStr} {docs : List AccountDoc} :
    (updateFirst p (·.setToken token) docs).map AccountDoc.entry = docs.map AccountDoc.entry :=
  map_updateFirst _ fun _ => rfl

@[simp] theorem entry_setSessionKey {p : AccountDoc → Bool} {key : CStr} {docs : List AccountDoc} :
    (updateFirst p (·.setSessionKey key) docs).map AccountDoc.entry = docs.map AccountDoc.entry :=
  map_updateFirst _ fun _ => rfl

theorem mem_entries {docs : List AccountDoc} {uid name : CStr} :
    (uid, name) ∈ docs.map AccountDoc.entry ↔ ∃ d ∈ docs, d.id = uid ∧ d.username = name := by
  simp [AccountDoc.entry]

namespace Effect

variable {docs docs' : List AccountDoc} {r : Request} {rsp : Response}

/-- A call leaves the entries as they are, or appends one with an id of its own. -/
theorem entries (he : Effect r rsp docs docs') : docs'.map AccountDoc.entry = docs.map AccountDoc.entry ∨
    ∃ uid name, uid ≠ .empty ∧ uid ∉ docs.map AccountDoc.id ∧
      docs'.map AccountDoc.entry = docs.map AccountDoc.entry ++ [(uid, name)] := by
  cases he with
  | @create name uid _ _ _ _ hid hfresh => exact .inr ⟨uid, name, hid, hfresh, by simp [AccountDoc.entry]⟩
  | @unnamed uid _ _ _ hid hfresh => exact .inr ⟨uid, .empty, hid, hfresh, by simp [AccountDoc.entry]⟩
  | login | combo => exact .inl (by simp)
  | refused | token | noCombo => exact .inl rfl

theorem kept (he : Effect r rsp docs docs') {d : AccountDoc} (hd : d ∈ docs) :
    ∃ d' ∈ docs', d'.id = d.id ∧ d'.username = d.username := by
  have hmem : d.entry ∈ docs.map AccountDoc.entry := List.mem_map_of_mem hd
  refine mem_entries.mp (show d.entry ∈ _ from ?_)
  rcases he.entries with h | ⟨_, _, _, _, h⟩
  · rwa [h]
  · rw [h]
    exact List.mem_append_left _ hmem

/-- A key is issued for a record with a name. -/
theorem issued_named (he : Effect r rsp docs docs') {uid key : CStr}
    (h : Served.issued uid ⟨r, rsp⟩ = some key) :
    ∃ d ∈ docs', d.id = uid ∧ d.username ≠ .empty := by
  have hentry : ∃ name, name ≠ .empty ∧ (uid, name) ∈ docs'.map AccountDoc.entry := by
    cases he with
    | @login _ _ _ doc hdoc hname =>
      rw [Served.issued_pwd, Option.ite_none_right_eq_some] at h
      obtain ⟨rfl, -⟩ := h
      rw [entry_setSessionKey]
      exact ⟨doc.username, hname, mem_entries.mpr ⟨doc, hdoc, rfl, rfl⟩⟩
    | @create name _ _ _ _ hname _ _ =>
      rw [Served.issued_pwd, Option.ite_none_right_eq_some] at h
      obtain ⟨rfl, -⟩ := h
      exact ⟨name, hname, by simp [AccountDoc.entry]⟩
    | unnamed | refused | token | combo | noCombo => simp [Served.issued] at h
  obtain ⟨name, hname, hmem⟩ := hentry
  obtain ⟨d, hd, hid, rfl⟩ := mem_entries.mp hmem
  exact ⟨d, hd, hid, hname⟩

/-- After a login with the empty name there is an account with it. -/
theorem unnamed_mem (he : Effect r rsp docs docs') (h : r.asks .empty) : ∃ d ∈ docs', d.username = .empty := by
  cases he with
  | login _ hname => exact absurd h hname
  | create hname => exact absurd h hname
  | unnamed => exact ⟨_, List.mem_append_right _ List.mem_cons_self, rfl⟩
  | refused hknown => exact hknown
  | token | combo | noCombo => exact absurd h id

/-- No call leaves an account without a token. -/
theorem token_ne (he : Effect r rsp docs docs') (h : ∀ d ∈ docs, d.token ≠ .empty) :
    ∀ d ∈ docs', d.token ≠ .empty := by
  have hset : ∀ (p : AccountDoc → Bool) (token : Token), ∀ d ∈ updateFirst p (·.setToken token.str) docs,
      d.token ≠ .empty :=
    fun _ token => forall_updateFirst h fun _ _ => token.ne_empty
  have hnew : ∀ (p : AccountDoc → Bool) (token : Token) (uid name : CStr),
      ∀ d ∈ updateFirst p (·.setToken token.str) docs ++ [⟨uid, name, 0, token.str, .empty⟩],
      d.token ≠ .empty :=
    fun p token _ _ => List.forall_mem_append.mpr ⟨hset p token, by simpa using token.ne_empty⟩
  cases he with
  | login => exact forall_updateFirst h h
  | create => exact forall_updateFirst (hnew _ _ _ _) (hnew _ _ _ _)
  | unnamed => exact hnew _ _ _ _
  | combo => exact hset _ _
  | refused | token | noCombo => exact h

end Effect

/-! ## What always holds -/

/-- Ids are distinct, tokens are set, issued keys are of named accounts, and an
account with the empty name stays. -/
structure Named (docs : List AccountDoc) (calls : List Served) : Prop where
  ids : (docs.map AccountDoc.id).Nodup
  id_ne : ∀ d ∈ docs, d.id ≠ .empty
  token_ne : ∀ d ∈ docs, d.token ≠ .empty
  issued : ∀ c ∈ calls, ∀ uid key, c.issued uid = some key → ∃ d ∈ docs, d.id = uid ∧ d.username ≠ .empty
  unnamed : ∀ c ∈ calls, c.request.asks .empty → ∃ d ∈ docs, d.username = .empty

namespace Named

variable {docs docs' : List AccountDoc} {calls : List Served} {r : Request} {rsp : Response}

theorem setToken_eq (h : Named docs calls) (token : CStr) :
    updateFirst (·.token = .empty) (·.setToken token) docs = docs :=
  updateFirst_of_not fun d hd => by simpa using h.token_ne d hd

theorem nil : Named [] [] := by
  constructor <;> simp

theorem step (h : Named docs calls) (he : Effect r rsp docs docs') : Named docs' (calls ++ [⟨r, rsp⟩]) where
  ids := by
    have hids : ∀ l : List AccountDoc, l.map AccountDoc.id = (l.map AccountDoc.entry).map Prod.fst := by
      simp [AccountDoc.entry]
    rcases he.entries with h' | ⟨uid, name, -, hfresh, h'⟩
    · rw [hids, h', ← hids]
      exact h.ids
    · rw [hids, h']
      rw [hids] at hfresh
      exact nodup_map_append (hids docs ▸ h.ids) hfresh
  id_ne := by
    intro d hd
    have hmem : (d.id, d.username) ∈ docs'.map AccountDoc.entry := mem_entries.mpr ⟨d, hd, rfl, rfl⟩
    have hold : (d.id, d.username) ∈ docs.map AccountDoc.entry → d.id ≠ .empty := by
      intro hmem
      obtain ⟨d', hd', hid, -⟩ := mem_entries.mp hmem
      rw [← hid]
      exact h.id_ne d' hd'
    rcases he.entries with h' | ⟨uid, name, hne, -, h'⟩
    · exact hold (h' ▸ hmem)
    · rw [h', List.mem_append, List.mem_singleton, Prod.mk.injEq] at hmem
      rcases hmem with hmem | ⟨hid, -⟩
      · exact hold hmem
      · rwa [hid]
  token_ne := he.token_ne h.token_ne
  issued := by
    intro c hc uid key hkey
    rcases List.mem_append.mp hc with hc | hc
    · obtain ⟨d, hd, hid, hname⟩ := h.issued c hc uid key hkey
      obtain ⟨d', hd', hid', hname'⟩ := he.kept hd
      exact ⟨d', hd', hid'.trans hid, by rwa [hname']⟩
    · obtain rfl := List.mem_singleton.mp hc
      exact he.issued_named hkey
  unnamed := by
    intro c hc hasks
    rcases List.mem_append.mp hc with hc | hc
    · obtain ⟨d, hd, hname⟩ := h.unnamed c hc hasks
      obtain ⟨d', hd', -, hname'⟩ := he.kept hd
      exact ⟨d', hd', hname'.trans hname⟩
    · obtain rfl := List.mem_singleton.mp hc
      exact he.unnamed_mem hasks

/-- The account with an id is the only one. -/
theorem find?_id (h : Named docs calls) {d : AccountDoc} (hd : d ∈ docs) :
    docs.find? (·.id = d.id) = some d :=
  find?_eq_of_unique hd (by simp) fun _ hy he => List.inj_on_of_nodup_map h.ids hy hd (by simpa using he)

end Named

/-- A refused key is not that of the account. -/
theorem Named.not_refuses {db : DB} {calls : List Served} (h : Named db.account calls) {d : AccountDoc}
    (hd : d ∈ db.account) : ¬ db.Refuses d.id d.sessionKey := by
  rintro (hnone | ⟨doc, hdoc, hid, hempty | hkey⟩)
  · exact hnone d hd rfl
  · exact h.id_ne doc hdoc hempty
  · rw [List.inj_on_of_nodup_map h.ids hdoc hd hid] at hkey
    exact hkey rfl

/-- `TokenAuthenticate` compares with the session key of the account with the id. -/
theorem accepts_iff {db : DB} {calls : List Served} (h : Named db.account calls) {uid token : CStr} :
    db.accepts uid token = true ↔ (db.account.find? (·.id = uid)).map (·.sessionKey) = some token := by
  unfold DB.accepts
  rcases run_tokenAuthenticate_cases db uid token with ⟨doc, hdoc, rfl, -, rfl, hrun⟩ | ⟨hwhy, hrun⟩
  · rw [hrun, h.find?_id hdoc]
    simp
  · rw [hrun]
    refine iff_of_false (by simp) fun hfind => ?_
    obtain ⟨d, hd, rfl⟩ := Option.map_eq_some_iff.mp hfind
    obtain rfl : d.id = uid := by simpa using List.find?_some hd
    exact h.not_refuses (List.mem_of_find?_eq_some hd) hwhy

/-! ## What holds without the empty name -/

/-- Session keys are set, distinct, from `createToken`, and the last issued ones. -/
structure Issued (docs : List AccountDoc) (calls : List Served) : Prop where
  key_ne : ∀ d ∈ docs, d.sessionKey ≠ .empty
  keys : (docs.map AccountDoc.sessionKey).Nodup
  keys_drawn : ∀ d ∈ docs, d.sessionKey ∈ drawn calls
  last : ∀ uid, lastIssued calls uid = (docs.find? (·.id = uid)).map AccountDoc.sessionKey

namespace Issued

variable {docs docs' : List AccountDoc} {calls : List Served} {r : Request} {rsp : Response}

theorem nil : Issued [] [] := by
  constructor <;> simp [lastIssued]

/-- A call that issues no key and leaves ids and keys as they are. -/
theorem of_maps (h : Issued docs calls) {c : Served} (hc : ∀ uid, c.issued uid = none)
    (hkeys : docs'.map AccountDoc.sessionKey = docs.map AccountDoc.sessionKey)
    (hfind : ∀ uid, (docs'.find? (·.id = uid)).map AccountDoc.sessionKey =
      (docs.find? (·.id = uid)).map AccountDoc.sessionKey) : Issued docs' (calls ++ [c]) := by
  have hmem : ∀ d ∈ docs', ∃ d' ∈ docs, d'.sessionKey = d.sessionKey := fun d hd => by
    have := List.mem_map_of_mem (f := AccountDoc.sessionKey) hd
    rw [hkeys] at this
    exact List.mem_map.mp this
  refine ⟨fun d hd => ?_, hkeys ▸ h.keys, fun d hd => ?_, fun uid => ?_⟩
  · obtain ⟨d', hd', he⟩ := hmem d hd
    rw [← he]
    exact h.key_ne d' hd'
  · obtain ⟨d', hd', he⟩ := hmem d hd
    rw [drawn_concat, ← he]
    exact List.mem_append_left _ (h.keys_drawn d' hd')
  · rw [lastIssued_concat, hc, hfind, ← h.last]
    rfl

/-- A key that was not drawn is no account's. -/
theorem not_mem (h : Issued docs calls) {key : CStr} (hfresh : key ∉ drawn calls) :
    key ∉ docs.map AccountDoc.sessionKey := by
  intro hmem
  obtain ⟨d, hd, rfl⟩ := List.mem_map.mp hmem
  exact hfresh (h.keys_drawn d hd)

/-- The first record with the key of an account is the account's. -/
theorem find?_key (h : Issued docs calls) {d : AccountDoc} (hd : d ∈ docs) :
    docs.find? (·.sessionKey = d.sessionKey) = some d :=
  find?_eq_of_unique hd (by simp) fun _ hy he => List.inj_on_of_nodup_map h.keys hy hd (by simpa using he)

/-- A login to a known account: its record, and no other, gets the new key. -/
theorem login (h : Issued docs calls) (hn : Named docs calls) {doc : AccountDoc} (hdoc : doc ∈ docs)
    {newToken newKey : Token} (hfresh : newKey.str ∉ drawn calls) :
    Issued (updateFirst (·.sessionKey = doc.sessionKey) (·.setSessionKey newKey.str) docs)
      (calls ++ [⟨.pwd doc.username newToken newKey, .login (.ok doc.id doc.username newKey.str)⟩]) where
  key_ne := forall_updateFirst h.key_ne fun _ _ => newKey.ne_empty
  keys := nodup_map_updateFirst h.keys fun _ _ => h.not_mem hfresh
  keys_drawn := by
    rw [drawn_concat]
    exact forall_updateFirst (fun d hd => List.mem_append_left _ (h.keys_drawn d hd))
      fun _ _ => List.mem_append_right _ (by simp [Request.drawn])
  last := by
    intro uid
    rw [lastIssued_concat, Served.issued_pwd, h.last,
      updateFirst_eq_map hn.ids (h.find?_key hdoc), List.find?_map]
    have hcomp : ((fun d : AccountDoc => decide (d.id = uid)) ∘
        fun y => if y.id = doc.id then y.setSessionKey newKey.str else y) = fun d => decide (d.id = uid) := by
      funext y
      simp only [Function.comp_apply]
      split <;> rfl
    rw [hcomp]
    by_cases huid : doc.id = uid
    · subst huid
      rw [hn.find?_id hdoc]
      simp
    · rw [if_neg huid]
      cases hf : docs.find? (·.id = uid) with
      | none => rfl
      | some d =>
        have hid : d.id = uid := by simpa using List.find?_some hf
        simp [hid, Ne.symm huid]

/-- A login that creates its account: the new record gets the new key. -/
theorem create (h : Issued docs calls) {uid name : CStr} (hid : uid ∉ docs.map AccountDoc.id)
    {newToken newKey : Token} (hfresh : newKey.str ∉ drawn calls) :
    Issued (updateFirst (·.sessionKey = .empty) (·.setSessionKey newKey.str)
        (docs ++ [⟨uid, name, 0, newToken.str, .empty⟩]))
      (calls ++ [⟨.pwd name newToken newKey, .login (.ok uid name newKey.str)⟩]) := by
  have hnone : ∀ d ∈ docs, decide (d.sessionKey = .empty) = false := fun d hd => by simpa using h.key_ne d hd
  rw [updateFirst_append_of_not hnone, updateFirst_cons, if_pos (by simp)]
  refine ⟨?_, nodup_map_append h.keys (h.not_mem hfresh), ?_, fun uid' => ?_⟩
  · exact List.forall_mem_append.mpr ⟨h.key_ne, by simpa using newKey.ne_empty⟩
  · rw [drawn_concat]
    exact List.forall_mem_append.mpr ⟨fun d hd => List.mem_append_left _ (h.keys_drawn d hd),
      by simp [Request.drawn]⟩
  · rw [lastIssued_concat, Served.issued_pwd, h.last, List.find?_append]
    by_cases huid : uid = uid'
    · subst huid
      have hnone : docs.find? (·.id = uid) = none := List.find?_eq_none.mpr fun d hd he =>
        hid (List.mem_map.mpr ⟨d, hd, by simpa using he⟩)
      simp [hnone]
    · cases docs.find? (·.id = uid') <;> simp [huid]

theorem step (h : Issued docs calls) (hn : Named docs calls) (he : Effect r rsp docs docs')
    (hname : ¬ r.asks .empty) (hnd : (drawn (calls ++ [⟨r, rsp⟩])).Nodup) :
    Issued docs' (calls ++ [⟨r, rsp⟩]) := by
  have hfresh : ∀ t ∈ r.drawn, t.str ∉ drawn calls := fresh_of_nodup hnd
  cases he with
  | login hdoc => exact h.login hn hdoc (hfresh _ (by simp [Request.drawn]))
  | create _ _ hid =>
    rw [hn.setToken_eq]
    exact h.create hid (hfresh _ (by simp [Request.drawn]))
  | unnamed | refused => exact absurd rfl hname
  | token | noCombo => exact h.of_maps (fun _ => rfl) rfl fun _ => rfl
  | combo =>
    exact h.of_maps (fun _ => rfl) (map_updateFirst _ fun _ => rfl)
      fun _ => map_find?_updateFirst _ (fun _ => rfl) fun _ => rfl

end Issued

/-! ## Histories -/

section Histories

variable {history : List Request}

theorem named_final (hc : AllSteps serve Completes .empty history) :
    Named (final serve .empty history).account (log serve .empty history) := by
  refine inv_log (fun db calls => Named db.account calls) (fun db r calls h hr => ?_) (l := []) Named.nil hc
  obtain ⟨rsp, he, hlog⟩ := serve_cases hr
  rw [hlog]
  exact h.step he

theorem drawn_log_nodup (hc : AllSteps serve Completes .empty history)
    (hfresh : (history.flatMap Request.drawn).Nodup) : (drawn (log serve .empty history)).Nodup := by
  rw [drawn_eq, map_request_log hc, ← List.map_flatMap]
  exact hfresh.map Token.str_injective

/-- An invariant of the accounts and the calls so far, kept by every effect
that brings in new tokens only. -/
theorem inv_final (I : List AccountDoc → List Served → Prop) (h0 : I [] [])
    (hstep : ∀ {docs docs' calls r rsp}, I docs calls → Named docs calls → Effect r rsp docs docs' →
      (drawn (calls ++ [⟨r, rsp⟩])).Nodup → I docs' (calls ++ [⟨r, rsp⟩]))
    (hc : AllSteps serve Completes .empty history) (hfresh : (history.flatMap Request.drawn).Nodup) :
    I (final serve .empty history).account (log serve .empty history) := by
  have hinv := inv_log (fun db calls => Named db.account calls ∧ ((drawn calls).Nodup → I db.account calls))
    (fun db r calls h hr => ?_) (l := []) ⟨Named.nil, fun _ => h0⟩ hc
  · exact hinv.2 (drawn_log_nodup hc hfresh)
  · obtain ⟨rsp, he, hlog⟩ := serve_cases hr
    rw [hlog]
    refine ⟨h.1.step he, fun hnd => hstep (h.2 ?_) h.1 he hnd⟩
    rw [drawn_concat] at hnd
    exact (List.nodup_append.mp hnd).1

theorem issued_final (hc : AllSteps serve Completes .empty history)
    (hfresh : (history.flatMap Request.drawn).Nodup) (hname : ∀ r ∈ history, ¬ r.asks .empty) :
    Issued (final serve .empty history).account (log serve .empty history) := by
  refine inv_final (fun docs calls => (∀ c ∈ calls, ¬ c.request.asks .empty) → Issued docs calls)
    (fun _ => Issued.nil) (fun h hnamed he hnd hn => ?_) hc hfresh fun c hmem => hname _ ?_
  · have hissued := h fun c hc => hn c (List.mem_append_left _ hc)
    exact hissued.step hnamed he (hn _ (List.mem_append_right _ List.mem_cons_self)) hnd
  · have hreq : c.request ∈ (log serve .empty history).map Served.request := List.mem_map_of_mem hmem
    rwa [map_request_log hc] at hreq

/-- The account of the empty name: its key is accepted and was never issued. -/
theorem not_acceptedAreIssued_of_unnamed (hc : AllSteps serve Completes .empty history) {r : Request}
    (hr : r ∈ history) (hasks : r.asks .empty) : ¬ AcceptedAreIssued history := by
  intro hagree
  have hn := named_final hc
  rw [← map_request_log hc] at hr
  obtain ⟨c, hmem, rfl⟩ := List.mem_map.mp hr
  obtain ⟨d, hd, hempty⟩ := hn.unnamed c hmem hasks
  have hlast := (hagree d.id d.sessionKey).mp ((accepts_iff hn).mpr (by rw [hn.find?_id hd]; rfl))
  obtain ⟨c', hmem', hissued⟩ := List.mem_filterMap.mp (List.mem_of_getLast? hlast)
  obtain ⟨d', hd', hid, hname⟩ := hn.issued c' hmem' _ _ hissued
  rw [List.inj_on_of_nodup_map hn.ids hd' hd hid] at hname
  exact hname hempty

/-- **Issued and accepted keys agree** after exactly the histories in which no
`PwdAuthenticate` has the empty account name. -/
theorem acceptedAreIssued_iff (hc : AllSteps serve Completes .empty history)
    (hfresh : (history.flatMap Request.drawn).Nodup) :
    AcceptedAreIssued history ↔ ∀ r ∈ history, ¬ r.asks .empty := by
  refine ⟨fun hagree r hr hasks => ?_, fun hname uid token => ?_⟩
  · exact not_acceptedAreIssued_of_unnamed hc hr hasks hagree
  · rw [accepts_iff (named_final hc), (issued_final hc hfresh hname).last]

/-- Two accounts, the first logging in again. -/
def Request.sampleHistory : List Request :=
  [.pwd (.ofBytes [0x61]) (.sample 1) (.sample 2), .pwd (.ofBytes [0x62]) (.sample 3) (.sample 4),
    .sessionKey (.ofBytes [0x31, 0x30, 0x31]) (Token.sample 4).str (.sample 5),
    .pwd (.ofBytes [0x61]) (.sample 6) (.sample 7)]

theorem acceptedAreIssued_iff_sample : AcceptedAreIssued Request.sampleHistory ↔
    ∀ r ∈ Request.sampleHistory, ¬ r.asks .empty :=
  acceptedAreIssued_iff ⟨by decide +kernel, by decide +kernel, by decide +kernel, by decide +kernel, trivial⟩
    (by decide +kernel)

/-- One login with the empty account name, reported as failed: afterwards the
empty session key is accepted for account 100. -/
theorem empty_name_key_accepted :
    let history : List Request := [.pwd .empty (.sample 1) (.sample 2)]
    AllSteps serve Completes .empty history ∧ (history.flatMap Request.drawn).Nodup ∧
      (final serve .empty history).accepts (.ofBytes [0x31, 0x30, 0x30]) .empty = true ∧
      lastIssued (log serve .empty history) (.ofBytes [0x31, 0x30, 0x30]) = none ∧
      ¬ AcceptedAreIssued history := by
  intro history
  have haccepts : (final serve .empty history).accepts (.ofBytes [0x31, 0x30, 0x30]) .empty = true := by
    decide +kernel
  have hlast : lastIssued (log serve .empty history) (.ofBytes [0x31, 0x30, 0x30]) = none := by
    decide +kernel
  refine ⟨⟨by decide +kernel, trivial⟩, by decide +kernel, haccepts, hlast, fun hagree => ?_⟩
  have hissued := (hagree _ _).mp haccepts
  rw [hlast] at hissued
  cases hissued

end Histories

end EyPS
