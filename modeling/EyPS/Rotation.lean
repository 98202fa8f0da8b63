/-
Key and token rotation under concurrency: any number of the authenticators'
requests, their database operations interleaved in any order.

A rotation is read-old and update-where-equal-to-old, two operations. Nothing
checks that the update matched: it is lost if another rotation of the same
account comes in between (`Undisturbed`). Keys and tokens never mix, though,
whatever the order (`DB.Distinct`): but for the empty key of new accounts, no
two records share one.
-/
import EyPS.Authenticate
import Mathlib.Data.List.Pairwise

namespace EyPS

open Collection Atomic databaseHelper

/-! ## Rotations -/

/-- The operation is the request's rotation: `generateSessionKey`'s update of a
login, `generateLoginToken`'s of a combo request. -/
def Request.rotates : Request → Op → Bool
  | .pwd _ _ _, .updateSessionKey _ _ => true
  | .sessionKey _ _ _, .updateToken _ _ => true
  | _, _ => false

/-- A successful response to a request that rotates. -/
def Request.Succeeds : Request → Response → Prop
  | .pwd _ _ _, .login rsp => rsp.retcode = 0
  | .sessionKey _ _ _, .combo rsp => rsp.retcode = 0
  | _, _ => False

/-- The response names the account of this update and returns what it sets. -/
def Response.Returns : Response → Op → Prop
  | .login rsp, .updateSessionKey account key => rsp.uid = account.id ∧ rsp.token = key
  | .combo rsp, .updateToken account token => rsp.openId = account.id ∧ rsp.comboToken = token
  | _, _ => False

/-- The update writes to the record of its account and to no other. -/
def Op.WritesOwn : Op → DB → Prop
  | .updateSessionKey account key, db => (∃ d ∈ db.account, d.id = account.id) ∧
    (Query.updateSessionKey account key).run Op.exec db = some ((), { db with
      account := db.account.map fun d => if d.id = account.id then d.setSessionKey key else d })
  | .updateToken account token, db => (∃ d ∈ db.account, d.id = account.id) ∧
    (Query.updateToken account token).run Op.exec db = some ((), { db with
      account := db.account.map fun d => if d.id = account.id then d.setToken token else d })
  | _, _ => True

/-- The account's record still has what the request read, and where that is the
empty key of a new account, no record before it has one. -/
def Op.Undisturbed : Op → DB → Prop
  | .updateSessionKey account _, db => ∃ d ∈ db.account, d.id = account.id ∧
    d.sessionKey = account.sessionKey ∧
    (account.sessionKey = .empty → db.account.find? (·.sessionKey = .empty) = some d)
  | .updateToken account _, db => ∃ d ∈ db.account, d.id = account.id ∧ d.token = account.token
  | _, _ => True

/-! ## The database -/

/-- No record has this token or session key. -/
def DB.Absent (x : CStr) (db : DB) : Prop := ∀ d ∈ db.account, d.token ≠ x ∧ d.sessionKey ≠ x

/-- Ids are distinct, tokens set and distinct, session keys distinct once set. -/
structure DB.Distinct (db : DB) : Prop where
  ids : (db.account.map AccountDoc.id).Nodup
  token_ne : ∀ d ∈ db.account, d.token ≠ .empty
  tokens : (db.account.map AccountDoc.token).Nodup
  keys : (db.account.map AccountDoc.sessionKey).Pairwise fun a b => a = b → a = .empty

namespace DB

variable {db db' : DB}

theorem Distinct.empty : DB.empty.Distinct := by
  constructor <;> simp [DB.empty]

theorem Distinct.congr (h : db.Distinct) (he : db'.account = db.account) : db'.Distinct :=
  ⟨he ▸ h.ids, he ▸ h.token_ne, he ▸ h.tokens, he ▸ h.keys⟩

theorem Absent.congr {x : CStr} (h : db.Absent x) (he : db'.account = db.account) : db'.Absent x := by
  unfold Absent at h ⊢
  rwa [he]

/-- A record with a set session key is the first with it. -/
theorem Distinct.find?_key (h : db.Distinct) {d : AccountDoc} (hd : d ∈ db.account)
    (hne : d.sessionKey ≠ .empty) : db.account.find? (·.sessionKey = d.sessionKey) = some d := by
  refine find?_eq_of_unique hd (by simp) fun y hy he => ?_
  have he : y.sessionKey = d.sessionKey := by simpa using he
  by_contra hyd
  have _hsymm : Std.Symm fun a b : AccountDoc => a.sessionKey = b.sessionKey → a.sessionKey = .empty :=
    ⟨fun _ _ hab hba => hba.trans (hab hba.symm)⟩
  exact hne (he ▸ (List.pairwise_map.mp h.keys).forall hy hd hyd he)

theorem Distinct.find?_token (h : db.Distinct) {d : AccountDoc} (hd : d ∈ db.account) :
    db.account.find? (·.token = d.token) = some d :=
  find?_eq_of_unique hd (by simp) fun _ hy he => List.inj_on_of_nodup_map h.tokens hy hd (by simpa using he)

end DB

/-- An update is written as the response says exactly if it was undisturbed. -/
theorem writesOwn_sessionKey_iff {db : DB} (h : db.Distinct) {account : Account} {key : CStr}
    (hkey : db.Absent key) :
    (Op.updateSessionKey account key).WritesOwn db ↔ (Op.updateSessionKey account key).Undisturbed db := by
  have hf : ∀ d ∈ db.account, d.setSessionKey key ≠ d := fun d hd he =>
    (hkey d hd).2 ((congrArg AccountDoc.sessionKey he).symm)
  have hiff := updateFirst_eq_map_iff (p := (·.sessionKey = account.sessionKey)) h.ids hf account.id
  have hwrites : (Op.updateSessionKey account key).WritesOwn db ↔
      ∃ d, db.account.find? (·.sessionKey = account.sessionKey) = some d ∧ d.id = account.id := by
    rw [← hiff]
    simp [Op.WritesOwn]
  rw [hwrites]
  refine ⟨fun ⟨d, hfind, hid⟩ => ?_, fun ⟨d, hd, hid, hk, hempty⟩ => ?_⟩
  · have hk : d.sessionKey = account.sessionKey := by simpa using List.find?_some hfind
    exact ⟨d, List.mem_of_find?_eq_some hfind, hid, hk, fun hempty => hempty ▸ hfind⟩
  · refine ⟨d, ?_, hid⟩
    by_cases hne : account.sessionKey = .empty
    · rw [hne]
      exact hempty hne
    · rw [← hk] at hne ⊢
      exact h.find?_key hd hne

theorem writesOwn_token_iff {db : DB} (h : db.Distinct) {account : Account} {token : CStr}
    (htoken : db.Absent token) :
    (Op.updateToken account token).WritesOwn db ↔ (Op.updateToken account token).Undisturbed db := by
  have hf : ∀ d ∈ db.account, d.setToken token ≠ d := fun d hd he =>
    (htoken d hd).1 ((congrArg AccountDoc.token he).symm)
  have hiff := updateFirst_eq_map_iff (p := (·.token = account.token)) h.ids hf account.id
  have hwrites : (Op.updateToken account token).WritesOwn db ↔
      ∃ d, db.account.find? (·.token = account.token) = some d ∧ d.id = account.id := by
    rw [← hiff]
    simp [Op.WritesOwn]
  rw [hwrites]
  refine ⟨fun ⟨d, hfind, hid⟩ => ?_, fun ⟨d, hd, hid, ht⟩ => ⟨d, ht ▸ h.find?_token hd, hid⟩⟩
  exact ⟨d, List.mem_of_find?_eq_some hfind, hid, by simpa using List.find?_some hfind⟩

/-! ## What an operation keeps -/

/-- What a request relies on: the others do not come up with its tokens. -/
def Fresh (drawn : List Token) (db db' : DB) : Prop := ∀ t ∈ drawn, db.Absent t.str → db'.Absent t.str

/-- What it guarantees: it brings in no token but its own, and the empty key. -/
def OnlyOwn (drawn : List Token) (db db' : DB) : Prop :=
  ∀ x, x ≠ .empty → (∀ t ∈ drawn, t.str ≠ x) → db.Absent x → db'.Absent x

theorem Fresh.trans {drawn : List Token} {a b c : DB} (hab : Fresh drawn a b) (hbc : Fresh drawn b c) :
    Fresh drawn a c := fun t ht h => hbc t ht (hab t ht h)

/-- Distinct draws: what one request guarantees is what the others rely on. -/
theorem OnlyOwn.fresh {drawn drawn' : List Token} (hd : drawn.Disjoint drawn') {db db' : DB}
    (h : OnlyOwn drawn db db') : Fresh drawn' db db' := fun t ht habsent =>
  h t.str t.ne_empty (fun _ ht' he => hd ht' (Token.str_injective he ▸ ht)) habsent

section Kept

variable {db : DB} {drawn : List Token} {t : Token} {p : AccountDoc → Bool}

theorem setSessionKey_distinct (h : db.Distinct) (ht : db.Absent t.str) :
    DB.Distinct { db with account := updateFirst p (·.setSessionKey t.str) db.account } where
  ids := by simpa using h.ids
  token_ne := forall_updateFirst h.token_ne h.token_ne
  tokens := by simpa using h.tokens
  keys := List.pairwise_map.mpr (pairwise_updateFirst (fun _ _ hab hba => hba.trans (hab hba.symm))
    (List.pairwise_map.mp h.keys) fun _ _ y hy he => absurd he.symm (ht y hy).2)

theorem setSessionKey_absent {x : CStr} (hx : t.str ≠ x) (h : db.Absent x) :
    DB.Absent x { db with account := updateFirst p (·.setSessionKey t.str) db.account } :=
  forall_updateFirst h fun d hd => ⟨(h d hd).1, hx⟩

theorem setToken_distinct (h : db.Distinct) (ht : db.Absent t.str) :
    DB.Distinct { db with account := updateFirst p (·.setToken t.str) db.account } where
  ids := by simpa using h.ids
  token_ne := forall_updateFirst h.token_ne fun _ _ => t.ne_empty
  tokens := nodup_map_updateFirst h.tokens fun _ _ hmem => by
    obtain ⟨d, hd, he⟩ := List.mem_map.mp hmem
    exact (ht d hd).1 he
  keys := by simpa using h.keys

theorem setToken_absent {x : CStr} (hx : t.str ≠ x) (h : db.Absent x) :
    DB.Absent x { db with account := updateFirst p (·.setToken t.str) db.account } :=
  forall_updateFirst h fun d hd => ⟨hx, (h d hd).2⟩

/-- A new record: its id and token are new, its session key is empty. -/
theorem insert_distinct (h : db.Distinct) {doc : AccountDoc} (hid : doc.id ∉ db.account.map AccountDoc.id)
    (ht : db.Absent t.str) (htoken : doc.token = t.str) (hkey : doc.sessionKey = .empty) :
    DB.Distinct { db with account := db.account ++ [doc] } := by
  refine ⟨nodup_map_append h.ids hid, ?_, nodup_map_append h.tokens fun hmem => ?_, ?_⟩
  · exact List.forall_mem_append.mpr ⟨h.token_ne, by simpa [htoken] using t.ne_empty⟩
  · obtain ⟨d, hd, he⟩ := List.mem_map.mp hmem
    exact (ht d hd).1 (he.trans htoken)
  · rw [List.map_append]
    refine List.pairwise_append.mpr ⟨h.keys, List.pairwise_singleton _ _, fun a _ b hb he => ?_⟩
    obtain rfl := List.mem_singleton.mp hb
    exact he.trans hkey

theorem insert_absent {doc : AccountDoc} {x : CStr} (hx : doc.token ≠ x ∧ doc.sessionKey ≠ x)
    (h : db.Absent x) :
    DB.Absent x { db with account := db.account ++ [doc] } :=
  List.forall_mem_append.mpr ⟨h, by simpa using hx⟩

end Kept

/-! ## The programs, one request at a time -/

/-- The request has not rotated yet. -/
def Request.Clean (r : Request) (es : List (Op × DB)) : Prop := ∀ e ∈ es, ¬ r.rotates e.1

/-- A request that has not rotated yet, and whose tokens `unused` are in no record. -/
structure Ready (r : Request) (unused : List Token) (es : List (Op × DB)) (db : DB) : Prop where
  clean : r.Clean es
  drawn : ∀ t ∈ unused, t ∈ r.drawn
  absent : ∀ t ∈ unused, db.Absent t.str

abbrev Good {α : Type} (r : Request) (R : α → List (Op × DB) → DB → Prop) :
    Query α → List (Op × DB) → DB → Prop :=
  Ok Op.exec DB.Distinct (Fresh r.drawn) (OnlyOwn r.drawn) r.Clean R

/-- The operation leaves the collection `account` alone. -/
def Op.KeepsAccounts : Op → Prop
  | .insertOne _ | .updateSessionKey _ _ | .updateToken _ _ => False
  | _ => True

theorem Op.KeepsAccounts.exec {o : Op} (ho : o.KeepsAccounts) {db db' : DB} {a : o.Res}
    (h : Op.exec o db = some (a, db')) : db'.account = db.account := by
  cases o with
  | findOne | find | countersFindOne | countersUpdate => cases h; rfl
  | countersInsertOne doc =>
    have h : (if db.counters.any (·.id = doc.id) then none
      else some ((), { db with counters := db.counters ++ [doc] })) = some (a, db') := h
    split at h
    · cases h
    · cases h; rfl
  | insertOne | updateSessionKey | updateToken => exact absurd ho id

theorem Op.KeepsAccounts.not_rotates {o : Op} (ho : o.KeepsAccounts) (r : Request) : ¬ r.rotates o := by
  cases o with
  | updateSessionKey | updateToken => exact absurd ho id
  | _ => cases r <;> exact Bool.false_ne_true

/-- The operation is on the collection `counters`. -/
def Op.OnCounters : Op → Prop
  | .countersFindOne | .countersInsertOne _ | .countersUpdate _ _ => True
  | _ => False

theorem Op.OnCounters.keepsAccounts (o : Op) (ho : o.OnCounters) : o.KeepsAccounts := by
  cases o with
  | countersFindOne | countersInsertOne | countersUpdate => trivial
  | _ => exact absurd ho id

theorem checkIfAccountExists_only (name : CStr) : (checkIfAccountExists name).Only Op.KeepsAccounts := by
  refine ⟨trivial, fun a => ?_⟩
  cases a with
  | none => trivial
  | some d => exact ⟨trivial, fun a => by cases a <;> trivial⟩

theorem getAccountByName_only (name : CStr) (account : Account) :
    (getAccountByName name account).Only Op.KeepsAccounts := by
  refine .bind (checkIfAccountExists_only name) fun known => ?_
  cases known with
  | false => trivial
  | true => exact ⟨trivial, fun _ => trivial⟩

theorem getAccountById_only (uid : CStr) (account : Account) :
    (getAccountById uid account).Only Op.KeepsAccounts := by
  refine ⟨trivial, fun a => ?_⟩
  cases a with
  | none => trivial
  | some d => exact ⟨trivial, fun _ => trivial⟩

theorem getNextId_only : getNextId.Only Op.OnCounters := by
  refine ⟨trivial, fun _ => ⟨trivial, fun a => ?_⟩⟩
  cases a with
  | none => exact ⟨trivial, fun _ => trivial⟩
  | some d =>
    refine ⟨trivial, fun a => ?_⟩
    cases a with
    | none => trivial
    | some counter => exact ⟨trivial, fun _ => trivial⟩

/-- An insert that does not throw. -/
theorem Op.exec_insertOne {doc : AccountDoc} {db db' : DB} {a : Unit}
    (h : Op.exec (.insertOne doc) db = some (a, db')) :
    doc.id ∉ db.account.map AccountDoc.id ∧ db' = { db with account := db.account ++ [doc] } := by
  have h : (if db.account.any (·.id = doc.id) then none
    else some ((), { db with account := db.account ++ [doc] })) = some (a, db') := h
  split at h
  · cases h
  next hid =>
    cases h
    exact ⟨by simpa using hid, rfl⟩

section Good

variable {α β : Type} {r : Request} {unused : List Token} {es : List (Op × DB)} {db : DB}
  {R : α → List (Op × DB) → DB → Prop}

theorem Ready.fresh (h : Ready r unused es db) {db' : DB} (hf : Fresh r.drawn db db') : Ready r unused es db' :=
  ⟨h.clean, h.drawn, fun t ht => hf t (h.drawn t ht) (h.absent t ht)⟩

theorem Ready.done (h : Ready r unused es db) {o : Op} (ho : ¬ r.rotates o) (db₀ : DB) {db' : DB}
    (habsent : ∀ t ∈ unused, db'.Absent t.str) : Ready r unused (es ++ [(o, db₀)]) db' :=
  ⟨List.forall_mem_append.mpr ⟨h.clean, by simpa using ho⟩, h.drawn, habsent⟩

theorem Good.bind {p : Query β} {f : β → Query α}
    (h : Good r (fun b es db => Good r R (f b) es db) p es db) : Good r R (p.bind f) es db :=
  Ok.bind (fun _ _ _ h => h) h

theorem good_ret {a : α} (h : Ready r unused es db) (hR : ∀ db', Ready r unused es db' → R a es db') :
    Good r R (.ret a) es db := fun db' hf => hR db' (h.fresh hf)

theorem Ready.kept (h : Ready r unused es db) {o : Op} (ho : o.KeepsAccounts) {a : o.Res} {db' : DB}
    (he : Op.exec o db = some (a, db')) : Ready r unused (es ++ [(o, db)]) db' :=
  h.done (ho.not_rotates r) db fun t ht => (h.absent t ht).congr (ho.exec he)

theorem good_op {o : Op} {R : o.Res → List (Op × DB) → DB → Prop} (ho : o.KeepsAccounts)
    (h : Ready r unused es db)
    (hR : ∀ a db₁ db₂ es' db', Op.exec o db₁ = some (a, db₂) → db₁.Distinct → Ready r unused es' db' →
      R a es' db') : Good r R (.op o .ret) es db := by
  refine ⟨h.clean, fun db₁ hf hd a db₂ he => ?_⟩
  have hkeep := ho.exec he
  refine ⟨hd.congr hkeep, fun _ _ _ hx => hx.congr hkeep, fun db' hf' => ?_⟩
  exact hR a db₁ db₂ _ db' he hd (((h.fresh hf).kept ho he).fresh hf')

/-- A program that leaves the accounts alone. -/
theorem good_only {p : Query α} (hp : p.Only Op.KeepsAccounts) (h : Ready r unused es db)
    (hR : ∀ a es' db', Ready r unused es' db' → R a es' db') : Good r R p es db := by
  refine Ok.of_only (Ready r unused) (fun _ _ h => h.clean) (fun _ _ _ h hf => h.fresh hf)
    (fun o ho es db a db' h hd he => ?_) hR hp h
  have hkeep := ho.exec he
  exact ⟨hd.congr hkeep, fun _ _ _ hx => hx.congr hkeep, h.kept ho he⟩

/-- The records of a `find` are of some database in which tokens are set. -/
theorem good_find {filter : Filter} {R : List AccountDoc → List (Op × DB) → DB → Prop}
    (h : Ready r unused es db)
    (hR : ∀ db₁ es' db', DB.Distinct db₁ → Ready r unused es' db' →
      R (db₁.account.filter filter.matches) es' db') : Good r R (Query.find filter) es db :=
  good_op trivial h fun a db₁ _ es' db' he hd h' => by
    cases he
    exact hR db₁ es' db' hd h'

/-- A new account as it was, or one loaded from a record that matched. -/
theorem good_getAccountByName {name : CStr} {R : Account → List (Op × DB) → DB → Prop}
    (h : Ready r unused es db)
    (hR : ∀ a es' db', a = .new ∨ a.username = name → Ready r unused es' db' → R a es' db') :
    Good r R (getAccountByName name .new) es db := by
  refine Good.bind (good_only (checkIfAccountExists_only name) h fun known es₁ db₁ h₁ => ?_)
  cases known with
  | false => exact good_ret h₁ fun db' h' => hR _ _ db' (.inl rfl) h'
  | true =>
    refine Good.bind (good_find h₁ fun db₂ es₂ db₃ _ h₂ => ?_)
    refine good_ret h₂ fun db' h' => hR _ _ db' ?_ h'
    rcases load_cases db₂ (.username name) with ⟨-, hload⟩ | ⟨doc, -, hmatch, hload⟩
    · exact .inl hload
    · rw [hload]
      exact .inr (by simpa [Filter.matches] using hmatch)

/-- The first token of a new account is only in its record: no record has an
empty token, which the update of `generateLoginToken` queries here. -/
theorem good_saveAccount {account : Account} {newToken : Token} {R : Account → List (Op × DB) → DB → Prop}
    (h : Ready r (newToken :: unused) es db) (hnot : newToken ∉ unused)
    (hpwd : ∀ a c, ¬ r.rotates (.updateToken a c))
    (htoken : account.token = .empty) (hkey : account.sessionKey = .empty)
    (hR : ∀ es' db', Ready r unused es' db' → R { account with token := newToken.str } es' db') :
    Good r R (saveAccount account newToken) es db := by
  refine Good.bind (Good.bind ?_)
  refine ⟨h.clean, fun db₁ hf hd a db₂ he => ?_⟩
  have h₁ := h.fresh hf
  have hsame : updateFirst (·.token = account.token) (·.setToken newToken.str) db₁.account = db₁.account :=
    updateFirst_of_not fun d hmem => by simpa [htoken] using hd.token_ne d hmem
  obtain rfl : db₁ = db₂ := by
    cases he
    rw [hsame]
  refine ⟨hd, fun _ _ _ hx => hx, ?_⟩
  have h₂ := h₁.done (hpwd account newToken.str) db₁ h₁.absent
  refine good_ret h₂ fun _ h₂ => good_ret h₂ fun db₃ h₃ => ?_
  refine Good.bind ⟨h₃.clean, fun db₄ hf' hd' a db₅ he' => ?_⟩
  have h₄ := h₃.fresh hf'
  obtain ⟨hid, rfl⟩ := Op.exec_insertOne he'
  have hnew := h₄.absent newToken List.mem_cons_self
  refine ⟨insert_distinct hd' hid hnew rfl hkey, fun x hx hown habsent => ?_, ?_⟩
  · exact insert_absent ⟨hown newToken (h.drawn _ List.mem_cons_self), by simpa [hkey] using hx.symm⟩ habsent
  · refine good_ret (show Ready r unused _ _ from ⟨?_, ?_, ?_⟩)
      fun _ h₅ => good_ret h₅ fun db' h' => hR _ db' h'
    · exact List.forall_mem_append.mpr ⟨h₄.clean, by cases r <;> simp [Request.rotates]⟩
    · exact fun t ht => h.drawn t (List.mem_cons_of_mem _ ht)
    · intro t ht
      refine insert_absent ⟨?_, ?_⟩ (h₄.absent t (List.mem_cons_of_mem _ ht))
      · intro he
        exact hnot (Token.str_injective he ▸ ht)
      · simpa [hkey] using t.ne_empty.symm

/-- Nothing created, where the account with the name came up in between, or a
new record with an empty key. -/
theorem good_createAccountWithUid {name : CStr} {newToken : Token} {R : Account → List (Op × DB) → DB → Prop}
    (h : Ready r (newToken :: unused) es db) (hnot : newToken ∉ unused)
    (hpwd : ∀ a c, ¬ r.rotates (.updateToken a c))
    (hR : ∀ a es' db', Ready r unused es' db' → R a es' db') :
    Good r R (createAccountWithUid name 0 .new newToken) es db := by
  refine Good.bind (good_only (checkIfAccountExists_only name) h fun known es₁ db₁ h₁ => ?_)
  cases known with
  | true =>
    refine good_ret h₁ fun db' h' => hR _ _ db' ⟨h'.clean, ?_, ?_⟩
    · exact fun t ht => h'.drawn t (List.mem_cons_of_mem _ ht)
    · exact fun t ht => h'.absent t (List.mem_cons_of_mem _ ht)
  | false =>
    refine Good.bind (good_only (getNextId_only.imp Op.OnCounters.keepsAccounts) h₁ fun n es₂ db₂ h₂ => ?_)
    exact good_saveAccount h₂ hnot hpwd rfl rfl fun es' db' h' => hR _ es' db' h'

/-! ### The rotations -/

/-- What a request that returned has done: nothing to a record's key or token but
at most one rotation, last, of the account and with the value that the response
names, and written so exactly if it was undisturbed. -/
def Request.Ended (r : Request) (rsp : Response) (es : List (Op × DB)) : Prop :=
  ¬ r.Succeeds rsp ∧ r.Clean es ∨ ∃ before o db, es = before ++ [(o, db)] ∧ r.Clean before ∧ r.rotates o ∧
    r.Succeeds rsp ∧ rsp.Returns o ∧ (o.WritesOwn db ↔ o.Undisturbed db)

theorem good_generateSessionKey {account : Account} {newKey : Token} {R : Account → List (Op × DB) → DB → Prop}
    (h : Ready r [newKey] es db)
    (hR : ∀ before db₁ db', r.Clean before → ((Op.updateSessionKey account newKey.str).WritesOwn db₁ ↔
        (Op.updateSessionKey account newKey.str).Undisturbed db₁) →
      R { account with sessionKey := newKey.str }
        (before ++ [(.updateSessionKey account newKey.str, db₁)]) db') :
    Good r R (account.generateSessionKey newKey) es db := by
  refine Good.bind ⟨h.clean, fun db₁ hf hd a db₂ he => ?_⟩
  have habsent := (h.fresh hf).absent newKey List.mem_cons_self
  have hnew := h.drawn newKey List.mem_cons_self
  cases he
  refine ⟨setSessionKey_distinct hd habsent, fun x _ hown hx => setSessionKey_absent (hown newKey hnew) hx, ?_⟩
  exact fun _ _ db' _ => hR es db₁ db' h.clean (writesOwn_sessionKey_iff hd habsent)

theorem good_generateLoginToken {account : Account} {newToken : Token}
    {R : Account → List (Op × DB) → DB → Prop}
    (h : Ready r [newToken] es db)
    (hR : ∀ before db₁ db', r.Clean before → ((Op.updateToken account newToken.str).WritesOwn db₁ ↔
        (Op.updateToken account newToken.str).Undisturbed db₁) →
      R { account with token := newToken.str } (before ++ [(.updateToken account newToken.str, db₁)]) db') :
    Good r R (account.generateLoginToken newToken) es db := by
  refine Good.bind ⟨h.clean, fun db₁ hf hd a db₂ he => ?_⟩
  have habsent := (h.fresh hf).absent newToken List.mem_cons_self
  have hnew := h.drawn newToken List.mem_cons_self
  cases he
  refine ⟨setToken_distinct hd habsent, fun x _ hown hx => setToken_absent (hown newToken hnew) hx, ?_⟩
  exact fun _ _ db' _ => hR es db₁ db' h.clean (writesOwn_token_iff hd habsent)

end Good

theorem good_pwdAuthenticate {name : CStr} {newToken newKey : Token} (hname : name ≠ .empty)
    (hne : newToken ≠ newKey) {db : DB} (h : Ready (.pwd name newToken newKey) [newToken, newKey] [] db) :
    Good (.pwd name newToken newKey) (fun rsp es _ => Request.Ended (.pwd name newToken newKey) (.login rsp) es)
      (pwdAuthenticate name newToken newKey) [] db := by
  have hlast : ∀ (account : Account) es db, Ready (.pwd name newToken newKey) [newKey] es db →
      Good (.pwd name newToken newKey)
        (fun rsp es _ => Request.Ended (.pwd name newToken newKey) (.login rsp) es)
        (if account.username = .empty then
          return { LoginRet.new with retcode := -201, message := "account_create_error" }
        else do
          let keyed ← account.generateSessionKey newKey
          return { LoginRet.new with
            message := "OK", uid := account.id, name := account.username, token := keyed.sessionKey })
        es db := by
    intro account es db h
    split
    · exact good_ret h fun db' h' => .inl ⟨by simp [Request.Succeeds], h'.clean⟩
    · refine Good.bind (good_generateSessionKey h fun before db₁ _ hclean hiff => ?_)
      exact fun db' _ => .inr ⟨before, _, db₁, rfl, hclean, rfl, rfl, ⟨rfl, rfl⟩, hiff⟩
  refine Good.bind (good_getAccountByName h fun account es₁ db₁ haccount h₁ => ?_)
  have hkey : Ready (.pwd name newToken newKey) [newKey] es₁ db₁ :=
    ⟨h₁.clean, by simp [Request.drawn], fun t ht => h₁.absent t (List.mem_cons_of_mem _ ht)⟩
  by_cases hknown : account.username = .empty
  · rw [if_pos hknown]
    rcases haccount with rfl | husername
    · refine Good.bind (good_createAccountWithUid h₁ (by simpa using hne) (fun _ _ => Bool.false_ne_true) ?_)
      exact fun account es₂ db₂ h₂ => hlast account es₂ db₂ h₂
    · exact absurd (husername.symm.trans hknown) hname
  · rw [if_neg hknown]
    exact hlast account es₁ db₁ hkey

theorem good_sessionKeyAuthenticate {uid tok : CStr} {newToken : Token} {db : DB}
    (h : Ready (.sessionKey uid tok newToken) [newToken] [] db) :
    Good (.sessionKey uid tok newToken)
      (fun rsp es _ => Request.Ended (.sessionKey uid tok newToken) (.combo rsp) es)
      (sessionKeyAuthenticate uid tok newToken) [] db := by
  refine Good.bind (good_only (getAccountById_only uid .new) h fun account es₁ db₁ h₁ => ?_)
  split
  · refine Good.bind (good_generateLoginToken h₁ fun before db₂ _ hclean hiff => ?_)
    exact fun db' _ => .inr ⟨before, _, db₂, rfl, hclean, rfl, rfl, ⟨rfl, rfl⟩, hiff⟩
  · exact good_ret h₁ fun db' h' => .inl ⟨by simp [Request.Succeeds], h'.clean⟩

theorem good_tokenAuthenticate {uid tok : CStr} {db : DB} (h : Ready (.token uid tok) [] [] db) :
    Good (.token uid tok) (fun rsp es _ => Request.Ended (.token uid tok) (.login rsp) es)
      (tokenAuthenticate uid tok) [] db := by
  refine Good.bind (good_only (getAccountById_only uid .new) h fun account es₁ db₁ h₁ => ?_)
  split
  · exact good_ret h₁ fun db' h' => .inl ⟨id, h'.clean⟩
  · exact good_ret h₁ fun db' h' => .inl ⟨id, h'.clean⟩

/-- Every request is good, whatever the others do. -/
theorem Request.good (r : Request) (hname : ¬ r.asks .empty) (hnd : r.drawn.Nodup) {db : DB}
    (habsent : ∀ t ∈ r.drawn, db.Absent t.str) :
    Good r (fun rsp es _ => r.Ended rsp es) r.authenticate [] db := by
  have hready : Ready r r.drawn [] db := ⟨by simp [Request.Clean], fun _ => id, habsent⟩
  cases r with
  | pwd name newToken newKey =>
    have hne : newToken ≠ newKey := by simpa [Request.drawn] using hnd
    exact Good.bind ((good_pwdAuthenticate hname hne hready).imp fun _ _ _ h _ _ => h)
  | token uid tok => exact Good.bind ((good_tokenAuthenticate hready).imp fun _ _ _ h _ _ => h)
  | sessionKey uid tok newToken =>
    exact Good.bind ((good_sessionKeyAuthenticate hready).imp fun _ _ _ h _ _ => h)

/-! ## Every interleaving -/

section Interleaving

variable {ι : Type} [DecidableEq ι] (requests : ι → Request) (db : DB) (sched : List ι)

abbrev outcome : Config Op Op.Res Response DB ι :=
  Runs.final (step Op.exec) (start db fun i => (requests i).authenticate) sched

abbrev operations : List (Done Op DB ι) :=
  Runs.log (step Op.exec) (start db fun i => (requests i).authenticate) sched

/-- Every key or token that a successful response returns was written, by an
update of this request, to the record of the account the response names and to
no other. -/
def NoLostRotation : Prop := ∀ i rsp, (outcome requests db sched).result i = some rsp →
  (requests i).Succeeds rsp → ∃ e ∈ own i (operations requests db sched),
    (requests i).rotates e.1 ∧ rsp.Returns e.1 ∧ e.1.WritesOwn e.2

variable {requests db}

/-- The invariant of the database and of each thread. -/
theorem allOk (hdb : db.Distinct) (hname : ∀ i, ¬ (requests i).asks .empty)
    (hnew : ∀ i, ∀ t ∈ (requests i).drawn, db.Absent t.str) (hnd : ∀ i, (requests i).drawn.Nodup)
    (hdisj : ∀ i j, i ≠ j → (requests i).drawn.Disjoint (requests j).drawn) :
    AllOk Op.exec DB.Distinct (fun i => Fresh (requests i).drawn) (fun i => OnlyOwn (requests i).drawn)
      (fun i => (requests i).Clean) (fun i rsp es _ => (requests i).Ended rsp es)
      (outcome requests db sched) (operations requests db sched) := by
  refine interleaved ?_ ?_ ?_ hdb (fun i => (requests i).good (hname i) (hnd i) (hnew i)) sched
  · exact fun _ _ _ _ h => h
  · exact fun _ _ _ _ => Fresh.trans
  · exact fun i j hij _ _ h => OnlyOwn.fresh (hdisj i j hij) h

/-- Whatever the order, no two records share an id, a token, or a session key
but the empty one. -/
theorem distinct_outcome (hdb : db.Distinct) (hname : ∀ i, ¬ (requests i).asks .empty)
    (hnew : ∀ i, ∀ t ∈ (requests i).drawn, db.Absent t.str) (hnd : ∀ i, (requests i).drawn.Nodup)
    (hdisj : ∀ i j, i ≠ j → (requests i).drawn.Disjoint (requests j).drawn) :
    (outcome requests db sched).shared.Distinct :=
  (allOk sched hdb hname hnew hnd hdisj).1

/-- **No rotation is lost** in exactly the interleavings in which none is disturbed. -/
theorem noLostRotation_iff (hdb : db.Distinct) (hname : ∀ i, ¬ (requests i).asks .empty)
    (hnew : ∀ i, ∀ t ∈ (requests i).drawn, db.Absent t.str) (hnd : ∀ i, (requests i).drawn.Nodup)
    (hdisj : ∀ i j, i ≠ j → (requests i).drawn.Disjoint (requests j).drawn) :
    NoLostRotation requests db sched ↔ ∀ e ∈ operations requests db sched,
      (requests e.thread).rotates e.op → e.op.Undisturbed e.before := by
  have hok := allOk sched hdb hname hnew hnd hdisj
  have hended : ∀ i rsp, (outcome requests db sched).result i = some rsp →
      (requests i).Ended rsp (own i (operations requests db sched)) := fun i rsp hret =>
    hok.result (fun _ _ _ _ h => h) hret
  refine ⟨fun hall ⟨i, o, db₁⟩ hmem hrot => ?_, fun hall i rsp hret hsucc => ?_⟩
  · have hown : (o, db₁) ∈ own i (operations requests db sched) := mem_own.mpr hmem
    obtain ⟨rsp, hret⟩ := hok.finished (i := i) fun hclean => hclean _ hown hrot
    rcases hended i rsp hret with ⟨-, hclean⟩ | ⟨before, o', db', hes, hclean, -, hsucc, -, hiff⟩
    · exact absurd hrot (hclean _ hown)
    · -- the request's one rotation is the last operation it did
      have honly : ∀ o₁ db₁, (o₁, db₁) ∈ own i (operations requests db sched) → (requests i).rotates o₁ →
          (o₁, db₁) = (o', db') := by
        intro o₁ db₁ hmem hrot
        rw [hes, List.mem_append, List.mem_singleton] at hmem
        exact hmem.resolve_left fun hb => hclean _ hb hrot
      obtain ⟨⟨o₂, db₂⟩, hmem₂, hrot₂, -, hwrites⟩ := hall i rsp hret hsucc
      obtain ⟨rfl, rfl⟩ := (Prod.mk.injEq _ _ _ _).mp (honly o₂ db₂ hmem₂ hrot₂)
      obtain ⟨rfl, rfl⟩ := (Prod.mk.injEq _ _ _ _).mp (honly o db₁ hown hrot)
      exact hiff.mp hwrites
  · rcases hended i rsp hret with ⟨hfail, -⟩ | ⟨before, o, db', hes, -, hrot, -, hreturns, hiff⟩
    · exact absurd hsucc hfail
    · have hown : (o, db') ∈ own i (operations requests db sched) := by
        rw [hes]
        exact List.mem_append_right _ List.mem_cons_self
      exact ⟨(o, db'), hown, hrot, hreturns, hiff.mpr (hall ⟨i, o, db'⟩ (mem_own.mp hown) hrot)⟩

end Interleaving

/-! ### Two logins at a time -/

instance : (o : Op) → (db : DB) → Decidable (o.WritesOwn db)
  | .updateSessionKey _ _, _ | .updateToken _ _, _ => inferInstanceAs (Decidable (_ ∧ _))
  | .findOne _, _ | .find _, _ | .insertOne _, _ | .countersFindOne, _ | .countersInsertOne _, _
  | .countersUpdate _ _, _ => isTrue trivial

/-- What a first login, to the name `a`, leaves. -/
def DB.sample : DB where
  account := [⟨.ofBytes [0x31, 0x30, 0x30], .ofBytes [0x61], 0, (Token.sample 1).str, (Token.sample 2).str⟩]
  counters := [⟨.ofBytes "Account".toUTF8.toList, 100⟩]

theorem DB.sample_distinct : DB.sample.Distinct := by
  constructor <;> decide +kernel

/-- Two more logins to it. -/
def Request.sampleLogins : Bool → Request
  | false => .pwd (.ofBytes [0x61]) (.sample 3) (.sample 4)
  | true => .pwd (.ofBytes [0x61]) (.sample 5) (.sample 6)

theorem Request.sampleLogins_disjoint (i j : Bool) (hij : i ≠ j) :
    (sampleLogins i).drawn.Disjoint (sampleLogins j).drawn := by
  have h : ∀ i j : Bool, i ≠ j → ∀ t ∈ (sampleLogins i).drawn, t ∉ (sampleLogins j).drawn := by decide +kernel
  exact fun t hi hj => h i j hij t hi hj

theorem Request.sampleLogins_absent : ∀ i, ∀ t ∈ (sampleLogins i).drawn, DB.sample.Absent t.str := by
  unfold DB.Absent
  decide +kernel

/-- One login after the other. -/
theorem noLostRotation_iff_sample :
    let sched := [false, false, false, false, true, true, true, true]
    NoLostRotation Request.sampleLogins .sample sched ↔ ∀ e ∈ operations Request.sampleLogins .sample sched,
      (Request.sampleLogins e.thread).rotates e.op → e.op.Undisturbed e.before :=
  noLostRotation_iff _ DB.sample_distinct (by decide +kernel) Request.sampleLogins_absent (by decide +kernel)
    Request.sampleLogins_disjoint

/-- Two logins read the same key. The second to update matches no record, and
the key it returns is in none. -/
theorem concurrent_logins_lose_key :
    let sched := [false, false, false, true, true, true, false, true]
    ((Request.pwd (.ofBytes [0x61]) (.sample 1) (.sample 2)).authenticate.run Op.exec .empty).map Prod.snd =
        some DB.sample ∧
      (outcome Request.sampleLogins .sample sched).result true =
        some (.login (.ok (.ofBytes [0x31, 0x30, 0x30]) (.ofBytes [0x61]) (Token.sample 6).str)) ∧
      (outcome Request.sampleLogins .sample sched).shared.Absent (Token.sample 6).str ∧
      ¬ NoLostRotation Request.sampleLogins .sample sched := by
  intro sched
  have hresult : (outcome Request.sampleLogins .sample sched).result true =
      some (.login (.ok (.ofBytes [0x31, 0x30, 0x30]) (.ofBytes [0x61]) (Token.sample 6).str)) := by
    decide +kernel
  have hlost : ∀ e ∈ own true (operations Request.sampleLogins .sample sched),
      (Request.sampleLogins true).rotates e.1 → ¬ e.1.WritesOwn e.2 := by
    decide +kernel
  refine ⟨by decide +kernel, hresult, by unfold DB.Absent; decide +kernel, fun hall => ?_⟩
  obtain ⟨e, hmem, hrot, -, hwrites⟩ := hall true _ hresult rfl
  exact hlost e hmem hrot hwrites

end EyPS
