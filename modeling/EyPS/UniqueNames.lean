/-
Account names under concurrency: any number of the authenticators' requests,
their database operations interleaved in any order.

An account is created by a check that its name is free and an insert, with
other operations between them and no unique index on `username`. The names
are the first database's and the inserted ones, in order (`names_run`); an
insert goes wrong if another account got the name after the request's last
check (`Unraced`).
-/
import EyPS.Rotation

namespace EyPS

open Collection Atomic databaseHelper Runs

/-! ## Names -/

def DB.names (db : DB) : List CStr := db.account.map AccountDoc.username

theorem DB.mem_names {db : DB} {name : CStr} : name ∈ db.names ↔ db.knows name = true := by
  simp [DB.names, DB.knows]

/-- The name of the account that the operation inserts, if it is an insert. -/
def Op.inserts : Op → List CStr
  | .insertOne doc => [doc.username]
  | _ => []

theorem Op.mem_inserts {o : Op} {name : CStr} :
    name ∈ o.inserts ↔ ∃ doc, o = .insertOne doc ∧ doc.username = name := by
  cases o <;> simp [Op.inserts, eq_comm]

/-- Only an insert changes the names. -/
theorem names_exec {o : Op} {db db' : DB} {a : o.Res} (h : Op.exec o db = some (a, db')) :
    db'.names = db.names ++ o.inserts := by
  cases o with
  | insertOne doc =>
    obtain ⟨-, rfl⟩ := Op.exec_insertOne h
    simp [DB.names, Op.inserts]
  | updateSessionKey | updateToken =>
    cases h
    simp [DB.names, Op.inserts]
  | findOne | find | countersFindOne | countersInsertOne | countersUpdate =>
    have hkeep := Op.KeepsAccounts.exec (by trivial) h
    simp [DB.names, hkeep, Op.inserts]

/-- The names of the accounts inserted, in order. -/
def inserted {ι : Type} (l : List (Done Op DB ι)) : List CStr := l.flatMap fun d => d.op.inserts

section Log

variable {ι : Type}

theorem inserted_append (l m : List (Done Op DB ι)) : inserted (l ++ m) = inserted l ++ inserted m :=
  List.flatMap_append

/-- The names in a run, and those that each operation found: the first ones and
the inserted ones. -/
theorem names_run [DecidableEq ι] {requests : ι → Request} {db : DB} (sched : List ι) :
    (outcome requests db sched).shared.names = db.names ++ inserted (operations requests db sched) ∧
      Cuts (fun pre e => e.before.names = db.names ++ inserted pre) (operations requests db sched) := by
  refine inv_log_all (fun (c : Config Op Op.Res Response DB ι) l => c.shared.names = db.names ++ inserted l ∧
    Cuts (fun pre e => e.before.names = db.names ++ inserted pre) l) (fun c i l h => ?_)
    ⟨(List.append_nil _).symm, cuts_nil⟩ sched
  rcases step_cases Op.exec c i with hs | ⟨o, k, r, s, -, he, hs⟩ | ⟨o, k, -, -, hs⟩ <;> rw [hs]
  · simpa using h
  · refine ⟨?_, cuts_append.mpr ⟨h.2, cuts_cons.mpr ⟨?_, cuts_nil⟩⟩⟩
    · rw [names_exec he, h.1, inserted_append]
      simp [inserted]
    · rw [List.append_nil]
      exact h.1
  · simpa using h

end Log

/-! ## One request -/

def Op.isFindOne : Op → Bool
  | .findOne _ => true
  | _ => false

/-- The last `find_one` on the accounts found the name free. -/
def Vacant (name : CStr) (es : List (Op × DB)) : Prop :=
  ∃ es₁ filter db es₂, es = es₁ ++ (.findOne filter, db) :: es₂ ∧ (∀ e ∈ es₂, e.1.isFindOne = false) ∧
    db.knows name = false

/-- An account is inserted only where the last check found its name free. -/
def Checked : List (Op × DB) → Prop := Cuts fun es e => ∀ doc, e.1 = .insertOne doc → Vacant doc.username es

/-- A filter that every account of the name matches found none. -/
theorem DB.not_knows {db db' : DB} {filter : Filter} {name : CStr}
    (hfilter : ∀ doc, doc.username = name → filter.matches doc = true)
    (h : Op.exec (.findOne filter) db = some (none, db')) : db.knows name = false := by
  have hfind : db.account.find? filter.matches = none := (Prod.mk.inj (Option.some.inj h)).1
  rw [Bool.eq_false_iff]
  intro hknows
  obtain ⟨doc, hdoc, hname⟩ := List.any_eq_true.mp hknows
  exact List.find?_eq_none.mp hfind doc hdoc (hfilter doc (by simpa using hname))

theorem checked_nil : Checked [] := cuts_nil

theorem Checked.done {es : List (Op × DB)} (h : Checked es) {o : Op} (db : DB)
    (ho : ∀ doc, o = .insertOne doc → Vacant doc.username es) : Checked (es ++ [(o, db)]) := by
  refine cuts_append.mpr ⟨h, cuts_cons.mpr ⟨?_, cuts_nil⟩⟩
  simpa using ho

theorem Vacant.done {name : CStr} {es : List (Op × DB)} (h : Vacant name es) {o : Op} (ho : o.isFindOne = false)
    (db : DB) : Vacant name (es ++ [(o, db)]) := by
  obtain ⟨es₁, filter, db₁, es₂, rfl, hlast, hfree⟩ := h
  exact ⟨es₁, filter, db₁, es₂ ++ [(o, db)], by simp, List.forall_mem_append.mpr ⟨hlast, by simpa using ho⟩, hfree⟩

abbrev Checks {α : Type} (R : α → List (Op × DB) → Prop) : Query α → List (Op × DB) → Prop :=
  Traces Op.exec Checked R

section Checks

variable {α : Type} {es : List (Op × DB)}

/-- An operation that is no insert. -/
theorem checks_op {o : Op} {R : o.Res → List (Op × DB) → Prop} (ho : o.inserts = []) (h : Checked es)
    (hR : ∀ db a db', Op.exec o db = some (a, db') → Checked (es ++ [(o, db)]) → R a (es ++ [(o, db)])) :
    Checks R (.op o .ret) es := by
  refine .op h fun db a db' he => .ret (hR db a db' he (h.done db ?_))
  rintro doc rfl
  cases ho

theorem checks_checkIfAccountExists {name : CStr} {R : Bool → List (Op × DB) → Prop} (h : Checked es)
    (hR : ∀ known es', Checked es' → (known = false → Vacant name es') → R known es') :
    Checks R (checkIfAccountExists name) es := by
  refine .bind (checks_op rfl h fun db a db' he h₁ => ?_)
  cases a with
  | none =>
    have hfree : db.knows name = false := DB.not_knows (fun _ _ => rfl) he
    exact .ret (hR _ _ h₁ fun _ => ⟨es, .all, db, [], rfl, by simp, hfree⟩)
  | some d =>
    refine .bind (checks_op rfl h₁ fun db₂ a db' he₂ h₂ => ?_)
    cases a with
    | none =>
      have hfree : db₂.knows name = false := DB.not_knows (fun _ hname => by simp [Filter.matches, hname]) he₂
      exact .ret (hR _ _ h₂ fun _ => ⟨_, .username name, db₂, [], rfl, by simp, hfree⟩)
    | some d => exact .ret (hR _ _ h₂ fun hk => by cases hk)

/-- A program that inserts no account. -/
theorem checks_only {p : Query α} {R : α → List (Op × DB) → Prop} (hp : p.Only Op.KeepsAccounts)
    (h : Checked es) (hR : ∀ a es', Checked es' → R a es') : Checks R p es := by
  refine .of_only Checked (fun _ => id) (fun o ho es db h => h.done db ?_) hR hp h
  rintro doc rfl
  exact absurd ho id

/-- The name stays free for the request while it takes a number. -/
theorem checks_getNextId {name : CStr} {R : Int32 → List (Op × DB) → Prop} (h : Checked es)
    (hv : Vacant name es) (hR : ∀ n es', Checked es' → Vacant name es' → R n es') : Checks R getNextId es := by
  refine .of_only (fun es => Checked es ∧ Vacant name es) (fun _ h => h.1) (fun o ho es db h => ?_)
    (fun n es h => hR n es h.1 h.2) getNextId_only ⟨h, hv⟩
  cases o with
  | countersFindOne | countersInsertOne | countersUpdate =>
    exact ⟨h.1.done db fun doc hdoc => (by cases hdoc), h.2.done rfl db⟩
  | _ => exact absurd ho id

/-- The insert: the name was free at the last check. -/
theorem checks_saveAccount {account : Account} {newToken : Token} {R : Account → List (Op × DB) → Prop}
    (h : Checked es) (hv : Vacant account.username es) (hR : ∀ account es', Checked es' → R account es') :
    Checks R (saveAccount account newToken) es := by
  refine .bind (.bind (checks_op rfl h fun db _ db' _ h₁ => .ret ?_))
  have hv₁ := hv.done (o := .updateToken account newToken.str) rfl db
  refine .bind (.op h₁ fun db _ db' _ => .ret (.ret (hR _ _ (h₁.done db ?_))))
  rintro doc hdoc
  cases hdoc
  exact hv₁

theorem checks_createAccountWithUid {name : CStr} {account : Account} {newToken : Token}
    {R : Account → List (Op × DB) → Prop} (h : Checked es) (hR : ∀ account es', Checked es' → R account es') :
    Checks R (createAccountWithUid name 0 account newToken) es := by
  refine .bind (checks_checkIfAccountExists h fun known es₁ h₁ hv => ?_)
  cases known with
  | true => exact .ret (hR _ _ h₁)
  | false =>
    refine .bind (checks_getNextId h₁ (hv rfl) fun n es₂ h₂ hv₂ => ?_)
    exact checks_saveAccount h₂ hv₂ hR

theorem checks_pwdAuthenticate (name : CStr) (newToken newKey : Token) :
    Checks (fun _ => Checked) (pwdAuthenticate name newToken newKey) [] := by
  have hkey : ∀ (account : Account) es, Checked es → Checks (fun _ => Checked)
      (if account.username = .empty then
        return { LoginRet.new with retcode := -201, message := "account_create_error" }
      else do
        let keyed ← account.generateSessionKey newKey
        return { LoginRet.new with
          message := "OK", uid := account.id, name := account.username, token := keyed.sessionKey })
      es := by
    intro account es h
    split
    · exact .ret h
    · exact .bind (.bind (checks_op rfl h fun db _ db' _ h₁ => .ret (.ret h₁)))
  refine .bind (checks_only (getAccountByName_only name .new) checked_nil fun account es₁ h₁ => ?_)
  split
  · exact .bind (checks_createAccountWithUid h₁ hkey)
  · exact hkey account es₁ h₁

theorem checks_tokenAuthenticate (uid tok : CStr) : Checks (fun _ => Checked) (tokenAuthenticate uid tok) [] := by
  refine .bind (checks_only (getAccountById_only uid .new) checked_nil fun account es₁ h₁ => ?_)
  split <;> exact .ret h₁

theorem checks_sessionKeyAuthenticate (uid tok : CStr) (newToken : Token) :
    Checks (fun _ => Checked) (sessionKeyAuthenticate uid tok newToken) [] := by
  refine .bind (checks_only (getAccountById_only uid .new) checked_nil fun account es₁ h₁ => ?_)
  split
  · exact .bind (.bind (checks_op rfl h₁ fun db _ db' _ h₂ => .ret (.ret h₂)))
  · exact .ret h₁

/-- Every request checks before it inserts. -/
theorem Request.checks (r : Request) : Checks (fun _ => Checked) r.authenticate [] := by
  cases r with
  | pwd name newToken newKey => exact .bind ((checks_pwdAuthenticate name newToken newKey).imp fun _ _ h => .ret h)
  | token uid tok => exact .bind ((checks_tokenAuthenticate uid tok).imp fun _ _ h => .ret h)
  | sessionKey uid tok newToken =>
    exact .bind ((checks_sessionKeyAuthenticate uid tok newToken).imp fun _ _ h => .ret h)

end Checks

/-! ## Every interleaving -/

section Interleaving

variable {ι : Type} [DecidableEq ι]

/-- In every state of the run the account names are distinct. -/
def OneAccountPerName (requests : ι → Request) (db : DB) (sched : List ι) : Prop :=
  ∀ pre, pre <+: sched → (outcome requests db pre).shared.names.Nodup

/-- No insert comes after another of the same name that was done since the
request's last check. -/
def Unraced (l : List (Done Op DB ι)) : Prop :=
  Cuts (fun pre e => ∀ name ∈ e.op.inserts, ∀ pre₁ check pre₂, pre = pre₁ ++ check :: pre₂ →
    check.thread = e.thread → check.op.isFindOne = true →
    (∀ d ∈ pre₂, d.thread = e.thread → d.op.isFindOne = false) → name ∉ inserted pre₂) l

/-- A name that the thread's last check found free, and that was not inserted
since, is free. -/
theorem free_of_vacant {db : DB} {i : ι} {name : CStr} {l : List (Done Op DB ι)}
    (hfound : Cuts (fun pre e => e.before.names = db.names ++ inserted pre) l) (hv : Vacant name (own i l))
    (hraced : ∀ pre₁ check pre₂, l = pre₁ ++ check :: pre₂ → check.thread = i → check.op.isFindOne = true →
      (∀ d ∈ pre₂, d.thread = i → d.op.isFindOne = false) → name ∉ inserted pre₂) :
    name ∉ db.names ++ inserted l := by
  obtain ⟨es₁, filter, db₁, es₂, hes, hlast, hfree⟩ := hv
  obtain ⟨l₁, l₂, rfl, -, hl₂⟩ := own_split hes
  have hbefore : name ∉ db.names ++ inserted l₁ := by
    rw [← hfound l₁ _ l₂ rfl, DB.mem_names, hfree]
    exact Bool.false_ne_true
  have hsince : name ∉ inserted l₂ := by
    refine hraced l₁ _ l₂ rfl rfl rfl fun d hd hthread => ?_
    subst hthread
    exact hlast _ (hl₂ ▸ mem_own.mpr hd)
  rw [inserted_append, ← List.append_assoc, List.mem_append]
  exact not_or.mpr ⟨hbefore, hsince⟩

/-- The names stay distinct as long as no insert is raced. -/
theorem Unraced.nodup {db : DB} (hdb : db.names.Nodup) {l : List (Done Op DB ι)}
    (hchecked : ∀ i, Checked (own i l))
    (hfound : Cuts (fun pre e => e.before.names = db.names ++ inserted pre) l) (h : Unraced l) :
    (db.names ++ inserted l).Nodup := by
  induction l using List.reverseRecOn with
  | nil => simpa [inserted] using hdb
  | append_singleton l e ih =>
    obtain ⟨hl, he⟩ := cuts_append.mp h
    have hfound' := (cuts_append.mp hfound).1
    have hchecked' : ∀ i, Checked (own i l) := fun i =>
      (cuts_append.mp (own_append i l [e] ▸ hchecked i)).1
    rw [inserted_append, ← List.append_assoc]
    refine List.nodup_append.mpr ⟨ih hchecked' hfound' hl, ?_, fun a ha b hb hab => ?_⟩
    · cases hop : e.op <;> simp [inserted, hop, Op.inserts]
    · subst hab
      have hb : a ∈ e.op.inserts := by simpa [inserted] using hb
      obtain ⟨i, o, s⟩ := e
      obtain ⟨doc, rfl, rfl⟩ := Op.mem_inserts.mp hb
      have hi := hchecked i
      rw [own_append, own_cons_self] at hi
      have hv : Vacant doc.username (own i l) := hi (own i l) _ [] rfl doc rfl
      exact free_of_vacant hfound' hv (h l _ [] rfl _ hb) ha

/-- **One account per name** in exactly the runs in which no insert is raced. -/
theorem oneAccountPerName_iff (requests : ι → Request) {db : DB} (hdb : db.names.Nodup) (sched : List ι) :
    OneAccountPerName requests db sched ↔ Unraced (operations requests db sched) := by
  constructor
  · intro h pre e post hl name hname pre₁ check pre₂ hpre _ _ _ hmem
    have hnd := h sched List.prefix_rfl
    rw [(names_run sched).1, hl, inserted_append] at hnd
    have hearlier : name ∈ inserted pre := by
      rw [hpre, inserted_append]
      exact List.mem_append_right _ (List.mem_append_right _ hmem)
    have hnow : name ∈ inserted (e :: post) := List.mem_append_left _ hname
    exact (List.nodup_append.mp (List.nodup_append.mp hnd).2.1).2.2 name hearlier name hnow rfl
  · rintro h pre ⟨rest, rfl⟩
    rw [(names_run pre).1]
    refine Unraced.nodup hdb (own_traces (fun i => (requests i).checks) db pre) (names_run pre).2 ?_
    rw [operations, log_append] at h
    exact (cuts_append.mp h).1

end Interleaving

/-! ### Two first logins at a time -/

/-- Both to the name `a`. -/
def Request.sampleSignups : Bool → Request
  | false => .pwd (.ofBytes [0x61]) (.sample 1) (.sample 2)
  | true => .pwd (.ofBytes [0x61]) (.sample 3) (.sample 4)

/-- One after the other. -/
theorem oneAccountPerName_iff_sample :
    let sched := List.replicate 8 false ++ List.replicate 9 true
    OneAccountPerName Request.sampleSignups .empty sched ↔
      Unraced (operations Request.sampleSignups .empty sched) :=
  oneAccountPerName_iff Request.sampleSignups (show DB.empty.names.Nodup from List.nodup_nil) _

/-- Both find the name free, and both insert: accounts 100 and 101. -/
theorem concurrent_signups_share_name :
    let sched := [false, false, true, true] ++ List.replicate 6 false ++ List.replicate 7 true
    ((outcome Request.sampleSignups .empty sched).shared.account.map fun d => (d.id, d.username)) =
        [(.ofBytes [0x31, 0x30, 0x30], .ofBytes [0x61]), (.ofBytes [0x31, 0x30, 0x31], .ofBytes [0x61])] ∧
      ¬ OneAccountPerName Request.sampleSignups .empty sched := by
  intro sched
  have hnames : (outcome Request.sampleSignups .empty sched).shared.names = [.ofBytes [0x61], .ofBytes [0x61]] := by
    decide +kernel
  refine ⟨by decide +kernel, fun h => ?_⟩
  have hnd := h sched List.prefix_rfl
  rw [hnames] at hnd
  simp at hnd

end EyPS
