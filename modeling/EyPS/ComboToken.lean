/-
Combo-token rotation over sequential histories from an empty database:
`SessionKeyAuthenticate` sets the token of one record and changes nothing
else.

The update queries the token's old value, so what makes it the record of the
account is that no two records share a token (`Tokened`). The same update
runs when an account is created, with the empty old token of a record that
is not there yet; no stored token is empty, and it matches nothing. That no
call throws is that the counter is ahead of every `_id` (`Numbered`).
-/
import EyPS.IssuedKeys

namespace EyPS

open Collection Atomic Runs

/-! ## Numbers -/

/-- The ids are the numbers from 100 on, in order, and the counter is at the next. -/
structure Numbered (db : DB) : Prop where
  ids : db.account.map AccountDoc.id =
    (List.range db.account.length).map fun i => CStr.ofBytes (toString (Int32.ofNat (100 + i)))
  next : db.nextId = Int32.ofNat (100 + db.account.length)

/-- What a run may leave of ids and counter: both as they were, or one more account
with the next number. It throws only where that is taken. -/
inductive Counts (db : DB) {α : Type} : Option (α × DB) → Prop
  | throws (htaken : db.idTaken = true) : Counts db none
  | same {a : α} {db' : DB} (hids : db'.account.map AccountDoc.id = db.account.map AccountDoc.id)
      (hcounters : db'.counters = db.counters) : Counts db (some (a, db'))
  | insert {a : α} {db' : DB}
      (hids : db'.account.map AccountDoc.id = db.account.map AccountDoc.id ++ [db.newId])
      (hcounters : db'.counters = db.counted.counters) : Counts db (some (a, db'))

section Counts

variable {α β : Type} {db : DB}

theorem Counts.map {out : Option (α × DB)} (h : Counts db out) (f : α → β) :
    Counts db (out.bind fun adb => some (f adb.1, adb.2)) := by
  cases h with
  | throws htaken => exact .throws htaken
  | same hids hcounters => exact .same hids hcounters
  | insert hids hcounters => exact .insert hids hcounters

theorem pwdAuthenticate_counts (name : CStr) (newToken newKey : Token) :
    Counts db ((pwdAuthenticate name newToken newKey).run Op.exec db) := by
  cases hknows : db.knows name with
  | false =>
    rw [run_pwdAuthenticate_new db hknows]
    split
    next htaken => exact .throws htaken
    next =>
      split
      · exact .insert (by simp [DB.created]) rfl
      · exact .insert (by simp [DB.created]) rfl
  | true =>
    obtain ⟨doc, -, -, hrun⟩ := run_pwdAuthenticate_known db hknows newToken newKey
    rw [hrun]
    split
    · exact .same rfl rfl
    · exact .same (by simp) rfl

theorem sessionKeyAuthenticate_counts (uid tok : CStr) (newToken : Token) :
    Counts db ((sessionKeyAuthenticate uid tok newToken).run Op.exec db) := by
  rcases run_sessionKeyAuthenticate db uid tok newToken with ⟨doc, -, -, -, -, hrun⟩ | ⟨-, hrun⟩
  · rw [hrun]
    exact .same (by simp) rfl
  · rw [hrun]
    exact .same rfl rfl

theorem Request.counts (r : Request) : Counts db (r.authenticate.run Op.exec db) := by
  cases r with
  | pwd name newToken newKey =>
    rw [Request.authenticate, Prog.bind_eq, Prog.run_bind]
    exact (pwdAuthenticate_counts name newToken newKey).map Response.login
  | token uid tok =>
    obtain ⟨rsp, hrun⟩ := run_tokenAuthenticate db uid tok
    rw [Request.authenticate, Prog.bind_eq, Prog.run_bind, hrun]
    exact .same rfl rfl
  | sessionKey uid tok newToken =>
    rw [Request.authenticate, Prog.bind_eq, Prog.run_bind]
    exact (sessionKeyAuthenticate_counts uid tok newToken).map Response.combo

end Counts

namespace Numbered

variable {db : DB} {r : Request}

theorem empty : Numbered .empty := ⟨rfl, rfl⟩

theorem congr (h : Numbered db) {db' : DB} (hids : db'.account.map AccountDoc.id = db.account.map AccountDoc.id)
    (hcounters : db'.counters = db.counters) : Numbered db' := by
  have hlen : db'.account.length = db.account.length := by simpa using congrArg List.length hids
  refine ⟨?_, ?_⟩
  · rw [hids, h.ids, hlen]
  · rw [DB.nextId, hcounters, hlen]
    exact h.next

/-- The counter moves with every account. -/
theorem insert (h : Numbered db) {db' : DB}
    (hids : db'.account.map AccountDoc.id = db.account.map AccountDoc.id ++ [db.newId])
    (hcounters : db'.counters = db.counted.counters) : Numbered db' := by
  have hlen : db'.account.length = db.account.length + 1 := by simpa using congrArg List.length hids
  have hnext : db'.nextId = db.nextId + 1 := by
    unfold DB.nextId
    rw [hcounters]
    cases hc : db.counters with
    | nil => simp [DB.counted, hc]
    | cons counter rest => simp [DB.counted, hc]
  refine ⟨?_, ?_⟩
  · rw [hids, hlen, List.range_succ, List.map_append, h.ids, DB.newId, h.next]
    rfl
  · rw [hnext, h.next, hlen, ← Nat.add_assoc, Int32.ofNat_add (100 + db.account.length) 1]
    rfl

/-- The next number is not taken. -/
theorem not_idTaken (h : Numbered db) (hcount : db.account.length ≤ 2 ^ 31 - 100) : db.idTaken = false := by
  rw [Bool.eq_false_iff]
  intro htaken
  have hmem : db.newId ∈ db.account.map AccountDoc.id := by simpa [DB.idTaken] using htaken
  rw [h.ids, DB.newId, h.next] at hmem
  obtain ⟨i, hi, he⟩ := List.mem_map.mp hmem
  have hi := List.mem_range.mp hi
  have hnum : Int32.ofNat (100 + i) = Int32.ofNat (100 + db.account.length) := ofBytes_toString_injective he
  have hnat := congrArg (fun n : Int32 => n.toBitVec.toNat) hnum
  simp only [Int32.toBitVec_ofNat', BitVec.toNat_ofNat] at hnat
  omega

/-- A call leaves the accounts numbered, none fewer, and completes where the
counter has not run out. -/
theorem step (h : Numbered db) (r : Request) :
    Numbered (serve db r).1 ∧ db.account.length ≤ (serve db r).1.account.length ∧
      (db.account.length ≤ 2 ^ 31 - 100 → Completes db r) := by
  have hcounts : Counts db (r.authenticate.run Op.exec db) := r.counts
  unfold serve Completes
  revert hcounts
  generalize r.authenticate.run Op.exec db = out
  intro hcounts
  cases hcounts with
  | throws htaken =>
    exact ⟨h, le_rfl, fun hcount => absurd htaken (by simp [h.not_idTaken hcount])⟩
  | same hids hcounters =>
    have hlen := congrArg List.length hids
    simp only [List.length_map] at hlen
    exact ⟨h.congr hids hcounters, hlen.ge, fun _ => rfl⟩
  | insert hids hcounters =>
    have hlen := congrArg List.length hids
    simp only [List.length_map, List.length_append, List.length_singleton] at hlen
    exact ⟨h.insert hids hcounters, (Nat.le_succ _).trans hlen.ge, fun _ => rfl⟩

/-- So a history completes whose accounts the counter can number. -/
theorem completes : ∀ {history : List Request} {db : DB}, Numbered db →
    (final serve db history).account.length ≤ 2 ^ 31 - 100 → AllSteps serve Completes db history
  | [], _, _, _ => trivial
  | r :: history, db, h, hcount => by
    obtain ⟨hnext, hmono, hcompletes⟩ := h.step r
    have hgrow : Numbered (final serve (serve db r).1 history) ∧ (serve db r).1.account.length ≤
        (final serve (serve db r).1 history).account.length := by
      refine inv (fun db' => Numbered db' ∧ (serve db r).1.account.length ≤ db'.account.length)
        (fun db' r' hdb => ?_) ⟨hnext, le_rfl⟩
      obtain ⟨h', hmono', -⟩ := hdb.1.step r'
      exact ⟨h', hdb.2.trans hmono'⟩
    rw [final_cons] at hcount
    exact ⟨hcompletes (hmono.trans (hgrow.2.trans hcount)), completes hnext hcount⟩

end Numbered

/-! ## Tokens -/

/-- No two accounts share a token, and all are from `createToken`. -/
structure Tokened (docs : List AccountDoc) (calls : List Served) : Prop where
  tokens : (docs.map AccountDoc.token).Nodup
  tokens_drawn : ∀ d ∈ docs, d.token ∈ drawn calls

namespace Tokened

variable {docs docs' : List AccountDoc} {calls : List Served} {r : Request} {rsp : Response}

theorem nil : Tokened [] [] := by
  constructor <;> simp

/-- A token that was not drawn is no account's. -/
theorem not_mem (h : Tokened docs calls) {token : CStr} (hfresh : token ∉ drawn calls) :
    token ∉ docs.map AccountDoc.token := by
  intro hmem
  obtain ⟨d, hd, rfl⟩ := List.mem_map.mp hmem
  exact hfresh (h.tokens_drawn d hd)

theorem of_tokens (h : Tokened docs calls) (c : Served)
    (htokens : docs'.map AccountDoc.token = docs.map AccountDoc.token) : Tokened docs' (calls ++ [c]) := by
  refine ⟨htokens ▸ h.tokens, fun d hd => ?_⟩
  have hmem : d.token ∈ docs'.map AccountDoc.token := List.mem_map_of_mem hd
  rw [htokens] at hmem
  obtain ⟨d', hd', he⟩ := List.mem_map.mp hmem
  rw [drawn_concat, ← he]
  exact List.mem_append_left _ (h.tokens_drawn d' hd')

/-- A new account has its own token. -/
theorem insert (h : Tokened docs calls) {c : Served} {newToken : Token} (hdrawn : newToken ∈ c.request.drawn)
    (hfresh : newToken.str ∉ drawn calls)
    (htokens : docs'.map AccountDoc.token = docs.map AccountDoc.token ++ [newToken.str]) :
    Tokened docs' (calls ++ [c]) := by
  refine ⟨?_, fun d hd => ?_⟩
  · rw [htokens, ← List.concat_eq_append]
    exact h.tokens.concat (h.not_mem hfresh)
  · have hmem : d.token ∈ docs'.map AccountDoc.token := List.mem_map_of_mem hd
    rw [drawn_concat, List.mem_append]
    rw [htokens, List.mem_append, List.mem_singleton] at hmem
    rcases hmem with hmem | he
    · obtain ⟨d', hd', he⟩ := List.mem_map.mp hmem
      exact .inl (he ▸ h.tokens_drawn d' hd')
    · exact .inr (he ▸ List.mem_map_of_mem hdrawn)

theorem setToken (h : Tokened docs calls) {p : AccountDoc → Bool} {c : Served} {newToken : Token}
    (hdrawn : newToken ∈ c.request.drawn) (hfresh : newToken.str ∉ drawn calls) :
    Tokened (updateFirst p (·.setToken newToken.str) docs) (calls ++ [c]) := by
  refine ⟨nodup_map_updateFirst h.tokens fun _ _ => h.not_mem hfresh, ?_⟩
  rw [drawn_concat]
  exact forall_updateFirst (fun d hd => List.mem_append_left _ (h.tokens_drawn d hd))
    fun _ _ => List.mem_append_right _ (List.mem_map_of_mem hdrawn)

theorem step (h : Tokened docs calls) (hn : Named docs calls) (he : Effect r rsp docs docs')
    (hnd : (drawn (calls ++ [⟨r, rsp⟩])).Nodup) : Tokened docs' (calls ++ [⟨r, rsp⟩]) := by
  have hfresh := fresh_of_nodup hnd
  cases he with
  | login => exact h.of_tokens _ (by simp)
  | @create _ _ newToken =>
    rw [hn.setToken_eq]
    exact h.insert (by simp [Request.drawn]) (hfresh newToken (by simp [Request.drawn])) (by simp)
  | @unnamed _ newToken =>
    rw [hn.setToken_eq]
    exact h.insert (by simp [Request.drawn]) (hfresh newToken (by simp [Request.drawn])) (by simp)
  | @combo _ newToken => exact h.setToken (by simp [Request.drawn]) (hfresh newToken (by simp [Request.drawn]))
  | refused | token | noCombo => exact h.of_tokens _ rfl

/-- The account with a token is the only one. -/
theorem find?_token (h : Tokened docs calls) {d : AccountDoc} (hd : d ∈ docs) :
    docs.find? (·.token = d.token) = some d :=
  find?_eq_of_unique hd (by simp) fun _ hy he => List.inj_on_of_nodup_map h.tokens hy hd (by simpa using he)

end Tokened

/-! ## Combo requests -/

/-- A combo request answers: with a new token for the account, of which nothing
else changes and no other account, exactly if the account with the uid has
the session key, and else changes nothing. -/
def DB.RotatesOneToken (db : DB) : Prop := ∀ uid tok newToken, ∃ rsp db',
  (sessionKeyAuthenticate uid tok newToken).run Op.exec db = some (rsp, db') ∧
    (rsp.retcode = 0 ↔ ∃ d ∈ db.account, d.id = uid ∧ d.sessionKey = tok) ∧
    (rsp.retcode = 0 → rsp.comboToken = newToken.str ∧ db' = { db with
      account := db.account.map fun d => if d.id = uid then d.setToken rsp.comboToken else d }) ∧
    (rsp.retcode ≠ 0 → db' = db)

theorem rotatesOneToken {db : DB} {calls : List Served} (hn : Named db.account calls)
    (ht : Tokened db.account calls) : db.RotatesOneToken := by
  intro uid tok newToken
  rcases run_sessionKeyAuthenticate db uid tok newToken with ⟨doc, hdoc, rfl, -, hkey, hrun⟩ | ⟨hwhy, hrun⟩
  · refine ⟨_, _, hrun, iff_of_true rfl ⟨doc, hdoc, rfl, hkey⟩, fun _ => ⟨rfl, ?_⟩, fun h => absurd rfl h⟩
    rw [updateFirst_eq_map hn.ids (ht.find?_token hdoc)]
    rfl
  · refine ⟨_, _, hrun, iff_of_false (by decide) ?_, fun h => absurd h (by decide), fun _ => rfl⟩
    rintro ⟨d, hd, rfl, rfl⟩
    exact hn.not_refuses hd hwhy

/-- **Combo-token rotation touches one field of one record**, after every history
that creates no more accounts than the counter can number: every call
completed, ids and tokens are distinct, no token is empty, and what a combo
request and a token request then do is as stated. -/
theorem combo_token_rotation {history : List Request} (hfresh : (history.flatMap Request.drawn).Nodup)
    (hcount : (final serve .empty history).account.length ≤ 2 ^ 31 - 100) :
    AllSteps serve Completes .empty history ∧
      ((final serve .empty history).account.map AccountDoc.id).Nodup ∧
      ((final serve .empty history).account.map AccountDoc.token).Nodup ∧
      (∀ d ∈ (final serve .empty history).account, d.token ≠ .empty) ∧
      (final serve .empty history).RotatesOneToken ∧
      ∀ uid tok, ∃ rsp, (tokenAuthenticate uid tok).run Op.exec (final serve .empty history) =
        some (rsp, final serve .empty history) := by
  have hc : AllSteps serve Completes .empty history := Numbered.empty.completes hcount
  have hn := named_final hc
  have ht : Tokened (final serve .empty history).account (log serve .empty history) :=
    inv_final Tokened Tokened.nil (fun h hnamed he hnd => h.step hnamed he hnd) hc hfresh
  exact ⟨hc, hn.ids, ht.tokens, hn.token_ne, rotatesOneToken hn ht, run_tokenAuthenticate _⟩

/-- Two accounts, a combo request for the second, and the first's next login. -/
theorem combo_token_rotation_sample :
    AllSteps serve Completes .empty Request.sampleHistory ∧
      ((final serve .empty Request.sampleHistory).account.map AccountDoc.id).Nodup ∧
      ((final serve .empty Request.sampleHistory).account.map AccountDoc.token).Nodup ∧
      (∀ d ∈ (final serve .empty Request.sampleHistory).account, d.token ≠ .empty) ∧
      (final serve .empty Request.sampleHistory).RotatesOneToken ∧
      ∀ uid tok, ∃ rsp, (tokenAuthenticate uid tok).run Op.exec (final serve .empty Request.sampleHistory) =
        some (rsp, final serve .empty Request.sampleHistory) :=
  combo_token_rotation (by decide +kernel) (by decide +kernel)

end EyPS
