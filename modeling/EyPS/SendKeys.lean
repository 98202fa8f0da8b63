/-
The keys of the packets a connection sends. `Send` picks the key by a default
argument at each call, the receive path by a flag the token handler sets:
whether a send has a key at all, and whether the two sides agree, depend on
the session state the packet finds (`EarlyPing`, `LateDispatch`).
-/
import EyPS.Progress

namespace EyPS

variable {env : Env}

/-- A ping that would be answered before there is an MT key. -/
def EarlyPing (env : Env) (w : Worker) (t : Turn) : Prop :=
  w.thread = .running ∧ t.packet.packetId = env.ids.pingReq ∧ w.kcp.sessionState = .waitingForToken

/-- A login: its response goes out under the dispatch key after the MT key is
in use. -/
def LateDispatch (env : Env) (w : Worker) (t : Turn) : Prop :=
  w.thread = .running ∧ t.packet.packetId = env.ids.playerLoginReq ∧ w.kcp.sessionState = .waitingForLogin

/-! ## An empty key -/

theorem SendCall.By.key_ne_nil {c : SendCall} {h u key} (hc : SendCall.By c h u key) (hk : key ≠ []) :
    c.key ≠ [] := by
  obtain ⟨-, -, rfl⟩ := hc
  exact hk

/-- A packet is answered under an empty key exactly if it is an early ping. -/
theorem Handled.keys_iff {k : Kcp} {t : Turn} {w : Worker} {l : List Event} (h : Handled env k t w l)
    (hp : Progress env k) (hd : env.dispatchKey ≠ []) :
    (∀ c, Event.send c ∈ l → c.key ≠ []) ↔ ¬ EarlyPing env ⟨k, .running⟩ t := by
  have hids := env.ids.tables_distinct
  cases h with
  | rejected ha =>
    have : t.packet.packetId ≠ env.ids.pingReq := fun hid => by simp [admitted, hid] at ha
    simp [EarlyPing, this]
  | ping c hid hc =>
    obtain ⟨-, -, hkey⟩ := hc
    simp [EarlyPing, hid, hkey, hp.key_ne_nil]
  | token c hid hs hc =>
    have hne : c.key ≠ [] := hc.key_ne_nil hd
    simp [EarlyPing, hid, hids.1.symm, hne]
  | login cs c hid hs hcs hc =>
    have hmt : k.mtKey ≠ [] := hp.key_ne_nil.mpr (by simp [hs])
    have hne : c.key ≠ [] := hc.key_ne_nil hd
    have hall : ∀ x ∈ cs, x.key ≠ [] := fun x hx => (hcs x hx).key_ne_nil hmt
    simp only [EarlyPing, hid, hids.2.1.symm, false_and, and_false, not_false_eq_true, iff_true]
    intro x hx
    simp only [List.mem_cons, reduceCtorEq, List.mem_append, List.mem_map, Event.send.injEq,
      exists_eq_right, List.not_mem_nil, or_false, false_or] at hx
    rcases hx with hx | rfl
    · exact hall x hx
    · exact hne
  | missing hid hs => simp [EarlyPing, hs]

theorem handlePacket_keys_iff {w : Worker} (h : Progress env w.kcp) (hd : env.dispatchKey ≠ []) (t : Turn) :
    (∀ c, Event.send c ∈ (handlePacket env w t).2 → c.key ≠ []) ↔ ¬ EarlyPing env w t := by
  rcases handlePacket_cases h t with ⟨hr, he⟩ | ⟨hr, hh⟩
  · simp [he, EarlyPing, hr]
  · rw [hh.keys_iff h hd]
    simp [EarlyPing, hr]

/-- Past the first packet a running thread no longer waits for the token. -/
def Settled (w : Worker) : Prop := w.thread = .running → w.kcp.sessionState ≠ .waitingForToken

theorem Handled.settled {k : Kcp} {t : Turn} {w : Worker} {l : List Event} (h : Handled env k t w l)
    (hn : ¬ EarlyPing env ⟨k, .running⟩ t) : Settled w := by
  cases h with
  | rejected => intro hr; cases hr
  | ping c hid => exact fun _ hs => hn ⟨rfl, hid, hs⟩
  | token => exact fun _ hs => by simp [Kcp.tokenGiven] at hs
  | login => exact fun _ hs => by simp [Kcp.loggedIn] at hs
  | missing _ hs => exact fun _ => by simp [hs]

theorem handlePacket_settled {w : Worker} (h : Progress env w.kcp) {t : Turn} (hn : ¬ EarlyPing env w t) :
    Settled (handlePacket env w t).1 := by
  rcases handlePacket_cases h t with ⟨hr, he⟩ | ⟨hr, hh⟩
  · rw [he]
    exact fun hr' => absurd hr' hr
  · exact hh.settled fun hp => hn ⟨hr, hp.2⟩

theorem Settled.not_earlyPing {w : Worker} (h : Settled w) (t : Turn) : ¬ EarlyPing env w t :=
  fun ⟨hr, _, hs⟩ => h hr hs

/-- Once settled, no ping is early. -/
theorem Settled.allSteps {w : Worker} (hw : Settled w) (hp : Progress env w.kcp) (ts : List Turn) :
    Runs.AllSteps (handlePacket env) (fun w t => ¬ EarlyPing env w t) w ts :=
  (Runs.allSteps_congr (fun w : Worker => Settled w ∧ Progress env w.kcp)
    (fun _ t h => ⟨handlePacket_settled h.2 (h.1.not_earlyPing t), handlePacket_progress h.2 t⟩)
    (fun _ t h => iff_of_true (h.1.not_earlyPing t) trivial) ⟨hw, hp⟩).mpr Runs.allSteps_true

/-- Of a new connection only the first packet can be an early ping. -/
theorem allSteps_not_earlyPing_iff (ep : Endpoint) (now : Int) (ts : List Turn) :
    Runs.AllSteps (handlePacket env) (fun w t => ¬ EarlyPing env w t) (Worker.start env.platform ep now) ts ↔
      ∀ t, ts.head? = some t → t.packet.packetId ≠ env.ids.pingReq := by
  have hp := Progress.start env ep now
  cases ts with
  | nil => simp
  | cons t ts =>
    simp only [Runs.allSteps_cons, List.head?_cons, Option.some.injEq, forall_eq']
    constructor
    · exact fun h hid => h.1 ⟨rfl, hid, rfl⟩
    · intro h
      have hn : ¬ EarlyPing env (Worker.start env.platform ep now) t := fun he => h he.2.1
      exact ⟨hn, (handlePacket_settled hp hn).allSteps (handlePacket_progress hp t) ts⟩

/-- **Every send has a key** exactly if the first packet is not a ping. -/
theorem send_key_ne_nil_iff (hd : env.dispatchKey ≠ []) (ep : Endpoint) (now : Int) (ts : List Turn) :
    (∀ c, Event.send c ∈ Runs.log (handlePacket env) (Worker.start env.platform ep now) ts → c.key ≠ []) ↔
      ∀ t, ts.head? = some t → t.packet.packetId ≠ env.ids.pingReq := by
  have hlog : (∀ c, Event.send c ∈ Runs.log (handlePacket env) (Worker.start env.platform ep now) ts →
      c.key ≠ []) ↔ ∀ e ∈ Runs.log (handlePacket env) (Worker.start env.platform ep now) ts,
        ∀ c, e = .send c → c.key ≠ [] :=
    ⟨fun h e he c hc => h c (hc ▸ he), fun h c hc => h _ hc c rfl⟩
  rw [hlog, Runs.forall_log_iff, ← allSteps_not_earlyPing_iff]
  refine Runs.allSteps_congr (fun w : Worker => Progress env w.kcp)
    (fun _ t h => handlePacket_progress h t) (fun w t h => ?_) (Progress.start env ep now)
  rw [← handlePacket_keys_iff h hd t]
  exact ⟨fun h c hc => h _ hc c rfl, fun h e he c hc => h c (hc ▸ he)⟩

/-- A packet that does not go out under the dispatch key. -/
def Event.underMt : Event → Bool
  | .send c => !c.useDispatchKey
  | .dispatch _ _ => false

/-- Token, ping: the ping is answered under the MT key. -/
theorem send_key_ne_nil_iff_sample :
    let ts := [Turn.sample Env.sample.ids.getPlayerTokenReq, .sample Env.sample.ids.pingReq]
    let l := Runs.log (handlePacket Env.sample) (Worker.start Env.sample.platform ⟨0, 0⟩ 0) ts
    (∀ c, Event.send c ∈ l → c.key ≠ []) ∧ ∃ e ∈ l, e.underMt = true := by
  intro ts l
  refine ⟨(send_key_ne_nil_iff (by decide) ⟨0, 0⟩ 0 ts).mpr fun t ht => ?_, by decide +kernel⟩
  obtain rfl := Option.some.inj ht
  decide

/-- A ping as the first packet is answered under the empty key, and the
division by zero ends the process. -/
theorem ping_first_divides_by_zero :
    let w := Worker.start Env.sample.platform ⟨0, 0⟩ 0
    let ts := [Turn.sample Env.sample.ids.pingReq]
    Env.sample.dispatchKey ≠ [] ∧
      (∃ c, Event.send c ∈ Runs.log (handlePacket Env.sample) w ts ∧ c.key = []) ∧
      (Runs.final (handlePacket Env.sample) w ts).thread = .faulted .divByZero := by
  refine ⟨by decide, ?_, by decide⟩
  exact ⟨⟨.handlePingReq, 2, BasePacket.encode Env.sample 0 [] 2 0, false, []⟩, by decide, rfl⟩

/-! ## The key both sides use -/

/-- The token handler has sent its response. -/
def TokenAnswered (l : List Event) : Prop := ∃ c, Event.send c ∈ l ∧ c.handler = .handlePlayerTokenReq

@[simp] theorem tokenAnswered_nil : ¬ TokenAnswered [] := by simp [TokenAnswered]

@[simp] theorem tokenAnswered_append {l m : List Event} :
    TokenAnswered (l ++ m) ↔ TokenAnswered l ∨ TokenAnswered m := by
  simp [TokenAnswered, or_and_right, exists_or]

@[simp] theorem tokenAnswered_dispatch {p h} {l : List Event} :
    TokenAnswered (.dispatch p h :: l) ↔ TokenAnswered l := by
  simp [TokenAnswered]

@[simp] theorem tokenAnswered_send {c : SendCall} {l : List Event} :
    TokenAnswered (.send c :: l) ↔ c.handler = .handlePlayerTokenReq ∨ TokenAnswered l := by
  simp [TokenAnswered, or_and_right, exists_or]

/-- The calls of a log use the dispatch key up to the token handler's, and
after it the MT key, the one `w` decrypts with. -/
def KeyAgreement (env : Env) (w : Worker) (l : List Event) : Prop :=
  Runs.Cuts (fun pre e => ∀ c, e = .send c →
    (¬ TokenAnswered pre → c.useDispatchKey = true ∧ c.key = env.dispatchKey) ∧
    (TokenAnswered pre → c.useDispatchKey = false ∧ c.key = w.kcp.mtKey ∧
      w.kcp.inboundKey env = w.kcp.mtKey)) l

/-- `KeyAgreement` for one call, with the MT key every session generates. -/
def CallAgrees (env : Env) (pre : List Event) (e : Event) : Prop :=
  ∀ c, e = .send c →
    (¬ TokenAnswered pre → c.useDispatchKey = true ∧ c.key = env.dispatchKey) ∧
    (TokenAnswered pre → c.useDispatchKey = false ∧ c.key = mtKeyOf env)

@[simp] theorem callAgrees_dispatch {pre p h} : CallAgrees env pre (.dispatch p h) := by simp [CallAgrees]

/-- The session waits for the token until the token handler has answered. -/
def Answering (env : Env) (w : Worker) (l : List Event) : Prop :=
  Progress env w.kcp ∧ (TokenAnswered l ↔ w.kcp.sessionState ≠ .waitingForToken)

theorem Handled.answering {k : Kcp} {t : Turn} {w : Worker} {evs l : List Event} (h : Handled env k t w evs)
    (hl : Answering env ⟨k, .running⟩ l) : Answering env w (l ++ evs) := by
  refine ⟨h.progress hl.1, ?_⟩
  have ha : TokenAnswered l ↔ k.sessionState ≠ .waitingForToken := hl.2
  rw [tokenAnswered_append, ha]
  cases h with
  | rejected => simp
  | ping c _ hc => simp [hc.1]
  | token c _ _ hc => simp [hc.1, Kcp.tokenGiven]
  | login _ c _ hs => simp [hs, Kcp.loggedIn]
  | missing => simp

theorem handlePacket_answering {w : Worker} {l : List Event} (h : Answering env w l) (t : Turn) :
    Answering env (handlePacket env w t).1 (l ++ (handlePacket env w t).2) := by
  rcases handlePacket_cases h.1 t with ⟨_, he⟩ | ⟨hr, hh⟩
  · rw [he, List.append_nil]
    exact h
  · exact hh.answering h

/-- What a packet makes the handlers send agrees, unless it is an early ping
or a login. -/
theorem Handled.agrees_iff {k : Kcp} {t : Turn} {w : Worker} {evs l : List Event} (h : Handled env k t w evs)
    (hl : Answering env ⟨k, .running⟩ l) :
    Runs.Cuts (fun pre => CallAgrees env (l ++ pre)) evs ↔
      ¬ EarlyPing env ⟨k, .running⟩ t ∧ ¬ LateDispatch env ⟨k, .running⟩ t := by
  have hids := env.ids.tables_distinct
  have hp : Progress env k := hl.1
  have ha : TokenAnswered l ↔ k.sessionState ≠ .waitingForToken := hl.2
  cases h with
  | rejected had =>
    have h1 : t.packet.packetId ≠ env.ids.pingReq := fun hid => by simp [admitted, hid] at had
    have h2 : ¬ (t.packet.packetId = env.ids.playerLoginReq ∧ k.sessionState = .waitingForLogin) :=
      fun ⟨hid, hs⟩ => by simp [admitted, hid, hs, hids.2.2.2.1.symm] at had
    simp [EarlyPing, LateDispatch, h1, h2]
  | ping c hid hc =>
    obtain ⟨hh, hu, hkey⟩ := hc
    have hlate : t.packet.packetId ≠ env.ids.playerLoginReq := by rw [hid]; exact hids.2.1
    have hkeys : k.sessionState ≠ .waitingForToken → k.mtKey = mtKeyOf env := fun hs => (hp.key_of_ne hs).2
    simpa [Runs.cuts_cons, CallAgrees, EarlyPing, LateDispatch, hid, hids.2.1, hu, hkey, ha] using hkeys
  | token c hid hs hc =>
    obtain ⟨hh, hu, hkey⟩ := hc
    simp [Runs.cuts_cons, CallAgrees, EarlyPing, LateDispatch, hid, hids.1.symm, hids.2.2.2.1, hu, hkey, ha, hs]
  | login cs c hid hs hcs hc =>
    have hlate : LateDispatch env ⟨k, .running⟩ t := ⟨rfl, hid, hs⟩
    simp only [hlate, not_true_eq_false, and_false, iff_false]
    intro hcut
    have hlast := hcut (.dispatch t.packet (some .handlePlayLoginReq) :: cs.map .send) (.send c) [] rfl c rfl
    have hans : TokenAnswered (l ++ .dispatch t.packet (some .handlePlayLoginReq) :: cs.map .send) := by
      simp [ha, hs]
    exact absurd ((hlast.2 hans).1.symm.trans hc.2.1) (by decide)
  | missing hid hs => simp [Runs.cuts_cons, EarlyPing, LateDispatch, hs]

theorem handlePacket_agrees_iff {w : Worker} {l : List Event} (h : Answering env w l) (t : Turn) :
    Runs.Cuts (fun pre => CallAgrees env (l ++ pre)) (handlePacket env w t).2 ↔
      ¬ EarlyPing env w t ∧ ¬ LateDispatch env w t := by
  rcases handlePacket_cases h.1 t with ⟨hr, he⟩ | ⟨hr, hh⟩
  · simp [he, EarlyPing, LateDispatch, hr]
  · rw [hh.agrees_iff h]
    simp [EarlyPing, LateDispatch, hr]

/-- At the end of a log, the two ways to name the MT key are one. -/
theorem Answering.cuts_iff {w : Worker} {l : List Event} (h : Answering env w l) :
    KeyAgreement env w l ↔ Runs.Cuts (CallAgrees env) l := by
  have hkey : TokenAnswered l → w.kcp.mtKey = mtKeyOf env ∧ w.kcp.inboundKey env = w.kcp.mtKey := by
    intro ht
    obtain ⟨hu, hk⟩ := h.1.key_of_ne (h.2.mp ht)
    exact ⟨hk, by simp [Kcp.inboundKey, hu]⟩
  constructor
  · intro hag pre e post hl c hc
    obtain ⟨hbefore, hafter⟩ := hag pre e post hl c hc
    refine ⟨hbefore, fun ht => ?_⟩
    have hlog : TokenAnswered l := by rw [hl, tokenAnswered_append]; exact .inl ht
    exact ⟨(hafter ht).1, (hafter ht).2.1.trans (hkey hlog).1⟩
  · intro hag pre e post hl c hc
    obtain ⟨hbefore, hafter⟩ := hag pre e post hl c hc
    refine ⟨hbefore, fun ht => ?_⟩
    have hlog : TokenAnswered l := by rw [hl, tokenAnswered_append]; exact .inl ht
    exact ⟨(hafter ht).1, (hafter ht).2.trans (hkey hlog).1.symm, (hkey hlog).2⟩

/-- **Both sides use one key** exactly in the runs without an early ping and
without a login. -/
theorem keyAgreement_iff (env : Env) (ep : Endpoint) (now : Int) (ts : List Turn) :
    KeyAgreement env (Runs.final (handlePacket env) (Worker.start env.platform ep now) ts)
        (Runs.log (handlePacket env) (Worker.start env.platform ep now) ts) ↔
      Runs.AllSteps (handlePacket env) (fun w t => ¬ EarlyPing env w t ∧ ¬ LateDispatch env w t)
        (Worker.start env.platform ep now) ts := by
  have hstart : Answering env (Worker.start env.platform ep now) [] :=
    ⟨.start env ep now, by simp [Worker.start, Kcp.accepted, Kcp.initializeCb, Kcp.acceptNonblock]⟩
  have hend := Runs.inv_log_all (Answering env) (fun _ t l h => handlePacket_answering h t) hstart ts
  rw [hend.cuts_iff]
  exact Runs.cuts_log_iff (Answering env) (fun _ t l h => handlePacket_answering h t)
    (fun _ t l h => handlePacket_agrees_iff h t) hstart

/-- The login response goes out under the dispatch key after the token
handler switched to the MT key. -/
theorem login_response_wrong_key :
    let w := Worker.start Env.sample.platform ⟨0, 0⟩ 0
    let ts := [Turn.sample Env.sample.ids.getPlayerTokenReq, .sample Env.sample.ids.playerLoginReq]
    ¬ KeyAgreement Env.sample (Runs.final (handlePacket Env.sample) w ts)
      (Runs.log (handlePacket Env.sample) w ts) := by
  intro w ts h
  let c : SendCall := ⟨.handlePlayLoginReq, 4, BasePacket.encode Env.sample 0 [] 4 0, true, [1]⟩
  let l := Runs.log (handlePacket Env.sample) w ts
  have hcut : l = l.take 8 ++ .send c :: [] := by
    have hdrop : l.drop 8 = [.send c] := by decide +kernel
    rw [← hdrop, List.take_append_drop]
  have hans : TokenAnswered (l.take 8) :=
    ⟨⟨.handlePlayerTokenReq, 4, BasePacket.encode Env.sample 0 [] 4 0, true, [1]⟩, by decide, rfl⟩
  exact absurd ((h _ _ _ hcut c rfl).2 hans).1 (by decide)

end EyPS
