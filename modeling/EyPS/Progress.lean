/-
What one packet does to a connection, said once (`Handled`), and the
invariant every packet keeps (`Progress`): the session state, the MT flag and
the MT key move together.
-/
import EyPS.Handlers

namespace EyPS

/-- The MT key of every session: the seed is a constant of the source. -/
def mtKeyOf (env : Env) : Bytes := generateKey env.mt19937_64 secretKeySeed

theorem mtKeyOf_ne_nil (env : Env) : mtKeyOf env ≠ [] := generateKey_ne_nil _ _

/-- Before the token handler the connection has no MT key and does not ask for
one; from it on it has the key and asks for it, and is waiting for the login
or past it. -/
inductive Progress (env : Env) (k : Kcp) : Prop
  | before (hs : k.sessionState = .waitingForToken) (hu : k.shouldUseMt = false) (hk : k.mtKey = [])
  | after (hs : k.sessionState = .waitingForLogin ∨ k.sessionState = .pickingCharacter)
      (hu : k.shouldUseMt = true) (hk : k.mtKey = mtKeyOf env)

theorem Progress.start (env : Env) (ep now) : Progress env (Worker.start env.platform ep now).kcp :=
  .before rfl rfl rfl

/-- No session is ever inactive or active. -/
theorem Progress.state_cases {env : Env} {k : Kcp} (h : Progress env k) : k.sessionState = .waitingForToken ∨
    k.sessionState = .waitingForLogin ∨ k.sessionState = .pickingCharacter := by
  cases h with
  | before hs => exact .inl hs
  | after hs => exact .inr hs

theorem Progress.key_of_ne {env : Env} {k : Kcp} (h : Progress env k)
    (hs : k.sessionState ≠ .waitingForToken) : k.shouldUseMt = true ∧ k.mtKey = mtKeyOf env := by
  cases h with
  | before hs' => exact absurd hs' hs
  | after _ hu hk => exact ⟨hu, hk⟩

theorem Progress.key_ne_nil {env : Env} {k : Kcp} (h : Progress env k) :
    k.mtKey ≠ [] ↔ k.sessionState ≠ .waitingForToken := by
  cases h with
  | before hs hu hk => simp [hs, hk]
  | after hs hu hk => rcases hs with hs | hs <;> simp [hs, hk, mtKeyOf_ne_nil]

/-- The queue is not part of it. -/
theorem Progress.setQueue {env : Env} {k : Kcp} (h : Progress env k) (q : List BasePacket) :
    Progress env { k with packetQueue := q } := by
  cases h with
  | before hs hu hk => exact .before hs hu hk
  | after hs hu hk => exact .after hs hu hk

/-- The connection the token handler leaves. -/
def Kcp.tokenGiven (env : Env) (k : Kcp) : Kcp :=
  { k with shouldUseMt := true, mtKey := mtKeyOf env, sessionState := .waitingForLogin }

@[simp] theorem Kcp.tokenGiven_mtKey (env : Env) (k : Kcp) : (k.tokenGiven env).mtKey = mtKeyOf env := by
  simp only [Kcp.tokenGiven]

@[simp] theorem Kcp.tokenGiven_shouldUseMt (env : Env) (k : Kcp) : (k.tokenGiven env).shouldUseMt = true := by
  simp only [Kcp.tokenGiven]

@[simp] theorem Kcp.tokenGiven_packetQueue (env : Env) (k : Kcp) :
    (k.tokenGiven env).packetQueue = k.packetQueue := by
  simp only [Kcp.tokenGiven]

/-- The connection the login handler leaves. -/
def Kcp.loggedIn (k : Kcp) : Kcp := { k with sessionState := .pickingCharacter }

@[simp] theorem Kcp.loggedIn_shouldUseMt (k : Kcp) : k.loggedIn.shouldUseMt = k.shouldUseMt := rfl

@[simp] theorem Kcp.loggedIn_packetQueue (k : Kcp) : k.loggedIn.packetQueue = k.packetQueue := rfl

/-- The thread after a `Send` under this key: the division by zero of an empty
one is a signal. -/
def afterSend (key : Bytes) : ThreadState := if key = [] then .faulted .divByZero else .running

theorem afterSend_of_ne {key : Bytes} (h : key ≠ []) : afterSend key = .running := if_neg h

/-! ## Effects -/

section Exec

variable {env : Env} {h : PacketHandler} {k : Kcp}

@[simp] theorem exec_setUseMT {b} : Act.exec env h ⟨k, .running⟩ (.setUseMT b) =
    (⟨{ k with shouldUseMt := b }, .running⟩, []) := rfl

@[simp] theorem exec_generateMTKey {seed} : Act.exec env h ⟨k, .running⟩ (.generateMTKey seed) =
    (⟨{ k with mtKey := generateKey env.mt19937_64 seed }, .running⟩, []) := rfl

@[simp] theorem exec_setSessionState {s} : Act.exec env h ⟨k, .running⟩ (.setSessionState s) =
    (⟨{ k with sessionState := s }, .running⟩, []) := rfl

/-- The event of a send of this frame under this key. -/
def sent (env : Env) (h : PacketHandler) (time : UInt64) (data : Bytes) (id : UInt16) (seq : UInt32)
    (useDispatchKey : Bool) (key : Bytes) : Event :=
  .send ⟨h, id, BasePacket.encode env time data id seq, useDispatchKey, key⟩

/-- `Xor` on a frame: the thread goes on or is gone. -/
theorem xor_frame {time data id seq} {key : Bytes} {l : List Event} :
    (match xor (BasePacket.encode env time data id seq) key with
      | .ok _ => ((⟨k, .running⟩, l) : Worker × List Event)
      | .error e => (⟨k, .faulted e⟩, l)) = (⟨k, afterSend key⟩, l) := by
  by_cases hk : key = []
  · subst hk
    simp [xor_nil_key (BasePacket.encode_ne_nil env time data id seq), afterSend]
  · simp [xor_of_ne hk, afterSend_of_ne hk]

@[simp] theorem exec_sendPacket_dispatch {time data id seq} :
    Act.exec env h ⟨k, .running⟩ (sendPacket env time data id seq true) =
      (⟨k, afterSend env.dispatchKey⟩, [sent env h time data id seq true env.dispatchKey]) :=
  xor_frame

@[simp] theorem exec_sendPacket_mt {time data id seq} :
    Act.exec env h ⟨k, .running⟩ (sendPacket env time data id seq false) =
      (⟨k, afterSend k.mtKey⟩, [sent env h time data id seq false k.mtKey]) :=
  xor_frame

end Exec

/-! ## What a packet does -/

/-- `c` is a call of `h`, under this choice of key. -/
def SendCall.By (c : SendCall) (h : PacketHandler) (useDispatchKey : Bool) (key : Bytes) : Prop :=
  c.handler = h ∧ c.useDispatchKey = useDispatchKey ∧ c.key = key

/-- What a running worker can do with a packet. -/
inductive Handled (env : Env) (k : Kcp) (t : Turn) : Worker → List Event → Prop
  | rejected (ha : admitted env.ids k.sessionState t.packet.packetId = false) :
      Handled env k t ⟨k, .returned⟩ []
  | ping (c : SendCall) (hid : t.packet.packetId = env.ids.pingReq)
      (hc : c.By .handlePingReq false k.mtKey) (hr : c.packetId = env.ids.pingRsp) :
      Handled env k t ⟨k, afterSend k.mtKey⟩ [.dispatch t.packet (some .handlePingReq), .send c]
  | token (c : SendCall) (hid : t.packet.packetId = env.ids.getPlayerTokenReq)
      (hs : k.sessionState = .waitingForToken) (hc : c.By .handlePlayerTokenReq true env.dispatchKey) :
      Handled env k t ⟨k.tokenGiven env, afterSend env.dispatchKey⟩
        [.dispatch t.packet (some .handlePlayerTokenReq), .send c]
  | login (cs : List SendCall) (c : SendCall) (hid : t.packet.packetId = env.ids.playerLoginReq)
      (hs : k.sessionState = .waitingForLogin) (hcs : ∀ x ∈ cs, x.By .handlePlayLoginReq false k.mtKey)
      (hc : c.By .handlePlayLoginReq true env.dispatchKey) :
      Handled env k t ⟨k.loggedIn, afterSend env.dispatchKey⟩
        (.dispatch t.packet (some .handlePlayLoginReq) :: (cs.map .send ++ [.send c]))
  | missing (hid : t.packet.packetId = env.ids.setPlayerBornDataReq)
      (hs : k.sessionState = .pickingCharacter) :
      Handled env k t ⟨k, .faulted .nullPointer⟩ [.dispatch t.packet none]

section Ids

variable (ids : PacketIds)

/-- The distinctness of the constants that the two tables compare. -/
theorem PacketIds.tables_distinct : ids.pingReq ≠ ids.getPlayerTokenReq ∧ ids.pingReq ≠ ids.playerLoginReq ∧
    ids.pingReq ≠ ids.setPlayerBornDataReq ∧ ids.getPlayerTokenReq ≠ ids.playerLoginReq ∧
    ids.getPlayerTokenReq ≠ ids.setPlayerBornDataReq ∧ ids.playerLoginReq ≠ ids.setPlayerBornDataReq ∧
    ids.pingRsp ≠ ids.getPlayerTokenRsp := by
  have h := ids.distinct
  simp only [List.nodup_cons, List.mem_cons, not_or] at h
  exact ⟨h.1.2.1, h.1.2.2.2.1, h.1.2.2.2.2.1, h.2.2.1.2.1, h.2.2.1.2.2.1, h.2.2.2.2.1.1, h.2.1.2.1⟩

@[simp] theorem packets_pingReq : packets ids ids.pingReq = some .handlePingReq := by simp [packets]

@[simp] theorem packets_getPlayerTokenReq :
    packets ids ids.getPlayerTokenReq = some .handlePlayerTokenReq := by
  simp [packets, ids.tables_distinct.1.symm]

@[simp] theorem packets_playerLoginReq : packets ids ids.playerLoginReq = some .handlePlayLoginReq := by
  simp [packets, ids.tables_distinct.2.1.symm, ids.tables_distinct.2.2.2.1.symm]

@[simp] theorem packets_setPlayerBornDataReq : packets ids ids.setPlayerBornDataReq = none := by
  have hd := ids.tables_distinct
  simp [packets, hd.2.2.1.symm, hd.2.2.2.2.1.symm, hd.2.2.2.2.2.1.symm]

end Ids

/-- A packet of a session state that `Progress` allows, admitted: one of the
four ids the chain names. -/
theorem Progress.admitted_cases {env : Env} {k : Kcp} (h : Progress env k) {id : UInt16}
    (ha : admitted env.ids k.sessionState id = true) :
    id = env.ids.pingReq ∨ (id = env.ids.getPlayerTokenReq ∧ k.sessionState = .waitingForToken) ∨
      (id = env.ids.playerLoginReq ∧ k.sessionState = .waitingForLogin) ∨
      (id = env.ids.setPlayerBornDataReq ∧ k.sessionState = .pickingCharacter) := by
  unfold admitted at ha
  split at ha
  next hid => exact .inl hid
  split at ha
  next hid => exact .inr (.inl ⟨hid, by simpa using ha⟩)
  split at ha
  next hid => exact .inr (.inr (.inl ⟨hid, by simpa using ha⟩))
  split at ha
  next hid => exact .inr (.inr (.inr ⟨hid, by simpa using ha⟩))
  -- no session reaches ACTIVE
  rcases h.state_cases with hs | hs | hs <;> simp [hs] at ha

theorem runHandler_ping {env : Env} {k : Kcp} {t : Turn} (hid : t.packet.packetId = env.ids.pingReq) :
    Handled env k t (runHandler env ⟨k, .running⟩ t).1 (runHandler env ⟨k, .running⟩ t).2 := by
  simp only [runHandler, hid, packets_pingReq, PacketHandler.handler, handlePingReq, Runs.final_cons,
    Runs.final_nil, Runs.log_cons, Runs.log_nil, exec_sendPacket_mt, List.append_nil]
  exact .ping _ hid ⟨rfl, rfl, rfl⟩ rfl

theorem runHandler_token {env : Env} {k : Kcp} {t : Turn}
    (hid : t.packet.packetId = env.ids.getPlayerTokenReq) (hs : k.sessionState = .waitingForToken) :
    Handled env k t (runHandler env ⟨k, .running⟩ t).1 (runHandler env ⟨k, .running⟩ t).2 := by
  simp only [runHandler, hid, packets_getPlayerTokenReq, PacketHandler.handler, handlePlayerTokenReq,
    Runs.final_cons, Runs.final_nil, Runs.log_cons, Runs.log_nil, exec_setUseMT, exec_generateMTKey, exec_setSessionState,
    exec_sendPacket_dispatch, List.append_nil, List.nil_append]
  exact .token _ hid hs ⟨rfl, rfl, rfl⟩

theorem runHandler_login {env : Env} {k : Kcp} {t : Turn}
    (hid : t.packet.packetId = env.ids.playerLoginReq) (hs : k.sessionState = .waitingForLogin)
    (hk : k.mtKey ≠ []) :
    Handled env k t (runHandler env ⟨k, .running⟩ t).1 (runHandler env ⟨k, .running⟩ t).2 := by
  simp only [runHandler, hid, packets_playerLoginReq, PacketHandler.handler, handlePlayLoginReq,
    Runs.final_cons, Runs.final_nil, Runs.log_cons, Runs.log_nil, exec_setSessionState, exec_sendPacket_mt, afterSend_of_ne hk,
    exec_sendPacket_dispatch, List.append_nil, List.nil_append]
  exact .login [_, _, _, _, _] _ hid hs (by simp [SendCall.By]) ⟨rfl, rfl, rfl⟩

theorem runHandler_missing {env : Env} {k : Kcp} {t : Turn}
    (hid : t.packet.packetId = env.ids.setPlayerBornDataReq) (hs : k.sessionState = .pickingCharacter) :
    Handled env k t (runHandler env ⟨k, .running⟩ t).1 (runHandler env ⟨k, .running⟩ t).2 := by
  simp only [runHandler, hid, packets_setPlayerBornDataReq]
  exact .missing hid hs

/-- **What a packet does**, on a connection in progress. -/
theorem handlePacket_handled {env : Env} {k : Kcp} (h : Progress env k) (t : Turn) :
    Handled env k t (handlePacket env ⟨k, .running⟩ t).1 (handlePacket env ⟨k, .running⟩ t).2 := by
  unfold handlePacket
  simp only [ne_eq, not_true_eq_false, if_false]
  split
  next ha =>
    rcases h.admitted_cases ha with hid | ⟨hid, hs⟩ | ⟨hid, hs⟩ | ⟨hid, hs⟩
    · exact runHandler_ping hid
    · exact runHandler_token hid hs
    · exact runHandler_login hid hs (h.key_ne_nil.mpr (by simp [hs]))
    · exact runHandler_missing hid hs
  next ha => exact .rejected (by simpa using ha)

/-- A thread that is not running takes no packet. -/
theorem handlePacket_stopped {env : Env} {w : Worker} (h : w.thread ≠ .running) (t : Turn) :
    handlePacket env w t = (w, []) := by
  simp [handlePacket, h]

/-! ## The invariant -/

theorem Progress.tokenGiven (env : Env) (k : Kcp) : Progress env (k.tokenGiven env) :=
  .after (.inl rfl) rfl (Kcp.tokenGiven_mtKey env k)

theorem Handled.progress {env : Env} {k : Kcp} {t : Turn} {w : Worker} {l : List Event}
    (h : Handled env k t w l) (hp : Progress env k) : Progress env w.kcp := by
  cases h with
  | rejected => exact hp
  | ping => exact hp
  | token => exact .tokenGiven env k
  | login _ _ _ hs =>
    obtain ⟨hu, hk⟩ := hp.key_of_ne (by simp [hs])
    exact .after (.inr rfl) hu hk
  | missing => exact hp

/-- Case analysis on a step of the packet loop: a stopped thread does
nothing, a running one does what `Handled` lists. -/
theorem handlePacket_cases {env : Env} {w : Worker} (h : Progress env w.kcp) (t : Turn) :
    (w.thread ≠ .running ∧ handlePacket env w t = (w, [])) ∨
      (w.thread = .running ∧
        Handled env w.kcp t (handlePacket env w t).1 (handlePacket env w t).2) := by
  obtain ⟨k, th⟩ := w
  by_cases hr : th = .running
  · subst hr
    exact .inr ⟨rfl, handlePacket_handled h t⟩
  · exact .inl ⟨hr, handlePacket_stopped hr t⟩

theorem handlePacket_progress {env : Env} {w : Worker} (h : Progress env w.kcp) (t : Turn) :
    Progress env (handlePacket env w t).1.kcp := by
  rcases handlePacket_cases h t with ⟨_, he⟩ | ⟨_, hh⟩
  · rw [he]; exact h
  · exact hh.progress h

/-- The turn of a packet of this id, without metadata and data. -/
def Turn.sample (packetId : UInt16) : Turn where
  packet := {
    view := .new [], magicStart := 0x4567, packetId, metadataSize := 0, dataSize := 0
    metadata := ⟨0, 0⟩, data := [], magicEnd := 0x89ab }
  time := fun _ => 0

end EyPS
