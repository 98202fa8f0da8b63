/-
The end of a session. `Background` deletes its `Kcp` object when the session
has been idle for more than 20 seconds, and never touches `g_Clients`: the
entry goes on to refer to it, and its endpoint can open no session again.
-/
import EyPS.ClientTable

namespace EyPS

open GameServer

variable {env : Env}

/-- `Background`'s exit test holds of a live session: it is not `CONNECTED`, or
`time(0) - lastPacketTime` exceeds 20, `lastPacketTime` being the time of the last
`Input` as a `long` keeps it. -/
def Expires (s : GameServer) (a : ServerAct) : Prop :=
  ∃ client now object, a = .background client now ∧ s.objects[client]? = some object ∧
    object.destroyed = false ∧ object.worker.kcp.idle now = true

/-! ## An iteration of Background -/

/-- An idle session is deleted, whatever the table has. -/
theorem background_expires {s : GameServer} {client : Nat} {now : Int} {object : ClientObject}
    (ho : s.objects[client]? = some object) (hlive : object.destroyed = false)
    (hidle : object.worker.kcp.idle now = true) : s.background client now =
      (s.setObject client { object with destroyed := true }, [.destroyed client]) := by
  simp [GameServer.background, ho, hlive, hidle]

theorem background_waits {s : GameServer} {client : Nat} {now : Int}
    (h : ¬ Expires s (.background client now)) : s.background client now = (s, []) := by
  unfold GameServer.background
  cases ho : s.objects[client]? with
  | none => rfl
  | some object =>
    have hno : ¬ (object.destroyed = false ∧ object.worker.kcp.idle now = true) :=
      fun ⟨hlive, hidle⟩ => h ⟨client, now, object, rfl, ho, hlive, hidle⟩
    simp [hno]

/-! ## The invariants -/

/-- The deleted object keeps its endpoint and its entry. -/
theorem endpointOf_expire {s : GameServer} {client : Nat} {object : ClientObject}
    (ho : s.objects[client]? = some object) :
    (s.setObject client { object with destroyed := true }).endpointOf = s.endpointOf := by
  funext c
  rw [GameServer.endpointOf, GameServer.endpointOf, setObject_sessions]
  by_cases hc : client = c
  · subst hc
    have hlt := (List.getElem?_eq_some_iff.mp ho).1
    rw [List.getElem?_set_self (by rw [sessions_length]; exact hlt), sessions_getElem?, ho]
    rfl
  · rw [List.getElem?_set_ne hc]

theorem Recorded.step {s : GameServer} {l : List ServerEvent} (h : Recorded s l) (a : ServerAct) :
    Recorded (s.step env a).1 (l ++ (s.step env a).2) := by
  cases a with
  | datagram d => exact h.parsePacket d
  | handler client time =>
    obtain ⟨hc, hs, hev⟩ := handler_table env client time (s := s)
    refine h.same hc (endpointOf_congr hs) fun c ep hmem => ?_
    rw [mem_ofTable rfl] at hmem
    simp [GameServer.step, hev] at hmem
  | background client now =>
    by_cases he : Expires s (.background client now)
    · obtain ⟨_, _, object, ha, ho, hlive, hidle⟩ := he
      cases ha
      rw [GameServer.step, background_expires ho hlive hidle]
      exact h.same rfl (endpointOf_expire ho) (by simp)
    · rw [GameServer.step, background_waits he]
      exact h.same rfl rfl (by simp)

/-- Every object is live, and none was logged as deleted. -/
def AllLive (s : GameServer) (l : List ServerEvent) : Prop :=
  (∀ session ∈ s.sessions, session.ended = false) ∧ ∀ client, .destroyed client ∉ l

theorem AllLive.step {s : GameServer} {l : List ServerEvent} (h : AllLive s l) {a : ServerAct}
    (ha : ¬ Expires s a) : AllLive (s.step env a).1 (l ++ (s.step env a).2) := by
  have hlog : ∀ {l' : List ServerEvent}, (∀ client, .destroyed client ∉ l') →
      ∀ client, .destroyed client ∉ l ++ l' := by
    intro l' hl' client hmem
    rcases List.mem_append.mp hmem with hmem | hmem
    · exact h.2 client hmem
    · exact hl' client hmem
  cases a with
  | datagram d =>
    rw [GameServer.step]
    cases hc : s.clients d.ep.key with
    | some client =>
      obtain ⟨-, hs, hev⟩ := parsePacket_known env hc
      refine ⟨by rw [hs]; exact h.1, hlog fun c hmem => ?_⟩
      rw [mem_ofTable rfl, hev] at hmem
      simp at hmem
    | none =>
      rw [parsePacket_unknown env hc]
      by_cases ho : d.opens
      · rw [accept_opens env ho]
        refine ⟨fun session hmem => ?_, hlog (by simp)⟩
        rw [addClient_sessions] at hmem
        rcases List.mem_append.mp hmem with hmem | hmem
        · exact h.1 session hmem
        · rw [List.mem_singleton.mp hmem]
          rfl
      · obtain ⟨hs, hev⟩ := accept_not_opens env ho (s := s)
        refine ⟨by rw [hs]; exact h.1, hlog fun c hmem => ?_⟩
        rw [mem_ofTable rfl, hev] at hmem
        simp at hmem
  | handler client time =>
    obtain ⟨-, hs, hev⟩ := handler_table env client time (s := s)
    refine ⟨by rw [GameServer.step, hs]; exact h.1, hlog fun c hmem => ?_⟩
    rw [mem_ofTable rfl] at hmem
    simp [GameServer.step, hev] at hmem
  | background client now =>
    rw [GameServer.step, background_waits ha]
    exact ⟨h.1, hlog (by simp)⟩

/-! ## The table and the live sessions -/

/-- Every entry of the table refers to an object that has not been deleted. -/
def TableLive (s : GameServer) : Prop :=
  ∀ key client, s.clients key = some client → ∃ object, s.objects[client]? = some object ∧
    object.destroyed = false

/-- The endpoint had a session, and each it had has been deleted. -/
def SessionEnded (l : List ServerEvent) (ep : Endpoint) : Prop :=
  (∃ client, .created client ep ∈ l) ∧ ∀ client, .created client ep ∈ l → .destroyed client ∈ l

/-- A valid handshake after the end of its endpoint's session creates a new one. -/
def Reopens (env : Env) (acts : List ServerAct) : Prop :=
  Runs.Cuts (fun pre a => ∀ d, a = .datagram d → d.opens →
    SessionEnded (Runs.log (step env) .empty pre) d.ep →
      ∃ client, .created client d.ep ∈ ((Runs.final (step env) .empty pre).step env a).2) acts

theorem AllLive.tableLive {s : GameServer} {l : List ServerEvent} (h : AllLive s l) : TableLive s := by
  intro key client hc
  have hlt : client < s.objects.length := s.valid key client hc
  have hmem : s.objects[client].session ∈ s.sessions := List.mem_map_of_mem (List.getElem_mem hlt)
  exact ⟨s.objects[client], List.getElem?_eq_getElem hlt, h.1 _ hmem⟩

/-- After an expiry the table refers to a deleted object. -/
theorem Expires.not_tableLive (env : Env) {s : GameServer} {l : List ServerEvent} (hr : Recorded s l)
    {a : ServerAct}
    (h : Expires s a) : ¬ TableLive (s.step env a).1 := by
  obtain ⟨client, now, object, rfl, ho, hlive, hidle⟩ := h
  rw [GameServer.step, background_expires ho hlive hidle]
  intro htable
  have hep : s.endpointOf client = some object.session.ep := by
    rw [GameServer.endpointOf, sessions_getElem?, ho]
    rfl
  obtain ⟨object', ho', hlive'⟩ := htable _ client (hr.stored client _ hep)
  have hlt := (List.getElem?_eq_some_iff.mp ho).1
  have hset : (s.objects.set client { object with destroyed := true })[client]? =
      some { object with destroyed := true } := List.getElem?_set_self hlt
  rw [GameServer.setObject, hset, Option.some.injEq] at ho'
  rw [← ho'] at hlive'
  cases hlive'

/-- **The table holds the live sessions**, and an ended session can be opened
again, exactly in the runs where no session expires. -/
theorem tableLive_iff (env : Env) (acts : List ServerAct) :
    ((∀ pre post, acts = pre ++ post → TableLive (Runs.final (step env) .empty pre)) ∧ Reopens env acts) ↔
      Runs.AllSteps (step env) (fun s a => ¬ Expires s a) .empty acts := by
  have hrecorded : ∀ pre, Recorded (Runs.final (step env) .empty pre) (Runs.log (step env) .empty pre) :=
    Runs.inv_log_all Recorded (fun _ a _ h => h.step a) .empty
  constructor
  · rintro ⟨htable, -⟩
    rw [Runs.allSteps_iff]
    rintro pre a post rfl hexp
    refine hexp.not_tableLive env (hrecorded pre) ?_
    have hlive := htable (pre ++ [a]) post (by simp)
    rwa [Runs.final_concat] at hlive
  · intro hall
    have hlive : ∀ pre post, acts = pre ++ post →
        AllLive (Runs.final (step env) .empty pre) (Runs.log (step env) .empty pre) := by
      rintro pre post rfl
      have hstart : AllLive .empty [] := ⟨by simp [GameServer.sessions, GameServer.empty], by simp⟩
      exact Runs.inv_log AllLive (fun _ _ _ h ha => h.step ha) hstart (Runs.allSteps_append.mp hall).1
    refine ⟨fun pre post hacts => (hlive pre post hacts).tableLive, ?_⟩
    intro pre a post hacts d _ _ hended
    obtain ⟨⟨client, hcreated⟩, hdestroyed⟩ := hended
    exact absurd (hdestroyed client hcreated) ((hlive pre (a :: post) hacts).2 client)

/-- A handshake at time 0, silence until 21, and a handshake at 30: the table
refers to the deleted object, and the second handshake goes to it. -/
theorem handshake_after_expiry :
    let ep : Endpoint := ⟨0x0A000001, 5001⟩
    let acts := [ServerAct.datagram (.connect ep 0), .background 0 21]
    let s := Runs.final (step Env.sample) .empty acts
    (s.clients ep.key = some 0 ∧ s.sessions = [⟨ep, true⟩]) ∧
      SessionEnded (Runs.log (step Env.sample) .empty acts) ep ∧ (Datagram.connect ep 30).opens ∧
      (s.step Env.sample (.datagram (.connect ep 30))).2 = [.delivered 0 ep, .failed .useAfterFree] := by
  intro ep acts s
  have hlog : Runs.log (step Env.sample) .empty acts =
      [.created 0 ep, .delivered 0 ep, .replied ep (Kcp.handshakeReply 0), .destroyed 0] := by
    decide +kernel
  refine ⟨by decide +kernel, ?_, Datagram.connect_opens ep 30, by decide +kernel⟩
  rw [hlog]
  exact ⟨⟨0, by simp⟩, by simp⟩

end EyPS
