/-
The two ends of one connection and the switch from the dispatch key to the MT
key. The client encrypts with the dispatch key until it has the response to
its token request; the server's key for what it receives is a flag that its
packet handler sets. The channel is in-order and loses nothing, and the sends,
`ParsePacket`, the handler loop and the client's receives happen in any order.
-/
import EyPS.PacketQueue

namespace EyPS

/-- A client message in flight: the frame, the key it was encrypted with, and
what the client had done when it sent it. -/
structure ClientMessage where
  plain : Bytes
  key : Bytes
  /-- the client had sent a `GetPlayerTokenReq` before it -/
  requested : Bool
  /-- the client had received the `GetPlayerTokenRsp` -/
  answered : Bool
  deriving DecidableEq

/-- What goes over the wire. -/
def ClientMessage.data (m : ClientMessage) : Bytes := xorFrom m.key 0 m.plain

/-- Client, channel and server. -/
structure Link where
  requested : Bool
  answered : Bool
  toServer : List ClientMessage
  toClient : List SendCall
  worker : Worker
  deriving DecidableEq

inductive LinkAct
  /-- the client sends this frame -/
  | send (plain : Bytes)
  /-- `ParsePacket` takes the next message -/
  | parse
  /-- a pass of `PacketQueueHandler` -/
  | handle (time : Nat → UInt64)
  /-- the client takes the next packet -/
  | receive

/-- `ParsePacket` decrypted this message with this key. -/
structure Decrypted where
  message : ClientMessage
  key : Bytes
  deriving DecidableEq

/-- The frame is one of a `GetPlayerTokenReq`. -/
def isTokenReq (env : Env) (plain : Bytes) : Bool :=
  match BasePacket.decode env plain with
  | .ok packet => packet.packetId = env.ids.getPlayerTokenReq
  | .error _ => false

def sends (l : List Event) : List SendCall :=
  l.filterMap fun
    | .send call => some call
    | .dispatch _ _ => none

/-- The key the client encrypts with. -/
def Link.clientKey (env : Env) (s : Link) : Bytes := if s.answered then mtKeyOf env else env.dispatchKey

def linkStep (env : Env) (s : Link) : LinkAct → Link × List Decrypted
  | .send plain =>
    ({ s with
        requested := s.requested || isTokenReq env plain
        toServer := s.toServer ++ [⟨plain, s.clientKey env, s.requested, s.answered⟩] }, [])
  | .parse =>
    match s.toServer with
    | [] => (s, [])
    | m :: rest =>
      ({ s with toServer := rest, worker := s.worker.receive env m.data },
        if m.data = [] then [] else [⟨m, s.worker.kcp.inboundKey env⟩])
  | .handle time =>
    let (worker, l) := packetQueueHandler env time s.worker
    ({ s with worker, toClient := s.toClient ++ sends l }, [])
  | .receive =>
    match s.toClient with
    | [] => (s, [])
    | c :: rest =>
      ({ s with answered := s.answered || c.packetId = env.ids.getPlayerTokenRsp, toClient := rest }, [])

/-- A new connection, with nothing in flight. -/
def Link.start (env : Env) (ep : Endpoint) (now : Int) : Link where
  requested := false
  answered := false
  toServer := []
  toClient := []
  worker := Worker.start env.platform ep now

variable {env : Env}

/-! ## The steps of the server -/

/-- A connection that has not switched after a packet had not before it, and
sent no token response; only a token request makes it switch. -/
theorem Handled.switch {k : Kcp} {t : Turn} {w : Worker} {l : List Event} (h : Handled env k t w l)
    (hp : Progress env k) :
    w.kcp.packetQueue = k.packetQueue ∧
      (w.kcp.shouldUseMt = false →
        k.shouldUseMt = false ∧ ∀ c ∈ sends l, c.packetId ≠ env.ids.getPlayerTokenRsp) ∧
      (k.shouldUseMt = false → t.packet.packetId ≠ env.ids.getPlayerTokenReq → w.kcp.shouldUseMt = false) := by
  have hids := env.ids.tables_distinct
  cases h with
  | rejected => exact ⟨rfl, fun hu => ⟨hu, by simp [sends]⟩, fun hu _ => hu⟩
  | ping c hid hc hr =>
    refine ⟨rfl, fun hu => ⟨hu, ?_⟩, fun hu _ => hu⟩
    simpa [sends, hr] using hids.2.2.2.2.2.2
  | token c hid =>
    refine ⟨k.tokenGiven_packetQueue env, fun hu => ?_, fun _ hne => absurd hid hne⟩
    exact absurd (hu.symm.trans (k.tokenGiven_shouldUseMt env)) (by decide)
  | login cs c hid hs =>
    obtain ⟨hmt, -⟩ := hp.key_of_ne (by simp [hs])
    refine ⟨rfl, fun hu => ?_, fun hu _ => hu⟩
    exact absurd (hu.symm.trans hmt) (by decide)
  | missing => exact ⟨rfl, fun hu => ⟨hu, by simp [sends]⟩, fun hu _ => hu⟩

/-! ## The invariant -/

/-- Before the client's first token request is parsed the server has not
switched, and before it has switched the client has no response. -/
structure Link.Inv (env : Env) (s : Link) : Prop where
  progress : Progress env s.worker.kcp
  /-- a token request in flight is not followed by a message sent before it -/
  ordered : s.toServer.Pairwise fun a b => b.requested = false → isTokenReq env a.plain = false
  unrequested : s.requested = false → ∀ m ∈ s.toServer, isTokenReq env m.plain = false
  early : s.requested = false ∨ (∃ m ∈ s.toServer, m.requested = false) →
    s.worker.kcp.shouldUseMt = false ∧
      ∀ p ∈ s.worker.kcp.packetQueue, p.packetId ≠ env.ids.getPlayerTokenReq
  unanswered : s.worker.kcp.shouldUseMt = false →
    s.answered = false ∧ (∀ c ∈ s.toClient, c.packetId ≠ env.ids.getPlayerTokenRsp) ∧
      ∀ m ∈ s.toServer, m.answered = false
  keys : ∀ m ∈ s.toServer, m.key = if m.answered then mtKeyOf env else env.dispatchKey

theorem Link.Inv.start (env : Env) (ep : Endpoint) (now : Int) : Link.Inv env (Link.start env ep now) where
  progress := .start env ep now
  ordered := .nil
  unrequested := by simp [Link.start]
  early := fun _ => ⟨rfl, by simp [Link.start, Worker.start, Kcp.accepted, Kcp.initializeCb, Kcp.acceptNonblock,
    Kcp.new]⟩
  unanswered := fun _ => ⟨rfl, by simp [Link.start], by simp [Link.start]⟩
  keys := by simp [Link.start]

theorem Link.Inv.send {s : Link} (h : s.Inv env) (plain : Bytes) :
    (linkStep env s (.send plain)).1.Inv env where
  progress := h.progress
  ordered := by
    refine List.pairwise_append.mpr ⟨h.ordered, List.pairwise_singleton _ _, fun a ha b hb hr => ?_⟩
    obtain rfl := List.mem_singleton.mp hb
    exact h.unrequested hr a ha
  unrequested := by
    intro hr m hm
    obtain ⟨hr, hplain⟩ := Bool.or_eq_false_iff.mp hr
    rcases List.mem_append.mp hm with hm | hm
    · exact h.unrequested hr m hm
    · obtain rfl := List.mem_singleton.mp hm
      exact hplain
  early := by
    intro hr
    refine h.early ?_
    rcases hr with hr | ⟨m, hm, hr⟩
    · exact .inl (Bool.or_eq_false_iff.mp hr).1
    · rcases List.mem_append.mp hm with hm | hm
      · exact .inr ⟨m, hm, hr⟩
      · obtain rfl := List.mem_singleton.mp hm
        exact .inl hr
  unanswered := by
    intro hu
    obtain ⟨ha, hc, hm⟩ := h.unanswered hu
    refine ⟨ha, hc, fun m hmem => ?_⟩
    rcases List.mem_append.mp hmem with hmem | hmem
    · exact hm m hmem
    · obtain rfl := List.mem_singleton.mp hmem
      exact ha
  keys := by
    intro m hm
    rcases List.mem_append.mp hm with hm | hm
    · exact h.keys m hm
    · obtain rfl := List.mem_singleton.mp hm
      rfl

/-- Before the switch the server decrypts to what the client encrypted, so a
message that is not a token request adds none to the queue. -/
theorem Link.Inv.parsed_queue {s : Link} (h : s.Inv env) {m : ClientMessage} {rest : List ClientMessage}
    (hs : s.toServer = m :: rest) (hu : s.worker.kcp.shouldUseMt = false) (ht : isTokenReq env m.plain = false)
    (hq : ∀ p ∈ s.worker.kcp.packetQueue, p.packetId ≠ env.ids.getPlayerTokenReq) :
    ∀ p ∈ (s.worker.receive env m.data).kcp.packetQueue, p.packetId ≠ env.ids.getPlayerTokenReq := by
  have hm : m ∈ s.toServer := by rw [hs]; exact List.mem_cons_self
  have hkey : m.key = env.dispatchKey := by
    rw [h.keys m hm, (h.unanswered hu).2.2 m hm]
    rfl
  rcases receive_cases env s.worker m.data with he | ⟨plain, packet, hx, hd, he⟩
  · rw [he]
    exact hq
  · rw [he]
    have hin : s.worker.kcp.inboundKey env = m.key := by simp [Kcp.inboundKey, hu, hkey]
    obtain ⟨-, hplain⟩ := xor_eq_ok.mp hx
    rw [hin, ClientMessage.data, xorFrom_xorFrom] at hplain
    subst hplain
    intro p hp
    rcases List.mem_cons.mp hp with rfl | hp
    · simpa [isTokenReq, hd] using ht
    · exact hq p hp

theorem receive_shouldUseMt (w : Worker) (data : Bytes) :
    (w.receive env data).kcp.shouldUseMt = w.kcp.shouldUseMt := by
  rcases receive_cases env w data with he | ⟨_, _, _, _, he⟩ <;> rw [he]

theorem receive_progress {w : Worker} (h : Progress env w.kcp) (data : Bytes) :
    Progress env (w.receive env data).kcp := by
  rcases receive_cases env w data with he | ⟨_, _, _, _, he⟩
  · rw [he]
    exact h
  · rw [he]
    exact h.setQueue _

theorem linkStep_parse_cons {s : Link} {m : ClientMessage} {rest : List ClientMessage}
    (hs : s.toServer = m :: rest) : linkStep env s .parse =
      ({ s with toServer := rest, worker := s.worker.receive env m.data },
        if m.data = [] then [] else [⟨m, s.worker.kcp.inboundKey env⟩]) := by
  simp only [linkStep, hs]

theorem Link.Inv.parse {s : Link} (h : s.Inv env) : (linkStep env s .parse).1.Inv env := by
  cases hs : s.toServer with
  | nil => simpa [linkStep, hs] using h
  | cons m rest =>
    rw [linkStep_parse_cons hs]
    have hord := h.ordered
    rw [hs] at hord
    have ho := List.pairwise_cons.mp hord
    have hmem : ∀ x ∈ rest, x ∈ s.toServer := fun x hx => by rw [hs]; exact List.mem_cons_of_mem m hx
    have hm : m ∈ s.toServer := by rw [hs]; exact List.mem_cons_self
    exact {
      progress := receive_progress h.progress m.data
      ordered := ho.2
      unrequested := fun hr x hx => h.unrequested hr x (hmem x hx)
      early := by
        intro hr
        have hr' : s.requested = false ∨ ∃ x ∈ s.toServer, x.requested = false := by
          rcases hr with hr | ⟨x, hx, hr⟩
          · exact .inl hr
          · exact .inr ⟨x, hmem x hx, hr⟩
        obtain ⟨hu, hq⟩ := h.early hr'
        -- a message still unrequested, or none requested: this one was no token request
        have ht : isTokenReq env m.plain = false := by
          rcases hr with hr | ⟨x, hx, hr⟩
          · exact h.unrequested hr m hm
          · exact ho.1 x hx hr
        exact ⟨(receive_shouldUseMt s.worker m.data).trans hu, h.parsed_queue hs hu ht hq⟩
      unanswered := by
        intro hu
        obtain ⟨ha, hc, hx⟩ := h.unanswered ((receive_shouldUseMt s.worker m.data).symm.trans hu)
        exact ⟨ha, hc, fun x hxm => hx x (hmem x hxm)⟩
      keys := fun x hx => h.keys x (hmem x hx) }

theorem Link.Inv.handle {s : Link} (h : s.Inv env) (time : Nat → UInt64) :
    (linkStep env s (.handle time)).1.Inv env := by
  rcases packetQueueHandler_cases h.progress time with ⟨hk, hl⟩ | ⟨packet, rest, hq, hh⟩
  · exact {
      progress := by simpa [linkStep, hk] using h.progress
      ordered := h.ordered
      unrequested := h.unrequested
      early := by simpa [linkStep, hk] using h.early
      unanswered := by simpa [linkStep, hk, hl, sends] using h.unanswered
      keys := h.keys }
  · have hp : Progress env { s.worker.kcp with packetQueue := rest } := h.progress.setQueue rest
    obtain ⟨hqueue, hstill, hswitch⟩ := hh.switch hp
    have hrest : ∀ p ∈ rest, p ∈ s.worker.kcp.packetQueue := fun p hp => by
      rw [hq]
      exact List.mem_append_left _ hp
    have hpacket : packet ∈ s.worker.kcp.packetQueue := by simp [hq]
    exact {
      progress := hh.progress hp
      ordered := h.ordered
      unrequested := h.unrequested
      early := by
        intro hr
        obtain ⟨hu, hnone⟩ := h.early hr
        refine ⟨hswitch hu (hnone packet hpacket), fun p hp => ?_⟩
        have hmem : p ∈ rest := by simpa [linkStep, hqueue] using hp
        exact hnone p (hrest p hmem)
      unanswered := by
        intro hu
        obtain ⟨hu0, hsent⟩ := hstill hu
        obtain ⟨ha, hc, hm⟩ := h.unanswered hu0
        refine ⟨ha, fun c hcm => ?_, hm⟩
        rcases List.mem_append.mp hcm with hcm | hcm
        · exact hc c hcm
        · exact hsent c hcm
      keys := h.keys }

theorem Link.Inv.receive {s : Link} (h : s.Inv env) : (linkStep env s .receive).1.Inv env := by
  cases hc : s.toClient with
  | nil => simpa [linkStep, hc] using h
  | cons c rest =>
    have hstep : (linkStep env s .receive).1 =
        { s with answered := s.answered || c.packetId = env.ids.getPlayerTokenRsp, toClient := rest } := by
      simp only [linkStep, hc]
    rw [hstep]
    exact {
      progress := h.progress
      ordered := h.ordered
      unrequested := h.unrequested
      early := h.early
      unanswered := by
        intro hu
        obtain ⟨ha, hids, hm⟩ := h.unanswered hu
        rw [hc] at hids
        obtain ⟨hid, hids⟩ := List.forall_mem_cons.mp hids
        exact ⟨by simp [ha, hid], hids, hm⟩
      keys := h.keys }

theorem Link.Inv.step {s : Link} (h : s.Inv env) (a : LinkAct) : (linkStep env s a).1.Inv env := by
  cases a with
  | send plain => exact h.send plain
  | parse => exact h.parse
  | handle time => exact h.handle time
  | receive => exact h.receive

/-! ## The keys of what the server parses -/

/-- Decrypted with the key of its encryption, or sent between the client's
token request and the response to it, and decrypted after the switch. -/
def Decrypted.Agrees (env : Env) (d : Decrypted) : Prop :=
  d.key = d.message.key ∨
    (d.message.requested = true ∧ d.message.answered = false ∧ d.message.key = env.dispatchKey ∧
      d.key = mtKeyOf env)

theorem Link.Inv.decrypted {s : Link} (h : s.Inv env) (a : LinkAct) :
    ∀ d ∈ (linkStep env s a).2, d.Agrees env := by
  intro d hd
  cases a with
  | send => simp [linkStep] at hd
  | handle => simp [linkStep] at hd
  | receive =>
    unfold linkStep at hd
    cases hc : s.toClient <;> simp [hc] at hd
  | parse =>
    cases hs : s.toServer with
    | nil => simp [linkStep, hs] at hd
    | cons m rest =>
      rw [linkStep_parse_cons hs] at hd
      have hm : m ∈ s.toServer := by rw [hs]; exact List.mem_cons_self
      have hkey := h.keys m hm
      obtain rfl : d = ⟨m, s.worker.kcp.inboundKey env⟩ := by
        by_cases he : m.data = []
        · simp [he] at hd
        · simpa [he] using hd
      cases hu : s.worker.kcp.shouldUseMt with
      | false =>
        rw [(h.unanswered hu).2.2 m hm] at hkey
        exact .inl (by simp [Kcp.inboundKey, hu, hkey])
      | true =>
        have hmt : s.worker.kcp.inboundKey env = mtKeyOf env := by
          cases h.progress with
          | before _ hu' => exact absurd (hu.symm.trans hu') (by decide)
          | after _ _ hk => simp [Kcp.inboundKey, hu, hk]
        have hreq : m.requested = true := by
          rw [← Bool.not_eq_false]
          intro hr
          exact absurd ((h.early (.inr ⟨m, hm, hr⟩)).1.symm.trans hu) (by decide)
        cases ha : m.answered with
        | true => exact .inl (by simp [hmt, hkey, ha])
        | false => exact .inr ⟨hreq, ha, by simp [hkey, ha], hmt⟩

/-- **Inbound keys.** In any order of sends, parses, handler passes and
receives, every client message is decrypted with the key it was encrypted
with, unless it was sent after the client's first token request and before
the client had the response. -/
theorem inbound_key_agrees (env : Env) (ep : Endpoint) (now : Int) (acts : List LinkAct) :
    ∀ d ∈ Runs.log (linkStep env) (Link.start env ep now) acts, d.key = d.message.key ∨
      (d.message.requested = true ∧ d.message.answered = false ∧ d.message.key = env.dispatchKey ∧
        d.key = mtKeyOf env) := by
  rw [Runs.forall_log_iff]
  exact (Runs.allSteps_congr (Link.Inv env) (fun _ a h => h.step a)
    (fun _ a h => iff_of_true (h.decrypted a) trivial) (.start env ep now)).mpr Runs.allSteps_true

/-- A token request, handled and answered, and the ping after it, which is decrypted
with another key. -/
theorem inbound_key_agrees_sample :
    let ids := Env.sample.ids
    let acts := [LinkAct.send (BasePacket.encode Env.sample 0 [] ids.getPlayerTokenReq 0), .parse, .handle fun _ => 0,
      .receive, .send (BasePacket.encode Env.sample 0 [] ids.pingReq 0), .parse]
    let l := Runs.log (linkStep Env.sample) (Link.start Env.sample ⟨0, 0⟩ 0) acts
    (∀ d ∈ l, d.key = d.message.key ∨ (d.message.requested = true ∧ d.message.answered = false ∧
      d.message.key = Env.sample.dispatchKey ∧ d.key = mtKeyOf Env.sample)) ∧
    (∃ d ∈ l, d.message.answered = false ∧ d.key = Env.sample.dispatchKey) ∧
    ∃ d ∈ l, d.message.answered = true ∧ d.key ≠ Env.sample.dispatchKey := by
  intro ids acts l
  exact ⟨inbound_key_agrees Env.sample ⟨0, 0⟩ 0 acts, by decide +kernel, by decide +kernel⟩

/-- A token request, parsed and handled; the ping that the client sends before it
has the response is decrypted with the MT key. -/
theorem ping_in_window_wrong_key :
    let ids := Env.sample.ids
    let acts := [LinkAct.send (BasePacket.encode Env.sample 0 [] ids.getPlayerTokenReq 0), .parse,
      .handle fun _ => 0, .send (BasePacket.encode Env.sample 0 [] ids.pingReq 0), .parse]
    ∃ d ∈ Runs.log (linkStep Env.sample) (Link.start Env.sample ⟨0, 0⟩ 0) acts, d.key ≠ d.message.key := by
  decide +kernel

end EyPS
