/-
Whose datagrams reach whose object. The table is indexed by `address + port`
in 32 bits, so that it answers for a key with the endpoint that opened a
session under it first (`owner_served`): endpoints of one key share the
object of the first of them.
-/
import EyPS.ClientTable

namespace EyPS

open GameServer

variable {env : Env}

/-- The state after these datagrams. -/
def served (env : Env) (ds : List Datagram) : GameServer := Runs.final (parsePacket env) .empty ds

/-- What the datagrams logged. -/
def serverLog (env : Env) (ds : List Datagram) : List ServerEvent := Runs.log (parsePacket env) .empty ds

@[simp] theorem served_concat (ds : List Datagram) (d : Datagram) :
    served env (ds ++ [d]) = ((served env ds).parsePacket env d).1 := Runs.final_concat _ _ _

theorem recorded (env : Env) (ds : List Datagram) : Recorded (served env ds) (serverLog env ds) :=
  Runs.inv_log_all Recorded (fun _ d _ h => h.parsePacket d) .empty ds

/-! ## The owner of a key -/

/-- The endpoint whose session the table finds under a key. -/
def GameServer.owner (s : GameServer) (key : UInt32) : Option Endpoint :=
  (s.clients key).bind s.endpointOf

theorem GameServer.owner_of_some {s : GameServer} {key : UInt32} {client : Nat}
    (h : s.clients key = some client) : s.owner key = s.endpointOf client := by
  rw [owner, h, Option.bind_some]

theorem GameServer.owner_eq_none {s : GameServer} {key : UInt32} :
    s.owner key = none ↔ s.clients key = none := by
  cases hc : s.clients key with
  | none => simp [owner, hc]
  | some client =>
    obtain ⟨ep, hep⟩ := endpointOf_of_lt (s.valid key client hc)
    rw [owner_of_some hc, hep]
    simp

/-- An owned key has its owner's object. -/
theorem GameServer.client_of_owner {s : GameServer} {key : UInt32} {ep : Endpoint} (h : s.owner key = some ep) :
    ∃ client, s.clients key = some client ∧ s.endpointOf client = some ep := by
  obtain ⟨client, hc⟩ : ∃ client, s.clients key = some client := by
    rw [← Option.ne_none_iff_exists', ne_eq, ← owner_eq_none, h]
    simp
  exact ⟨client, hc, (owner_of_some hc).symm.trans h⟩

/-- A new object owns its key, and takes no other. -/
theorem GameServer.owner_addClient {s : GameServer} {key key' : UInt32} {object : ClientObject} :
    (s.addClient key object).owner key' = if key' = key then some object.session.ep else s.owner key' := by
  split
  next h =>
    rw [owner, addClient_clients, h, Function.update_self, Option.bind_some]
    exact endpointOf_addClient.mpr (.inr ⟨rfl, rfl⟩)
  next h =>
    rw [owner, owner, addClient_clients, Function.update_of_ne h]
    cases hc : s.clients key' with
    | none => rfl
    | some client =>
      have hlt := s.valid key' client hc
      ext ep
      rw [Option.bind_some, Option.bind_some, endpointOf_addClient,
        or_iff_left fun he => absurd he.1 (by omega)]

/-- **The owner of a key** is the endpoint of the first datagram that opened a
session under it. -/
theorem owner_served (env : Env) (ds : List Datagram) (key : UInt32) :
    (served env ds).owner key = (ds.find? fun d => d.opens ∧ d.ep.key = key).map Datagram.ep := by
  induction ds using List.reverseRecOn with
  | nil => simp [served, GameServer.owner, GameServer.empty]
  | append_singleton ds d ih =>
    rw [served_concat, List.find?_append, Option.map_or, ← ih]
    cases hc : (served env ds).clients d.ep.key with
    | some client =>
      obtain ⟨hclients, hsessions, -⟩ := parsePacket_known env hc
      have hsame : ((served env ds).parsePacket env d).1.owner key = (served env ds).owner key := by
        rw [GameServer.owner, GameServer.owner, hclients, endpointOf_congr hsessions]
      rw [hsame]
      by_cases hk : d.ep.key = key
      · have howned : (served env ds).owner key ≠ none := by
          rw [ne_eq, GameServer.owner_eq_none, ← hk, hc]
          simp
        obtain ⟨ep, hep⟩ := Option.ne_none_iff_exists'.mp howned
        simp [hep]
      · simp [hk]
    | none =>
      rw [parsePacket_unknown env hc]
      by_cases ho : d.opens
      · rw [accept_opens env ho, GameServer.owner_addClient]
        by_cases hk : key = d.ep.key
        · have hnone : (served env ds).owner key = none := by
            rw [GameServer.owner_eq_none, hk]
            exact hc
          rw [if_pos hk, hnone, Option.none_or, List.find?_cons_of_pos (by simp [ho, hk])]
          rfl
        · simp [hk, Ne.symm hk]
      · rw [(accept_not_opens env ho).1]
        simp [ho]

/-- An owner opened a session under the key. -/
theorem opened_of_owner {ds : List Datagram} {key : UInt32} {ep : Endpoint}
    (h : (served env ds).owner key = some ep) : ∃ d ∈ ds, d.opens ∧ d.ep.key = key ∧ d.ep = ep := by
  rw [owner_served, Option.map_eq_some_iff] at h
  obtain ⟨d, hd, rfl⟩ := h
  have hopens := List.find?_some hd
  simp only [decide_eq_true_eq] at hopens
  exact ⟨d, List.mem_of_find?_eq_some hd, hopens.1, hopens.2, rfl⟩

/-- A session opened under a key: it has an owner. -/
theorem owner_of_opened (env : Env) {ds : List Datagram} {d : Datagram} (hd : d ∈ ds) (hopens : d.opens) :
    ∃ ep, (served env ds).owner d.ep.key = some ep := by
  rw [← Option.isSome_iff_exists, owner_served, Option.isSome_map, List.find?_isSome]
  exact ⟨d, hd, by simp [hopens]⟩

/-! ## Isolation -/

/-- A datagram only reaches an object that a handshake from its own endpoint
created. -/
def Isolated (l : List ServerEvent) : Prop := ∀ client ep, .delivered client ep ∈ l → .created client ep ∈ l

/-- A valid handshake from an endpoint without a session creates one. -/
def Admitting (env : Env) (ds : List Datagram) : Prop :=
  Runs.Cuts (fun pre d => ConnectHandshake d.bytes → (∀ client, .created client d.ep ∉ serverLog env pre) →
    ∃ client, .created client d.ep ∈ ((served env pre).parsePacket env d).2) ds

/-- No endpoint opens a session under a key that another endpoint sends under
later. -/
def KeysApart (ds : List Datagram) : Prop :=
  ds.Pairwise fun d d' => d.opens → d.ep.key = d'.ep.key → d.ep = d'.ep

/-- The first handshake of every endpoint can be answered. -/
def FirstAnswered (ds : List Datagram) : Prop :=
  Runs.Cuts (fun pre d => ConnectHandshake d.bytes → (∀ d' ∈ pre, d'.opens → d'.ep ≠ d.ep) →
    d.sendOk = true) ds

/-- The log of a step is in the log of the run. -/
theorem mem_serverLog {pre post : List Datagram} {d : Datagram} {e : ServerEvent}
    (h : e ∈ serverLog env pre ∨ e ∈ ((served env pre).parsePacket env d).2) :
    e ∈ serverLog env (pre ++ d :: post) := by
  rw [serverLog, Runs.log_append, List.mem_append, Runs.log_cons, List.mem_append]
  rcases h with h | h
  · exact .inl h
  · exact .inr (.inl h)

/-- Isolation, read at each datagram: the owner of its key is its sender. -/
theorem isolated_iff_owner (ds : List Datagram) : Isolated (serverLog env ds) ↔
    Runs.Cuts (fun pre d => ∀ ep, (served env pre).owner d.ep.key = some ep → ep = d.ep) ds := by
  constructor
  · rintro h pre d post rfl ep hep
    obtain ⟨client, hc, hep⟩ := GameServer.client_of_owner hep
    have hfirst : .created client ep ∈ serverLog env (pre ++ d :: post) :=
      mem_serverLog (.inl (((recorded env pre).created client ep).mpr hep))
    have hsecond : .created client d.ep ∈ serverLog env (pre ++ d :: post) :=
      h client d.ep (mem_serverLog (.inr ((delivered_iff env).mpr ⟨rfl, .inl hc⟩)))
    rw [(recorded env _).created] at hfirst hsecond
    exact Option.some.inj (hfirst.symm.trans hsecond)
  · intro h client ep hdel
    obtain ⟨pre, d, post, rfl, hstep⟩ := Runs.mem_log_iff.mp hdel
    obtain ⟨rfl, hc | hcreated⟩ := (delivered_iff env).mp hstep
    · change (served env pre).clients d.ep.key = some client at hc
      refine mem_serverLog (.inl (((recorded env pre).created client d.ep).mpr ?_))
      obtain ⟨ep, hep⟩ := endpointOf_of_lt ((served env pre).valid _ _ hc)
      rw [hep, h pre d post rfl ep ((GameServer.owner_of_some hc).trans hep)]
    · exact mem_serverLog (.inr hcreated)

/-- The owners of the keys are the senders exactly if the keys stay apart. -/
theorem cuts_owner_iff (ds : List Datagram) :
    Runs.Cuts (fun pre d => ∀ ep, (served env pre).owner d.ep.key = some ep → ep = d.ep) ds ↔ KeysApart ds := by
  rw [KeysApart, ← Runs.cuts_pairwise]
  constructor
  · intro h pre d post hds a ha hopens hkey
    have hfound : ∃ a₀, pre.find? (fun d' => d'.opens ∧ d'.ep.key = d.ep.key) = some a₀ := by
      rw [← Option.isSome_iff_exists, List.find?_isSome]
      exact ⟨a, ha, by simp [hopens, hkey]⟩
    obtain ⟨a₀, ha₀⟩ := hfound
    have hd : a₀.ep = d.ep := h pre d post hds _ (by rw [owner_served, ha₀, Option.map_some])
    obtain ⟨p₁, p₂, rfl⟩ := List.append_of_mem ha
    -- the first opener stands before `a`, or is `a`
    rw [List.find?_append] at ha₀
    cases hp : p₁.find? (fun d' => d'.opens ∧ d'.ep.key = d.ep.key) with
    | some b =>
      rw [hp, Option.some_or, Option.some.injEq] at ha₀
      subst ha₀
      have hba : b.ep = a.ep := by
        refine h p₁ a (p₂ ++ d :: post) (by rw [hds]; simp) _ ?_
        rw [owner_served, hkey, hp, Option.map_some]
      exact hba.symm.trans hd
    | none =>
      rw [hp, Option.none_or, List.find?_cons_of_pos (by simp [hopens, hkey]), Option.some.injEq] at ha₀
      rw [ha₀]
      exact hd
  · intro h pre d post hds ep hep
    obtain ⟨a, ha, hopens, hkey, rfl⟩ := opened_of_owner hep
    exact h pre d post hds a ha hopens hkey

/-- With the keys apart, an endpoint has a session exactly if it opened one. -/
theorem no_session_iff {pre : List Datagram} {d : Datagram}
    (h : ∀ a ∈ pre, a.opens → a.ep.key = d.ep.key → a.ep = d.ep) :
    (∀ client, .created client d.ep ∉ serverLog env pre) ↔ ∀ a ∈ pre, a.opens → a.ep ≠ d.ep := by
  constructor
  · intro hno a ha hopens hep
    obtain ⟨ep, hown⟩ := owner_of_opened env ha hopens
    rw [hep] at hown
    obtain ⟨b, hb, hbopens, hbkey, rfl⟩ := opened_of_owner hown
    obtain ⟨client, -, hb'⟩ := GameServer.client_of_owner hown
    rw [h b hb hbopens hbkey] at hb'
    exact hno client (((recorded env pre).created client d.ep).mpr hb')
  · intro hno client hcreated
    rw [(recorded env pre).created] at hcreated
    have hc := (recorded env pre).stored client d.ep hcreated
    obtain ⟨b, hb, hopens, -, hbep⟩ := opened_of_owner ((GameServer.owner_of_some hc).trans hcreated)
    exact hno b hb hopens hbep

/-- **Isolation holds** exactly when endpoints that open a session share their
key with no later sender, and the handshakes that should are answered. -/
theorem isolation_iff (env : Env) (ds : List Datagram) :
    (Isolated (serverLog env ds) ∧ Admitting env ds) ↔ KeysApart ds ∧ FirstAnswered ds := by
  rw [isolated_iff_owner, cuts_owner_iff]
  refine and_congr_right fun hapart => ?_
  have hcut : Runs.Cuts (fun pre d => ∀ a ∈ pre, a.opens → a.ep.key = d.ep.key → a.ep = d.ep) ds :=
    Runs.cuts_pairwise.mpr hapart
  refine forall_congr' fun pre => forall_congr' fun d => forall_congr' fun post => forall_congr' fun hds => ?_
  have hkeys := hcut pre d post hds
  refine forall_congr' fun hshake => ?_
  rw [no_session_iff hkeys]
  refine forall_congr' fun hno => ?_
  have hfree : (served env pre).clients d.ep.key = none := by
    rw [← GameServer.owner_eq_none, owner_served, Option.map_eq_none_iff, List.find?_eq_none]
    intro a ha
    simp only [decide_eq_true_eq]
    exact fun h => hno a ha h.1 (hkeys a ha h.1 h.2)
  simp only [created_mem_iff env, hfree, true_and, and_true]
  constructor
  · intro ⟨_, hopens, _⟩
    exact hopens.2
  · exact fun hsend => ⟨_, ⟨hshake, hsend⟩, rfl⟩

/-- Two endpoints of one key: the handshake of the second goes to the object of
the first, and makes none. -/
theorem handshake_to_other_session :
    let ep : Endpoint := ⟨0x0A000001, 5001⟩
    let ep' : Endpoint := ⟨0x0A000002, 5000⟩
    let ds := [Datagram.connect ep 0, .connect ep' 0]
    ep ≠ ep' ∧ ¬ Isolated (serverLog Env.sample ds) ∧ ConnectHandshake (Datagram.connect ep' 0).bytes ∧
      ∀ client, .created client ep' ∉ serverLog Env.sample ds := by
  intro ep ep' ds
  have hlog : serverLog Env.sample ds =
      [.created 0 ep, .delivered 0 ep, .replied ep (Kcp.handshakeReply 0), .delivered 0 ep'] := by
    decide +kernel
  have hno : ∀ client, .created client ep' ∉ serverLog Env.sample ds := by
    intro client h
    rw [hlog] at h
    simp [ep, ep'] at h
  refine ⟨by decide, fun h => ?_, by decide, hno⟩
  exact hno 0 (h 0 ep' (by rw [hlog]; simp))

end EyPS
