/-
The admission chain of `PacketQueueHandler` against what it guards. The chain
lets through an id that `packetManager::init` does not register
(`BornData`), and a packet it refuses ends the loop rather than the packet:
`dropRejected` is the loop that only drops it.
-/
import EyPS.PacketQueue

namespace EyPS

variable {env : Env}

/-! ## Registered ids -/

/-- A `SetPlayerBornDataReq` of a player picking a character: admitted, and
without a handler. -/
def BornData (env : Env) (w : Worker) (t : Turn) : Prop :=
  w.thread = .running ∧ t.packet.packetId = env.ids.setPlayerBornDataReq ∧
    w.kcp.sessionState = .pickingCharacter

/-- The loop called a handler that `packetManager::init` registered. -/
def Registered (env : Env) : Event → Prop
  | .dispatch packet handler => ∃ h, packets env.ids packet.packetId = some h ∧ handler = some h
  | .send _ => True

@[simp] theorem registered_send {c : SendCall} : Registered env (.send c) ↔ True := Iff.rfl

@[simp] theorem registered_dispatch {p : BasePacket} {h} : Registered env (.dispatch p h) ↔
    ∃ g, packets env.ids p.packetId = some g ∧ h = some g := Iff.rfl

theorem Handled.registered_iff {k : Kcp} {t : Turn} {w : Worker} {l : List Event} (h : Handled env k t w l) :
    (∀ e ∈ l, Registered env e) ↔ ¬ BornData env ⟨k, .running⟩ t := by
  have hids := env.ids.tables_distinct
  cases h with
  | rejected ha =>
    have hb : ¬ BornData env ⟨k, .running⟩ t := by
      rintro ⟨-, hid, hs⟩
      dsimp only at hs
      simp [admitted, hid, hs, hids.2.2.1.symm, hids.2.2.2.2.1.symm, hids.2.2.2.2.2.1.symm] at ha
    simp [hb]
  | ping c hid => simp [BornData, hid, hids.2.2.1, packets_pingReq]
  | token c hid => simp [BornData, hid, hids.2.2.2.2.1, packets_getPlayerTokenReq]
  | login cs c hid =>
    have hb : ¬ BornData env ⟨k, .running⟩ t := fun h => hids.2.2.2.2.2.1 (hid.symm.trans h.2.1)
    simp only [hb, not_false_eq_true, iff_true, List.forall_mem_cons, List.forall_mem_append,
      List.forall_mem_map, registered_send, registered_dispatch, hid, packets_playerLoginReq]
    simp
  | missing hid hs => simp [BornData, hid, hs]

theorem handlePacket_registered_iff {w : Worker} (h : Progress env w.kcp) (t : Turn) :
    (∀ e ∈ (handlePacket env w t).2, Registered env e) ↔ ¬ BornData env w t := by
  rcases handlePacket_cases h t with ⟨hr, he⟩ | ⟨hr, hh⟩
  · simp [he, BornData, hr]
  · rw [hh.registered_iff]
    simp [BornData, hr]

/-- **Every dispatch finds a handler** exactly in the runs where no player
picking a character sends its born data. -/
theorem dispatch_registered_iff (env : Env) (ep : Endpoint) (now : Int) (ts : List Turn) :
    (∀ packet handler, Event.dispatch packet handler ∈
        Runs.log (handlePacket env) (Worker.start env.platform ep now) ts →
      ∃ h, packets env.ids packet.packetId = some h ∧ handler = some h) ↔
      Runs.AllSteps (handlePacket env) (fun w t => ¬ BornData env w t)
        (Worker.start env.platform ep now) ts := by
  have hlog : (∀ packet handler, Event.dispatch packet handler ∈
        Runs.log (handlePacket env) (Worker.start env.platform ep now) ts →
      ∃ h, packets env.ids packet.packetId = some h ∧ handler = some h) ↔
      ∀ e ∈ Runs.log (handlePacket env) (Worker.start env.platform ep now) ts, Registered env e := by
    constructor
    · intro h e he
      cases e with
      | dispatch p g => exact h p g he
      | send c => trivial
    · exact fun h p g he => h _ he
  rw [hlog, Runs.forall_log_iff]
  exact Runs.allSteps_congr (fun w : Worker => Progress env w.kcp) (fun _ t h => handlePacket_progress h t)
    (fun _ t h => handlePacket_registered_iff h t) (Progress.start env ep now)

/-- Token, login, born data: the third packet is dispatched to no handler. -/
theorem born_data_no_handler :
    let w := Worker.start Env.sample.platform ⟨0, 0⟩ 0
    let ts := [Turn.sample Env.sample.ids.getPlayerTokenReq, .sample Env.sample.ids.playerLoginReq,
      .sample Env.sample.ids.setPlayerBornDataReq]
    ∃ packet, Event.dispatch packet none ∈ Runs.log (handlePacket Env.sample) w ts ∧
      packets Env.sample.ids packet.packetId = none :=
  ⟨(Turn.sample 6).packet, by decide +kernel, by decide⟩

/-! ## Rejected packets -/

/-- The loop that drops a packet it does not admit, and goes on. -/
def dropRejected (env : Env) (w : Worker) (turn : Turn) : Worker × List Event :=
  if w.thread ≠ .running then (w, [])
  else if admitted env.ids w.kcp.sessionState turn.packet.packetId then runHandler env w turn
  else (w, [])

/-- The packets a log hands to handlers, and the handlers. -/
def handled (l : List Event) : List (BasePacket × Option PacketHandler) :=
  l.filterMap fun
    | .dispatch packet handler => some (packet, handler)
    | .send _ => none

@[simp] theorem handled_nil : handled [] = [] := rfl

@[simp] theorem handled_append {l m : List Event} : handled (l ++ m) = handled l ++ handled m :=
  List.filterMap_append

/-- A packet that is admitted is handed to a handler. -/
theorem handled_runHandler (w : Worker) (t : Turn) : handled (runHandler env w t).2 ≠ [] := by
  unfold runHandler
  split <;> simp [handled]

/-- No packet that is rejected at its turn is followed by one that its session
state admits. -/
def RejectsLast (env : Env) (w : Worker) (ts : List Turn) : Prop :=
  ∀ pre t post, ts = pre ++ t :: post →
    (Runs.final (handlePacket env) w pre).thread = .running →
    admitted env.ids (Runs.final (handlePacket env) w pre).kcp.sessionState t.packet.packetId = false →
    ∀ u ∈ post,
      admitted env.ids (Runs.final (handlePacket env) w pre).kcp.sessionState u.packet.packetId = false

theorem rejectsLast_cons {w : Worker} {t : Turn} {ts : List Turn} : RejectsLast env w (t :: ts) ↔
    (w.thread = .running → admitted env.ids w.kcp.sessionState t.packet.packetId = false →
      ∀ u ∈ ts, admitted env.ids w.kcp.sessionState u.packet.packetId = false) ∧
    RejectsLast env (handlePacket env w t).1 ts := by
  constructor
  · intro h
    exact ⟨h [] t ts rfl, fun pre u post hts => h (t :: pre) u post (by rw [hts]; rfl)⟩
  · intro ⟨hfirst, hrest⟩ pre u post hts
    cases pre with
    | nil => cases hts; exact hfirst
    | cons v pre => cases hts; exact hrest pre u post rfl

theorem rejectsLast_stopped {w : Worker} (h : w.thread ≠ .running) (ts : List Turn) : RejectsLast env w ts := by
  intro pre t post _ hr
  rw [(Runs.stays (handlePacket_stopped h) pre).1] at hr
  exact absurd hr h

/-- The dropping loop hands out nothing exactly if it admits nothing. -/
theorem handled_dropRejected_eq_nil {w : Worker} (hr : w.thread = .running) (ts : List Turn) :
    handled (Runs.log (dropRejected env) w ts) = [] ↔
      ∀ u ∈ ts, admitted env.ids w.kcp.sessionState u.packet.packetId = false := by
  induction ts with
  | nil => simp
  | cons t ts ih =>
    rw [Runs.log_cons, handled_append, List.append_eq_nil_iff, List.forall_mem_cons]
    cases ha : admitted env.ids w.kcp.sessionState t.packet.packetId with
    | true =>
      have hstep : dropRejected env w t = runHandler env w t := by simp [dropRejected, hr, ha]
      simp [hstep, handled_runHandler]
    | false =>
      have hstep : dropRejected env w t = (w, []) := by simp [dropRejected, hr, ha]
      simp [hstep, ih]

/-- **The handled packets are the admitted ones** exactly if no rejected packet
is followed by one its session state admits. -/
theorem handled_handlePacket_iff (w : Worker) (ts : List Turn) :
    handled (Runs.log (handlePacket env) w ts) = handled (Runs.log (dropRejected env) w ts) ↔
      RejectsLast env w ts := by
  by_cases hr : w.thread = .running
  · induction ts generalizing w with
    | nil => simp [RejectsLast]
    | cons t ts ih =>
      rw [rejectsLast_cons, Runs.log_cons, Runs.log_cons, handled_append, handled_append]
      cases ha : admitted env.ids w.kcp.sessionState t.packet.packetId with
      | true =>
        have hstep : handlePacket env w t = dropRejected env w t := by
          simp [handlePacket, dropRejected, hr, ha]
        rw [hstep]
        simp only [List.append_cancel_left_eq, Bool.true_eq_false, false_implies, implies_true, true_and]
        by_cases hr' : (dropRejected env w t).1.thread = .running
        · exact ih _ hr'
        · have hdrop : ∀ u, dropRejected env (dropRejected env w t).1 u = ((dropRejected env w t).1, []) :=
            fun u => by rw [dropRejected, if_pos hr']
          rw [log_handlePacket_stopped hr', (Runs.stays hdrop ts).2]
          exact iff_of_true rfl (rejectsLast_stopped hr' ts)
      | false =>
        -- the loop is over: what the dropping loop still hands out is the difference
        have hstep : handlePacket env w t = ({ w with thread := .returned }, []) := by
          simp [handlePacket, hr, ha]
        have hdrop : dropRejected env w t = (w, []) := by simp [dropRejected, hr, ha]
        have hstop : ({ w with thread := .returned } : Worker).thread ≠ .running := by simp
        rw [hstep, hdrop, log_handlePacket_stopped hstop]
        simp only [handled_nil, List.nil_append, hr, true_implies, and_iff_left (rejectsLast_stopped hstop ts)]
        rw [eq_comm, handled_dropRejected_eq_nil hr]
  · have hdrop : ∀ u, dropRejected env w u = (w, []) := fun u => by rw [dropRejected, if_pos hr]
    rw [log_handlePacket_stopped hr, (Runs.stays hdrop ts).2]
    exact iff_of_true rfl (rejectsLast_stopped hr ts)

theorem turns_all (ts : List Turn) : turns (ts.map (·.packet)) (ts.map fun t => .pass t.time) = ts := by
  induction ts with
  | nil => rfl
  | cons t ts ih => simp [turns, ih]

/-- The loop over a queue of packets runs the handlers of the admitted ones, in
queue order, exactly if no rejected packet is followed by one its session
state admits. -/
theorem handled_packetQueueHandler_iff (env : Env) (w : Worker) (hc : w.kcp.state = .connected) (ts : List Turn)
    (hq : w.kcp.packetQueue = (ts.map (·.packet)).reverse) :
    handled (Runs.log (fun w time => packetQueueHandler env time w) w (ts.map (·.time))) =
        handled (Runs.log (dropRejected env) w ts) ↔
      RejectsLast env w ts := by
  have hw : w.waiting (ts.map (·.packet)) = w := by
    obtain ⟨k, th⟩ := w
    simp only [Worker.waiting, ← hq]
  have hloop : Runs.log (fun w time => packetQueueHandler env time w) w (ts.map (·.time)) =
      Runs.log (queueStep env) w (ts.map fun t => .pass t.time) := by
    clear hq hw hc
    induction ts generalizing w with
    | nil => rfl
    | cons t ts ih => simp only [List.map_cons, Runs.log_cons, queueStep, ih]
  have hfifo := log_queueStep env w hc (ts.map (·.packet)) (ts.map fun t => .pass t.time)
  rw [hw, turns_all] at hfifo
  rw [hloop, hfifo]
  exact handled_handlePacket_iff w ts

/-- Token, ping, token: the last packet is rejected, with none behind it. -/
theorem handled_packetQueueHandler_iff_sample :
    let ts := [Turn.sample Env.sample.ids.getPlayerTokenReq, .sample Env.sample.ids.pingReq,
      .sample Env.sample.ids.getPlayerTokenReq]
    let w := (Worker.start Env.sample.platform ⟨0, 0⟩ 0).waiting (ts.map (·.packet))
    (Runs.final (fun w time => packetQueueHandler Env.sample time w) w (ts.map (·.time))).thread = .returned ∧
      handled (Runs.log (fun w time => packetQueueHandler Env.sample time w) w (ts.map (·.time))) =
        handled (Runs.log (dropRejected Env.sample) w ts) := by
  intro ts w
  refine ⟨by decide +kernel, (handled_packetQueueHandler_iff Env.sample w (by decide) ts (by decide)).mpr ?_⟩
  refine rejectsLast_cons.mpr ⟨by decide +kernel, rejectsLast_cons.mpr ⟨by decide +kernel,
    rejectsLast_cons.mpr ⟨by decide +kernel, fun pre t post h => ?_⟩⟩⟩
  simp at h

/-- Token, token, ping: the second packet ends the loop, and the ping, which
every session state admits, is never handled. -/
theorem rejected_ends_loop :
    let ts := [Turn.sample Env.sample.ids.getPlayerTokenReq, .sample Env.sample.ids.getPlayerTokenReq,
      .sample Env.sample.ids.pingReq]
    let w := (Worker.start Env.sample.platform ⟨0, 0⟩ 0).waiting (ts.map (·.packet))
    handled (Runs.log (fun w time => packetQueueHandler Env.sample time w) w (ts.map (·.time))) =
        [((Turn.sample 3).packet, some .handlePlayerTokenReq)] ∧
      (Runs.final (fun w time => packetQueueHandler Env.sample time w) w (ts.map (·.time))).kcp.state =
        .connected ∧
      handled (Runs.log (dropRejected Env.sample) w ts) =
        [((Turn.sample 3).packet, some .handlePlayerTokenReq),
          ((Turn.sample 1).packet, some .handlePingReq)] := by
  decide +kernel

end EyPS
