/-
The receive side of the engine by itself, as `Ikcp` has it, and the whole control
block: every run of calls gives the same answers on both, and leaves the same
receive side.

So sending, acknowledgements, window probes and timers do not show in what is
received: the calls of the receive side alone get the same answers.
-/
import EyPS.RecvWindow
import EyPS.Runs

namespace EyPS

open Runs

/-- What `ikcp_input` and `ikcp_recv` answer. -/
inductive RcvAnswer
  | input (ret : Int)
  | recv (ret : Int) (data : Bytes)
  deriving DecidableEq

/-- The calls that the receive side sees. -/
def KcpAct.onReceive : KcpAct → Bool
  | .recv _ | .input _ | .wndsize _ _ => true
  | _ => false

/-- A call on the receive side. -/
def Ikcpcb.receive (cb : Ikcpcb) : KcpAct → Ikcpcb × List RcvAnswer
  | .recv len => ((ikcpRecv cb len.toInt).2.2, [.recv (ikcpRecv cb len.toInt).1 (ikcpRecv cb len.toInt).2.1])
  | .input data => ((ikcpInput cb data).2, [.input (ikcpInput cb data).1])
  | .wndsize _ rcvwnd => (if 0 < rcvwnd then ikcpWndsize cb rcvwnd.toUInt32 else cb, [])
  | _ => (cb, [])

namespace Kcpcb

def answers (kcp : Kcpcb) : KcpAct → List RcvAnswer
  | .recv len => [.recv (kcp.recv len.toInt).1 (kcp.recv len.toInt).2.1]
  | .input data => [.input (kcp.input data).1]
  | _ => []

/-- A call on the whole control block, with its answer. -/
def answer (kcp : Kcpcb) (a : KcpAct) : Kcpcb × List RcvAnswer := ((kcp.step a).1, kcp.answers a)

theorem wndsize_rcv (kcp : Kcpcb) (sndwnd rcvwnd : Int32) :
    (kcp.wndsize sndwnd rcvwnd).toIkcpcb =
      if 0 < rcvwnd then ikcpWndsize kcp.toIkcpcb rcvwnd.toUInt32 else kcp.toIkcpcb := by
  unfold wndsize
  by_cases hpos : 0 < rcvwnd
  · have hunsigned : 0 < rcvwnd.toUInt32 := by
      rw [UInt32.pos_iff_ne_zero]
      intro h0
      have : rcvwnd = 0 := by rw [← Int32.toInt32_toUInt32 rcvwnd, h0]; rfl
      rw [this] at hpos
      exact absurd hpos (by decide)
    rw [if_pos hpos, if_pos hpos, ikcpWndsize, if_pos hunsigned]
    split <;> rfl
  · rw [if_neg hpos, if_neg hpos]
    split <;> rfl

/-- Each call does to the receive side, and answers, what the receive side alone does. -/
theorem receive_toIkcpcb (kcp : Kcpcb) (a : KcpAct) :
    kcp.toIkcpcb.receive a = ((kcp.answer a).1.toIkcpcb, (kcp.answer a).2) := by
  cases a with
  | send buffer len =>
    obtain ⟨queue, heq⟩ := kcp.send_eq buffer len.toInt
    have hstep : (kcp.step (.send buffer len)).1.toIkcpcb = kcp.toIkcpcb := by rw [Kcpcb.step, heq]
    exact Prod.ext hstep.symm rfl
  | recv len =>
    obtain ⟨hret, hdata, hcb⟩ := kcp.recv_rcv len.toInt
    simp only [answer, answers, Kcpcb.step, Ikcpcb.receive, hret, hdata, hcb]
  | input data =>
    obtain ⟨hret, hcb⟩ := kcp.input_rcv data
    simp only [answer, answers, Kcpcb.step, Ikcpcb.receive, hret, hcb]
  | update current => exact Prod.ext (kcp.update_rcv current).symm rfl
  | flush => exact Prod.ext kcp.flush_rcv.symm rfl
  | nodelay nodelay interval resend nc =>
    obtain ⟨_, _, _, _, _, heq⟩ := kcp.setNodelay_eq nodelay interval resend nc
    have hstep : (kcp.step (.nodelay nodelay interval resend nc)).1.toIkcpcb = kcp.toIkcpcb := by
      rw [Kcpcb.step, heq]
    exact Prod.ext hstep.symm rfl
  | wndsize sndwnd rcvwnd => exact Prod.ext (kcp.wndsize_rcv sndwnd rcvwnd).symm rfl
  | interval interval => rfl
  | setmtu mtu =>
    obtain ⟨_, _, _, heq, -⟩ := kcp.setmtu_eq mtu
    have hstep : (kcp.step (.setmtu mtu)).1.toIkcpcb = kcp.toIkcpcb := by rw [Kcpcb.step, heq]
    exact Prod.ext hstep.symm rfl

end Kcpcb

theorem Ikcpcb.receive_of_not (cb : Ikcpcb) {a : KcpAct} (h : a.onReceive = false) : cb.receive a = (cb, []) := by
  cases a with
  | recv | input | wndsize => cases h
  | send | update | flush | nodelay | interval | setmtu => rfl

/-- The other calls may be left out. -/
theorem Ikcpcb.receive_filter (cb : Ikcpcb) (acts : List KcpAct) :
    final Ikcpcb.receive cb (acts.filter KcpAct.onReceive) = final Ikcpcb.receive cb acts ∧
      log Ikcpcb.receive cb (acts.filter KcpAct.onReceive) = log Ikcpcb.receive cb acts := by
  induction acts generalizing cb with
  | nil => exact ⟨rfl, rfl⟩
  | cons a acts ih =>
    cases h : a.onReceive with
    | true =>
      obtain ⟨hfinal, hlog⟩ := ih (cb.receive a).1
      rw [List.filter_cons_of_pos h, final_cons, final_cons, log_cons, log_cons, hfinal, hlog]
      exact ⟨rfl, rfl⟩
    | false =>
      rw [List.filter_cons_of_neg (by simp [h]), final_cons, log_cons, cb.receive_of_not h]
      exact ih cb

namespace Kcpcb

/-- Whether C defines a call of the receive side is seen there. -/
theorem Sound.of_rcv {kcp kcp' : Kcpcb} (hsame : kcp'.toIkcpcb = kcp.toIkcpcb) {a : KcpAct} (hact : a.onReceive)
    (h : kcp.Sound a) : kcp'.Sound a := by
  cases a with
  | recv len =>
    refine ⟨h.1, ?_⟩
    rw [hsame]
    exact h.2
  | input data => exact h
  | wndsize sndwnd rcvwnd => trivial
  | send | update | flush | nodelay | interval | setmtu => cases hact

theorem sound_filter {kcp kcp' : Kcpcb} (hsame : kcp'.toIkcpcb = kcp.toIkcpcb) {acts : List KcpAct}
    (h : AllSteps answer Sound kcp acts) : AllSteps answer Sound kcp' (acts.filter KcpAct.onReceive) := by
  induction acts generalizing kcp kcp' with
  | nil => trivial
  | cons a acts ih =>
    obtain ⟨ha, h⟩ := h
    have hstep : kcp.toIkcpcb.receive a = _ := kcp.receive_toIkcpcb a
    cases hact : a.onReceive with
    | true =>
      rw [List.filter_cons_of_pos hact]
      refine ⟨ha.of_rcv hsame hact, ih ?_ h⟩
      have hstep' : kcp'.toIkcpcb.receive a = _ := kcp'.receive_toIkcpcb a
      rw [hsame, hstep] at hstep'
      exact (congrArg Prod.fst hstep').symm
    | false =>
      rw [List.filter_cons_of_neg (by simp [hact])]
      refine ih ?_ h
      rw [kcp.toIkcpcb.receive_of_not hact] at hstep
      exact hsame.trans (congrArg Prod.fst hstep)

/-- **The receive side is independent**: in any run of calls that C defines, the answers and
the receive side are those of the model that has the receive side only; and all
sending, flushing, timing and tuning may be left out, which leaves calls that C
defines and the same answers. -/
theorem receive_side (conv token : UInt32) (acts : List KcpAct)
    (h : AllSteps answer Sound (create conv token) acts) :
    log answer (create conv token) acts = log Ikcpcb.receive (ikcpCreate conv token) acts ∧
    (final answer (create conv token) acts).toIkcpcb = final Ikcpcb.receive (ikcpCreate conv token) acts ∧
    AllSteps answer Sound (create conv token) (acts.filter KcpAct.onReceive) ∧
    log answer (create conv token) (acts.filter KcpAct.onReceive) = log answer (create conv token) acts := by
  have hlog := fun acts => log_map Kcpcb.toIkcpcb receive_toIkcpcb (create conv token) acts
  have hfinal := final_map Kcpcb.toIkcpcb receive_toIkcpcb (create conv token) acts
  refine ⟨(hlog acts).symm, hfinal.symm, sound_filter rfl h, ?_⟩
  rw [← hlog, ← hlog]
  exact (Ikcpcb.receive_filter _ acts).2

/-- A message is sent between two datagrams and the call that receives. -/
theorem receive_side_sample :
    let acts : List KcpAct := [.update 0, .input (pushDatagram 5 6 0 0 [7, 8]), .send [9] 1, .flush, .recv 100]
    log answer (create 5 6) (acts.filter KcpAct.onReceive) = log answer (create 5 6) acts ∧
      log answer (create 5 6) acts = [.input 0, .recv 2 [7, 8]] := by
  intro acts
  have h : AllSteps answer Sound (create 5 6) acts :=
    ⟨trivial, show 30 < 2 ^ 31 by decide, by exact Int.le_refl 1, trivial, ⟨by decide, by decide +kernel⟩, trivial⟩
  exact ⟨(receive_side 5 6 acts h).2.2.2, by decide +kernel⟩

end Kcpcb

end EyPS
