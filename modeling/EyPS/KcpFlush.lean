/-
`ikcp_flush` and the two functions that say when it runs, `ikcp_update` and `ikcp_check`.

What `ikcp_flush` writes goes through one buffer: where the next segment would not fit the
MTU the buffer is put out as a datagram, and what is left at the end is put out last.
Nothing asks whether the buffer has room; `overrun` says where it has not.
-/
import EyPS.Kcpcb

namespace EyPS

/-! ## The buffer -/

def encode32u (l : UInt32) : Bytes := toLE 4 l.toNat
def encode16u (w : UInt16) : Bytes := toLE 2 w.toNat
def encode8u (c : UInt8) : Bytes := [c]

/-- `ikcp_encode_seg`. -/
def ikcpEncodeSeg (seg : IkcpSeg) : Bytes :=
  encode32u seg.conv ++ (encode32u seg.token ++ (encode8u seg.cmd ++ (encode8u (UInt8.ofNat seg.frg) ++
    (encode16u seg.wnd.toUInt16 ++ (encode32u seg.ts ++ (encode32u seg.sn ++ (encode32u seg.una ++
      encode32u (UInt32.ofNat seg.data.length))))))))

/-- `ikcp_output`: the datagram the output callback gets, none of size 0. -/
def ikcpOutput (data : Bytes) : List Bytes := if data.length = 0 then [] else [data]

/-- What `ikcp_flush` has put out, the part of `buffer` before `ptr`, and whether it was left. -/
structure Outbox where
  out : List Bytes
  buffer : Bytes
  overrun : Bool
  deriving DecidableEq

namespace Outbox

/-- A segment goes into the buffer, after the buffer is put out if it would not fit the MTU. -/
def putSeg (mtu bufferSize : UInt32) (o : Outbox) (seg : IkcpSeg) : Outbox :=
  let size := o.buffer.length
  let need := ikcpOverhead + seg.data.length
  let (out, buffer) := if mtu.toNat < size + need then (o.out ++ ikcpOutput o.buffer, []) else (o.out, o.buffer)
  let buffer := buffer ++ (ikcpEncodeSeg seg ++ seg.data)
  -- `size + need` is an `int`
  ⟨out, buffer, o.overrun || 2 ^ 31 ≤ size + need || bufferSize.toNat < buffer.length⟩

/-- What was put out in all, the rest of the buffer last. -/
def finish (o : Outbox) : List Bytes := o.out ++ ikcpOutput o.buffer

end Outbox

namespace Kcpcb

/-! ## ikcp_flush -/

/-- `ikcp_wnd_unused`. -/
def wndUnused (kcp : Kcpcb) : UInt32 :=
  if kcp.rcvQueue.length < kcp.rcvWnd.toNat then kcp.rcvWnd - UInt32.ofNat kcp.rcvQueue.length else 0

/-- The `seg` of `ikcp_flush`, with a command and a number. -/
def ctlSeg (kcp : Kcpcb) (cmd : UInt8) (sn ts : UInt32) : IkcpSeg :=
  { conv := kcp.conv, token := kcp.token, cmd, frg := 0, wnd := kcp.wndUnused, ts, sn, una := kcp.rcvNxt
    resendts := 0, rto := 0, fastack := 0, xmit := 0, data := [] }

/-- The segments that acknowledge. -/
def ackSegs (kcp : Kcpcb) : List IkcpSeg := kcp.acklist.map fun (sn, ts) => kcp.ctlSeg ikcpCmdAck sn ts

/-- Whether to ask for a window that is shut, and when next. -/
def probeWindow (kcp : Kcpcb) : Kcpcb :=
  if kcp.rmtWnd = 0 then
    if kcp.probeWait = 0 then
      { kcp with probeWait := ikcpProbeInit, tsProbe := kcp.current + ikcpProbeInit }
    else if 0 ≤ itimediff kcp.current kcp.tsProbe then
      let wait := if kcp.probeWait < ikcpProbeInit then ikcpProbeInit else kcp.probeWait
      let wait := wait + wait / 2
      let wait := if ikcpProbeLimit < wait then ikcpProbeLimit else wait
      { kcp with probeWait := wait, tsProbe := kcp.current + wait, probe := kcp.probe ||| ikcpAskSend }
    else kcp
  else { kcp with tsProbe := 0, probeWait := 0 }

/-- The segments that ask for the peer's window and tell it the own. They carry `sn` and `ts` of the
last acknowledgement. -/
def probeSegs (kcp : Kcpcb) (probe sn ts : UInt32) : List IkcpSeg :=
  (if probe &&& ikcpAskSend ≠ 0 then [kcp.ctlSeg ikcpCmdWask sn ts] else []) ++
    if probe &&& ikcpAskTell ≠ 0 then [kcp.ctlSeg ikcpCmdWins sn ts] else []

/-- The window segments are numbered within. -/
def sendWindow (kcp : Kcpcb) : UInt32 :=
  let cwnd := min kcp.sndWnd kcp.rmtWnd
  if kcp.nocwnd = 0 then min kcp.cwnd cwnd else cwnd

/-- A fragment as it moves to `snd_buf`. -/
def numberSeg (kcp : Kcpcb) (fragment : Fragment) : IkcpSeg :=
  { conv := kcp.conv, token := kcp.token, cmd := ikcpCmdPush, frg := fragment.frg, wnd := kcp.wndUnused
    ts := kcp.current, sn := kcp.sndNxt, una := kcp.rcvNxt, resendts := kcp.current
    rto := kcp.rxRto.toUInt32, fastack := 0, xmit := 0, data := fragment.data }

/-- The head of `snd_queue` moves to `snd_buf`. -/
def moveOne (kcp : Kcpcb) (fragment : Fragment) (queue : List Fragment) : Kcpcb :=
  { kcp with
    sndQueue := queue
    sndBuf := kcp.sndBuf ++ [kcp.numberSeg fragment]
    sndNxt := kcp.sndNxt + 1 }

/-- The loop that moves fragments from `snd_queue`, its second argument, to `snd_buf`. -/
def moveQueue (cwnd : UInt32) : Kcpcb → List Fragment → Kcpcb
  | kcp, [] => kcp
  | kcp, fragment :: queue =>
    if itimediff kcp.sndNxt (kcp.sndUna + cwnd) < 0 then moveQueue cwnd (kcp.moveOne fragment queue) queue
    else kcp

/-- The control block after the probe timer and that loop. -/
def numbered (kcp : Kcpcb) : Kcpcb := moveQueue kcp.sendWindow kcp.probeWindow kcp.sndQueue

/-- `resent` -/
def resent (kcp : Kcpcb) : UInt32 := if 0 < kcp.fastresend then kcp.fastresend.toUInt32 else 0xffffffff

/-- `rtomin` -/
def rtomin (kcp : Kcpcb) : UInt32 := if kcp.nodelay = 0 then (kcp.rxRto >>> 3).toUInt32 else 0

/-- Why a segment of `snd_buf` is sent. -/
inductive Due
  | first
  | timeout
  | fast
  deriving DecidableEq

/-- Whether a segment is sent now. -/
def due (kcp : Kcpcb) (segment : IkcpSeg) : Option Due :=
  if segment.xmit = 0 then some .first
  else if 0 ≤ itimediff kcp.current segment.resendts then some .timeout
  else if kcp.resent ≤ segment.fastack then
    if segment.xmit.toInt32 ≤ kcp.fastlimit ∨ kcp.fastlimit ≤ 0 then some .fast else none
  else none

/-- What the three reasons do to the segment. -/
def Due.apply (kcp : Kcpcb) (segment : IkcpSeg) : Due → IkcpSeg
  | .first =>
    { segment with
      xmit := segment.xmit + 1
      rto := kcp.rxRto.toUInt32
      resendts := kcp.current + kcp.rxRto.toUInt32 + kcp.rtomin }
  | .timeout =>
    let rto :=
      if kcp.nodelay = 0 then segment.rto + max segment.rto kcp.rxRto.toUInt32
      else
        let step := if kcp.nodelay < 2 then segment.rto.toInt32 else kcp.rxRto
        segment.rto + (step / 2).toUInt32
    { segment with xmit := segment.xmit + 1, rto, resendts := kcp.current + rto }
  | .fast =>
    { segment with xmit := segment.xmit + 1, fastack := 0, resendts := kcp.current + segment.rto }

/-- A segment as it is sent. -/
def stamp (kcp : Kcpcb) (segment : IkcpSeg) (d : Due) : IkcpSeg :=
  { d.apply kcp segment with ts := kcp.current, wnd := kcp.wndUnused, una := kcp.rcvNxt }

/-- What is left of a segment in `snd_buf`. -/
def flushSeg (kcp : Kcpcb) (segment : IkcpSeg) : IkcpSeg :=
  match kcp.due segment with
  | some d => kcp.stamp segment d
  | none => segment

/-- The segments of `snd_buf` that are sent. -/
def dueSegs (kcp : Kcpcb) : List IkcpSeg :=
  kcp.sndBuf.filterMap fun segment => (kcp.due segment).map (kcp.stamp segment)

/-- Whether `snd_buf` holds a segment sent for this reason. -/
def sends (kcp : Kcpcb) (d : Due) : Bool := kcp.sndBuf.any fun segment => kcp.due segment = some d

/-- The windows after a loss: `change` is the fast resends, `lost` the timeouts. -/
def shrinkCwnd (kcp : Kcpcb) (cwnd : UInt32) (change lost : Bool) : Kcpcb :=
  let kcp : Kcpcb :=
    if change then
      let ssthresh := max ((kcp.sndNxt - kcp.sndUna) / 2) ikcpThreshMin
      { kcp with ssthresh, cwnd := ssthresh + kcp.resent, incr := (ssthresh + kcp.resent) * kcp.mss }
    else kcp
  let kcp : Kcpcb :=
    if lost then { kcp with ssthresh := max (cwnd / 2) ikcpThreshMin, cwnd := 1, incr := kcp.mss } else kcp
  if kcp.cwnd < 1 then { kcp with cwnd := 1, incr := kcp.mss } else kcp

/-- What `ikcp_flush` sends, in order: the acknowledgements, the probes, the segments due. -/
def flushSegs (kcp : Kcpcb) : List IkcpSeg :=
  let (sn, ts) := kcp.acklist.getLastD (0, 0)
  kcp.ackSegs ++ (kcp.probeSegs kcp.probeWindow.probe sn ts ++ kcp.numbered.dueSegs)

/-- The buffer at the end of `ikcp_flush`. -/
def outbox (kcp : Kcpcb) : Outbox := kcp.flushSegs.foldl (Outbox.putSeg kcp.mtu kcp.bufferSize) ⟨[], [], false⟩

/-- `ikcp_flush`: the datagrams put out, and the control block. -/
def flush (kcp : Kcpcb) : List Bytes × Kcpcb :=
  if !kcp.updated then ([], kcp)
  else
    let out := kcp.outbox.finish
    let sent := kcp.numbered
    let dead := sent.dueSegs.any fun segment => kcp.deadLink ≤ segment.xmit
    let kcp' := { sent with
      acklist := []
      probe := 0
      sndBuf := sent.sndBuf.map sent.flushSeg
      overrun := sent.overrun || kcp.outbox.overrun
      state := if dead then 0xffffffff else sent.state }
    (out, kcp'.shrinkCwnd kcp.sendWindow (sent.sends .fast) (sent.sends .timeout))

/-! ## When it runs -/

/-- `ts_flush` as `ikcp_update` takes it: now at the first call, and where it is 10 seconds off. -/
def tsFlushAt (kcp : Kcpcb) (current : UInt32) : UInt32 :=
  let tsFlush := if kcp.updated then kcp.tsFlush else current
  if 10000 ≤ itimediff current tsFlush ∨ itimediff current tsFlush < -10000 then current else tsFlush

/-- `ikcp_update`. -/
def update (kcp : Kcpcb) (current : UInt32) : List Bytes × Kcpcb :=
  let tsFlush := kcp.tsFlushAt current
  let kcp := { kcp with current, updated := true }
  if 0 ≤ itimediff current tsFlush then
    let tsFlush := tsFlush + kcp.interval
    { kcp with tsFlush := if 0 ≤ itimediff current tsFlush then current + kcp.interval else tsFlush }.flush
  else ([], { kcp with tsFlush })

/-! ## Actions -/

end Kcpcb

/-- A call that is made on a control block. `buffer` is what `ikcp_send` can read of its
argument. -/
inductive KcpAct
  | send (buffer : Bytes) (len : Int32)
  | recv (len : Int32)
  | input (data : Bytes)
  | update (current : UInt32)
  | flush
  | nodelay (nodelay interval resend nc : Int32)
  | wndsize (sndwnd rcvwnd : Int32)
  | interval (interval : Int32)
  | setmtu (mtu : Int32)

/-- The control block after a call, and the datagrams put out in it. -/
def Kcpcb.step (kcp : Kcpcb) : KcpAct → Kcpcb × List Bytes
  | .send buffer len => ((kcp.send buffer len.toInt).2, [])
  | .recv len => ((kcp.recv len.toInt).2.2, [])
  | .input data => ((kcp.input data).2, [])
  | .update current => ((kcp.update current).2, (kcp.update current).1)
  | .flush => (kcp.flush.2, kcp.flush.1)
  | .nodelay nodelay interval resend nc => (kcp.setNodelay nodelay interval resend nc, [])
  | .wndsize sndwnd rcvwnd => (kcp.wndsize sndwnd rcvwnd, [])
  | .interval interval => (kcp.setInterval interval, [])
  | .setmtu mtu => ((kcp.setmtu mtu).2, [])

/-- A call that C defines: `ikcp_send` gets the bytes it is told of, the lengths are an `int`, as is
twice an MTU, and the MTU changes while nothing waits to be sent. -/
def Kcpcb.Sound (kcp : Kcpcb) : KcpAct → Prop
  | .send buffer len => len.toInt ≤ buffer.length
  -- a negative length is negated, the message's is summed up
  | .recv len => len ≠ Int32.minValue ∧ fragmentsLength kcp.rcvQueue < 2 ^ 31
  | .input data => data.length < 2 ^ 31
  | .setmtu mtu => mtu.toInt < 2 ^ 30 ∧ kcp.waitsnd = 0
  | _ => True

end EyPS
