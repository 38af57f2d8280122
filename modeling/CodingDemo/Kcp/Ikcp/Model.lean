import CodingDemo.Kcp.Ikcp.Segment
import CodingDemo.Machine.IntT

/-!
# The KCP stack

A control block of KCP cuts messages into segments, sends them within a window until they are
acknowledged, and puts what it receives in order again. Numbers of 32 bits wrap around.

## Main definitions

* `IKCPCB`: a control block
* `ikcp_create`, `ikcp_send`, `ikcp_recv`, `ikcp_input`, `ikcp_flush`, `ikcp_update`, `ikcp_check`:
  the functions of the stack
* `ikcp_setmtu`, `ikcp_interval`, `ikcp_nodelay`, `ikcp_wndsize`: the settings
-/

namespace CodingDemo.Kcp

def IKCP_RTO_NDL : BitVec 32 := 30
def IKCP_RTO_MIN : BitVec 32 := 100
def IKCP_RTO_DEF : BitVec 32 := 200
def IKCP_RTO_MAX : BitVec 32 := 60000
def IKCP_ASK_SEND : BitVec 32 := 1
def IKCP_ASK_TELL : BitVec 32 := 2
def IKCP_WND_SND : BitVec 32 := 32
def IKCP_WND_RCV : BitVec 32 := 128
def IKCP_MTU_DEF : BitVec 32 := 1400
def IKCP_INTERVAL : BitVec 32 := 100
def IKCP_DEADLINK : BitVec 32 := 20
def IKCP_THRESH_INIT : BitVec 32 := 2
def IKCP_THRESH_MIN : BitVec 32 := 2
def IKCP_PROBE_INIT : BitVec 32 := 7000
def IKCP_PROBE_LIMIT : BitVec 32 := 120000
def IKCP_FASTACK_LIMIT : ℤ := 5

/-- The fields of type `int` are integers. -/
structure IKCPCB where
  conv : BitVec 32
  mtu : BitVec 32
  mss : BitVec 32
  state : BitVec 32
  snd_una : BitVec 32
  snd_nxt : BitVec 32
  rcv_nxt : BitVec 32
  ssthresh : BitVec 32
  rx_rttval : BitVec 32
  rx_srtt : BitVec 32
  rx_rto : BitVec 32
  rx_minrto : BitVec 32
  snd_wnd : BitVec 32
  rcv_wnd : BitVec 32
  rmt_wnd : BitVec 32
  cwnd : BitVec 32
  probe : BitVec 32
  current : BitVec 32
  interval : BitVec 32
  ts_flush : BitVec 32
  xmit : BitVec 32
  nrcv_buf : BitVec 32
  nsnd_buf : BitVec 32
  nrcv_que : BitVec 32
  nsnd_que : BitVec 32
  nodelay : BitVec 32
  updated : BitVec 32
  ts_probe : BitVec 32
  probe_wait : BitVec 32
  dead_link : BitVec 32
  incr : BitVec 32
  snd_queue : List IKCPSEG
  rcv_queue : List IKCPSEG
  snd_buf : List IKCPSEG
  rcv_buf : List IKCPSEG
  /-- The sequence numbers and timestamps to be acknowledged. -/
  acklist : List (BitVec 32 × BitVec 32)
  fastresend : ℤ
  fastlimit : ℤ
  nocwnd : ℤ
  stream : ℤ

def _imin_ (a b : BitVec 32) : BitVec 32 := if a ≤ b then a else b

def _imax_ (a b : BitVec 32) : BitVec 32 := if b ≤ a then a else b

def _ibound_ (lower middle upper : BitVec 32) : BitVec 32 := _imin_ (_imax_ lower middle) upper

def _itimediff (later earlier : BitVec 32) : ℤ := serialDiff later earlier

def ikcp_create (conv : BitVec 32) : IKCPCB where
  conv := conv
  mtu := IKCP_MTU_DEF
  mss := IKCP_MTU_DEF - BitVec.ofNat 32 IKCP_OVERHEAD
  state := 0
  snd_una := 0
  snd_nxt := 0
  rcv_nxt := 0
  ssthresh := IKCP_THRESH_INIT
  rx_rttval := 0
  rx_srtt := 0
  rx_rto := IKCP_RTO_DEF
  rx_minrto := IKCP_RTO_MIN
  snd_wnd := IKCP_WND_SND
  rcv_wnd := IKCP_WND_RCV
  rmt_wnd := IKCP_WND_RCV
  cwnd := 0
  probe := 0
  current := 0
  interval := IKCP_INTERVAL
  ts_flush := IKCP_INTERVAL
  xmit := 0
  nrcv_buf := 0
  nsnd_buf := 0
  nrcv_que := 0
  nsnd_que := 0
  nodelay := 0
  updated := 0
  ts_probe := 0
  probe_wait := 0
  dead_link := IKCP_DEADLINK
  incr := 0
  snd_queue := []
  rcv_queue := []
  snd_buf := []
  rcv_buf := []
  acklist := []
  fastresend := 0
  fastlimit := IKCP_FASTACK_LIMIT
  nocwnd := 0
  stream := 0

namespace IKCPCB

/-- The size of `buffer`. -/
def bufferSize (kcp : IKCPCB) : ℕ := ((kcp.mtu + BitVec.ofNat 32 IKCP_OVERHEAD) * 3).toNat

/-! ## Receiving messages -/

/-- The segments up to the end of a message, and those behind it. -/
def splitMessage : List IKCPSEG → List IKCPSEG × List IKCPSEG
  | [] => ([], [])
  | seg :: rest =>
    if seg.frg = 0 then ([seg], rest) else (seg :: (splitMessage rest).1, (splitMessage rest).2)

def ikcp_peeksize (kcp : IKCPCB) : ℤ :=
  match kcp.rcv_queue with
  | [] => -1
  | seg :: _ =>
    if seg.frg = 0 then seg.data.length
    else if kcp.nrcv_que < seg.frg + 1 then -1
    else ((splitMessage kcp.rcv_queue).1.flatMap IKCPSEG.data).length

/-- Move available data from `rcv_buf` to `rcv_queue`. -/
def moveAvailable (kcp : IKCPCB) : List IKCPSEG → IKCPCB
  | [] => { kcp with rcv_buf := [] }
  | seg :: rest =>
    if seg.sn = kcp.rcv_nxt ∧ kcp.nrcv_que < kcp.rcv_wnd then
      moveAvailable { kcp with
        nrcv_buf := kcp.nrcv_buf - 1
        rcv_queue := kcp.rcv_queue ++ [seg]
        nrcv_que := kcp.nrcv_que + 1
        rcv_nxt := kcp.rcv_nxt + 1 } rest
    else { kcp with rcv_buf := seg :: rest }

/-- The first message is taken out of `rcv_queue`. -/
def takeMessage (kcp : IKCPCB) : IKCPCB :=
  { kcp with
    rcv_queue := (splitMessage kcp.rcv_queue).2
    nrcv_que := kcp.nrcv_que - BitVec.ofNat 32 (splitMessage kcp.rcv_queue).1.length }

/-- After a full queue, the remote end is told that there is room again. -/
def recover (kcp : IKCPCB) (full : Prop) [Decidable full] : IKCPCB :=
  if kcp.nrcv_que < kcp.rcv_wnd ∧ full then { kcp with probe := kcp.probe ||| IKCP_ASK_TELL }
  else kcp

/-- The result, and what is written to the buffer. A negative length peeks. -/
def ikcp_recv (kcp : IKCPCB) (len : ℤ) : Except Fault (IKCPCB × ℤ × List UInt8) :=
  let peeksize := kcp.ikcp_peeksize
  let buffer := (splitMessage kcp.rcv_queue).1.flatMap IKCPSEG.data
  if kcp.rcv_queue = [] then .ok (kcp, -1, [])
  else if peeksize < 0 then .ok (kcp, -2, [])
  else if (if len < 0 then -len else len) < peeksize then .ok (kcp, -3, [])
  else if buffer.length ≠ peeksize then .error .assertFailed
  else
    let rest := if len < 0 then kcp else kcp.takeMessage
    .ok ((rest.moveAvailable rest.rcv_buf).recover (kcp.rcv_wnd ≤ kcp.nrcv_que), buffer.length,
      buffer)

/-! ## Sending messages -/

/-- A new segment, of which only `frg` and the data are set. -/
def segmentNew (frg : BitVec 32) (data : List UInt8) : IKCPSEG where
  conv := 0
  cmd := 0
  frg := frg
  wnd := 0
  ts := 0
  sn := 0
  una := 0
  resendts := 0
  rto := 0
  fastack := 0
  xmit := 0
  data := data

/-- The last `count` segments of a message. -/
def fragment (stream : ℤ) (mss : ℕ) : ℕ → List UInt8 → List IKCPSEG
  | 0, _ => []
  | count + 1, buffer =>
    segmentNew (if stream = 0 then BitVec.ofNat 32 count else 0) (buffer.take mss) ::
      fragment stream mss count (buffer.drop mss)

/-- In streaming mode the last segment is filled up first. What is left of the buffer. -/
def extendLast (kcp : IKCPCB) (buffer : List UInt8) : IKCPCB × List UInt8 :=
  match kcp.snd_queue.getLast? with
  | none => (kcp, buffer)
  | some old =>
    if old.data.length < kcp.mss.toNat then
      let capacity := kcp.mss.toNat - old.data.length
      let seg := segmentNew 0 (old.data ++ buffer.take capacity)
      ({ kcp with snd_queue := kcp.snd_queue.dropLast ++ [seg] }, buffer.drop capacity)
    else (kcp, buffer)

/-- Cut the buffer into segments. -/
def sendRest (kcp : IKCPCB) (buffer : List UInt8) : IKCPCB × ℤ :=
  let mss := kcp.mss.toNat
  let count := if buffer.length ≤ mss then 1 else (buffer.length + mss - 1) / mss
  if IKCP_WND_RCV.toNat ≤ count then (kcp, -2)
  else
    ({ kcp with
      snd_queue := kcp.snd_queue ++ fragment kcp.stream mss count buffer
      nsnd_que := kcp.nsnd_que + BitVec.ofNat 32 count }, 0)

/-- The result is 0, or negative if the message has too many fragments. -/
def ikcp_send (kcp : IKCPCB) (buffer : List UInt8) : Except Fault (IKCPCB × ℤ) :=
  if kcp.mss = 0 then .error .assertFailed
  else if kcp.stream ≠ 0 then
    let (kcp, buffer) := kcp.extendLast buffer
    if buffer = [] then .ok (kcp, 0) else .ok (kcp.sendRest buffer)
  else .ok (kcp.sendRest buffer)

/-! ## Acknowledgements -/

/-- Signed overflow wraps around. -/
def ikcp_update_ack (kcp : IKCPCB) (rtt : BitVec 32) : IKCPCB :=
  let kcp :=
    if kcp.rx_srtt = 0 then { kcp with rx_srtt := rtt, rx_rttval := rtt.sdiv 2 }
    else
      let delta := rtt.toInt - kcp.rx_srtt.toInt
      let delta := if delta < 0 then -delta else delta
      let srtt := (7 * kcp.rx_srtt + rtt).sdiv 8
      { kcp with
        rx_rttval := BitVec.ofInt 32 (((3 * kcp.rx_rttval).toInt + delta).tdiv 4)
        rx_srtt := if srtt.toInt < 1 then 1 else srtt }
  let rto := kcp.rx_srtt + _imax_ kcp.interval (4 * kcp.rx_rttval)
  { kcp with rx_rto := _ibound_ kcp.rx_minrto rto IKCP_RTO_MAX }

def ikcp_shrink_buf (kcp : IKCPCB) : IKCPCB :=
  match kcp.snd_buf with
  | seg :: _ => { kcp with snd_una := seg.sn }
  | [] => { kcp with snd_una := kcp.snd_nxt }

/-- The segments without that of a sequence number, if it is found. -/
def removeSn (sn : BitVec 32) : List IKCPSEG → Option (List IKCPSEG)
  | [] => none
  | seg :: rest =>
    if sn = seg.sn then some rest
    else if _itimediff sn seg.sn < 0 then none
    else (removeSn sn rest).map (seg :: ·)

def ikcp_parse_ack (kcp : IKCPCB) (sn : BitVec 32) : IKCPCB :=
  if _itimediff sn kcp.snd_una < 0 ∨ 0 ≤ _itimediff sn kcp.snd_nxt then kcp
  else
    match removeSn sn kcp.snd_buf with
    | some rest => { kcp with snd_buf := rest, nsnd_buf := kcp.nsnd_buf - 1 }
    | none => kcp

def ikcp_parse_una (kcp : IKCPCB) (una : BitVec 32) : IKCPCB :=
  let rest := kcp.snd_buf.dropWhile fun seg => 0 < _itimediff una seg.sn
  { kcp with
    snd_buf := rest
    nsnd_buf := kcp.nsnd_buf - BitVec.ofNat 32 (kcp.snd_buf.length - rest.length) }

/-- The segments before a sequence number have been passed by an acknowledgement. -/
def passFastack (sn : BitVec 32) : List IKCPSEG → List IKCPSEG
  | [] => []
  | seg :: rest =>
    if _itimediff sn seg.sn < 0 then seg :: rest
    else (if sn ≠ seg.sn then { seg with fastack := seg.fastack + 1 } else seg) ::
      passFastack sn rest

def ikcp_parse_fastack (kcp : IKCPCB) (sn : BitVec 32) : IKCPCB :=
  if _itimediff sn kcp.snd_una < 0 ∨ 0 ≤ _itimediff sn kcp.snd_nxt then kcp
  else { kcp with snd_buf := passFastack sn kcp.snd_buf }

def ikcp_ack_push (kcp : IKCPCB) (sn ts : BitVec 32) : IKCPCB :=
  { kcp with acklist := kcp.acklist ++ [(sn, ts)] }

/-! ## Received data -/

/-- The search goes from the last segment to the first; the list is reversed. Nothing is returned
if there is a segment with the sequence number. -/
def insertSeg (newseg : IKCPSEG) : List IKCPSEG → Option (List IKCPSEG)
  | [] => some [newseg]
  | seg :: prev =>
    if seg.sn = newseg.sn then none
    else if 0 < _itimediff newseg.sn seg.sn then some (newseg :: seg :: prev)
    else (insertSeg newseg prev).map (seg :: ·)

def ikcp_parse_data (kcp : IKCPCB) (newseg : IKCPSEG) : IKCPCB :=
  if 0 ≤ _itimediff newseg.sn (kcp.rcv_nxt + kcp.rcv_wnd) ∨
      _itimediff newseg.sn kcp.rcv_nxt < 0 then kcp
  else
    let kcp :=
      match insertSeg newseg kcp.rcv_buf.reverse with
      | some segs => { kcp with rcv_buf := segs.reverse, nrcv_buf := kcp.nrcv_buf + 1 }
      | none => kcp
    kcp.moveAvailable kcp.rcv_buf

/-! ## Input -/

/-- The greatest sequence number that has been acknowledged in a datagram, with its timestamp. -/
abbrev MaxAck := Option (BitVec 32 × BitVec 32)

def maxAck (sn ts : BitVec 32) : MaxAck → MaxAck
  | none => some (sn, ts)
  | some (maxack, latest_ts) =>
    if 0 < _itimediff sn maxack then some (sn, ts) else some (maxack, latest_ts)

/-- The segment that is made of a header and the data behind it. -/
def segmentOf (hdr : Header) (data : List UInt8) : IKCPSEG where
  conv := hdr.conv
  cmd := hdr.cmd.setWidth 32
  frg := hdr.frg.setWidth 32
  wnd := hdr.wnd.setWidth 32
  ts := hdr.ts
  sn := hdr.sn
  una := hdr.una
  resendts := 0
  rto := 0
  fastack := 0
  xmit := 0
  data := data

/-- What every segment tells: the window of the remote end, and what it has received. -/
def inputUna (kcp : IKCPCB) (hdr : Header) : IKCPCB :=
  ({ kcp with rmt_wnd := hdr.wnd.setWidth 32 }.ikcp_parse_una hdr.una).ikcp_shrink_buf

def inputAck (kcp : IKCPCB) (hdr : Header) : IKCPCB :=
  let kcp :=
    if 0 ≤ _itimediff kcp.current hdr.ts then kcp.ikcp_update_ack (kcp.current - hdr.ts) else kcp
  (kcp.ikcp_parse_ack hdr.sn).ikcp_shrink_buf

def inputPush (kcp : IKCPCB) (hdr : Header) (data : List UInt8) : IKCPCB :=
  if _itimediff hdr.sn (kcp.rcv_nxt + kcp.rcv_wnd) < 0 then
    if 0 ≤ _itimediff hdr.sn kcp.rcv_nxt then
      (kcp.ikcp_ack_push hdr.sn hdr.ts).ikcp_parse_data (segmentOf hdr data)
    else kcp.ikcp_ack_push hdr.sn hdr.ts
  else kcp

/-- What is done with a segment, after the checks. -/
def inputSegment (kcp : IKCPCB) (maxack : MaxAck) (hdr : Header) (data : List UInt8) :
    IKCPCB × MaxAck :=
  let kcp := kcp.inputUna hdr
  let cmd := hdr.cmd.setWidth 32
  if cmd = IKCP_CMD_ACK then (kcp.inputAck hdr, maxAck hdr.sn hdr.ts maxack)
  else if cmd = IKCP_CMD_PUSH then (kcp.inputPush hdr data, maxack)
  else if cmd = IKCP_CMD_WASK then ({ kcp with probe := kcp.probe ||| IKCP_ASK_TELL }, maxack)
  else (kcp, maxack)

/-- The segments of a datagram, one after the other. The result is the error that ends the loop, if
there is one. Each round takes at least a header. -/
def inputLoop : ℕ → IKCPCB → MaxAck → List UInt8 → Except Fault (IKCPCB × (ℤ ⊕ MaxAck))
  | 0, kcp, maxack, _ => .ok (kcp, .inr maxack)
  | n + 1, kcp, maxack, data =>
    if data.length < IKCP_OVERHEAD then .ok (kcp, .inr maxack)
    else do
      let (hdr, data) ← decodeHeader data
      if hdr.conv ≠ kcp.conv then .ok (kcp, .inl (-1))
      else if data.length < hdr.len.toNat ∨ hdr.len.toInt < 0 then .ok (kcp, .inl (-2))
      else if hdr.cmd.setWidth 32 ∉ [IKCP_CMD_PUSH, IKCP_CMD_ACK, IKCP_CMD_WASK, IKCP_CMD_WINS] then
        .ok (kcp, .inl (-3))
      else
        let (kcp, maxack) := kcp.inputSegment maxack hdr (data.take hdr.len.toNat)
        inputLoop n kcp maxack (data.drop hdr.len.toNat)

/-- The congestion window grows when something has been acknowledged. -/
def growCwnd (kcp : IKCPCB) : Except Fault IKCPCB :=
  let mss := kcp.mss
  let bound (kcp : IKCPCB) : IKCPCB :=
    if kcp.rmt_wnd < kcp.cwnd then { kcp with cwnd := kcp.rmt_wnd, incr := kcp.rmt_wnd * mss }
    else kcp
  if kcp.cwnd < kcp.ssthresh then
    .ok (bound { kcp with cwnd := kcp.cwnd + 1, incr := kcp.incr + mss })
  else
    let incr := if kcp.incr < mss then mss else kcp.incr
    if incr = 0 then .error .divideByZero
    else
      let incr := incr + (mss * mss / incr + mss / 16)
      .ok (bound { kcp with
        incr := incr
        cwnd := if (kcp.cwnd + 1) * mss ≤ incr then kcp.cwnd + 1 else kcp.cwnd })

def inputFastack (kcp : IKCPCB) : MaxAck → IKCPCB
  | some (sn, _) => kcp.ikcp_parse_fastack sn
  | none => kcp

/-- What is done when all segments have been read. -/
def inputDone (kcp : IKCPCB) (prev_una : BitVec 32) (maxack : MaxAck) : Except Fault IKCPCB :=
  let kcp := kcp.inputFastack maxack
  if 0 < _itimediff kcp.snd_una prev_una ∧ kcp.cwnd < kcp.rmt_wnd then kcp.growCwnd else .ok kcp

/-- The result is 0 or an error. -/
def ikcp_input (kcp : IKCPCB) (data : List UInt8) : Except Fault (IKCPCB × ℤ) :=
  if intT data.length < IKCP_OVERHEAD then .ok (kcp, -1)
  else do
    let prev_una := kcp.snd_una
    let (kcp, result) ← inputLoop data.length kcp none data
    match result with
    | .inl error => .ok (kcp, error)
    | .inr maxack => do
      let kcp ← kcp.inputDone prev_una maxack
      .ok (kcp, 0)

def ikcp_wnd_unused (kcp : IKCPCB) : BitVec 32 :=
  if kcp.nrcv_que < kcp.rcv_wnd then kcp.rcv_wnd - kcp.nrcv_que else 0

/-! ## Output -/

/-- The datagrams that have been output, and what has been written to `buffer` since. -/
structure Output where
  sent : List (List UInt8) := []
  buffer : List UInt8 := []

namespace Output

/-- `ikcp_output` of what is in the buffer. Nothing is sent if that is nothing. -/
def output (o : Output) : Output :=
  if o.buffer = [] then o else { sent := o.sent ++ [o.buffer], buffer := [] }

/-- The buffer is output if `need` bytes more are too many for a datagram. -/
def reserve (o : Output) (kcp : IKCPCB) (need : ℕ) : Output :=
  if kcp.mtu.toInt < o.buffer.length + need then o.output else o

def write (o : Output) (kcp : IKCPCB) (bytes : List UInt8) : Except Fault Output :=
  if o.buffer.length + bytes.length ≤ kcp.bufferSize then
    .ok { o with buffer := o.buffer ++ bytes }
  else .error .overflow

/-- A segment goes into the buffer. -/
def push (o : Output) (kcp : IKCPCB) (seg : IKCPSEG) : Except Fault Output :=
  (o.reserve kcp (IKCP_OVERHEAD + seg.data.length)).write kcp seg.bytes

end Output

/-! ## Flushing -/

/-- The segment without data that acknowledgements and probes are made of. -/
def controlSegment (kcp : IKCPCB) : IKCPSEG where
  conv := kcp.conv
  cmd := IKCP_CMD_ACK
  frg := 0
  wnd := kcp.ikcp_wnd_unused
  ts := 0
  sn := 0
  una := kcp.rcv_nxt
  resendts := 0
  rto := 0
  fastack := 0
  xmit := 0
  data := []

/-- The acknowledgements are flushed. The segment keeps the numbers of the last one. -/
def flushAcks (kcp : IKCPCB) : List (BitVec 32 × BitVec 32) → IKCPSEG → Output →
    Except Fault (IKCPSEG × Output)
  | [], seg, o => .ok (seg, o)
  | (sn, ts) :: acks, seg, o => do
    let seg := { seg with sn := sn, ts := ts }
    let o ← o.push kcp seg
    flushAcks kcp acks seg o

/-- The remote window is probed if its size is zero. -/
def probeWindow (kcp : IKCPCB) : IKCPCB :=
  if kcp.rmt_wnd = 0 then
    if kcp.probe_wait = 0 then
      { kcp with probe_wait := IKCP_PROBE_INIT, ts_probe := kcp.current + IKCP_PROBE_INIT }
    else if 0 ≤ _itimediff kcp.current kcp.ts_probe then
      let wait := if kcp.probe_wait < IKCP_PROBE_INIT then IKCP_PROBE_INIT else kcp.probe_wait
      let wait := wait + wait / 2
      let wait := if IKCP_PROBE_LIMIT < wait then IKCP_PROBE_LIMIT else wait
      { kcp with
        probe_wait := wait
        ts_probe := kcp.current + wait
        probe := kcp.probe ||| IKCP_ASK_SEND }
    else kcp
  else { kcp with ts_probe := 0, probe_wait := 0 }

/-- A command is flushed if it has been asked for. -/
def flushProbe (kcp : IKCPCB) (ask cmd : BitVec 32) (seg : IKCPSEG) (o : Output) :
    Except Fault (IKCPSEG × Output) :=
  if kcp.probe &&& ask ≠ 0 then do
    let seg := { seg with cmd := cmd }
    let o ← o.push kcp seg
    .ok (seg, o)
  else .ok (seg, o)

/-- What a segment is when it gets its sequence number. -/
def numbered (kcp : IKCPCB) (wnd : BitVec 32) (newseg : IKCPSEG) : IKCPSEG :=
  { newseg with
    conv := kcp.conv
    cmd := IKCP_CMD_PUSH
    wnd := wnd
    ts := kcp.current
    sn := kcp.snd_nxt
    una := kcp.rcv_nxt
    resendts := kcp.current
    rto := kcp.rx_rto
    fastack := 0
    xmit := 0 }

/-- Move data from `snd_queue` to `snd_buf`, as far as the window allows. -/
def moveToSndBuf (cwnd wnd : BitVec 32) (kcp : IKCPCB) : List IKCPSEG → IKCPCB
  | [] => { kcp with snd_queue := [] }
  | newseg :: rest =>
    if _itimediff kcp.snd_nxt (kcp.snd_una + cwnd) < 0 then
      moveToSndBuf cwnd wnd { kcp with
        snd_buf := kcp.snd_buf ++ [kcp.numbered wnd newseg]
        nsnd_que := kcp.nsnd_que - 1
        nsnd_buf := kcp.nsnd_buf + 1
        snd_nxt := kcp.snd_nxt + 1 } rest
    else { kcp with snd_queue := newseg :: rest }

/-- Why a segment is sent. -/
inductive Resend
  | first
  | timeout
  | fast
  deriving DecidableEq

/-- Whether a segment is sent now, and how often and when again. -/
def resend (kcp : IKCPCB) (resent rtomin : BitVec 32) (segment : IKCPSEG) :
    Option (IKCPSEG × Resend) :=
  if segment.xmit = 0 then
    some ({ segment with
      xmit := segment.xmit + 1
      rto := kcp.rx_rto
      resendts := kcp.current + kcp.rx_rto + rtomin }, .first)
  else if 0 ≤ _itimediff kcp.current segment.resendts then
    let rto := segment.rto + if kcp.nodelay = 0 then kcp.rx_rto else kcp.rx_rto.sdiv 2
    some ({ segment with
      xmit := segment.xmit + 1
      rto := rto
      resendts := kcp.current + rto }, .timeout)
  else if resent ≤ segment.fastack then
    if segment.xmit.toInt ≤ kcp.fastlimit ∨ kcp.fastlimit ≤ 0 then
      some ({ segment with
        xmit := segment.xmit + 1
        fastack := 0
        resendts := kcp.current + segment.rto }, .fast)
    else none
  else none

/-- The segments that have been visited, and what has been found. -/
structure Flushed where
  segs : List IKCPSEG
  xmit : BitVec 32
  state : BitVec 32
  output : Output
  change : Bool
  lost : Bool

/-- A data segment is flushed if it is to be sent. -/
def flushSegment (kcp : IKCPCB) (resent rtomin wnd : BitVec 32) (f : Flushed)
    (segment : IKCPSEG) : Except Fault Flushed :=
  match kcp.resend resent rtomin segment with
  | none => .ok { f with segs := f.segs ++ [segment] }
  | some (segment, why) => do
    let segment := { segment with ts := kcp.current, wnd := wnd, una := kcp.rcv_nxt }
    let o ← f.output.push kcp segment
    .ok {
      segs := f.segs ++ [segment]
      xmit := if why = .timeout then f.xmit + 1 else f.xmit
      state := if kcp.dead_link ≤ segment.xmit then -1 else f.state
      output := o
      change := f.change || why = .fast
      lost := f.lost || why = .timeout }

/-- The congestion window after a flush. -/
def adjustCwnd (kcp : IKCPCB) (change lost : Bool) (resent cwnd : BitVec 32) : IKCPCB :=
  let atLeast (n : BitVec 32) := if n < IKCP_THRESH_MIN then IKCP_THRESH_MIN else n
  let kcp :=
    if change then
      let ssthresh := atLeast ((kcp.snd_nxt - kcp.snd_una) / 2)
      { kcp with
        ssthresh := ssthresh
        cwnd := ssthresh + resent
        incr := (ssthresh + resent) * kcp.mss }
    else kcp
  let kcp :=
    if lost then { kcp with ssthresh := atLeast (cwnd / 2), cwnd := 1, incr := kcp.mss } else kcp
  if kcp.cwnd < 1 then { kcp with cwnd := 1, incr := kcp.mss } else kcp

/-- The window of a flush. -/
def flushCwnd (kcp : IKCPCB) : BitVec 32 :=
  let cwnd := _imin_ kcp.snd_wnd kcp.rmt_wnd
  if kcp.nocwnd = 0 then _imin_ kcp.cwnd cwnd else cwnd

/-- The acknowledgements and the commands are flushed. -/
def flushControl (kcp : IKCPCB) : Except Fault (IKCPCB × IKCPSEG × Output) := do
  let (seg, o) ← kcp.flushAcks kcp.acklist kcp.controlSegment {}
  let kcp := { kcp with acklist := [] }.probeWindow
  let (seg, o) ← kcp.flushProbe IKCP_ASK_SEND IKCP_CMD_WASK seg o
  let (seg, o) ← kcp.flushProbe IKCP_ASK_TELL IKCP_CMD_WINS seg o
  .ok ({ kcp with probe := 0 }, seg, o)

/-- The data segments are flushed, and the congestion window is adjusted. -/
def flushData (kcp : IKCPCB) (cwnd wnd : BitVec 32) (o : Output) :
    Except Fault (IKCPCB × List (List UInt8)) := do
  let resent := if 0 < kcp.fastresend then BitVec.ofInt 32 kcp.fastresend else -1
  let rtomin := if kcp.nodelay = 0 then kcp.rx_rto.sshiftRight 3 else 0
  let f ← kcp.snd_buf.foldlM (kcp.flushSegment resent rtomin wnd)
    { segs := [], xmit := kcp.xmit, state := kcp.state, output := o, change := false,
      lost := false }
  let kcp := { kcp with snd_buf := f.segs, xmit := f.xmit, state := f.state }
  .ok (kcp.adjustCwnd f.change f.lost resent cwnd, f.output.output.sent)

/-- The datagrams that are output, in order. -/
def ikcp_flush (kcp : IKCPCB) : Except Fault (IKCPCB × List (List UInt8)) :=
  if kcp.updated = 0 then .ok (kcp, [])
  else do
    let (kcp, seg, o) ← kcp.flushControl
    let cwnd := kcp.flushCwnd
    (moveToSndBuf cwnd seg.wnd kcp kcp.snd_queue).flushData cwnd seg.wnd o

/-! ## Time -/

/-- The first update starts the clock. -/
def startClock (kcp : IKCPCB) (current : BitVec 32) : IKCPCB :=
  if kcp.updated = 0 then { kcp with current := current, updated := 1, ts_flush := current }
  else { kcp with current := current }

def ikcp_update (kcp : IKCPCB) (current : BitVec 32) : Except Fault (IKCPCB × List (List UInt8)) :=
  let kcp := kcp.startClock current
  let slap := _itimediff current kcp.ts_flush
  let outside := 10000 ≤ slap ∨ slap < -10000
  let ts_flush := (if outside then current else kcp.ts_flush) + kcp.interval
  if outside ∨ 0 ≤ slap then
    { kcp with
      ts_flush := if 0 ≤ _itimediff current ts_flush then current + kcp.interval else ts_flush
    }.ikcp_flush
  else .ok (kcp, [])

/-- The least time to a segment that is to be sent again, if none is overdue. -/
def nextPacket (current : BitVec 32) : List IKCPSEG → ℤ → Option ℤ
  | [], tm_packet => some tm_packet
  | seg :: rest, tm_packet =>
    let diff := _itimediff seg.resendts current
    if diff ≤ 0 then none
    else nextPacket current rest (if diff < tm_packet then diff else tm_packet)

/-- When `ikcp_update` is to be called next. -/
def ikcp_check (kcp : IKCPCB) (current : BitVec 32) : BitVec 32 :=
  if kcp.updated = 0 then current
  else
    let slap := _itimediff current kcp.ts_flush
    let ts_flush := if 10000 ≤ slap ∨ slap < -10000 then current else kcp.ts_flush
    if 0 ≤ _itimediff current ts_flush then current
    else
      let tm_flush := _itimediff ts_flush current
      match nextPacket current kcp.snd_buf INT_MAX with
      | none => current
      | some tm_packet =>
        let minimal := BitVec.ofInt 32 (if tm_packet < tm_flush then tm_packet else tm_flush)
        current + if kcp.interval ≤ minimal then kcp.interval else minimal

/-! ## Settings -/

def ikcp_setmtu (kcp : IKCPCB) (mtu : ℤ) : IKCPCB × ℤ :=
  if mtu < 50 ∨ mtu < IKCP_OVERHEAD then (kcp, -1)
  else
    ({ kcp with
      mtu := BitVec.ofInt 32 mtu
      mss := BitVec.ofInt 32 mtu - BitVec.ofNat 32 IKCP_OVERHEAD }, 0)

def boundInterval (interval : ℤ) : ℤ :=
  if 5000 < interval then 5000 else if interval < 10 then 10 else interval

def ikcp_interval (kcp : IKCPCB) (interval : ℤ) : IKCPCB :=
  { kcp with interval := BitVec.ofInt 32 (boundInterval interval) }

def ikcp_nodelay (kcp : IKCPCB) (nodelay interval resend nc : ℤ) : IKCPCB :=
  let kcp :=
    if 0 ≤ nodelay then
      { kcp with
        nodelay := BitVec.ofInt 32 nodelay
        rx_minrto := if nodelay ≠ 0 then IKCP_RTO_NDL else IKCP_RTO_MIN }
    else kcp
  let kcp := if 0 ≤ interval then kcp.ikcp_interval interval else kcp
  let kcp := if 0 ≤ resend then { kcp with fastresend := resend } else kcp
  if 0 ≤ nc then { kcp with nocwnd := nc } else kcp

def ikcp_wndsize (kcp : IKCPCB) (sndwnd rcvwnd : ℤ) : IKCPCB :=
  let kcp := if 0 < sndwnd then { kcp with snd_wnd := BitVec.ofInt 32 sndwnd } else kcp
  if 0 < rcvwnd then { kcp with rcv_wnd := _imax_ (BitVec.ofInt 32 rcvwnd) IKCP_WND_RCV } else kcp

def ikcp_waitsnd (kcp : IKCPCB) : ℤ := (kcp.nsnd_buf + kcp.nsnd_que).toInt

end IKCPCB

end CodingDemo.Kcp
